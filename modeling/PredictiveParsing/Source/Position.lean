import PredictiveParsing.Text.Basic

/-!
# Positions

A place of a text: its line and column, counted from one, and its byte offset. Positions are
compared by offset, then line, then column, so that on the positions of one text the order is
reading order.
-/

namespace PredictiveParsing

/-- A place of a text. -/
structure Position where
  /-- Counted from one. -/
  line : Nat
  /-- Scalars from the start of the line, counted from one. -/
  column : Nat
  /-- Bytes from the start of the text. -/
  offset : Nat
deriving DecidableEq, Repr, Inhabited

namespace Position

/-- The place before the first scalar. -/
def start : Position := ⟨1, 1, 0⟩

/-- The order by offset, then line, then column. -/
def cmp (a b : Position) : Ordering :=
  (compare a.offset b.offset).then ((compare a.line b.line).then (compare a.column b.column))

instance : Ord Position := ⟨cmp⟩

/-- The later of two positions. -/
def max (a b : Position) : Position :=
  if cmp a b = .gt then a else b

/-- The earlier of two positions. -/
def min (a b : Position) : Position :=
  if cmp a b = .gt then b else a

/-- Line and column. -/
protected def toString (p : Position) : String :=
  toString p.line ++ ":" ++ toString p.column

instance : ToString Position := ⟨Position.toString⟩

/-- All three numbers. -/
def inspect (p : Position) : String :=
  "Position \x7b line: " ++ toString p.line ++ ", column: " ++ toString p.column ++ ", offset: " ++
    toString p.offset ++ " \x7d"

/-- The place after one more scalar: a newline begins the next line. -/
def next (p : Position) (c : Char) : Position :=
  if c = '\n' then ⟨p.line + 1, 1, p.offset + c.utf8Size⟩
  else ⟨p.line, p.column + 1, p.offset + c.utf8Size⟩

/-- The place after a text. -/
def after (p : Position) (text : Text) : Position :=
  text.foldl next p

@[simp] theorem after_nil (p : Position) : p.after [] = p := rfl

@[simp] theorem after_cons (p : Position) (c : Char) (cs : Text) :
    p.after (c :: cs) = (p.next c).after cs := rfl

@[simp] theorem after_append (p : Position) (a b : Text) :
    p.after (a ++ b) = (p.after a).after b := by
  simp [after]

@[simp] theorem next_offset (p : Position) (c : Char) :
    (p.next c).offset = p.offset + c.utf8Size := by
  unfold next
  split <;> rfl

theorem after_offset (p : Position) (text : Text) :
    (p.after text).offset = p.offset + text.byteLength := by
  induction text generalizing p with
  | nil => simp
  | cons c cs ih => simp [ih, Nat.add_assoc]

end Position

end PredictiveParsing
