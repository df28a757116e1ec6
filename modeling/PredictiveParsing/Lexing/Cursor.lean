import PredictiveParsing.Source.TextSlice

/-!
# Cursors

A cursor walks forward over one input. It keeps the input, the part still unread and the position in
between.
-/

namespace PredictiveParsing

/-- A place in an input. -/
structure Cursor where
  /-- The whole input. -/
  input : Text
  /-- The unread part. -/
  rest : Text
  position : Position
deriving DecidableEq, Repr, Inhabited

namespace Cursor

/-- The cursor at the start of an input. -/
def ofInput (input : Text) : Cursor := ⟨input, input, .start⟩

/-- True at the end of the input. -/
def atEnd (c : Cursor) : Bool := c.rest.isEmpty

/-- The next `count` bytes. -/
def sliceAhead (c : Cursor) (count : Nat) : Except Fault TextSlice := do
  let stop ← checkedAdd c.position.offset count
  match c.rest.cut count with
  | some (text, _) => return ⟨text, c.position.offset⟩
  | none => throw (.badSlice c.position.offset stop c.input.byteLength)

/-- Moves over the next `count` bytes. -/
def advance (c : Cursor) (count : Nat) : Except Fault Cursor := do
  let _ ← checkedAdd c.position.offset count
  match c.rest.cut count with
  | some (text, rest) =>
    let position ← c.position.advance text
    return ⟨c.input, rest, position⟩
  | none => throw (.badAdvance count c.position.offset c.input.byteLength)

end Cursor

end PredictiveParsing
