import PredictiveParsing.Regex.Escape

/-!
# Bracketed classes

A class between brackets holds single scalars, ranges, named kinds and further classes, may be
negated, and may join sets by operators: `&&` for what both sides hold, `--` for what only the left
one holds, `~~` for what only one of them holds. All operators bind alike, to the left.

`bracketedClass?` reads a class and answers with its set how deeply it nests.
-/

namespace PredictiveParsing.Regex

/-- The operators between sets. -/
inductive SetOperator
  | inter
  | diff
  | symmDiff
deriving DecidableEq, Repr

/-- What an operator makes of two sets. -/
def SetOperator.apply : SetOperator → ScalarSet → ScalarSet → ScalarSet
  | inter => .inter
  | diff => .diff
  | symmDiff => .symmDiff

/-- A part of a class: its set, and how deeply it nests. -/
structure ClassPart where
  set : ScalarSet
  depth : Nat
deriving DecidableEq, Repr

/-- A class whose closing bracket has not been read. -/
structure OpenClass where
  negated : Bool
  /-- What stands in front of the last operator, and the operator. -/
  left : Option (ClassPart × SetOperator)
  /-- The number of items behind the last operator. -/
  count : Nat
  /-- The items behind the last operator. -/
  items : ClassPart
deriving DecidableEq, Repr

namespace OpenClass

/-- A class without items. -/
def fresh (negated : Bool) : OpenClass := ⟨negated, none, 0, ⟨.none, 0⟩⟩

/-- Adds an item. -/
def add (o : OpenClass) (item : ClassPart) : OpenClass :=
  { o with
    count := o.count + 1
    items := ⟨o.items.set.union item.set, max o.items.depth item.depth⟩ }

/-- Adds the scalars from `low` to `high`. -/
def addRange (o : OpenClass) (low high : Char) : OpenClass :=
  o.add ⟨.ofChars [(low, high)], 0⟩

/-- What has been read, joined by the operators. Several items nest one level deeper than one. -/
def joined (mode : Mode) (o : OpenClass) : ClassPart :=
  let right : ClassPart := ⟨o.items.set, if 1 < o.count then o.items.depth + 1 else o.items.depth⟩
  match o.left with
  | none => right
  | some (left, operator) =>
    ⟨operator.apply (mode.withVariants left.set) (mode.withVariants right.set),
      max left.depth right.depth + 1⟩

/-- Puts an operator behind what has been read. -/
def operate (mode : Mode) (operator : SetOperator) (o : OpenClass) : OpenClass :=
  { fresh o.negated with left := some (o.joined mode, operator) }

/-- Closes the class. -/
def close? (mode : Mode) (o : OpenClass) : Option ClassPart :=
  let part := o.joined mode
  (mode.finishClass? o.negated part.set).map fun set => ⟨set, part.depth + 1⟩

end OpenClass

/-- A class behind its opening bracket, and what follows. Hyphens at its start stand for themselves,
and so does a closing bracket as its first item. -/
def openClass (mode : Mode) (cs : Text) : OpenClass × Text :=
  let cs := mode.skip cs
  let negated := cs.head? == some '^'
  let (hyphens, cs) := mode.takeAll (· == '-') (if negated then cs.drop 1 else cs)
  let opened := hyphens.foldl (fun o c => o.addRange c c) (.fresh negated)
  match hyphens, cs with
  | [], ']' :: cs => (opened.addRange ']' ']', mode.skip cs)
  | _, cs => (opened, cs)

/-- The class that is written by name between colons, behind its opening bracket, and what follows
its closing one. -/
def namedClass? (cs : Text) : Option (ScalarSet × Bool × Text) :=
  match cs with
  | ':' :: cs =>
    let negated := cs.head? == some '^'
    let cs := if negated then cs.drop 1 else cs
    match cs.dropWhile (· != ':') with
    | ':' :: ']' :: rest =>
      (bracketClass? (String.ofList (cs.takeWhile (· != ':')))).map fun s => (s, negated, rest)
    | _ => none
  | _ => none

/-- One item of a class that is neither a range nor a class in brackets, and what follows it: a
single scalar, or the set of a named kind. -/
def classItem? (mode : Mode) : Text → Option ((Char ⊕ ScalarSet) × Text)
  | [] => none
  | '\\' :: cs =>
    match escape? mode cs with
    | some (.scalar c, rest) => some (.inl c, rest)
    | some (.set s, rest) => some (.inr s, rest)
    | _ => none
  | c :: cs => some (.inl c, cs)

/-- The set of a single scalar or a range. Only ASCII scalars stand in a class of ASCII scalars. -/
def rangeSet? (mode : Mode) (low high : Char) : Option ScalarSet :=
  if high < low || (mode.ascii && 0x80 ≤ high.toNat) then none else some (.ofChars [(low, high)])

/-- One item of a class that is no class in brackets, and what follows it. A hyphen between two
single scalars makes a range; in front of a bracket it stands for itself, and in front of a hyphen
it begins an operator. -/
def classRange? (mode : Mode) (cs : Text) : Option (ScalarSet × Text) := do
  let (item, rest) ← classItem? mode cs
  let alone : Option (ScalarSet × Text) :=
    match item with
    | .inl c => (rangeSet? mode c c).map fun s => (s, rest)
    | .inr s => some (s, rest)
  match mode.skip rest with
  | '-' :: behind =>
    match mode.skip behind with
    | ']' :: _ | '-' :: _ => alone
    | bound => do
      let (last, rest) ← classItem? mode bound
      match item, last with
      | .inl low, .inl high => (rangeSet? mode low high).map fun s => (s, rest)
      | _, _ => none
  | _ => alone

/-- The rest of a class, and what follows it. The first number bounds the steps. -/
def classRest? (mode : Mode) :
    Nat → OpenClass → (outer : List OpenClass) → Text → Option (ClassPart × Text)
  | 0, _, _, _ => none
  | n + 1, o, outer, cs =>
    match mode.skip cs with
    | [] => none
    | '[' :: rest =>
      match namedClass? rest with
      | some (s, negated, rest) => do
        let s ← mode.finishClass? negated s
        classRest? mode n (o.add ⟨s, 0⟩) outer rest
      | none =>
        let (inner, rest) := openClass mode rest
        classRest? mode n inner (o :: outer) rest
    | ']' :: rest => do
      let part ← o.close? mode
      match outer with
      | [] => some (part, rest)
      | o :: outer => classRest? mode n (o.add part) outer rest
    | '&' :: '&' :: rest => classRest? mode n (o.operate mode .inter) outer rest
    | '-' :: '-' :: rest => classRest? mode n (o.operate mode .diff) outer rest
    | '~' :: '~' :: rest => classRest? mode n (o.operate mode .symmDiff) outer rest
    | cs => do
      let (s, rest) ← classRange? mode cs
      classRest? mode n (o.add ⟨s, 0⟩) outer rest

/-- The class behind an opening bracket, and what follows its closing one. -/
def bracketedClass? (mode : Mode) (cs : Text) : Option (ClassPart × Text) :=
  let (o, rest) := openClass mode cs
  classRest? mode rest.length.succ o [] rest

example : (bracketedClass? .plain "a-f&&[^c]]".toList).map (fun (part, _) => part.set.ranges) =
    some [(0x61, 0x62), (0x64, 0x66)] := by
  decide +kernel

example : (bracketedClass? .plain "+--]".toList).map (fun (part, _) => part.set.ranges) =
    some [(0x2B, 0x2B)] := by
  decide +kernel

end PredictiveParsing.Regex
