import PredictiveParsing.Regex.Bracket

/-!
# Symbols of written patterns

`Symbol.read?` splits a written pattern into symbols: atoms, brackets of groups, bars, repetitions
and flags. Each atom is read in the mode of its place, so a symbol does not depend on the mode.
-/

namespace PredictiveParsing.Regex

/-- A symbol of a written pattern. -/
inductive Symbol
  /-- A pattern, and how deeply it nests. -/
  | atom (p : Pattern) (depth : Nat)
  /-- Flags for what follows. -/
  | flags
  /-- The start of a group, which may have a number or a name. -/
  | openGroup (numbered : Bool)
  | closeGroup
  | bar
  /-- A repetition of the atom or group before it. -/
  | times (greedy : Bool) (least : Nat) (most : Option Nat)
deriving DecidableEq, Repr

/-- What has to be known of the symbols before a place. -/
structure Reading where
  mode : Mode
  /-- The modes around the open groups, the innermost first. -/
  outer : List Mode
  /-- The names of groups. -/
  names : List Text
deriving DecidableEq, Repr

/-- The decimal number at the start of a text, and what follows it. Blanks around it do not count,
and it has to be less than 2 to the power of 32. -/
def decimal? (mode : Mode) (cs : Text) : Option (Nat × Text) :=
  match mode.takeAll Char.isDigit (cs.dropWhile Text.isBlank) with
  | ([], _) => none
  | (digits, rest) =>
    let n := digits.foldl (fun n d => 10 * n + (d.toNat - '0'.toNat)) 0
    if n < 4294967296 then some (n, mode.skip (rest.dropWhile Text.isBlank)) else none

/-- The bounds of a counted repetition behind its opening brace, and what follows its closing
brace. -/
def bounds? (mode : Mode) (cs : Text) : Option ((Nat × Option Nat) × Text) := do
  let (least, rest) ← decimal? mode (mode.skip cs)
  match rest with
  | '\x7d' :: rest => some ((least, some least), rest)
  | ',' :: rest =>
    match mode.skip rest with
    | '\x7d' :: rest => some ((least, none), rest)
    | rest => do
      let (most, rest) ← decimal? mode rest
      match rest with
      | '\x7d' :: rest => if least ≤ most then some ((least, some most), rest) else none
      | _ => none
  | _ => none

/-- The name of a group, and what follows its closing angle bracket. A name begins with an
underscore or a word scalar other than a digit, and goes on with these, digits, dots and square
brackets. -/
def groupName? (cs : Text) : Option (Text × Text) :=
  let isNameScalar (c : Char) := Text.isWordScalar c || c == '.' || c == '[' || c == ']'
  match cs.takeWhile isNameScalar, cs.dropWhile isNameScalar with
  | first :: name, '>' :: rest =>
    if Text.isWordScalar first && !Text.isDecimalDigit first then some (first :: name, rest)
    else none
  | _, _ => none

namespace Symbol

/-- A repetition. A question mark behind it makes it lazy. -/
def ofBounds (reading : Reading) (least : Nat) (most : Option Nat) (cs : Text) :
    Symbol × Reading × Text :=
  match cs with
  | '?' :: rest => (times reading.mode.swapped least most, reading, rest)
  | rest => (times (!reading.mode.swapped) least most, reading, rest)

/-- A group that begins in a mode. -/
def ofGroup (numbered : Bool) (mode : Mode) (reading : Reading) (cs : Text) :
    Symbol × Reading × Text :=
  (openGroup numbered, { reading with mode := mode, outer := reading.mode :: reading.outer }, cs)

/-- A group with a name, which no group before it has. -/
def ofNamedGroup? (reading : Reading) (cs : Text) : Option (Symbol × Reading × Text) := do
  let (name, rest) ← groupName? cs
  if reading.names.contains name then none
  else some (ofGroup true reading.mode { reading with names := name :: reading.names } rest)

/-- What an opening bracket begins: a group, or flags. There is no look ahead or behind. -/
def ofBracket? (reading : Reading) (cs : Text) : Option (Symbol × Reading × Text) :=
  match reading.mode.skip cs with
  | '?' :: '=' :: _ | '?' :: '!' :: _ | '?' :: '<' :: '=' :: _ | '?' :: '<' :: '!' :: _ => none
  | '?' :: 'P' :: '<' :: cs | '?' :: '<' :: cs => ofNamedGroup? reading cs
  | '?' :: cs => do
    let (mode, hasColon, rest) ← reading.mode.readFlags? [] cs
    if hasColon then some (ofGroup false mode reading rest)
    else some (flags, { reading with mode := mode }, rest)
  | cs => some (ofGroup true reading.mode reading cs)

/-- The symbol that begins with the scalar `c`, and what follows it. -/
def next? (reading : Reading) (c : Char) (cs : Text) : Option (Symbol × Reading × Text) :=
  let mode := reading.mode
  let ofPattern (p : Pattern) := some (atom p 0, reading, cs)
  match c with
  | '(' => ofBracket? reading cs
  | ')' =>
    match reading.outer with
    | [] => none
    | mode :: outer => some (closeGroup, { reading with mode := mode, outer := outer }, cs)
  | '|' => some (bar, reading, cs)
  | '*' => some (ofBounds reading 0 none cs)
  | '+' => some (ofBounds reading 1 none cs)
  | '?' => some (ofBounds reading 0 (some 1) cs)
  | '\x7b' =>
    (bounds? mode cs).map fun ((least, most), rest) =>
      ofBounds reading least most (mode.skip rest)
  | '[' => (bracketedClass? mode cs).map fun (part, rest) =>
    (atom (.one part.set) part.depth, reading, rest)
  | '.' => mode.dot?.bind ofPattern
  | '^' => ofPattern (.holds mode.startAnchor)
  | '$' => ofPattern (.holds mode.endAnchor)
  | '\\' =>
    (escape? mode cs).map fun (escaped, rest) =>
      match escaped with
      | .scalar c => (atom (mode.literal c) 0, reading, rest)
      | .set s => (atom (.one s) 0, reading, rest)
      | .assertion a => (atom (.holds a) 0, reading, rest)
  | c => ofPattern (mode.literal c)

/-- The symbols of a written pattern. The number bounds their count. -/
def readFrom? : Nat → Reading → Text → Option (List Symbol)
  | n, reading, cs =>
    match n, reading.mode.skip cs with
    | _, [] => some []
    | 0, _ => none
    | n + 1, c :: cs => do
      let (symbol, reading, rest) ← next? reading c cs
      (readFrom? n reading rest).map (symbol :: ·)

/-- The symbols of a written pattern. -/
def read? (text : Text) : Option (List Symbol) :=
  readFrom? text.length ⟨.plain, [], []⟩ text

end Symbol

end PredictiveParsing.Regex
