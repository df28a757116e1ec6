import PredictiveParsing.Regex.Mode

/-!
# Escapes

What a backslash makes of the text behind it: a single scalar, a named kind of scalars, or an
assertion. `escape?` answers nothing for an escape that has no meaning.
-/

namespace PredictiveParsing.Regex

/-- What an escape stands for. -/
inductive Escaped
  | scalar (c : Char)
  | set (s : ScalarSet)
  | assertion (a : Assertion)
deriving DecidableEq, Repr

/-- True for hexadecimal digits. -/
def isHexDigit (c : Char) : Bool :=
  c.isDigit || ('a' ≤ c && c ≤ 'f') || ('A' ≤ c && c ≤ 'F')

/-- The value of a hexadecimal digit. -/
def hexDigitValue (c : Char) : Nat :=
  if c.isDigit then c.toNat - '0'.toNat
  else if c ≤ 'F' then c.toNat - 'A'.toNat + 10
  else c.toNat - 'a'.toNat + 10

/-- The scalar whose code hexadecimal digits write. -/
def scalarOfHex? (digits : Text) : Option Char :=
  let n := digits.foldl (fun n d => 16 * n + hexDigitValue d) 0
  if n.isValidChar then some (Char.ofNat n) else none

/-- A code of `width` hexadecimal digits, or of any number of them between braces, and what follows
it. Two digits write no scalar beyond ASCII where classes are made of ASCII scalars. -/
def hexScalar? (mode : Mode) (width : Nat) (cs : Text) : Option (Char × Text) :=
  match mode.skip cs with
  | '\x7b' :: cs =>
    match mode.takeAll isHexDigit cs with
    | (d :: ds, '\x7d' :: rest) => (scalarOfHex? (d :: ds)).map fun c => (c, mode.skip rest)
    | _ => none
  | cs =>
    let (digits, rest) := mode.take isHexDigit width false cs
    if digits.length = width then do
      let c ← scalarOfHex? digits
      if mode.ascii && width == 2 && 0x80 ≤ c.toNat then none else some (c, rest)
    else none

/-- The word edges that are written by name. -/
def wordEdge? (name : Text) : Option WordEdge :=
  match String.ofList name with
  | "start" => some .start
  | "end" => some .stop
  | "start-half" => some .startHalf
  | "end-half" => some .stopHalf
  | _ => none

/-- A word boundary, or the word edge whose name follows between braces. A brace in front of
anything but a name is left to be read as a count. -/
def boundary? (mode : Mode) (cs : Text) : Option (Escaped × Text) :=
  let plain : Escaped := .assertion (.word .boundary mode.ascii)
  let isNameScalar (c : Char) := c.isAlpha || c == '-'
  match cs with
  | '\x7b' :: inner =>
    match mode.skip inner with
    | [] => none
    | c :: _ =>
      if isNameScalar c then
        match mode.takeAll isNameScalar inner with
        | (name, '\x7d' :: rest) =>
          (wordEdge? name).map fun edge => (.assertion (.word edge mode.ascii), rest)
        | _ => none
      else some (plain, cs)
  | _ => some (plain, cs)

/-- The scalar that an escape of one scalar stands for: a control, or any ASCII scalar that is no
letter or digit and no angle bracket. -/
def escapedScalar? (c : Char) : Option Char :=
  match c with
  | 'n' => some '\n'
  | 't' => some '\t'
  | 'r' => some '\r'
  | 'f' => some '\x0c'
  | 'v' => some '\x0b'
  | 'a' => some '\x07'
  | c => if c.toNat < 0x80 && !c.isAlphanum && c != '<' && c != '>' then some c else none

/-- What the text behind a backslash stands for, and what follows it. -/
def escape? (mode : Mode) : Text → Option (Escaped × Text)
  | [] => none
  | c :: cs =>
    let kind (k : NamedClass) (negated : Bool) :=
      (mode.named? k negated).map fun s => (Escaped.set s, cs)
    let scalar := Option.map fun ((c, rest) : Char × Text) => (Escaped.scalar c, rest)
    let edge (e : WordEdge) := some (Escaped.assertion (.word e mode.ascii), cs)
    match c with
    | 'd' => kind .digit false
    | 'D' => kind .digit true
    | 'w' => kind .word false
    | 'W' => kind .word true
    | 's' => kind .blank false
    | 'S' => kind .blank true
    | 'x' => scalar (hexScalar? mode 2 cs)
    | 'u' => scalar (hexScalar? mode 4 cs)
    | 'U' => scalar (hexScalar? mode 8 cs)
    | 'A' => some (.assertion .textStart, cs)
    | 'z' => some (.assertion .textEnd, cs)
    | 'b' => boundary? mode cs
    | 'B' => edge .interior
    | '<' => edge .start
    | '>' => edge .stop
    | c => (escapedScalar? c).map fun c => (.scalar c, cs)

end PredictiveParsing.Regex
