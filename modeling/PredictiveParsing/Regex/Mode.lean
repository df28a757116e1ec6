import PredictiveParsing.Regex.CharClass
import PredictiveParsing.Regex.Pattern
import PredictiveParsing.Text.Basic

/-!
# Modes of written patterns

Flags say how the text of a pattern is understood from some point on: `Mode` holds them. A mode
answers what stands for a literal scalar, the dot and the two anchors, and which part of the written
text is passed over.
-/

namespace PredictiveParsing.Regex

/-- How the text of a pattern is understood. -/
structure Mode where
  /-- A scalar stands for its case variants too. -/
  caseless : Bool
  /-- The anchors stand for the ends of lines. -/
  lines : Bool
  /-- The dot stands for every scalar. -/
  dotAll : Bool
  /-- Repetitions are lazy, and greedy if they are marked. -/
  swapped : Bool
  /-- Classes and words are made of ASCII scalars. -/
  ascii : Bool
  /-- A carriage return ends a line, too. -/
  crlf : Bool
  /-- Blanks and comments are passed over. -/
  spaced : Bool
deriving DecidableEq, Repr

namespace Mode

/-- The mode of a text without flags. -/
def plain : Mode := ⟨false, false, false, false, false, false, false⟩

/-- The mode with a flag set or taken back. The hyphen takes flags back and is none itself. -/
def withFlag? (mode : Mode) (flag : Char) (on : Bool) : Option Mode :=
  match flag with
  | 'i' => some { mode with caseless := on }
  | 'm' => some { mode with lines := on }
  | 's' => some { mode with dotAll := on }
  | 'U' => some { mode with swapped := on }
  | 'u' => some { mode with ascii := !on }
  | 'R' => some { mode with crlf := on }
  | 'x' => some { mode with spaced := on }
  | '-' => some mode
  | _ => none

/-- The mode behind flags, whether a colon ends them, and what follows the colon or the bracket that
ends them. No flag stands twice, and the hyphen once at most and not at the end. Flags that a
bracket ends are not empty. The last argument but one holds the flags before, the latest first. -/
def readFlags? (mode : Mode) (seen : List Char) : Text → Option (Mode × Bool × Text)
  | [] => none
  | ':' :: cs => if seen.head? == some '-' then none else some (mode, true, cs)
  | ')' :: cs => if seen.head? == some '-' || seen.isEmpty then none else some (mode, false, cs)
  | c :: cs =>
    if seen.contains c then none
    else (mode.withFlag? c (!seen.contains '-')).bind fun mode => mode.readFlags? (c :: seen) cs

/-- Up to `most` accepted scalars of a text, and what follows them. In a spaced mode, blanks and
comments in front, between and behind are passed over. -/
def take (mode : Mode) (accept : Char → Bool) :
    (most : Nat) → (inComment : Bool) → Text → Text × Text
  | _, _, [] => ([], [])
  | most, true, c :: cs => mode.take accept most (c != '\n') cs
  | most, false, c :: cs =>
    if mode.spaced && Text.isBlank c then mode.take accept most false cs
    else if mode.spaced && c == '#' then mode.take accept most true cs
    else
      match most with
      | 0 => ([], c :: cs)
      | most + 1 =>
        if accept c then
          let (taken, rest) := mode.take accept most false cs
          (c :: taken, rest)
        else ([], c :: cs)

/-- All accepted scalars at the start of a text, and what follows them. -/
def takeAll (mode : Mode) (accept : Char → Bool) (cs : Text) : Text × Text :=
  mode.take accept cs.length false cs

/-- The text without what is passed over at its start. -/
def skip (mode : Mode) (cs : Text) : Text :=
  (mode.take (fun _ => false) 0 false cs).2

/-- The set with the case variants that the mode asks for. -/
def withVariants (mode : Mode) (s : ScalarSet) : ScalarSet :=
  if mode.caseless then
    s.withVariants (if mode.ascii then Text.asciiVariants else Text.variants)
  else s

/-- The set of a class that may be negated. The complement of a set of ASCII scalars is none. -/
def finishClass? (mode : Mode) (negated : Bool) (s : ScalarSet) : Option ScalarSet :=
  let s := mode.withVariants s
  if negated then if mode.ascii then none else some s.complement else some s

/-- The scalars of a named kind, or all others. -/
def named? (mode : Mode) (kind : NamedClass) (negated : Bool) : Option ScalarSet :=
  let s := if mode.ascii then kind.asciiScalars else kind.scalars
  if negated then if mode.ascii then none else some s.complement else some s

/-- A scalar that stands for itself. -/
def literal (mode : Mode) (c : Char) : Pattern :=
  .one (mode.withVariants (.single c))

/-- The dot: any scalar but those that end a line. -/
def dot? (mode : Mode) : Option Pattern :=
  if mode.ascii then none
  else if mode.dotAll then some (.one (ScalarSet.complement .none))
  else if mode.crlf then some (.one (notNewline.diff (.single '\r')))
  else some (.one notNewline)

/-- The anchor of a start. -/
def startAnchor (mode : Mode) : Assertion :=
  if mode.lines then .lineStart mode.crlf else .textStart

/-- The anchor of an end. -/
def endAnchor (mode : Mode) : Assertion :=
  if mode.lines then .lineEnd mode.crlf else .textEnd

end Mode

end PredictiveParsing.Regex
