import PredictiveParsing.Text.Blank
import PredictiveParsing.Text.Case
import PredictiveParsing.Text.Word

/-!
# Classes of scalars

The sets of scalars that have a name in regular expressions: digits, word scalars and blanks, within
ASCII or of all scripts, and the classes that are written by name between brackets and colons.
-/

namespace PredictiveParsing.Regex

/-- The named kinds of scalars. -/
inductive NamedClass
  /-- Decimal digits. -/
  | digit
  /-- Scalars of words. -/
  | word
  /-- White space. -/
  | blank
deriving DecidableEq, Repr

/-- The ASCII scalars of the named kind. -/
def NamedClass.asciiScalars : NamedClass → ScalarSet
  | digit => .ofChars [('0', '9')]
  | word => .ofChars [('0', '9'), ('A', 'Z'), ('_', '_'), ('a', 'z')]
  | blank => .ofChars [('\t', '\r'), (' ', ' ')]

/-- The scalars of the named kind. -/
def NamedClass.scalars : NamedClass → ScalarSet
  | digit => Text.decimalDigits
  | word => Text.wordScalars
  | blank => Text.blanks

/-- The classes that are written by name, all within ASCII. -/
def bracketClass? (name : String) : Option ScalarSet :=
  match name with
  | "alnum" => some (.ofChars [('0', '9'), ('A', 'Z'), ('a', 'z')])
  | "alpha" => some (.ofChars [('A', 'Z'), ('a', 'z')])
  | "ascii" => some (.ofChars [('\x00', '\x7f')])
  | "blank" => some (.ofChars [('\t', '\t'), (' ', ' ')])
  | "cntrl" => some (.ofChars [('\x00', '\x1f'), ('\x7f', '\x7f')])
  | "digit" => some (.ofChars [('0', '9')])
  | "graph" => some (.ofChars [('!', '~')])
  | "lower" => some (.ofChars [('a', 'z')])
  | "print" => some (.ofChars [(' ', '~')])
  | "punct" => some (.ofChars [('!', '/'), (':', '@'), ('[', '\x60'), ('\x7b', '~')])
  | "space" => some (.ofChars [('\t', '\r'), (' ', ' ')])
  | "upper" => some (.ofChars [('A', 'Z')])
  | "word" => some NamedClass.word.asciiScalars
  | "xdigit" => some (.ofChars [('0', '9'), ('A', 'F'), ('a', 'f')])
  | _ => none

/-- Every scalar but the newline. -/
def notNewline : ScalarSet := (ScalarSet.single '\n').complement

end PredictiveParsing.Regex
