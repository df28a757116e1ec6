import PredictiveParsing.Text.Basic
import PredictiveParsing.Text.ScalarSet

/-!
# Blank scalars

The scalars with the Unicode property `White_Space`, and the removal of blanks at the ends of a
text.
-/

namespace PredictiveParsing.Text

/-- The scalars with the property `White_Space`. -/
def blanks : ScalarSet where
  ranges :=
    [(0x09, 0x0D), (0x20, 0x20), (0x85, 0x85), (0xA0, 0xA0), (0x1680, 0x1680), (0x2000, 0x200A),
    (0x2028, 0x2029), (0x202F, 0x202F), (0x205F, 0x205F), (0x3000, 0x3000)]

/-- True for the scalars with the property `White_Space`. -/
def isBlank (c : Char) : Bool :=
  blanks.contains c

/-- The text without the blanks at its end. -/
def trimEnd (text : Text) : Text :=
  (text.reverse.dropWhile isBlank).reverse

/-- The text without the blanks at either end. -/
def trim (text : Text) : Text :=
  trimEnd (text.dropWhile isBlank)

example : trim " \u00a0a b\u3000\n".toList = "a b".toList := by decide

end PredictiveParsing.Text
