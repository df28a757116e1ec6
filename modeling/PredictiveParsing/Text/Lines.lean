import PredictiveParsing.Text.Basic

/-!
# Lines of a text

A line ends before a newline. One carriage return directly in front of that newline belongs to the
line's end; a carriage return anywhere else is part of the line. Nothing follows a newline that
ends the text, so there is no empty last line.
-/

namespace PredictiveParsing.Text

/-- A finished line from its scalars in reverse, without the carriage return that ends it. -/
def closeLine : Text → Text
  | '\r' :: line => line.reverse
  | line => line.reverse

/-- The lines of a text whose first line already has the scalars of `begun`, in reverse. -/
def linesFrom (begun : Text) : Text → List Text
  | [] => if begun = [] then [] else [begun.reverse]
  | c :: cs => if c = '\n' then closeLine begun :: linesFrom [] cs else linesFrom (c :: begun) cs

/-- The lines of a text. -/
def lines (text : Text) : List Text :=
  linesFrom [] text

example : lines "a\r\nb\rc\n\nd\r".toList = ["a".toList, "b\rc".toList, [], "d\r".toList] := by
  decide

example : lines "a\n".toList = ["a".toList] := by decide

end PredictiveParsing.Text
