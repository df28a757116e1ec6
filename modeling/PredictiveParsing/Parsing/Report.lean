import PredictiveParsing.Parsing.ParseError
import PredictiveParsing.Text.Lines

/-!
# Reports of parse errors

A report shows an error together with the line of the text that it starts on, and underlines the
part of that line which the error is about.
-/

namespace PredictiveParsing.ParseError

/-- What stands below a line up to a column: tabs stay, so that the columns keep in step, and
everything else becomes a space. -/
def indentBelow (line : Text) (columns : Nat) : Text :=
  (line.take columns).map fun c => if c = '\t' then '\t' else ' '

/-- The number of scalars to underline, at least one: those of the span if it ends on the line where
it starts, and otherwise the rest of that line. -/
def underlined (span : Span) (source line : Text) (columns : Nat) : Nat :=
  if span.stop.line = span.start.line then
    match source.slice? span.start.offset span.stop.offset with
    | some text => max text.length 1
    | none => 1
  else max (line.length - columns) 1

/-- The error with the line of `source` it starts on. Lines and columns are counted from one, and
there is no report on line or column zero. -/
def report (e : ParseError) (source : Text) : Except Fault String := do
  let start := e.span.start
  let index ← checkedSub start.line 1
  let columns ← checkedSub start.column 1
  let line := source.lines.getD index []
  let label := toString start.line
  let gutter := "".pushn ' ' label.length
  return "error: " ++ e.message ++ "\n" ++
    gutter ++ "--> " ++ toString start ++ "\n" ++
    gutter ++ " |\n" ++
    label ++ " | " ++ String.ofList line ++ "\n" ++
    gutter ++ " | " ++ String.ofList (indentBelow line columns) ++
      "".pushn '^' (underlined e.span source line columns)

end PredictiveParsing.ParseError
