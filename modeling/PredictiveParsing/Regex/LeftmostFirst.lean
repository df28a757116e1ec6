import PredictiveParsing.Lexing.Rule
import PredictiveParsing.Regex.Size
import PredictiveParsing.Regex.SpellOut
import PredictiveParsing.Regex.Syntax

/-!
# An engine of matchers

The engine that reads patterns, spells them out and searches with the matchers that come out. Of the
matches that begin earliest it prefers those of earlier branches. It knows the classes of ASCII and
the Perl classes, but none by a property of Unicode, and so it refuses patterns that name one.
-/

namespace PredictiveParsing

namespace Regex

/-- The engine that searches with matchers. -/
def Engine.leftmostFirst : Engine where
  compile written :=
    match Pattern.read? written.toList with
    | none => .error "regex parse error:"
    | some pattern =>
      if sizeLimit < pattern.size then
        .error ("Compiled regex exceeds size limit of " ++ toString sizeLimit ++ " bytes.")
      else .ok pattern.matcher.search

end Regex

/-- The rule for a written regular expression that the engine of matchers compiles. -/
def Rule.ofRegex (written : String) : Except InvalidPattern Rule :=
  ofPattern .leftmostFirst written

end PredictiveParsing
