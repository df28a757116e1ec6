/-!
# Errors of a grammar

What is wrong with a grammar, independently of any input.
-/

namespace PredictiveParsing

/-- Why a grammar cannot be used. The rule of the last three is described in words, since the entry
has no name. -/
inductive GrammarError
  /-- There is nothing to start from. -/
  | missingEntry
  /-- A reference to a name that no rule has. -/
  | unregisteredRule (name : String)
  /-- The rule can reach itself before any token is consumed. -/
  | leftRecursion (name : String)
  /-- Two alternatives of a choice can begin with the same token. -/
  | ambiguousChoice (rule : String) (first second : Nat) (lookahead : String)
  /-- Two alternatives of a choice can be empty. -/
  | ambiguousEmptyChoice (rule : String)
  /-- A parser embedded under a token type cannot begin with that type. -/
  | embedMismatch (rule type : String)
deriving DecidableEq, Repr

namespace GrammarError

/-- The wording of an error. -/
def message : GrammarError → String
  | missingEntry => "grammar has no entry rule"
  | unregisteredRule name => "rule '" ++ name ++ "' is referenced but never registered"
  | leftRecursion name => "rule '" ++ name ++ "' is left-recursive"
  | ambiguousChoice rule first second lookahead =>
    "choice in " ++ rule ++ " has alternatives " ++ toString first ++ " and " ++ toString second ++
      " both starting with " ++ lookahead
  | ambiguousEmptyChoice rule => "choice in " ++ rule ++ " has more than one empty alternative"
  | embedMismatch rule type =>
    "embed in " ++ rule ++ " is registered under '" ++ type ++ "' but cannot start with it"

end GrammarError

end PredictiveParsing
