import PredictiveParsing.Source.Span

/-!
# Parse errors

A parse fails with a message and the span it is about. Syntax errors and the errors of semantic
actions have the same form.
-/

namespace PredictiveParsing

/-- A failed parse. -/
structure ParseError where
  message : String
  span : Span
deriving DecidableEq, Repr

namespace ParseError

/-- The message and where it belongs. -/
protected def toString (e : ParseError) : String :=
  e.message ++ " at " ++ toString e.span

instance : ToString ParseError := ⟨ParseError.toString⟩

end ParseError

/-- Why an action gives no result: it rejects its arguments, or it breaks a promise itself. -/
inductive Refusal
  | rejected (error : ParseError)
  | fault (fault : Fault)
deriving DecidableEq, Repr

/-- A semantic action's answer. -/
abbrev Answer (α : Type) := Except Refusal α

/-- The answer of an action that computes spans or words. -/
def Answer.ofChecked {α : Type} : Except Fault α → Answer α
  | .ok a => .ok a
  | .error f => .error (.fault f)

/-- The answer of an action that demands something of its arguments. -/
def Answer.ofDemand {α : Type} : Except ParseError α → Answer α
  | .ok a => .ok a
  | .error e => .error (.rejected e)

/-- The answer of an action that rejects its arguments. -/
def Answer.reject {α : Type} (message : String) (span : Span) : Answer α :=
  .error (.rejected ⟨message, span⟩)

/-- Why a run gives no result. A run is `exhausted` when it goes deeper than its input allows, which
happens only where rules reach themselves without consuming anything. -/
inductive Failure
  | rejected (error : ParseError)
  | fault (fault : Fault)
  | exhausted
deriving DecidableEq, Repr

/-- The failure of a run whose action gives no result. -/
def Refusal.toFailure : Refusal → Failure
  | rejected e => .rejected e
  | fault f => .fault f

end PredictiveParsing
