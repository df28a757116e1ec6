import PredictiveParsing.Lexing.Tokenizer
import PredictiveParsing.Parsing.Journal
import PredictiveParsing.Parsing.Result

/-!
# Running a parser

A run changes a tokenizer and a journal, and ends with a result or a failure. Whatever the end, the
changes made up to it stay.
-/

namespace PredictiveParsing

/-- What a run changes. -/
structure Context where
  tokenizer : Tokenizer
  journal : Journal

/-- A computation that changes a context and may fail. -/
abbrev ParseM (α : Type) := ExceptT Failure (StateM Context) α

namespace ParseM

variable {α : Type}

/-- Fails with a syntax error. -/
def reject (message : String) (span : Span) : ParseM α :=
  throw (.rejected ⟨message, span⟩)

/-- Notes an event. -/
def note (e : Event) : ParseM Unit :=
  modify fun c => { c with journal := c.journal.note e }

/-- The result of a computation whose faults are faults of the run. -/
def trust : Except Fault α → ParseM α
  | .ok a => pure a
  | .error f => throw (.fault f)

/-- The result of a semantic action. -/
def perform : Answer α → ParseM α
  | .ok a => pure a
  | .error (.rejected e) => do
    note (.refused e)
    throw (.rejected e)
  | .error (.fault f) => throw (.fault f)

/-- The token at the cursor. -/
def peek : ParseM Token := do
  trust (← get).tokenizer.peek

/-- Moves over the token at the cursor. -/
def commit (t : Token) : ParseM Unit := do
  let tokenizer ← trust ((← get).tokenizer.forward t)
  modify fun c => { c with tokenizer }
  note (.committed t)

/-- The place of the cursor. -/
def position : ParseM Position := do
  return (← get).tokenizer.position

/-- The number of scalars still unread. -/
def unread : ParseM Nat := do
  return (← get).tokenizer.cursor.rest.length

/-- Runs a parser and answers its error as a value. Other failures stay failures. -/
def attempt (p : ParseM α) : ParseM (Except ParseError α) := fun c =>
  match p c with
  | (.ok a, c) => (.ok (.ok a), c)
  | (.error (.rejected e), c) => (.ok (.error e), c)
  | (.error f, c) => (.error f, c)

/-- The error of a token that cannot be used where it was found. -/
def unexpected (expected : String) (t : Token) : ParseM α :=
  reject ("expected " ++ expected ++ " but found " ++ t.describe) t.span

end ParseM

end PredictiveParsing
