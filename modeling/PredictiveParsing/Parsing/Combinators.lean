import PredictiveParsing.Parsing.Context
import PredictiveParsing.Grammar.Parser

/-!
# Combinators

The combinators that sequence, repeat and wait for tokens, each given a way to run its parts.
`repetitions` is the loop of a repetition: it ends behind a round that consumes nothing, and in
front of a round that fails without consuming anything.
-/

namespace PredictiveParsing.ParseM

variable {V P : Type}

/-- One ordinary token of a type. -/
def expectToken (type : TokenType) : ParseM (Result V) := do
  let token ← peek
  if token.is type then
    commit token
    return .ofToken token
  else unexpected type token

/-- The end of the input. -/
def expectEnd : ParseM (Result V) := do
  let token ← peek
  if token.isEndOfInput then return .ofToken token else unexpected "end of input" token

/-- The region covered so far, extended by the next member's. -/
def extend (covered : Option Span) (next : Span) : ParseM Span :=
  match covered with
  | none => return next
  | some span => trust (span.cover next)

/-- Runs the members of a sequence behind those that cover `covered`. Answers the results of its
elements and the region of all its members. -/
def members (run : P → ParseM (Result V)) :
    List (Member P) → Option Span → ParseM (List (Result V) × Option Span)
  | [], covered => return ([], covered)
  | member :: rest, covered => do
    let result ← run member.parser
    let covered ← extend covered result.span
    let (elements, covered) ← members run rest (some covered)
    match member.mark with
    | .element => return (result :: elements, covered)
    | .skip => return (elements, covered)

/-- Runs a sequence, and its action on the results of its elements. -/
def sequence (run : P → ParseM (Result V)) (parts : List (Member P))
    (action : Option (TupleAction V)) : ParseM (Result V) := do
  let start ← position
  let (elements, covered) ← members run parts none
  let span := covered.getD (.empty start)
  match action with
  | some f => return .value (← perform (f elements span)) span
  | none => return .list elements span

/-- Runs a body over and over. Answers the results, and the error in front of which it stopped. The
number bounds the rounds. -/
def repetitions (body : ParseM (Result V)) : Nat → ParseM (List (Result V) × Option ParseError)
  | 0 => throw .exhausted
  | n + 1 => do
    let before ← position
    let outcome ← attempt body
    let after ← position
    match outcome with
    | .ok result =>
      if after.offset = before.offset then return ([result], none)
      else
        let (items, reason) ← repetitions body n
        return (result :: items, reason)
    | .error e =>
      if after.offset = before.offset then return ([], some e)
      else throw (.rejected e)

/-- Runs a body as often as it succeeds, and at least `minimum` times. Every round but the last
consumes at least one scalar. -/
def repetition (body : ParseM (Result V)) (minimum : Nat) : ParseM (Result V) := do
  let start ← position
  let (items, reason) ← repetitions body ((← unread) + 1)
  note (.repeated items.length minimum)
  if items.length < minimum then
    let message := "expected at least " ++ toString minimum ++ " repetition(s) but found " ++
      toString items.length
    match reason with
    | some e => reject (message ++ ": " ++ e.message) e.span
    | none => reject message (.empty (← position))
  else
    let span ← trust (coverAll start items)
    return .list items span

end PredictiveParsing.ParseM
