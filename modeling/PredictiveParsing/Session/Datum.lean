import PredictiveParsing.Grammar.Parser

/-!
# Integers and texts

The values of grammars that are put together on the spot: 64-bit integers and texts, with a stock of
actions on them. Arithmetic rejects what does not fit.
-/

namespace PredictiveParsing

/-- A value of a grammar that is put together on the spot. -/
inductive Datum
  | int (n : Int)
  | text (t : Text)
deriving DecidableEq, Repr

namespace Datum

/-- True for the integers of 64 bits. -/
def fits (n : Int) : Bool :=
  -9223372036854775808 ≤ n && n < 9223372036854775808

/-- The integer, if it fits. -/
def checked (n : Int) (message : String) (span : Span) : Answer Int :=
  if fits n then .ok n else .reject message span

/-- Items separated by single spaces. -/
def spaced : List Text → Text
  | [] => []
  | [t] => t
  | t :: ts => t ++ ' ' :: spaced ts

/-- The decimal digits of an integer. -/
def digits (n : Int) : Text := (toString n).toList

mutual

/-- The tokens and values of a result, lists between square brackets. -/
def shown : Result Datum → Text
  | .token t _ => t.text
  | .value (.int n) _ => digits n
  | .value (.text t) _ => t
  | .list items _ => '[' :: (spaced (shownAll items) ++ [']'])

/-- The items of a list. -/
def shownAll : List (Result Datum) → List Text
  | [] => []
  | r :: rs => shown r :: shownAll rs

end

/-- The integer of a result that an action demands. -/
def demandInt (r : Result Datum) : Answer Int := do
  match ← r.demandValue with
  | .int n => return n
  | .text _ => Answer.reject "not a number" r.span

/-- The sum of the integers of results, if every partial sum fits. -/
def sumFrom (span : Span) : Int → List (Result Datum) → Answer Int
  | total, [] => return total
  | total, r :: rs => do
    let n ← demandInt r
    let total ← checked (total + n) "overflow" span
    sumFrom span total rs

/-- What a sequence can make of its elements. -/
inductive TupleStep
  /-- The value of the first element. -/
  | first
  /-- The texts of the elements, one after the other. -/
  | concat
  /-- The number of items of all elements. -/
  | lengths
  /-- The sum of the elements. -/
  | sum
  /-- The number of elements. -/
  | count
  /-- The region of the sequence. -/
  | span
  /-- The elements in braces. -/
  | braces
  /-- Rejects the elements. -/
  | fail (message : String)

/-- The action of a step. -/
def TupleStep.action : TupleStep → TupleAction Datum
  | first => fun elements span =>
    match elements with
    | [] => .reject "no elements" span
    | r :: _ => r.demandValue
  | concat => fun elements _ => do
    let tokens ← elements.mapM Result.demandToken
    return .text (tokens.flatMap Token.text)
  | lengths => fun elements _ => do
    let lists ← elements.mapM Result.demandList
    return .int (Int.ofNat (lists.foldl (fun n items => n + items.length) 0))
  | sum => fun elements span => do
    let total ← sumFrom span 0 elements
    return .int total
  | count => fun elements _ => .ok (.int (Int.ofNat elements.length))
  | span => fun _ span => .ok (.text (toString span).toList)
  | braces => fun elements _ => .ok (.text ('\x7b' :: (spaced (shownAll elements) ++ ['\x7d'])))
  | fail message => fun _ span => .reject message span

/-- What an operand of one token can become. -/
inductive AtomStep
  /-- The integer that its digits write. -/
  | int
  /-- Its text. -/
  | text
  /-- Rejects the token. -/
  | fail (message : String)

/-- The action of a step. -/
def AtomStep.action : AtomStep → AtomAction Datum
  | int => fun token =>
    if token.text.all Char.isDigit then do
      let n := token.text.foldl (fun n d => 10 * n + Int.ofNat (d.toNat - '0'.toNat)) 0
      let n ← checked n "number out of range" token.span
      return .value (.int n) token.span
    else .reject "not a number" token.span
  | text => fun token => .ok (.value (.text token.text) token.span)
  | fail message => fun token => .reject message token.span

/-- What a prefix operator can make of its operand. -/
inductive PrefixStep
  /-- The negated integer. -/
  | neg
  /-- The operator and its operand in parentheses. -/
  | parens
  /-- The operand itself. -/
  | same
  /-- Rejects the operand. -/
  | fail (message : String)

/-- The action of a step. -/
def PrefixStep.action (step : PrefixStep) : PrefixAction Datum := fun op operand => do
  let span ← Answer.ofChecked (Span.cover op.span operand.span)
  match step with
  | neg =>
    let n ← demandInt operand
    let n ← checked (-n) "overflow" op.span
    return .value (.int n) span
  | parens => return .value (.text ('(' :: (spaced [op.text, shown operand] ++ [')']))) span
  | same => return operand
  | fail message => .reject message span

/-- What an infix operator can make of its operands. -/
inductive InfixStep
  | add
  | sub
  | mul
  /-- The quotient, rounded towards zero. -/
  | div
  /-- The operator between its operands, in parentheses. -/
  | parens
  /-- Rejects the operands. -/
  | fail (message : String)

/-- The integer operation of a step at an operator. -/
def InfixStep.calculate (operation : Int → Int → Answer Int) (span : Span)
    (left right : Result Datum) : Answer (Result Datum) := do
  let x ← demandInt left
  let y ← demandInt right
  let n ← operation x y
  return .value (.int n) span

/-- The action of a step. -/
def InfixStep.action (step : InfixStep) : InfixAction Datum := fun left op right => do
  let span ← Answer.ofChecked (Span.cover left.span right.span)
  match step with
  | add => calculate (fun x y => checked (x + y) "overflow" op.span) span left right
  | sub => calculate (fun x y => checked (x - y) "overflow" op.span) span left right
  | mul => calculate (fun x y => checked (x * y) "overflow" op.span) span left right
  | div =>
    calculate
      (fun x y =>
        if y = 0 then .reject "Division by zero" op.span
        else checked (x.tdiv y) "overflow" op.span)
      span left right
  | parens =>
    return .value (.text ('(' :: (spaced [shown left, op.text, shown right] ++ [')']))) span
  | fail message => .reject message span

end Datum

end PredictiveParsing
