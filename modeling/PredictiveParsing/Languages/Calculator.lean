import PredictiveParsing.Decimal.Nearest
import PredictiveParsing.Decimal.Shortest
import PredictiveParsing.Parsing.Run
import PredictiveParsing.Regex.LeftmostFirst

/-!
# A calculator

Arithmetic with the four operations, signs and brackets, evaluated while it is parsed. Signs bind
tighter than multiplication and division, and these tighter than addition and subtraction; all
operations group to the left. `Calculator.evaluate` runs `Calculator.grammar` over the tokens of
`Calculator.tokenizer`.
-/

namespace PredictiveParsing.Calculator

/-- A decimal number without leading zeros; a fraction does not end in a zero. -/
def numberMatcher : Regex.Matcher :=
  let digits := Regex.Pattern.star (.ranges [('0', '9')])
  let pattern : Regex.Pattern := .sequence [.holds .textStart,
    .sequence [.ranges [('1', '9')], digits,
      .optional (.group (.sequence [.ranges [('.', '.')], digits, .plus (.ranges [('1', '9')])]))]]
  pattern.matcher

/-- The search for a number. -/
def numberRegex : Regex := ⟨"^(?:[1-9][0-9]*(\\.[0-9]*[1-9]+)?)", numberMatcher.search⟩

theorem compile_number :
    Regex.compile .leftmostFirst "[1-9][0-9]*(\\.[0-9]*[1-9]+)?" = .ok numberRegex := by
  rfl

/-- The rules of the calculator's tokens. -/
def rules : List (TokenType × Rule) := [
  ("lparen", .exactChar '('),
  ("rparen", .exactChar ')'),
  ("add", .exactChar '+'),
  ("sub", .exactChar '-'),
  ("mult", .ofChars ['*', '×']),
  ("div", .ofChars ['/', '÷']),
  ("space", .ofChars [' ', '\t', '\r']),
  ("newline", .exactChar '\n'),
  ("number", .exactChar '0'),
  ("number", (Rule.regexp numberRegex none).withLookups "0123456789".toList)]

/-- The tokenizer without an input. -/
def tokenizer : Tokenizer := ⟨rules, .ofInput []⟩

/-- Reads a number. -/
def number : AtomAction Float := fun token =>
  match Decimal.read token.text with
  | .ok x => .ok (.value x token.span)
  | .error e => .reject ("invalid number: " ++ e.message) token.span

/-- Applies a sign. -/
def signed (sign : Float → Float) : PrefixAction Float := fun op operand => do
  let span ← Answer.ofChecked (Span.cover op.span operand.span)
  let x ← operand.demandValue
  return .value (sign x) span

/-- Applies an operation. -/
def arithmetic (operation : Float → Float → Float) : InfixAction Float := fun left _ right => do
  let span ← Answer.ofChecked (Span.cover left.span right.span)
  let x ← left.demandValue
  let y ← right.demandValue
  return .value (operation x y) span

/-- Divides, but not by zero. -/
def divide : InfixAction Float := fun left op right => do
  let span ← Answer.ofChecked (Span.cover left.span right.span)
  let y ← right.demandValue
  if y == 0 then
    let region ← Answer.ofChecked (Span.cover op.span span)
    Answer.reject "Division by zero" region
  else
    let x ← left.demandValue
    return .value (x / y) span

/-- The operators of arithmetic. -/
def operators : Operators Float (Parser Float) where
  roles := [
    ("add", .mixfix 100 40 .left (some (signed id)) (some (arithmetic (· + ·)))),
    ("sub", .mixfix 100 40 .left (some (signed (- ·))) (some (arithmetic (· - ·)))),
    ("mult", .infixOp 80 .left (some (arithmetic (· * ·)))),
    ("div", .infixOp 80 .left (some divide)),
    ("lparen", .bracket "lparen" "rparen"),
    ("number", .atom (some number))]
  skip := ["space", "newline"]

/-- The value of the whole input is that of its expression. -/
def wholeValue : TupleAction Float := fun elements _ =>
  match elements with
  | [] => .error (.fault .emptyRemoval)
  | result :: _ => result.demandValue

/-- An expression and blanks up to the end of the input. -/
def grammar : Grammar Float :=
  (Grammar.empty
    |>.withEntry (.tuple [.element (.ref "expr"), .skip (.ref "spaces"), .skip .endOfInput]
        (some wholeValue))
    |>.register "spaces" (.many (.choice 0 [.token "space", .token "newline"]) 0)
    |>.register "expr" (.expr operators))

/-- The value of an expression. -/
def evaluate (input : Text) : Except Failure Float := do
  let result ← (grammar.parseText tokenizer input).1
  result.getValue.mapError .rejected

end PredictiveParsing.Calculator
