import PredictiveParsing.Parsing.Run
import PredictiveParsing.Regex.LeftmostFirst

/-!
# Processes of the pi calculus

Processes made of termination, restriction of a name and parallel composition. Termination is
written `0`, `nil` or `end`, a restriction `new(a) P` or `res(a) P`, and a composition `P || Q`.
Composition groups to the right, and a restriction takes everything behind it up to the bracket that
closes around it, so `new(a) P || Q` restricts both processes.
-/

namespace PredictiveParsing.Pi

/-- A process. -/
inductive Process
  | term
  | restriction (name : Text) (body : Process)
  | parallel (left right : Process)
deriving DecidableEq, Repr

namespace Process

/-- True for termination. -/
def isTerm : Process → Bool
  | term => true
  | _ => false

/-- True for a composition. -/
def isParallel : Process → Bool
  | parallel .. => true
  | _ => false

/-- The process in print: the body of a restriction stands between braces, and a composition on the
left of another one between parentheses. -/
def written : Process → Text
  | term => ['0']
  | restriction name body =>
    "new(".toList ++ name ++ ')' :: '\x7b' :: (body.written ++ ['\x7d'])
  | parallel left right =>
    (if left.isParallel then '(' :: (left.written ++ [')']) else left.written) ++
      " || ".toList ++ right.written

/-- The structure of the process. -/
def inspect : Process → String
  | term => "Term"
  | restriction name body =>
    "Restriction \x7b name: " ++ name.quoted ++ ", body: " ++ body.inspect ++ " \x7d"
  | parallel left right => "Parallel(" ++ left.inspect ++ ", " ++ right.inspect ++ ")"

end Process

/-- The words for termination, ending at the end of a word. -/
def termMatcher : Regex.Matcher :=
  let pattern : Regex.Pattern := .sequence [.holds .textStart,
    .choice [.text ['0'],
      .sequence [.choice [.text "nil".toList, .text "end".toList],
        .holds (.word .boundary false)]]]
  pattern.matcher

/-- The words for restriction, ending at the end of a word. -/
def newMatcher : Regex.Matcher :=
  let pattern : Regex.Pattern := .sequence [.holds .textStart,
    .sequence [.choice [.text "new".toList, .text "res".toList], .holds (.word .boundary false)]]
  pattern.matcher

/-- A letter or underscore, then letters, digits and underscores. -/
def nameMatcher : Regex.Matcher :=
  let pattern : Regex.Pattern := .sequence [.holds .textStart,
    .sequence [.ranges [('a', 'z'), ('A', 'Z'), ('_', '_')],
      .star (.ranges [('a', 'z'), ('A', 'Z'), ('0', '9'), ('_', '_')])]]
  pattern.matcher

/-- The search for a word for termination. -/
def termRegex : Regex := ⟨"^(?:0|(?:nil|end)\\b)", termMatcher.search⟩

/-- The search for a word for restriction. -/
def newRegex : Regex := ⟨"^(?:(?:new|res)\\b)", newMatcher.search⟩

/-- The search for a name. -/
def nameRegex : Regex := ⟨"^(?:[a-zA-Z_][a-zA-Z0-9_]*)", nameMatcher.search⟩

theorem compile_term : Regex.compile .leftmostFirst "0|(?:nil|end)\\b" = .ok termRegex := by rfl

theorem compile_new : Regex.compile .leftmostFirst "(?:new|res)\\b" = .ok newRegex := by rfl

theorem compile_name :
    Regex.compile .leftmostFirst "[a-zA-Z_][a-zA-Z0-9_]*" = .ok nameRegex := by
  rfl

/-- The rules of the tokens of processes. Keywords come before names. -/
def rules : List (TokenType × Rule) := [
  ("space", .ofChars [' ', '\t', '\r', '\n']),
  ("lparen", .exactChar '('),
  ("rparen", .exactChar ')'),
  ("parallel", .literal "||".toList),
  ("term", .regexp termRegex none),
  ("new", .regexp newRegex none),
  ("name", .regexp nameRegex none)]

/-- The tokenizer without an input. -/
def tokenizer : Tokenizer := ⟨rules, .ofInput []⟩

/-- Termination. -/
def makeTerm : AtomAction Process := fun token => .ok (.value .term token.span)

/-- A composition. -/
def makeParallel : InfixAction Process := fun left _ right => do
  let span ← Answer.ofChecked (Span.cover left.span right.span)
  let p ← left.demandValue
  let q ← right.demandValue
  return .value (.parallel p q) span

/-- A restriction of a name and a body. -/
def makeRestriction : TupleAction Process := fun elements _ =>
  match elements with
  | name :: body :: _ => do
    let name ← name.demandToken
    let body ← body.demandValue
    return .restriction name.text body
  | _ => .error (.fault (.unreachable "restriction keeps a name and a body"))

/-- The process of the whole input. -/
def wholeProcess : TupleAction Process := fun elements _ =>
  match elements with
  | process :: _ => process.demandValue
  | [] => .error (.fault (.unreachable "entry keeps one process"))

/-- A restriction, which begins with its keyword. -/
def restriction : Parser Process :=
  .tuple
    [.skip (.token "new"), .skip (.ref "spaces"), .skip (.token "lparen"), .skip (.ref "spaces"),
      .element (.token "name"), .skip (.ref "spaces"), .skip (.token "rparen"),
      .skip (.ref "spaces"), .element (.ref "expr")]
    (some makeRestriction)

/-- The operators of processes. -/
def operators : Operators Process (Parser Process) where
  roles := [
    ("term", .atom (some makeTerm)),
    ("new", .embedding restriction),
    ("parallel", .infixOp 10 .right (some makeParallel)),
    ("lparen", .bracket "lparen" "rparen")]
  skip := ["space"]

/-- A process and blanks up to the end of the input. -/
def grammar : Grammar Process :=
  (Grammar.empty
    |>.register "spaces" (.many (.token "space") 0)
    |>.register "term" (.token "term")
    |>.register "expr" (.expr operators)
    |>.withEntry (.tuple [.element (.ref "expr"), .skip (.ref "spaces"), .skip .endOfInput]
        (some wholeProcess)))

/-- The process that a text writes, with the region it takes. -/
def parse (input : Text) : Except Failure (Result Process) :=
  (grammar.parseText tokenizer input).1

/-- The process that a text writes. -/
def parseProcess (input : Text) : Except Failure Process := do
  let result ← parse input
  result.getValue.mapError .rejected

end PredictiveParsing.Pi
