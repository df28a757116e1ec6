import PredictiveParsing.Parsing.Run
import PredictiveParsing.Regex.LeftmostFirst

/-!
# Typed lambda terms

Terms of the simply typed lambda calculus in which every variable carries its type. A variable is
written `x:T`, an application `(f a)` and an abstraction `λx:T. b`, where `\` may stand for `λ`.
`Term.written` prints terms in this form.
-/

namespace PredictiveParsing.Lambda

/-- A term whose variables carry their types. -/
inductive Term
  | var (name type : Text)
  | app (function argument : Term)
  | lam (name type : Text) (body : Term)
deriving DecidableEq, Repr

namespace Term

/-- The term as it is written. -/
def written : Term → Text
  | var name type => name ++ ':' :: type
  | app f a => '(' :: (f.written ++ ' ' :: (a.written ++ [')']))
  | lam name type body => 'λ' :: (name ++ ':' :: (type ++ '.' :: ' ' :: body.written))

/-- The structure of the term. -/
def inspect : Term → String
  | var name type => "Var \x7b name: " ++ name.quoted ++ ", ty: " ++ type.quoted ++ " \x7d"
  | app f a => "App \x7b rator: " ++ f.inspect ++ ", rand: " ++ a.inspect ++ " \x7d"
  | lam name type body =>
    "Lambda \x7b name: " ++ name.quoted ++ ", ty: " ++ type.quoted ++ ", body: " ++ body.inspect ++
      " \x7d"

end Term

/-- A letter or underscore, then letters, digits and underscores, then primes. -/
def identifierMatcher : Regex.Matcher :=
  let pattern : Regex.Pattern := .sequence [.holds .textStart,
    .sequence [.ranges [('a', 'z'), ('A', 'Z'), ('_', '_')],
      .star (.ranges [('a', 'z'), ('A', 'Z'), ('_', '_'), ('0', '9')]),
      .star (.ranges [('\'', '\'')])]]
  pattern.matcher

/-- The search for an identifier. -/
def identifierRegex : Regex := ⟨"^(?:[a-zA-Z_][a-zA-Z_0-9]*'*)", identifierMatcher.search⟩

theorem compile_identifier :
    Regex.compile .leftmostFirst "[a-zA-Z_][a-zA-Z_0-9]*'*" = .ok identifierRegex := by
  rfl

/-- The rules of the tokens of terms. -/
def rules : List (TokenType × Rule) := [
  ("dot", .exactChar '.'),
  ("column", .exactChar ':'),
  ("lparen", .exactChar '('),
  ("rparen", .exactChar ')'),
  ("space", .ofChars [' ', '\t', '\r', '\n']),
  ("lambda", .literal "\\lambda ".toList),
  ("lambda", .ofChars ['λ', '\\']),
  ("identifier", .regexp identifierRegex none)]

/-- The tokenizer without an input. -/
def tokenizer : Tokenizer := ⟨rules, .ofInput []⟩

/-- A variable of two identifiers. -/
def makeVar : TupleAction Term := fun elements _ =>
  match elements with
  | name :: type :: _ => do
    let name ← name.demandToken
    let type ← type.demandToken
    return .var name.text type.text
  | _ => .error (.fault (.unreachable "ref keeps two identifiers"))

/-- An application of two terms. -/
def makeApp : TupleAction Term := fun elements _ =>
  match elements with
  | f :: a :: _ => do
    let f ← f.demandValue
    let a ← a.demandValue
    return .app f a
  | _ => .error (.fault (.unreachable "app keeps two terms"))

/-- An abstraction of a variable and a body. -/
def makeLam : TupleAction Term := fun elements span =>
  match elements with
  | binder :: body :: _ => do
    match ← binder.demandValue with
    | .var name type => return .lam name type (← body.demandValue)
    | other =>
      Answer.reject ("expected a typed variable but found " ++ String.ofList other.written) span
  | _ => .error (.fault (.unreachable "lam keeps a binder and a body"))

/-- The term of the whole input. -/
def wholeTerm : TupleAction Term := fun elements _ =>
  match elements with
  | term :: _ => term.demandValue
  | [] => .error (.fault (.unreachable "entry keeps one term"))

/-- A term between blanks, with nothing behind. -/
def grammar : Grammar Term :=
  let element (name : String) : Member (Parser Term) := .element (.ref name)
  let skip (name : String) : Member (Parser Term) := .skip (.ref name)
  (Grammar.empty
    |>.register "column" (.token "column")
    |>.register "dot" (.token "dot")
    |>.register "lparen" (.token "lparen")
    |>.register "rparen" (.token "rparen")
    |>.register "spaces" (.many (.token "space") 0)
    |>.register "lambda" (.token "lambda")
    |>.register "identifier" (.token "identifier")
    |>.register "ref" (.tuple
        [element "identifier", skip "spaces", skip "column", skip "spaces", element "identifier"]
        (some makeVar))
    |>.register "app" (.tuple
        [skip "lparen", skip "spaces", element "expr", skip "spaces", element "expr", skip "spaces",
          skip "rparen"]
        (some makeApp))
    |>.register "lam" (.tuple
        [skip "lambda", skip "spaces", element "ref", skip "spaces", skip "dot", skip "spaces",
          element "expr"]
        (some makeLam))
    |>.register "expr" (.choice 0 [.ref "ref", .ref "app", .ref "lam"])
    |>.withEntry (.tuple [skip "spaces", element "expr", skip "spaces", .skip .endOfInput]
        (some wholeTerm)))

/-- The term that a text writes, with the region it takes. -/
def parse (input : Text) : Except Failure (Result Term) :=
  (grammar.parseText tokenizer input).1

/-- The term that a text writes. -/
def parseTerm (input : Text) : Except Failure Term := do
  let result ← parse input
  result.getValue.mapError .rejected

end PredictiveParsing.Lambda
