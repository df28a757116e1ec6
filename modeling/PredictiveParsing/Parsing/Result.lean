import PredictiveParsing.Lexing.Token
import PredictiveParsing.Parsing.ParseError

/-!
# Parse results

The result of a parse is a committed token, the list of the results of the parts, or the value that
a semantic action made of them. Every result has the span it stands for, which may be another one
than that of its token.
-/

namespace PredictiveParsing

/-- The result of a parse. -/
inductive Result (V : Type)
  | token (token : Token) (span : Span)
  | list (items : List (Result V)) (span : Span)
  | value (value : V) (span : Span)

namespace Result

variable {V : Type}

/-- The region a result stands for. -/
def span : Result V → Span
  | token _ span | list _ span | value _ span => span

/-- The result of committing a token. -/
def ofToken (t : Token) : Result V := token t t.span

/-- The same content for another region. -/
def withSpan (span : Span) : Result V → Result V
  | token t _ => token t span
  | list items _ => list items span
  | value v _ => value v span

/-- The list whose only item is the result. -/
def wrap (r : Result V) : Result V := list [r] r.span

/-- The content in words. -/
def kind : Result V → String
  | token .. => "a token"
  | list .. => "a list"
  | value .. => "a value"

/-- The error of a result with another content than the expected. -/
def mismatch (expected : String) (r : Result V) : ParseError :=
  ⟨"expected " ++ expected ++ " but found " ++ r.kind, r.span⟩

/-- The token of a result. -/
def toToken? : Result V → Option Token
  | token t _ => some t
  | _ => none

/-- The items of a result. -/
def toList? : Result V → Option (List (Result V))
  | list items _ => some items
  | _ => none

/-- The value of a result. -/
def toValue? : Result V → Option V
  | value v _ => some v
  | _ => none

/-- The value of a result, or what was found instead. -/
def getValue : Result V → Except ParseError V
  | value v _ => .ok v
  | r => .error (r.mismatch "a value")

/-- The token of a result, or what was found instead. -/
def getToken : Result V → Except ParseError Token
  | token t _ => .ok t
  | r => .error (r.mismatch "a token")

/-- The items of a result, or what was found instead. -/
def getList : Result V → Except ParseError (List (Result V))
  | list items _ => .ok items
  | r => .error (r.mismatch "a list")

/-- The value of a result that an action demands. -/
def demandValue (r : Result V) : Answer V := .ofDemand r.getValue

/-- The token of a result that an action demands. -/
def demandToken (r : Result V) : Answer Token := .ofDemand r.getToken

/-- The items of a result that an action demands. -/
def demandList (r : Result V) : Answer (List (Result V)) := .ofDemand r.getList

mutual

/-- Equality of contents and spans. -/
def same [BEq V] : Result V → Result V → Bool
  | token t s, token t' s' => t == t' && s == s'
  | list items s, list items' s' => sameList items items' && s == s'
  | value v s, value v' s' => v == v' && s == s'
  | _, _ => false

/-- Equality of the items of two lists, one by one. -/
def sameList [BEq V] : List (Result V) → List (Result V) → Bool
  | [], [] => true
  | r :: rs, r' :: rs' => r.same r' && sameList rs rs'
  | _, _ => false

end

end Result

/-- The region from the first to the last of several results. -/
def coverAll {V : Type} (start : Position) : List (Result V) → Except Fault Span
  | [] => .ok (.empty start)
  | first :: rest => Span.cover first.span ((first :: rest).getLast (List.cons_ne_nil _ _)).span

end PredictiveParsing
