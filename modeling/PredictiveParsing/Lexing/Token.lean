import PredictiveParsing.Source.TextSlice

/-!
# Tokens

A token is a piece of the input with a type chosen by the author of the tokenizer. Next to ordinary
tokens there are error tokens, one scalar that no rule recognises, and the token of extent zero at
the end of the input. Only ordinary tokens are of the type they carry (`Token.is`).
-/

namespace PredictiveParsing

/-- The lexical category of a token. -/
abbrev TokenType := String

namespace TokenType

/-- The type that error tokens carry. -/
def error : TokenType := "<error>"

/-- The type that the token at the end of the input carries. -/
def endOfInput : TokenType := "<eof>"

/-- The type in words. -/
def inspect (type : TokenType) : String :=
  "TokenType(" ++ quotedName type ++ ")"

end TokenType

/-- The kinds of token. -/
inductive TokenKind
  | ordinary
  /-- No rule matched at this scalar. -/
  | error
  /-- Nothing is left of the input. -/
  | endOfInput
deriving DecidableEq, Repr, Inhabited

/-- The kind in words. -/
def TokenKind.inspect : TokenKind → String
  | ordinary => "Ordinary"
  | error => "Error"
  | endOfInput => "Eof"

/-- A typed piece of the input. -/
structure Token where
  type : TokenType
  value : TextSlice
  span : Span
  kind : TokenKind
deriving DecidableEq, Repr, Inhabited

namespace Token

/-- A token that a rule recognised. -/
def ordinary (type : TokenType) (value : TextSlice) (span : Span) : Token :=
  ⟨type, value, span, .ordinary⟩

/-- The token of a scalar that no rule recognises. -/
def error (value : TextSlice) (span : Span) : Token :=
  ⟨.error, value, span, .error⟩

/-- The token at the end of the input. -/
def endOfInput (value : TextSlice) (position : Position) : Token :=
  ⟨.endOfInput, value, .empty position, .endOfInput⟩

/-- The matched text. -/
def text (t : Token) : Text := t.value.text

/-- True for an error token. -/
def isError (t : Token) : Bool := t.kind = .error

/-- True for the token at the end of the input. -/
def isEndOfInput (t : Token) : Bool := t.kind = .endOfInput

/-- True for an ordinary token of the given type. -/
def is (t : Token) (type : TokenType) : Bool := t.kind = .ordinary && t.type == type

/-- The token as error messages call it. -/
def describe (t : Token) : String :=
  match t.kind with
  | .ordinary => t.type ++ " " ++ t.text.quoted
  | .error => "unrecognized input " ++ t.text.quoted
  | .endOfInput => "end of input"

/-- The token and where it stands. -/
protected def toString (t : Token) : String :=
  t.describe ++ " at " ++ toString t.span

instance : ToString Token := ⟨Token.toString⟩

/-- The token with all its parts. -/
def inspect (t : Token) : String :=
  "Token \x7b token_type: " ++ t.type.inspect ++ ", value: " ++ t.value.inspect ++
    ", span: " ++ t.span.inspect ++ ", kind: " ++ t.kind.inspect ++ " \x7d"

end Token

end PredictiveParsing
