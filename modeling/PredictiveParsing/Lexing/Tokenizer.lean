import PredictiveParsing.Lexing.Cursor
import PredictiveParsing.Lexing.Rule
import PredictiveParsing.Lexing.Token

/-!
# Tokenizers

A tokenizer reads tokens on demand with an ordered list of rules. `Tokenizer.peek` reads the token
at the cursor and leaves the cursor alone; `Tokenizer.forward` moves over a token, which has to be
the one that `peek` answers there. The first rule that matches wins, and `Rule.quickCheck` may only
pass over rules.
-/

namespace PredictiveParsing

/-- A cursor and the rules that cut tokens from its input, in order of preference. -/
structure Tokenizer where
  rules : List (TokenType × Rule)
  cursor : Cursor
deriving Inhabited

namespace Tokenizer

/-- A tokenizer without rules or input. -/
def empty : Tokenizer := ⟨[], .ofInput []⟩

/-- Adds a rule behind the others. -/
def addRule (t : Tokenizer) (type : TokenType) (rule : Rule) : Tokenizer :=
  { t with rules := t.rules ++ [(type, rule)] }

/-- Starts over with another input. -/
def withInput (t : Tokenizer) (input : Text) : Tokenizer :=
  { t with cursor := .ofInput input }

/-- The place of the cursor. -/
def position (t : Tokenizer) : Position := t.cursor.position

/-- True at the end of the input. -/
def atEnd (t : Tokenizer) : Bool := t.cursor.atEnd

/-- The first rule that matches at the start of a text, and the length of its match. A rule that the
first scalar rules out is passed over. -/
def scan (rules : List (TokenType × Rule)) (input : Text) : Option (TokenType × Nat) :=
  rules.findSome? fun (type, rule) =>
    if rule.quickCheck input.head? = some false then none
    else (rule.matchLength? input).map fun length => (type, length)

/-- The token at the cursor. -/
def peek (t : Tokenizer) : Except Fault Token :=
  let position := t.cursor.position
  match t.cursor.rest with
  | [] => do
    let value ← t.cursor.sliceAhead 0
    return .endOfInput value position
  | first :: rest =>
    match scan t.rules (first :: rest) with
    | some (type, length) => do
      let value ← t.cursor.sliceAhead length
      let stop ← position.advance value.text
      let span ← Span.between position stop
      return .ordinary type value span
    | none => do
      let value ← t.cursor.sliceAhead first.utf8Size
      let stop ← position.step first
      let span ← Span.between position stop
      return .error value span

/-- Moves over a token, which has to be the token at the cursor. -/
def forward (t : Tokenizer) (token : Token) : Except Fault Tokenizer := do
  if token.span.start = t.cursor.position && t.cursor.rest.startsWith token.text then
    let peeked ← t.peek
    if peeked = token then
      let length ← token.span.length
      let cursor ← t.cursor.advance length
      return { t with cursor }
    else throw .tokenDiffers
  else throw (.notPeeked (toString token) t.cursor.position)

/-- The token at the cursor and the tokenizer behind it. -/
def next (t : Tokenizer) : Except Fault (Token × Tokenizer) := do
  let token ← t.peek
  let t ← t.forward token
  return (token, t)

/-- The tokens up to the end of the input, with the token at the end last. The number bounds the
tokens before it. -/
def tokensFrom : Nat → Tokenizer → Except Fault (List Token × Tokenizer)
  | 0, t => do
    let (token, t) ← t.next
    return ([token], t)
  | n + 1, t => do
    let (token, t) ← t.next
    if token.isEndOfInput then return ([token], t)
    else do
      let (tokens, t) ← tokensFrom n t
      return (token :: tokens, t)

/-- Every token of the rest of the input and the tokenizer at its end. Every token but the last,
which stands for the end of the input, consumes at least one scalar. -/
def remainingTokens (t : Tokenizer) : Except Fault (List Token × Tokenizer) :=
  tokensFrom t.cursor.rest.length t

/-- Every token of the rest of the input but the one that stands for its end. -/
def tokenize (t : Tokenizer) : Except Fault (List Token × Tokenizer) := do
  let (tokens, t) ← t.remainingTokens
  return (tokens.filter fun token => !token.isEndOfInput, t)

end Tokenizer

end PredictiveParsing
