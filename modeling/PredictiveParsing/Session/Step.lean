import PredictiveParsing.Grammar.Validation
import PredictiveParsing.Parsing.Report
import PredictiveParsing.Parsing.Run

/-!
# Steps of a session

A session holds a grammar, a tokenizer and what was made with them so far, and is driven by steps.
`Step` lists what can be asked and `Reply` what is answered. Parsers come with arbitrary slots; the
session gives them fresh ones.
-/

namespace PredictiveParsing.Session

/-- The part of a result that is asked for. -/
inductive Content
  | value
  | token
  | list
deriving DecidableEq, Repr

/-- What can be asked of a session. -/
inductive Step (V : Type)
  /-- Adds a rule to the tokenizer. -/
  | addRule (type : TokenType) (rule : Rule)
  /-- The rules of the tokenizer. -/
  | rules
  /-- Starts over with another input. -/
  | input (text : Text)
  /-- Where the tokenizer is. -/
  | state
  /-- The token at the cursor, possibly saved under a number. -/
  | peek (save : Option Nat)
  /-- The token at the cursor, which is moved over. -/
  | next
  /-- Like `next`, without the token at the end. -/
  | iterate
  /-- All further tokens. -/
  | tokenize
  /-- Moves over a given token. -/
  | forward (token : Token)
  /-- Moves over a saved token. -/
  | forwardSaved (saved : Nat)
  /-- Compares two saved tokens. -/
  | sameToken (first second : Nat)
  /-- The token at the cursor, committed as a parser does. -/
  | commitNext
  /-- Registers a rule of the grammar. -/
  | register (name : String) (parser : Parser V)
  /-- Registers a copy of a rule under another name. -/
  | copy (source name : String)
  /-- Chooses the parser to start from. -/
  | setEntry (parser : Parser V)
  /-- The parser to start from, in words. -/
  | entry
  /-- A rule, in words. -/
  | get (name : String)
  /-- A rule that is promised to exist, in words. -/
  | resolve (name : String)
  /-- A reference, in words. -/
  | reference (name : String)
  /-- The grammar in words. -/
  | inspect
  /-- Checks the grammar. -/
  | validate
  /-- The FIRST set of a parser. -/
  | firstSet (parser : Parser V)
  /-- What two parsers can both begin with. -/
  | overlap (first second : Parser V)
  /-- Whether a parser can begin with the next token. -/
  | accepts (parser : Parser V)
  /-- The parts of a parser. -/
  | describe (parser : Parser V)
  /-- Runs the grammar, possibly over another input. -/
  | parse (input : Option Text)
  /-- Runs a parser, possibly over another input. -/
  | run (parser : Parser V) (input : Option Text)
  /-- Runs an expression from a least priority on, possibly over another input. -/
  | runAbove (operators : Operators V (Parser V)) (minimum : Nat) (input : Option Text)
  /-- The demanded content of the last result. -/
  | demand (content : Content)
  /-- The content of the last result, whatever it is. -/
  | view
  /-- The last result for another region. -/
  | withSpan (span : Span)
  /-- The list of the last result. -/
  | wrap
  /-- An item of the last result. -/
  | pick (index : Nat)
  /-- Compares two results. -/
  | equal (first second : Nat)

/-- The parts of a parser, as far as they differ by kind. -/
inductive Parts
  | tuple (marks : List Mark)
  | choice (alternatives : Nat)
  /-- The types that can begin the expression, and every type with whether it begins an operand and
  its role in words, both in ascending order. -/
  | expr (leading : List TokenType) (handlers : List (TokenType × Bool × String))
  | other

/-- What a session answers. -/
inductive Reply (V : Type)
  | count (n : Nat)
  | flag (b : Bool)
  | rules (rules : List (TokenType × Rule))
  | state (position : Position) (atEnd : Bool) (input : Text)
  /-- A token, and where the tokenizer is behind it. -/
  | token (token : Token) (position : Position)
  /-- No token is left. -/
  | noToken (position : Position)
  | tokens (tokens : List Token) (position : Position)
  | committed (token : Token) (position : Position) (inputBytes : Nat)
  | names (names : List String)
  /-- There is no such thing. -/
  | nothing
  | words (text : String)
  | found (words : Option String)
  | valid
  | grammarError (error : GrammarError)
  | firstSet (first : FirstSet)
  | lookaheads (shared : List Lookahead)
  | acceptance (accepts hasType hasEnd : Bool)
  | parts (words : String) (parts : Parts)
  /-- A parse succeeded; the tokenizer stands at the position. -/
  | parsed (result : Result V) (position : Position)
  /-- A parse failed; the tokenizer stands at the position. -/
  | failed (error : ParseError) (report : String) (position : Position)
  /-- A demand on a result failed. -/
  | refused (error : ParseError) (report : String)
  | value (value : V)
  | plainToken (token : Token)
  | items (items : List (Result V))
  | content (value : Option V) (token : Option Token) (length : Option Nat)
  | result (result : Result V)
  | fault (fault : Fault)
  /-- A run went deeper than its input allows. -/
  | exhausted

end PredictiveParsing.Session
