import PredictiveParsing.Regex.Engine

/-!
# Lexical rules

A rule recognises one kind of lexeme at the start of a text. `Rule.quickCheck` judges by the first
scalar alone and may leave the question open; `Rule.matchLength?` answers the length in bytes of the
lexeme, which is never empty.
-/

namespace PredictiveParsing

/-- A matcher for one kind of lexeme. -/
inductive Rule
  /-- One fixed scalar. -/
  | exactChar (c : Char)
  /-- One scalar of a set, given in ascending order. -/
  | charSet (members : List Char)
  /-- One scalar of a closed interval. -/
  | interval (low high : Char)
  /-- A fixed text. -/
  | literal (text : Text)
  /-- Any of the texts, longer ones first. -/
  | literalSet (texts : List Text)
  /-- A regular expression, possibly with the set of scalars that its matches can begin with. -/
  | regexp (regex : Regex) (lookups : Option (List Char))

namespace Rule

/-- Adds a scalar to an ascending list without repetitions. -/
def insertChar (c : Char) : List Char → List Char
  | [] => [c]
  | d :: ds => if c < d then c :: d :: ds else if c = d then d :: ds else d :: insertChar c ds

/-- The scalars of a list in ascending order, without repetitions. -/
def sortChars (cs : List Char) : List Char :=
  cs.foldr insertChar []

/-- The rule for one scalar of a set. -/
def ofChars (members : List Char) : Rule :=
  charSet (sortChars members)

/-- Texts with the longer ones first; texts of one length keep their order. -/
def longestFirst (texts : List Text) : List Text :=
  texts.mergeSort fun a b => b.byteLength ≤ a.byteLength

/-- The rule for any of the texts. -/
def ofLiterals (texts : List Text) : Rule :=
  literalSet (longestFirst texts)

/-- The rule for a written regular expression that the engine compiles. -/
def ofPattern (engine : Regex.Engine) (written : String) : Except InvalidPattern Rule :=
  (Regex.compile engine written).map fun regex => regexp regex none

/-- Guards a regular expression by the scalars that its matches begin with. Other rules need no
guard and stay as they are. -/
def withLookups (members : List Char) : Rule → Rule
  | regexp regex _ => regexp regex (some (sortChars members))
  | rule => rule

/-- What the first scalar says about a match: nothing can match without one, and a rule may leave
the question open. -/
def quickCheck (rule : Rule) (first : Option Char) : Option Bool :=
  match first with
  | none => some false
  | some c =>
    match rule with
    | exactChar expected => some (c == expected)
    | charSet members => some (members.contains c)
    | interval low high => some (low ≤ c && c ≤ high)
    | literal text => some (text.head? == some c)
    | literalSet _ => none
    | regexp _ lookups => lookups.map fun members => members.contains c

/-- The length of a text, if it is not empty and the input begins with it. -/
def literalLength? (input text : Text) : Option Nat :=
  if !text.isEmpty && input.startsWith text then some text.byteLength else none

/-- The length in bytes of the lexeme at the start of a text. -/
def matchLength? (rule : Rule) (input : Text) : Option Nat :=
  match input with
  | [] => none
  | first :: _ =>
    match rule with
    | exactChar _ | charSet _ | interval _ _ =>
      if rule.quickCheck (some first) = some true then some first.utf8Size else none
    | literal text => literalLength? input text
    | literalSet texts => texts.findSome? (literalLength? input)
    | regexp regex _ => (regex.matchEnd? input).filter (0 < ·)

/-- The rule in words. -/
def inspect : Rule → String
  | exactChar c => "ExactChar(" ++ Text.quotedChar c ++ ")"
  | charSet members => "CharSet(" ++ charsInBraces members ++ ")"
  | interval low high =>
    "CharInterval(" ++ Text.quotedChar low ++ ", " ++ Text.quotedChar high ++ ")"
  | literal text => "Literal(" ++ text.quoted ++ ")"
  | literalSet texts => "LiteralSet(" ++ commaSeparated "[" "]" (texts.map Text.quoted) ++ ")"
  | regexp regex lookups =>
    "Regexp \x7b regex: Regex(" ++ quotedName regex.anchored ++ "), lookups: " ++
      (match lookups with
      | none => "None"
      | some members => "Some(" ++ charsInBraces members ++ ")") ++ " \x7d"
where
  /-- A set of scalars between braces. -/
  charsInBraces (members : List Char) : String :=
    commaSeparated "\x7b" "\x7d" (members.map Text.quotedChar)

end Rule

end PredictiveParsing
