import PredictiveParsing.Grammar.Parser

/-!
# Parsers in words

`Parser.inspect` writes a parser down: its combinators and types, but of its actions only that a
sequence has one.
-/

namespace PredictiveParsing

variable {V : Type}

/-- A mark in words. -/
def Mark.inspect : Mark → String
  | element => "Element"
  | skip => "Skip"

namespace Parser

/-- Inserts an item into an ascending list by its key, in front of items of an equal key. -/
def insertByKey {α : Type} (key : String) (item : α) : List (String × α) → List (String × α)
  | [] => [(key, item)]
  | entry :: entries =>
    if entry.1 < key then entry :: insertByKey key item entries
    else (key, item) :: entry :: entries

/-- Items in ascending order of their keys; items of one key keep their order. -/
def sortByKey {α : Type} (entries : List (String × α)) : List (String × α) :=
  entries.foldr (fun (key, item) sorted => insertByKey key item sorted) []

/-- A role in words, given the words of an embedded parser. -/
def inspectRole {P : Type} (embedded : P → String) : Role V P → String
  | .atom _ => "Atom"
  | .prefixOp p _ => "Prefix(" ++ toString p ++ ")"
  | .infixOp p a _ => "Infix(" ++ toString p ++ ", " ++ a.inspect ++ ")"
  | .mixfix p i a _ _ =>
    "Mixfix(" ++ toString p ++ ", " ++ toString i ++ ", " ++ a.inspect ++ ")"
  | .bracket opening closing => "Bracket(" ++ opening ++ ", " ++ closing ++ ")"
  | .embed p => "Embed(" ++ embedded p ++ ")"

/-- An operator table in words, given the words of its roles. -/
def inspectTable (roles : List (TokenType × String)) (skip : List TokenType) : String :=
  let entry := fun (pair : TokenType × String) => "(" ++ pair.1.inspect ++ ", " ++ pair.2 ++ ")"
  let types :=
    (sortByKey (skip.map fun type => (type, ()))).map fun (type, _) => TokenType.inspect type
  "ExprParser \x7b handlers: " ++ commaSeparated "[" "]" ((sortByKey roles).map entry) ++
    ", skip: " ++ commaSeparated "[" "]" types ++ " \x7d"

mutual

/-- A parser in words. -/
def inspect : Parser V → String
  | token type => "Token(" ++ type ++ ")"
  | endOfInput => "EOF"
  | tuple members action =>
    "Tuple(" ++ commaSeparated "[" "]" (inspectMembers members) ++
      (if action.isSome then " => xform" else "") ++ ")"
  | choice _ alternatives => "Choice(" ++ commaSeparated "[" "]" (inspectAll alternatives) ++ ")"
  | many body minimum =>
    "Repeat \x7b sub: " ++ body.inspect ++ ", minimum: " ++ toString minimum ++ " \x7d"
  | embed body => "Embed(" ++ body.inspect ++ ")"
  | expr ⟨roles, skip⟩ => inspectTable (inspectRoles roles) skip
  | ref name => "Ref(" ++ name ++ ")"

/-- The members of a sequence in words. -/
def inspectMembers : List (Member (Parser V)) → List String
  | [] => []
  | ⟨mark, p⟩ :: members =>
    ("(" ++ mark.inspect ++ ", " ++ p.inspect ++ ")") :: inspectMembers members

/-- The alternatives of a choice in words. -/
def inspectAll : List (Parser V) → List String
  | [] => []
  | p :: alternatives => p.inspect :: inspectAll alternatives

/-- The types of a table with their roles in words. -/
def inspectRoles : List (TokenType × Role V (Parser V)) → List (TokenType × String)
  | [] => []
  | (key, .embed p) :: roles =>
    (key, inspectRole id (V := V) (.embed p.inspect)) :: inspectRoles roles
  | (key, role) :: roles => (key, inspectRole (fun _ => "") role) :: inspectRoles roles

end

end Parser

end PredictiveParsing
