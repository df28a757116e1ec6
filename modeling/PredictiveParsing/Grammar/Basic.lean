import PredictiveParsing.Grammar.Inspect

/-!
# Grammars

A grammar is a registry of named rules, in the order of their first registration, and possibly a
parser to start from. Rules refer to each other by name, so that a rule may mention rules that are
registered later, or itself. The stamp changes with every registration.
-/

namespace PredictiveParsing

/-- Named rules and the parser to start from. -/
structure Grammar (V : Type) where
  rules : List (String × Parser V)
  entry : Option (Parser V)
  stamp : Nat

namespace Grammar

variable {V : Type}

/-- The grammar without rules. -/
def empty : Grammar V := ⟨[], none, 0⟩

/-- Puts a rule in the place of the one that the name had, or behind the others. -/
def setRule (name : String) (p : Parser V) : List (String × Parser V) → List (String × Parser V)
  | [] => [(name, p)]
  | rule :: rules => if rule.1 = name then (name, p) :: rules else rule :: setRule name p rules

/-- Gives a name its rule. -/
def register (g : Grammar V) (name : String) (p : Parser V) : Grammar V :=
  { g with rules := setRule name p g.rules, stamp := g.stamp + 1 }

/-- Chooses the parser to start from. -/
def withEntry (g : Grammar V) (p : Parser V) : Grammar V :=
  { g with entry := some p }

/-- The rule of a name. -/
def rule? (g : Grammar V) (name : String) : Option (Parser V) :=
  g.rules.lookup name

/-- The names of the rules in order. -/
def names (g : Grammar V) : List String :=
  g.rules.map Prod.fst

/-- The parser to start from: the chosen one, or else the first rule. -/
def entry? (g : Grammar V) : Option (Parser V) :=
  match g.entry with
  | some p => some p
  | none => g.names.head?.map .ref

/-- The rule of a name that is promised to have one. -/
def resolve (g : Grammar V) (name : String) : Except Fault (Parser V) :=
  match g.rule? name with
  | some p => .ok p
  | none => .error (.incompleteGrammar (.unregisteredRule name))

/-- The number of combinators in several rules. -/
def rulesSize : List (String × Parser V) → Nat
  | [] => 0
  | (_, p) :: rules => p.size + rulesSize rules

/-- The number of combinators in all rules. -/
def size (g : Grammar V) : Nat :=
  rulesSize g.rules

/-- The grammar in words. -/
def inspect (g : Grammar V) : String :=
  commaSeparated "\x7b" "\x7d" (g.rules.map fun (name, p) => quotedName name ++ ": " ++ p.inspect)

end Grammar

end PredictiveParsing
