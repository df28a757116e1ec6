import PredictiveParsing.Expression.Operators

/-!
# Parsers

A parser is a tree of combinators over token types, references to named rules and operator tables.
Every choice has a slot, the name under which its FIRST sets may be kept.
-/

namespace PredictiveParsing

/-- Whether a member of a sequence contributes to its content. -/
inductive Mark
  | element
  | skip
deriving DecidableEq, Repr

/-- A member of a sequence. -/
structure Member (P : Type) where
  mark : Mark
  parser : P

/-- The action of a sequence, given the results of its elements and the span of all its members. -/
abbrev TupleAction (V : Type) := List (Result V) → Span → Answer V

/-- A parser whose actions make values of type `V`. -/
inductive Parser (V : Type)
  /-- One ordinary token of a type. -/
  | token (type : TokenType)
  /-- The end of the input, which is never consumed. -/
  | endOfInput
  /-- The members one after the other. -/
  | tuple (members : List (Member (Parser V))) (action : Option (TupleAction V))
  /-- The alternative that the next token selects. -/
  | choice (slot : Nat) (alternatives : List (Parser V))
  /-- As many repetitions as there are, but at least `minimum`. -/
  | many (body : Parser V) (minimum : Nat)
  /-- The wrapped parser. -/
  | embed (body : Parser V)
  /-- An expression over an operator table. -/
  | expr (operators : Operators V (Parser V))
  /-- The rule of a name. -/
  | ref (name : String)

variable {V : Type}

/-- The role of an operand that a parser reads, its first token included. -/
def Role.embedding (p : Parser V) : Role V (Parser V) := .embed (.embed p)

namespace Member

variable {P : Type}

/-- A member whose result is kept. -/
def element (p : P) : Member P := ⟨.element, p⟩

/-- A member that has to succeed, whose result is dropped. -/
def skip (p : P) : Member P := ⟨.skip, p⟩

end Member

namespace Parser

/-! ## Size -/

mutual

/-- The number of combinators in a parser. -/
def size : Parser V → Nat
  | token _ | endOfInput | ref _ => 1
  | tuple members _ => membersSize members + 1
  | choice _ alternatives => alternativesSize alternatives + 1
  | many body _ | embed body => body.size + 1
  | expr ⟨roles, _⟩ => rolesSize roles + 1

/-- The size of the members of a sequence. -/
def membersSize : List (Member (Parser V)) → Nat
  | [] => 0
  | ⟨_, p⟩ :: members => p.size + membersSize members

/-- The size of the alternatives of a choice. -/
def alternativesSize : List (Parser V) → Nat
  | [] => 0
  | p :: alternatives => p.size + alternativesSize alternatives

/-- The size of the parsers embedded in a table. -/
def rolesSize : List (TokenType × Role V (Parser V)) → Nat
  | [] => 0
  | (_, .embed p) :: roles => p.size + rolesSize roles
  | _ :: roles => rolesSize roles

end

/-! ## Slots -/

mutual

/-- Gives every choice a slot of its own, from `fresh` on, and answers the next free slot. Operator
tables are shared and keep their slots. -/
def relabel (fresh : Nat) : Parser V → Parser V × Nat
  | tuple members action =>
    let (members, fresh) := relabelMembers fresh members
    (tuple members action, fresh)
  | choice _ alternatives =>
    let (alternatives, next) := relabelAlternatives (fresh + 1) alternatives
    (choice fresh alternatives, next)
  | many body minimum =>
    let (body, fresh) := body.relabel fresh
    (many body minimum, fresh)
  | embed body =>
    let (body, fresh) := body.relabel fresh
    (embed body, fresh)
  | p => (p, fresh)

/-- Relabels the members of a sequence. -/
def relabelMembers (fresh : Nat) : List (Member (Parser V)) → List (Member (Parser V)) × Nat
  | [] => ([], fresh)
  | ⟨mark, p⟩ :: members =>
    let (p, fresh) := p.relabel fresh
    let (members, fresh) := relabelMembers fresh members
    (⟨mark, p⟩ :: members, fresh)

/-- Relabels the alternatives of a choice. -/
def relabelAlternatives (fresh : Nat) : List (Parser V) → List (Parser V) × Nat
  | [] => ([], fresh)
  | p :: alternatives =>
    let (p, fresh) := p.relabel fresh
    let (alternatives, fresh) := relabelAlternatives fresh alternatives
    (p :: alternatives, fresh)

end

mutual

/-- Gives every choice a slot of its own, those in operator tables included. -/
def relabelAll (fresh : Nat) : Parser V → Parser V × Nat
  | tuple members action =>
    let (members, fresh) := relabelAllMembers fresh members
    (tuple members action, fresh)
  | choice _ alternatives =>
    let (alternatives, next) := relabelAllAlternatives (fresh + 1) alternatives
    (choice fresh alternatives, next)
  | many body minimum =>
    let (body, fresh) := body.relabelAll fresh
    (many body minimum, fresh)
  | embed body =>
    let (body, fresh) := body.relabelAll fresh
    (embed body, fresh)
  | expr ⟨roles, skip⟩ =>
    let (roles, fresh) := relabelAllRoles fresh roles
    (expr ⟨roles, skip⟩, fresh)
  | p => (p, fresh)

/-- Relabels the members of a sequence. -/
def relabelAllMembers (fresh : Nat) : List (Member (Parser V)) → List (Member (Parser V)) × Nat
  | [] => ([], fresh)
  | ⟨mark, p⟩ :: members =>
    let (p, fresh) := p.relabelAll fresh
    let (members, fresh) := relabelAllMembers fresh members
    (⟨mark, p⟩ :: members, fresh)

/-- Relabels the alternatives of a choice. -/
def relabelAllAlternatives (fresh : Nat) : List (Parser V) → List (Parser V) × Nat
  | [] => ([], fresh)
  | p :: alternatives =>
    let (p, fresh) := p.relabelAll fresh
    let (alternatives, fresh) := relabelAllAlternatives fresh alternatives
    (p :: alternatives, fresh)

/-- Relabels the parsers embedded in a table. -/
def relabelAllRoles (fresh : Nat) :
    List (TokenType × Role V (Parser V)) → List (TokenType × Role V (Parser V)) × Nat
  | [] => ([], fresh)
  | (key, .embed p) :: roles =>
    let (p, fresh) := p.relabelAll fresh
    let (roles, fresh) := relabelAllRoles fresh roles
    ((key, .embed p) :: roles, fresh)
  | entry :: roles =>
    let (roles, fresh) := relabelAllRoles fresh roles
    (entry :: roles, fresh)

end

mutual

/-- The slots of the choices outside of operator tables. -/
def slots : Parser V → List Nat
  | tuple members _ => membersSlots members
  | choice slot alternatives => slot :: alternativesSlots alternatives
  | many body _ | embed body => body.slots
  | _ => []

/-- The slots in the members of a sequence. -/
def membersSlots : List (Member (Parser V)) → List Nat
  | [] => []
  | ⟨_, p⟩ :: members => p.slots ++ membersSlots members

/-- The slots in the alternatives of a choice. -/
def alternativesSlots : List (Parser V) → List Nat
  | [] => []
  | p :: alternatives => p.slots ++ alternativesSlots alternatives

end

end Parser

end PredictiveParsing
