import PredictiveParsing.Parsing.Result

/-!
# Operator tables

An operator table gives token types their roles in an expression: operands of one token, prefix and
infix operators with their binding priorities, brackets, and operands read by an embedded parser.
Tokens of the table's skip types may stand anywhere in between. The embedded parsers are of any type
`P`; what they are and how they run is not the table's business.
-/

namespace PredictiveParsing

/-- The action of an operand. -/
abbrev AtomAction (V : Type) := Token → Answer (Result V)

/-- The action of a prefix operator, given the operator and its operand. -/
abbrev PrefixAction (V : Type) := Token → Result V → Answer (Result V)

/-- The action of an infix operator, given the operator between its operands. -/
abbrev InfixAction (V : Type) := Result V → Token → Result V → Answer (Result V)

/-- How operators of equal priority group. -/
inductive Associativity
  /-- The operator to the left takes the operand between two. -/
  | left
  /-- The operator to the right takes the operand between two. -/
  | right
deriving DecidableEq, Repr

/-- The role of a token type in an expression. A higher priority binds tighter. Without an action an
operand is its token, and an operator makes the list of itself and its operands in reading order. -/
inductive Role (V P : Type)
  | atom (action : Option (AtomAction V))
  | prefixOp (priority : Nat) (action : Option (PrefixAction V))
  | infixOp (priority : Nat) (associativity : Associativity) (action : Option (InfixAction V))
  /-- A prefix operator where an operand begins, and an infix operator behind one. -/
  | mixfix (prefixPriority infixPriority : Nat) (associativity : Associativity)
      (onPrefix : Option (PrefixAction V)) (onInfix : Option (InfixAction V))
  | bracket (opening closing : TokenType)
  | embed (parser : P)

namespace Role

variable {V P : Type}

/-- The role in words. -/
def name : Role V P → String
  | atom .. => "atom"
  | prefixOp .. => "prefix"
  | infixOp .. => "infix"
  | mixfix .. => "mixfix"
  | bracket .. => "bracket"
  | embed .. => "embed"

/-- Installs the action of an operand. -/
def onAtom (action : AtomAction V) : Role V P → Except Fault (Role V P)
  | atom _ => .ok (atom (some action))
  | role => .error (.wrongRole "on_atom" role.name)

/-- Installs the action of a prefix operator. -/
def onPrefix (action : PrefixAction V) : Role V P → Except Fault (Role V P)
  | prefixOp p _ => .ok (prefixOp p (some action))
  | mixfix p i a _ f => .ok (mixfix p i a (some action) f)
  | role => .error (.wrongRole "on_prefix" role.name)

/-- Installs the action of an infix operator. -/
def onInfix (action : InfixAction V) : Role V P → Except Fault (Role V P)
  | infixOp p a _ => .ok (infixOp p a (some action))
  | mixfix p i a f _ => .ok (mixfix p i a f (some action))
  | role => .error (.wrongRole "on_infix" role.name)

/-- True if an operand can begin with a token of the role. -/
def startsOperand : Role V P → Bool
  | infixOp .. => false
  | _ => true

/-- What the role is behind an operand: priority, grouping and action of an infix operator. -/
def infixRole? : Role V P → Option (Nat × Associativity × Option (InfixAction V))
  | infixOp p a f => some (p, a, f)
  | mixfix _ p a _ f => some (p, a, f)
  | _ => none

end Role

/-- Associativity in words. -/
def Associativity.inspect : Associativity → String
  | left => "Left"
  | right => "Right"

/-- The least priority that an operator in the right operand may have. -/
def Associativity.rightMinimum (priority : Nat) : Associativity → Nat
  | left => priority + 1
  | right => priority

/-- The roles of token types, one each, and the types that are skipped. -/
structure Operators (V P : Type) where
  roles : List (TokenType × Role V P)
  skip : List TokenType

namespace Operators

variable {V P : Type}

/-- The table without roles. -/
def empty : Operators V P := ⟨[], []⟩

/-- Makes a type transparent. -/
def skipping (o : Operators V P) (type : TokenType) : Operators V P :=
  if o.skip.contains type then o else { o with skip := o.skip ++ [type] }

/-- Puts a role in the place of the one that a type had, or behind the others. -/
def setRole (key : TokenType) (role : Role V P) :
    List (TokenType × Role V P) → List (TokenType × Role V P)
  | [] => [(key, role)]
  | entry :: entries =>
    if entry.1 = key then (key, role) :: entries else entry :: setRole key role entries

/-- Gives a type its role. A bracket is registered under the type it opens with. -/
def register (o : Operators V P) (key : TokenType) (role : Role V P) :
    Except Fault (Operators V P) :=
  match role with
  | .bracket opening _ =>
    if opening = key then .ok { o with roles := setRole key role o.roles }
    else .error (.misplacedBracket opening key)
  | role => .ok { o with roles := setRole key role o.roles }

/-- Registers a pair of brackets under the opening one. -/
def registerBracket (o : Operators V P) (opening closing : TokenType) :
    Except Fault (Operators V P) :=
  o.register opening (.bracket opening closing)

/-- The role of a type. -/
def role? (o : Operators V P) (type : TokenType) : Option (Role V P) :=
  o.roles.lookup type

/-- The role of a token. Only ordinary tokens have one. -/
def roleOf? (o : Operators V P) (t : Token) : Option (Role V P) :=
  if t.kind = .ordinary then o.role? t.type else none

/-- True if the token is stepped over. -/
def skips (o : Operators V P) (t : Token) : Bool :=
  t.kind = .ordinary && o.skip.contains t.type

/-- The types that an expression can begin with, skipped ones included. -/
def leadingTypes (o : Operators V P) : List TokenType :=
  (o.roles.filter fun entry => entry.2.startsOperand).map Prod.fst ++ o.skip

end Operators

end PredictiveParsing
