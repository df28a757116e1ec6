import PredictiveParsing.Expression.Operators

/-!
# Syntax trees of expressions

A syntax tree of an operator table keeps what a result forgets: its brackets, and how strongly its
operators bind. `SyntaxTree.erase` is the result that stands for a tree, `SyntaxTree.tokens` are its
tokens in reading order.

A tree is `SyntaxTree.Grouped` if its operators take the operands that the table gives them. The
infix operators on the left spine of a right operand, or of the operand of a prefix operator, bind
at least as strongly as the operator in front requires, and an infix operator binds too weakly to
continue the right operand of any operator on the right spine of its left operand. Brackets hide
what is inside of them.
-/

namespace PredictiveParsing

/-! ## Roles -/

/-- How an operand goes on behind a token it begins with. -/
inductive Opening
  /-- The token is the operand. -/
  | atom
  /-- An operand of the given least priority follows. -/
  | prefixOp (priority : Nat)
  /-- An expression follows, and then a token of the closing type. -/
  | bracket (closing : TokenType)
deriving DecidableEq, Repr

variable {V P : Type}

namespace Role

/-- What a role opens where an operand begins, embedded parsers apart. -/
def opening? : Role V P → Option Opening
  | atom _ => some .atom
  | prefixOp p _ | mixfix p _ _ _ _ => some (.prefixOp p)
  | bracket _ closing => some (.bracket closing)
  | infixOp .. | embed _ => none

/-- Priority and grouping of an infix operator. -/
def binding? (role : Role V P) : Option (Nat × Associativity) :=
  role.infixRole?.map fun (p, a, _) => (p, a)

/-- The role has no action and embeds no parser. -/
def Bare : Role V P → Prop
  | atom none | prefixOp _ none | infixOp _ _ none | mixfix _ _ _ none none | bracket .. => True
  | _ => False

end Role

namespace Operators

/-- What a token opens where an operand begins. -/
def openingOf? (o : Operators V P) (t : Token) : Option Opening :=
  (o.roleOf? t).bind Role.opening?

/-- Priority and grouping of a token behind an operand. -/
def bindingOf? (o : Operators V P) (t : Token) : Option (Nat × Associativity) :=
  (o.roleOf? t).bind Role.binding?

/-- No role of the table has an action or embeds a parser. -/
def Bare (o : Operators V P) : Prop :=
  ∀ type role, o.role? type = some role → role.Bare

/-- No closing type is an infix operator. -/
def ClosingsEnd (o : Operators V P) : Prop :=
  ∀ type opening closing role, o.role? type = some (.bracket opening closing) →
    o.role? closing = some role → role.binding? = none

/-- The token is no infix operator of at least the given priority. -/
def Below (o : Operators V P) (minimum : Nat) (t : Token) : Prop :=
  ∀ p a, o.bindingOf? t = some (p, a) → p < minimum

variable {o : Operators V P} {t : Token}

theorem role?_of_roleOf? {role : Role V P} (h : o.roleOf? t = some role) :
    t.kind = .ordinary ∧ o.role? t.type = some role := by
  unfold roleOf? at h
  split at h
  · next hk => exact ⟨hk, h⟩
  · cases h

theorem mem_of_role? {type : TokenType} {role : Role V P} (h : o.role? type = some role) :
    (type, role) ∈ o.roles := by
  obtain ⟨before, after, hroles, -⟩ := List.lookup_eq_some_iff.1 h
  rw [hroles]
  exact List.mem_append_right _ (.head _)

/-- What opens something is an ordinary token. -/
theorem kind_of_openingOf? {opening : Opening} (h : o.openingOf? t = some opening) :
    t.kind = .ordinary := by
  obtain ⟨role, hrole, -⟩ := Option.bind_eq_some_iff.1 h
  exact (role?_of_roleOf? hrole).1

/-- An infix operator is an ordinary token. -/
theorem kind_of_bindingOf? {p : Nat} {a : Associativity} (h : o.bindingOf? t = some (p, a)) :
    t.kind = .ordinary := by
  obtain ⟨role, hrole, -⟩ := Option.bind_eq_some_iff.1 h
  exact (role?_of_roleOf? hrole).1

theorem ordinary_of_openingOf? {opening : Opening} (h : o.openingOf? token = some opening) :
    token.kind ≠ .endOfInput := by
  rw [kind_of_openingOf? h]
  nofun

theorem ordinary_of_bindingOf? {p : Nat} {a : Associativity}
    (h : o.bindingOf? token = some (p, a)) : token.kind ≠ .endOfInput := by
  rw [kind_of_bindingOf? h]
  nofun

/-- A closing token ends every expression in front of it. -/
theorem ClosingsEnd.bindingOf? (ho : o.ClosingsEnd) {closing : TokenType} {last : Token}
    (ht : o.openingOf? t = some (.bracket closing)) (hlast : last.is closing = true) :
    o.bindingOf? last = none := by
  obtain ⟨role, hrole, hopen⟩ := Option.bind_eq_some_iff.1 ht
  obtain ⟨-, hrole⟩ := role?_of_roleOf? hrole
  cases hl : o.roleOf? last with
  | none => rw [Operators.bindingOf?, hl]; rfl
  | some role' =>
    obtain ⟨-, hrole'⟩ := role?_of_roleOf? hl
    simp only [Token.is, Bool.and_eq_true, decide_eq_true_eq, beq_iff_eq] at hlast
    rw [hlast.2] at hrole'
    rw [Operators.bindingOf?, hl]
    cases role with
    | bracket opening closing' =>
      cases hopen
      exact ho _ _ _ _ hrole hrole'
    | atom | prefixOp | mixfix | infixOp | embed => cases hopen

end Operators

/-! ## Trees -/

/-- A syntax tree with its brackets. Operators carry their priority, infix operators their grouping
too. -/
inductive SyntaxTree
  | atom (token : Token)
  | prefixed (priority : Nat) (op : Token) (operand : SyntaxTree)
  | infixed (priority : Nat) (associativity : Associativity) (left : SyntaxTree) (op : Token)
      (right : SyntaxTree)
  | bracketed (first : Token) (body : SyntaxTree) (last : Token)
deriving DecidableEq, Repr

namespace SyntaxTree

/-- The tokens in reading order, brackets included. -/
def tokens : SyntaxTree → List Token
  | atom t => [t]
  | prefixed _ op operand => op :: operand.tokens
  | infixed _ _ left op right => left.tokens ++ op :: right.tokens
  | bracketed first body last => first :: (body.tokens ++ [last])

/-- The region from the first token to the last. -/
def span : SyntaxTree → Span
  | atom t => t.span
  | prefixed _ op operand => ⟨op.span.start, operand.span.stop⟩
  | infixed _ _ left _ right => ⟨left.span.start, right.span.stop⟩
  | bracketed first _ last => ⟨first.span.start, last.span.stop⟩

/-- The result that stands for the tree: tokens and lists, with no trace of the brackets but the
region they enclose. -/
def erase : SyntaxTree → Result V
  | atom t => .ofToken t
  | prefixed p op operand => .list [.ofToken op, operand.erase] (prefixed p op operand).span
  | infixed p a left op right =>
    .list [left.erase, .ofToken op, right.erase] (infixed p a left op right).span
  | bracketed first body last => body.erase.withSpan (bracketed first body last).span

/-- The priorities of the infix operators on the left spine. -/
def leftPriorities : SyntaxTree → List Nat
  | infixed p _ left _ _ => p :: left.leftPriorities
  | atom _ | prefixed .. | bracketed .. => []

/-- The least priorities that the operators on the right spine ask of their right operands. -/
def rightMinima : SyntaxTree → List Nat
  | prefixed p _ operand => p :: operand.rightMinima
  | infixed p a _ _ right => a.rightMinimum p :: right.rightMinima
  | atom _ | bracketed .. => []

/-- The operands of every operator are as strong as it takes to be its operands. -/
def Grouped : SyntaxTree → Prop
  | atom _ => True
  | prefixed p _ operand => (∀ q ∈ operand.leftPriorities, p ≤ q) ∧ operand.Grouped
  | infixed p a left _ right =>
    (∀ m ∈ left.rightMinima, p < m) ∧ (∀ q ∈ right.leftPriorities, a.rightMinimum p ≤ q) ∧
      left.Grouped ∧ right.Grouped
  | bracketed _ body _ => body.Grouped

/-- The tokens of the tree have the roles that the tree gives them. -/
def Over (o : Operators V P) : SyntaxTree → Prop
  | atom t => o.openingOf? t = some .atom
  | prefixed p op operand => o.openingOf? op = some (.prefixOp p) ∧ operand.Over o
  | infixed p a left op right => o.bindingOf? op = some (p, a) ∧ left.Over o ∧ right.Over o
  | bracketed first body last =>
    (∃ closing, o.openingOf? first = some (.bracket closing) ∧ last.is closing = true) ∧
      body.Over o

/-- No operator on the right spine takes the token as an operator of its right operand. -/
def Declines (o : Operators V P) (tree : SyntaxTree) (t : Token) : Prop :=
  ∀ m ∈ tree.rightMinima, o.Below m t

@[simp] theorem span_erase (tree : SyntaxTree) : (tree.erase : Result V).span = tree.span := by
  cases tree with
  | atom | prefixed | infixed => rfl
  | bracketed first body last => simp only [erase]; cases body.erase <;> rfl

/-- The content of a prefix operator covers the content of its operand. -/
theorem erase_prefixed (p : Nat) (op : Token) (operand : SyntaxTree) :
    (prefixed p op operand).erase =
      (.list [.ofToken op, operand.erase]
        ⟨op.span.start, (operand.erase : Result V).span.stop⟩ : Result V) := by
  rw [span_erase]
  rfl

/-- The content of an infix operator covers the contents of its operands. -/
theorem erase_infixed (p : Nat) (a : Associativity) (left : SyntaxTree) (op : Token)
    (right : SyntaxTree) :
    (infixed p a left op right).erase =
      (.list [left.erase, .ofToken op, right.erase]
        ⟨(left.erase : Result V).span.start, (right.erase : Result V).span.stop⟩ : Result V) := by
  rw [span_erase, span_erase]
  rfl

/-- What begins no infix operator is declined everywhere. -/
theorem declines_of_bindingOf?_eq_none {o : Operators V P} {t : Token}
    (h : o.bindingOf? t = none) (tree : SyntaxTree) : tree.Declines o t := by
  intro m _ p a hp
  rw [h] at hp
  cases hp

end SyntaxTree

end PredictiveParsing
