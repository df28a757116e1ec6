import PredictiveParsing.Expression.Climbing
import PredictiveParsing.Proofs.Expression.Tree

/-!
# Growing syntax trees

`Operators.growAbove` reads an expression as `Operators.above` does, with the same moves and the
same events, but it answers the syntax tree, brackets included, and runs no action. Where it fails it
answers the trees that are complete by then, in reading order: each operand and each operator whose
operands are complete, if it is not part of a larger complete tree. These are the trees whose actions
have run when an expression with actions comes to the same place.

It reads nothing of a table but what its tokens open and how they bind, so it grows the same trees
without the actions of the table (`Operators.growAbove_withoutActions`).
-/

namespace PredictiveParsing

open ParseM

variable {V P α : Type}

/-! ## Runs that grow trees -/

/-- A failure, and the trees that were complete before it. -/
structure Interruption where
  failure : Failure
  complete : List SyntaxTree
deriving DecidableEq, Repr

/-- A computation that changes a context and may fail, with trees complete by then. -/
abbrev GrowM (α : Type) := ExceptT Interruption (StateM Context) α

namespace GrowM

/-- Runs a parser that completes no tree. -/
def lift (x : ParseM α) : GrowM α := fun c =>
  match x c with
  | (.ok a, d) => (.ok a, d)
  | (.error e, d) => (.error ⟨e, []⟩, d)

/-- Runs a parser behind a tree that is complete. -/
def behind (tree : SyntaxTree) (x : GrowM α) : GrowM α := fun c =>
  match x c with
  | (.ok a, d) => (.ok a, d)
  | (.error i, d) => (.error ⟨i.failure, tree :: i.complete⟩, d)

/-- What a run in two parts does, by the end of its first part. -/
theorem bind_apply {β : Type} (x : GrowM α) (f : α → GrowM β) (c : Context) :
    (x >>= f) c =
      match x c with
      | (.ok a, d) => f a d
      | (.error i, d) => (.error i, d) := by
  show (match x c with | (r, d) => ExceptT.bindCont f r d) = _
  rcases x c with ⟨_ | _, _⟩ <;> rfl

end GrowM

open GrowM

namespace Operators

variable (o : Operators V P)

/-- Reads the operand that begins with `token`. Expressions inside of it are read by `inner`, which
takes their least priority. -/
def growOperand (inner : Nat → GrowM SyntaxTree) (token : Token) : GrowM SyntaxTree :=
  match o.openingOf? token with
  | some .atom => do
    lift (commit token)
    lift (note (.atom token))
    return .atom token
  | some (.bracket closing) => do
    lift (commit token)
    let body ← inner 0
    let last ← behind body (lift o.current)
    if last.is closing then
      behind body (lift (commit last))
      return .bracketed token body last
    else
      behind body (lift (unexpected
        (closing ++ " to balance the bracket at " ++ toString token.span.start) last))
  | some (.prefixOp priority) => do
    lift (commit token)
    lift (note (.prefixOp token priority))
    let operand ← inner priority
    return .prefixed priority token operand
  | none => lift (unexpected "an expression" token)

/-- Takes operators of at least the given priority and their right operands behind the operand
`left`, which is complete. -/
def growClimb (inner : Nat → GrowM SyntaxTree) (minimum : Nat) :
    Nat → SyntaxTree → GrowM SyntaxTree
  | 0, left => behind left (lift (throw .exhausted))
  | n + 1, left => do
    let token ← behind left (lift o.current)
    match o.bindingOf? token with
    | none => return left
    | some (priority, associativity) =>
      if priority < minimum then return left
      else do
        behind left (lift (commit token))
        behind left (lift (note (.infixOp token priority)))
        let right ← behind left (inner (associativity.rightMinimum priority))
        growClimb inner minimum n (.infixed priority associativity left token right)

/-- Reads an expression whose infix operators have at least the given priority. The first number
bounds how deep expressions nest. -/
def growAbove : Nat → Nat → GrowM SyntaxTree
  | 0, _ => lift (throw .exhausted)
  | depth + 1, minimum => do
    let token ← lift o.current
    let left ← o.growOperand (growAbove depth) token
    let unread ← behind left (lift unread)
    o.growClimb (growAbove depth) minimum (unread + 1) left

/-- Reads the syntax tree of an expression whose infix operators have at least the given
priority. -/
def grow (minimum : Nat) : GrowM SyntaxTree := do
  let unread ← lift unread
  o.growAbove (unread + 1) minimum

end Operators

/-! ## Tables without their actions -/

/-- The role without its actions. -/
def Role.withoutActions : Role V P → Role V P
  | atom _ => atom none
  | prefixOp p _ => prefixOp p none
  | infixOp p a _ => infixOp p a none
  | mixfix p i a _ _ => mixfix p i a none none
  | bracket opening closing => bracket opening closing
  | embed parser => embed parser

namespace Operators

/-- The table without its actions. -/
def withoutActions (o : Operators V P) : Operators V P :=
  { o with roles := o.roles.map fun entry => (entry.1, entry.2.withoutActions) }

variable (o : Operators V P)

theorem lookup_withoutActions (type : TokenType) (roles : List (TokenType × Role V P)) :
    (roles.map fun entry => (entry.1, entry.2.withoutActions)).lookup type =
      (roles.lookup type).map Role.withoutActions := by
  induction roles with
  | nil => rfl
  | cons entry roles ih =>
    rw [List.map_cons, List.lookup_cons, List.lookup_cons, ih]
    cases type == entry.1 <;> rfl

theorem roleOf?_withoutActions (token : Token) :
    o.withoutActions.roleOf? token = (o.roleOf? token).map Role.withoutActions := by
  unfold roleOf?
  split
  · exact lookup_withoutActions token.type o.roles
  · rfl

theorem openingOf?_withoutActions (token : Token) :
    o.withoutActions.openingOf? token = o.openingOf? token := by
  rw [openingOf?, roleOf?_withoutActions, openingOf?]
  cases o.roleOf? token with
  | none => rfl
  | some role => cases role <;> rfl

theorem bindingOf?_withoutActions (token : Token) :
    o.withoutActions.bindingOf? token = o.bindingOf? token := by
  rw [bindingOf?, roleOf?_withoutActions, bindingOf?]
  cases o.roleOf? token with
  | none => rfl
  | some role => cases role <;> rfl

theorem skipTo_withoutActions (n : Nat) : o.withoutActions.skipTo n = o.skipTo n := by
  induction n with
  | zero => rfl
  | succ n ih =>
    unfold skipTo
    rw [ih]
    rfl

theorem current_withoutActions : o.withoutActions.current = o.current := by
  unfold current
  simp only [skipTo_withoutActions]

theorem growOperand_withoutActions (inner : Nat → GrowM SyntaxTree) (token : Token) :
    o.withoutActions.growOperand inner token = o.growOperand inner token := by
  unfold growOperand
  rw [openingOf?_withoutActions, current_withoutActions]

theorem growClimb_withoutActions (inner : Nat → GrowM SyntaxTree) (minimum n : Nat)
    (left : SyntaxTree) :
    o.withoutActions.growClimb inner minimum n left = o.growClimb inner minimum n left := by
  induction n generalizing left with
  | zero => rfl
  | succ n ih =>
    unfold growClimb
    rw [current_withoutActions]
    simp only [bindingOf?_withoutActions, ih]

/-- The actions of a table have no part in the trees that it grows. -/
theorem growAbove_withoutActions (depth minimum : Nat) :
    o.withoutActions.growAbove depth minimum = o.growAbove depth minimum := by
  induction depth generalizing minimum with
  | zero => rfl
  | succ depth ih =>
    have hinner : o.withoutActions.growAbove depth = o.growAbove depth := funext ih
    unfold growAbove
    rw [current_withoutActions, hinner]
    simp only [growOperand_withoutActions, growClimb_withoutActions]

theorem grow_withoutActions (minimum : Nat) : o.withoutActions.grow minimum = o.grow minimum := by
  unfold grow
  simp only [growAbove_withoutActions]

end Operators

end PredictiveParsing
