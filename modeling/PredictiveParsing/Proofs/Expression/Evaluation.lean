import PredictiveParsing.Proofs.Expression.Growing
import PredictiveParsing.Proofs.Tokens

/-!
# Evaluating syntax trees

`SyntaxTree.evaluate` runs the actions of a table on a syntax tree, bottom-up and from left to
right, and stops at the first action that gives no result. Where there is no action, operands are
their tokens and operators make lists. So without its actions a table evaluates a tree to its content
(`Operators.evaluate_withoutActions`), unless a list cannot be covered.
-/

namespace PredictiveParsing

open ParseM

variable {V P β γ : Type}

/-! ## Actions -/

/-- What an answer is refused with, if it is. -/
def Answer.refusal? : Answer β → Option Refusal
  | .ok _ => none
  | .error refusal => some refusal

theorem Answer.refusal?_eq_some {answer : Answer β} {refusal : Refusal} :
    answer.refusal? = some refusal ↔ answer = .error refusal := by
  cases answer with
  | ok b => simp [refusal?]
  | error refusal' => simp [refusal?]

namespace Role

/-- The action of an operand. -/
def atomAction? : Role V P → Option (AtomAction V)
  | atom action => action
  | _ => none

/-- The action of a prefix operator. -/
def prefixAction? : Role V P → Option (PrefixAction V)
  | prefixOp _ action | mixfix _ _ _ action _ => action
  | _ => none

/-- The action of an infix operator. -/
def infixAction? : Role V P → Option (InfixAction V)
  | infixOp _ _ action | mixfix _ _ _ _ action => action
  | _ => none

theorem infixAction?_of_infixRole? {role : Role V P} {p : Nat} {a : Associativity}
    {action : Option (InfixAction V)} (h : role.infixRole? = some (p, a, action)) :
    role.infixAction? = action := by
  cases role with
  | infixOp | mixfix => cases h; rfl
  | atom | prefixOp | bracket | embed => cases h

end Role

namespace Operators

variable (o : Operators V P)

/-- The answer to an operand of one token. -/
def atomAnswer (token : Token) : Answer (Result V) :=
  match (o.roleOf? token).bind Role.atomAction? with
  | some f => f token
  | none => .ok (.ofToken token)

/-- The answer to a prefix operator and its operand. -/
def prefixAnswer (op : Token) (operand : Result V) : Answer (Result V) :=
  match (o.roleOf? op).bind Role.prefixAction? with
  | some f => f op operand
  | none => do
    let span ← Answer.ofChecked (Span.cover op.span operand.span)
    return .list [.ofToken op, operand] span

/-- The answer to an infix operator and its operands. -/
def infixAnswer (left : Result V) (op : Token) (right : Result V) : Answer (Result V) :=
  match (o.roleOf? op).bind Role.infixAction? with
  | some f => f left op right
  | none => do
    let span ← Answer.ofChecked (Span.cover left.span right.span)
    return .list [left, .ofToken op, right] span

variable {o} {token op : Token}

/-- A region that is trusted is one that an action may be at fault with. -/
theorem perform_ofChecked (y : Except Fault γ) (k : γ → β) :
    perform (do return k (← Answer.ofChecked y)) = (do return k (← trust y)) := by
  cases y <;> rfl

theorem atomResult_eq_perform {action : Option (AtomAction V)}
    (h : (o.roleOf? token).bind Role.atomAction? = action) :
    atomResult action token = perform (o.atomAnswer token) := by
  unfold atomAnswer
  rw [h]
  cases action <;> rfl

theorem prefixResult_eq_perform {action : Option (PrefixAction V)}
    (h : (o.roleOf? op).bind Role.prefixAction? = action) (operand : Result V) :
    prefixResult action op operand = perform (o.prefixAnswer op operand) := by
  unfold prefixAnswer
  rw [h]
  cases action with
  | none => exact (perform_ofChecked _ _).symm
  | some f => rfl

theorem infixResult_eq_perform {action : Option (InfixAction V)}
    (h : (o.roleOf? op).bind Role.infixAction? = action) (left right : Result V) :
    infixResult action left op right = perform (o.infixAnswer left op right) := by
  unfold infixAnswer
  rw [h]
  cases action with
  | none => exact (perform_ofChecked _ _).symm
  | some f => rfl

end Operators

/-! ## Evaluation -/

/-- What the actions of a table make of a tree: operands before operators, and left operands before
right ones. A bracket makes the result stand for the region from its first token to its last. -/
def SyntaxTree.evaluate (o : Operators V P) : SyntaxTree → Answer (Result V)
  | atom token => o.atomAnswer token
  | prefixed _ op operand => do
    let result ← operand.evaluate o
    o.prefixAnswer op result
  | infixed _ _ left op right => do
    let first ← left.evaluate o
    let second ← right.evaluate o
    o.infixAnswer first op second
  | bracketed first body last => do
    let result ← body.evaluate o
    let span ← Answer.ofChecked (Span.cover first.span last.span)
    return result.withSpan span

/-! ## Without actions -/

namespace Operators

theorem atomAnswer_withoutActions (o : Operators V P) (token : Token) :
    o.withoutActions.atomAnswer token = .ok (.ofToken token) := by
  unfold atomAnswer
  rw [roleOf?_withoutActions]
  cases o.roleOf? token with
  | none => rfl
  | some role => cases role <;> rfl

theorem prefixAnswer_withoutActions (o : Operators V P) (op : Token) (operand : Result V) :
    o.withoutActions.prefixAnswer op operand = do
      return .list [.ofToken op, operand]
        (← Answer.ofChecked (Span.cover op.span operand.span)) := by
  unfold prefixAnswer
  rw [roleOf?_withoutActions]
  cases o.roleOf? op with
  | none => rfl
  | some role => cases role <;> rfl

theorem infixAnswer_withoutActions (o : Operators V P) (left : Result V) (op : Token)
    (right : Result V) :
    o.withoutActions.infixAnswer left op right = do
      return .list [left, .ofToken op, right]
        (← Answer.ofChecked (Span.cover left.span right.span)) := by
  unfold infixAnswer
  rw [roleOf?_withoutActions]
  cases o.roleOf? op with
  | none => rfl
  | some role => cases role <;> rfl

end Operators

namespace Answer

/-- The answer is the result, unless there is a fault. -/
def Gives (answer : Answer β) (b : β) : Prop :=
  (∃ fault, answer = .error (.fault fault)) ∨ answer = .ok b

theorem gives_cover (first last : Span) (k : Span → β) :
    Gives (do return k (← ofChecked (Span.cover first last))) (k ⟨first.start, last.stop⟩) := by
  cases hcover : Span.cover first last with
  | error fault => exact .inl ⟨fault, rfl⟩
  | ok span =>
    obtain ⟨-, rfl⟩ := Span.between_eq_ok.1 hcover
    exact .inr rfl

theorem Gives.bind {answer : Answer γ} {a : γ} {f : γ → Answer β} {b : β} (h : answer.Gives a)
    (hf : Gives (f a) b) : Gives (answer >>= f) b := by
  rcases h with ⟨fault, rfl⟩ | rfl
  · exact .inl ⟨fault, rfl⟩
  · exact hf

end Answer

namespace Operators

/-- Without actions a tree evaluates to its content. -/
theorem evaluate_withoutActions (o : Operators V P) (tree : SyntaxTree) :
    Answer.Gives (tree.evaluate o.withoutActions) tree.erase := by
  induction tree with
  | atom token => exact .inr (atomAnswer_withoutActions o token)
  | prefixed p op operand ih =>
    refine ih.bind ?_
    rw [prefixAnswer_withoutActions, SyntaxTree.erase_prefixed]
    exact Answer.gives_cover _ _ _
  | infixed p a left op right ihl ihr =>
    refine ihl.bind (ihr.bind ?_)
    rw [infixAnswer_withoutActions, SyntaxTree.erase_infixed]
    exact Answer.gives_cover _ _ _
  | bracketed first body last ih => exact ih.bind (Answer.gives_cover _ _ _)

/-- Without actions several trees evaluate to their contents, one after the other. -/
theorem mapM_evaluate_withoutActions (o : Operators V P) (trees : List SyntaxTree) :
    Answer.Gives (trees.mapM (SyntaxTree.evaluate o.withoutActions))
      (trees.map SyntaxTree.erase) := by
  induction trees with
  | nil => exact .inr rfl
  | cons tree trees ih =>
    rw [List.mapM_cons]
    exact (evaluate_withoutActions o tree).bind (ih.bind (.inr rfl))

end Operators

end PredictiveParsing
