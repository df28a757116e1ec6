import PredictiveParsing.Proofs.Alike
import PredictiveParsing.Proofs.Expression.Skipping
import PredictiveParsing.Proofs.Expression.Tree

/-!
# Expressions that do alike

Two runs of an operator table do alike if the runs of its embedded parsers do (`follows_expression`).
The depth and the rounds of a climb are counted from the unread text, which is the same for both, so
the runs go through the same levels.
-/

namespace PredictiveParsing.Operators

open ParseM

variable {V P : Type} {g : Grammar V} {p : Parser V} {k k' : Journal.Kind g p} {t : Tokenizer}
  {limited : Prop} {o : Operators V P}

/-! ## Skipped tokens -/

theorem follows_skipTo (n : Nat) :
    Follows limited t k k' (o.skipTo n) (o.skipTo n) := by
  induction n with
  | zero => exact .throw .exhausted
  | succ n ih =>
    refine .bind .peek fun token => ?_
    cases hs : o.skips token with
    | true => exact .bind (.commit (kind_of_skips hs)) fun _ => ih
    | false => exact .pure token

theorem follows_current : Follows limited t k k' o.current o.current :=
  .bind .unread fun _ => follows_skipTo _

/-! ## Results of operators -/

theorem follows_atomResult (action : Option (AtomAction V)) (token : Token) :
    Follows limited t k k' (atomResult action token) (atomResult action token) := by
  cases action with
  | none => exact .pure _
  | some f => exact .perform _

theorem follows_prefixResult (action : Option (PrefixAction V)) (op : Token)
    (operand : Result V) :
    Follows limited t k k' (prefixResult action op operand) (prefixResult action op operand) := by
  cases action with
  | none => exact .bind (.trust _) fun _ => .pure _
  | some f => exact .perform _

theorem follows_infixResult (action : Option (InfixAction V)) (left : Result V) (op : Token)
    (right : Result V) :
    Follows limited t k k' (infixResult action left op right)
      (infixResult action left op right) := by
  cases action with
  | none => exact .bind (.trust _) fun _ => .pure _
  | some f => exact .perform _

/-! ## Operands and climbs -/

variable {embedded embedded' : P → ParseM (Result V)} {inner inner' : Nat → ParseM (Result V)}

theorem follows_operand
    (hembedded : ∀ key parser, (key, Role.embed parser) ∈ o.roles →
      Follows limited t k k' (embedded parser) (embedded' parser))
    (hinner : ∀ minimum, Follows limited t k k' (inner minimum) (inner' minimum)) (token : Token) :
    Follows limited t k k' (o.operand embedded inner token) (o.operand embedded' inner' token) := by
  unfold operand
  cases hrole : o.roleOf? token with
  | none => exact .unexpected _ token
  | some role =>
    obtain ⟨hk, hrole⟩ := role?_of_roleOf? hrole
    have prefixed (priority : Nat) (action : Option (PrefixAction V)) :
        Follows limited t k k' (do
          commit token
          note (.prefixOp token priority)
          let result ← inner priority
          prefixResult action token result) (do
          commit token
          note (.prefixOp token priority)
          let result ← inner' priority
          prefixResult action token result) :=
      .bind (.commit hk) fun _ => .bind (.note _) fun _ => .bind (hinner _) fun _ =>
        follows_prefixResult _ _ _
    cases role with
    | atom action =>
      exact .bind (.commit hk) fun _ => .bind (.note _) fun _ => follows_atomResult action token
    | prefixOp priority action => exact prefixed priority action
    | mixfix priority _ _ action _ => exact prefixed priority action
    | infixOp => exact .unexpected _ token
    | embed parser => exact .bind (.note _) fun _ => hembedded _ _ (mem_of_role? hrole)
    | bracket opening closing =>
      refine .bind (.commit hk) fun _ => .bind (hinner 0) fun result => ?_
      refine .bind follows_current fun last => ?_
      cases hcloses : last.is closing with
      | true =>
        exact .bind (.commit (Token.kind_of_is hcloses)) fun _ => .bind (.trust _) fun _ => .pure _
      | false => exact .unexpected _ last

theorem follows_climb
    (hinner : ∀ minimum, Follows limited t k k' (inner minimum) (inner' minimum)) (minimum n : Nat)
    (left : Result V) :
    Follows limited t k k' (o.climb inner minimum n left) (o.climb inner' minimum n left) := by
  induction n generalizing left with
  | zero => exact .throw .exhausted
  | succ n ih =>
    refine .bind follows_current fun token => ?_
    cases hinfix : (o.roleOf? token).bind Role.infixRole? with
    | none => exact .pure left
    | some operator =>
      obtain ⟨priority, associativity, action⟩ := operator
      obtain ⟨role, hrole, -⟩ := Option.bind_eq_some_iff.1 hinfix
      have hk := (role?_of_roleOf? hrole).1
      dsimp only
      split
      · exact .pure left
      · exact .bind (.commit hk) fun _ => .bind (.note _) fun _ => .bind (hinner _) fun right =>
          .bind (follows_infixResult action left token right) ih

theorem follows_above
    (hembedded : ∀ key parser, (key, Role.embed parser) ∈ o.roles →
      Follows limited t k k' (embedded parser) (embedded' parser)) (depth minimum : Nat) :
    Follows limited t k k' (o.above embedded depth minimum) (o.above embedded' depth minimum) := by
  induction depth generalizing minimum with
  | zero => exact .throw .exhausted
  | succ depth ih =>
    exact .bind follows_current fun token => .bind (follows_operand hembedded ih token) fun left =>
      .bind .unread fun _ => follows_climb ih _ _ left

/-- Expressions do alike if the embedded parsers do. -/
theorem follows_expression
    (hembedded : ∀ key parser, (key, Role.embed parser) ∈ o.roles →
      Follows limited t k k' (embedded parser) (embedded' parser)) :
    Follows limited t k k' (o.expression embedded) (o.expression embedded') :=
  .bind .unread fun _ => follows_above hembedded _ 0

end PredictiveParsing.Operators
