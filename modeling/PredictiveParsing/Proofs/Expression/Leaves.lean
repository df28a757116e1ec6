import PredictiveParsing.Proofs.Expression.Nesting
import PredictiveParsing.Proofs.Leaves

/-!
# Leaves of expressions

An expression keeps the tokens of its operands and operators, and drops its brackets and the tokens
it steps over. So without actions it gathers its leaves, and nothing is lost where a table has
neither brackets nor skipped types. In a climb the left operand is what has been gathered, and each
operator adds itself and its right operand behind.
-/

namespace PredictiveParsing

open ParseM

variable {V P : Type}

/-- The role has no action. -/
def Role.Passive : Role V P → Prop
  | atom none | prefixOp _ none | infixOp _ _ none | mixfix _ _ _ none none => True
  | bracket .. | embed _ => True
  | _ => False

/-- Without actions there is none for an infix operator. -/
theorem Role.Passive.infixRole? {role : Role V P} (h : role.Passive) {priority : Nat}
    {associativity : Associativity} {action : Option (InfixAction V)}
    (hrole : role.infixRole? = some (priority, associativity, action)) : action = none := by
  cases role with
  | atom | prefixOp | bracket | embed => cases hrole
  | infixOp _ _ f =>
    cases hrole
    cases action with
    | none => rfl
    | some => exact h.elim
  | mixfix _ _ _ onPrefix f =>
    cases hrole
    cases action with
    | none => rfl
    | some => cases onPrefix <;> exact h.elim

namespace Operators

/-- No role of the table has an action. -/
def Passive (o : Operators V P) : Prop :=
  ∀ type role, o.role? type = some role → role.Passive

/-- The table drops no token: it skips none, and has no brackets. -/
structure Preserving (o : Operators V P) : Prop where
  skip : o.skip = []
  brackets : ∀ type opening closing, o.role? type ≠ some (.bracket opening closing)

/-- The table has no actions, its embedded parsers gather leaves, and no token is dropped if the
whole is kept. -/
structure Gathers (whole : Prop) (o : Operators V P) (embedded : P → ParseM (Result V)) : Prop where
  passive : o.Passive
  preserving : whole → o.Preserving
  embedded : ∀ type parser, o.role? type = some (.embed parser) →
    (embedded parser).Gathers whole

variable {o : Operators V P} {whole : Prop} {b c : Context} {token : Token} {leaves : List Token}
  {embedded : P → ParseM (Result V)} {inner : Nat → ParseM (Result V)}

/-- Without skipped types no token is skipped. -/
theorem Preserving.skips (h : o.Preserving) (t : Token) : o.skips t = false := by
  rw [Operators.skips, h.skip]
  simp

/-- Up to the next token that is not skipped nothing is gathered: what is skipped is dropped. -/
theorem Gathers.current {ok : Token → Context → Prop} (ho : o.Gathers whole embedded)
    (hc : b.Gathers whole leaves c) (hok : ∀ token d, b.Gathers whole leaves d → ok token d) :
    o.current.Ends c ok b.Breaks := by
  refine current_keeps (fun d skipped tokenizer hd hs hm => ?_) (fun _ _ hd _ => hd.breaks _) hc
    fun token d hd _ => hok token d hd
  have hnot : ¬ whole := fun hw => by simp [(ho.preserving hw).skips] at hs
  exact (hd.commit hm (kind_of_skips hs)).drop hnot (List.sublist_append_left _ _)

/-- An operator and its operands are gathered as they stand. -/
theorem outcome_gathers {arguments : List (Result V)} (start : Position)
    {ok : Result V → Context → Prop} (hc : b.Gathers whole (Result.itemsLeaves arguments) c)
    (hok : ∀ r, b.Gathers whole r.leaves c → ok r c) :
    (outcome start none arguments).Ends c ok b.Breaks :=
  .bind (.trusting (fun _ _ => .pure (hok _ hc)) fun _ => hc.breaks _)

/-- An operand gathers its leaves if every expression inside of it does. -/
theorem operand_gathers (ho : o.Gathers whole embedded)
    (hinner : ∀ minimum, (inner minimum).Gathers whole) (hc : b.Gathers whole [] c) :
    (o.operand embedded inner token).Ends c (fun r d => b.Gathers whole r.leaves d) b.Breaks := by
  unfold operand
  cases hrole : o.roleOf? token with
  | none => exact .unexpected fun _ => hc.breaks _
  | some role =>
    obtain ⟨hk, hrole⟩ := role?_of_roleOf? hrole
    have hpassive := ho.passive _ _ hrole
    have htoken : (Result.ofToken token : Result V).leaves = [token] := Result.leaves_ofToken hk
    have prefixed (priority : Nat) :
        (do
          commit token
          note (.prefixOp token priority)
          let result ← inner priority
          prefixResult none token result).Ends c
          (fun r d => b.Gathers whole r.leaves d) b.Breaks := by
      refine .bind (.committing (fun tokenizer hm => .bind (.note (.bind ?_)))
        fun _ => hc.breaks _)
      refine (hinner priority).behind ((hc.commit hm hk).note rfl) fun operand d hd => ?_
      rw [prefixResult_eq c.tokenizer.position]
      refine outcome_gathers _ ?_ fun r hr => hr
      simpa [htoken] using hd
    cases role with
    | infixOp => exact .unexpected fun _ => hc.breaks _
    | atom action =>
      refine .bind (.committing (fun tokenizer hm => .bind (.note ?_)) fun _ => hc.breaks _)
      cases action with
      | some => exact hpassive.elim
      | none =>
        refine .pure ?_
        rw [htoken]
        exact (hc.commit hm hk).note rfl
    | prefixOp priority action =>
      cases action with
      | some => exact hpassive.elim
      | none => exact prefixed priority
    | mixfix priority _ _ action onInfix =>
      cases action with
      | some => exact hpassive.elim
      | none => exact prefixed priority
    | embed parser =>
      refine .bind (.note ?_)
      exact (ho.embedded _ _ hrole).behind (hc.note rfl) fun r d hd => hd
    | bracket opening closing =>
      have hnot : ¬ whole := fun hw => (ho.preserving hw).brackets _ _ _ hrole
      refine .bind (.committing (fun tokenizer hm => .bind ?_) fun _ => hc.breaks _)
      have hfirst := (hc.commit hm hk).drop hnot (List.nil_sublist _)
      refine (hinner 0).behind hfirst fun r d hd => .bind (ho.current hd fun last e he => ?_)
      rw [List.nil_append] at he
      cases hcloses : last.is closing with
      | false => exact .unexpected fun _ => he.breaks _
      | true =>
        refine .bind (.committing (fun tokenizer hm => .bind ?_) fun _ => he.breaks _)
        have hlast := (he.commit hm (Token.kind_of_is hcloses)).drop hnot
          (List.sublist_append_left _ _)
        refine .trusting (fun span _ => .pure ?_) fun _ => hlast.breaks _
        rw [Result.leaves_withSpan]
        exact hlast

/-- A climb adds its operators and their right operands behind the left operand. -/
theorem climb_gathers (ho : o.Gathers whole embedded)
    (hinner : ∀ minimum, (inner minimum).Gathers whole) {minimum n : Nat} {left : Result V}
    (hc : b.Gathers whole left.leaves c) :
    (o.climb inner minimum n left).Ends c (fun r d => b.Gathers whole r.leaves d) b.Breaks := by
  induction n generalizing c left with
  | zero => exact .throw (hc.breaks _)
  | succ n ih =>
    refine .bind (ho.current hc fun token d hd => ?_)
    cases hinfix : (o.roleOf? token).bind Role.infixRole? with
    | none => exact .pure hd
    | some operator =>
      obtain ⟨priority, associativity, action⟩ := operator
      obtain ⟨role, hrole, hinfix⟩ := Option.bind_eq_some_iff.1 hinfix
      obtain ⟨hk, hrole⟩ := role?_of_roleOf? hrole
      obtain rfl : action = none := (ho.passive _ _ hrole).infixRole? hinfix
      dsimp only
      split
      · exact .pure hd
      · refine .bind (.committing (fun tokenizer hm => .bind (.note (.bind ?_)))
          fun _ => hd.breaks _)
        refine (hinner _).behind ((hd.commit hm hk).note rfl) fun right e he => .bind ?_
        rw [infixResult_eq c.tokenizer.position]
        refine outcome_gathers _ ?_ fun r hr => ih hr
        simpa [Result.leaves_ofToken hk] using he

/-- An expression gathers its leaves, however deep it may be. -/
theorem above_gathers (ho : o.Gathers whole embedded) (depth minimum : Nat) :
    (o.above embedded depth minimum).Gathers whole := by
  induction depth generalizing minimum with
  | zero => exact fun c => .throw ⟨[], .refl c⟩
  | succ depth ih =>
    intro c
    refine .bind (ho.current (.refl c) fun token d hd => .bind ?_)
    refine (operand_gathers ho ih hd).imp fun left e he => ?_
    exact .bind (.unread (climb_gathers ho ih he))

theorem expression_gathers (ho : o.Gathers whole embedded) :
    (o.expression embedded).Gathers whole :=
  fun c => .bind (.unread (above_gathers ho _ 0 c))

end Operators

end PredictiveParsing
