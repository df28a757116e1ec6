import PredictiveParsing.Proofs.Expression.Evaluation
import PredictiveParsing.Proofs.Expression.Grouping

/-!
# Evaluating while parsing

An expression runs its actions while it parses, and they could as well run on its syntax tree
afterwards: what an expression answers is what its tree evaluates to, and where an expression cannot
go on, it has evaluated the trees that are complete by then (`Operators.expressionAbove_evaluates`).

`Operators.Evaluates` relates a run with actions to one that grows trees. Either the evaluation of
the trees gives results, and the two runs go together; or an action refuses, and the run with
actions has failed. The other run goes on, but whatever it grows from there on, that action is the
first one to refuse when its trees are evaluated (`Operators.Refuses`): the tree is part of a larger
one, in which it comes first, or it is complete before all that come behind it.
-/

namespace PredictiveParsing.Operators

open ParseM GrowM

variable {V P α β γ : Type} {o : Operators V P} {token : Token} {left tree : SyntaxTree}
  {l r : Result V} {refusal : Refusal}

/-! ## Runs with and without evaluation -/

/-- What the outcome of a run that grows trees comes to when its trees are evaluated in reading
order: the first refusal, or else the outcome of a run with actions. -/
def settle (o : Operators V P) (value : α → Answer β) :
    Except Interruption α → Answer (Except Failure β)
  | .ok a => do return .ok (← value a)
  | .error i => do
    let _ ← i.complete.mapM (SyntaxTree.evaluate o)
    return .error i.failure

/-- Wherever they begin, the first run ends as the second one does when its trees are evaluated; and
in the same context, if no action refuses. -/
def Evaluates (o : Operators V P) (value : α → Answer β) (x : ParseM β) (y : GrowM α) : Prop :=
  ∀ c, match settle o value (y c).1 with
    | .ok outcome => x c = (outcome, (y c).2)
    | .error refusal => (x c).1 = .error refusal.toFailure

/-- However the run ends, it is this refusal that the trees it grows come to first. -/
def Refuses (o : Operators V P) (value : α → Answer β) (refusal : Refusal) (y : GrowM α) : Prop :=
  ∀ c, settle o value (y c).1 = .error refusal

variable {value : α → Answer β} {x : ParseM β} {y : GrowM α} {c d : Context} {i : Interruption}

theorem settle_ok_of_ok {a : α} {b : β} (h : value a = .ok b) :
    o.settle value (.ok a) = .ok (.ok b) := by
  rw [settle, h]
  rfl

theorem settle_ok_eq_error {a : α} :
    o.settle value (.ok a) = .error refusal ↔ value a = .error refusal := by
  rw [settle]
  cases value a with
  | ok b => exact ⟨nofun, nofun⟩
  | error refusal' =>
    show (.error refusal' : Answer (Except Failure β)) = .error refusal ↔ _
    simp only [Except.error.injEq]

theorem settle_error_of_ok {results : List (Result V)}
    (h : i.complete.mapM (SyntaxTree.evaluate o) = .ok results) :
    o.settle value (.error i) = .ok (.error i.failure) := by
  rw [settle, h]
  rfl

theorem settle_error_eq_error :
    o.settle value (.error i) = .error refusal ↔
      i.complete.mapM (SyntaxTree.evaluate o) = .error refusal := by
  rw [settle]
  cases i.complete.mapM (SyntaxTree.evaluate o) with
  | ok results => exact ⟨nofun, nofun⟩
  | error refusal' =>
    show (.error refusal' : Answer (Except Failure β)) = .error refusal ↔ _
    simp only [Except.error.injEq]

/-- The first of the complete trees is evaluated before the others. -/
theorem mapM_complete_of_error (h : tree.evaluate o = .error refusal) (trees : List SyntaxTree) :
    (tree :: trees).mapM (SyntaxTree.evaluate o) = .error refusal := by
  rw [List.mapM_cons, h]
  rfl

/-! ### Behind an action that refuses -/

namespace Refuses

theorem pure {a : α} (h : value a = .error refusal) :
    o.Refuses value refusal (Pure.pure a : GrowM α) :=
  fun _ => settle_ok_eq_error.2 h

/-- A tree whose evaluation refuses comes before all that is grown behind it. -/
theorem behind (h : tree.evaluate o = .error refusal)
    (hy : ∀ c a d, y c = (.ok a, d) → value a = .error refusal) :
    o.Refuses value refusal (behind tree y) := by
  intro c
  unfold GrowM.behind
  rcases hrun : y c with ⟨i | a, d⟩
  · exact settle_error_eq_error.2 (mapM_complete_of_error h i.complete)
  · exact settle_ok_eq_error.2 (hy c a d hrun)

theorem bind {y : GrowM γ} {g : γ → GrowM α}
    (hy : o.Refuses (fun _ => (.error refusal : Answer β)) refusal y)
    (hg : ∀ a, o.Refuses value refusal (g a)) : o.Refuses value refusal (y >>= g) := by
  intro c
  have hfirst := hy c
  rw [GrowM.bind_apply]
  rcases hrun : y c with ⟨i | a, d⟩
  · rw [hrun] at hfirst
    exact settle_error_eq_error.2 (settle_error_eq_error.1 hfirst)
  · exact hg a d

/-- A step behind a tree whose evaluation refuses. -/
theorem stepBehind {y : GrowM γ} {g : γ → GrowM α} (h : tree.evaluate o = .error refusal)
    (hg : ∀ a, o.Refuses value refusal (g a)) :
    o.Refuses value refusal (GrowM.behind tree y >>= g) :=
  bind (β := β) (.behind h fun _ _ _ _ => rfl) hg

end Refuses

/-! ### Side by side -/

namespace Evaluates

/-- Where the evaluation of what is grown gives a result, the run has it too. -/
theorem of_ok {outcome : Except Interruption α} {result : Except Failure β}
    (h : o.Evaluates value x y) (hrun : y c = (outcome, d))
    (hsettle : o.settle value outcome = .ok result) : x c = (result, d) := by
  have hc := h c
  rwa [hrun, hsettle] at hc

/-- Where the evaluation of what is grown is refused, the run fails by that. -/
theorem of_error {outcome : Except Interruption α} (h : o.Evaluates value x y)
    (hrun : y c = (outcome, d)) (hsettle : o.settle value outcome = .error refusal) :
    (x c).1 = .error refusal.toFailure := by
  have hc := h c
  rwa [hrun, hsettle] at hc

theorem pure {a : α} {b : β} (h : value a = .ok b) :
    o.Evaluates value (Pure.pure b) (Pure.pure a) := by
  intro c
  show match o.settle value (.ok a) with
    | .ok outcome => (Pure.pure b : ParseM β) c = (outcome, c)
    | .error refusal => _
  rw [settle_ok_of_ok h]
  rfl

theorem throw (e : Failure) :
    o.Evaluates value (MonadExcept.throw e) (lift (MonadExcept.throw e)) :=
  fun _ => rfl

theorem lift (x : ParseM β) : o.Evaluates .ok x (lift x) := by
  intro c
  unfold GrowM.lift
  rcases x c with ⟨e | b, d⟩ <;> rfl

/-- Behind a tree that evaluates to a result there is nothing to evaluate again. -/
theorem behind (h : o.Evaluates value x y) (hleft : left.evaluate o = .ok l) :
    o.Evaluates value x (behind left y) := by
  intro c
  have hc := h c
  unfold GrowM.behind
  rcases hrun : y c with ⟨i | a, d⟩
  · rw [hrun] at hc
    have hcons : (left :: i.complete).mapM (SyntaxTree.evaluate o) =
        (i.complete.mapM (SyntaxTree.evaluate o)).map (l :: ·) := by
      rw [List.mapM_cons, hleft]
      rfl
    cases hm : i.complete.mapM (SyntaxTree.evaluate o) with
    | ok results =>
      rw [hm] at hcons
      rw [settle_error_of_ok hm] at hc
      rw [settle_error_of_ok hcons]
      exact hc
    | error refusal =>
      rw [hm] at hcons
      rw [settle_error_eq_error.2 hm] at hc
      rw [settle_error_eq_error.2 hcons]
      exact hc
  · rw [hrun] at hc
    exact hc

theorem bind {z : ParseM γ} {δ : Type} {inner : δ → Answer γ} {y : GrowM δ} {f : γ → ParseM β}
    {g : δ → GrowM α} (h : o.Evaluates inner z y)
    (hok : ∀ a b, inner a = .ok b → o.Evaluates value (f b) (g a))
    (hrefused : ∀ a refusal, inner a = .error refusal → o.Refuses value refusal (g a)) :
    o.Evaluates value (z >>= f) (y >>= g) := by
  intro c
  have hc := h c
  rw [GrowM.bind_apply]
  rcases hrun : y c with ⟨i | a, d⟩
  · rw [hrun] at hc
    cases hm : i.complete.mapM (SyntaxTree.evaluate o) with
    | ok results =>
      rw [settle_error_of_ok hm] at hc
      rw [settle_error_of_ok hm, ParseM.bind_apply, hc]
    | error refusal =>
      rw [settle_error_eq_error.2 hm] at hc
      rw [settle_error_eq_error.2 hm]
      exact fst_bind_of_error hc
  · rw [hrun] at hc
    cases hvalue : inner a with
    | ok b =>
      rw [settle_ok_of_ok hvalue] at hc
      rw [bind_of_ok hc]
      exact hok a b hvalue d
    | error refusal =>
      rw [settle_ok_eq_error.2 hvalue] at hc
      rw [hrefused a refusal hvalue d]
      exact fst_bind_of_error hc

/-- A step that completes no tree is the same on both sides. -/
theorem step {z : ParseM γ} {f : γ → ParseM β} {g : γ → GrowM α}
    (h : ∀ a, o.Evaluates value (f a) (g a)) : o.Evaluates value (z >>= f) (GrowM.lift z >>= g) :=
  .bind (.lift z) (fun a b hb => by cases hb; exact h a) nofun

/-- Behind a tree that evaluates to a result as well. -/
theorem stepBehind {z : ParseM γ} {f : γ → ParseM β} {g : γ → GrowM α}
    (hleft : left.evaluate o = .ok l) (h : ∀ a, o.Evaluates value (f a) (g a)) :
    o.Evaluates value (z >>= f) (GrowM.behind left (GrowM.lift z) >>= g) :=
  .bind ((lift z).behind hleft) (fun a b hb => by cases hb; exact h a) nofun

/-- An action that is performed refuses, or its result is what the run goes on with. -/
theorem performing {answer : Answer γ} {f : γ → ParseM β}
    (hok : ∀ b, answer = .ok b → o.Evaluates value (f b) y)
    (hrefused : ∀ refusal, answer = .error refusal → o.Refuses value refusal y) :
    o.Evaluates value (perform answer >>= f) y := by
  intro c
  cases answer with
  | ok b => exact hok b rfl c
  | error refusal =>
    rw [hrefused refusal rfl c]
    cases refusal <;> rfl

/-- What an action makes of a tree is what the tree evaluates to. -/
theorem performs {answer : Answer β} {a : α} (h : value a = answer) :
    o.Evaluates value (perform answer) (Pure.pure a) := by
  rw [← bind_pure (perform answer)]
  exact .performing (fun b hb => .pure (h.trans hb)) fun refusal hr => .pure (h.trans hr)

end Evaluates

/-! ## Expressions -/

variable {embedded : P → ParseM (Result V)} {inner : Nat → ParseM (Result V)}
  {growInner : Nat → GrowM SyntaxTree}

/-- No role of the table embeds a parser. -/
def Closed (o : Operators V P) : Prop :=
  ∀ type parser, o.role? type ≠ some (.embed parser)

/-- An operand is evaluated while it is read if every expression inside of it is. -/
theorem operand_evaluates (ho : o.Closed)
    (hinner : ∀ minimum, o.Evaluates (SyntaxTree.evaluate o) (inner minimum) (growInner minimum))
    (token : Token) :
    o.Evaluates (SyntaxTree.evaluate o) (o.operand embedded inner token)
      (o.growOperand growInner token) := by
  unfold operand growOperand openingOf?
  cases hrole : o.roleOf? token with
  | none => exact .throw _
  | some role =>
    cases role with
    | infixOp => exact .throw _
    | embed parser => exact absurd (role?_of_roleOf? hrole).2 (ho _ _)
    | atom action =>
      have haction : (o.roleOf? token).bind Role.atomAction? = action := by rw [hrole]; rfl
      refine .step fun _ => .step fun _ => ?_
      rw [atomResult_eq_perform haction]
      exact .performs rfl
    | prefixOp p action | mixfix p _ _ action =>
      have haction : (o.roleOf? token).bind Role.prefixAction? = action := by rw [hrole]; rfl
      refine .step fun _ => .step fun _ => .bind (hinner p) (fun operand r hr => ?_) ?_
      · rw [prefixResult_eq_perform haction]
        exact .performs (by rw [SyntaxTree.evaluate, hr]; rfl)
      · exact fun operand refusal hr => .pure (by rw [SyntaxTree.evaluate, hr]; rfl)
    | bracket opening closing =>
      refine .step fun _ => .bind (hinner 0) (fun body r hr => .stepBehind hr fun last => ?_)
        fun body refusal hr => .stepBehind hr fun last => ?_
      · cases last.is closing with
        | false => exact (Evaluates.throw _).behind hr
        | true =>
          refine .stepBehind hr fun _ => ?_
          rw [← perform_ofChecked]
          exact .performs (by rw [SyntaxTree.evaluate, hr]; rfl)
      · cases last.is closing with
        | false =>
          show o.Refuses _ refusal (behind body (lift (unexpected _ last)))
          exact .behind hr nofun
        | true =>
          exact .stepBehind hr fun _ => .pure (by rw [SyntaxTree.evaluate, hr]; rfl)

/-- Behind a left operand whose evaluation refuses, a climb grows trees that begin with it. -/
theorem growClimb_refuses {minimum : Nat} (hleft : left.evaluate o = .error refusal) (n : Nat) :
    o.Refuses (SyntaxTree.evaluate o) refusal (o.growClimb growInner minimum n left) := by
  induction n generalizing left with
  | zero => exact .behind hleft nofun
  | succ n ih =>
    refine .stepBehind hleft fun token => ?_
    cases o.bindingOf? token with
    | none => exact .pure hleft
    | some binding =>
      dsimp only
      split
      · exact .pure hleft
      · refine .stepBehind hleft fun _ => .stepBehind hleft fun _ => ?_
        refine .stepBehind hleft fun right => ?_
        exact ih (by rw [SyntaxTree.evaluate, hleft]; rfl)

/-- A climb evaluates its operators while it takes them, if the expressions inside of it do. -/
theorem climb_evaluates
    (hinner : ∀ minimum, o.Evaluates (SyntaxTree.evaluate o) (inner minimum) (growInner minimum))
    {minimum : Nat} (hleft : left.evaluate o = .ok l) (n : Nat) :
    o.Evaluates (SyntaxTree.evaluate o) (o.climb inner minimum n l)
      (o.growClimb growInner minimum n left) := by
  induction n generalizing left l with
  | zero => exact (Evaluates.throw _).behind hleft
  | succ n ih =>
    refine .stepBehind hleft fun token => ?_
    rw [bindingOf?_eq_map]
    cases hoperator : (o.roleOf? token).bind Role.infixRole? with
    | none => exact .pure hleft
    | some operator =>
      obtain ⟨p, a, action⟩ := operator
      have haction : (o.roleOf? token).bind Role.infixAction? = action := by
        obtain ⟨role, hrole, hinfix⟩ := Option.bind_eq_some_iff.1 hoperator
        rw [hrole]
        exact Role.infixAction?_of_infixRole? hinfix
      dsimp only [Option.map_some]
      split
      · exact .pure hleft
      · refine .stepBehind hleft fun _ => .stepBehind hleft fun _ => ?_
        refine .bind ((hinner _).behind hleft) (fun right r hright => ?_)
          fun right refusal hright => ?_
        · rw [infixResult_eq_perform haction]
          have hevaluate : (SyntaxTree.infixed p a left token right).evaluate o =
              o.infixAnswer l token r := by
            rw [SyntaxTree.evaluate, hleft, hright]
            rfl
          exact .performing (fun result hresult => ih (hevaluate.trans hresult))
            fun refusal hrefusal => growClimb_refuses (hevaluate.trans hrefusal) n
        · exact growClimb_refuses (by rw [SyntaxTree.evaluate, hleft, hright]; rfl) n

theorem above_evaluates (ho : o.Closed) (depth minimum : Nat) :
    o.Evaluates (SyntaxTree.evaluate o) (o.above embedded depth minimum)
      (o.growAbove depth minimum) := by
  induction depth generalizing minimum with
  | zero => exact .throw _
  | succ depth ih =>
    refine .step fun token => .bind (operand_evaluates ho ih token) (fun left l hleft => ?_) ?_
    · exact .stepBehind hleft fun n => climb_evaluates ih hleft _
    · exact fun left refusal hleft => .stepBehind hleft fun n => growClimb_refuses hleft _

/-- An expression is evaluated while it is read. -/
theorem expressionAbove_settles (ho : o.Closed) (embedded : P → ParseM (Result V)) (minimum : Nat) :
    o.Evaluates (SyntaxTree.evaluate o) (o.expressionAbove embedded minimum) (o.grow minimum) :=
  .step fun _ => above_evaluates ho _ minimum

/-! ## Without actions -/

/-- Without actions an outcome settles to the content of the tree, or to the failure. -/
theorem settle_withoutActions (o : Operators V P) (outcome : Except Interruption SyntaxTree) :
    Answer.Gives (o.withoutActions.settle (SyntaxTree.evaluate o.withoutActions) outcome)
      (match outcome with
        | .ok tree => .ok tree.erase
        | .error i => .error i.failure) := by
  cases outcome with
  | ok tree => exact (evaluate_withoutActions o tree).bind (.inr rfl)
  | error i => exact (mapM_evaluate_withoutActions o i.complete).bind (.inr rfl)

theorem closed_withoutActions (ho : o.Closed) : o.withoutActions.Closed := by
  intro type parser h
  rw [role?, withoutActions, lookup_withoutActions] at h
  obtain ⟨role, hrole, hembed⟩ := Option.map_eq_some_iff.1 h
  cases role with
  | embed parser' => exact ho _ _ hrole
  | atom | prefixOp | infixOp | mixfix | bracket => cases hembed

/-- A run without actions that is at no fault ends as the one that grows trees does. -/
theorem withoutActions_run (ho : o.Closed) (embedded : P → ParseM (Result V)) (minimum : Nat)
    {outcome : Except Failure (Result V)}
    (h : o.withoutActions.expressionAbove embedded minimum c = (outcome, d))
    (hfault : ∀ fault, outcome ≠ .error (.fault fault)) :
    (o.grow minimum c).2 = d ∧ outcome = match (o.grow minimum c).1 with
      | .ok tree => .ok tree.erase
      | .error i => .error i.failure := by
  have hsettles := expressionAbove_settles (closed_withoutActions ho) embedded minimum c
  rw [grow_withoutActions] at hsettles
  rcases settle_withoutActions o (o.grow minimum c).1 with ⟨fault, heq⟩ | heq
  · rw [heq, h] at hsettles
    exact absurd hsettles (hfault fault)
  · rw [heq, h] at hsettles
    cases hsettles
    exact ⟨rfl, rfl⟩

/-- Evaluating while parsing is evaluating the tree. If an expression without its actions answers a
result, then it is the content of a tree, and the actions answer what the tree evaluates to, or
refuse as the evaluation does. If it rejects a token, then so do the actions, unless the evaluation
of the trees that are complete by then, one after the other, is refused before. -/
theorem expressionAbove_evaluates (ho : o.Closed) (embedded : P → ParseM (Result V))
    (minimum : Nat) (c : Context) :
    (∀ r d, o.withoutActions.expressionAbove embedded minimum c = (.ok r, d) →
      ∃ tree, o.grow minimum c = (.ok tree, d) ∧ r = tree.erase ∧
        (∀ result, tree.evaluate o = .ok result →
          o.expressionAbove embedded minimum c = (.ok result, d)) ∧
        ∀ refusal, tree.evaluate o = .error refusal →
          (o.expressionAbove embedded minimum c).1 = .error refusal.toFailure) ∧
      ∀ e d, o.withoutActions.expressionAbove embedded minimum c = (.error (.rejected e), d) →
        ∃ complete, o.grow minimum c = (.error ⟨.rejected e, complete⟩, d) ∧
          (∀ results, complete.mapM (SyntaxTree.evaluate o) = .ok results →
            o.expressionAbove embedded minimum c = (.error (.rejected e), d)) ∧
          ∀ refusal, complete.mapM (SyntaxTree.evaluate o) = .error refusal →
            (o.expressionAbove embedded minimum c).1 = .error refusal.toFailure := by
  have hsettles := expressionAbove_settles ho embedded minimum
  refine ⟨fun r d h => ?_, fun e d h => ?_⟩
  · obtain ⟨rfl, houtcome⟩ := withoutActions_run ho embedded minimum h nofun
    rcases hgrow : o.grow minimum c with ⟨i | tree, d⟩
    · rw [hgrow] at houtcome
      cases houtcome
    · rw [hgrow] at houtcome
      cases houtcome
      exact ⟨tree, rfl, rfl, fun _ hresult => hsettles.of_ok hgrow (settle_ok_of_ok hresult),
        fun _ hrefusal => hsettles.of_error hgrow (settle_ok_eq_error.2 hrefusal)⟩
  · obtain ⟨rfl, houtcome⟩ := withoutActions_run ho embedded minimum h nofun
    rcases hgrow : o.grow minimum c with ⟨⟨failure, complete⟩ | tree, d⟩
    · rw [hgrow] at houtcome
      cases houtcome
      exact ⟨complete, rfl, fun _ hresults => hsettles.of_ok hgrow (settle_error_of_ok hresults),
        fun _ hrefusal => hsettles.of_error hgrow (settle_error_eq_error.2 hrefusal)⟩
    · rw [hgrow] at houtcome
      cases houtcome

/-- Differences of numbers of names, which may not be negative. -/
def subtraction : Operators Nat Empty :=
  ⟨[("n", .atom (some fun token => .ok (.value 1 token.span))),
    ("-", .infixOp 1 .left (some fun left op right => do
      let first ← left.demandValue
      let second ← right.demandValue
      if first < second then .reject "negative" op.span
      else .ok (.value (first - second) ⟨left.span.start, right.span.stop⟩))),
    ("(", .bracket "(" ")")], [" "]⟩

theorem subtraction_closed : subtraction.Closed := by
  intro type parser h
  exact parser.elim

/-- The second difference of each line is negative. Its action refuses while the line is parsed, as
it does when the tree of the first line is evaluated, or the trees of the second one that are
complete before its bracket is not closed. -/
theorem subtraction_expressionAbove_evaluates :
    (∃ r d tree, subtraction.withoutActions.expressionAbove Empty.elim 0
          (arithmeticStart "n - n - (n)".toList) = (.ok r, d) ∧
        subtraction.grow 0 (arithmeticStart "n - n - (n)".toList) = (.ok tree, d) ∧
        r = tree.erase ∧
        tree.evaluate subtraction = .error (.rejected ⟨"negative", ⟨1, 7, 6⟩, ⟨1, 8, 7⟩⟩) ∧
        (subtraction.expressionAbove Empty.elim 0 (arithmeticStart "n - n - (n)".toList)).1 =
          .error (.rejected ⟨"negative", ⟨1, 7, 6⟩, ⟨1, 8, 7⟩⟩)) ∧
      ∃ d complete, subtraction.withoutActions.expressionAbove Empty.elim 0
          (arithmeticStart "n - n - n - (n".toList) =
            (.error (.rejected ⟨"expected ) to balance the bracket at 1:13 but found end of input",
              .empty ⟨1, 15, 14⟩⟩), d) ∧
        subtraction.grow 0 (arithmeticStart "n - n - n - (n".toList) =
          (.error ⟨.rejected ⟨"expected ) to balance the bracket at 1:13 but found end of input",
            .empty ⟨1, 15, 14⟩⟩, complete⟩, d) ∧
        complete.mapM (SyntaxTree.evaluate subtraction) =
          .error (.rejected ⟨"negative", ⟨1, 7, 6⟩, ⟨1, 8, 7⟩⟩) ∧
        (subtraction.expressionAbove Empty.elim 0 (arithmeticStart "n - n - n - (n".toList)).1 =
          .error (.rejected ⟨"negative", ⟨1, 7, 6⟩, ⟨1, 8, 7⟩⟩) := by
  constructor
  · obtain ⟨r, d, h⟩ := succeeds_iff.1 (by decide +kernel :
      succeeds (subtraction.withoutActions.expressionAbove Empty.elim 0)
        (arithmeticStart "n - n - (n)".toList) = true)
    obtain ⟨tree, hgrow, hcontent, -, hrefused⟩ :=
      (expressionAbove_evaluates subtraction_closed Empty.elim 0 _).1 r d h
    have hsettled := Answer.refusal?_eq_some.1 (by decide +kernel :
      (subtraction.settle (SyntaxTree.evaluate subtraction)
        (subtraction.grow 0 (arithmeticStart "n - n - (n)".toList)).1).refusal? =
          some (.rejected ⟨"negative", ⟨1, 7, 6⟩, ⟨1, 8, 7⟩⟩))
    rw [hgrow] at hsettled
    have hevaluate := settle_ok_eq_error.1 hsettled
    exact ⟨r, d, tree, h, hgrow, hcontent, hevaluate, hrefused _ hevaluate⟩
  · obtain ⟨d, h⟩ := failure?_eq_some.1 (by decide +kernel :
      failure? (subtraction.withoutActions.expressionAbove Empty.elim 0)
        (arithmeticStart "n - n - n - (n".toList) =
          some (.rejected ⟨"expected ) to balance the bracket at 1:13 but found end of input",
            .empty ⟨1, 15, 14⟩⟩))
    obtain ⟨complete, hgrow, -, hrefused⟩ :=
      (expressionAbove_evaluates subtraction_closed Empty.elim 0 _).2 _ d h
    have hsettled := Answer.refusal?_eq_some.1 (by decide +kernel :
      (subtraction.settle (SyntaxTree.evaluate subtraction)
        (subtraction.grow 0 (arithmeticStart "n - n - n - (n".toList)).1).refusal? =
          some (.rejected ⟨"negative", ⟨1, 7, 6⟩, ⟨1, 8, 7⟩⟩))
    rw [hgrow] at hsettled
    have hevaluate := settle_error_eq_error.1 hsettled
    exact ⟨d, complete, h, hgrow, hevaluate, hrefused _ hevaluate⟩

end PredictiveParsing.Operators
