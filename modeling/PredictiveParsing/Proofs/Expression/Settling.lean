import PredictiveParsing.Proofs.Expression.Evaluating
import PredictiveParsing.Proofs.Expression.ReadBack
import PredictiveParsing.Proofs.Grammar.Deciding

/-!
# Grouped trees settle expressions

In front of the tokens of a grouped tree, climbing grows this tree (`Stage.reads_grows`), so an
expression with actions ends as the evaluation of the tree does (`Stage.expression_ends`): with its
result, or by the action that refuses first.
-/

namespace PredictiveParsing

open ParseM SyntaxTree

variable {V α β : Type} {c d : Context}

/-! ## Runs that grow trees -/

namespace GrowM

variable {x : ParseM α} {y : GrowM α} {f : α → GrowM β} {a : α}

theorem bind_of_ok (h : y c = (.ok a, d)) : (y >>= f) c = f a d := by
  rw [bind_apply, h]

theorem lift_of_ok (h : x c = (.ok a, d)) : lift x c = (.ok a, d) := by
  unfold lift
  rw [h]

theorem behind_of_ok {tree : SyntaxTree} (h : y c = (.ok a, d)) :
    behind tree y c = (.ok a, d) := by
  unfold behind
  rw [h]

end GrowM

open GrowM

/-- The run of a task that grows trees, given the runs of the expressions inside and a bound on the
operators of a climb. -/
def SyntaxTree.Task.grow {P : Type} (o : Operators V P) (inner : Nat → GrowM SyntaxTree) (n : Nat) :
    Task → GrowM SyntaxTree
  | .operand => do
    let token ← lift o.current
    o.growOperand inner token
  | .above minimum => do
    let token ← lift o.current
    let left ← o.growOperand inner token
    let unread ← behind left (lift unread)
    o.growClimb inner minimum (unread + 1) left
  | .climb minimum left => o.growClimb inner minimum n left

namespace Stage

variable {S : Stage V} {tokens ts mid rest : List Token} {token : Token}
  {tree left right : SyntaxTree} {task : Task} {minimum p : Nat} {a : Associativity}

theorem Awaits.noted (h : S.Awaits c tokens) (e : Event) : S.Awaits (noted c e) tokens :=
  h.of_same rfl (h.ready.journal.note e)

/-- The next token that is not a blank is found. -/
theorem Awaits.current_eq (h : S.Awaits c (token :: rest)) :
    ∃ d, S.table.current c = (.ok token, d) ∧ S.Meets d (token :: rest) ∧ Onward c d := by
  rcases h.current.cases with ⟨_, d, hrun, hhead, hd⟩ | ⟨_, _, _, hnever⟩
  · cases hhead
    exact ⟨d, hrun, hd⟩
  · exact hnever.elim

/-- An ordinary token at the cursor is moved over. -/
theorem Meets.commit_eq (h : S.Meets c (token :: rest)) (hk : token.kind = .ordinary) :
    ∃ d, ParseM.commit token c = (.ok (), d) ∧ S.Awaits d rest ∧
      c.tokenizer.Moves token d.tokenizer := by
  have hends : (ParseM.commit token).Ends c
      (fun _ d => S.Awaits d rest ∧ c.tokenizer.Moves token d.tokenizer) fun _ _ => False :=
    h.commit hk fun d hd hm => ⟨hd, hm⟩
  rcases hends.cases with ⟨_, d, hrun, hd⟩ | ⟨_, _, _, hnever⟩
  · exact ⟨d, hrun, hd⟩
  · exact hnever.elim

/-- The run grows the tree, which it has passed: the rest lies ahead, and the tree between the
offset and the cursor. -/
def Grown (S : Stage V) (x : GrowM SyntaxTree) (c : Context) (low : Nat) (tree : SyntaxTree)
    (rest : List Token) : Prop :=
  ∃ d, x c = (.ok tree, d) ∧ S.Awaits d rest ∧ Onward c d ∧
    tree.span.Within low d.tokenizer.position.offset

/-- From wherever the tokens lie ahead, the run of the task grows the tree. -/
def Grows (S : Stage V) (task : Task) (ts : List Token) (tree : SyntaxTree)
    (rest : List Token) : Prop :=
  ∀ depth n low c, c.tokenizer.cursor.rest.length ≤ depth → c.tokenizer.cursor.rest.length < n →
    S.Awaits c ts → task.Fits low c →
    S.Grown (task.grow S.table (S.table.growAbove depth) n) c low tree rest

/-- Where the depth is larger than the number of unread scalars, an expression inside is grown. -/
theorem Grows.inside {depth : Nat} (h : S.Grows (.above minimum) ts tree rest)
    (hdepth : c.tokenizer.cursor.rest.length < depth) (hc : S.Awaits c ts) :
    S.Grown (S.table.growAbove depth minimum) c c.tokenizer.position.offset tree rest := by
  cases depth with
  | zero => omega
  | succ depth =>
    exact h depth _ _ c (Nat.le_of_lt_succ hdepth) (Nat.lt_succ_self _) hc (Nat.le_refl _)

/-- The run of an operand grows the token that is one. -/
theorem grows_atom (role : S.table.openingOf? token = some .atom) :
    S.Grows .operand (token :: rest) (.atom token) rest := by
  intro depth n low c _ _ hc hfits
  obtain ⟨c₁, hcurrent, h₁, honward⟩ := hc.current_eq
  obtain ⟨c₂, hcommit, h₂, hm⟩ := h₁.commit_eq (Operators.kind_of_openingOf? role)
  refine ⟨noted c₂ (.atom token), ?_, h₂.noted _, honward.trans (.of_moves hm),
    hm.within.mono (Nat.le_trans hfits honward.offset) (Nat.le_refl _)⟩
  show (lift S.table.current >>= S.table.growOperand _) c = _
  rw [GrowM.bind_of_ok (lift_of_ok hcurrent), Operators.growOperand, role]
  dsimp only
  rw [GrowM.bind_of_ok (lift_of_ok hcommit)]
  rfl

/-- The run of an operand grows a prefix operator with the operand that is grown inside. -/
theorem grows_prefixed (role : S.table.openingOf? token = some (.prefixOp p))
    (hinside : S.Grows (.above p) ts tree rest) :
    S.Grows .operand (token :: ts) (.prefixed p token tree) rest := by
  intro depth n low c hdepth _ hc hfits
  have hk := Operators.kind_of_openingOf? role
  obtain ⟨c₁, hcurrent, h₁, honward⟩ := hc.current_eq
  obtain ⟨c₂, hcommit, h₂, hm⟩ := h₁.commit_eq hk
  have hlt : c₂.tokenizer.cursor.rest.length < depth :=
    Nat.lt_of_lt_of_le (hm.rest_lt (by rw [hk]; nofun)) (Nat.le_trans honward.unread hdepth)
  have hmoved : Onward c₁ (noted c₂ (.prefixOp token p)) := .of_moves hm
  obtain ⟨c₃, hrun, h₃, honward', hwithin⟩ :=
    hinside.inside (c := noted c₂ (.prefixOp token p)) hlt (h₂.noted _)
  obtain ⟨-, hspan⟩ := hm.within.cover hwithin (Nat.le_refl _)
  refine ⟨c₃, ?_, h₃, honward.trans (hmoved.trans honward'),
    hspan.mono (Nat.le_trans hfits honward.offset) (Nat.le_refl _)⟩
  show (lift S.table.current >>= S.table.growOperand _) c = _
  rw [GrowM.bind_of_ok (lift_of_ok hcurrent), Operators.growOperand, role]
  dsimp only
  rw [GrowM.bind_of_ok (lift_of_ok hcommit), GrowM.bind_of_ok (lift_of_ok (note_apply _ _)),
    GrowM.bind_of_ok hrun]
  rfl

/-- The run of an operand grows the expression that is grown inside of brackets. -/
theorem grows_bracketed {last : Token} {closing : TokenType}
    (role : S.table.openingOf? token = some (.bracket closing))
    (hinside : S.Grows (.above 0) ts tree (last :: rest)) (closes : last.is closing = true) :
    S.Grows .operand (token :: ts) (.bracketed token tree last) rest := by
  intro depth n low c hdepth _ hc hfits
  have hk := Operators.kind_of_openingOf? role
  obtain ⟨c₁, hcurrent, h₁, honward⟩ := hc.current_eq
  obtain ⟨c₂, hcommit, h₂, hm⟩ := h₁.commit_eq hk
  have hlt : c₂.tokenizer.cursor.rest.length < depth :=
    Nat.lt_of_lt_of_le (hm.rest_lt (by rw [hk]; nofun)) (Nat.le_trans honward.unread hdepth)
  have hmoved : Onward c₁ c₂ := .of_moves hm
  obtain ⟨c₃, hrun, h₃, honward₁, -⟩ := hinside.inside hlt h₂
  obtain ⟨c₄, hcurrent', h₄, honward₂⟩ := h₃.current_eq
  obtain ⟨c₅, hcommit', h₅, hm'⟩ := h₄.commit_eq (Token.kind_of_is closes)
  have hmoved' : Onward c₄ c₅ := .of_moves hm'
  obtain ⟨-, hspan⟩ := hm.within.cover hm'.within (honward₁.trans honward₂).offset
  refine ⟨c₅, ?_, h₅, honward.trans (hmoved.trans (honward₁.trans (honward₂.trans hmoved'))),
    hspan.mono (Nat.le_trans hfits honward.offset) (Nat.le_refl _)⟩
  show (lift S.table.current >>= S.table.growOperand _) c = _
  rw [GrowM.bind_of_ok (lift_of_ok hcurrent), Operators.growOperand, role]
  dsimp only
  rw [GrowM.bind_of_ok (lift_of_ok hcommit), GrowM.bind_of_ok hrun,
    GrowM.bind_of_ok (behind_of_ok (lift_of_ok hcurrent')), if_pos closes,
    GrowM.bind_of_ok (behind_of_ok (lift_of_ok hcommit'))]
  rfl

/-- The run of an expression grows what the climb grows behind the operand that is grown. -/
theorem grows_above (hoperand : S.Grows .operand ts left mid)
    (hclimb : S.Grows (.climb minimum left) mid tree rest) :
    S.Grows (.above minimum) ts tree rest := by
  intro depth n low c hdepth hn hc hfits
  obtain ⟨c₁, hrun, h₁, honward, hwithin⟩ := hoperand depth n low c hdepth hn hc hfits
  obtain ⟨c₂, hrun', h₂, honward', hspan⟩ :=
    hclimb depth _ low c₁ (Nat.le_trans honward.unread hdepth) (Nat.lt_succ_self _) h₁ hwithin
  refine ⟨c₂, ?_, h₂, honward.trans honward', hspan⟩
  obtain ⟨token, back, rfl⟩ := List.exists_cons_of_ne_nil hc.ne_nil
  obtain ⟨c₀, hcurrent, -, -⟩ := hc.current_eq
  change (lift S.table.current >>= S.table.growOperand _) c = _ at hrun
  rw [GrowM.bind_of_ok (lift_of_ok hcurrent)] at hrun
  show (lift S.table.current >>= _) c = _
  rw [GrowM.bind_of_ok (lift_of_ok hcurrent), GrowM.bind_of_ok hrun,
    GrowM.bind_of_ok (behind_of_ok (lift_of_ok (unread_apply c₁)))]
  exact hrun'

/-- The run of a climb grows its left operand in front of what is no operator for it. -/
theorem grows_stop (below : S.table.Below minimum token) :
    S.Grows (.climb minimum left) (token :: rest) left (token :: rest) := by
  intro depth n low c _ hn hc hfits
  obtain ⟨c₁, hcurrent, h₁, honward⟩ := hc.current_eq
  obtain ⟨n, rfl⟩ := Nat.exists_eq_add_one.2 (Nat.zero_lt_of_lt hn)
  refine ⟨c₁, ?_, h₁.toAwaits, honward, hfits.mono (Nat.le_refl _) honward.offset⟩
  show S.table.growClimb _ minimum (n + 1) left c = _
  rw [Operators.growClimb, GrowM.bind_of_ok (behind_of_ok (lift_of_ok hcurrent))]
  cases hbinding : S.table.bindingOf? token with
  | none => rfl
  | some operator =>
    obtain ⟨p, a⟩ := operator
    dsimp only
    rw [if_pos (below p a hbinding)]
    rfl

/-- The run of a climb goes on from the operator whose right operand is grown inside. -/
theorem grows_infixed (role : S.table.bindingOf? token = some (p, a)) (least : minimum ≤ p)
    (hinside : S.Grows (.above (a.rightMinimum p)) ts right mid)
    (hclimb : S.Grows (.climb minimum (.infixed p a left token right)) mid tree rest) :
    S.Grows (.climb minimum left) (token :: ts) tree rest := by
  intro depth n low c hdepth hn hc hfits
  have hk := Operators.kind_of_bindingOf? role
  obtain ⟨c₁, hcurrent, h₁, honward⟩ := hc.current_eq
  obtain ⟨c₂, hcommit, h₂, hm⟩ := h₁.commit_eq hk
  have hlt : c₂.tokenizer.cursor.rest.length < c.tokenizer.cursor.rest.length :=
    Nat.lt_of_lt_of_le (hm.rest_lt (by rw [hk]; nofun)) honward.unread
  obtain ⟨n, rfl⟩ := Nat.exists_eq_add_one.2 (Nat.zero_lt_of_lt hn)
  have hmoved : Onward c₁ (noted c₂ (.infixOp token p)) := .of_moves hm
  obtain ⟨c₃, hrun, h₃, honward₁, hwithin⟩ :=
    hinside.inside (c := noted c₂ (.infixOp token p)) (Nat.lt_of_lt_of_le hlt hdepth) (h₂.noted _)
  obtain ⟨-, hspan⟩ := hfits.cover hwithin (honward.trans hmoved).offset
  have hunread : c₃.tokenizer.cursor.rest.length < c.tokenizer.cursor.rest.length :=
    Nat.lt_of_le_of_lt honward₁.unread hlt
  obtain ⟨c₄, hrun', h₄, honward₂, hspan'⟩ := hclimb depth n low c₃
    (Nat.le_trans (Nat.le_of_lt hunread) hdepth) (by omega) h₃ hspan
  refine ⟨c₄, ?_, h₄, honward.trans (hmoved.trans (honward₁.trans honward₂)), hspan'⟩
  show S.table.growClimb _ minimum (n + 1) left c = _
  rw [Operators.growClimb, GrowM.bind_of_ok (behind_of_ok (lift_of_ok hcurrent)), role]
  dsimp only
  rw [if_neg (Nat.not_lt.2 least), GrowM.bind_of_ok (behind_of_ok (lift_of_ok hcommit)),
    GrowM.bind_of_ok (behind_of_ok (lift_of_ok (note_apply _ _))),
    GrowM.bind_of_ok (behind_of_ok hrun)]
  exact hrun'

/-- What the relation reads off the tokens ahead is what the run of the task grows. -/
theorem reads_grows (h : Reads S.table task ts tree rest) : S.Grows task ts tree rest := by
  induction h with
  | atom role => exact grows_atom role
  | prefixed role _ ih => exact grows_prefixed role ih
  | bracketed role _ closes ih => exact grows_bracketed role ih closes
  | above _ _ iho ihc => exact grows_above iho ihc
  | stop below => exact grows_stop below
  | infixed role least _ _ ihi ihc => exact grows_infixed role least ihi ihc

/-- Where the tokens of a grouped tree are next and no infix operator comes behind them, an
expression ends as the evaluation of the tree does. With a result it has passed the tree. -/
theorem expression_ends {embedded : Parser V → ParseM (Result V)} (hclosed : S.table.Closed)
    (hclosings : S.table.ClosingsEnd) (hover : tree.Over S.table) (hgrouped : tree.Grouped)
    (hc : S.Awaits c (tree.tokens ++ token :: rest)) (hend : S.table.bindingOf? token = none) :
    (S.table.expression embedded).Ends c
      (fun r d => tree.evaluate S.table = .ok r ∧ S.Awaits d (token :: rest) ∧
        tree.span.Within c.tokenizer.position.offset d.tokenizer.position.offset)
      fun f _ => ∃ refusal, tree.evaluate S.table = .error refusal ∧ f = refusal.toFailure := by
  have hstop : S.table.Below 0 token := fun p a hp => by rw [hend] at hp; cases hp
  have hreads : Reads S.table (.above 0) (tree.tokens ++ token :: rest) tree (token :: rest) :=
    hgrouped.reads hclosings hover (fun _ _ => Nat.zero_le _)
      (declines_of_bindingOf?_eq_none hend tree) (.stop hstop)
  obtain ⟨d, hrun, hd, -, hspan⟩ := (reads_grows hreads).inside (Nat.lt_succ_self _) hc
  have hgrow : S.table.grow 0 c = (.ok tree, d) := by
    show (lift unread >>= _) c = _
    rw [GrowM.bind_of_ok (lift_of_ok (unread_apply c))]
    exact hrun
  have hsettles := Operators.expressionAbove_settles hclosed embedded 0
  cases hevaluate : tree.evaluate S.table with
  | ok r =>
    exact .of_ok (hsettles.of_ok hgrow (Operators.settle_ok_of_ok hevaluate)) ⟨rfl, hd, hspan⟩
  | error refusal =>
    have hfails := hsettles.of_error hgrow (Operators.settle_ok_eq_error.2 hevaluate)
    exact .of_error (Prod.ext hfails rfl) ⟨refusal, rfl, rfl⟩

end Stage

end PredictiveParsing
