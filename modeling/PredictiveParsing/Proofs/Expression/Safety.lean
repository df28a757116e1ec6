import PredictiveParsing.Proofs.Safe
import PredictiveParsing.Proofs.Expression.Skipping
import PredictiveParsing.Proofs.Expression.Tree

/-!
# Expressions are never at fault

An operator table is safe if its embedded parsers are and if its actions keep the regions of their
arguments (`Role.Keeps`): the operands of an operator follow each other, so they have a cover, and
what is made of them lies within it. Every nested expression begins behind a token of its own, and
every round of a climb takes one, so that neither the depth nor the count of a table is exhausted
(`Operators.above_safe`).
-/

namespace PredictiveParsing

open ParseM

variable {V P : Type}

/-! ## Actions -/

/-- Given arguments in order, the action is at no fault, and what it answers stands for a region
within that of its arguments. -/
def Answer.Keeps (answer : Answer (Result V)) (arguments : List Span) : Prop :=
  ∀ low high, Span.InOrder low arguments high →
    (∀ fault, answer ≠ .error (.fault fault)) ∧ ∀ r, answer = .ok r → r.span.Within low high

/-- The actions of the role keep the regions of their arguments. -/
def Role.Keeps : Role V P → Prop
  | atom action => ∀ f, action = some f → ∀ token, (f token).Keeps [token.span]
  | prefixOp _ action =>
    ∀ f, action = some f → ∀ op operand, (f op operand).Keeps [op.span, operand.span]
  | infixOp _ _ action =>
    ∀ f, action = some f → ∀ left op right,
      (f left op right).Keeps [left.span, op.span, right.span]
  | mixfix _ _ _ onPrefix onInfix =>
    (∀ f, onPrefix = some f → ∀ op operand, (f op operand).Keeps [op.span, operand.span]) ∧
      ∀ f, onInfix = some f → ∀ left op right,
        (f left op right).Keeps [left.span, op.span, right.span]
  | bracket .. | embed _ => True

/-- A role without action keeps the regions of what stands around it. -/
theorem Role.Bare.keeps {role : Role V P} (h : role.Bare) : role.Keeps := by
  cases role with
  | atom action | prefixOp _ action | infixOp _ _ action =>
    cases action with
    | none => exact nofun
    | some f => exact h.elim
  | mixfix _ _ _ onPrefix onInfix =>
    cases onPrefix with
    | none =>
      cases onInfix with
      | none => exact ⟨nofun, nofun⟩
      | some f => exact h.elim
    | some f => cases onInfix <;> exact h.elim
  | bracket => trivial
  | embed => exact h.elim

section

variable {g : Grammar V} {p : Parser V} {input : Text} {limited : Prop} {c d : Context}
  {token : Token} {o : Operators V P} {low high : Nat}

/-- An action that keeps the regions of its arguments may reject them. -/
theorem Ready.perform {answer : Answer (Result V)} {arguments : List Span}
    {ok : Result V → Context → Prop} (hd : Ready g p input d) (ho : Onward c d)
    (hkeeps : answer.Keeps arguments) (harguments : Span.InOrder low arguments high)
    (hok : ∀ r, r.span.Within low high → ok r d) :
    (perform answer).Ends d ok (Fails g p input limited c) := by
  obtain ⟨hfault, hwithin⟩ := hkeeps low high harguments
  refine .perform (fun r hr => hok r (hwithin r hr)) (fun e _ => ?_) fun x hx => ?_
  · exact ⟨hd.note _, ho.note _⟩
  · exact absurd hx (hfault x)

namespace Operators

/-! ## Results of operators -/

/-- The operand of one token stands for a region of the token. -/
theorem atomResult_safe {action : Option (AtomAction V)} {ok : Result V → Context → Prop}
    (hkeeps : ∀ f, action = some f → ∀ token, (f token).Keeps [token.span])
    (hd : Ready g p input d) (ho : Onward c d) (htoken : token.span.Within low high)
    (hok : ∀ r, r.span.Within low high → ok r d) :
    (atomResult action token).Ends d ok (Fails g p input limited c) := by
  cases action with
  | none => exact .pure (hok _ htoken)
  | some f => exact hd.perform ho (hkeeps f rfl token) (.single htoken) hok

/-- A prefix operator with its operand stands for a region that both cover. -/
theorem prefixResult_safe {action : Option (PrefixAction V)} {ok : Result V → Context → Prop}
    {mid : Nat} {operand : Result V}
    (hkeeps : ∀ f, action = some f → ∀ op operand, (f op operand).Keeps [op.span, operand.span])
    (hd : Ready g p input d) (ho : Onward c d) (htoken : token.span.Within low mid)
    (hoperand : operand.span.Within mid high) (hok : ∀ r, r.span.Within low high → ok r d) :
    (prefixResult action token operand).Ends d ok (Fails g p input limited c) := by
  cases action with
  | none =>
    obtain ⟨hcover, hwithin⟩ := htoken.cover hoperand (Nat.le_refl _)
    exact .bind (.trust hcover (.pure (hok _ hwithin)))
  | some f =>
    exact hd.perform ho (hkeeps f rfl token operand) (.cons htoken (.single hoperand)) hok

/-- An infix operator with its operands stands for a region that both operands cover. -/
theorem infixResult_safe {action : Option (InfixAction V)} {ok : Result V → Context → Prop}
    {mid mid' : Nat} {left right : Result V}
    (hkeeps : ∀ f, action = some f → ∀ left op right,
      (f left op right).Keeps [left.span, op.span, right.span])
    (hd : Ready g p input d) (ho : Onward c d) (hleft : left.span.Within low mid)
    (htoken : token.span.Within mid mid') (hright : right.span.Within mid' high)
    (hok : ∀ r, r.span.Within low high → ok r d) :
    (infixResult action left token right).Ends d ok (Fails g p input limited c) := by
  cases action with
  | none =>
    have hmid := Nat.le_trans htoken.low (Nat.le_trans htoken.forward htoken.high)
    obtain ⟨hcover, hwithin⟩ := hleft.cover hright hmid
    exact .bind (.trust hcover (.pure (hok _ hwithin)))
  | some f =>
    refine hd.perform ho (hkeeps f rfl left token right) ?_ hok
    exact .cons hleft (.cons htoken (.single hright))

/-! ## Skipped tokens -/

/-- Stepping over skipped tokens takes no more steps than scalars are left. -/
theorem skipTo_safe {n : Nat} (hn : c.tokenizer.cursor.rest.length < n) (hc : Ready g p input c) :
    (o.skipTo n : ParseM Token).Ends c
      (fun token d => Ready g p input d ∧ Onward c d ∧ o.Faces d.tokenizer token)
      (Fails g p input limited c) := by
  induction n generalizing c with
  | zero => omega
  | succ n ih =>
    obtain ⟨token, hpeek⟩ := hc.peek
    refine .bind (.peek hpeek ?_)
    cases hs : o.skips token with
    | true =>
      refine .bind (hc.commit hpeek fun d hd hm => ?_)
      have hlt := hm.rest_lt (ordinary_of_skips hs)
      refine (ih (by omega) hd).mono (fun next e he => ?_) fun _ _ he => he.behind (.of_moves hm)
      exact ⟨he.1, .trans (.of_moves hm) he.2.1, he.2.2⟩
    | false => exact .pure ⟨hc, .refl c, hpeek, hs⟩

/-- From anywhere a token that is not skipped comes next. -/
theorem current_safe {ok : Token → Context → Prop} {c₀ : Context} (hc : Ready g p input c)
    (ho : Onward c₀ c)
    (hok : ∀ token d, Ready g p input d → Onward c d → o.Faces d.tokenizer token → ok token d) :
    o.current.Ends c ok (Fails g p input limited c₀) := by
  refine .bind (.unread ?_)
  refine (skipTo_safe (Nat.lt_succ_self _) hc).mono (fun token d hd => ?_)
    fun _ _ he => he.behind ho
  exact hok token d hd.1 hd.2.1 hd.2.2

/-! ## Operands and climbs -/

variable {embedded : P → ParseM (Result V)} {inner : Nat → ParseM (Result V)}

/-- An operand is safe if every expression inside of it is. -/
theorem operand_safe (hkeeps : ∀ type role, o.role? type = some role → role.Keeps)
    (hembedded : ∀ type parser, o.role? type = some (.embed parser) →
      Safe g p input limited (embedded parser))
    (hinner : ∀ minimum d, Ready g p input d →
      d.tokenizer.cursor.rest.length < c.tokenizer.cursor.rest.length →
      SafeAt g p input limited (inner minimum) d)
    (hc : Ready g p input c) (hf : o.Faces c.tokenizer token) :
    SafeAt g p input limited (o.operand embedded inner token) c := by
  unfold operand
  cases hrole : o.roleOf? token with
  | none => exact .unexpected fun _ => ⟨hc, .refl c⟩
  | some role =>
    obtain ⟨hk, hrole⟩ := role?_of_roleOf? hrole
    have hend : token.kind ≠ .endOfInput := by rw [hk]; nofun
    have hrolekeeps := hkeeps _ _ hrole
    have prefixed {priority : Nat} {action : Option (PrefixAction V)}
        (hkeeps : ∀ f, action = some f → ∀ op operand,
          (f op operand).Keeps [op.span, operand.span]) :
        SafeAt g p input limited (do
          commit token
          note (.prefixOp token priority)
          let result ← inner priority
          prefixResult action token result) c := by
      refine .bind (hc.commit hf.1 fun d hd hm => .bind (.note (.bind ?_)))
      have ho : Onward c (noted d (.prefixOp token priority)) := .of_moves hm
      refine (hinner priority _ (hd.note _) (hm.rest_lt hend)).mono ho fun r e he ho' hwithin => ?_
      refine prefixResult_safe hkeeps he (ho.trans ho') hm.within hwithin fun r' hr' => ?_
      exact ⟨he, ho.trans ho', hr'⟩
    cases role with
    | infixOp => exact .unexpected fun _ => ⟨hc, .refl c⟩
    | atom action =>
      refine .bind (hc.commit hf.1 fun d hd hm => .bind (.note ?_))
      have ho : Onward c (noted d (.atom token)) := .of_moves hm
      exact atomResult_safe hrolekeeps (hd.note _) ho hm.within fun r hr => ⟨hd.note _, ho, hr⟩
    | prefixOp priority action => exact prefixed hrolekeeps
    | mixfix priority _ _ action _ => exact prefixed hrolekeeps.1
    | embed parser =>
      refine .bind (.note ?_)
      have ho : Onward c (noted c (.embedded token)) := (Onward.refl c).note _
      refine (hembedded _ _ hrole _ (hc.note _)).mono ho fun r d hd ho' hwithin => ?_
      exact ⟨hd, ho.trans ho', hwithin⟩
    | bracket opening closing =>
      refine .bind (hc.commit hf.1 fun d hd hm => .bind ?_)
      have ho : Onward c d := .of_moves hm
      refine (hinner 0 d hd (hm.rest_lt hend)).mono ho fun r e he ho' hwithin => ?_
      refine .bind (current_safe he (ho.trans ho') fun last e' he' ho'' hf' => ?_)
      have hmoved := ho.trans (ho'.trans ho'')
      cases hcloses : last.is closing with
      | false => exact .unexpected fun _ => ⟨he', hmoved⟩
      | true =>
        refine .bind (he'.commit hf'.1 fun d' hd' hm' => ?_)
        obtain ⟨hcover, hspan⟩ := hm.within.cover hm'.within (ho'.trans ho'').offset
        refine .bind (.trust hcover (.pure ⟨hd', hmoved.trans (.of_moves hm'), ?_⟩))
        cases r <;> exact hspan

/-- The action of an infix operator keeps the regions of its arguments. -/
theorem keeps_of_infixRole? (hkeeps : ∀ type role, o.role? type = some role → role.Keeps)
    {priority : Nat} {associativity : Associativity} {action : Option (InfixAction V)}
    (h : (o.roleOf? token).bind Role.infixRole? = some (priority, associativity, action)) :
    token.kind = .ordinary ∧ ∀ f, action = some f → ∀ left op right,
      (f left op right).Keeps [left.span, op.span, right.span] := by
  obtain ⟨role, hrole, hinfix⟩ := Option.bind_eq_some_iff.1 h
  obtain ⟨hk, hrole⟩ := role?_of_roleOf? hrole
  have hrolekeeps := hkeeps _ _ hrole
  cases role with
  | atom | prefixOp | bracket | embed => cases hinfix
  | infixOp => cases hinfix; exact ⟨hk, hrolekeeps⟩
  | mixfix => cases hinfix; exact ⟨hk, hrolekeeps.2⟩

/-- A climb is safe behind a left operand if every expression inside of it is. -/
theorem climb_safe (hkeeps : ∀ type role, o.role? type = some role → role.Keeps)
    {minimum n : Nat} {left : Result V}
    (hinner : ∀ minimum d, Ready g p input d →
      d.tokenizer.cursor.rest.length < c.tokenizer.cursor.rest.length →
      SafeAt g p input limited (inner minimum) d)
    (hn : c.tokenizer.cursor.rest.length < n) (hc : Ready g p input c)
    (hleft : left.span.Within low c.tokenizer.position.offset) :
    (o.climb inner minimum n left).Ends c
      (fun r d => Ready g p input d ∧ Onward c d ∧
        r.span.Within low d.tokenizer.position.offset)
      (Fails g p input limited c) := by
  induction n generalizing c left with
  | zero => omega
  | succ n ih =>
    refine .bind (current_safe hc (.refl c) fun token d hd ho hf => ?_)
    have hwithin := hleft.mono (Nat.le_refl _) ho.offset
    cases hinfix : (o.roleOf? token).bind Role.infixRole? with
    | none => exact .pure ⟨hd, ho, hwithin⟩
    | some operator =>
      obtain ⟨priority, associativity, action⟩ := operator
      obtain ⟨hk, hactionkeeps⟩ := keeps_of_infixRole? hkeeps hinfix
      have hend : token.kind ≠ .endOfInput := by rw [hk]; nofun
      dsimp only
      by_cases hweak : priority < minimum
      · rw [if_pos hweak]
        exact .pure ⟨hd, ho, hwithin⟩
      · rw [if_neg hweak]
        refine .bind (hd.commit hf.1 fun e he hm => .bind (.note (.bind ?_)))
        have hlt := Nat.lt_of_lt_of_le (hm.rest_lt hend) ho.unread
        have ho₁ : Onward c (noted e (.infixOp token priority)) := ho.trans (.of_moves hm)
        have hright := hinner (associativity.rightMinimum priority)
          (noted e (.infixOp token priority)) (he.note _) hlt
        refine hright.mono ho₁ fun right e₁ he₁ ho₂ hright => .bind ?_
        have ho₃ := ho₁.trans ho₂
        refine infixResult_safe hactionkeeps he₁ ho₃ hwithin hm.within hright fun r hr => ?_
        -- the operator has been taken, so less is left for those that follow
        have hless := Nat.lt_of_le_of_lt ho₂.unread hlt
        have hrest := ih (fun m d hd hlt => hinner m d hd (Nat.lt_trans hlt hless)) (by omega)
          he₁ hr
        exact hrest.mono (fun r d hd => ⟨hd.1, ho₃.trans hd.2.1, hd.2.2⟩)
          fun _ _ he => he.behind ho₃

/-- An expression is safe, run deeper than the number of scalars that are left. -/
theorem above_safe (hkeeps : ∀ type role, o.role? type = some role → role.Keeps)
    (hembedded : ∀ type parser, o.role? type = some (.embed parser) →
      Safe g p input limited (embedded parser))
    {depth minimum : Nat} (hdepth : c.tokenizer.cursor.rest.length < depth)
    (hc : Ready g p input c) :
    SafeAt g p input limited (o.above embedded depth minimum) c := by
  induction depth generalizing c minimum with
  | zero => omega
  | succ depth ih =>
    refine .bind (current_safe hc (.refl c) fun token d hd ho hf => .bind ?_)
    have hless := ho.unread
    have hinner {e : Context} (he : Onward d e) (m : Nat) (e' : Context)
        (hready : Ready g p input e')
        (hlt : e'.tokenizer.cursor.rest.length < e.tokenizer.cursor.rest.length) :
        SafeAt g p input limited (o.above embedded depth m) e' := by
      have hle := he.unread
      exact ih (by omega) hready
    have hoperand := operand_safe hkeeps hembedded (hinner (.refl d)) hd hf
    refine hoperand.mono ho fun left e he ho' hleft => .bind (.unread ?_)
    have hmoved := ho.trans ho'
    have hwithin := hleft.mono ho.offset (Nat.le_refl _)
    refine (climb_safe hkeeps (hinner ho') (Nat.lt_succ_self _) he hwithin).mono
      (fun r e' h => ?_) fun _ _ h => h.behind hmoved
    exact ⟨h.1, hmoved.trans h.2.1, h.2.2⟩

/-- An expression is safe. -/
theorem safe_expression (hkeeps : ∀ type role, o.role? type = some role → role.Keeps)
    (hembedded : ∀ type parser, o.role? type = some (.embed parser) →
      Safe g p input limited (embedded parser)) :
    Safe g p input limited (o.expression embedded) := by
  intro c hc
  exact .bind (.unread (above_safe hkeeps hembedded (Nat.lt_succ_self _) hc))

end Operators

end

end PredictiveParsing
