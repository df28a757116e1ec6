import PredictiveParsing.Proofs.Halting
import PredictiveParsing.Proofs.Expression.Skipping
import PredictiveParsing.Proofs.Expression.Tree

/-!
# Expressions come to an end

An expression halts if its embedded parsers do (`Operators.expression_halts`). Every nested
expression begins behind a token of its own, and every round of a climb takes one. An operand
consumes something, unless an embedded parser reads it that does not.
-/

namespace PredictiveParsing.Operators

open ParseM

variable {V P : Type} {g : Grammar V} {p : Parser V} {c₀ c d : Context} {idle : Prop}
  {token : Token} {o : Operators V P}

/-! ## Skipped tokens -/

/-- Stepping over skipped tokens takes no more steps than scalars are left. -/
theorem skipTo_halts {n : Nat} (hn : c.tokenizer.cursor.rest.length < n)
    (hj : c.journal.Faithful g p) :
    (o.skipTo n : ParseM Token).Ends c
      (fun token d => Past g p c d ∧ o.Faces d.tokenizer token) (Halted g p c) := by
  induction n generalizing c with
  | zero => omega
  | succ n ih =>
    refine .bind (Halted.peek fun token hpeek => ?_)
    cases hs : o.skips token with
    | true =>
      refine .bind ((Past.refl hj).commit (kind_of_skips hs) fun d hd hlt => ?_)
      refine (ih (by omega) hd.journal).mono (fun next e he => ?_) fun _ _ h => h.behind hd
      exact ⟨hd.trans he.1, he.2⟩
    | false => exact .pure ⟨.refl hj, hpeek, hs⟩

theorem current_halts {ok : Token → Context → Prop} (hc : Past g p c₀ c)
    (hok : ∀ token d, Past g p c d → o.Faces d.tokenizer token → ok token d) :
    o.current.Ends c ok (Halted g p c₀) := by
  refine .bind (.unread ?_)
  refine (skipTo_halts (Nat.lt_succ_self _) hc.journal).mono (fun token d hd => ?_)
    fun _ _ h => h.behind hc
  exact hok token d hd.1 hd.2

/-! ## Results of operators -/

theorem atomResult_halts {action : Option (AtomAction V)} {ok : Result V → Context → Prop}
    (hc : Past g p c₀ c) (hok : ∀ r, ok r c) :
    (atomResult action token).Ends c ok (Halted g p c₀) := by
  cases action with
  | none => exact .pure (hok _)
  | some f => exact hc.perform hok

theorem prefixResult_halts {action : Option (PrefixAction V)} {operand : Result V}
    {ok : Result V → Context → Prop} (hc : Past g p c₀ c) (hok : ∀ r, ok r c) :
    (prefixResult action token operand).Ends c ok (Halted g p c₀) := by
  cases action with
  | none => exact .bind (Halted.trust fun span => .pure (hok _))
  | some f => exact hc.perform hok

theorem infixResult_halts {action : Option (InfixAction V)} {left right : Result V}
    {ok : Result V → Context → Prop} (hc : Past g p c₀ c) (hok : ∀ r, ok r c) :
    (infixResult action left token right).Ends c ok (Halted g p c₀) := by
  cases action with
  | none => exact .bind (Halted.trust fun span => .pure (hok _))
  | some f => exact hc.perform hok

/-! ## Operands and climbs -/

variable {embedded : P → ParseM (Result V)} {inner : Nat → ParseM (Result V)}

/-- An operand halts if the expressions inside of it do, which begin behind a token, and if embedded
parsers do, which begin with one. It consumes nothing only if an embedded parser does not. -/
theorem operand_halts
    (hface : o.Faces c.tokenizer token)
    (hembedded : ∀ key parser d, (key, Role.embed parser) ∈ o.roles → d.tokenizer = c.tokenizer →
      d.journal.Faithful g p → ¬d.tokenizer.FacesEnd → HaltsAt g p idle (embedded parser) d)
    (hinner : ∀ minimum d, Past g p c d →
      d.tokenizer.cursor.rest.length < c.tokenizer.cursor.rest.length →
      HaltsAt g p True (inner minimum) d)
    (hj : c.journal.Faithful g p) : HaltsAt g p idle (o.operand embedded inner token) c := by
  have hc : Past g p c c := .refl hj
  -- behind a token that has been consumed, something has
  have consumed {d e : Context} (hd : Past g p c d) (he : Past g p d e)
      (hlt : d.tokenizer.cursor.rest.length < c.tokenizer.cursor.rest.length) :
      Past g p c e ∧ (e.tokenizer = c.tokenizer → idle) := by
    refine ⟨hd.trans he, fun hsame => ?_⟩
    have hle := he.unread_le
    rw [hsame] at hle
    omega
  unfold operand
  cases hrole : o.roleOf? token with
  | none => exact hc.unexpected
  | some role =>
    obtain ⟨hk, hrole⟩ := role?_of_roleOf? hrole
    have prefixed (priority : Nat) (action : Option (PrefixAction V)) :
        HaltsAt g p idle (do
          commit token
          note (.prefixOp token priority)
          let result ← inner priority
          prefixResult action token result) c := by
      refine .bind (hc.commit hk fun d hd hlt => .bind (.note (.bind ?_)))
      have hd' := hd.note (.prefixOp token priority)
      refine (hinner priority _ hd' hlt).mono hd' fun r e he _ => ?_
      exact prefixResult_halts (hd'.trans he) fun _ => consumed hd' he hlt
    cases role with
    | infixOp => exact hc.unexpected
    | atom action =>
      refine .bind (hc.commit hk fun d hd hlt => .bind (.note ?_))
      have hd' := hd.note (.atom token)
      exact atomResult_halts hd' fun _ => consumed hd' (.refl hd'.journal) hlt
    | prefixOp priority action => exact prefixed priority action
    | mixfix priority _ _ action _ => exact prefixed priority action
    | embed parser =>
      refine .bind (.note ?_)
      have hc' := hc.note (.embedded token)
      have hmore : ¬c.tokenizer.FacesEnd := by
        rintro ⟨last, hpeek, hend⟩
        cases hface.1.symm.trans hpeek
        simp [Token.isEndOfInput, hk] at hend
      have hhalts : HaltsAt g p idle (embedded parser) (noted c (.embedded token)) :=
        hembedded _ parser _ (mem_of_role? hrole) rfl hc'.journal hmore
      exact hhalts.mono hc' fun r d hd hidle => ⟨hc'.trans hd, hidle⟩
    | bracket opening closing =>
      refine .bind (hc.commit hk fun d hd hlt => .bind ?_)
      refine (hinner 0 d hd hlt).mono hd fun r e he _ => .bind ?_
      refine current_halts (hd.trans he) fun last e' he' _ => ?_
      have hmoved := (hd.trans he).trans he'
      cases hcloses : last.is closing with
      | false => exact hmoved.unexpected
      | true =>
        refine .bind (hmoved.commit (Token.kind_of_is hcloses) fun d' hd' _ => .bind ?_)
        exact Halted.trust fun span => .pure (consumed hd (he.trans (he'.trans hd')) hlt)

/-- A climb halts if the expressions inside of it do. -/
theorem climb_halts {minimum n : Nat} {left : Result V}
    (hinner : ∀ minimum d, Past g p c d →
      d.tokenizer.cursor.rest.length < c.tokenizer.cursor.rest.length →
      HaltsAt g p True (inner minimum) d)
    (hn : c.tokenizer.cursor.rest.length < n) (hj : c.journal.Faithful g p) :
    HaltsAt g p True (o.climb inner minimum n left) c := by
  induction n generalizing c left with
  | zero => omega
  | succ n ih =>
    refine .bind (current_halts (.refl hj) fun token d hd hf => ?_)
    cases hinfix : (o.roleOf? token).bind Role.infixRole? with
    | none => exact .pure ⟨hd, fun _ => trivial⟩
    | some operator =>
      obtain ⟨priority, associativity, action⟩ := operator
      obtain ⟨role, hrole, -⟩ := Option.bind_eq_some_iff.1 hinfix
      have hk := (role?_of_roleOf? hrole).1
      dsimp only
      by_cases hweak : priority < minimum
      · rw [if_pos hweak]
        exact .pure ⟨hd, fun _ => trivial⟩
      · rw [if_neg hweak]
        refine .bind (hd.commit hk fun e he hlt => .bind (.note (.bind ?_)))
        have he' := (hd.trans he).note (.infixOp token priority)
        have hless := Nat.lt_of_lt_of_le hlt hd.unread_le
        refine (hinner _ _ he' hless).mono he' fun right e₁ he₁ _ => .bind ?_
        have hmoved := he'.trans he₁
        have hle : e₁.tokenizer.cursor.rest.length < c.tokenizer.cursor.rest.length :=
          Nat.lt_of_le_of_lt he₁.unread_le hless
        refine infixResult_halts hmoved fun r => ?_
        have hrest : HaltsAt g p True (o.climb inner minimum n r) e₁ :=
          ih (fun m d' hd' hlt' => hinner m d' (hmoved.trans hd') (by omega)) (by omega)
            hmoved.journal
        exact hrest.mono hmoved fun r d' hd' _ => ⟨hmoved.trans hd', fun _ => trivial⟩

/-- An expression halts, run deeper than the number of scalars that are left. -/
theorem above_halts
    (hembedded : ∀ key parser d, (key, Role.embed parser) ∈ o.roles → Past g p c₀ d →
      ¬d.tokenizer.FacesEnd → HaltsAt g p (d.tokenizer = c₀.tokenizer → idle) (embedded parser) d)
    {depth minimum : Nat} (hdepth : c.tokenizer.cursor.rest.length < depth) (hc : Past g p c₀ c) :
    HaltsAt g p (c.tokenizer = c₀.tokenizer → idle) (o.above embedded depth minimum) c := by
  induction depth generalizing c minimum with
  | zero => omega
  | succ depth ih =>
    have hj := hc.journal
    refine .bind (current_halts (.refl hj) fun token d hd hf => .bind ?_)
    have hless := hd.unread_le
    have hinner (m : Nat) (e : Context) (he : Past g p d e)
        (hlt : e.tokenizer.cursor.rest.length < d.tokenizer.cursor.rest.length) :
        HaltsAt g p True (o.above embedded depth m) e := by
      refine Ends.mono (ih (by omega) (hc.trans (hd.trans he))) (fun r e' h => ?_) fun _ _ h => h
      exact ⟨h.1, fun _ => trivial⟩
    have hoperand : HaltsAt g p (d.tokenizer = c₀.tokenizer → idle)
        (o.operand embedded (o.above embedded depth) token) d := by
      refine operand_halts hf (fun key parser e hrole hsame he hmore => ?_) hinner hd.journal
      rw [← hsame]
      exact hembedded key parser e hrole ⟨hsame ▸ (hc.trans hd).leads, he⟩ hmore
    refine hoperand.mono hd fun left e he hidle => .bind (.unread ?_)
    have hmoved := hd.trans he
    have hclimb : HaltsAt g p True (o.climb (o.above embedded depth) minimum
        (e.tokenizer.cursor.rest.length + 1) left) e := by
      refine climb_halts (fun m e' he' hlt => ?_) (Nat.lt_succ_self _) he.journal
      have hle := he.unread_le
      exact hinner m e' (he.trans he') (by omega)
    refine hclimb.mono hmoved fun r e' he' _ => ⟨hmoved.trans he', fun hsame hsame₀ => ?_⟩
    have hd' := hd.same (he.trans he') hsame
    exact hidle (he.same he' (hsame.trans hd'.symm)) (hd'.trans hsame₀)

/-- An expression halts if the embedded parsers do, and consumes nothing only if one of them does
not. -/
theorem expression_halts (hj : c.journal.Faithful g p)
    (hembedded : ∀ key parser d, (key, Role.embed parser) ∈ o.roles → Past g p c d →
      ¬d.tokenizer.FacesEnd → HaltsAt g p (d.tokenizer = c.tokenizer → idle) (embedded parser) d) :
    HaltsAt g p idle (o.expression embedded) c := by
  refine .bind (.unread ?_)
  refine Ends.mono (above_halts hembedded (Nat.lt_succ_self _) (.refl hj)) (fun r d h => ?_)
    fun _ _ h => h
  exact ⟨h.1, fun hsame => h.2 hsame rfl⟩

end PredictiveParsing.Operators
