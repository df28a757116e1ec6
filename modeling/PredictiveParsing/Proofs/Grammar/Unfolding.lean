import PredictiveParsing.Proofs.Grammar.Validation

/-!
# FIRST sets by unfolding references

What it is to have a FIRST set does not depend on how it is computed. A parser has one if references
can be unfolded, each to the rule of its name, until none is left in the way: `Grammar.HasFirst`. A
left-recursive rule has none, because each unfolding meets the rule again.

`Grammar.first` looks out for rules that are met again. It finds every FIRST set there is
(`Grammar.first_eq_ok_iff`), because while the FIRST set of a rule is computed only rules are met
that take fewer unfoldings. And it stops by itself: the number that bounds it never runs out
(`Grammar.firstOfRuleOr_eq`).
-/

namespace PredictiveParsing

variable {V : Type}

namespace Grammar

/-- The FIRST set of a rule by at most so many unfoldings, one inside of the other. -/
def firstWithin (g : Grammar V) : Nat → String → Except GrammarError FirstSet
  | 0, name => .error (.leftRecursion name)
  | n + 1, name =>
    match g.rule? name with
    | none => .error (.unregisteredRule name)
    | some p => p.first (g.firstWithin n)

/-- The parser has the FIRST set, found by unfolding references often enough. -/
def HasFirst (g : Grammar V) (p : Parser V) (f : FirstSet) : Prop :=
  ∃ n, p.first (g.firstWithin n) = .ok f

variable {g : Grammar V} {n m : Nat} {active : List String} {name : String} {p : Parser V}
  {f : FirstSet}

theorem firstWithin_eq_ok (h : g.firstWithin n name = .ok f) :
    ∃ m p, n = m + 1 ∧ g.rule? name = some p ∧ p.first (g.firstWithin m) = .ok f := by
  cases n with
  | zero => cases h
  | succ m =>
    unfold firstWithin at h
    split at h
    · cases h
    · next p hp => exact ⟨m, p, rfl, hp, h⟩

theorem firstWithin_of_rule? (hp : g.rule? name = some p)
    (h : p.first (g.firstWithin n) = .ok f) : g.firstWithin (n + 1) name = .ok f := by
  unfold firstWithin
  rwa [hp]

/-- What is found by some unfoldings is found by more. -/
theorem firstWithin_mono (hn : n ≤ m) (h : g.firstWithin n name = .ok f) :
    g.firstWithin m name = .ok f := by
  induction n generalizing m name f with
  | zero => cases h
  | succ n ih =>
    obtain ⟨_, p, hk, hp, hf⟩ := firstWithin_eq_ok h
    cases hk
    obtain ⟨m, rfl⟩ := Nat.exists_eq_add_one.2 (Nat.lt_of_lt_of_le (Nat.succ_pos n) hn)
    exact firstWithin_of_rule? hp
      (Parser.first_mono (fun _ _ => ih (Nat.le_of_succ_le_succ hn)) p hf)

theorem firstWithin_of_firstOfRule (h : g.firstOfRule n active name = .ok f) :
    g.firstWithin n name = .ok f := by
  induction n generalizing active name f with
  | zero => cases h
  | succ n ih =>
    obtain ⟨_, p, hk, -, hp, hf⟩ := firstOfRule_eq_ok h
    cases hk
    exact firstWithin_of_rule? hp (Parser.first_mono (fun _ _ => ih) p hf)

/-- While the FIRST set of a rule is computed, no rule is met again: the active rules take more
unfoldings than those that are met. -/
theorem firstOfRule_of_firstWithin (hb : g.Bounded m active)
    (hactive : ∀ name ∈ active, ∀ f, g.firstWithin n name ≠ .ok f)
    (h : g.firstWithin n name = .ok f) : g.firstOfRule m active name = .ok f := by
  induction n generalizing m active name f with
  | zero => cases h
  | succ n ih =>
    have hactive' : ∀ name ∈ active, ∀ f, g.firstWithin n name ≠ .ok f := fun name hname f h =>
      hactive name hname f (firstWithin_mono (Nat.le_succ n) h)
    by_cases hfewer : ∃ f', g.firstWithin n name = .ok f'
    · obtain ⟨f', hf'⟩ := hfewer
      have hsame := firstWithin_mono (Nat.le_succ n) hf'
      rw [h] at hsame
      cases hsame
      exact ih hb hactive' hf'
    · obtain ⟨_, p, hk, hp, hf⟩ := firstWithin_eq_ok h
      cases hk
      have hname : name ∉ active := fun hmem => hactive name hmem f h
      obtain ⟨m, rfl⟩ := Nat.exists_eq_add_one.2 hb.pos
      unfold firstOfRule
      rw [if_neg (by simpa using hname), hp]
      refine Parser.first_mono (fun name₁ f₁ h₁ => ih (hb.cons hname hp) ?_ h₁) p hf
      rintro name₂ hmem f₂ h₂
      rcases List.mem_cons.1 hmem with rfl | hmem
      · exact hfewer ⟨f₂, h₂⟩
      · exact hactive' name₂ hmem f₂ h₂

/-- The FIRST sets that are computed are those that parsers have. -/
theorem first_eq_ok_iff : g.first p = .ok f ↔ g.HasFirst p f := by
  constructor
  · exact fun h => ⟨g.rules.length + 1,
      Parser.first_mono (fun _ _ => firstWithin_of_firstOfRule) p h⟩
  · rintro ⟨n, h⟩
    exact Parser.first_mono (fun _ _ => firstOfRule_of_firstWithin (.start g) nofun) p h

/-- A reference has the FIRST set of its rule. -/
theorem ruleFirst_eq_ok_iff : g.ruleFirst name = .ok f ↔ g.HasFirst (.ref name) f :=
  first_eq_ok_iff (p := .ref name)

/-- A rule with a FIRST set is registered. -/
theorem HasFirst.registered (h : g.HasFirst (.ref name) f) : ∃ p, g.rule? name = some p := by
  obtain ⟨n, h⟩ := h
  obtain ⟨-, p, -, hp, -⟩ := firstWithin_eq_ok h
  exact ⟨p, hp⟩

/-! ## The bound -/

/-- `firstOfRule` with something else where the number runs out. -/
def firstOfRuleOr (g : Grammar V) (out : List String → String → Except GrammarError FirstSet) :
    Nat → List String → String → Except GrammarError FirstSet
  | 0, active, name => out active name
  | n + 1, active, name =>
    if active.contains name then .error (.leftRecursion name)
    else
      match g.rule? name with
      | none => .error (.unregisteredRule name)
      | some p => p.first (g.firstOfRuleOr out n (name :: active))

/-- The number does not run out: it is of no importance what would be answered there. -/
theorem firstOfRuleOr_eq (out : List String → String → Except GrammarError FirstSet)
    (hb : g.Bounded n active) (name : String) :
    g.firstOfRuleOr out n active name = g.firstOfRule n active name := by
  induction n generalizing active name with
  | zero => exact absurd hb.pos (Nat.lt_irrefl 0)
  | succ n ih =>
    unfold firstOfRuleOr firstOfRule
    split
    · rfl
    · next hname =>
      cases hp : g.rule? name with
      | none => rfl
      | some p =>
        have hb' : g.Bounded n (name :: active) := hb.cons (by simpa using hname) hp
        exact congrArg (p.first ·) (funext fun name' => ih hb' name')

end Grammar

end PredictiveParsing
