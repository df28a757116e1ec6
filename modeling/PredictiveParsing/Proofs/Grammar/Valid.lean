import PredictiveParsing.Proofs.Grammar.Reordering

/-!
# Valid grammars

`Grammar.Valid` says what a grammar has to satisfy, without saying how it is found out: what its
entry reaches, which FIRST sets there are, and which of them tell alternatives apart. Validation
decides it (`Grammar.validate_iff_valid`). Although it stops at the first error and visits each rule
once, in an order that depends on that of operator tables, its verdict does not.
-/

namespace PredictiveParsing

variable {V : Type}

/-! ## Checks of single combinators -/

section

variable {firsts : List FirstSet} {f : FirstSet}

theorem firstOverlap.against_eq_none {j : Nat} :
    firstOverlap.against f j firsts = none ↔ ∀ f' ∈ firsts, ∀ l ∈ f.tokens, l ∉ f'.tokens := by
  induction firsts generalizing j with
  | nil => exact ⟨fun _ => nofun, fun _ => rfl⟩
  | cons f' firsts ih =>
    have hoverlap : (f.overlap f').head? = none ↔ ∀ l ∈ f.tokens, l ∉ f'.tokens := by
      rw [List.head?_eq_none_iff, FirstSet.overlap, List.filter_eq_nil_iff]
      simp [FirstSet.contains]
    rw [List.forall_mem_cons, ← hoverlap]
    unfold firstOverlap.against
    cases (f.overlap f').head? with
    | some l => simp
    | none => exact ih.trans (and_iff_right rfl).symm

theorem firstOverlap.go_eq_none {i : Nat} :
    firstOverlap.go i firsts = none ↔
      firsts.Pairwise fun f f' => ∀ l ∈ f.tokens, l ∉ f'.tokens := by
  induction firsts generalizing i with
  | nil => exact ⟨fun _ => .nil, fun _ => rfl⟩
  | cons f firsts ih =>
    rw [List.pairwise_cons, ← against_eq_none (j := i + 1)]
    unfold firstOverlap.go
    cases against f (i + 1) firsts with
    | some pair => simp
    | none => exact ih.trans (and_iff_right rfl).symm

/-- At most one FIRST set is nullable if no two are. -/
theorem length_nullable_le_one :
    (firsts.filter FirstSet.nullable).length ≤ 1 ↔
      firsts.Pairwise fun f f' => ¬(f.nullable = true ∧ f'.nullable = true) := by
  induction firsts with
  | nil => exact ⟨fun _ => .nil, fun _ => Nat.zero_le 1⟩
  | cons f firsts ih =>
    rw [List.pairwise_cons, ← ih]
    cases hf : f.nullable with
    | false =>
      rw [List.filter_cons_of_neg (by rw [hf]; nofun)]
      exact ⟨fun h => ⟨fun _ _ => nofun, h⟩, fun h => h.2⟩
    | true =>
      -- then none of the others is
      have hnone : (firsts.filter FirstSet.nullable).length = 0 ↔
          ∀ f' ∈ firsts, ¬(true = true ∧ f'.nullable = true) := by
        rw [List.length_eq_zero_iff, List.filter_eq_nil_iff]
        simp
      rw [List.filter_cons_of_pos hf, List.length_cons, ← hnone]
      omega

end

namespace Grammar

variable {g g' : Grammar V} {p p' q : Parser V} {rule name : String} {key : TokenType}
  {alternatives : List (Parser V)} {n : Nat} {visited : List String}

/-- The check of a choice accepts alternatives that their FIRST sets tell apart. -/
theorem checkChoice_eq_ok_iff :
    g.checkChoice rule alternatives = .ok () ↔
      ∃ firsts, alternatives.mapM g.first = .ok firsts ∧ FirstSet.TellApart firsts := by
  unfold checkChoice
  cases hfirsts : alternatives.mapM g.first with
  | error e => exact ⟨nofun, nofun⟩
  | ok firsts =>
    rw [ok_bind]
    have hempty : ¬1 < (firsts.filter FirstSet.nullable).length ↔ _ :=
      Nat.not_lt.trans length_nullable_le_one
    have hdisjoint : firstOverlap firsts = none ↔ _ := firstOverlap.go_eq_none
    by_cases hmany : 1 < (firsts.filter FirstSet.nullable).length
    · rw [if_pos hmany]
      refine ⟨nofun, ?_⟩
      rintro ⟨_, ⟨⟩, hapart⟩
      exact absurd hmany (hempty.2 hapart.empty)
    · rw [if_neg hmany]
      cases hoverlap : firstOverlap firsts with
      | some overlap =>
        refine ⟨nofun, ?_⟩
        rintro ⟨_, ⟨⟩, hapart⟩
        rw [hdisjoint.2 hapart.disjoint] at hoverlap
        cases hoverlap
      | none => exact ⟨fun _ => ⟨firsts, rfl, hdisjoint.1 hoverlap, hempty.1 hmany⟩, fun _ => rfl⟩

/-- The check of an embedded parser accepts one that can begin with the type. -/
theorem checkEmbedded_eq_ok_iff :
    g.checkEmbedded rule key p = .ok () ↔ ∃ f, g.first p = .ok f ∧ .token key ∈ f.tokens := by
  unfold checkEmbedded
  cases hf : g.first p with
  | error e => exact ⟨nofun, nofun⟩
  | ok f =>
    rw [ok_bind]
    have hcontains : f.contains (.token key) = true ↔ .token key ∈ f.tokens :=
      List.contains_iff_mem
    constructor
    · intro h
      split at h
      · next hmem => exact ⟨f, rfl, hcontains.1 hmem⟩
      · cases h
    · rintro ⟨_, ⟨⟩, hmem⟩
      rw [if_pos (hcontains.2 hmem)]
      rfl

/-! ## Validity -/

/-- What validity demands of a single combinator: FIRST sets that tell the alternatives of a choice
apart, embedded parsers that can begin with the type they are registered under, and rules that are
registered and not left-recursive. -/
def Sound (g : Grammar V) : Parser V → Prop
  | .choice _ alternatives =>
    ∃ firsts, List.Forall₂ g.HasFirst alternatives firsts ∧ FirstSet.TellApart firsts
  | .expr o => ∀ key p, (key, Role.embed p) ∈ o.roles →
    ∃ f, g.HasFirst p f ∧ .token key ∈ f.tokens
  | .ref name => (∃ p, g.rule? name = some p) ∧ ∃ f, g.HasFirst (.ref name) f
  | _ => True

/-- The grammar has an entry, and everything that the entry reaches is sound. -/
def Valid (g : Grammar V) : Prop :=
  ∃ entry, g.entry? = some entry ∧ ∀ q, g.Reaches entry q → g.Sound q

theorem mapM_first_eq_ok_iff {firsts : List FirstSet} :
    alternatives.mapM g.first = .ok firsts ↔ List.Forall₂ g.HasFirst alternatives firsts := by
  constructor
  · intro h
    induction alternatives generalizing firsts with
    | nil => cases h; exact .nil
    | cons p alternatives ih =>
      obtain ⟨f, firsts', hf, hfirsts, rfl⟩ := mapM_cons_eq_ok h
      exact .cons (first_eq_ok_iff.1 hf) (ih hfirsts)
  · intro h
    induction h with
    | nil => rfl
    | cons hf _ ih => exact mapM_cons_of_ok (first_eq_ok_iff.2 hf) ih

/-- What is sound is what passes the checks. -/
theorem sound_iff_checked : g.Sound p ↔ g.Checked p := by
  cases p with
  | choice slot alternatives =>
    constructor
    · rintro ⟨firsts, hfirsts, hapart⟩
      exact ⟨"", checkChoice_eq_ok_iff.2 ⟨firsts, mapM_first_eq_ok_iff.2 hfirsts, hapart⟩⟩
    · rintro ⟨rule, hcheck⟩
      obtain ⟨firsts, hfirsts, hapart⟩ := checkChoice_eq_ok_iff.1 hcheck
      exact ⟨firsts, mapM_first_eq_ok_iff.1 hfirsts, hapart⟩
  | expr o =>
    constructor
    · intro h key p hp
      obtain ⟨f, hf, hmem⟩ := h key p hp
      exact ⟨"", checkEmbedded_eq_ok_iff.2 ⟨f, first_eq_ok_iff.2 hf, hmem⟩⟩
    · intro h key p hp
      obtain ⟨rule, hcheck⟩ := h key p hp
      obtain ⟨f, hf, hmem⟩ := checkEmbedded_eq_ok_iff.1 hcheck
      exact ⟨f, first_eq_ok_iff.1 hf, hmem⟩
  | ref name =>
    constructor
    · rintro ⟨-, f, hf⟩
      exact ⟨f, ruleFirst_eq_ok_iff.2 hf⟩
    · rintro ⟨f, hf⟩
      have hfirst := ruleFirst_eq_ok_iff.1 hf
      exact ⟨hfirst.registered, f, hfirst⟩
  | token | endOfInput | tuple | many | embed => exact Iff.rfl

/-! ## Visits that find no error -/

section

variable {follow : String → List String → Except GrammarError (List String)} {p₀ : Parser V}

/-- Whatever `p₀` reaches has been checked, and following its references finds no error. -/
structure Followed (g : Grammar V) (p₀ : Parser V)
    (follow : String → List String → Except GrammarError (List String)) : Prop where
  checked : ∀ q, g.Reaches p₀ q → g.Checked q
  follows : ∀ name visited, g.Reaches p₀ (.ref name) → ∃ visited', follow name visited = .ok visited'

mutual

/-- A visit of what has been checked finds no error. -/
theorem visit_of_checked (h : g.Followed p₀ follow) (p : Parser V) (hp : g.Reaches p₀ p)
    (visited : List String) : ∃ visited', p.visit g follow rule visited = .ok visited' := by
  cases p with
  | token | endOfInput => exact ⟨visited, rfl⟩
  | tuple members action =>
    exact visitMembers_of_checked h members (fun m hm => hp.child (.member hm)) visited
  | choice slot alternatives =>
    obtain ⟨rule', hcheck⟩ := h.checked _ hp
    have hcheck' : g.checkChoice rule alternatives = .ok () :=
      checkChoice_eq_ok_iff.2 (checkChoice_eq_ok_iff.1 hcheck)
    exact exists_bind_ok hcheck'
      (visitAlternatives_of_checked h alternatives (fun q hq => hp.child (.alternative hq)) visited)
  | many body minimum => exact visit_of_checked h body (hp.child .repeated) visited
  | embed body => exact visit_of_checked h body (hp.child .embedded) visited
  | expr o =>
    obtain ⟨roles, skip⟩ := o
    refine visitRoles_of_checked h roles (fun key q hq => ⟨?_, hp.child (.role hq)⟩) visited
    obtain ⟨rule', hcheck⟩ := h.checked _ hp key q hq
    exact checkEmbedded_eq_ok_iff.2 (checkEmbedded_eq_ok_iff.1 hcheck)
  | ref name => exact h.follows name visited hp

theorem visitMembers_of_checked (h : g.Followed p₀ follow) (members : List (Member (Parser V)))
    (hmembers : ∀ m ∈ members, g.Reaches p₀ m.parser) (visited : List String) :
    ∃ visited', Parser.visitMembers g follow rule members visited = .ok visited' := by
  cases members with
  | nil => exact ⟨visited, rfl⟩
  | cons m members =>
    obtain ⟨visited₁, h₁⟩ := visit_of_checked h m.parser (hmembers m (.head _)) visited
    exact exists_bind_ok h₁
      (visitMembers_of_checked h members (fun m' hm' => hmembers m' (.tail _ hm')) visited₁)

theorem visitAlternatives_of_checked (h : g.Followed p₀ follow) (alternatives : List (Parser V))
    (halternatives : ∀ q ∈ alternatives, g.Reaches p₀ q) (visited : List String) :
    ∃ visited', Parser.visitAlternatives g follow rule alternatives visited = .ok visited' := by
  cases alternatives with
  | nil => exact ⟨visited, rfl⟩
  | cons p alternatives =>
    obtain ⟨visited₁, h₁⟩ := visit_of_checked h p (halternatives p (.head _)) visited
    exact exists_bind_ok h₁ (visitAlternatives_of_checked h alternatives
      (fun q hq => halternatives q (.tail _ hq)) visited₁)

theorem visitRoles_of_checked (h : g.Followed p₀ follow)
    (roles : List (TokenType × Role V (Parser V)))
    (hroles : ∀ key p, (key, Role.embed p) ∈ roles →
      g.checkEmbedded rule key p = .ok () ∧ g.Reaches p₀ p) (visited : List String) :
    ∃ visited', Parser.visitRoles g follow rule roles visited = .ok visited' := by
  cases roles with
  | nil => exact ⟨visited, rfl⟩
  | cons entry roles =>
    obtain ⟨key, role⟩ := entry
    have hrest (visited : List String) :=
      visitRoles_of_checked h roles (fun key' q hq => hroles key' q (.tail _ hq)) visited
    cases role with
    | embed p =>
      obtain ⟨hcheck, hp⟩ := hroles key p (.head _)
      obtain ⟨visited₁, h₁⟩ := visit_of_checked h p hp visited
      exact exists_bind_ok hcheck (exists_bind_ok h₁ (hrest visited₁))
    | atom | prefixOp | infixOp | mixfix | bracket => exact hrest visited

end

/-- Following a reference finds no error, if whatever is reached has been checked. -/
theorem visitRule_of_checked (hchecked : ∀ q, g.Reaches p₀ q → g.Checked q) (n : Nat) :
    g.Followed p₀ (g.visitRule n) := by
  induction n with
  | zero => exact ⟨hchecked, fun name visited _ => ⟨visited, rfl⟩⟩
  | succ n ih =>
    refine ⟨hchecked, fun name visited hname => ?_⟩
    unfold visitRule
    split
    · exact ⟨visited, rfl⟩
    · obtain ⟨f, hf⟩ := hchecked _ hname
      obtain ⟨-, p, -, -, hp, -⟩ := firstOfRule_eq_ok hf
      refine exists_bind_ok hf ?_
      rw [hp]
      exact visit_of_checked ih p (hname.rule hp) _

/-- Validation decides validity. -/
theorem validate_iff_valid : g.validate = .ok () ↔ g.Valid := by
  constructor
  · intro h
    obtain ⟨entry, hentry, hchecked⟩ := checked_of_validate h
    exact ⟨entry, hentry, fun q hq => sound_iff_checked.2 (hchecked q hq)⟩
  · rintro ⟨entry, hentry, hsound⟩
    have hfollowed : g.Followed entry (g.visitRule (g.rules.length + 1)) :=
      visitRule_of_checked (fun q hq => sound_iff_checked.1 (hsound q hq)) _
    have hvisit : ∃ visited, entry.visit g (g.visitRule (g.rules.length + 1)) "the entry" [] =
        .ok visited := visit_of_checked hfollowed entry .refl []
    obtain ⟨visited, hvisit⟩ := hvisit
    unfold validate
    unfold entry? at hentry
    cases hchosen : g.entry with
    | some chosen =>
      rw [hchosen] at hentry
      cases hentry
      show (entry.visit g _ _ [] >>= _) = _
      rw [hvisit]
      rfl
    | none =>
      rw [hchosen] at hentry
      obtain ⟨name, hname, rfl⟩ := Option.map_eq_some_iff.1 hentry
      rw [hname]
      change g.visitRule _ name [] = _ at hvisit
      show (g.visitRule _ name [] >>= _) = _
      rw [hvisit]
      rfl

end

/-! ## The bound -/

/-- `visitRule` with something else where the number runs out. -/
def visitRuleOr (g : Grammar V)
    (out : String → List String → Except GrammarError (List String)) :
    Nat → String → List String → Except GrammarError (List String)
  | 0, name, visited => out name visited
  | n + 1, name, visited =>
    if visited.contains name then .ok visited
    else do
      let _ ← g.ruleFirst name
      match g.rule? name with
      | none => throw (.unregisteredRule name)
      | some p => p.visit g (g.visitRuleOr out n) ("rule '" ++ name ++ "'") (name :: visited)

section

variable {follow follow' : String → List String → Except GrammarError (List String)}

/-- Two ways to follow references are the same where the number has not run out. -/
structure SameFollow (g : Grammar V) (n : Nat)
    (follow follow' : String → List String → Except GrammarError (List String)) : Prop where
  follows : g.Follows n follow
  same : ∀ name visited, g.Bounded n visited → follow' name visited = follow name visited

mutual

/-- A visit depends on how references are followed only where the number has not run out. -/
theorem visit_congr (h : g.SameFollow n follow follow') (p : Parser V) {visited : List String}
    (hb : g.Bounded n visited) :
    p.visit g follow' rule visited = p.visit g follow rule visited := by
  cases p with
  | token | endOfInput => rfl
  | tuple members action => exact visitMembers_congr h members hb
  | choice slot alternatives =>
    exact congrArg (g.checkChoice rule alternatives >>= ·)
      (funext fun _ => visitAlternatives_congr h alternatives hb)
  | many body minimum => exact visit_congr h body hb
  | embed body => exact visit_congr h body hb
  | expr o => exact visitRoles_congr h o.roles hb
  | ref name => exact h.same name visited hb

theorem visitMembers_congr (h : g.SameFollow n follow follow') (members : List (Member (Parser V)))
    {visited : List String} (hb : g.Bounded n visited) :
    Parser.visitMembers g follow' rule members visited =
      Parser.visitMembers g follow rule members visited := by
  cases members with
  | nil => rfl
  | cons m members =>
    show (m.parser.visit g follow' rule visited >>= _) = (m.parser.visit g follow rule visited >>= _)
    rw [visit_congr h m.parser hb]
    cases hvisit : m.parser.visit g follow rule visited with
    | error e => rfl
    | ok visited₁ =>
      exact visitMembers_congr h members (visit_seen h.follows m.parser hb hvisit).1.bounded

theorem visitAlternatives_congr (h : g.SameFollow n follow follow') (alternatives : List (Parser V))
    {visited : List String} (hb : g.Bounded n visited) :
    Parser.visitAlternatives g follow' rule alternatives visited =
      Parser.visitAlternatives g follow rule alternatives visited := by
  cases alternatives with
  | nil => rfl
  | cons p alternatives =>
    show (p.visit g follow' rule visited >>= _) = (p.visit g follow rule visited >>= _)
    rw [visit_congr h p hb]
    cases hvisit : p.visit g follow rule visited with
    | error e => rfl
    | ok visited₁ =>
      exact visitAlternatives_congr h alternatives (visit_seen h.follows p hb hvisit).1.bounded

theorem visitRoles_congr (h : g.SameFollow n follow follow')
    (roles : List (TokenType × Role V (Parser V))) {visited : List String}
    (hb : g.Bounded n visited) :
    Parser.visitRoles g follow' rule roles visited =
      Parser.visitRoles g follow rule roles visited := by
  cases roles with
  | nil => rfl
  | cons entry roles =>
    obtain ⟨key, role⟩ := entry
    cases role with
    | embed p =>
      show (g.checkEmbedded rule key p >>= fun _ => p.visit g follow' rule visited >>= _) =
        (g.checkEmbedded rule key p >>= fun _ => p.visit g follow rule visited >>= _)
      rw [visit_congr h p hb]
      cases g.checkEmbedded rule key p with
      | error e => rfl
      | ok =>
        cases hvisit : p.visit g follow rule visited with
        | error e => rfl
        | ok visited₁ =>
          exact visitRoles_congr h roles (visit_seen h.follows p hb hvisit).1.bounded
    | atom | prefixOp | infixOp | mixfix | bracket => exact visitRoles_congr h roles hb

end

/-- The number does not run out: it is of no importance what would be answered there. -/
theorem visitRuleOr_same (out : String → List String → Except GrammarError (List String)) (n : Nat) :
    g.SameFollow n (g.visitRule n) (g.visitRuleOr out n) := by
  refine ⟨visitRule_visits, ?_⟩
  induction n with
  | zero => exact fun _ _ hb => absurd hb.pos (Nat.lt_irrefl 0)
  | succ n ih =>
    intro name visited hb
    unfold visitRuleOr visitRule
    split
    · rfl
    · next hname =>
      cases hp : g.rule? name with
      | none => rfl
      | some p =>
        have hb' : g.Bounded n (name :: visited) := hb.cons (by simpa using hname) hp
        exact congrArg (g.ruleFirst name >>= ·) (funext fun _ => visit_congr ⟨visitRule_visits, ih⟩ p hb')

end

/-! ## The order of tables -/

theorem HasFirst.reorders {f : FirstSet} (h : Parser.Reorders p p') (hf : g.HasFirst p f) :
    g.HasFirst p' f := by
  obtain ⟨n, hf⟩ := hf
  exact ⟨n, h.first hf⟩

theorem forall₂_hasFirst_congr (hp : ∀ f, g.HasFirst p f → g.HasFirst p' f)
    {before after : List (Parser V)} {firsts : List FirstSet}
    (h : List.Forall₂ g.HasFirst (before ++ p :: after) firsts) :
    List.Forall₂ g.HasFirst (before ++ p' :: after) firsts := by
  induction before generalizing firsts with
  | nil =>
    cases h with
    | cons hf hrest => exact .cons (hp _ hf) hrest
  | cons q before ih =>
    cases h with
    | cons hf hrest => exact .cons hf (ih hrest)

theorem Sound.reorders (h : Parser.Reorders p p') (hp : g.Sound p) : g.Sound p' := by
  cases h with
  | roles perm => exact fun key q hq => hp key q (perm.mem_iff.2 hq)
  | member | repeated | embedded => trivial
  | alternative h =>
    obtain ⟨firsts, hfirsts, hapart⟩ := hp
    exact ⟨firsts, forall₂_hasFirst_congr (fun _ => .reorders h) hfirsts, hapart⟩
  | @role before after key q q' skip h =>
    intro key' r hr
    rcases Parser.mem_roles_of_role hr with ⟨rfl, rfl⟩ | hr
    · obtain ⟨f, hf, hmem⟩ := hp key' q (List.mem_append_right _ (.head _))
      exact ⟨f, hf.reorders h, hmem⟩
    · exact hp key' r hr

/-- What is sound stays sound if tables are listed in another order. -/
theorem Sound.reordered (hg : g.Reordered g') (h : Parser.Reordered p p') (hp : g.Sound p) :
    g'.Sound p' := by
  have hp' : g.Sound p' := by
    induction h with
    | refl => exact hp
    | tail _ step ih => exact ih.reorders step
  cases p' with
  | choice slot alternatives =>
    obtain ⟨firsts, hfirsts, hapart⟩ := hp'
    exact ⟨firsts, hfirsts.imp fun _ _ => hg.hasFirst .refl, hapart⟩
  | expr o =>
    intro key q hq
    obtain ⟨f, hf, hmem⟩ := hp' key q hq
    exact ⟨f, hg.hasFirst .refl hf, hmem⟩
  | ref name =>
    obtain ⟨⟨r, hr⟩, f, hf⟩ := hp'
    obtain ⟨r', hr', -⟩ := hg.rule? hr
    exact ⟨⟨r', hr'⟩, f, hg.hasFirst .refl hf⟩
  | token | endOfInput | tuple | many | embed => trivial

/-- A grammar stays valid if tables are listed in another order. -/
theorem Valid.reordered (hg : g.Reordered g') (h : g.Valid) : g'.Valid := by
  obtain ⟨entry, hentry, hsound⟩ := h
  obtain ⟨entry', hentry', hreordered⟩ := hg.entry? hentry
  refine ⟨entry', hentry', fun q' hq' => ?_⟩
  obtain ⟨q, hq, hqq'⟩ := hg.symm.reaches hreordered.symm hq'
  exact (hsound q hq).reordered hg hqq'.symm

/-- Validation decides validity. The numbers that bound its two recursions never run out, so that it
does not matter what would be answered there; it succeeds if and only if the grammar is valid; and
its verdict does not depend on the order of operator tables. -/
theorem validate_decides (g : Grammar V) :
    ((∀ out name, g.firstOfRuleOr out (g.rules.length + 1) [] name = g.ruleFirst name) ∧
      ∀ out rule (p : Parser V), p.visit g (g.visitRuleOr out (g.rules.length + 1)) rule [] =
        p.visit g (g.visitRule (g.rules.length + 1)) rule []) ∧
    (g.validate = .ok () ↔ g.Valid) ∧
    ∀ g', g.Reordered g' → (g'.validate = .ok () ↔ g.validate = .ok ()) := by
  refine ⟨⟨fun out name => firstOfRuleOr_eq out (.start g) name, fun out rule p => ?_⟩,
    validate_iff_valid, fun g' hg => ?_⟩
  · exact visit_congr (visitRuleOr_same out _) p (.start g)
  · rw [validate_iff_valid, validate_iff_valid]
    exact ⟨.reordered hg.symm, .reordered hg⟩

end Grammar

end PredictiveParsing
