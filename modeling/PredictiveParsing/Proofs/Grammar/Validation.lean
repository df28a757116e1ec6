import PredictiveParsing.Grammar.Validation
import PredictiveParsing.Proofs.Grammar.FirstSets
import PredictiveParsing.Proofs.Grammar.Reaching

/-!
# What validation checks

A validated grammar has been checked wherever a run can get to: everything that its entry reaches is
`Grammar.Checked` (`Grammar.checked_of_validate`).

The validator visits a rule only once, so in the middle of a visit there are rules that count as
visited although not all of their parts have been seen. `Grammar.Visits` is what one step of the
validator does: the rules that it adds are registered and have been seen as a whole, up to
references to visited rules. In the end the visited rules are closed under references. The number
that bounds the visits never runs out, because the visited rules are different rules of the grammar.
-/

namespace PredictiveParsing

variable {V : Type}

namespace Grammar

/-- What is checked of a single combinator. -/
def Checked (g : Grammar V) : Parser V → Prop
  | .choice _ alternatives => ∃ rule, g.checkChoice rule alternatives = .ok ()
  | .expr o =>
    ∀ key p, (key, Role.embed p) ∈ o.roles → ∃ rule, g.checkEmbedded rule key p = .ok ()
  | .ref name => ∃ f, g.ruleFirst name = .ok f
  | _ => True

/-- The combinators of the parser have been checked, and the rules that it refers to are among the
visited ones. -/
inductive Seen (g : Grammar V) (visited : List String) : Parser V → Prop
  | mk {p : Parser V} (checked : (∀ name, p ≠ .ref name) → g.Checked p)
      (named : ∀ name, p = .ref name → name ∈ visited)
      (parts : ∀ q, Parser.Child q p → Seen g visited q) : Seen g visited p

/-- The rule of the name is registered, has a FIRST set, and has been seen. -/
def Done (g : Grammar V) (visited : List String) (name : String) : Prop :=
  (∃ f, g.ruleFirst name = .ok f) ∧ ∃ p, g.rule? name = some p ∧ g.Seen visited p

/-- The visited rules are different rules of the grammar, and the number is larger than that of the
others. -/
structure Bounded (g : Grammar V) (n : Nat) (visited : List String) : Prop where
  nodup : visited.Nodup
  registered : ∀ name ∈ visited, name ∈ g.names
  enough : g.rules.length + 1 ≤ n + visited.length

/-- From the rules visited before to those visited after: the new ones are done. -/
structure Visits (g : Grammar V) (n : Nat) (visited visited' : List String) : Prop where
  bounded : g.Bounded n visited'
  kept : ∀ name ∈ visited, name ∈ visited'
  done : ∀ name ∈ visited', name ∈ visited ∨ g.Done visited' name

variable {g : Grammar V} {n : Nat} {visited visited' visited'' : List String} {p : Parser V}
  {name rule : String}

theorem Seen.mono (hv : ∀ name ∈ visited, name ∈ visited') (h : g.Seen visited p) :
    g.Seen visited' p := by
  induction h with
  | mk checked named _ ih => exact ⟨checked, fun name hp => hv name (named name hp), ih⟩

theorem Done.mono (hv : ∀ name ∈ visited, name ∈ visited') (h : g.Done visited name) :
    g.Done visited' name := by
  obtain ⟨hf, p, hp, hseen⟩ := h
  exact ⟨hf, p, hp, hseen.mono hv⟩

theorem Visits.refl (h : g.Bounded n visited) : g.Visits n visited visited :=
  ⟨h, fun _ hn => hn, fun _ hn => .inl hn⟩

theorem Visits.trans (h : g.Visits n visited visited') (h' : g.Visits n visited' visited'') :
    g.Visits n visited visited'' := by
  refine ⟨h'.bounded, fun name hn => h'.kept name (h.kept name hn), fun name hn => ?_⟩
  rcases h'.done name hn with hn' | hd
  · rcases h.done name hn' with hn | hd
    · exact .inl hn
    · exact .inr (hd.mono h'.kept)
  · exact .inr hd

/-- There are no more visited rules than rules. -/
theorem Bounded.length_le (h : g.Bounded n visited) : visited.length ≤ g.rules.length := by
  have := h.nodup.length_le_of_subset h.registered
  rwa [names, List.length_map] at this

/-- A rule has one of the names of the grammar. -/
theorem mem_names_of_rule? (h : g.rule? name = some p) : name ∈ g.names := by
  obtain ⟨before, after, hrules, -⟩ := List.lookup_eq_some_iff.1 h
  rw [names, hrules]
  simp

/-- At the start nothing has been visited. -/
theorem Bounded.start (g : Grammar V) : g.Bounded (g.rules.length + 1) [] :=
  ⟨List.nodup_nil, fun _ hn => absurd hn List.not_mem_nil, Nat.le_refl _⟩

/-- The number has not run out. -/
theorem Bounded.pos (h : g.Bounded n visited) : 0 < n := by
  have hle := h.length_le
  have henough := h.enough
  omega

/-- With one visited rule more, one less is enough. -/
theorem Bounded.cons (h : g.Bounded (n + 1) visited) (hname : name ∉ visited)
    (hrule : g.rule? name = some p) : g.Bounded n (name :: visited) := by
  refine ⟨List.nodup_cons.2 ⟨hname, h.nodup⟩, fun name' hname' => ?_, ?_⟩
  · rcases List.mem_cons.1 hname' with rfl | hname'
    · exact mem_names_of_rule? hrule
    · exact h.registered name' hname'
  · have := h.enough
    rw [List.length_cons]
    omega

/-! ## Visiting a parser -/

section

variable {follow : String → List String → Except GrammarError (List String)}

/-- Following a reference visits its rule. -/
def Follows (g : Grammar V) (n : Nat)
    (follow : String → List String → Except GrammarError (List String)) : Prop :=
  ∀ {name visited visited'}, g.Bounded n visited → follow name visited = .ok visited' →
    g.Visits n visited visited' ∧ name ∈ visited'

mutual

/-- A visit sees the parser. -/
theorem visit_seen (hfollow : g.Follows n follow) (p : Parser V) {visited visited' : List String}
    (hb : g.Bounded n visited) (h : p.visit g follow rule visited = .ok visited') :
    g.Visits n visited visited' ∧ g.Seen visited' p := by
  cases p with
  | token | endOfInput =>
    cases h
    exact ⟨.refl hb, fun _ => trivial, nofun, nofun⟩
  | tuple members action =>
    obtain ⟨hvisits, hparts⟩ := visitMembers_seen hfollow members hb h
    refine ⟨hvisits, fun _ => trivial, nofun, ?_⟩
    rintro _ ⟨⟩
    exact hparts _ ‹_›
  | choice slot alternatives =>
    obtain ⟨⟨⟩, hcheck, h⟩ := bind_eq_ok h
    obtain ⟨hvisits, hparts⟩ := visitAlternatives_seen hfollow alternatives hb h
    refine ⟨hvisits, fun _ => ⟨rule, hcheck⟩, nofun, ?_⟩
    rintro _ ⟨⟩
    exact hparts _ ‹_›
  | many body minimum =>
    obtain ⟨hvisits, hseen⟩ := visit_seen hfollow body hb h
    refine ⟨hvisits, fun _ => trivial, nofun, ?_⟩
    rintro _ ⟨⟩
    exact hseen
  | embed body =>
    obtain ⟨hvisits, hseen⟩ := visit_seen hfollow body hb h
    refine ⟨hvisits, fun _ => trivial, nofun, ?_⟩
    rintro _ ⟨⟩
    exact hseen
  | expr o =>
    obtain ⟨roles, skip⟩ := o
    obtain ⟨hvisits, hroles⟩ := visitRoles_seen hfollow roles hb h
    refine ⟨hvisits, fun _ key q hq => (hroles key q hq).1, nofun, ?_⟩
    rintro _ ⟨⟩
    exact (hroles _ _ ‹_›).2
  | ref name =>
    obtain ⟨hvisits, hmem⟩ := hfollow hb h
    refine ⟨hvisits, fun hp => absurd rfl (hp name), ?_, nofun⟩
    rintro _ ⟨⟩
    exact hmem

theorem visitMembers_seen (hfollow : g.Follows n follow) (members : List (Member (Parser V)))
    {visited visited' : List String} (hb : g.Bounded n visited)
    (h : Parser.visitMembers g follow rule members visited = .ok visited') :
    g.Visits n visited visited' ∧ ∀ m ∈ members, g.Seen visited' m.parser := by
  cases members with
  | nil =>
    cases h
    exact ⟨.refl hb, nofun⟩
  | cons m members =>
    obtain ⟨mark, p⟩ := m
    obtain ⟨visited₁, h₁, h⟩ := bind_eq_ok h
    obtain ⟨hvisits, hseen⟩ := visit_seen hfollow p hb h₁
    obtain ⟨hvisits', hrest⟩ := visitMembers_seen hfollow members hvisits.bounded h
    refine ⟨hvisits.trans hvisits', fun m hm => ?_⟩
    rcases List.mem_cons.1 hm with rfl | hm
    · exact hseen.mono hvisits'.kept
    · exact hrest m hm

theorem visitAlternatives_seen (hfollow : g.Follows n follow) (alternatives : List (Parser V))
    {visited visited' : List String} (hb : g.Bounded n visited)
    (h : Parser.visitAlternatives g follow rule alternatives visited = .ok visited') :
    g.Visits n visited visited' ∧ ∀ p ∈ alternatives, g.Seen visited' p := by
  cases alternatives with
  | nil =>
    cases h
    exact ⟨.refl hb, nofun⟩
  | cons p alternatives =>
    obtain ⟨visited₁, h₁, h⟩ := bind_eq_ok h
    obtain ⟨hvisits, hseen⟩ := visit_seen hfollow p hb h₁
    obtain ⟨hvisits', hrest⟩ := visitAlternatives_seen hfollow alternatives hvisits.bounded h
    refine ⟨hvisits.trans hvisits', fun q hq => ?_⟩
    rcases List.mem_cons.1 hq with rfl | hq
    · exact hseen.mono hvisits'.kept
    · exact hrest q hq

theorem visitRoles_seen (hfollow : g.Follows n follow)
    (roles : List (TokenType × Role V (Parser V))) {visited visited' : List String}
    (hb : g.Bounded n visited) (h : Parser.visitRoles g follow rule roles visited = .ok visited') :
    g.Visits n visited visited' ∧ ∀ key p, (key, Role.embed p) ∈ roles →
      (∃ rule, g.checkEmbedded rule key p = .ok ()) ∧ g.Seen visited' p := by
  cases roles with
  | nil =>
    cases h
    exact ⟨.refl hb, nofun⟩
  | cons entry roles =>
    obtain ⟨key, role⟩ := entry
    have others (hrole : ∀ p, role ≠ .embed p)
        (h : Parser.visitRoles g follow rule roles visited = .ok visited') :
        g.Visits n visited visited' ∧ ∀ key' p, (key', Role.embed p) ∈ (key, role) :: roles →
          (∃ rule, g.checkEmbedded rule key' p = .ok ()) ∧ g.Seen visited' p := by
      obtain ⟨hvisits, hrest⟩ := visitRoles_seen hfollow roles hb h
      refine ⟨hvisits, fun key' p hp => ?_⟩
      rcases List.mem_cons.1 hp with hp | hp
      · cases hp
        exact absurd rfl (hrole p)
      · exact hrest key' p hp
    cases role with
    | embed p =>
      obtain ⟨⟨⟩, hcheck, h⟩ := bind_eq_ok h
      obtain ⟨visited₁, h₁, h⟩ := bind_eq_ok h
      obtain ⟨hvisits, hseen⟩ := visit_seen hfollow p hb h₁
      obtain ⟨hvisits', hrest⟩ := visitRoles_seen hfollow roles hvisits.bounded h
      refine ⟨hvisits.trans hvisits', fun key' q hq => ?_⟩
      rcases List.mem_cons.1 hq with hq | hq
      · cases hq
        exact ⟨⟨rule, hcheck⟩, hseen.mono hvisits'.kept⟩
      · exact hrest key' q hq
    | atom | prefixOp | infixOp | mixfix | bracket => exact others nofun h

end

end

/-! ## Visiting rules -/

/-- Visiting a rule and what it refers to leaves the rule visited. -/
theorem visitRule_visits (hb : g.Bounded n visited)
    (h : g.visitRule n name visited = .ok visited') :
    g.Visits n visited visited' ∧ name ∈ visited' := by
  induction n generalizing name visited visited' with
  | zero => exact absurd hb.pos (Nat.lt_irrefl 0)
  | succ n ih =>
    unfold visitRule at h
    split at h
    · next hvisited =>
      cases h
      exact ⟨.refl hb, by simpa using hvisited⟩
    · next hvisited =>
      obtain ⟨f, hf, h⟩ := bind_eq_ok h
      split at h
      · cases h
      · next p hp =>
        have hnew : name ∉ visited := by simpa using hvisited
        have hb' : g.Bounded n (name :: visited) := hb.cons hnew hp
        obtain ⟨hvisits, hseen⟩ := visit_seen ih p hb' h
        have hmem : name ∈ visited' := hvisits.kept name (.head _)
        have hbounded := hvisits.bounded
        refine ⟨⟨⟨hbounded.nodup, hbounded.registered, ?_⟩, ?_, fun name' hname' => ?_⟩, hmem⟩
        · have := hbounded.enough
          omega
        · exact fun name' hname' => hvisits.kept name' (.tail _ hname')
        · rcases hvisits.done name' hname' with hold | hdone
          · rcases List.mem_cons.1 hold with rfl | hold
            · exact .inr ⟨⟨f, hf⟩, p, hp, hseen⟩
            · exact .inl hold
          · exact .inr hdone

/-- What is reached from a parser that has been seen has been seen, if all visited rules have. -/
theorem Seen.reaches (hdone : ∀ name ∈ visited, g.Done visited name) (hp : g.Seen visited p)
    {q : Parser V} (hq : g.Reaches p q) : g.Seen visited q := by
  induction hq with
  | refl => exact hp
  | child _ part ih =>
    cases ih with
    | mk _ _ parts => exact parts _ part
  | rule _ registered ih =>
    cases ih with
    | mk _ named _ =>
      obtain ⟨-, q, hq, hseen⟩ := hdone _ (named _ rfl)
      rw [registered] at hq
      cases hq
      exact hseen

/-- What has been seen has been checked, if all visited rules are done. -/
theorem Seen.checked (hdone : ∀ name ∈ visited, g.Done visited name) (hp : g.Seen visited p) :
    g.Checked p := by
  cases hp with
  | mk checked named _ =>
    cases p with
    | ref name => exact (hdone name (named name rfl)).1
    | token | endOfInput | tuple | choice | many | embed | expr => exact checked nofun

/-- A valid grammar has an entry, and everything that the entry reaches has been checked. -/
theorem checked_of_validate (h : g.validate = .ok ()) :
    ∃ entry, g.entry? = some entry ∧ ∀ p, g.Reaches entry p → g.Checked p := by
  have hbounded : g.Bounded (g.rules.length + 1) [] := .start g
  have hseen : ∃ entry visited, g.entry? = some entry ∧ g.Seen visited entry ∧
      g.Visits (g.rules.length + 1) [] visited := by
    unfold validate at h
    cases hentry : g.entry with
    | some entry =>
      rw [hentry] at h
      obtain ⟨visited, hvisit, -⟩ := bind_eq_ok h
      obtain ⟨hvisits, hseen⟩ := visit_seen visitRule_visits entry hbounded hvisit
      refine ⟨entry, visited, ?_, hseen, hvisits⟩
      unfold entry?
      rw [hentry]
    | none =>
      cases hname : g.names.head? with
      | none => rw [hentry, hname] at h; cases h
      | some name =>
        rw [hentry, hname] at h
        obtain ⟨visited, hvisit, -⟩ := bind_eq_ok h
        obtain ⟨hvisits, hmem⟩ := visitRule_visits hbounded hvisit
        refine ⟨.ref name, visited, ?_, ⟨fun hp => absurd rfl (hp name), ?_, nofun⟩, hvisits⟩
        · unfold entry?
          rw [hentry, hname]
          rfl
        · rintro _ ⟨⟩
          exact hmem
  obtain ⟨entry, visited, hentry, hseen, hvisits⟩ := hseen
  have hdone : ∀ name ∈ visited, g.Done visited name := fun name hname =>
    (hvisits.done name hname).resolve_left List.not_mem_nil
  exact ⟨entry, hentry, fun p hp => (hseen.reaches hdone hp).checked hdone⟩

end Grammar

end PredictiveParsing
