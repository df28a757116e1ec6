import PredictiveParsing.Proofs.Grammar.LeastFirst

/-!
# When FIRST sets exist

The left corners of a parser are those that it can begin with: `Grammar.LeftCorner`. Following them
from a parser and through references, the computation of its FIRST set fails if it comes to a name
without a rule or to a rule that is its own left corner, and names the culprit
(`Grammar.first_eq_error`). Conversely the computation comes to all left corners before it succeeds,
and spends an unfolding on each reference, so that no rule has a FIRST set that is its own left
corner (`Grammar.not_resolves_of_cycle`).

`Grammar.first_decides` puts this together with the least solution of the textbook's equations.
-/

namespace PredictiveParsing

open Relation

variable {V : Type}

namespace Grammar

/-- The second parser can stand at the very beginning of the first, or is the rule behind it. -/
inductive LeftCorner (g : Grammar V) : Parser V → Parser V → Prop
  /-- The members up to the first one that is not nullable. -/
  | member {before after : List (Member (Parser V))} {m : Member (Parser V)}
      {action : Option (TupleAction V)} (nullable : ∀ m' ∈ before, (g.leastFirst m'.parser).2) :
      LeftCorner g (.tuple (before ++ m :: after) action) m.parser
  | alternative {slot : Nat} {alternatives : List (Parser V)} {p : Parser V}
      (mem : p ∈ alternatives) : LeftCorner g (.choice slot alternatives) p
  | repeated {body : Parser V} {minimum : Nat} : LeftCorner g (.many body minimum) body
  | embedded {body : Parser V} : LeftCorner g (.embed body) body
  | role {o : Operators V (Parser V)} {key : TokenType} {p : Parser V}
      (mem : (key, Role.embed p) ∈ o.roles) : LeftCorner g (.expr o) p
  | rule {name : String} {p : Parser V} (registered : g.rule? name = some p) :
      LeftCorner g (.ref name) p

/-- Reached through left corners. -/
abbrev BeginsWith (g : Grammar V) : Parser V → Parser V → Prop :=
  ReflTransGen g.LeftCorner

/-- Reached through left corners, by one at least. -/
abbrev BeginsInside (g : Grammar V) : Parser V → Parser V → Prop :=
  TransGen g.LeftCorner

end Grammar

/-! ## Where the computation fails -/

namespace Parser

variable {g : Grammar V} {rule : String → Except GrammarError FirstSet} {e : GrammarError}

mutual

/-- A parser without a FIRST set begins with a reference that has none either, and for the same
reason. -/
theorem first_eq_error
    (hrule : ∀ name f, rule name = .ok f → g.leastFirst (.ref name) = f.beginning) (p : Parser V)
    (h : p.first rule = .error e) :
    ∃ name, g.BeginsWith p (.ref name) ∧ rule name = .error e := by
  cases p with
  | token | endOfInput => cases h
  | tuple members =>
    obtain ⟨before, m, after, rfl, hbefore, name, hname, he⟩ :=
      membersFirst_eq_error hrule members h
    exact ⟨name, .head (.member hbefore) hname, he⟩
  | choice slot alternatives =>
    obtain ⟨p, hp, name, hname, he⟩ := alternativesFirst_eq_error hrule alternatives h
    exact ⟨name, .head (.alternative hp) hname, he⟩
  | many body minimum =>
    obtain hbody | ⟨f, -, h⟩ := bind_eq_error h
    · obtain ⟨name, hname, he⟩ := first_eq_error hrule body hbody
      exact ⟨name, .head .repeated hname, he⟩
    · cases h
  | embed body =>
    obtain ⟨name, hname, he⟩ := first_eq_error hrule body h
    exact ⟨name, .head .embedded hname, he⟩
  | expr o =>
    obtain ⟨roles, skip⟩ := o
    obtain hroles | ⟨_, -, h⟩ := bind_eq_error h
    · obtain ⟨key, p, hp, name, hname, he⟩ := rolesFirst_eq_error hrule roles hroles
      exact ⟨name, .head (.role hp) hname, he⟩
    · cases h
  | ref name => exact ⟨name, .refl, h⟩

theorem membersFirst_eq_error
    (hrule : ∀ name f, rule name = .ok f → g.leastFirst (.ref name) = f.beginning)
    (members : List (Member (Parser V))) (h : membersFirst rule members = .error e) :
    ∃ before m after, members = before ++ m :: after ∧
      (∀ m' ∈ before, (g.leastFirst m'.parser).2) ∧
      ∃ name, g.BeginsWith m.parser (.ref name) ∧ rule name = .error e := by
  cases members with
  | nil => cases h
  | cons m members =>
    obtain hm | ⟨f, hf, h⟩ := bind_eq_error h
    · exact ⟨[], m, members, rfl, List.forall_mem_nil _, first_eq_error hrule m.parser hm⟩
    · change (if f.nullable then _ else _) = _ at h
      split at h
      · next hn =>
        obtain hrest | ⟨_, -, h⟩ := bind_eq_error h
        · obtain ⟨before, m', after, rfl, hbefore, hm'⟩ :=
            membersFirst_eq_error hrule members hrest
          refine ⟨m :: before, m', after, rfl, List.forall_mem_cons.2 ⟨?_, hbefore⟩, hm'⟩
          rw [first_agrees g.solves_leastFirst hrule m.parser hf]
          exact hn
        · cases h
      · cases h

theorem alternativesFirst_eq_error
    (hrule : ∀ name f, rule name = .ok f → g.leastFirst (.ref name) = f.beginning)
    (alternatives : List (Parser V)) (h : alternativesFirst rule alternatives = .error e) :
    ∃ p ∈ alternatives, ∃ name, g.BeginsWith p (.ref name) ∧ rule name = .error e := by
  cases alternatives with
  | nil => cases h
  | cons p alternatives =>
    obtain hp | ⟨f, -, h⟩ := bind_eq_error h
    · exact ⟨p, .head _, first_eq_error hrule p hp⟩
    · obtain hrest | ⟨_, -, h⟩ := bind_eq_error h
      · obtain ⟨q, hq, hq'⟩ := alternativesFirst_eq_error hrule alternatives hrest
        exact ⟨q, .tail _ hq, hq'⟩
      · cases h

theorem rolesFirst_eq_error
    (hrule : ∀ name f, rule name = .ok f → g.leastFirst (.ref name) = f.beginning)
    (roles : List (TokenType × Role V (Parser V))) (h : rolesFirst rule roles = .error e) :
    ∃ key p, (key, Role.embed p) ∈ roles ∧
      ∃ name, g.BeginsWith p (.ref name) ∧ rule name = .error e := by
  cases roles with
  | nil => cases h
  | cons entry roles =>
    obtain ⟨key, role⟩ := entry
    have later (h : rolesFirst rule roles = .error e) :
        ∃ key' p, (key', Role.embed p) ∈ (key, role) :: roles ∧
          ∃ name, g.BeginsWith p (.ref name) ∧ rule name = .error e := by
      obtain ⟨key', p, hp, hp'⟩ := rolesFirst_eq_error hrule roles h
      exact ⟨key', p, .tail _ hp, hp'⟩
    cases role with
    | embed p =>
      obtain hp | ⟨f, -, h⟩ := bind_eq_error h
      · exact ⟨key, p, .head _, first_eq_error hrule p hp⟩
      · exact later h
    | atom | prefixOp | infixOp | mixfix | bracket => exact later h

end

end Parser

namespace Grammar

variable {g : Grammar V} {p q : Parser V} {name : String} {n : Nat} {active : List String}
  {f : FirstSet} {e : GrammarError}

/-- What keeps the rule of the name from having a FIRST set, and how that is reported. -/
def Blocked (g : Grammar V) (name : String) (e : GrammarError) : Prop :=
  (g.rule? name = none ∧ e = .unregisteredRule name) ∨
    (g.BeginsInside (.ref name) (.ref name) ∧ e = .leftRecursion name)

/-- While the FIRST set of a rule is computed, the active rules are those that it is being computed
for: each of them begins with it. So a rule that is met again is its own left corner. -/
theorem firstOfRule_eq_error (hb : g.Bounded n active)
    (hactive : ∀ a ∈ active, g.BeginsInside (.ref a) (.ref name))
    (h : g.firstOfRule n active name = .error e) :
    ∃ culprit, g.BeginsWith (.ref name) (.ref culprit) ∧ g.Blocked culprit e := by
  induction n generalizing active name with
  | zero => exact absurd hb.pos (Nat.lt_irrefl 0)
  | succ n ih =>
    unfold firstOfRule at h
    split at h
    · next hmem =>
      cases h
      exact ⟨name, .refl, .inr ⟨hactive name (by simpa using hmem), rfl⟩⟩
    · next hmem =>
      split at h
      · next hnone =>
        cases h
        exact ⟨name, .refl, .inl ⟨hnone, rfl⟩⟩
      · next p hp =>
        obtain ⟨name', hname', he⟩ := Parser.first_eq_error (fun _ _ hf =>
          firstWithin_agrees g.solves_leastFirst (firstWithin_of_firstOfRule hf)) p h
        have hbegins : g.BeginsInside (.ref name) (.ref name') := .head' (.rule hp) hname'
        have hactive' : ∀ a ∈ name :: active, g.BeginsInside (.ref a) (.ref name') :=
          List.forall_mem_cons.2 ⟨hbegins, fun a ha => (hactive a ha).trans hbegins⟩
        obtain ⟨culprit, hreached, hblocked⟩ :=
          ih (hb.cons (by simpa using hmem) hp) hactive' he
        exact ⟨culprit, hbegins.to_reflTransGen.trans hreached, hblocked⟩

/-- A parser without a FIRST set begins with a name that is to blame. -/
theorem first_eq_error (h : g.first p = .error e) :
    ∃ culprit, g.BeginsWith p (.ref culprit) ∧ g.Blocked culprit e := by
  obtain ⟨name, hname, he⟩ := Parser.first_eq_error (fun _ _ hf =>
    firstWithin_agrees g.solves_leastFirst (firstWithin_of_firstOfRule hf)) p h
  obtain ⟨culprit, hreached, hblocked⟩ := firstOfRule_eq_error (.start g) (List.forall_mem_nil _) he
  exact ⟨culprit, hname.trans hreached, hblocked⟩

/-! ## Where it succeeds -/

/-- The parser has a FIRST set by at most so many unfoldings, one inside of the other. -/
def Resolves (g : Grammar V) (n : Nat) (p : Parser V) : Prop :=
  ∃ f, p.first (g.firstWithin n) = .ok f

/-- A reference resolves by one unfolding more than its rule. -/
theorem Resolves.rule (h : g.Resolves n (.ref name)) (hq : g.LeftCorner (.ref name) q) :
    ∃ m < n, g.Resolves m q := by
  obtain ⟨f, h⟩ := h
  obtain ⟨m, p, rfl, hp, hf⟩ := firstWithin_eq_ok h
  cases hq with
  | rule registered =>
    cases registered.symm.trans hp
    exact ⟨m, Nat.lt_succ_self m, f, hf⟩

/-- The left corners of a parser that resolves resolve. -/
theorem Resolves.leftCorner (h : g.Resolves n p) (hpq : g.LeftCorner p q) :
    ∃ m ≤ n, g.Resolves m q := by
  have hresolves := h
  obtain ⟨f, h⟩ := h
  cases hpq with
  | @member before after m action hbefore =>
    refine ⟨n, Nat.le_refl n, Parser.membersFirst_of_before h fun m' hm' f' hf' => ?_⟩
    have hempty := hbefore m' hm'
    have hagrees : g.leastFirst m'.parser = f'.beginning :=
      HasFirst.eq_of_solves g.solves_leastFirst ⟨n, hf'⟩
    rw [hagrees] at hempty
    exact hempty
  | alternative mem =>
    obtain ⟨firsts, hfirsts, -⟩ := Parser.alternativesFirst_eq_ok h
    exact ⟨n, Nat.le_refl n, exists_mapM_iff.1 ⟨firsts, hfirsts⟩ q mem⟩
  | repeated =>
    obtain ⟨f₁, h₁, -⟩ := Parser.first_many h
    exact ⟨n, Nat.le_refl n, f₁, h₁⟩
  | embedded => exact ⟨n, Nat.le_refl n, f, h⟩
  | role mem => exact ⟨n, Nat.le_refl n, (Parser.first_expr_eq_ok_iff.1 h).1 _ q mem⟩
  | rule registered =>
    obtain ⟨m, hm, hq⟩ := hresolves.rule (.rule registered)
    exact ⟨m, Nat.le_of_lt hm, hq⟩

theorem Resolves.beginsWith (h : g.Resolves n p) (hpq : g.BeginsWith p q) :
    ∃ m ≤ n, g.Resolves m q := by
  induction hpq with
  | refl => exact ⟨n, Nat.le_refl n, h⟩
  | tail _ step ih =>
    obtain ⟨m, hm, hq⟩ := ih
    obtain ⟨k, hk, hr⟩ := hq.leftCorner step
    exact ⟨k, Nat.le_trans hk hm, hr⟩

/-- A rule that is its own left corner has no FIRST set: each turn would take an unfolding less. -/
theorem not_resolves_of_cycle (h : g.BeginsInside (.ref name) (.ref name)) (n : Nat) :
    ¬g.Resolves n (.ref name) := by
  induction n using Nat.strong_induction_on with
  | _ n ih =>
    intro hn
    obtain ⟨q, step, hq⟩ := TransGen.head'_iff.1 h
    obtain ⟨m, hm, hresolves⟩ := hn.rule step
    obtain ⟨k, hk, hname⟩ := hresolves.beginsWith hq
    exact ih k (Nat.lt_of_le_of_lt hk hm) hname

/-- A parser with a FIRST set does not begin with a name that is to blame for anything. -/
theorem HasFirst.not_blocked (h : g.HasFirst p f) (hname : g.BeginsWith p (.ref name)) :
    ¬g.Blocked name e := by
  obtain ⟨n, h⟩ := h
  obtain ⟨m, -, hresolves⟩ := Resolves.beginsWith ⟨f, h⟩ hname
  rintro (⟨hnone, -⟩ | ⟨hcycle, -⟩)
  · obtain ⟨f', hf'⟩ := hresolves
    obtain ⟨q, hq⟩ := HasFirst.registered ⟨m, hf'⟩
    rw [hnone] at hq
    cases hq
  · exact not_resolves_of_cycle hcycle m hresolves

/-- FIRST sets are those of the textbook. The descent ends by itself, because the number that bounds
it never runs out, whatever would be answered there. It fails if and only if through left corners
the parser reaches a name that has no rule, or one that is reached again from itself; left recursion
is reported of the latter only. And what it finds is the least solution of the equations. -/
theorem first_decides (g : Grammar V) (p : Parser V) :
    (∀ out, p.first (g.firstOfRuleOr out (g.rules.length + 1) []) = g.first p) ∧
    ((∃ e, g.first p = .error e) ↔ ∃ name, g.BeginsWith p (.ref name) ∧
      (g.rule? name = none ∨ g.BeginsInside (.ref name) (.ref name))) ∧
    (∀ name, g.first p = .error (.leftRecursion name) →
      g.BeginsInside (.ref name) (.ref name)) ∧
    IsLeast {s | g.Solves s} g.leastFirst ∧
    ∀ f, g.first p = .ok f → g.leastFirst p = ({l | l ∈ f.tokens}, f.nullable = true) := by
  refine ⟨fun out => ?_, ⟨?_, ?_⟩, fun name h => ?_, g.isLeast_leastFirst, fun f h => ?_⟩
  · exact congrArg (p.first ·) (funext fun name => firstOfRuleOr_eq out (.start g) name)
  · rintro ⟨e, h⟩
    obtain ⟨name, hname, hblocked⟩ := first_eq_error h
    exact ⟨name, hname, hblocked.imp And.left And.left⟩
  · rintro ⟨name, hname, hculprit⟩
    cases h : g.first p with
    | error e => exact ⟨e, rfl⟩
    | ok f =>
      have hfirst := first_eq_ok_iff.1 h
      rcases hculprit with hnone | hcycle
      · exact absurd (.inl ⟨hnone, rfl⟩) (hfirst.not_blocked hname)
      · exact absurd (.inr ⟨hcycle, rfl⟩) (hfirst.not_blocked hname)
  · obtain ⟨culprit, -, ⟨-, he⟩ | ⟨hcycle, he⟩⟩ := first_eq_error h
    · cases he
    · cases he
      exact hcycle
  · exact (first_eq_ok_iff.1 h).eq_of_solves g.solves_leastFirst

end Grammar

end PredictiveParsing
