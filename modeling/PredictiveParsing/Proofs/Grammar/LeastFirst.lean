import Mathlib.Order.FixedPoints
import Mathlib.Order.CompletePartialOrder
import Mathlib.Logic.Relation
import PredictiveParsing.Proofs.Grammar.Unfolding

/-!
# FIRST sets as least solutions

The textbook defines FIRST sets by equations, one for each combinator, and takes their least
solution: `Grammar.equation` and `Grammar.leastFirst`. The equations of a left-recursive grammar go
in circles and may have many solutions.

`Grammar.first` solves nothing: it descends to where a parser can begin, along `Grammar.LeftCorner`,
and fails when the descent ends at a name without a rule or comes back to a rule that it is inside
of (`Grammar.firstOfRule_eq_error`). Where it succeeds the descent is finite, every solution of the
equations has to agree with what it finds (`Grammar.HasFirst.eq_of_solves`), and so the least one
does. Whether a member of a sequence is a left corner depends on the members before it being
nullable, so the edges are drawn by the least solution; the descent draws the same ones because it
agrees with that solution wherever it has come through.
-/

namespace PredictiveParsing

variable {V : Type}

/-! ## The equations -/

/-- The lookaheads that something can begin with, and whether it can be empty. -/
abbrev Beginning := Set Lookahead × Prop

/-- What a FIRST set says. -/
def FirstSet.beginning (f : FirstSet) : Beginning :=
  ({l | l ∈ f.tokens}, f.nullable = true)

/-- The beginning of a sequence, given those of parsers: each member counts that has only nullable
ones before it. -/
def Beginning.ofMembers (s : Parser V → Beginning) (members : List (Member (Parser V))) :
    Beginning :=
  ({l | ∃ before m after, members = before ++ m :: after ∧
      (∀ m' ∈ before, (s m'.parser).2) ∧ l ∈ (s m.parser).1},
    ∀ m ∈ members, (s m.parser).2)

/-- The beginning of a choice, given those of parsers. -/
def Beginning.ofAlternatives (s : Parser V → Beginning) (alternatives : List (Parser V)) :
    Beginning :=
  ({l | ∃ p ∈ alternatives, l ∈ (s p).1}, ∃ p ∈ alternatives, (s p).2)

/-- An expression begins with a token that begins an operand, or with one that is skipped. -/
theorem Operators.mem_leadingTypes {P : Type} (o : Operators V P) {type : TokenType} :
    type ∈ o.leadingTypes ↔
      (∃ role, (type, role) ∈ o.roles ∧ role.startsOperand = true) ∨ type ∈ o.skip := by
  simp [leadingTypes]

namespace Grammar

/-- The right-hand side of the equation for a parser. -/
def equation (g : Grammar V) (s : Parser V → Beginning) : Parser V → Beginning
  | .token type => ({.token type}, False)
  | .endOfInput => ({.endOfInput}, False)
  | .tuple members _ => .ofMembers s members
  | .choice _ alternatives => .ofAlternatives s alternatives
  | .many body minimum => ((s body).1, (s body).2 ∨ minimum = 0)
  | .embed body => s body
  | .expr o =>
    ({l | ∃ type, l = .token type ∧
      ((∃ role, (type, role) ∈ o.roles ∧ role.startsOperand = true) ∨ type ∈ o.skip)}, False)
  | .ref name => (g.rule? name).elim (∅, False) s

/-- The beginnings satisfy the equations. -/
def Solves (g : Grammar V) (s : Parser V → Beginning) : Prop :=
  ∀ p, s p = g.equation s p

variable {g : Grammar V} {s : Parser V → Beginning} {p q : Parser V} {name : String}
  {n : Nat} {active : List String} {f : FirstSet} {e : GrammarError}

theorem equation_mono (g : Grammar V) : Monotone g.equation := by
  intro s s' hs p
  cases p with
  | token | endOfInput | expr => exact ⟨fun _ h => h, fun h => h⟩
  | tuple members =>
    refine ⟨?_, fun h m hm => (hs m.parser).2 (h m hm)⟩
    rintro l ⟨before, m, after, hmembers, hbefore, hl⟩
    exact ⟨before, m, after, hmembers, fun m' hm' => (hs m'.parser).2 (hbefore m' hm'),
      (hs m.parser).1 hl⟩
  | choice slot alternatives =>
    exact ⟨fun l ⟨p, hp, hl⟩ => ⟨p, hp, (hs p).1 hl⟩, fun ⟨p, hp, hn⟩ => ⟨p, hp, (hs p).2 hn⟩⟩
  | many body => exact ⟨(hs body).1, Or.imp_left (hs body).2⟩
  | embed body => exact hs body
  | ref name =>
    show (g.rule? name).elim (∅, False) s ≤ (g.rule? name).elim (∅, False) s'
    cases g.rule? name with
    | none => exact ⟨fun _ h => h, fun h => h⟩
    | some p => exact hs p

/-- The least solution of the equations. -/
def leastFirst (g : Grammar V) : Parser V → Beginning :=
  OrderHom.lfp ⟨g.equation, g.equation_mono⟩

theorem solves_leastFirst (g : Grammar V) : g.Solves g.leastFirst :=
  fun p => congrFun (OrderHom.map_lfp ⟨g.equation, g.equation_mono⟩).symm p

theorem isLeast_leastFirst (g : Grammar V) : IsLeast {s | g.Solves s} g.leastFirst :=
  ⟨g.solves_leastFirst, fun _ hs =>
    OrderHom.lfp_le _ (le_of_eq (funext fun p => (hs p).symm))⟩

/-- In a solution a reference begins like its rule. -/
theorem Solves.ref (hs : g.Solves s) (hp : g.rule? name = some p) : s (.ref name) = s p := by
  rw [hs (.ref name), equation, hp, Option.elim_some]

end Grammar

/-! ## Agreement -/

namespace Beginning

variable {s : Parser V → Beginning} {m : Member (Parser V)} {members : List (Member (Parser V))}
  {p : Parser V} {alternatives : List (Parser V)} {f f₁ f₂ : FirstSet}

/-- A sequence whose first member is not nullable begins like that member. -/
theorem ofMembers_cons_of_not (h : s m.parser = f.beginning) (hn : f.nullable = false) :
    ofMembers s (m :: members) = f.beginning := by
  have hempty : ¬(s m.parser).2 := by simp [h, FirstSet.beginning, hn]
  refine Prod.ext (Set.ext fun l => ⟨?_, fun hl => ?_⟩) (propext ⟨fun hall => ?_, fun hf => ?_⟩)
  · rintro ⟨before, m', after, heq, hbefore, hl⟩
    cases before with
    | nil =>
      cases heq
      exact h ▸ hl
    | cons m₁ before =>
      cases heq
      exact absurd (hbefore m (.head _)) hempty
  · exact ⟨[], m, members, rfl, List.forall_mem_nil _, h ▸ hl⟩
  · exact absurd (hall m (.head _)) hempty
  · exact absurd (h ▸ hf) hempty

/-- A sequence whose first member is nullable begins like that member or like the others. -/
theorem ofMembers_cons (h₁ : s m.parser = f₁.beginning) (hn : f₁.nullable = true)
    (h₂ : ofMembers s members = f₂.beginning) :
    ofMembers s (m :: members) = (f₁.andThen f₂).beginning := by
  have hempty : (s m.parser).2 := by simp [h₁, FirstSet.beginning, hn]
  refine Prod.ext (Set.ext fun l => ?_) (propext ?_)
  · show _ ↔ l ∈ Lookahead.union f₁.tokens f₂.tokens
    rw [Lookahead.mem_union]
    constructor
    · rintro ⟨before, m', after, heq, hbefore, hl⟩
      cases before with
      | nil =>
        cases heq
        rw [h₁] at hl
        exact .inl hl
      | cons m₁ before =>
        cases heq
        right
        show l ∈ f₂.beginning.1
        rw [← h₂]
        exact ⟨before, m', after, rfl, fun m₁ hm₁ => hbefore m₁ (.tail _ hm₁), hl⟩
    · rintro (hl | hl)
      · refine ⟨[], m, members, rfl, List.forall_mem_nil _, ?_⟩
        rw [h₁]
        exact hl
      · change l ∈ f₂.beginning.1 at hl
        rw [← h₂] at hl
        obtain ⟨before, m', after, rfl, hbefore, hl⟩ := hl
        exact ⟨m :: before, m', after, rfl, List.forall_mem_cons.2 ⟨hempty, hbefore⟩, hl⟩
  · show (∀ m' ∈ m :: members, _) ↔ f₂.beginning.2
    rw [← h₂, List.forall_mem_cons]
    exact and_iff_right hempty

theorem ofAlternatives_cons (h₁ : s p = f₁.beginning)
    (h₂ : ofAlternatives s alternatives = f₂.beginning) :
    ofAlternatives s (p :: alternatives) = (f₁.orElse f₂).beginning := by
  refine Prod.ext (Set.ext fun l => ?_) (propext ?_)
  · show (∃ q ∈ p :: alternatives, _) ↔ l ∈ Lookahead.union f₁.tokens f₂.tokens
    simp only [Lookahead.mem_union, List.mem_cons, exists_eq_or_imp, h₁]
    exact or_congr_right (Set.ext_iff.1 (congrArg Prod.fst h₂) l)
  · show (∃ q ∈ p :: alternatives, _) ↔ (f₁.nullable || f₂.nullable) = true
    simp only [Bool.or_eq_true, List.mem_cons, exists_eq_or_imp, h₁]
    exact or_congr_right (iff_of_eq (congrArg Prod.snd h₂))

end Beginning

namespace Parser

variable {g : Grammar V} {s : Parser V → Beginning}
  {rule : String → Except GrammarError FirstSet}

mutual

/-- A solution that agrees with the FIRST sets of rules agrees with those of parsers. -/
theorem first_agrees (hs : g.Solves s)
    (hrule : ∀ name f, rule name = .ok f → s (.ref name) = f.beginning) (p : Parser V)
    {f : FirstSet} (h : p.first rule = .ok f) : s p = f.beginning := by
  cases p with
  | token type =>
    cases h
    rw [hs]
    exact Prod.ext (Set.ext fun l => List.mem_singleton.symm) (by simp [Grammar.equation,
      FirstSet.beginning, FirstSet.single])
  | endOfInput =>
    cases h
    rw [hs]
    exact Prod.ext (Set.ext fun l => List.mem_singleton.symm) (by simp [Grammar.equation,
      FirstSet.beginning, FirstSet.single])
  | tuple members =>
    rw [hs]
    exact membersFirst_agrees hs hrule members h
  | choice slot alternatives =>
    rw [hs]
    exact alternativesFirst_agrees hs hrule alternatives h
  | many body minimum =>
    obtain ⟨f₁, h₁, h⟩ := bind_eq_ok h
    cases h
    rw [hs, Grammar.equation, first_agrees hs hrule body h₁]
    exact Prod.ext rfl (by simp [FirstSet.beginning])
  | embed body =>
    rw [hs]
    exact first_agrees hs hrule body h
  | expr o =>
    obtain ⟨-, rfl⟩ := first_expr_eq_ok_iff.1 h
    rw [hs]
    refine Prod.ext (Set.ext fun l => ?_) (by simp [Grammar.equation, FirstSet.beginning])
    show (∃ type, _) ↔ l ∈ Lookahead.union (o.leadingTypes.map .token) []
    simp only [Lookahead.mem_union, List.mem_map, o.mem_leadingTypes, List.not_mem_nil, or_false]
    exact exists_congr fun type => by rw [and_comm, eq_comm]
  | ref name => exact hrule name f h

theorem membersFirst_agrees (hs : g.Solves s)
    (hrule : ∀ name f, rule name = .ok f → s (.ref name) = f.beginning)
    (members : List (Member (Parser V))) {f : FirstSet} (h : membersFirst rule members = .ok f) :
    Beginning.ofMembers s members = f.beginning := by
  cases members with
  | nil =>
    cases h
    simp [Beginning.ofMembers, FirstSet.beginning]
  | cons m members =>
    obtain ⟨f₁, h₁, ⟨hn, rfl⟩ | ⟨hn, f₂, h₂, rfl⟩⟩ := membersFirst_cons h
    · exact Beginning.ofMembers_cons_of_not (first_agrees hs hrule m.parser h₁) hn
    · exact Beginning.ofMembers_cons (first_agrees hs hrule m.parser h₁) hn
        (membersFirst_agrees hs hrule members h₂)

theorem alternativesFirst_agrees (hs : g.Solves s)
    (hrule : ∀ name f, rule name = .ok f → s (.ref name) = f.beginning)
    (alternatives : List (Parser V)) {f : FirstSet}
    (h : alternativesFirst rule alternatives = .ok f) :
    Beginning.ofAlternatives s alternatives = f.beginning := by
  cases alternatives with
  | nil =>
    cases h
    simp [Beginning.ofAlternatives, FirstSet.beginning]
  | cons p alternatives =>
    obtain ⟨f₁, h₁, h⟩ := bind_eq_ok h
    obtain ⟨f₂, h₂, h⟩ := bind_eq_ok h
    cases h
    exact Beginning.ofAlternatives_cons (first_agrees hs hrule p h₁)
      (alternativesFirst_agrees hs hrule alternatives h₂)

end

end Parser

namespace Grammar

variable {g : Grammar V} {s : Parser V → Beginning} {p q : Parser V} {name : String}
  {n : Nat} {active : List String} {f : FirstSet} {e : GrammarError}

theorem firstWithin_agrees (hs : g.Solves s) (h : g.firstWithin n name = .ok f) :
    s (.ref name) = f.beginning := by
  induction n generalizing name f with
  | zero => cases h
  | succ n ih =>
    obtain ⟨_, p, hk, hp, hf⟩ := firstWithin_eq_ok h
    cases hk
    rw [hs.ref hp]
    exact Parser.first_agrees hs (fun _ _ => ih) p hf

/-- Where a parser has a FIRST set the equations leave no choice. -/
theorem HasFirst.eq_of_solves (hs : g.Solves s) (h : g.HasFirst p f) : s p = f.beginning := by
  obtain ⟨n, h⟩ := h
  exact Parser.first_agrees hs (fun _ _ => firstWithin_agrees hs) p h

end Grammar

end PredictiveParsing
