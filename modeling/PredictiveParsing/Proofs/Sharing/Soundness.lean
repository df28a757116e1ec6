import PredictiveParsing.Proofs.Grammar.Predicting
import PredictiveParsing.Proofs.Grammar.Relabelling
import PredictiveParsing.Proofs.Sharing.Workshop

/-!
# Sound workshops

What a workshop keeps for a choice, under a stamp, are the FIRST sets of its alternatives in the
grammar of that stamp: `Workshop.Sound`. The reason is that slots tell choices apart and stamps tell
rules apart (`Workshop.Tidy`), and that both are taken fresh: a change extends a workshop by what is
new to it (`Workshop.Extends`), and nothing is kept for that yet, except that copies have the FIRST
sets of their originals.
-/

namespace PredictiveParsing

variable {V : Type}

/-! ## Keeping for copies -/

/-- What is kept after copying was kept before, for the slot or for the one that it copies. -/
theorem Journal.kept?_copy {j : Journal} {pairs : List (Nat × Nat)} {slot stamp : Nat}
    {firsts : List FirstSet} (h : (j.copy pairs).kept? slot stamp = some firsts) :
    j.kept? slot stamp = some firsts ∨
      ∃ original, (original, slot) ∈ pairs ∧ j.kept? original stamp = some firsts := by
  obtain ⟨_, e, hmemo, hfind, hstamp, hfirsts⟩ := kept?_eq_some_iff.1 h
  obtain ⟨entries, hentries, rfl⟩ := Option.map_eq_some_iff.1 hmemo
  rw [List.find?_append] at hfind
  rcases Option.or_eq_some_iff.1 hfind with hcopied | ⟨-, hsame⟩
  · obtain ⟨⟨original, slot'⟩, hmem, he⟩ := List.mem_filterMap.1 (List.mem_of_find?_eq_some hcopied)
    obtain ⟨e', he', rfl⟩ := Option.map_eq_some_iff.1 he
    have hslot : slot' = slot := by simpa using List.find?_some hcopied
    refine .inr ⟨original, hslot ▸ hmem, ?_⟩
    exact kept?_eq_some_iff.2 ⟨entries, e', hentries, he', hstamp, hfirsts⟩
  · exact .inl (kept?_eq_some_iff.2 ⟨entries, e, hentries, hsame, hstamp, hfirsts⟩)

/-! ## Putting parsers into others and into grammars -/

/-- The parts of a combinator are those that have been found. -/
theorem Layer.child_fill {P : Type} {find : P → Parser V} {slot : Nat} {layer : Layer V P}
    {q : Parser V} (h : Parser.Child q (layer.fill find slot)) : ∃ x, q = find x := by
  cases layer with
  | token | endOfInput | ref => cases h
  | tuple members action =>
    cases h with
    | member mem =>
      obtain ⟨m, -, rfl⟩ := List.mem_map.1 mem
      exact ⟨m.parser, rfl⟩
  | choice alternatives =>
    cases h with
    | alternative mem =>
      obtain ⟨x, -, rfl⟩ := List.mem_map.1 mem
      exact ⟨x, rfl⟩
  | many body => cases h; exact ⟨body, rfl⟩
  | embed body => cases h; exact ⟨body, rfl⟩
  | expr o =>
    cases h with
    | role mem =>
      obtain ⟨⟨key, role⟩, -, heq⟩ := List.mem_map.1 mem
      cases role with
      | embed x => cases heq; exact ⟨x, rfl⟩
      | atom | prefixOp | infixOp | mixfix | bracket => cases heq

namespace Workshop

variable {w w' : Workshop V} {g : Grammar V} {p : Parser V} {slot stamp : Nat}
  {alternatives alternatives' : List (Parser V)} {firsts : List FirstSet} {j : Journal}

/-! ## The choices of a workshop -/

/-- The choice is a part of what the workshop holds. -/
inductive Owns (w : Workshop V) (slot : Nat) (alternatives : List (Parser V)) : Prop
  | atHand {p : Parser V} (held : p ∈ w.parsers) (part : .choice slot alternatives ∈ p.parts)
  | rule {g : Grammar V} {rule : String × Parser V} (held : g ∈ w.grammars)
      (registered : rule ∈ g.rules) (part : .choice slot alternatives ∈ rule.2.parts)
  | entry {g : Grammar V} {p : Parser V} (held : g ∈ w.grammars) (chosen : g.entry = some p)
      (part : .choice slot alternatives ∈ p.parts)

theorem Owns.mono (h : w.Owns slot alternatives) (hparsers : ∀ p ∈ w.parsers, p ∈ w'.parsers)
    (hgrammars : ∀ g ∈ w.grammars, g ∈ w'.grammars) : w'.Owns slot alternatives := by
  cases h with
  | atHand held part => exact .atHand (hparsers _ held) part
  | rule held registered part => exact .rule (hgrammars _ held) registered part
  | entry held chosen part => exact .entry (hgrammars _ held) chosen part

/-- The workshop owns all choices of a parser. -/
def Covers (w : Workshop V) (p : Parser V) : Prop :=
  ∀ slot alternatives, .choice slot alternatives ∈ p.parts → w.Owns slot alternatives

theorem covers_atHand (h : p ∈ w.parsers) : w.Covers p := fun _ _ => .atHand h

theorem covers_rule {rule : String × Parser V} (hg : g ∈ w.grammars) (h : rule ∈ g.rules) :
    w.Covers rule.2 := fun _ _ => .rule hg h

theorem covers_entry (hg : g ∈ w.grammars) (h : g.entry = some p) : w.Covers p :=
  fun _ _ => .entry hg h

theorem Covers.part {q : Parser V} (h : w.Covers p) (hq : q ∈ p.parts) : w.Covers q :=
  fun _ _ hpart => h _ _ (Parser.mem_parts_trans hq hpart)

/-- A parser without choices is always covered. -/
theorem covers_ref (name : String) : w.Covers (.ref name) := fun _ _ h => by
  cases List.mem_singleton.1 h

/-- What is found in a workshop is covered by it. -/
theorem covers_of_find? {place : Place} (h : w.find? place = some p) : w.Covers p := by
  cases place with
  | atHand n part =>
    obtain ⟨q, hq, hp⟩ := Option.bind_eq_some_iff.1 h
    exact (covers_atHand (List.mem_of_getElem? hq)).part (List.mem_of_getElem? hp)
  | rule n name part =>
    obtain ⟨g, hg, h⟩ := Option.bind_eq_some_iff.1 h
    obtain ⟨q, hq, hp⟩ := Option.bind_eq_some_iff.1 h
    obtain ⟨before, after, hrules, -⟩ := List.lookup_eq_some_iff.1 hq
    have hrule : (name, q) ∈ g.rules := by
      rw [hrules]
      simp
    exact (covers_rule (List.mem_of_getElem? hg) hrule).part (List.mem_of_getElem? hp)
  | entry n part =>
    obtain ⟨g, hg, h⟩ := Option.bind_eq_some_iff.1 h
    obtain ⟨q, hq, hp⟩ := Option.bind_eq_some_iff.1 h
    exact (covers_entry (List.mem_of_getElem? hg) hq).part (List.mem_of_getElem? hp)

theorem covers_find (w : Workshop V) (place : Place) : w.Covers (w.find place) := by
  unfold find
  cases h : w.find? place with
  | some p => exact covers_of_find? h
  | none =>
    intro slot alternatives hpart
    cases List.mem_singleton.1 hpart

/-- The entry of a grammar is covered, be it chosen or not. -/
theorem covers_of_entry (hg : g ∈ w.grammars) (h : g.entry? = some p) : w.Covers p := by
  unfold Grammar.entry? at h
  split at h
  · next q hq =>
    cases h
    exact covers_entry hg hq
  · obtain ⟨name, -, rfl⟩ := Option.map_eq_some_iff.1 h
    exact covers_ref name

/-- The choices of what is put together are those of the parts, and possibly a new one. -/
theorem owns_of_mem_fill {layer : Layer V Place}
    (h : .choice slot alternatives ∈ (layer.fill w.find w.freshSlot).parts) :
    w.Owns slot alternatives ∨
      slot = w.freshSlot ∧ .choice slot alternatives = layer.fill w.find w.freshSlot := by
  rcases Parser.eq_or_mem_parts_child h with htop | ⟨q, hchild, hpart⟩
  · right
    cases layer with
    | choice places => cases htop; exact ⟨rfl, rfl⟩
    | token | endOfInput | tuple | many | embed | expr | ref => cases htop
  · obtain ⟨place, rfl⟩ := Layer.child_fill hchild
    exact .inl (covers_find w place _ _ hpart)

/-! ## Sound workshops -/

/-- Slots tell choices apart and stamps tell rules apart, and those to come are new. -/
structure Tidy (w : Workshop V) : Prop where
  slot_lt : ∀ slot alternatives, w.Owns slot alternatives → slot < w.freshSlot
  apart : ∀ slot alternatives alternatives', w.Owns slot alternatives →
    w.Owns slot alternatives' → alternatives = alternatives'
  stamp_lt : ∀ g ∈ w.grammars, g.stamp < w.drawn
  rules : ∀ g ∈ w.grammars, ∀ g' ∈ w.grammars, g.stamp = g'.stamp → g.rules = g'.rules

/-- The FIRST sets are right for the choice of the slot in the grammar of the stamp. -/
structure Right (w : Workshop V) (slot stamp : Nat) (firsts : List FirstSet) : Prop where
  slot_lt : slot < w.freshSlot
  stamp_lt : stamp < w.drawn
  firsts : ∀ g ∈ w.grammars, g.stamp = stamp → ∀ alternatives, w.Owns slot alternatives →
    alternatives.mapM g.first = .ok firsts

/-- Everything that the journal keeps is right. -/
def Trusts (w : Workshop V) (j : Journal) : Prop :=
  ∀ slot stamp firsts, j.kept? slot stamp = some firsts → w.Right slot stamp firsts

/-- The workshop keeps only what is right. -/
structure Sound (w : Workshop V) : Prop where
  tidy : w.Tidy
  kept : w.Trusts w.journal

theorem Sound.start : (start : Workshop V).Sound where
  tidy :=
    { slot_lt := fun _ _ h => by cases h <;> contradiction
      apart := fun _ _ _ h => by cases h <;> contradiction
      stamp_lt := fun _ h => by cases h
      rules := fun _ h => by cases h }
  kept := fun _ _ _ h => by cases h

/-! ## Extensions -/

/-- The second workshop holds the choices and the rules of the first, or fewer, and new ones, with
new slots and stamps. -/
structure Extends (w w' : Workshop V) : Prop where
  slots : w.freshSlot ≤ w'.freshSlot
  drawn : w.drawn ≤ w'.drawn
  owns : ∀ slot alternatives, w'.Owns slot alternatives →
    w.Owns slot alternatives ∨ w.freshSlot ≤ slot ∧ slot < w'.freshSlot
  apart : ∀ slot alternatives alternatives', w.freshSlot ≤ slot → w'.Owns slot alternatives →
    w'.Owns slot alternatives' → alternatives = alternatives'
  grammars : ∀ g' ∈ w'.grammars,
    (∃ g ∈ w.grammars, g.stamp = g'.stamp ∧ g.rules = g'.rules) ∨
      w.drawn ≤ g'.stamp ∧ g'.stamp < w'.drawn
  rules : ∀ g ∈ w'.grammars, ∀ g' ∈ w'.grammars, w.drawn ≤ g.stamp → g.stamp = g'.stamp →
    g.rules = g'.rules

/-- A choice with a slot that was taken is an old one. -/
theorem Extends.owns_old (hx : w.Extends w') (hslot : slot < w.freshSlot)
    (h : w'.Owns slot alternatives) : w.Owns slot alternatives :=
  (hx.owns _ _ h).resolve_right fun hnew => Nat.not_lt.2 hnew.1 hslot

/-- A grammar with a stamp that was drawn has the rules of an old one. -/
theorem Extends.grammars_old (hx : w.Extends w') {g' : Grammar V} (hstamp : g'.stamp < w.drawn)
    (hg : g' ∈ w'.grammars) : ∃ g ∈ w.grammars, g.stamp = g'.stamp ∧ g.rules = g'.rules :=
  (hx.grammars _ hg).resolve_right fun hnew => Nat.not_lt.2 hnew.1 hstamp

theorem Tidy.extend (h : w.Tidy) (hx : w.Extends w') : w'.Tidy where
  slot_lt slot alternatives howns := by
    rcases hx.owns _ _ howns with hold | hnew
    · exact Nat.lt_of_lt_of_le (h.slot_lt _ _ hold) hx.slots
    · exact hnew.2
  apart slot alternatives alternatives' howns howns' := by
    rcases Nat.lt_or_ge slot w.freshSlot with hlt | hge
    · exact h.apart _ _ _ (hx.owns_old hlt howns) (hx.owns_old hlt howns')
    · exact hx.apart _ _ _ hge howns howns'
  stamp_lt g hg := by
    rcases hx.grammars g hg with ⟨g', hg', hstamp, -⟩ | hnew
    · rw [← hstamp]
      exact Nat.lt_of_lt_of_le (h.stamp_lt _ hg') hx.drawn
    · exact hnew.2
  rules g hg g' hg' hstamp := by
    rcases Nat.lt_or_ge g.stamp w.drawn with hlt | hge
    · obtain ⟨g₀, hg₀, hstamp₀, hrules₀⟩ := hx.grammars_old hlt hg
      obtain ⟨g₁, hg₁, hstamp₁, hrules₁⟩ := hx.grammars_old (hstamp ▸ hlt) hg'
      rw [← hrules₀, ← hrules₁]
      exact h.rules _ hg₀ _ hg₁ (by rw [hstamp₀, hstamp₁, hstamp])
    · exact hx.rules _ hg _ hg' hge hstamp

/-- What is right stays right. -/
theorem Right.extend (h : w.Right slot stamp firsts) (hx : w.Extends w') :
    w'.Right slot stamp firsts where
  slot_lt := Nat.lt_of_lt_of_le h.slot_lt hx.slots
  stamp_lt := Nat.lt_of_lt_of_le h.stamp_lt hx.drawn
  firsts g hg hstamp alternatives howns := by
    obtain ⟨g₀, hg₀, hstamp₀, hrules₀⟩ := hx.grammars_old (hstamp ▸ h.stamp_lt) hg
    rw [← Grammar.first_congr hrules₀]
    exact h.firsts g₀ hg₀ (hstamp₀.trans hstamp) alternatives (hx.owns_old h.slot_lt howns)

/-- A step that extends the workshop and keeps nothing more leaves it sound. -/
theorem Sound.extend (h : w.Sound) (hx : w.Extends w') (hj : w'.journal = w.journal) :
    w'.Sound where
  tidy := h.tidy.extend hx
  kept _ _ _ hkept := (h.kept _ _ _ (hj ▸ hkept)).extend hx

/-! ## Changes -/

/-- A workshop is extended by a parser at hand whose new choices have new slots. -/
theorem Tidy.extends_atHand {fresh : Nat} (h : w.Tidy) (hfresh : w.freshSlot ≤ fresh)
    (hnew : ∀ slot alternatives, .choice slot alternatives ∈ p.parts →
      w.Owns slot alternatives ∨ w.freshSlot ≤ slot ∧ slot < fresh)
    (hapart : ∀ slot alternatives alternatives', w.freshSlot ≤ slot →
      .choice slot alternatives ∈ p.parts → .choice slot alternatives' ∈ p.parts →
      alternatives = alternatives') :
    w.Extends { w with parsers := w.parsers ++ [p], freshSlot := fresh, journal := j } := by
  have cases_owns {slot : Nat} {alternatives : List (Parser V)}
      (howns : Owns { w with parsers := w.parsers ++ [p], freshSlot := fresh, journal := j } slot
        alternatives) : w.Owns slot alternatives ∨ .choice slot alternatives ∈ p.parts := by
    cases howns with
    | atHand held part =>
      rcases List.mem_append.1 held with held | held
      · exact .inl (.atHand held part)
      · cases List.mem_singleton.1 held
        exact .inr part
    | rule held registered part => exact .inl (.rule held registered part)
    | entry held chosen part => exact .inl (.entry held chosen part)
  have is_new {slot : Nat} {alternatives : List (Parser V)} (hge : w.freshSlot ≤ slot)
      (howns : w.Owns slot alternatives ∨ .choice slot alternatives ∈ p.parts) :
      .choice slot alternatives ∈ p.parts :=
    howns.resolve_left fun hold => Nat.not_lt.2 hge (h.slot_lt _ _ hold)
  exact {
    slots := hfresh
    drawn := Nat.le_refl _
    owns := fun slot alternatives howns => (cases_owns howns).elim .inl (hnew slot alternatives)
    apart := fun slot alternatives alternatives' hge howns howns' =>
      hapart slot _ _ hge (is_new hge (cases_owns howns)) (is_new hge (cases_owns howns'))
    grammars := fun g hg => .inl ⟨g, hg, rfl, rfl⟩
    rules := fun g hg _ _ hge => absurd (h.stamp_lt g hg) (Nat.not_lt.2 hge) }

/-- A workshop is extended by a grammar whose choices are covered, with a new stamp or with the rules
of an old grammar and its stamp. -/
theorem Tidy.extends_grammar {grammars : List (Grammar V)} {drawn : Nat} (h : w.Tidy)
    (hdrawn : w.drawn ≤ drawn) (hgrammars : ∀ g' ∈ grammars, g' ∈ w.grammars ∨ g' = g)
    (hstamp : (∃ g' ∈ w.grammars, g'.stamp = g.stamp ∧ g'.rules = g.rules) ∨
      w.drawn ≤ g.stamp ∧ g.stamp < drawn)
    (hrules : ∀ rule ∈ g.rules, w.Covers rule.2)
    (hentry : ∀ p, g.entry = some p → w.Covers p) :
    w.Extends { w with grammars, drawn } := by
  have owns_old {slot : Nat} {alternatives : List (Parser V)}
      (howns : Owns { w with grammars, drawn } slot alternatives) : w.Owns slot alternatives := by
    cases howns with
    | atHand held part => exact .atHand held part
    | rule held registered part =>
      rcases hgrammars _ held with held | rfl
      · exact .rule held registered part
      · exact hrules _ registered _ _ part
    | entry held chosen part =>
      rcases hgrammars _ held with held | rfl
      · exact .entry held chosen part
      · exact hentry _ chosen _ _ part
  exact {
    slots := Nat.le_refl _
    drawn := hdrawn
    owns := fun _ _ howns => .inl (owns_old howns)
    apart := fun slot _ _ hge howns _ =>
      absurd (h.slot_lt slot _ (owns_old howns)) (Nat.not_lt.2 hge)
    grammars := fun g' hg' => by
      rcases hgrammars g' hg' with hg' | rfl
      · exact .inl ⟨g', hg', rfl, rfl⟩
      · exact hstamp
    rules := fun g₁ hg₁ g₂ hg₂ hge heq => by
      -- no old grammar has a new stamp
      have is_new {g' : Grammar V} (hg' : g' ∈ grammars) (hge : w.drawn ≤ g'.stamp) : g' = g :=
        (hgrammars g' hg').resolve_left fun hold => Nat.not_lt.2 hge (h.stamp_lt _ hold)
      rw [is_new hg₁ hge, is_new hg₂ (heq ▸ hge)] }

theorem Sound.make (h : w.Sound) (layer : Layer V Place) : (w.make layer).Sound := by
  refine h.extend (h.tidy.extends_atHand (Nat.le_succ _) (fun slot alternatives hpart => ?_)
    fun slot alternatives alternatives' hge hpart hpart' => ?_) rfl
  · rcases owns_of_mem_fill hpart with howns | ⟨rfl, -⟩
    · exact .inl howns
    · exact .inr ⟨Nat.le_refl _, Nat.lt_succ_self _⟩
  · have top {alternatives : List (Parser V)}
        (hpart : .choice slot alternatives ∈ (layer.fill w.find w.freshSlot).parts) :
        .choice slot alternatives = layer.fill w.find w.freshSlot := by
      rcases owns_of_mem_fill hpart with howns | ⟨-, htop⟩
      · exact absurd (h.tidy.slot_lt _ _ howns) (Nat.not_lt.2 hge)
      · exact htop
    have hsame := (top hpart).trans (top hpart').symm
    cases hsame
    rfl

theorem Tidy.extends_copyOf (h : w.Tidy) (hp : w.Covers p) : w.Extends (w.copyOf p).2 := by
  have own_or_old {slot : Nat} {alternatives : List (Parser V)}
      (hpart : .choice slot alternatives ∈ (p.relabel w.freshSlot).1.parts) :
      (slot, alternatives) ∈ (p.relabel w.freshSlot).1.ownChoices ∨ w.Owns slot alternatives :=
    (Parser.mem_parts_relabel w.freshSlot p hpart).imp_right (hp slot alternatives)
  have is_own {slot : Nat} {alternatives : List (Parser V)} (hge : w.freshSlot ≤ slot)
      (hpart : .choice slot alternatives ∈ (p.relabel w.freshSlot).1.parts) :
      (slot, alternatives) ∈ (p.relabel w.freshSlot).1.ownChoices :=
    (own_or_old hpart).resolve_right fun hold => Nat.not_lt.2 hge (h.slot_lt _ _ hold)
  refine h.extends_atHand ?_ (fun slot alternatives hpart => ?_)
    fun slot alternatives alternatives' hge hpart hpart' =>
      Parser.eq_of_mem_copy (is_own hge hpart) (is_own hge hpart')
  · rw [Parser.relabel_next]
    exact Nat.le_add_right _ _
  · exact (own_or_old hpart).symm.imp_right Parser.slot_of_mem_copy

/-- A copy is at hand in the workshop that has taken it. -/
theorem covers_copyOf : (w.copyOf p).2.Covers (w.copyOf p).1 :=
  covers_atHand (List.mem_append_right _ (.head _))

/-- Taking a copy leaves the workshop sound: what is right for a choice is right for its copy. -/
theorem Sound.copyOf (h : w.Sound) (hp : w.Covers p) : (w.copyOf p).2.Sound := by
  have hx := h.tidy.extends_copyOf hp
  have htidy := h.tidy.extend hx
  refine ⟨htidy, fun slot stamp firsts hkept => ?_⟩
  rcases Journal.kept?_copy hkept with hkept | ⟨original, hpair, hkept⟩
  · exact (h.kept _ _ _ hkept).extend hx
  · have hright := h.kept _ _ _ hkept
    obtain ⟨alternatives, hpart, hcopy⟩ := Parser.copied_of_mem_zip hpair
    have howns : (w.copyOf p).2.Owns slot
        (Parser.relabelAlternatives (slot + 1) alternatives).1 :=
      covers_copyOf _ _ (Parser.mem_parts_of_ownChoices _ hcopy)
    refine ⟨(Parser.slot_of_mem_copy hcopy).2, hright.stamp_lt,
      fun g hg hstamp alternatives' howns' => ?_⟩
    rw [htidy.apart _ _ _ howns' howns]
    exact (Parser.mapM_first_relabel _ alternatives).trans
      (hright.firsts g hg hstamp alternatives (hp _ _ hpart))

/-- A stamp that is drawn is new as long as stamps do not repeat. -/
theorem nextStamp_new (hdrawn : w.drawn + 1 ≤ wordLimit) :
    w.drawn ≤ w.nextStamp ∧ w.nextStamp < w.drawn + 1 := by
  rw [nextStamp, Nat.mod_eq_of_lt hdrawn]
  exact ⟨Nat.le_refl _, Nat.lt_succ_self _⟩

theorem Sound.newGrammar (h : w.Sound) (hdrawn : w.newGrammar.drawn ≤ wordLimit) :
    w.newGrammar.Sound := by
  have hnew := nextStamp_new hdrawn
  refine h.extend (h.tidy.extends_grammar (g := { Grammar.empty with stamp := w.nextStamp })
    (Nat.le_succ _) (fun g hg => ?_) (.inr hnew) (fun _ hrule => ?_) fun _ hentry => ?_) rfl
  · exact (List.mem_append.1 hg).imp_right List.mem_singleton.1
  · exact absurd hrule List.not_mem_nil
  · cases hentry

theorem Sound.register {n : Nat} {name : String} (h : w.Sound) (hp : w.Covers p)
    (hdrawn : (w.register n name p).drawn ≤ wordLimit) : (w.register n name p).Sound := by
  unfold Workshop.register at hdrawn ⊢
  split at hdrawn
  · next g hg =>
    have hmem := List.mem_of_getElem? hg
    refine h.extend (h.tidy.extends_grammar (Nat.le_succ _)
      (fun _ hg' => List.mem_or_eq_of_mem_set hg') (.inr (nextStamp_new hdrawn))
      (fun rule hrule => ?_) fun _ hentry => covers_entry hmem hentry) rfl
    rcases Grammar.mem_setRule hrule with hold | rfl
    · exact covers_rule hmem hold
    · exact hp
  · exact h

theorem Sound.setEntry {n : Nat} (h : w.Sound) (hp : w.Covers p) : (w.setEntry n p).Sound := by
  unfold Workshop.setEntry
  split
  · next g hg =>
    have hmem := List.mem_of_getElem? hg
    refine h.extend (h.tidy.extends_grammar (Nat.le_refl _)
      (fun _ hg' => List.mem_or_eq_of_mem_set hg') (.inl ⟨g, hmem, rfl, rfl⟩)
      (fun _ hrule => covers_rule hmem hrule) fun _ hentry => ?_) rfl
    cases hentry
    exact hp
  · exact h

/-- As long as stamps do not repeat, each change leaves the workshop sound. -/
theorem Sound.change (h : w.Sound) (c : Change V) (hdrawn : (w.change c).drawn ≤ wordLimit) :
    (w.change c).Sound := by
  cases c with
  | newGrammar => exact h.newGrammar hdrawn
  | make layer => exact h.make layer
  | copy place => exact h.copyOf (covers_find w place)
  | register n name place => exact h.register (covers_find w place) hdrawn
  | setEntry n place => exact h.setEntry (covers_find w place)

end Workshop

end PredictiveParsing
