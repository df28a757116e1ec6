import PredictiveParsing.Proofs.Sharing.Copying
import PredictiveParsing.Proofs.Sharing.Soundness

/-!
# What workshops keep

In a sound workshop a run comes to what it comes to if all choices compute their FIRST sets, and it
leaves the workshop sound (`Workshop.Sound.answer`). Changes leave it sound as long as stamps do not
repeat, so that no run can tell whether FIRST sets are kept or computed, nor which runs were before
(`Workshop.answer_after`).
-/

namespace PredictiveParsing

namespace Workshop

variable {V : Type} {w w' : Workshop V} {g : Grammar V} {p : Parser V} {slot stamp : Nat}
  {alternatives alternatives' : List (Parser V)} {firsts : List FirstSet} {j : Journal}

/-! ## Runs -/

/-- What a covered parser reaches in a grammar of the workshop, the workshop owns. -/
theorem Covers.owns (hp : w.Covers p) (hg : g ∈ w.grammars)
    (h : g.Reaches p (.choice slot alternatives)) : w.Owns slot alternatives := by
  rcases List.mem_append.1 h.mem_parts with hpart | hpart
  · exact hp _ _ hpart
  · obtain ⟨rule, hrule, hpart⟩ := List.mem_flatMap.1 hpart
    exact .rule hg hrule hpart

/-- Runs in a grammar of the workshop keep only what is right. -/
def Tidy.kind (h : w.Tidy) (hg : g ∈ w.grammars) (hp : w.Covers p) : Journal.Kind g p where
  Holds := w.Trusts
  faithful hj :=
    .inr ⟨fun _ _ _ hreach hreach' => h.apart _ _ _ (hp.owns hg hreach) (hp.owns hg hreach'),
      fun _ _ _ hreach hkept => (hj _ _ _ hkept).firsts g hg rfl _ (hp.owns hg hreach)⟩
  note _ hj := hj
  keep {_ slot alternatives firsts} hj hreach hfirsts := by
    intro slot' stamp firsts' hkept
    rcases Journal.kept?_keep hkept with ⟨rfl, rfl, rfl⟩ | hkept
    · have howns := hp.owns hg hreach
      refine ⟨h.slot_lt _ _ howns, h.stamp_lt g hg, fun g' hg' hstamp alternatives' howns' => ?_⟩
      rw [h.apart _ _ _ howns' howns, Grammar.first_congr (h.rules _ hg' _ hg hstamp)]
      exact hfirsts
    · exact hj _ _ _ hkept

/-- With a journal that keeps what is right, a parser comes to what it comes to if nothing is kept,
and the journal keeps what is right. -/
theorem Tidy.execute (h : w.Tidy) (hg : g ∈ w.grammars) (hp : w.Covers p) (hj : w.Trusts j)
    (t : Tokenizer) :
    (execute j (p.run g) t).1 = (execute .forgetful (p.run g) t).1 ∧
      w.Trusts (execute j (p.run g) t).2 := by
  have halike : Alike t (h.kind hg hp) (.keepless g p) ⟨t, j⟩ ⟨t, .forgetful⟩ :=
    ⟨rfl, .refl t, hj, rfl⟩
  obtain ⟨outcome, c, d, hc, hd, hcd⟩ :=
    (Parser.run_follows .refl).ends_alike halike fun hlimited => hlimited.elim
  rw [execute_of_run hc, execute_of_run hd, hcd.tokenizer]
  exact ⟨rfl, hcd.left⟩

/-- A workshop with another journal that keeps what is right is sound. -/
theorem Tidy.sound (h : w.Tidy) (hj : w.Trusts j) : Sound { w with journal := j } := by
  have same {slot : Nat} {alternatives : List (Parser V)}
      (howns : Owns { w with journal := j } slot alternatives) : w.Owns slot alternatives :=
    howns.mono (fun _ h => h) fun _ h => h
  exact {
    tidy :=
      { slot_lt := fun _ _ howns => h.slot_lt _ _ (same howns)
        apart := fun _ _ _ howns howns' => h.apart _ _ _ (same howns) (same howns')
        stamp_lt := h.stamp_lt
        rules := h.rules }
    kept := fun _ _ _ hkept =>
      { slot_lt := (hj _ _ _ hkept).slot_lt
        stamp_lt := (hj _ _ _ hkept).stamp_lt
        firsts := fun g hg hstamp _ howns => (hj _ _ _ hkept).firsts g hg hstamp _ (same howns) } }

/-- What is right with a copy at hand, for other slots than those of the copy, is right without. -/
theorem trusts_forget (hj : (w.copyOf p).2.Trusts j) :
    w.Trusts (j.forget (w.copyOf p).1.slots) := by
  intro slot stamp firsts hkept
  obtain ⟨hslot, hkept⟩ := Journal.kept?_forget hkept
  have hright := hj _ _ _ hkept
  refine ⟨?_, hright.stamp_lt, fun g hg hstamp alternatives howns => ?_⟩
  · refine Nat.lt_of_not_le fun hge => hslot (Parser.mem_slots_relabel.2 ⟨hge, hright.slot_lt⟩)
  · exact hright.firsts g hg hstamp alternatives
      (howns.mono (fun _ h => List.mem_append_left _ h) fun _ h => h)

/-- In a sound workshop no run can tell whether FIRST sets are kept or computed, and each run leaves
the workshop sound. -/
theorem Sound.answer (h : w.Sound) (r : Run) :
    (w.answer r).1 = w.recomputed r ∧ (w.answer r).2.Sound := by
  unfold Workshop.answer recomputed
  cases r with
  | parse n t =>
    dsimp only
    cases hg : w.grammars[n]? with
    | none => exact ⟨rfl, h⟩
    | some g =>
      have hmem := List.mem_of_getElem? hg
      dsimp only
      cases hentry : g.entry? with
      | none => exact ⟨congrArg some (execute_missingEntry hentry).symm, h⟩
      | some entry =>
        have hcopy := h.copyOf (covers_of_entry hmem hentry)
        obtain ⟨hrun, hj⟩ := hcopy.tidy.execute hmem covers_copyOf hcopy.kept t
        exact ⟨congrArg some (hrun.trans (execute_copy hentry _)), h.tidy.sound (trusts_forget hj)⟩
  | parser n place t =>
    dsimp only
    cases hg : w.grammars[n]? with
    | none => exact ⟨rfl, h⟩
    | some g =>
      obtain ⟨hrun, hj⟩ :=
        h.tidy.execute (List.mem_of_getElem? hg) (covers_find w place) h.kept t
      exact ⟨congrArg some hrun, h.tidy.sound hj⟩

/-! ## Histories -/

/-- Runs change nothing but the journal. -/
theorem answer_eq (w : Workshop V) (r : Run) : ∃ j, (w.answer r).2 = { w with journal := j } := by
  unfold Workshop.answer
  cases r with
  | parse n t =>
    dsimp only
    cases w.grammars[n]? with
    | none => exact ⟨_, rfl⟩
    | some g =>
      dsimp only
      cases g.entry? <;> exact ⟨_, rfl⟩
  | parser n place t =>
    dsimp only
    cases w.grammars[n]? <;> exact ⟨_, rfl⟩

theorem le_drawn_step (w : Workshop V) (s : Step V) : w.drawn ≤ (w.step s).drawn := by
  cases s with
  | change c =>
    cases c with
    | newGrammar => exact Nat.le_succ _
    | make | copy => exact Nat.le_refl _
    | register n name place =>
      show w.drawn ≤ (w.register n name (w.find place)).drawn
      unfold register
      split
      · exact Nat.le_succ _
      · exact Nat.le_refl _
    | setEntry n place =>
      show w.drawn ≤ (w.setEntry n (w.find place)).drawn
      unfold setEntry
      split <;> exact Nat.le_refl _
  | run r =>
    obtain ⟨j, hj⟩ := answer_eq w r
    exact Nat.le_of_eq (congrArg Workshop.drawn hj).symm

theorem le_drawn_after (w : Workshop V) (steps : List (Step V)) :
    w.drawn ≤ (w.after steps).drawn := by
  induction steps generalizing w with
  | nil => exact Nat.le_refl _
  | cons s steps ih => exact Nat.le_trans (le_drawn_step w s) (ih (w.step s))

/-- As long as stamps do not repeat, all steps leave the workshop sound. -/
theorem Sound.after (h : w.Sound) (steps : List (Step V))
    (hdrawn : (w.after steps).drawn ≤ wordLimit) : (w.after steps).Sound := by
  induction steps generalizing w with
  | nil => exact h
  | cons s steps ih =>
    refine ih ?_ hdrawn
    cases s with
    | change c => exact h.change c (Nat.le_trans (le_drawn_after _ steps) hdrawn)
    | run r => exact (h.answer r).2

/-- The workshop without what it keeps. -/
def emptied (w : Workshop V) : Workshop V := { w with journal := .forgetful }

/-- Changes do not depend on what is kept. -/
theorem emptied_change (w : Workshop V) (c : Change V) :
    (w.change c).emptied = (w.emptied.change c).emptied := by
  cases c with
  | newGrammar | make | copy => rfl
  | register n name place =>
    show (w.register n name (w.find place)).emptied =
      (w.emptied.register n name (w.find place)).emptied
    have hgrammars : w.emptied.grammars[n]? = w.grammars[n]? := rfl
    unfold register
    rw [hgrammars]
    cases w.grammars[n]? <;> rfl
  | setEntry n place =>
    show (w.setEntry n (w.find place)).emptied = (w.emptied.setEntry n (w.find place)).emptied
    have hgrammars : w.emptied.grammars[n]? = w.grammars[n]? := rfl
    unfold setEntry
    rw [hgrammars]
    cases w.grammars[n]? <;> rfl

/-- Apart from what it keeps, a workshop is what its changes have made of it. -/
theorem emptied_after (h : w.emptied = w'.emptied) (steps : List (Step V)) :
    (w.after steps).emptied = (w'.after (steps.filter Step.isChange)).emptied := by
  induction steps generalizing w w' with
  | nil => exact h
  | cons s steps ih =>
    cases s with
    | change c =>
      have hchanged : (w.change c).emptied = (w'.change c).emptied := by
        rw [emptied_change w, emptied_change w', h]
      exact ih hchanged
    | run r =>
      obtain ⟨j, hj⟩ := answer_eq w r
      have hrun : (w.answer r).2.emptied = w'.emptied := by
        rw [hj]
        exact h
      exact ih hrun

/-- After any steps in a workshop, as long as stamps do not repeat, a run comes to what it comes to
if all choices compute their FIRST sets from the present rules. So it does not depend on the runs
before. -/
theorem answer_after (steps : List (Step V)) (r : Run)
    (hdrawn : (start.after steps).drawn ≤ wordLimit) :
    ((start.after steps).answer r).1 = (start.after steps).recomputed r ∧
      ((start.after steps).answer r).1 =
        ((start.after (steps.filter Step.isChange)).answer r).1 := by
  have hsame := emptied_after (w := start) rfl steps
  have hdrawn' : (start.after (steps.filter Step.isChange)).drawn ≤ wordLimit :=
    Nat.le_trans (Nat.le_of_eq (congrArg Workshop.drawn hsame).symm) hdrawn
  have hrun := ((Sound.start.after steps hdrawn).answer r).1
  have hrun' := ((Sound.start.after _ hdrawn').answer r).1
  have hrecomputed := congrArg (recomputed · r) hsame
  refine ⟨hrun, hrun.trans (Eq.trans ?_ hrun'.symm)⟩
  cases r with
  | parse => exact hrecomputed
  | parser => exact hrecomputed

/-- A line is an item or a blank. Items are digits when a line is parsed, and letters afterwards. -/
def replacedItem : List (Step Unit) :=
  [.change .newGrammar, .change (.make (.ref "item")), .change (.make (.token "blank")),
    .change (.make (.choice [.atHand 0 0, .atHand 1 0])), .change (.make (.token "digit")),
    .change (.make (.token "letter")), .change (.register 0 "line" (.atHand 2 0)),
    .change (.register 0 "item" (.atHand 3 0)),
    .run (.parse 0 ⟨[("digit", .interval '0' '9')], .ofInput ['4']⟩),
    .change (.register 0 "item" (.atHand 4 0))]

/-- Behind the replacement a letter is an item, although what is kept for the line is still that an
item begins with a digit. -/
theorem replacedItem_answer_after : (start.after replacedItem).drawn ≤ wordLimit ∧
    (start.after replacedItem).journal.kept? 2 2 =
      some [⟨[.token "digit"], false⟩, ⟨[.token "blank"], false⟩] ∧
    ∃ result t,
      ((start.after replacedItem).answer
        (.parse 0 ⟨[("letter", .interval 'a' 'z')], .ofInput ['x']⟩)).1 =
          some (.ok result, t) := by
  have hdrawn : (start.after replacedItem).drawn ≤ wordLimit := by
    have hsame := congrArg Workshop.drawn (emptied_after (w := start) rfl replacedItem)
    exact Nat.le_trans (Nat.le_of_eq hsame) (by decide)
  exact ⟨hdrawn, rfl, _, _, (answer_after replacedItem _ hdrawn).1.trans rfl⟩

end Workshop

end PredictiveParsing
