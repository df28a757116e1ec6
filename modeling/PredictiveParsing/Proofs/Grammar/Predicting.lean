import Mathlib.Data.List.Forall2
import PredictiveParsing.Parsing.Run
import PredictiveParsing.Proofs.Running
import PredictiveParsing.Proofs.Grammar.Reaching
import PredictiveParsing.Proofs.Grammar.FirstSets

/-!
# How choices are decided

A choice is decided by the FIRST sets of its alternatives, which the journal may keep. What the
journal keeps is to be trusted (`Journal.Faithful`) if it is what the choice would compute, and
running choices keeps it so (`Journal.Faithful.keep`). Then a choice runs one of its alternatives or
rejects the next token, and `chooseAlternative_cases` says when.
-/

namespace PredictiveParsing

open ParseM

variable {V : Type}

/-! ## Kept FIRST sets -/

/-- Whatever the journal keeps of the choices that `p` reaches are the FIRST sets of their
alternatives. A journal that keeps something tells the choices apart by their slots. -/
def Journal.Faithful (g : Grammar V) (p : Parser V) (j : Journal) : Prop :=
  j.memo = none ∨
    (∀ slot alternatives alternatives', g.Reaches p (.choice slot alternatives) →
      g.Reaches p (.choice slot alternatives') → alternatives = alternatives') ∧
    ∀ slot alternatives firsts, g.Reaches p (.choice slot alternatives) →
      j.kept? slot g.stamp = some firsts → alternatives.mapM g.first = .ok firsts

namespace Journal

variable {g : Grammar V} {p : Parser V} {j : Journal} {slot : Nat}
  {alternatives : List (Parser V)} {firsts : List FirstSet}

theorem Faithful.forgetful : Faithful g p .forgetful := .inl rfl

/-- Events do not touch what is kept. -/
theorem Faithful.note (h : j.Faithful g p) (e : Event) : (j.note e).Faithful g p := h

/-- What is to be trusted below a parser is to be trusted below those that it reaches. -/
theorem Faithful.below {q : Parser V} (h : j.Faithful g p) (hq : g.Reaches p q) :
    j.Faithful g q := by
  rcases h with hnone | ⟨hapart, hkept⟩
  · exact .inl hnone
  · exact .inr ⟨fun _ _ _ h h' => hapart _ _ _ (hq.trans h) (hq.trans h'),
      fun _ _ _ h => hkept _ _ _ (hq.trans h)⟩

/-- What is kept for a slot is the first entry of the slot, if it has the stamp. -/
theorem kept?_eq_some_iff {stamp : Nat} : j.kept? slot stamp = some firsts ↔
    ∃ entries e, j.memo = some entries ∧ entries.find? (fun e => e.slot == slot) = some e ∧
      e.stamp = stamp ∧ e.firsts = firsts := by
  unfold kept?
  cases j.memo with
  | none => simp
  | some entries =>
    dsimp only
    cases hfind : entries.find? fun e => e.slot == slot <;> simp [hfind]

/-- Among the entries of some slots the first one of a slot is the same, if the slot is one of
these. -/
theorem find?_filter_slot (keeps : Nat → Bool) (entries : List MemoEntry) :
    (entries.filter fun e => keeps e.slot).find? (fun e => e.slot == slot) =
      if keeps slot then entries.find? fun e => e.slot == slot else none := by
  rw [List.find?_filter]
  cases hkeeps : keeps slot with
  | true =>
    rw [if_pos rfl]
    congr 1
    funext e
    by_cases he : e.slot = slot <;> simp [he, hkeeps]
  | false =>
    rw [if_neg nofun, List.find?_eq_none]
    intro e _
    by_cases he : e.slot = slot <;> simp [he, hkeeps]

/-- What is kept of a slot afterwards. -/
theorem kept?_keep {slot' stamp stamp' : Nat} {firsts' : List FirstSet}
    (h : (j.keep slot stamp firsts).kept? slot' stamp' = some firsts') :
    (slot' = slot ∧ stamp' = stamp ∧ firsts' = firsts) ∨
      j.kept? slot' stamp' = some firsts' := by
  obtain ⟨_, e, hmemo, hfind, hstamp, hfirsts⟩ := kept?_eq_some_iff.1 h
  obtain ⟨entries, hentries, rfl⟩ := Option.map_eq_some_iff.1 hmemo
  by_cases hslot : slot = slot'
  · rw [List.find?_cons_of_pos (by simpa using hslot)] at hfind
    cases hfind
    exact .inl ⟨hslot.symm, hstamp.symm, hfirsts.symm⟩
  · rw [List.find?_cons_of_neg (by simpa using hslot), find?_filter_slot (· != slot),
      if_pos (by simpa using Ne.symm hslot)] at hfind
    exact .inr (kept?_eq_some_iff.2 ⟨entries, e, hentries, hfind, hstamp, hfirsts⟩)

/-- Keeping the FIRST sets that have been computed keeps the journal faithful. -/
theorem Faithful.keep (h : j.Faithful g p) (hreach : g.Reaches p (.choice slot alternatives))
    (hfirsts : alternatives.mapM g.first = .ok firsts) :
    (j.keep slot g.stamp firsts).Faithful g p := by
  rcases h with hnone | ⟨hapart, hkept⟩
  · left
    show j.memo.map _ = none
    rw [hnone]
    rfl
  · refine .inr ⟨hapart, fun slot' alternatives' firsts' hreach' hkept' => ?_⟩
    rcases kept?_keep hkept' with ⟨rfl, -, rfl⟩ | hkept'
    · rw [hapart _ _ _ hreach' hreach]
      exact hfirsts
    · exact hkept _ _ _ hreach' hkept'

/-- What is still kept after forgetting was kept before, for another slot. -/
theorem kept?_forget {slots : List Nat} {stamp : Nat}
    (h : (j.forget slots).kept? slot stamp = some firsts) :
    slot ∉ slots ∧ j.kept? slot stamp = some firsts := by
  obtain ⟨_, e, hmemo, hfind, hstamp, hfirsts⟩ := kept?_eq_some_iff.1 h
  obtain ⟨entries, hentries, rfl⟩ := Option.map_eq_some_iff.1 hmemo
  rw [find?_filter_slot (!slots.contains ·)] at hfind
  split at hfind
  · next hslot =>
    refine ⟨by simpa using hslot, ?_⟩
    exact kept?_eq_some_iff.2 ⟨entries, e, hentries, hfind, hstamp, hfirsts⟩
  · cases hfind

/-- Forgetting keeps the journal faithful. -/
theorem Faithful.forget (h : j.Faithful g p) (slots : List Nat) :
    (j.forget slots).Faithful g p := by
  rcases h with hnone | ⟨hapart, hkept⟩
  · left
    show j.memo.map _ = none
    rw [hnone]
    rfl
  · exact .inr ⟨hapart, fun _ _ _ hreach hkept' => hkept _ _ _ hreach (kept?_forget hkept').2⟩

end Journal

/-! ## Alternatives -/

section

variable {alternatives : List (Parser V)} {firsts : List FirstSet} {property : FirstSet → Bool}

theorem alternative?_eq_some {index : Nat} {p : Parser V}
    (h : alternative? alternatives firsts property = some (index, p)) :
    ∃ f, (p, f) ∈ alternatives.zip firsts ∧ property f = true := by
  obtain ⟨⟨⟨p, f⟩, index⟩, hfind, he⟩ := Option.map_eq_some_iff.1 h
  cases he
  refine ⟨f, ?_, by simpa using List.find?_some hfind⟩
  exact (List.mem_zipIdx (List.mem_of_find?_eq_some hfind)).2.2 ▸ List.getElem_mem _

/-- Of alternatives that correspond one by one, those at the same place are found. -/
theorem alternative?_rel {R : Parser V → Parser V → Prop} {alternatives' : List (Parser V)}
    (h : List.Forall₂ R alternatives alternatives') (firsts : List FirstSet)
    (property : FirstSet → Bool) :
    Option.Rel (fun found found' => found.1 = found'.1 ∧ R found.2 found'.2)
      (alternative? alternatives firsts property) (alternative? alternatives' firsts property) := by
  unfold alternative?
  generalize 0 = start
  induction h generalizing firsts start with
  | nil => exact .none
  | cons hp _ ih =>
    cases firsts with
    | nil => exact .none
    | cons f firsts =>
      rw [List.zip_cons_cons, List.zip_cons_cons, List.zipIdx_cons, List.zipIdx_cons,
        List.find?_cons, List.find?_cons]
      cases property f with
      | true => exact .some ⟨rfl, hp⟩
      | false => exact ih firsts (start + 1)

theorem alternative?_eq_none (hlength : firsts.length = alternatives.length)
    (h : alternative? alternatives firsts property = none) : firsts.any property = false := by
  have hnone := List.find?_eq_none.1 (Option.map_eq_none_iff.1 h)
  refine List.any_eq_false.2 fun f hf => ?_
  rw [← List.map_snd_zip (Nat.le_of_eq hlength)] at hf
  obtain ⟨entry, hentry, rfl⟩ := List.mem_map.1 hf
  rw [← List.zipIdx_map_fst 0 (alternatives.zip firsts)] at hentry
  obtain ⟨indexed, hindexed, rfl⟩ := List.mem_map.1 hentry
  exact hnone indexed hindexed

end

/-! ## Decisions -/

section

variable {g : Grammar V} {p₀ : Parser V} {slot : Nat} {alternatives : List (Parser V)}
  {firsts : List FirstSet} {c : Context} {token : Token}

/-- What is kept of a choice below `p` are the FIRST sets of its alternatives. -/
theorem mapM_of_kept? (hj : c.journal.Faithful g p₀)
    (hreach : g.Reaches p₀ (.choice slot alternatives))
    (hkept : c.journal.kept? slot g.stamp = some firsts) :
    alternatives.mapM g.first = .ok firsts := by
  rcases hj with hnone | ⟨-, hj⟩
  · rw [Journal.kept?, hnone] at hkept
    cases hkept
  · exact hj _ _ _ hreach hkept

/-- A choice whose alternatives have FIRST sets finds them kept, or computes and keeps them. -/
theorem predict_eq_ok (hj : c.journal.Faithful g p₀)
    (hreach : g.Reaches p₀ (.choice slot alternatives))
    (hfirsts : alternatives.mapM g.first = .ok firsts) :
    predict g slot alternatives c = (.ok firsts, c) ∨
      predict g slot alternatives c = (.ok firsts, ⟨c.tokenizer,
        (c.journal.note (.predicted firsts.length)).keep slot g.stamp firsts⟩) := by
  unfold predict
  rw [bind_of_ok (get_apply c)]
  cases hkept : c.journal.kept? slot g.stamp with
  | some kept =>
    have hsame := mapM_of_kept? hj hreach hkept
    rw [hfirsts] at hsame
    cases hsame
    exact .inl rfl
  | none =>
    rw [hfirsts]
    exact .inr rfl

/-- A choice whose alternatives have no FIRST sets is at fault. -/
theorem predict_eq_error {e : GrammarError} (hj : c.journal.Faithful g p₀)
    (hreach : g.Reaches p₀ (.choice slot alternatives))
    (hfirsts : alternatives.mapM g.first = .error e) :
    predict g slot alternatives c = (.error (.fault (.unpredictable e)), c) := by
  unfold predict
  rw [bind_of_ok (get_apply c)]
  cases hkept : c.journal.kept? slot g.stamp with
  | some kept =>
    have hsame := mapM_of_kept? hj hreach hkept
    rw [hfirsts] at hsame
    cases hsame
  | none =>
    rw [hfirsts]
    rfl

/-- The FIRST sets that a choice is decided by are those of its alternatives, whether they are kept
or computed. -/
theorem predict_apply (hj : c.journal.Faithful g p₀)
    (hreach : g.Reaches p₀ (.choice slot alternatives))
    (hfirsts : alternatives.mapM g.first = .ok firsts) :
    ∃ j, predict g slot alternatives c = (.ok firsts, ⟨c.tokenizer, j⟩) ∧ j.Faithful g p₀ := by
  rcases predict_eq_ok hj hreach hfirsts with h | h
  · exact ⟨c.journal, h, hj⟩
  · exact ⟨_, h, (hj.note _).keep hreach hfirsts⟩

/-- The error of a choice that has no alternative for the token. -/
def noAlternative (token : Token) : ParseError :=
  ⟨"unexpected " ++ token.describe ++ " for any alternative", token.span⟩

/-- A choice runs the first alternative that accepts the next token. If there is none it runs the
first one that can be empty, and rejects the token if there is none of these either. -/
theorem chooseAlternative_cases (run : Parser V → ParseM (Result V))
    (hpeek : c.tokenizer.peek = .ok token) (hj : c.journal.Faithful g p₀)
    (hreach : g.Reaches p₀ (.choice slot alternatives))
    (hfirsts : alternatives.mapM g.first = .ok firsts) :
    ∃ j, j.Faithful g p₀ ∧
      ((∃ p f, (p, f) ∈ alternatives.zip firsts ∧ f.accepts token = true ∧
          chooseAlternative g run slot alternatives c = run p ⟨c.tokenizer, j⟩) ∨
        (firsts.any fun f => f.accepts token) = false ∧
          ((∃ p f, (p, f) ∈ alternatives.zip firsts ∧ f.nullable = true ∧
              chooseAlternative g run slot alternatives c = run p ⟨c.tokenizer, j⟩) ∨
            firsts.any FirstSet.nullable = false ∧
              chooseAlternative g run slot alternatives c =
                (.error (.rejected (noAlternative token)), ⟨c.tokenizer, j⟩))) := by
  obtain ⟨j, hpredict, hj'⟩ := predict_apply hj hreach hfirsts
  have hlength := length_of_mapM hfirsts
  unfold chooseAlternative
  rw [bind_of_ok (peek_apply hpeek), bind_of_ok hpredict]
  cases haccepted : alternative? alternatives firsts fun f => f.accepts token with
  | some selected =>
    obtain ⟨index, p⟩ := selected
    obtain ⟨f, hmem, hf⟩ := alternative?_eq_some haccepted
    exact ⟨_, hj'.note (.selected index token), .inl ⟨p, f, hmem, hf, rfl⟩⟩
  | none =>
    have hnone := alternative?_eq_none hlength haccepted
    cases hempty : alternative? alternatives firsts FirstSet.nullable with
    | some selected =>
      obtain ⟨index, p⟩ := selected
      obtain ⟨f, hmem, hf⟩ := alternative?_eq_some hempty
      exact ⟨_, hj'.note (.selectedEmpty index), .inr ⟨hnone, .inl ⟨p, f, hmem, hf, rfl⟩⟩⟩
    | none =>
      exact ⟨j, hj', .inr ⟨hnone, .inr ⟨alternative?_eq_none hlength hempty, rfl⟩⟩⟩

end

end PredictiveParsing
