import Mathlib.Data.Set.Card
import Mathlib.Order.Monotone.Basic
import PredictiveParsing.Proofs.Expression.Alike
import PredictiveParsing.Proofs.Grammar.Safety

/-!
# Depths that are enough

A parser that is not exhausted at some depth does the same at every larger one, and what it does
does not depend on what the journal keeps (`Parser.runWithin_follows`). `Parser.run` runs a parser
at a depth that is enough: if it is not exhausted at some depth, however large, `Parser.run` answers
what it answers there (`Parser.run_of_runWithin`). So a run is exhausted only if it goes down for
ever.

The reason is that parsers nest in finitely many ways. Below a parser there are as many parsers as
the sizes say, and in front of each unread text there is one tokenizer. With each level of depth a
parser more has an answer in front of one of them, or there are no more answers to come.
-/

namespace PredictiveParsing

open ParseM

variable {V : Type}

/-! ## Tokenizers ahead -/

namespace Tokenizer

variable {t t' t'' : Tokenizer}

/-- In front of an unread text of one length there is one tokenizer. -/
theorem LeadsTo.unique (h : t.LeadsTo t') (h' : t.LeadsTo t'')
    (hlength : t'.cursor.rest.length = t''.cursor.rest.length) : t' = t'' := by
  rcases h.linear h' with hle | hle
  · rcases hle.eq_or_lt with heq | hlt
    · exact heq.symm
    · omega
  · rcases hle.eq_or_lt with heq | hlt
    · exact heq
    · omega

/-- The tokenizers ahead. -/
def ahead (t : Tokenizer) : Set Tokenizer := { t' | t.LeadsTo t' }

theorem unread_mem_range (h : t' ∈ t.ahead) :
    t'.cursor.rest.length ∈ (Finset.range (t.cursor.rest.length + 1) : Set Nat) := by
  refine Finset.mem_coe.2 (Finset.mem_range.2 (Nat.lt_succ_of_le ?_))
  rcases LeadsTo.eq_or_lt h with rfl | hlt
  · exact Nat.le_refl _
  · exact Nat.le_of_lt hlt

theorem injOn_ahead (t : Tokenizer) :
    Set.InjOn (fun t' : Tokenizer => t'.cursor.rest.length) t.ahead :=
  fun _ h _ h' => LeadsTo.unique h h'

theorem finite_ahead (t : Tokenizer) : t.ahead.Finite :=
  .of_injOn (fun _ => unread_mem_range) (injOn_ahead t) (Finset.finite_toSet _)

/-- There are no more tokenizers ahead than scalars, and one. -/
theorem ncard_ahead_le (t : Tokenizer) : t.ahead.ncard ≤ t.cursor.rest.length + 1 := by
  have hle := Set.ncard_le_ncard_of_injOn (fun t' : Tokenizer => t'.cursor.rest.length)
    (fun _ => unread_mem_range) (injOn_ahead t) (Finset.finite_toSet _)
  rwa [Set.ncard_coe_finset, Finset.card_range] at hle

end Tokenizer

/-! ## Depths and journals do not matter -/

section

variable {g : Grammar V} {p q : Parser V} {k k' : Journal.Kind g p} {t : Tokenizer}
  {limited : Prop} {c d : Context}

theorem Grammar.rule?_of_resolve {name : String} {r : Parser V} (h : g.resolve name = .ok r) :
    g.rule? name = some r := by
  unfold resolve at h
  split at h
  · next hrule => cases h; exact hrule
  · cases h

/-- A combinator does alike if everything below `p` does. -/
theorem Parser.top_follows {run run' : Parser V → ParseM (Result V)}
    (hrun : ∀ q, g.Reaches p q → Follows limited t k k' (run q) (run' q)) (hq : g.Reaches p q) :
    Follows limited t k k' (q.top g run) (q.top g run') := by
  cases q with
  | token type => exact follows_expectToken type
  | endOfInput => exact follows_expectEnd
  | tuple members action =>
    refine follows_sequence (List.forall₂_same.2 fun m hm => ⟨rfl, ?_⟩) action
    exact hrun m.parser (hq.child (.member hm))
  | choice slot alternatives =>
    refine follows_choice (follows_predict hq) (List.forall₂_same.2 fun r hr => ?_)
    exact hrun r (hq.child (.alternative hr))
  | many body minimum => exact follows_repetition (hrun body (hq.child .repeated)) minimum
  | embed body => exact hrun body (hq.child .embedded)
  | expr o => exact Operators.follows_expression fun key r hr => hrun r (hq.child (.role hr))
  | ref name =>
    exact .bind_trust fun r hr => hrun r (hq.rule (Grammar.rule?_of_resolve hr))

/-- At a larger depth a parser does the same, unless it was exhausted. At the same depth it always
does the same, whatever is kept. -/
theorem Parser.runWithin_follows {depth depth' : Nat}
    (h : depth = depth' ∨ limited ∧ depth ≤ depth') (hq : g.Reaches p q) :
    Follows limited t k k' (q.runWithin g depth) (q.runWithin g depth') := by
  induction depth generalizing depth' q with
  | zero =>
    rcases h with rfl | ⟨hlimited, -⟩
    · exact .throw .exhausted
    · exact fun c d _ => .inl ⟨hlimited, c, rfl⟩
  | succ depth ih =>
    obtain ⟨depth', rfl⟩ : ∃ n, depth' = n + 1 := Nat.exists_eq_add_one.2 (by omega)
    rw [runWithin_succ, runWithin_succ]
    refine top_follows (fun r hr => ih ?_ hr) hq
    rcases h with h | ⟨hlimited, h⟩
    · exact .inl (Nat.succ.inj h)
    · exact .inr ⟨hlimited, Nat.le_of_succ_le_succ h⟩

end

/-! ## Levels of depth -/

section

variable {g : Grammar V} {p q : Parser V} {k k' : Journal.Kind g p} {t : Tokenizer}
  {limited : Prop} {c d : Context} {n m : Nat}

/-- Run below `p`, each with a tokenizer ahead of `t`, these parsers have answers at the depth. -/
def answering (g : Grammar V) (p : Parser V) (t : Tokenizer) (depth : Nat) :
    Set (Parser V × Tokenizer) :=
  { pair | g.Reaches p pair.1 ∧ t.LeadsTo pair.2 ∧
    (pair.1.runWithin g depth).Answers ⟨pair.2, .forgetful⟩ }

/-- An answer does not depend on what is kept. -/
theorem mem_answering (hq : g.Reaches p q) (ht : t.LeadsTo c.tokenizer)
    (hj : c.journal.Faithful g p) :
    (q, c.tokenizer) ∈ answering g p t n ↔ (q.runWithin g n).Answers c := by
  have halike : Alike t (.trusted g p) (.trusted g p) c ⟨c.tokenizer, .forgetful⟩ :=
    ⟨rfl, ht, hj, .forgetful⟩
  have hfollows : Follows False t (.trusted g p) (.trusted g p) (q.runWithin g n)
      (q.runWithin g n) := Parser.runWithin_follows (.inl rfl) hq
  exact ⟨fun h => hfollows.answers halike.symm h.2.2, fun h => ⟨hq, ht, hfollows.answers halike h⟩⟩

/-- What has an answer at a depth has it at a larger one. -/
theorem answering_mono (h : n ≤ m) : answering g p t n ⊆ answering g p t m := by
  rintro ⟨q, t'⟩ ⟨hq, ht, hanswers⟩
  have halike : Alike t (.trusted g p) (.trusted g p) ⟨t', .forgetful⟩ ⟨t', .forgetful⟩ :=
    ⟨rfl, ht, .forgetful, .forgetful⟩
  exact ⟨hq, ht, (Parser.runWithin_follows (.inr ⟨trivial, h⟩) hq).answers halike hanswers⟩

/-- If everything that has an answer at a larger depth has one at the smaller depth, then what is
run at the larger depth does alike at the smaller. -/
theorem Parser.runWithin_follows_of_answering (h : answering g p t m ⊆ answering g p t n)
    (hle : n ≤ m) (hq : g.Reaches p q) :
    Follows True t (.trusted g p) (.trusted g p) (q.runWithin g m) (q.runWithin g n) := by
  intro c d hcd
  by_cases hanswers : (q.runWithin g m).Answers c
  · have hmem := h ((mem_answering hq hcd.behind hcd.left).2 hanswers)
    rw [← hcd.tokenizer] at hmem
    have hanswers' := (mem_answering hq hcd.symm.behind hcd.right).1 hmem
    -- at the smaller depth there is an answer, and the larger depth has the same one
    obtain ⟨outcome, d', c', hd, hc, halike⟩ :=
      (runWithin_follows (.inr ⟨trivial, hle⟩) hq).ends_alike hcd.symm fun _ => hanswers'
    exact .inr ⟨outcome, c', d', hc, hd, halike.symm⟩
  · exact .inl ⟨trivial, (q.runWithin g m c).2, Prod.ext (not_not.1 hanswers) rfl⟩

/-- Where a level of depth gives no answer that the one before does not, neither does the next. -/
theorem answering_stagnates (h : answering g p t (n + 1) ⊆ answering g p t n) :
    answering g p t (n + 2) ⊆ answering g p t (n + 1) := by
  rintro ⟨q, t'⟩ ⟨hq, ht, hanswers⟩
  refine ⟨hq, ht, ?_⟩
  have halike : Alike t (.trusted g p) (.trusted g p) ⟨t', .forgetful⟩ ⟨t', .forgetful⟩ :=
    ⟨rfl, ht, .forgetful, .forgetful⟩
  rw [Parser.runWithin_succ] at hanswers ⊢
  have hbelow (r : Parser V) (hr : g.Reaches p r) :=
    Parser.runWithin_follows_of_answering h (Nat.le_succ n) hr
  exact (Parser.top_follows hbelow hq).answers halike hanswers

/-- Everything that is ever run below `p`: its parts and those of the rules, each in front of each
unread text. -/
theorem answering_subset :
    answering g p t n ⊆ { q | q ∈ p.parts ++ g.parts } ×ˢ t.ahead :=
  fun _ ⟨hq, ht, _⟩ => ⟨hq.mem_parts, ht⟩

theorem finite_answering (n : Nat) : (answering g p t n).Finite :=
  ((List.finite_toSet _).prod (Tokenizer.finite_ahead t)).subset answering_subset

/-- There are no more answers than the depth allows that `Parser.run` goes down to. -/
theorem ncard_answering_le (n : Nat) :
    (answering g p t n).ncard ≤ p.depthFor g t.cursor.rest.length := by
  classical
  have hparts : Set.ncard { q | q ∈ p.parts ++ g.parts } ≤ p.size + g.size := by
    rw [← List.coe_toFinset, Set.ncard_coe_finset, ← p.length_parts, ← g.length_parts,
      ← List.length_append]
    exact List.toFinset_card_le _
  calc (answering g p t n).ncard
      ≤ Set.ncard ({ q | q ∈ p.parts ++ g.parts } ×ˢ t.ahead) :=
        Set.ncard_le_ncard answering_subset
          ((List.finite_toSet _).prod (Tokenizer.finite_ahead t))
    _ = Set.ncard { q | q ∈ p.parts ++ g.parts } * t.ahead.ncard := Set.ncard_prod
    _ ≤ (p.size + g.size) * (t.cursor.rest.length + 1) :=
        Nat.mul_le_mul hparts (Tokenizer.ncard_ahead_le t)
    _ ≤ p.depthFor g t.cursor.rest.length := by
        rw [Nat.mul_comm]
        exact Nat.mul_le_mul_left _ (Nat.le_succ _)

/-- At the depth that `Parser.run` goes down to there are all answers. -/
theorem answering_subset_depthFor (n : Nat) :
    answering g p t n ⊆ answering g p t (p.depthFor g t.cursor.rest.length) := by
  rcases Nat.le_total n (p.depthFor g t.cursor.rest.length) with hle | hle
  · exact answering_mono hle
  · have hstable := Nat.stabilises_of_monotone
      (f := fun n => (answering g p t n).ncard)
      (fun _ m h => Set.ncard_le_ncard (answering_mono h) (finite_answering m))
      ncard_answering_le (fun m h => ?_) hle
    · have hsame := Set.eq_of_subset_of_ncard_le (answering_mono hle) (Nat.le_of_eq hstable)
        (finite_answering n)
      exact hsame.symm.subset
    · -- as many answers as before are the same answers, and then no more are to come
      have hsame := Set.eq_of_subset_of_ncard_le (answering_mono (Nat.le_succ m))
        (Nat.le_of_eq h.symm) (finite_answering (g := g) (p := p) (t := t) (m + 1))
      have hnext := answering_stagnates hsame.symm.subset
      rw [hnext.antisymm (answering_mono (Nat.le_succ _))]

/-! ## Runs -/

/-- A run does alike whatever is kept. -/
theorem Parser.run_follows (hq : g.Reaches p q) :
    Follows False t k k' (q.run g) (q.run g) :=
  .bind .unread fun _ => runWithin_follows (.inl rfl) hq

/-- A repetition runs its body one level below itself. -/
theorem Parser.run_many (g : Grammar V) (body : Parser V) (minimum : Nat) (c : Context) :
    ∃ depth, (many body minimum).depthFor g c.tokenizer.cursor.rest.length = depth + 1 ∧
      (many body minimum).run g c = repetition (runWithin g depth body) minimum c := by
  obtain ⟨depth, hdepth⟩ : ∃ depth,
      (many body minimum).depthFor g c.tokenizer.cursor.rest.length = depth + 1 :=
    Nat.exists_eq_add_one.2 (Nat.mul_pos (Nat.succ_pos _) (Nat.succ_pos _))
  refine ⟨depth, hdepth, ?_⟩
  show runWithin g _ _ c = _
  rw [hdepth]
  rfl

/-- The depth of a repetition leaves enough for its body. -/
theorem Parser.depthFor_lt_many (g : Grammar V) (body : Parser V) (minimum n : Nat) :
    body.depthFor g n < (many body minimum).depthFor g n := by
  have hsize : (many body minimum).size = body.size + 1 := rfl
  exact Nat.mul_lt_mul_of_pos_left (by omega) (Nat.succ_pos n)

/-- A parser that is not exhausted at some depth is not exhausted, and its run does what it does
there. -/
theorem Parser.run_of_runWithin (hcd : Alike c.tokenizer (.trusted g p) (.trusted g p) c d)
    (h : (p.runWithin g n).Answers c) :
    ∃ outcome c' d', p.runWithin g n c = (outcome, c') ∧ p.run g d = (outcome, d') ∧
      Alike c.tokenizer (.trusted g p) (.trusted g p) c' d' := by
  have hrun : p.run g d = p.runWithin g (p.depthFor g c.tokenizer.cursor.rest.length) d := by
    rw [← hcd.tokenizer]
    rfl
  rw [hrun]
  rcases Nat.le_total n (p.depthFor g c.tokenizer.cursor.rest.length) with hle | hle
  · exact (runWithin_follows (.inr ⟨trivial, hle⟩) .refl).ends_alike hcd fun _ => h
  · exact (runWithin_follows_of_answering (answering_subset_depthFor n) hle .refl).ends_alike hcd
      fun _ => h

end

end PredictiveParsing
