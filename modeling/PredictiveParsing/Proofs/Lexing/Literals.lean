import Mathlib.Order.Bounds.Basic
import PredictiveParsing.Proofs.Source.Places
import PredictiveParsing.Proofs.Tokens

/-!
# Sets of literals

A rule for a set of literals tries the longer ones first and takes the first one that the input
begins with. Among literals that come in this order, that one is the longest that matches
(`Rule.isGreatest_of_findSome?`), so what the rule takes depends on which literals there are, and
neither on their order nor on repetitions: `Rule.ofLiterals_takes_longest`.
-/

namespace PredictiveParsing.Rule

variable {input text : Text} {texts : List Text} {n : Nat}

/-- The lengths in bytes of the texts that an input begins with. The empty text does not count. -/
def prefixLengths (texts : List Text) (input : Text) : Set Nat :=
  {n | ∃ text ∈ texts, text ≠ [] ∧ text <+: input ∧ text.byteLength = n}

theorem literalLength?_eq_some_iff :
    literalLength? input text = some n ↔ text ≠ [] ∧ text <+: input ∧ text.byteLength = n := by
  constructor
  · intro h
    obtain ⟨hne, hn, rest, hrest⟩ := literalLength?_eq_some h
    exact ⟨hne, ⟨rest, hrest.symm⟩, hn.symm⟩
  · rintro ⟨hne, hpre, rfl⟩
    have hstarts : input.startsWith text = true := List.isPrefixOf_iff_prefix.2 hpre
    have hnonempty : text.isEmpty = false := List.isEmpty_eq_false_iff.2 hne
    unfold literalLength?
    rw [hstarts, hnonempty]
    rfl

theorem literalLength?_eq_none_iff :
    literalLength? input text = none ↔ (text ≠ [] → ¬text <+: input) := by
  rw [Option.eq_none_iff_forall_ne_some]
  constructor
  · exact fun h hne hpre => h _ (literalLength?_eq_some_iff.2 ⟨hne, hpre, rfl⟩)
  · intro h n hn
    obtain ⟨hne, hpre, -⟩ := literalLength?_eq_some_iff.1 hn
    exact h hne hpre

/-- The order of literals puts the longer ones first. -/
theorem pairwise_longestFirst (texts : List Text) :
    (longestFirst texts).Pairwise fun first later => later.byteLength ≤ first.byteLength := by
  unfold longestFirst
  refine (List.pairwise_mergeSort (fun a b c hab hbc => ?_) (fun a b => ?_) texts).imp
    of_decide_eq_true
  · simp only [decide_eq_true_eq] at *
    omega
  · simp only [Bool.or_eq_true, decide_eq_true_eq]
    omega

/-- The rule tries its literals one by one. At the end of the input none of them matches. -/
theorem matchLength?_ofLiterals (texts : List Text) (input : Text) :
    (ofLiterals texts).matchLength? input =
      (longestFirst texts).findSome? (literalLength? input) := by
  cases input with
  | nil =>
    refine (List.findSome?_eq_none_iff.2 fun text _ => ?_).symm
    exact literalLength?_eq_none_iff.2 fun hne hpre => hne (List.prefix_nil.1 hpre)
  | cons => rfl

/-- Of literals with the longer ones first, the first that matches is the longest that does. -/
theorem isGreatest_of_findSome?
    (hsorted : texts.Pairwise fun first later => later.byteLength ≤ first.byteLength)
    (h : texts.findSome? (literalLength? input) = some n) :
    IsGreatest (prefixLengths texts input) n := by
  induction texts with
  | nil => cases h
  | cons text texts ih =>
    obtain ⟨hfirst, hlater⟩ := List.pairwise_cons.1 hsorted
    rw [List.findSome?_cons] at h
    cases hmatch : literalLength? input text with
    | some m =>
      rw [hmatch] at h
      cases h
      obtain ⟨hne, hpre, rfl⟩ := literalLength?_eq_some_iff.1 hmatch
      refine ⟨⟨text, .head _, hne, hpre, rfl⟩, ?_⟩
      rintro m ⟨other, hmem, -, -, rfl⟩
      rcases List.mem_cons.1 hmem with rfl | hmem
      · exact Nat.le_refl _
      · exact hfirst other hmem
    | none =>
      rw [hmatch] at h
      obtain ⟨⟨found, hmem, hfound⟩, hgreatest⟩ := ih hlater h
      refine ⟨⟨found, .tail _ hmem, hfound⟩, ?_⟩
      rintro m ⟨other, hmem, hne, hpre, rfl⟩
      rcases List.mem_cons.1 hmem with rfl | hmem
      · exact absurd hpre (literalLength?_eq_none_iff.1 hmatch hne)
      · exact hgreatest ⟨other, hmem, hne, hpre, rfl⟩

/-- Only which literals there are decides about the lengths that match. -/
theorem prefixLengths_congr {texts' : List Text} (h : ∀ text, text ∈ texts' ↔ text ∈ texts) :
    prefixLengths texts' input = prefixLengths texts input := by
  ext n
  exact exists_congr fun text => and_congr_left' (h text)

theorem prefixLengths_longestFirst (texts : List Text) (input : Text) :
    prefixLengths (longestFirst texts) input = prefixLengths texts input :=
  prefixLengths_congr fun _ => List.mem_mergeSort

theorem matchLength?_ofLiterals_eq_none_iff :
    (ofLiterals texts).matchLength? input = none ↔ prefixLengths texts input = ∅ := by
  rw [matchLength?_ofLiterals, List.findSome?_eq_none_iff, ← prefixLengths_longestFirst,
    Set.eq_empty_iff_forall_notMem]
  constructor
  · rintro h n ⟨text, hmem, hne, hpre, -⟩
    exact literalLength?_eq_none_iff.1 (h text hmem) hne hpre
  · exact fun h text hmem =>
      literalLength?_eq_none_iff.2 fun hne hpre => h _ ⟨text, hmem, hne, hpre, rfl⟩

theorem matchLength?_ofLiterals_eq_some_iff :
    (ofLiterals texts).matchLength? input = some n ↔ IsGreatest (prefixLengths texts input) n := by
  have isGreatest {m : Nat} (hm : (ofLiterals texts).matchLength? input = some m) :
      IsGreatest (prefixLengths texts input) m := by
    rw [← prefixLengths_longestFirst]
    exact isGreatest_of_findSome? (pairwise_longestFirst texts) (matchLength?_ofLiterals .. ▸ hm)
  refine ⟨isGreatest, fun hn => ?_⟩
  cases hmatch : (ofLiterals texts).matchLength? input with
  | none => exact absurd hn.1 (matchLength?_ofLiterals_eq_none_iff.1 hmatch ▸ Set.notMem_empty n)
  | some m => rw [(isGreatest hmatch).unique hn]

/-- The rule for a set of literals takes the longest literal that the input begins with, and nothing
if there is none but the empty one. So its literals may come in any order and more than once, and
what it takes ends between two scalars. -/
theorem ofLiterals_takes_longest (texts : List Text) (input : Text) :
    (∀ n, (ofLiterals texts).matchLength? input = some n ↔
      IsGreatest {n | ∃ text ∈ texts, text ≠ [] ∧ text <+: input ∧ text.byteLength = n} n) ∧
    ((ofLiterals texts).matchLength? input = none ↔
      ¬∃ text ∈ texts, text ≠ [] ∧ text <+: input) ∧
    (∀ texts', (∀ text, text ∈ texts' ↔ text ∈ texts) →
      (ofLiterals texts').matchLength? input = (ofLiterals texts).matchLength? input) ∧
    ∀ n, (ofLiterals texts).matchLength? input = some n → input.IsBoundary n := by
  refine ⟨fun n => matchLength?_ofLiterals_eq_some_iff, ?_, fun texts' hsame => ?_, fun n hn => ?_⟩
  · rw [matchLength?_ofLiterals_eq_none_iff, Set.eq_empty_iff_forall_notMem]
    constructor
    · rintro h ⟨text, hmem, hne, hpre⟩
      exact h _ ⟨text, hmem, hne, hpre, rfl⟩
    · rintro h n ⟨text, hmem, hne, hpre, -⟩
      exact h ⟨text, hmem, hne, hpre⟩
  · refine Option.ext fun n => ?_
    rw [matchLength?_ofLiterals_eq_some_iff, matchLength?_ofLiterals_eq_some_iff,
      prefixLengths_congr hsame]
  · obtain ⟨⟨text, -, -, hpre, hlength⟩, -⟩ := matchLength?_ofLiterals_eq_some_iff.1 hn
    exact ⟨text, hpre, hlength⟩

/-- Shorter literals, repeated ones and the empty one do not get in the way. -/
example : (ofLiterals [['λ'], [], ['λ', 'x', 'μ'], ['λ', 'x'], ['λ']]).matchLength?
    ['λ', 'x', 'y'] = some 3 := by
  cbv

end PredictiveParsing.Rule
