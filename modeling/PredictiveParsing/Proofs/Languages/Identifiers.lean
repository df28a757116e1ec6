import Mathlib.Data.List.TakeWhile
import PredictiveParsing.Languages.Lambda
import PredictiveParsing.Proofs.Regex.Running

/-!
# Identifiers of lambda terms

An identifier is a letter or underscore, then letters, digits and underscores, and then primes
(`isName`). The regular expression of identifiers matches the longest identifier that a text begins
with (`matchEnd?_name`), and nothing else (`name_of_matchEnd?`).
-/

namespace PredictiveParsing.Lambda

open Regex

/-- A letter or underscore. -/
def startsName (c : Char) : Bool := c.isAlpha || c == '_'

/-- A letter, digit or underscore. -/
def continuesName (c : Char) : Bool := c.isAlphanum || c == '_'

/-- A letter or underscore, then letters, digits and underscores, and then primes. -/
def isName : Text → Bool
  | [] => false
  | c :: cs => startsName c && (cs.dropWhile continuesName).all (· == '\'')

/-- No identifier goes on with the text. -/
def EndsName (text : Text) : Prop :=
  ∀ c ∈ text.head?, continuesName c = false ∧ c ≠ '\''

/-! ## Classes -/

/-- The class of letters. -/
def letters : ScalarSet := .ofChars [('a', 'z'), ('A', 'Z'), ('_', '_')]

/-- The class of letters and digits. -/
def wordScalars : ScalarSet := .ofChars [('a', 'z'), ('A', 'Z'), ('_', '_'), ('0', '9')]

theorem isAlpha_iff (c : Char) : c.isAlpha = true ↔
    (65 ≤ c.toNat ∧ c.toNat ≤ 90) ∨ (97 ≤ c.toNat ∧ c.toNat ≤ 122) := by
  have halpha : c.isAlpha = (c.isUpper || c.isLower) := rfl
  have hupper : c.isUpper = decide (c.val ≥ 65 ∧ c.val ≤ 90) := rfl
  have hlower : c.isLower = (decide (c.val ≥ 97) && decide (c.val ≤ 122)) := rfl
  simp only [halpha, hupper, hlower, Bool.or_eq_true, Bool.and_eq_true, decide_eq_true_eq,
    ge_iff_le, UInt32.le_iff_toNat_le]
  exact Iff.rfl

theorem contains_letters (c : Char) : letters.contains c = startsName c := by
  have hranges : letters.ranges = [(65, 90), (95, 95), (97, 122)] := rfl
  rw [Bool.eq_iff_iff]
  simp only [ScalarSet.contains, hranges, ScalarSet.inRanges, startsName, isAlpha_iff,
    Bool.or_eq_true, beq_iff_eq, ← Char.toNat_inj]
  grind

theorem contains_wordScalars (c : Char) : wordScalars.contains c = continuesName c := by
  have hranges : wordScalars.ranges = [(48, 57), (65, 90), (95, 95), (97, 122)] := rfl
  have halphanum : c.isAlphanum = (c.isAlpha || c.isDigit) := rfl
  rw [Bool.eq_iff_iff]
  simp only [ScalarSet.contains, hranges, ScalarSet.inRanges, continuesName, halphanum,
    isAlpha_iff, Char.isDigit_iff_toNat, Bool.or_eq_true, beq_iff_eq, ← Char.toNat_inj]
  grind

/-! ## Steps of the regular expression -/

/-- The letters and digits of an identifier. -/
def wordRounds : Matcher := .rounds 3 true (.one 2 wordScalars)

/-- The primes of an identifier. -/
def primeRounds : Matcher := .rounds 1 true (.one 0 (.single '\''))

/-- What is left behind the first scalar of an identifier. -/
def inWord : List Remainder := [[wordRounds, primeRounds]]

/-- What is left behind a prime. -/
def inPrimes : List Remainder := [[primeRounds]]

variable {c : Char} {place : Place}

theorem remainders_first (text : Text) :
    (Front.ofRemainders ⟨none, text, 0⟩ [[identifierMatcher]]).remainders c =
      if startsName c then [[.seq wordRounds primeRounds]] else [] := by
  rw [← contains_letters]
  rfl

/-- A prime is neither a letter nor a digit. -/
theorem ne_prime (h : continuesName c = true) : c ≠ '\'' := by
  rintro rfl
  cases h

theorem remainders_inWord :
    (Front.ofRemainders place inWord).remainders c =
      if continuesName c then inWord else if c = '\'' then inPrimes else [] := by
  have hfront : Front.ofRemainders place inWord =
      ⟨_, [(.single '\'', [primeRounds]), (wordScalars, [wordRounds, primeRounds])], true⟩ := rfl
  rw [hfront]
  simp only [Front.remainders, List.foldl_cons, List.foldl_nil, ScalarSet.contains_single,
    contains_wordScalars, decide_eq_true_eq]
  by_cases hword : continuesName c = true
  · rw [if_pos hword, if_pos hword, if_neg (ne_prime hword)]
    rfl
  · rw [if_neg hword, if_neg hword]
    rfl

theorem remainders_inPrimes :
    (Front.ofRemainders place inPrimes).remainders c = if c = '\'' then inPrimes else [] := by
  have hfront : Front.ofRemainders place inPrimes =
      ⟨_, [(.single '\'', [primeRounds])], true⟩ := rfl
  rw [hfront]
  simp only [Front.remainders, List.foldl_cons, List.foldl_nil, ScalarSet.contains_single,
    decide_eq_true_eq]
  rfl

/-! ## Matches -/

variable {body primes rest : Text}

/-- Letters and digits, and then primes, lead to where nothing but a further scalar of an identifier
goes on. -/
theorem exists_leads (hbody : ∀ c ∈ body, continuesName c = true) (hprimes : ∀ c ∈ primes, c = '\'')
    (hrest : ∀ c ∈ rest.head?, c ≠ '\'' ∧ (primes = [] → continuesName c = false)) :
    ∃ rs, Leads inWord (body ++ primes) rs ∧ Completes rs ∧ ∀ c ∈ rest.head?, Blocks rs c := by
  have hword : Leads inWord body inWord := by
    refine .loop fun c hc place => ?_
    rw [← inWord, remainders_inWord, if_pos (hbody c hc)]
    exact .refl _
  cases primes with
  | nil =>
    refine ⟨inWord, by rwa [List.append_nil], fun _ => rfl, fun c hc place => ?_⟩
    obtain ⟨hprime, hmore⟩ := hrest c hc
    rw [remainders_inWord, hmore rfl, if_neg Bool.false_ne_true, if_neg hprime]
  | cons first primes =>
    obtain rfl := hprimes first (.head _)
    have hfirst : Steps inWord '\'' inPrimes := by
      intro place
      rw [remainders_inWord, if_neg (by decide), if_pos rfl]
      exact .refl _
    have hloop : Leads inPrimes primes inPrimes := by
      refine .loop fun c hc place => ?_
      rw [← inPrimes, remainders_inPrimes, if_pos (hprimes c (.tail _ hc))]
      exact .refl _
    refine ⟨inPrimes, hword.append (.cons hfirst hloop), fun _ => rfl, fun c hc place => ?_⟩
    rw [remainders_inPrimes, if_neg (hrest c hc).1]

/-- The longest identifier that a text begins with is matched. -/
theorem matchEnd?_identifier (hfirst : startsName c = true)
    (hbody : ∀ c ∈ body, continuesName c = true) (hprimes : ∀ c ∈ primes, c = '\'')
    (hrest : ∀ c ∈ rest.head?, c ≠ '\'' ∧ (primes = [] → continuesName c = false)) :
    identifierRegex.matchEnd? (c :: (body ++ primes) ++ rest) =
      some (Text.byteLength (c :: (body ++ primes))) := by
  obtain ⟨rs, hleads, hcomplete, hblocks⟩ := exists_leads hbody hprimes hrest
  refine matchEnd?_of_leads rfl (fun text => ?_) hleads hcomplete hblocks
  rw [remainders_first, if_pos hfirst]
  exact ⟨⟨nofun, nofun⟩, fun _ => rfl⟩

/-- An identifier is matched, up to where it ends. -/
theorem matchEnd?_name {name : Text} (hname : isName name = true) (hrest : EndsName rest) :
    identifierRegex.matchEnd? (name ++ rest) = some name.byteLength := by
  cases name with
  | nil => cases hname
  | cons c cs =>
    simp only [isName, Bool.and_eq_true, List.all_eq_true, beq_iff_eq] at hname
    rw [← List.takeWhile_append_dropWhile (p := continuesName) (l := cs)]
    exact matchEnd?_identifier hname.1 (fun _ => List.mem_takeWhile_imp) hname.2
      fun c hc => ⟨(hrest c hc).2, fun _ => (hrest c hc).1⟩

theorem isName_of_parts (hfirst : startsName c = true) (hbody : ∀ c ∈ body, continuesName c = true)
    (hprimes : ∀ c ∈ primes, c = '\'') : isName (c :: (body ++ primes)) = true := by
  simp only [isName, hfirst, List.dropWhile_append_of_pos hbody, Bool.true_and, List.all_eq_true,
    beq_iff_eq]
  exact fun d hd => hprimes d ((List.dropWhile_sublist _).mem hd)

/-- The scalar behind those of a class is not of the class. -/
theorem not_of_head?_dropWhile {p : Char → Bool} {text : Text}
    (h : c ∈ (text.dropWhile p).head?) : p c = false := by
  have hnot := List.head?_dropWhile_not p text
  rwa [Option.mem_def.1 h] at hnot

/-- What is matched is an identifier. -/
theorem name_of_matchEnd? {text : Text} {n : Nat} (h : identifierRegex.matchEnd? text = some n) :
    ∃ name rest, text = name ++ rest ∧ isName name = true ∧ n = name.byteLength := by
  cases text with
  | nil => cases h
  | cons c cs =>
    by_cases hfirst : startsName c = true
    · -- the parts of the longest identifier in front
      let body := cs.takeWhile continuesName
      let more := cs.dropWhile continuesName
      let primes := more.takeWhile (· == '\'')
      let rest := more.dropWhile (· == '\'')
      have hmore : primes ++ rest = more := List.takeWhile_append_dropWhile
      have hcs : c :: cs = c :: (body ++ primes) ++ rest := by
        rw [List.cons_append, List.append_assoc, hmore, List.takeWhile_append_dropWhile]
      have hbody : ∀ c ∈ body, continuesName c = true := fun _ => List.mem_takeWhile_imp
      have hprimes : ∀ c ∈ primes, c = '\'' := fun c hc => by
        simpa using List.mem_takeWhile_imp hc
      have hrest : ∀ c ∈ rest.head?, c ≠ '\'' ∧ (primes = [] → continuesName c = false) := by
        intro c hc
        refine ⟨by simpa using not_of_head?_dropWhile hc, fun hnil => ?_⟩
        rw [hnil, List.nil_append] at hmore
        rw [hmore] at hc
        exact not_of_head?_dropWhile hc
      rw [hcs, matchEnd?_identifier hfirst hbody hprimes hrest] at h
      exact ⟨_, rest, hcs, isName_of_parts hfirst hbody hprimes, (Option.some.inj h).symm⟩
    · have hnone : identifierRegex.matchEnd? (c :: cs) = none :=
        matchEnd?_eq_none rfl (fun text => by rw [remainders_first, if_neg hfirst]) fun _ => rfl
      cases h.symm.trans hnone

end PredictiveParsing.Lambda
