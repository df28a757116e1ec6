import Mathlib.Data.List.TakeWhile
import PredictiveParsing.Languages.Calculator
import PredictiveParsing.Proofs.Lexing.Scanning
import PredictiveParsing.Proofs.Regex.Running

/-!
# Numbers of the calculator

A literal is zero, or digits that do not begin with a zero, perhaps with a fraction that does not
end in one (`Literal`). The regular expression of numbers matches a literal up to where it ends
(`matchEnd?_literal`), and what is written is read as the double that it stands for
(`Literal.read_written`). The other way round, whatever the tokenizer takes for a number is read as
one (`read_of_scan`).
-/

namespace PredictiveParsing.Calculator

open Regex

/-! ## Literals -/

/-- A digit other than zero. -/
def isNonzero (c : Char) : Bool := c.isDigit && c != '0'

/-- Digits in a row. -/
abbrev Digits := {digits : Text // ∀ c ∈ digits, c.isDigit = true}

/-- A digit other than zero. -/
abbrev NonzeroDigit := {c : Char // isNonzero c = true}

/-- A decimal number as it is written. -/
inductive Literal
  | zero
  | integer (first : NonzeroDigit) (others : Digits)
  | decimal (first : NonzeroDigit) (others fraction : Digits) (last : NonzeroDigit)

namespace Literal

/-- The text of a literal. -/
def written : Literal → Text
  | zero => ['0']
  | integer first others => first.1 :: others.1
  | decimal first others fraction last =>
    first.1 :: (others.1 ++ '.' :: (fraction.1 ++ [last.1]))

/-- The double nearest to a literal: its digits, times a power of ten that makes the fraction. -/
def value : Literal → Float
  | zero => Decimal.nearest 0 0
  | integer first others => Decimal.nearest (Decimal.ofDigits (first.1 :: others.1)) 0
  | decimal first others fraction last =>
    Decimal.nearest (Decimal.ofDigits (first.1 :: (others.1 ++ (fraction.1 ++ [last.1]))))
      (-Int.ofNat (fraction.1 ++ [last.1]).length)

end Literal

/-- No literal goes on with the text. -/
def EndsNumber (text : Text) : Prop :=
  ∀ c ∈ text.head?, c.isDigit = false ∧ c ≠ '.'

theorem isDigit_of_isNonzero {c : Char} (h : isNonzero c = true) : c.isDigit = true :=
  (Bool.and_eq_true_iff.1 h).1

theorem isDigit_of_mem_concat {fraction : Digits} {last : NonzeroDigit} {c : Char}
    (h : c ∈ fraction.1 ++ [last.1]) : c.isDigit = true := by
  rcases List.mem_append.1 h with h | h
  · exact fraction.2 c h
  · rw [List.mem_singleton.1 h]
    exact isDigit_of_isNonzero last.2

/-! ## Classes -/

/-- The class of digits. -/
def digitScalars : ScalarSet := .ofChars [('0', '9')]

/-- The class of digits other than zero. -/
def nonzeroScalars : ScalarSet := .ofChars [('1', '9')]

theorem contains_digitScalars (c : Char) : digitScalars.contains c = c.isDigit := by
  have hranges : digitScalars.ranges = [(48, 57)] := rfl
  rw [Bool.eq_iff_iff, Char.isDigit_iff_toNat]
  simp only [ScalarSet.contains, hranges, ScalarSet.inRanges]
  grind

theorem contains_nonzeroScalars (c : Char) : nonzeroScalars.contains c = isNonzero c := by
  have hranges : nonzeroScalars.ranges = [(49, 57)] := rfl
  rw [Bool.eq_iff_iff]
  simp only [ScalarSet.contains, hranges, ScalarSet.inRanges, isNonzero, Char.isDigit_iff_toNat,
    Bool.and_eq_true, bne_iff_ne, ne_eq, ← Char.toNat_inj]
  grind

/-! ## Steps of the regular expression -/

/-- The digits in front of the point. -/
def wholeRounds : Matcher := .rounds 7 true (.one 6 digitScalars)

/-- The digits behind the point, up to where the last ones stand that are not zero. -/
def fractionRounds : Matcher := .rounds 3 true (.one 2 digitScalars)

/-- The last digits of a fraction. -/
def lastDigits : Matcher := .plus 1 true (.one 0 nonzeroScalars)

/-- A point with a fraction behind it, or nothing. -/
def pointed : Matcher :=
  .alt 5 (.seq (.one 4 (.single '.')) (.seq fractionRounds lastDigits)) .empty

/-- What is left behind the first digit. -/
def inWhole : List Remainder := [[wholeRounds, pointed]]

/-- What is left behind the point, and behind a zero of a fraction. -/
def inFraction : List Remainder := [[fractionRounds, lastDigits]]

/-- What is left behind another digit of a fraction. -/
def behindNonzero : List Remainder :=
  [[fractionRounds, lastDigits], [.rounds 1 true (.one 0 nonzeroScalars)]]

variable {c : Char} {place : Place}

theorem remainders_number (text : Text) :
    (Front.ofRemainders ⟨none, text, 0⟩ [[numberMatcher]]).remainders c =
      if isNonzero c then [[.seq wholeRounds pointed]] else [] := by
  rw [← contains_nonzeroScalars]
  rfl

theorem remainders_inWhole :
    (Front.ofRemainders place inWhole).remainders c =
      if c.isDigit then inWhole
      else if c = '.' then [[.seq fractionRounds lastDigits]] else [] := by
  have hfront : Front.ofRemainders place inWhole =
      ⟨_, [(.single '.', [.seq fractionRounds lastDigits]),
        (digitScalars, [wholeRounds, pointed])], true⟩ := rfl
  rw [hfront]
  simp only [Front.remainders, List.foldl_cons, List.foldl_nil, ScalarSet.contains_single,
    contains_digitScalars, decide_eq_true_eq]
  by_cases hdigit : c.isDigit = true
  · have hpoint : c ≠ '.' := by
      rintro rfl
      cases hdigit
    rw [if_pos hdigit, if_pos hdigit, if_neg hpoint]
    rfl
  · rw [if_neg hdigit, if_neg hdigit]

/-- In a fraction a further digit leads on, and the state tells whether it is zero. -/
theorem remainders_fraction {rs : List Remainder} (hrs : rs = inFraction ∨ rs = behindNonzero) :
    (Front.ofRemainders place rs).remainders c =
      if isNonzero c then behindNonzero else if c.isDigit then inFraction else [] := by
  have hwaiting : (Front.ofRemainders place rs).waiting =
      [(nonzeroScalars, [.rounds 1 true (.one 0 nonzeroScalars)]),
        (digitScalars, [fractionRounds, lastDigits])] := by
    rcases hrs with rfl | rfl <;> rfl
  unfold Front.remainders
  rw [hwaiting]
  simp only [List.foldl_cons, List.foldl_nil, contains_nonzeroScalars, contains_digitScalars]
  by_cases hnonzero : isNonzero c = true
  · rw [if_pos hnonzero, if_pos hnonzero, if_pos (isDigit_of_isNonzero hnonzero)]
    rfl
  · rw [if_neg hnonzero, if_neg hnonzero]
    rfl

/-! ## Matches -/

variable {rest : Text}

/-- Digits of a fraction and a last one that is not zero lead behind the latter. -/
theorem leads_fraction {rs : List Remainder} (hrs : rs = inFraction ∨ rs = behindNonzero)
    {fraction : Text} (hfraction : ∀ c ∈ fraction, c.isDigit = true) {last : Char}
    (hlast : isNonzero last = true) : Leads rs (fraction ++ [last]) behindNonzero := by
  obtain ⟨r, others, hcons⟩ : ∃ r others, rs = r :: others := by
    rcases hrs with rfl | rfl <;> exact ⟨_, _, rfl⟩
  induction fraction generalizing rs r others with
  | nil =>
    subst hcons
    refine .cons (fun place => ?_) .nil
    rw [remainders_fraction hrs, if_pos hlast]
    exact .refl _
  | cons c fraction ih =>
    have hdigit := hfraction c (.head _)
    have hothers : ∀ d ∈ fraction, d.isDigit = true := fun d hd => hfraction d (.tail _ hd)
    by_cases hnonzero : isNonzero c = true
    · subst hcons
      refine .cons (fun place => ?_) (ih (.inr rfl) hothers _ _ rfl)
      rw [remainders_fraction hrs, if_pos hnonzero]
      exact .refl _
    · subst hcons
      refine .cons (fun place => ?_) (ih (.inl rfl) hothers _ _ rfl)
      rw [remainders_fraction hrs, if_neg hnonzero, if_pos hdigit]
      exact .refl _

/-- Digits lead back to where further ones are waited for. -/
theorem leads_whole {digits : Text} (h : ∀ c ∈ digits, c.isDigit = true) :
    Leads inWhole digits inWhole := by
  refine .loop fun c hc place => ?_
  rw [← inWhole, remainders_inWhole, if_pos (h c hc)]
  exact .refl _

/-- What follows the first digit is matched, up to where nothing but a further scalar of a literal
goes on. -/
theorem matchEnd?_of_leads_whole {first : Char} {text : Text} {rs : List Remainder}
    (hfirst : isNonzero first = true) (h : Leads inWhole text rs) (hcomplete : Completes rs)
    (hblocks : ∀ c ∈ rest.head?, Blocks rs c) :
    numberRegex.matchEnd? (first :: text ++ rest) = some (Text.byteLength (first :: text)) := by
  refine matchEnd?_of_leads rfl (fun text => ?_) h hcomplete hblocks
  rw [remainders_number, if_pos hfirst]
  exact ⟨⟨nofun, nofun⟩, fun _ => rfl⟩

/-- A literal other than zero is matched, up to where it ends. -/
theorem matchEnd?_literal {l : Literal} (hl : l ≠ .zero) (hrest : EndsNumber rest) :
    numberRegex.matchEnd? (l.written ++ rest) = some l.written.byteLength := by
  cases l with
  | zero => exact absurd rfl hl
  | integer first others =>
    refine matchEnd?_of_leads_whole first.2 (leads_whole others.2) (fun _ => rfl) ?_
    intro c hc place
    obtain ⟨hdigit, hpoint⟩ := hrest c hc
    rw [remainders_inWhole, hdigit, if_neg Bool.false_ne_true, if_neg hpoint]
  | decimal first others fraction last =>
    have hpoint : Steps inWhole '.' inFraction := by
      intro place
      rw [remainders_inWhole, if_neg (by decide), if_pos rfl]
      exact ⟨⟨nofun, nofun⟩, fun _ => rfl⟩
    have hleads := (leads_whole others.2).append
      (.cons hpoint (leads_fraction (.inl rfl) fraction.2 last.2))
    refine matchEnd?_of_leads_whole first.2 hleads (fun _ => rfl) fun c hc place => ?_
    have hdigit := (hrest c hc).1
    have hnonzero : isNonzero c = false := by rw [isNonzero, hdigit, Bool.false_and]
    rw [remainders_fraction (.inr rfl), hnonzero, hdigit, if_neg Bool.false_ne_true,
      if_neg Bool.false_ne_true]

/-! ## Values -/

/-- A digit is no sign. -/
theorem sign_of_isDigit {text : Text} (h : c.isDigit = true) :
    Decimal.sign (c :: text) = (false, c :: text) := by
  unfold Decimal.sign
  split
  · next hsame => cases hsame; cases h
  · next hsame => cases hsame; cases h
  · rfl

theorem toLower_of_isDigit (h : c.isDigit = true) : c.toLower = c := by
  unfold Char.toLower
  rw [dif_neg]
  rintro ⟨hge, -⟩
  exact absurd (Nat.le_trans hge (Char.isDigit_iff_toNat.1 h).2) (by decide)

/-- A text that begins with a digit does not name infinity or what is no number. -/
theorem not_named (h : c.isDigit = true) (text : Text) :
    ¬((c :: text).map Char.toLower = "inf".toList ∨
        (c :: text).map Char.toLower = "infinity".toList) ∧
      (c :: text).map Char.toLower ≠ "nan".toList := by
  have hne {name : Text} {d : Char} (hd : d.isDigit = false) :
      (c :: text).map Char.toLower ≠ d :: name := by
    rw [List.map_cons, toLower_of_isDigit h]
    rintro hsame
    rw [(List.cons.inj hsame).1, hd] at h
    cases h
  have hi : Char.isDigit 'i' = false := rfl
  have hn : Char.isDigit 'n' = false := rfl
  exact ⟨not_or.2 ⟨hne hi, hne hi⟩, hne hn⟩

/-- The digits that a text begins with are split off. -/
theorem split_digits {digits : Text} (h : ∀ c ∈ digits, c.isDigit = true)
    (hrest : ∀ c ∈ rest.head?, c.isDigit = false) :
    (digits ++ rest).takeWhile Char.isDigit = digits ∧
      (digits ++ rest).dropWhile Char.isDigit = rest := by
  rw [List.takeWhile_append_of_pos h, List.dropWhile_append_of_pos h]
  cases rest with
  | nil => simp
  | cons c cs => simp [hrest c rfl]

theorem split_only_digits {digits : Text} (h : ∀ c ∈ digits, c.isDigit = true) :
    digits.takeWhile Char.isDigit = digits ∧ digits.dropWhile Char.isDigit = [] := by
  have hsplit : (digits ++ []).takeWhile Char.isDigit = digits ∧
      (digits ++ []).dropWhile Char.isDigit = [] := split_digits h nofun
  rwa [List.append_nil] at hsplit

/-- A text that begins with a digit is read as a number without a sign. -/
theorem read_of_isDigit {text : Text} {x : Float} (h : c.isDigit = true)
    (hx : Decimal.readUnsigned (c :: text) = some x) : Decimal.read (c :: text) = .ok x := by
  unfold Decimal.read
  rw [sign_of_isDigit h]
  dsimp only
  rw [hx]
  rfl

/-- Digits are read as the number that they write. -/
theorem read_digits {digits : Text} (hc : c.isDigit = true) (h : ∀ d ∈ digits, d.isDigit = true) :
    Decimal.read (c :: digits) = .ok (Decimal.nearest (Decimal.ofDigits (c :: digits)) 0) := by
  refine read_of_isDigit hc ?_
  obtain ⟨htake, hdrop⟩ := split_only_digits (List.forall_mem_cons.2 ⟨hc, h⟩)
  obtain ⟨hinf, hnan⟩ := not_named hc _
  unfold Decimal.readUnsigned
  dsimp only
  rw [if_neg hinf, if_neg hnan, htake, hdrop]
  simp [Decimal.exponent?]

theorem read_decimal {digits fraction : Text} (hc : c.isDigit = true)
    (h : ∀ d ∈ digits, d.isDigit = true) (hfraction : ∀ d ∈ fraction, d.isDigit = true) :
    Decimal.read (c :: (digits ++ '.' :: fraction)) =
      .ok (Decimal.nearest (Decimal.ofDigits (c :: (digits ++ fraction)))
        (-Int.ofNat fraction.length)) := by
  refine read_of_isDigit hc ?_
  have hpoint : ∀ d ∈ ('.' :: fraction).head?, d.isDigit = false := by
    rintro _ ⟨⟩
    rfl
  obtain ⟨htake, hdrop⟩ := split_digits (List.forall_mem_cons.2 ⟨hc, h⟩) hpoint
  obtain ⟨htake', hdrop'⟩ := split_only_digits hfraction
  rw [List.cons_append] at htake hdrop
  obtain ⟨hinf, hnan⟩ := not_named hc _
  unfold Decimal.readUnsigned
  dsimp only
  rw [if_neg hinf, if_neg hnan, htake, hdrop]
  simp [Decimal.exponent?, htake', hdrop']

/-- What is written is read as the value of the literal. -/
theorem Literal.read_written (l : Literal) : Decimal.read l.written = .ok l.value := by
  cases l with
  | zero => exact read_digits (c := '0') rfl nofun
  | integer first others => exact read_digits (isDigit_of_isNonzero first.2) others.2
  | decimal first others fraction last =>
    exact read_decimal (isDigit_of_isNonzero first.2) others.2 fun _ => isDigit_of_mem_concat

/-! ## What is scanned -/

variable {text : Text}

/-- Behind a point digits are matched. -/
theorem digits_of_accepts_fraction {rs : List Remainder}
    (hrs : rs = inFraction ∨ rs = behindNonzero) (h : Accepts rs text) :
    ∀ c ∈ text, c.isDigit = true := by
  induction text generalizing rs with
  | nil => exact List.forall_mem_nil _
  | cons c cs ih =>
    cases h with
    | cons place hrest =>
      rw [remainders_fraction hrs] at hrest
      split at hrest
      · next hnonzero =>
        exact List.forall_mem_cons.2 ⟨isDigit_of_isNonzero hnonzero, ih (.inr rfl) hrest⟩
      · split at hrest
        · next hdigit => exact List.forall_mem_cons.2 ⟨hdigit, ih (.inl rfl) hrest⟩
        · exact absurd hrest not_accepts_nil

/-- Behind the first digit digits are matched, perhaps with a point among them. -/
theorem digits_of_accepts_whole (h : Accepts inWhole text) :
    (∀ c ∈ text, c.isDigit = true) ∨ ∃ digits fraction, text = digits ++ '.' :: fraction ∧
      (∀ c ∈ digits, c.isDigit = true) ∧ ∀ c ∈ fraction, c.isDigit = true := by
  induction text with
  | nil => exact .inl (List.forall_mem_nil _)
  | cons c cs ih =>
    cases h with
    | cons place hrest =>
      rw [remainders_inWhole] at hrest
      split at hrest
      · next hdigit =>
        rcases ih hrest with hdigits | ⟨digits, fraction, rfl, hdigits, hfraction⟩
        · exact .inl (List.forall_mem_cons.2 ⟨hdigit, hdigits⟩)
        · exact .inr ⟨c :: digits, fraction, rfl, List.forall_mem_cons.2 ⟨hdigit, hdigits⟩,
            hfraction⟩
      · split at hrest
        · next hpoint =>
          have hsame : Same [[.seq fractionRounds lastDigits]] inFraction :=
            ⟨⟨nofun, nofun⟩, fun _ => rfl⟩
          exact .inr ⟨[], cs, by rw [hpoint]; rfl, List.forall_mem_nil _,
            digits_of_accepts_fraction (.inl rfl) (hrest.same hsame)⟩
        · exact absurd hrest not_accepts_nil

/-- What the regular expression of numbers matches is read as a number. -/
theorem read_of_matchEnd? {n : Nat} (h : numberRegex.matchEnd? (text ++ rest) = some n)
    (hn : n = text.byteLength) (hne : text ≠ []) : ∃ x, Decimal.read text = .ok x := by
  obtain ⟨c, cs, rfl⟩ := List.exists_cons_of_ne_nil hne
  have hpos : 0 < n := by
    rw [hn]
    exact Nat.pos_of_ne_zero (mt Text.byteLength_eq_zero.1 hne)
  obtain ⟨passed, rest', htext, hlength, haccepts⟩ := accepts_of_matchEnd? rfl h hpos
  have hwhole : (c :: cs) ++ rest = (c :: passed) ++ rest' := congrArg (c :: ·) htext
  obtain ⟨hsame, -⟩ := Tokenizer.lexeme_unique hwhole (hn.symm.trans hlength)
  cases hsame
  rw [remainders_number] at haccepts
  split at haccepts
  · next hnonzero =>
    have hdigit := isDigit_of_isNonzero hnonzero
    have hsame : Same [[.seq wholeRounds pointed]] inWhole := ⟨⟨nofun, nofun⟩, fun _ => rfl⟩
    rcases digits_of_accepts_whole (haccepts.same hsame) with
      hdigits | ⟨digits, fraction, rfl, hdigits, hfraction⟩
    · exact ⟨_, read_digits hdigit hdigits⟩
    · exact ⟨_, read_decimal hdigit hdigits hfraction⟩
  · exact absurd haccepts not_accepts_nil

/-- What the rule of zero matches is zero. -/
theorem eq_of_matchLength?_zero {c : Char} {cs : Text}
    (h : (Rule.exactChar '0').matchLength? (c :: cs ++ rest) = some (Text.byteLength (c :: cs))) :
    c = '0' ∧ cs = [] := by
  unfold Rule.matchLength? at h
  dsimp only [List.cons_append] at h
  split at h
  · next hcheck =>
    have hlength : cs.byteLength = 0 := by
      simp only [Option.some.injEq, Text.byteLength_cons] at h
      omega
    simp only [Rule.quickCheck, Option.some.injEq, beq_iff_eq] at hcheck
    exact ⟨hcheck, Text.byteLength_eq_zero.1 hlength⟩
  · cases h

/-- What is scanned as a number is read as one. -/
theorem read_of_scan (h : Tokenizer.scan rules (text ++ rest) = some ("number", text.byteLength)) :
    ∃ x, Decimal.read text = .ok x := by
  have hne : text ≠ [] := by
    obtain ⟨lexeme, _, -, hlexeme, hlength⟩ := Tokenizer.scan_eq_some h
    rintro rfl
    exact hlexeme (Text.byteLength_eq_zero.1 hlength)
  obtain ⟨rule, hmem, hmatch⟩ := Tokenizer.exists_rule_of_scan h
  have hrule : rule = .exactChar '0' ∨
      rule = (Rule.regexp numberRegex none).withLookups "0123456789".toList := by
    simpa [rules] using hmem
  obtain ⟨c, cs, rfl⟩ := List.exists_cons_of_ne_nil hne
  rcases hrule with rfl | rfl
  · obtain ⟨rfl, rfl⟩ := eq_of_matchLength?_zero hmatch
    exact ⟨_, Literal.zero.read_written⟩
  · exact read_of_matchEnd? (Option.filter_eq_some_iff.1 hmatch).1 rfl hne

end PredictiveParsing.Calculator
