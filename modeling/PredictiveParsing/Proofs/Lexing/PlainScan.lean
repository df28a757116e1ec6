import PredictiveParsing.Proofs.Lexing.Lossless
import PredictiveParsing.Proofs.Regex.Running
import PredictiveParsing.Regex.SpellOut

/-!
# Quick checks change nothing

A quick check passes over a rule by the first scalar alone. `Cursor.Cuts` is the scan without quick
checks: it tries the rules in order, and the first one that matches cuts a token off. A quick check
that rules a rule out is right about it (`Rule.matchLength?_of_quickCheck`). For most rules that is
so by what they match; only a guarded regular expression is told what its matches begin with, and
has to keep to it: `Rule.Covered`.

So the two scans find the same rule at every text (`Tokenizer.scan_eq_plainScan`), the token at the
cursor is the one that the plain scan cuts off there, and the stream is what the plain scan cuts the
input into: `Tokenizer.quickChecks_change_nothing`.
-/

namespace PredictiveParsing

/-! ## Rules -/

/-- A guarded regular expression matches only where one of its guards comes first. Of other rules
this says nothing. -/
def Rule.Covered (rule : Rule) : Prop :=
  ∀ regex members, rule = .regexp regex (some members) →
    ∀ c rest n, rule.matchLength? (c :: rest) = some n → c ∈ members

/-- A rule that a quick check rules out does not match. -/
theorem Rule.matchLength?_of_quickCheck {rule : Rule} (hrule : rule.Covered) {text : Text}
    (h : rule.quickCheck text.head? = some false) : rule.matchLength? text = none := by
  cases text with
  | nil => rfl
  | cons c rest =>
    have hno : ¬rule.quickCheck (some c) = some true := by
      intro hyes
      rw [List.head?_cons, hyes] at h
      cases h
    cases rule with
    | exactChar | charSet | interval => exact if_neg hno
    | literal literal =>
      cases literal with
      | nil => rfl
      | cons d ds =>
        have hdc : (d == c) = false := Option.some.inj h
        have hbegins : Text.startsWith (c :: rest) (d :: ds) = false := by
          unfold Text.startsWith
          rw [List.isPrefixOf_cons_cons, hdc, Bool.false_and]
        show literalLength? (c :: rest) (d :: ds) = none
        unfold literalLength?
        rw [hbegins, Bool.and_false, if_neg Bool.false_ne_true]
    | literalSet => cases h
    | regexp regex lookups =>
      cases lookups with
      | none => cases h
      | some members =>
        have hmem : c ∉ members := by simpa using Option.some.inj h
        rw [Option.eq_none_iff_forall_ne_some]
        exact fun n hn => hmem (hrule regex members rfl c rest n hn)

/-- A rule without its guards. -/
def Rule.withoutLookups : Rule → Rule
  | regexp regex _ => regexp regex none
  | rule => rule

theorem Rule.covered_withoutLookups (rule : Rule) : rule.withoutLookups.Covered := by
  intro regex members h
  cases rule <;> cases h

/-- Rules without guards need no hypothesis. -/
theorem Rule.covered_of_eq {rule : Rule} (h : rule.withoutLookups = rule) : rule.Covered :=
  h ▸ rule.covered_withoutLookups

theorem Rule.matchLength?_withoutLookups (rule : Rule) :
    rule.withoutLookups.matchLength? = rule.matchLength? := by
  cases rule <;> rfl

/-! ## The plain scan -/

/-- The token that the plain scan cuts off at a cursor, and the cursor behind it. The first rule
that matches gives the type and the lexeme; where none does, one scalar is an error. -/
inductive Cursor.Cuts (rules : List (TokenType × Rule)) : Cursor → Token → Cursor → Prop
  | endOfInput {input : Text} {position : Position} :
      Cuts rules ⟨input, [], position⟩ (.endOfInput ⟨[], position.offset⟩ position)
        ⟨input, [], position⟩
  | ordinary {before after : List (TokenType × Rule)} {type : TokenType} {rule : Rule}
      {input lexeme rest : Text} {position : Position}
      (split : rules = before ++ (type, rule) :: after)
      (earlier : ∀ entry ∈ before, entry.2.matchLength? (lexeme ++ rest) = none)
      (wins : rule.matchLength? (lexeme ++ rest) = some lexeme.byteLength) :
      Cuts rules ⟨input, lexeme ++ rest, position⟩
        (.ordinary type ⟨lexeme, position.offset⟩ ⟨position, position.after lexeme⟩)
        ⟨input, rest, position.after lexeme⟩
  | error {input rest : Text} {c : Char} {position : Position}
      (declined : ∀ entry ∈ rules, entry.2.matchLength? (c :: rest) = none) :
      Cuts rules ⟨input, c :: rest, position⟩
        (.error ⟨[c], position.offset⟩ ⟨position, position.after [c]⟩)
        ⟨input, rest, position.after [c]⟩

/-- The tokens that the plain scan cuts the rest of an input into, the one at its end included. -/
inductive Cursor.CutsUp (rules : List (TokenType × Rule)) : Cursor → List Token → Cursor → Prop
  | last {c c' : Cursor} {token : Token} (cut : c.Cuts rules token c')
      (atEnd : token.kind = .endOfInput) : CutsUp rules c [token] c'
  | more {c c' c'' : Cursor} {token : Token} {tokens : List Token} (cut : c.Cuts rules token c')
      (before : token.kind ≠ .endOfInput) (rest : CutsUp rules c' tokens c'') :
      CutsUp rules c (token :: tokens) c''

namespace Tokenizer

variable {rules : List (TokenType × Rule)} {t : Tokenizer} {c c' : Cursor} {token : Token}
  {tokens : List Token} {text : Text}

/-- The first rule that matches at the start of a text. No rule is passed over. -/
def plainScan (rules : List (TokenType × Rule)) (text : Text) : Option (TokenType × Nat) :=
  rules.findSome? fun entry => (entry.2.matchLength? text).map fun length => (entry.1, length)

theorem scan_eq_plainScan (h : ∀ entry ∈ rules, entry.2.Covered) (text : Text) :
    scan rules text = plainScan rules text := by
  induction rules with
  | nil => rfl
  | cons entry rules ih =>
    obtain ⟨hentry, hrules⟩ := List.forall_mem_cons.1 h
    obtain ⟨type, rule⟩ := entry
    have hsame : (if rule.quickCheck text.head? = some false then none
        else (rule.matchLength? text).map fun length => (type, length)) =
          (rule.matchLength? text).map fun length => (type, length) := by
      split
      · next hquick => rw [Rule.matchLength?_of_quickCheck hentry hquick, Option.map_none]
      · rfl
    unfold scan plainScan at ih ⊢
    rw [List.findSome?_cons, List.findSome?_cons]
    dsimp only at hsame ⊢
    rw [hsame, ih hrules]

theorem plainScan_eq_none (h : ∀ entry ∈ rules, entry.2.matchLength? text = none) :
    plainScan rules text = none := by
  refine List.findSome?_eq_none_iff.2 fun entry hentry => ?_
  rw [h entry hentry, Option.map_none]

theorem plainScan_append_cons {before after : List (TokenType × Rule)} {type : TokenType}
    {rule : Rule} {n : Nat} (earlier : ∀ entry ∈ before, entry.2.matchLength? text = none)
    (wins : rule.matchLength? text = some n) :
    plainScan (before ++ (type, rule) :: after) text = some (type, n) := by
  have hbefore := plainScan_eq_none earlier
  unfold plainScan at hbefore ⊢
  rw [List.findSome?_append, hbefore, Option.none_or, List.findSome?_cons, wins, Option.map_some]

/-- The plain scan cuts a token off at every cursor. -/
theorem exists_cuts (rules : List (TokenType × Rule)) (c : Cursor) :
    ∃ token c', c.Cuts rules token c' := by
  obtain ⟨input, rest, position⟩ := c
  cases rest with
  | nil => exact ⟨_, _, .endOfInput⟩
  | cons first rest =>
    cases hscan : plainScan rules (first :: rest) with
    | none =>
      refine ⟨_, _, .error fun entry hentry => ?_⟩
      have hnone := List.findSome?_eq_none_iff.1 hscan entry hentry
      exact Option.map_eq_none_iff.1 hnone
    | some found =>
      obtain ⟨before, ⟨type, rule⟩, after, rfl, hrule, hbefore⟩ :=
        List.findSome?_eq_some_iff.1 hscan
      obtain ⟨n, hn, -⟩ := Option.map_eq_some_iff.1 hrule
      obtain ⟨lexeme, more, htext, -, rfl⟩ := Rule.matchLength?_eq_some hn
      rw [htext] at hn hbefore ⊢
      exact ⟨_, _, .ordinary rfl (fun entry hentry =>
        Option.map_eq_none_iff.1 (hbefore entry hentry)) hn⟩

/-! ## The token at the cursor -/

/-- What the plain scan cuts off is the token at the cursor. -/
theorem peek_of_cuts (hrules : ∀ entry ∈ rules, entry.2.Covered) (hplaced : c.Placed)
    (h : c.Cuts rules token c') : peek ⟨rules, c⟩ = .ok token := by
  have hscan := scan_eq_plainScan hrules
  have hspan (position : Position) (lexeme : Text) :
      Span.between position (position.after lexeme) = .ok ⟨position, position.after lexeme⟩ :=
    Span.between_eq_ok.2 ⟨by rw [Position.after_offset]; omega, rfl⟩
  unfold peek
  cases h with
  | @endOfInput input position =>
    have hnothing : Cursor.rest ⟨input, [], position⟩ = [] ++ [] := rfl
    have hslice := hplaced.slice hnothing
    rw [Text.byteLength_nil] at hslice
    dsimp only
    rw [hslice]
    rfl
  | @ordinary before after type rule input lexeme rest position split earlier wins =>
    have hslice := hplaced.slice (rfl : lexeme ++ rest = _)
    have hadvance := hplaced.advance (rfl : lexeme ++ rest = _)
    obtain ⟨lexeme', rest', htext, hne, -⟩ := Rule.matchLength?_eq_some wins
    obtain ⟨first, more, hcons⟩ : ∃ first more, lexeme ++ rest = first :: more := by
      cases lexeme' with
      | nil => exact absurd rfl hne
      | cons first more => exact ⟨first, more ++ rest', htext⟩
    have hfound : scan rules (lexeme ++ rest) = some (type, lexeme.byteLength) := by
      rw [hscan, split, plainScan_append_cons earlier wins]
    dsimp only at hslice hadvance ⊢
    rw [hcons] at hslice hfound ⊢
    dsimp only
    rw [hfound]
    dsimp only
    rw [hslice, ok_bind, hadvance, ok_bind, hspan]
    rfl
  | @error input rest first position declined =>
    have hfirst : Cursor.rest ⟨input, first :: rest, position⟩ = [first] ++ rest := rfl
    have hslice := hplaced.slice hfirst
    obtain ⟨hl, hc, ho⟩ := hplaced.room hfirst
    have hn : Text.byteLength [first] = first.utf8Size := by simp
    have hstep : position.step first = .ok (position.after [first]) :=
      Position.step_of_lt hl hc (hn ▸ ho)
    rw [hn] at hslice
    dsimp only
    rw [hscan, plainScan_eq_none declined]
    dsimp only
    rw [hslice, ok_bind, hstep, ok_bind, hspan]
    rfl

/-- Moving over the token at the cursor moves to where the plain scan goes on. -/
theorem moves_of_cuts (hrules : ∀ entry ∈ rules, entry.2.Covered) (hplaced : c.Placed)
    (h : c.Cuts rules token c') : Moves ⟨rules, c⟩ token ⟨rules, c'⟩ := by
  have hpeek := peek_of_cuts hrules hplaced h
  cases h with
  | endOfInput | ordinary | error => exact ⟨hpeek, rfl, rfl, rfl, rfl⟩

/-- The stream is what the plain scan cuts the rest of the input into. -/
theorem tokensFrom_of_cutsUp (hrules : ∀ entry ∈ rules, entry.2.Covered) (hplaced : c.Placed)
    (h : c.CutsUp rules tokens c') {n : Nat} (hn : c.rest.length ≤ n) :
    tokensFrom n ⟨rules, c⟩ = .ok (tokens, ⟨rules, c'⟩) := by
  induction h generalizing n with
  | @last c c' token hcut hend =>
    have hnext := next_eq_ok_iff.2 (moves_of_cuts hrules hplaced hcut)
    have hend' : token.isEndOfInput = true := by simpa [Token.isEndOfInput] using hend
    cases n with
    | zero =>
      unfold tokensFrom
      rw [hnext]
      rfl
    | succ n =>
      unfold tokensFrom
      rw [hnext, ok_bind]
      dsimp only
      rw [if_pos hend']
      rfl
  | @more c c' c'' token tokens hcut hbefore _ ih =>
    have hm := moves_of_cuts hrules hplaced hcut
    have hlt : c'.rest.length < c.rest.length := hm.rest_lt hbefore
    have hbefore' : ¬token.isEndOfInput = true := by simpa [Token.isEndOfInput] using hbefore
    obtain ⟨n, rfl⟩ := Nat.exists_eq_add_one.2 (Nat.lt_of_lt_of_le (Nat.zero_lt_of_lt hlt) hn)
    unfold tokensFrom
    rw [next_eq_ok_iff.2 hm, ok_bind]
    dsimp only
    rw [if_neg hbefore', ih (hm.placed hplaced) (by omega)]
    rfl

/-- The plain scan cuts the rest of an input up. -/
theorem exists_cutsUp (hrules : ∀ entry ∈ rules, entry.2.Covered) (c : Cursor)
    (hplaced : c.Placed) : ∃ tokens c', c.CutsUp rules tokens c' := by
  obtain ⟨token, c', hcut⟩ := exists_cuts rules c
  by_cases hend : token.kind = .endOfInput
  · exact ⟨[token], c', .last hcut hend⟩
  · have hm := moves_of_cuts hrules hplaced hcut
    have hlt : c'.rest.length < c.rest.length := hm.rest_lt hend
    obtain ⟨tokens, c'', hrest⟩ := exists_cutsUp hrules c' (hm.placed hplaced)
    exact ⟨token :: tokens, c'', .more hcut hend hrest⟩
termination_by c.rest.length

/-! ## Without guards -/

/-- The rules with all guards taken from the regular expressions. -/
def unguarded (rules : List (TokenType × Rule)) : List (TokenType × Rule) :=
  rules.map fun entry => (entry.1, entry.2.withoutLookups)

theorem covered_unguarded (rules : List (TokenType × Rule)) :
    ∀ entry ∈ unguarded rules, entry.2.Covered := by
  intro entry hentry
  obtain ⟨entry, -, rfl⟩ := List.mem_map.1 hentry
  exact entry.2.covered_withoutLookups

theorem matchLength?_unguarded {n : Option Nat}
    (h : ∀ entry ∈ rules, entry.2.matchLength? text = n) :
    ∀ entry ∈ unguarded rules, entry.2.matchLength? text = n := by
  intro entry hentry
  obtain ⟨entry, hmem, rfl⟩ := List.mem_map.1 hentry
  rw [entry.2.matchLength?_withoutLookups]
  exact h entry hmem

/-- The plain scan does not look at guards. -/
theorem cuts_unguarded (h : c.Cuts rules token c') : c.Cuts (unguarded rules) token c' := by
  cases h with
  | endOfInput => exact .endOfInput
  | @ordinary before after type rule _ _ _ _ split earlier wins =>
    have hsplit : unguarded rules =
        unguarded before ++ (type, rule.withoutLookups) :: unguarded after := by
      rw [split, unguarded, List.map_append, List.map_cons]
      rfl
    rw [← rule.matchLength?_withoutLookups] at wins
    exact .ordinary hsplit (matchLength?_unguarded earlier) wins
  | error declined => exact .error (matchLength?_unguarded declined)

theorem cutsUp_unguarded (h : c.CutsUp rules tokens c') :
    c.CutsUp (unguarded rules) tokens c' := by
  induction h with
  | last cut atEnd => exact .last (cuts_unguarded cut) atEnd
  | more cut before _ ih => exact .more (cuts_unguarded cut) before ih

/-- Quick checks change nothing, provided that guarded regular expressions keep to their guards;
rules without guards always do. Wherever the cursor stands, the token there is the one that the
plain scan cuts off, and the only one; the stream from there is what the plain scan cuts the rest of
the input into; and both are the same without the guards. -/
theorem quickChecks_change_nothing (hrules : ∀ entry ∈ rules, entry.2.Covered)
    (hplaced : c.Placed) :
    (∀ rule : Rule, rule.withoutLookups = rule → rule.Covered) ∧
    (∃ token, peek ⟨rules, c⟩ = .ok token ∧ peek ⟨unguarded rules, c⟩ = .ok token ∧
      ∀ token', (∃ c', c.Cuts rules token' c') ↔ token' = token) ∧
    ∃ tokens c', remainingTokens ⟨rules, c⟩ = .ok (tokens, ⟨rules, c'⟩) ∧
      remainingTokens ⟨unguarded rules, c⟩ = .ok (tokens, ⟨unguarded rules, c'⟩) ∧
      ∀ tokens', (∃ c', c.CutsUp rules tokens' c') ↔ tokens' = tokens := by
  obtain ⟨token, c₁, hcut⟩ := exists_cuts rules c
  obtain ⟨tokens, c₂, hcuts⟩ := exists_cutsUp hrules c hplaced
  have hpeek := peek_of_cuts hrules hplaced hcut
  have hstream := tokensFrom_of_cutsUp hrules hplaced hcuts (Nat.le_refl _)
  refine ⟨fun _ => Rule.covered_of_eq, ⟨token, hpeek, ?_, ?_⟩,
    tokens, c₂, hstream, ?_, ?_⟩
  · exact peek_of_cuts (covered_unguarded rules) hplaced (cuts_unguarded hcut)
  · refine fun token' => ⟨fun ⟨c', h⟩ => ?_, fun h => h ▸ ⟨c₁, hcut⟩⟩
    cases hpeek.symm.trans (peek_of_cuts hrules hplaced h)
    rfl
  · exact tokensFrom_of_cutsUp (covered_unguarded rules) hplaced (cutsUp_unguarded hcuts)
      (Nat.le_refl _)
  · refine fun tokens' => ⟨fun ⟨c', h⟩ => ?_, fun h => h ▸ ⟨c₂, hcuts⟩⟩
    cases hstream.symm.trans (tokensFrom_of_cutsUp hrules hplaced h (Nat.le_refl _))
    rfl

/-- Lambdas in a row, at the start of a text. -/
def lambdasMatcher : Regex.Matcher :=
  Regex.Pattern.matcher (.sequence [.holds .textStart, .plus (.ranges [('λ', 'λ')])])

/-- The search for lambdas. -/
def lambdas : Regex := ⟨"^(?:λ+)", lambdasMatcher.search⟩

/-- Lambdas behind a guard, and rules that match less than they seem to. -/
def guardedRules : List (TokenType × Rule) := [
  ("letter", .interval 'z' 'a'), ("nothing", .literal []),
  ("keyword", .literalSet [['i', 'f'], ['i']]),
  ("lambdas", .withLookups ['λ', 'μ'] (.regexp lambdas none)),
  ("unguarded", .regexp lambdas none)]

/-- Lambdas begin with a lambda. -/
theorem matchEnd?_lambdas {first : Char} {rest : Text} (h : first ≠ 'λ') :
    lambdas.matchEnd? (first :: rest) = none := by
  refine Regex.matchEnd?_eq_none rfl (fun text => ?_) fun _ => rfl
  have hstep : (Regex.Front.ofRemainders ⟨none, text, 0⟩ [[lambdasMatcher]]).remainders first =
      if (ScalarSet.single 'λ').contains first then [[.rounds 1 true (.one 0 (.single 'λ'))]]
      else [] := rfl
  rw [hstep, ScalarSet.contains_single, decide_eq_false h, if_neg Bool.false_ne_true]

theorem covered_guardedRules : ∀ entry ∈ guardedRules, entry.2.Covered := by
  have hlambdas : Rule.Covered (.withLookups ['λ', 'μ'] (.regexp lambdas none)) := by
    rintro regex members h first rest n hn
    cases h
    by_cases hfirst : first = 'λ'
    · subst hfirst
      decide
    · change (lambdas.matchEnd? (first :: rest)).filter _ = some n at hn
      rw [matchEnd?_lambdas hfirst] at hn
      cases hn
  simp only [guardedRules, List.forall_mem_cons]
  exact ⟨Rule.covered_of_eq rfl, Rule.covered_of_eq rfl, Rule.covered_of_eq rfl, hlambdas,
    Rule.covered_of_eq rfl, List.forall_mem_nil _⟩

theorem guardedRules_quickChecks_change_nothing :
    (∀ entry ∈ guardedRules, entry.2.Covered) ∧
      (Cursor.ofInput ['λ', 'λ', '\n', 'i', 'f', 'x']).Placed ∧
      (∀ rule : Rule, rule.withoutLookups = rule → rule.Covered) ∧
      (∃ token, peek ⟨guardedRules, .ofInput ['λ', 'λ', '\n', 'i', 'f', 'x']⟩ = .ok token ∧
        peek ⟨unguarded guardedRules, .ofInput ['λ', 'λ', '\n', 'i', 'f', 'x']⟩ = .ok token ∧
        ∀ token', (∃ c',
          (Cursor.ofInput ['λ', 'λ', '\n', 'i', 'f', 'x']).Cuts guardedRules token' c') ↔
            token' = token) ∧
      ∃ tokens c',
        remainingTokens ⟨guardedRules, .ofInput ['λ', 'λ', '\n', 'i', 'f', 'x']⟩ =
          .ok (tokens, ⟨guardedRules, c'⟩) ∧
        remainingTokens ⟨unguarded guardedRules, .ofInput ['λ', 'λ', '\n', 'i', 'f', 'x']⟩ =
          .ok (tokens, ⟨unguarded guardedRules, c'⟩) ∧
        ∀ tokens', (∃ c',
          (Cursor.ofInput ['λ', 'λ', '\n', 'i', 'f', 'x']).CutsUp guardedRules tokens' c') ↔
            tokens' = tokens :=
  have hplaced : (Cursor.ofInput ['λ', 'λ', '\n', 'i', 'f', 'x']).Placed := .ofInput (by decide)
  ⟨covered_guardedRules, hplaced, quickChecks_change_nothing covered_guardedRules hplaced⟩

/-- Two lambdas, an error for the line break, a keyword, and another error. -/
example : (tokenize ⟨guardedRules, .ofInput ['λ', 'λ', '\n', 'i', 'f', 'x']⟩).toOption.map
    (fun (tokens, _) => tokens.map fun token => (token.type, token.text.length)) =
      some [("lambdas", 2), ("<error>", 1), ("keyword", 2), ("<error>", 1)] := by
  decide +kernel

end Tokenizer

end PredictiveParsing
