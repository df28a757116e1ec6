import PredictiveParsing.Proofs.Source.Places
import PredictiveParsing.Proofs.Tokens

/-!
# Tokenizing loses nothing

The tokens of an input are its pieces, in order and without gaps: `Tokenizer.Pieces` says what they
are, `Tokenizer.tokenize_lossless` that tokenizing comes to an end with such tokens, whatever the
rules are.

A token that is moved over is the next piece of the unread text, and an error token is a scalar at
which all rules decline (`Tokenizer.Moves.piece`). The tokens of a run of the stream are therefore
pieces that follow each other (`Tokenizer.Commits.texts`, `Tokenizer.Commits.contiguous`). Every
token but the one at the end of the input takes a scalar at least, so as many tokens as there are
scalars reach the end (`Tokenizer.tokensFrom_reaches_end`).
-/

namespace PredictiveParsing

/-! ## Rules that decline -/

/-- At the start of the text the first scalar rules the rule out, or the rule does not match. -/
def Rule.Declines (rule : Rule) (text : Text) : Prop :=
  rule.quickCheck text.head? = some false ∨ rule.matchLength? text = none

namespace Tokenizer

theorem scan_eq_none_iff {rules : List (TokenType × Rule)} {text : Text} :
    scan rules text = none ↔ ∀ entry ∈ rules, entry.2.Declines text := by
  unfold scan
  rw [List.findSome?_eq_none_iff]
  refine forall₂_congr fun entry _ => ?_
  unfold Rule.Declines
  dsimp only
  split
  · next h => exact ⟨fun _ => .inl h, fun _ => rfl⟩
  · next h => rw [Option.map_eq_none_iff, or_iff_right h]

variable {t t' : Tokenizer} {token : Token}

/-- Of what kind the token at the cursor is. Before the end of the input it is an error token if and
only if all rules decline. -/
theorem kind_of_peek (h : t.peek = .ok token) :
    token.kind = .endOfInput ∧ t.cursor.rest = [] ∨
      token.kind = .ordinary ∧ scan t.rules t.cursor.rest ≠ none ∨
      token.kind = .error ∧ scan t.rules t.cursor.rest = none ∧
        ∃ c rest, t.cursor.rest = c :: rest ∧ token.text = [c] := by
  unfold peek at h
  split at h
  · next hrest =>
    obtain ⟨value, -, h⟩ := bind_eq_ok h
    cases h
    exact .inl ⟨rfl, hrest⟩
  · next first rest hrest =>
    split at h
    · next type n hscan =>
      obtain ⟨value, -, h⟩ := bind_eq_ok h
      obtain ⟨stop, -, h⟩ := bind_eq_ok h
      obtain ⟨span, -, h⟩ := bind_eq_ok h
      cases h
      exact .inr (.inl ⟨rfl, by rw [hrest, hscan]; nofun⟩)
    · next hscan =>
      obtain ⟨value, hv, h⟩ := bind_eq_ok h
      obtain ⟨stop, -, h⟩ := bind_eq_ok h
      obtain ⟨span, -, h⟩ := bind_eq_ok h
      cases h
      have htext : value.text = [first] :=
        Cursor.text_of_sliceAhead hv (hrest : _ = [first] ++ rest) (by simp)
      exact .inr (.inr ⟨rfl, hrest ▸ hscan, first, rest, hrest, htext⟩)

end Tokenizer

/-! ## Pieces of a text -/

/-- The spans begin at the first position, each where the one before ends, and lead to the second. -/
def Span.Contiguous : Position → List Span → Position → Prop
  | start, [], stop => start = stop
  | start, s :: spans, stop => s.start = start ∧ Contiguous s.stop spans stop

/-- The token is the piece of the input behind what has been passed, and it stands where it says. An
error token is a scalar at which all rules decline. -/
structure Token.Piece (rules : List (TokenType × Rule)) (input passed : Text) (token : Token) :
    Prop where
  ahead : ∃ rest, input = passed ++ (token.text ++ rest)
  nonempty : token.text ≠ []
  start : token.span.start = Position.start.after passed
  stop : token.span.stop = Position.start.after (passed ++ token.text)
  offset : token.value.start = token.span.start.offset
  error : token.kind = .error → ∃ c rest, input = passed ++ c :: rest ∧ token.text = [c] ∧
    ∀ entry ∈ rules, entry.2.Declines (c :: rest)

namespace Token.Piece

variable {rules : List (TokenType × Rule)} {input passed : Text} {token : Token}

theorem start_offset (h : token.Piece rules input passed) :
    token.span.start.offset = passed.byteLength := by
  rw [h.start, Position.offset_after_start]

theorem stop_offset (h : token.Piece rules input passed) :
    token.span.stop.offset = (passed ++ token.text).byteLength := by
  rw [h.stop, Position.offset_after_start]

/-- The text of the token is the input between the offsets of its span. -/
theorem slice (h : token.Piece rules input passed) :
    input.slice? token.span.start.offset token.span.stop.offset = some token.text := by
  obtain ⟨rest, hinput⟩ := h.ahead
  rw [h.start_offset, h.stop_offset, hinput, ← List.append_assoc]
  exact Text.slice?_append passed token.text rest

end Token.Piece

namespace Tokenizer

variable {t t' : Tokenizer} {token : Token} {tokens : List Token}

/-- A token that is moved over is a piece of the input, unless the input is at its end. -/
theorem Moves.piece (hm : t.Moves token t') (h : t.cursor.Placed) (hk : token.kind ≠ .endOfInput) :
    ∃ passed, token.Piece t.rules t.cursor.input passed := by
  obtain ⟨passed, hinput, hposition⟩ := h.reached
  have hat := peek_at hm.peeked
  have hstart : token.span.start = Position.start.after passed := by rw [hat.start, hposition]
  refine ⟨passed, ⟨t'.cursor.rest, by rw [hinput, hm.rest]⟩, hat.nonempty hk, hstart, ?_, ?_, ?_⟩
  · rw [hat.stop, hposition, Position.after_append]
  · rw [hat.offset, hat.start]
  · intro herror
    rcases kind_of_peek hm.peeked with ⟨hend, -⟩ | ⟨hordinary, -⟩ | ⟨-, hscan, c, rest, hrest, htext⟩
    · exact absurd hend hk
    · rw [hordinary] at herror
      cases herror
    · rw [hrest] at hinput hscan
      exact ⟨c, rest, hinput, htext, scan_eq_none_iff.1 hscan⟩

/-! ## Runs of the stream -/

theorem Commits.rules (h : t.Commits tokens t') : t'.rules = t.rules := by
  induction h with
  | nil => rfl
  | cons hm _ ih => rw [ih, hm.rules]

theorem Commits.input (h : t.Commits tokens t') : t'.cursor.input = t.cursor.input := by
  induction h with
  | nil => rfl
  | cons hm _ ih => rw [ih, hm.input]

theorem Commits.placed (h : t.Commits tokens t') (hplaced : t.cursor.Placed) :
    t'.cursor.Placed := by
  induction h with
  | nil => exact hplaced
  | cons hm _ ih => exact ih (hm.placed hplaced)

/-- The tokens are what is no longer unread. -/
theorem Commits.texts (h : t.Commits tokens t') :
    t.cursor.rest = (tokens.map Token.text).flatten ++ t'.cursor.rest := by
  induction h with
  | nil => rfl
  | cons hm _ ih => rw [hm.rest, ih, List.map_cons, List.flatten_cons, List.append_assoc]

/-- Each token begins where the one before ends. -/
theorem Commits.contiguous (h : t.Commits tokens t') :
    Span.Contiguous t.position (tokens.map Token.span) t'.position := by
  induction h with
  | nil => rfl
  | @cons t t' t'' token tokens hm _ ih =>
    refine ⟨(peek_at hm.peeked).start, ?_⟩
    rw [← hm.position]
    exact ih

/-- The tokens in front of the end of the input are pieces of it. -/
theorem Commits.pieces (h : t.Commits tokens t') (hplaced : t.cursor.Placed)
    (hk : ∀ token ∈ tokens, token.kind ≠ .endOfInput) :
    ∀ token ∈ tokens, ∃ passed, token.Piece t.rules t.cursor.input passed := by
  induction h with
  | nil => nofun
  | cons hm _ ih =>
    intro token hmem
    rcases List.mem_cons.1 hmem with rfl | hmem
    · exact hm.piece hplaced (hk _ (.head _))
    · rw [← hm.rules, ← hm.input]
      exact ih (hm.placed hplaced) (fun token h => hk token (.tail _ h)) token hmem

/-! ## The end of the input -/

/-- From a cursor in place there is a token to move over. -/
theorem exists_moves (h : t.cursor.Placed) : ∃ token t', t.Moves token t' := by
  obtain ⟨token, hpeek⟩ := peek_of_placed h
  obtain ⟨t', hforward⟩ := forward_of_peek hpeek
  exact ⟨token, t', forward_moves hforward⟩

/-- Reading as many tokens as there are scalars reaches the end of the input, and stops there. -/
theorem tokensFrom_reaches_end {n : Nat} (hplaced : t.cursor.Placed)
    (hn : t.cursor.rest.length ≤ n) :
    ∃ tokens last t', tokensFrom n t = .ok (tokens ++ [last], t') ∧ t.Commits tokens t' ∧
      t'.cursor.rest = [] ∧ last.kind = .endOfInput ∧
      ∀ token ∈ tokens, token.kind ≠ .endOfInput := by
  induction n generalizing t with
  | zero =>
    have hrest : t.cursor.rest = [] := List.length_eq_zero_iff.1 (Nat.le_zero.1 hn)
    obtain ⟨last, t', hm⟩ := exists_moves hplaced
    have hend : last.kind = .endOfInput := by
      refine Decidable.byContradiction fun hk => ?_
      have hlt := hm.rest_lt hk
      omega
    refine ⟨[], last, t, ?_, .nil, hrest, hend, List.forall_mem_nil _⟩
    unfold tokensFrom
    rw [next_eq_ok_iff.2 hm, hm.eq_of_atEnd hend]
    rfl
  | succ n ih =>
    obtain ⟨token, t', hm⟩ := exists_moves hplaced
    unfold tokensFrom
    rw [next_eq_ok_iff.2 hm, ok_bind]
    dsimp only
    cases hend : token.isEndOfInput with
    | true =>
      have hk : token.kind = .endOfInput := by simpa [Token.isEndOfInput] using hend
      rw [if_pos rfl, hm.eq_of_atEnd hk]
      exact ⟨[], token, t, rfl, .nil, (peek_at hm.peeked).atEnd hk, hk,
        List.forall_mem_nil _⟩
    | false =>
      have hk : token.kind ≠ .endOfInput := by simpa [Token.isEndOfInput] using hend
      have hlt := hm.rest_lt hk
      obtain ⟨tokens, last, t'', hrun, hcommits, hrest, hlast, hkinds⟩ :=
        ih (hm.placed hplaced) (by omega)
      refine ⟨token :: tokens, last, t'', ?_, .cons hm hcommits, hrest, hlast, ?_⟩
      · rw [if_neg Bool.false_ne_true, hrun]
        rfl
      · exact List.forall_mem_cons.2 ⟨hk, hkinds⟩

/-! ## Tokenizing -/

/-- The tokens are the pieces of the input, in order and without gaps. -/
structure Pieces (rules : List (TokenType × Rule)) (input : Text) (tokens : List Token) : Prop where
  /-- No token is empty, and none stands for the end of the input. -/
  nonempty : ∀ token ∈ tokens, token.text ≠ [] ∧ token.kind ≠ .endOfInput
  /-- Together the tokens are the input. -/
  texts : (tokens.map Token.text).flatten = input
  /-- The spans lead from the start of the input to its end. -/
  spans : Span.Contiguous .start (tokens.map Token.span) (Position.start.after input)
  /-- Each token is the input between the offsets of its span. -/
  slices : ∀ token ∈ tokens, token.value.start = token.span.start.offset ∧
    input.slice? token.span.start.offset token.span.stop.offset = some token.text
  /-- Each span ends at the position that the input leads to there. -/
  stops : ∀ token ∈ tokens, ∃ passed rest,
    input.cut token.span.stop.offset = some (passed, rest) ∧
      token.span.stop = Position.start.after passed
  /-- Each error token is one scalar, and at this scalar all rules decline. -/
  errors : ∀ token ∈ tokens, token.kind = .error → ∃ passed c rest,
    input.cut token.span.start.offset = some (passed, c :: rest) ∧ token.text = [c] ∧
      ∀ entry ∈ rules, entry.2.Declines (c :: rest)

/-- The tokens that lead from the start of an input to its end are its pieces. -/
theorem Commits.pieces_of_input {input : Text} (h : (t.withInput input).Commits tokens t')
    (hinput : input.byteLength ≤ largestInput) (hrest : t'.cursor.rest = [])
    (hk : ∀ token ∈ tokens, token.kind ≠ .endOfInput) : Pieces t.rules input tokens := by
  have hplaced : (t.withInput input).cursor.Placed := .ofInput hinput
  have hpiece : ∀ token ∈ tokens, ∃ passed, token.Piece t.rules input passed :=
    h.pieces hplaced hk
  have hend : t'.position = Position.start.after input := by
    obtain ⟨passed, hpassed, hposition⟩ := (h.placed hplaced).reached
    rw [hrest, List.append_nil, h.input] at hpassed
    rw [show input = passed from hpassed]
    exact hposition
  refine ⟨fun token hmem => ?_, ?_, ?_, fun token hmem => ?_, fun token hmem => ?_,
    fun token hmem herror => ?_⟩
  · obtain ⟨passed, hp⟩ := hpiece token hmem
    exact ⟨hp.nonempty, hk token hmem⟩
  · have htexts := h.texts
    rw [hrest, List.append_nil] at htexts
    exact htexts.symm
  · rw [← hend]
    exact h.contiguous
  · obtain ⟨passed, hp⟩ := hpiece token hmem
    exact ⟨hp.offset, hp.slice⟩
  · obtain ⟨passed, hp⟩ := hpiece token hmem
    obtain ⟨rest, hsplit⟩ := hp.ahead
    refine ⟨passed ++ token.text, rest, Text.cut_eq_some_iff.2 ⟨?_, hp.stop_offset.symm⟩, hp.stop⟩
    rw [hsplit, List.append_assoc]
  · obtain ⟨passed, hp⟩ := hpiece token hmem
    obtain ⟨c, rest, hsplit, htext, hdecline⟩ := hp.error herror
    exact ⟨passed, c, rest, Text.cut_eq_some_iff.2 ⟨hsplit, hp.start_offset.symm⟩, htext, hdecline⟩

/-- Tokenizing an input that is no larger than a text can be is at no fault and comes to an end,
behind tokens that are the pieces of the input. -/
theorem tokenize_lossless (t : Tokenizer) {input : Text}
    (hinput : input.byteLength ≤ largestInput) :
    ∃ tokens t', (t.withInput input).tokenize = .ok (tokens, t') ∧
      (t.withInput input).Commits tokens t' ∧ t'.atEnd = true ∧ Pieces t.rules input tokens := by
  have hplaced : (t.withInput input).cursor.Placed := .ofInput hinput
  obtain ⟨tokens, last, t', hrun, hcommits, hrest, hlast, hk⟩ :=
    tokensFrom_reaches_end hplaced (Nat.le_refl _)
  refine ⟨tokens, t', ?_, hcommits, by simp [atEnd, Cursor.atEnd, hrest],
    hcommits.pieces_of_input hinput hrest hk⟩
  have hkept : tokens.filter (fun token => !token.isEndOfInput) = tokens := by
    refine List.filter_eq_self.2 fun token hmem => ?_
    simp [Token.isEndOfInput, hk token hmem]
  have hdropped : [last].filter (fun token => !token.isEndOfInput) = [] := by
    simp [Token.isEndOfInput, hlast]
  unfold tokenize remainingTokens
  rw [hrun, ok_bind]
  dsimp only
  rw [List.filter_append, hkept, hdropped, List.append_nil]
  rfl

/-- Rules that match less than they seem to: no scalar lies in the interval, and no lexeme is empty. -/
def scantRules : List (TokenType × Rule) :=
  [("letter", .interval 'z' 'a'), ("nothing", .literal []), ("word", .literal ['a', 'b'])]

theorem scantRules_tokenize_lossless :
    Text.byteLength ['a', 'b', 'λ', '\n', 'a', 'b'] ≤ largestInput ∧
      ∃ tokens t',
        (withInput ⟨scantRules, .ofInput []⟩ ['a', 'b', 'λ', '\n', 'a', 'b']).tokenize =
          .ok (tokens, t') ∧
        (withInput ⟨scantRules, .ofInput []⟩ ['a', 'b', 'λ', '\n', 'a', 'b']).Commits tokens t' ∧
        t'.atEnd = true ∧ Pieces scantRules ['a', 'b', 'λ', '\n', 'a', 'b'] tokens :=
  have hinput : Text.byteLength ['a', 'b', 'λ', '\n', 'a', 'b'] ≤ largestInput := by decide
  ⟨hinput, tokenize_lossless ⟨scantRules, .ofInput []⟩ hinput⟩

/-- Between the two words an error token stands for each of the two scalars. -/
example : (withInput ⟨scantRules, .ofInput []⟩ ['a', 'b', 'λ', '\n', 'a', 'b']).tokenize.toOption.map
    (fun (tokens, _) => tokens.map fun token => (token.kind, token.span.stop)) =
      some [(.ordinary, ⟨1, 3, 2⟩), (.error, ⟨1, 4, 4⟩), (.error, ⟨2, 1, 5⟩),
        (.ordinary, ⟨2, 3, 7⟩)] := by
  decide +kernel

end Tokenizer

end PredictiveParsing
