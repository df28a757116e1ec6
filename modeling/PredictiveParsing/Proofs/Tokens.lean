import PredictiveParsing.Lexing.Tokenizer

/-!
# The token stream

What a tokenizer reads at its cursor is a piece of the unread text, and committing it moves the
cursor over exactly that piece: `Tokenizer.peek_at` says the first of a token that was peeked,
`Tokenizer.forward_moves` the second of a token that was committed. A peeked token can always be
committed (`Tokenizer.forward_of_peek`), and from a cursor that is in place there is always a token
to peek (`Tokenizer.peek_of_placed`): a cursor in place has the position that its input leads to,
and an input of bounded size, so no number on the way leaves the words.

`Tokenizer.Commits` is the run of the stream: committing several tokens, one after the other. Parsers
commit ordinary tokens only, so that a run goes from one tokenizer to one that it leads to:
`Tokenizer.LeadsTo`.
-/

namespace PredictiveParsing

/-- The largest number of bytes a text in memory can have. -/
def largestInput : Nat := 9223372036854775807

/-! ## Positions of a text -/

namespace Position

theorem next_line_le (p : Position) (c : Char) : (p.next c).line ≤ p.line + 1 := by
  unfold next
  split <;> simp

theorem next_column_le (p : Position) (c : Char) : (p.next c).column ≤ p.column + 1 := by
  unfold next
  split <;> simp

theorem one_le_next_column (p : Position) (c : Char) : 1 ≤ (p.next c).column := by
  unfold next
  split <;> simp

/-- No text has more lines than scalars. -/
theorem after_line_le (p : Position) (text : Text) :
    (p.after text).line ≤ p.line + text.length := by
  induction text generalizing p with
  | nil => simp
  | cons c cs ih =>
    have hnext := next_line_le p c
    have := ih (p.next c)
    rw [after_cons, List.length_cons]
    omega

/-- No line of a text has more columns than the text has scalars. -/
theorem after_column_le {p : Position} (hp : 1 ≤ p.column) (text : Text) :
    (p.after text).column ≤ p.column + text.length := by
  induction text generalizing p with
  | nil => simp
  | cons c cs ih =>
    have hnext := next_column_le p c
    have := ih (one_le_next_column p c)
    rw [after_cons, List.length_cons]
    omega

/-- Stepping over a scalar answers where line, column and offset stay words. -/
theorem step_of_lt {p : Position} {c : Char} (hl : p.line + 1 < wordLimit)
    (hc : p.column + 1 < wordLimit) (ho : p.offset + c.utf8Size < wordLimit) :
    p.step c = .ok (p.next c) := by
  unfold step next checkedAdd
  rw [if_pos hl, if_pos hc, if_pos ho]
  split <;> rfl

/-- Stepping over a text answers where line, column and offset stay words. -/
theorem advance_of_lt {p : Position} {text : Text} (hl : p.line + text.length < wordLimit)
    (hc : p.column + text.length < wordLimit) (ho : p.offset + text.byteLength < wordLimit) :
    p.advance text = .ok (p.after text) := by
  induction text generalizing p with
  | nil => rfl
  | cons c cs ih =>
    rw [List.length_cons] at hl hc
    rw [Text.byteLength_cons] at ho
    have hstep : p.step c = .ok (p.next c) := step_of_lt (by omega) (by omega) (by omega)
    have hline := next_line_le p c
    have hcolumn := next_column_le p c
    show (p.step c >>= fun q => q.advance cs) = _
    rw [hstep, after_cons]
    exact ih (by omega) (by omega) (by rw [next_offset]; omega)

end Position

/-! ## Matches -/

theorem Rule.literalLength?_eq_some {input text : Text} {n : Nat}
    (h : literalLength? input text = some n) :
    text ≠ [] ∧ n = text.byteLength ∧ ∃ rest, input = text ++ rest := by
  unfold literalLength? at h
  split at h
  · next hc =>
    cases h
    simp only [Bool.and_eq_true, Bool.not_eq_true', List.isEmpty_eq_false_iff] at hc
    obtain ⟨rest, hr⟩ := List.isPrefixOf_iff_prefix.1 hc.2
    exact ⟨hc.1, rfl, rest, hr.symm⟩
  · cases h

/-- A lexeme is a piece of the text, and not an empty one. -/
theorem Rule.matchLength?_eq_some {rule : Rule} {input : Text} {n : Nat}
    (h : rule.matchLength? input = some n) :
    ∃ lexeme rest, input = lexeme ++ rest ∧ lexeme ≠ [] ∧ lexeme.byteLength = n := by
  have fixed {text : Text} (h : literalLength? input text = some n) :
      ∃ lexeme rest, input = lexeme ++ rest ∧ lexeme ≠ [] ∧ lexeme.byteLength = n := by
    obtain ⟨hne, hn, rest, hr⟩ := literalLength?_eq_some h
    exact ⟨text, rest, hr, hne, hn.symm⟩
  unfold matchLength? at h
  cases input with
  | nil => cases h
  | cons c cs =>
    cases rule with
    | exactChar | charSet | interval =>
      dsimp only at h
      split at h
      · cases h; exact ⟨[c], cs, rfl, nofun, by simp⟩
      · cases h
    | literal text => exact fixed h
    | literalSet texts =>
      obtain ⟨text, -, ht⟩ := List.exists_of_findSome?_eq_some h
      exact fixed ht
    | regexp regex lookups =>
      obtain ⟨hm, hpos⟩ := Option.filter_eq_some_iff.1 h
      obtain ⟨lexeme, rest, hr, hn⟩ := Regex.matchEnd?_eq_some hm
      refine ⟨lexeme, rest, hr, ?_, hn⟩
      rintro rfl
      rw [← hn] at hpos
      exact absurd hpos (by simp)

namespace Tokenizer

/-- What is scanned is matched by a rule of the type. -/
theorem exists_rule_of_scan {rules : List (TokenType × Rule)} {input : Text} {type : TokenType}
    {n : Nat} (h : scan rules input = some (type, n)) :
    ∃ rule, (type, rule) ∈ rules ∧ rule.matchLength? input = some n := by
  obtain ⟨⟨type', rule⟩, hmem, hrule⟩ := List.exists_of_findSome?_eq_some h
  dsimp only at hrule
  split at hrule
  · cases hrule
  · obtain ⟨m, hm, hpair⟩ := Option.map_eq_some_iff.1 hrule
    cases hpair
    exact ⟨rule, hmem, hm⟩

/-- The rule that wins matches a piece of the text, and not an empty one. -/
theorem scan_eq_some {rules : List (TokenType × Rule)} {input : Text} {type : TokenType} {n : Nat}
    (h : scan rules input = some (type, n)) :
    ∃ lexeme rest, input = lexeme ++ rest ∧ lexeme ≠ [] ∧ lexeme.byteLength = n := by
  obtain ⟨rule, -, hm⟩ := exists_rule_of_scan h
  exact Rule.matchLength?_eq_some hm

end Tokenizer

/-! ## Spans in order -/

namespace Span

theorem between_eq_ok {start stop : Position} {span : Span} :
    between start stop = .ok span ↔ start.offset ≤ stop.offset ∧ span = ⟨start, stop⟩ := by
  unfold between
  split
  · next h => simp [h, eq_comm]
  · next h => simp [h]

/-- The span runs forward, between two offsets. -/
structure Within (s : Span) (low high : Nat) : Prop where
  low : low ≤ s.start.offset
  forward : s.start.offset ≤ s.stop.offset
  high : s.stop.offset ≤ high

variable {s s' : Span} {low mid mid' high low' high' : Nat}

theorem Within.mono (h : s.Within low high) (hl : low' ≤ low) (hh : high ≤ high') :
    s.Within low' high' := by
  obtain ⟨hlow, hforward, hhigh⟩ := h
  exact ⟨by omega, hforward, by omega⟩

/-- Two spans in order have a cover. -/
theorem Within.cover (h : s.Within low mid) (h' : s'.Within mid' high) (hm : mid ≤ mid') :
    Span.cover s s' = .ok ⟨s.start, s'.stop⟩ ∧ Within ⟨s.start, s'.stop⟩ low high := by
  obtain ⟨hlow, hforward, hhigh⟩ := h
  obtain ⟨hlow', hforward', hhigh'⟩ := h'
  have hcover : s.start.offset ≤ s'.stop.offset := by omega
  exact ⟨between_eq_ok.2 ⟨hcover, rfl⟩, hlow, hcover, hhigh'⟩

end Span

/-! ## Tokens at the cursor -/

/-- The slice ahead of a cursor is the piece of the unread text of that many bytes. -/
theorem Cursor.sliceAhead_eq_ok {c : Cursor} {n : Nat} {value : TextSlice} :
    c.sliceAhead n = .ok value ↔
      c.position.offset + n < wordLimit ∧ value.start = c.position.offset ∧
        ∃ rest, c.rest = value.text ++ rest ∧ value.text.byteLength = n := by
  unfold sliceAhead
  constructor
  · intro h
    obtain ⟨_, hadd, h⟩ := bind_eq_ok h
    split at h
    · next text rest hcut =>
      cases h
      exact ⟨(checkedAdd_eq_ok.1 hadd).1, rfl, rest, Text.cut_eq_some_iff.1 hcut⟩
    · cases h
  · rintro ⟨hlt, hstart, rest, hrest, hn⟩
    have hcut : c.rest.cut n = some (value.text, rest) := Text.cut_eq_some_iff.2 ⟨hrest, hn⟩
    have hadd := checkedAdd_eq_ok.2 ⟨hlt, rfl⟩
    rw [hadd, ok_bind, hcut, ← hstart]
    rfl

/-- The piece ahead of a cursor is known by its number of bytes. -/
theorem Cursor.text_of_sliceAhead {c : Cursor} {n : Nat} {value : TextSlice} {lexeme rest : Text}
    (h : c.sliceAhead n = .ok value) (hrest : c.rest = lexeme ++ rest)
    (hn : lexeme.byteLength = n) : value.text = lexeme := by
  obtain ⟨-, -, after, hafter, hlen⟩ := sliceAhead_eq_ok.1 h
  have hcut := Text.cut_append value.text after
  rw [← hafter, hlen, hrest, ← hn, Text.cut_append] at hcut
  cases hcut
  rfl

/-- The token is read at the cursor: it spans the next piece of the unread text, which is empty only
at the end of the input. -/
structure Token.At (token : Token) (c : Cursor) : Prop where
  start : token.span.start = c.position
  advance : c.position.advance token.text = .ok token.span.stop
  room : c.position.offset + token.text.byteLength < wordLimit
  offset : token.value.start = c.position.offset
  ahead : ∃ rest, c.rest = token.text ++ rest
  nonempty : token.kind ≠ .endOfInput → token.text ≠ []
  atEnd : token.kind = .endOfInput → c.rest = []

namespace Token.At

variable {token : Token} {c : Cursor}

theorem stop (h : token.At c) : token.span.stop = c.position.after token.text :=
  Position.advance_eq_after h.advance

theorem stop_offset (h : token.At c) :
    token.span.stop.offset = c.position.offset + token.text.byteLength := by
  rw [h.stop, Position.after_offset]

/-- The token spans its own bytes. -/
theorem within (h : token.At c) :
    token.span.Within c.position.offset (c.position.offset + token.text.byteLength) := by
  have hstart : token.span.start.offset = c.position.offset := by rw [h.start]
  have hstop := h.stop_offset
  exact ⟨by omega, by omega, by omega⟩

/-- The token at the end of the input is empty. -/
theorem text_of_atEnd (h : token.At c) (hk : token.kind = .endOfInput) : token.text = [] := by
  obtain ⟨rest, hrest⟩ := h.ahead
  rw [h.atEnd hk] at hrest
  exact (List.append_eq_nil_iff.1 hrest.symm).1

/-- The token at the end of the input spans nothing. -/
theorem within_of_isEndOfInput (h : token.At c) (hend : token.isEndOfInput = true) :
    token.span.Within c.position.offset c.position.offset := by
  have hwithin := h.within
  rwa [h.text_of_atEnd (by simpa [Token.isEndOfInput] using hend)] at hwithin

/-- A token of the piece ahead of the cursor is read there. -/
theorem of_slice {n : Nat} {type : TokenType} {value : TextSlice} {stop : Position}
    {kind : TokenKind} (h : c.sliceAhead n = .ok value)
    (hs : c.position.advance value.text = .ok stop) (hne : value.text ≠ [])
    (hk : kind ≠ .endOfInput) : Token.At ⟨type, value, ⟨c.position, stop⟩, kind⟩ c := by
  obtain ⟨hlt, hstart, rest, hrest, hn⟩ := Cursor.sliceAhead_eq_ok.1 h
  rw [← hn] at hlt
  exact ⟨rfl, hs, hlt, hstart, ⟨rest, hrest⟩, fun _ => hne, fun he => absurd he hk⟩

end Token.At

namespace Tokenizer

variable {t t' : Tokenizer} {token : Token}

/-- What is peeked is read at the cursor. -/
theorem peek_at (h : t.peek = .ok token) : token.At t.cursor := by
  unfold peek at h
  split at h
  · next hrest =>
    obtain ⟨value, hv, h⟩ := bind_eq_ok h
    cases h
    obtain ⟨hlt, hstart, rest, hr, hn⟩ := Cursor.sliceAhead_eq_ok.1 hv
    have htext : value.text = [] := Text.byteLength_eq_zero.1 hn
    refine ⟨rfl, ?_, ?_, hstart, ⟨rest, hr⟩, fun hk => absurd rfl hk, fun _ => hrest⟩
    · simp only [Token.endOfInput, Token.text, htext, Span.empty]
      rfl
    · simpa only [Token.endOfInput, Token.text, hn] using hlt
  · next first rest hrest =>
    split at h
    · next type n hscan =>
      obtain ⟨value, hv, h⟩ := bind_eq_ok h
      obtain ⟨stop, hs, h⟩ := bind_eq_ok h
      obtain ⟨span, hspan, h⟩ := bind_eq_ok h
      cases h
      obtain ⟨-, rfl⟩ := Span.between_eq_ok.1 hspan
      obtain ⟨lexeme, after, hinput, hne, hlen⟩ := scan_eq_some hscan
      refine .of_slice hv hs ?_ nofun
      rwa [Cursor.text_of_sliceAhead hv (hrest.trans hinput) hlen]
    · obtain ⟨value, hv, h⟩ := bind_eq_ok h
      obtain ⟨stop, hs, h⟩ := bind_eq_ok h
      obtain ⟨span, hspan, h⟩ := bind_eq_ok h
      cases h
      obtain ⟨-, rfl⟩ := Span.between_eq_ok.1 hspan
      have htext : value.text = [first] :=
        Cursor.text_of_sliceAhead hv (hrest : _ = [first] ++ rest) (by simp)
      refine .of_slice hv ?_ (by simp [htext]) nofun
      rw [htext]
      show (t.cursor.position.step first >>= _) = _
      rw [hs]
      rfl

/-- What moving over a token does: the token is the one at the cursor, and the cursor passes over
its text to where its span ends. -/
structure Moves (t : Tokenizer) (token : Token) (t' : Tokenizer) : Prop where
  peeked : t.peek = .ok token
  rules : t'.rules = t.rules
  input : t'.cursor.input = t.cursor.input
  rest : t.cursor.rest = token.text ++ t'.cursor.rest
  position : t'.cursor.position = token.span.stop

theorem length_of_peek (h : t.peek = .ok token) :
    token.span.length = .ok token.text.byteLength := by
  have hat := peek_at h
  refine checkedSub_eq_ok.2 ⟨?_, ?_⟩ <;> rw [hat.stop_offset, hat.start] <;> omega

/-- Moving over a token moves over the token at the cursor. -/
theorem forward_moves (h : t.forward token = .ok t') : t.Moves token t' := by
  unfold forward at h
  split at h
  · obtain ⟨peeked, hp, h⟩ := bind_eq_ok h
    split at h
    · next he =>
      subst he
      obtain ⟨length, hl, h⟩ := bind_eq_ok h
      obtain ⟨cursor, hc, h⟩ := bind_eq_ok h
      cases h
      have hat := peek_at hp
      obtain ⟨rest, hrest⟩ := hat.ahead
      rw [length_of_peek hp] at hl
      cases hl
      obtain ⟨_, -, hc⟩ := bind_eq_ok hc
      rw [hrest, Text.cut_append] at hc
      obtain ⟨position, hpos, hc⟩ := bind_eq_ok hc
      cases hc
      rw [hat.advance] at hpos
      cases hpos
      exact ⟨hp, rfl, rfl, hrest, rfl⟩
    · cases h
  · cases h

/-- A peeked token can be committed. -/
theorem forward_of_peek (h : t.peek = .ok token) : ∃ t', t.forward token = .ok t' := by
  have hat := peek_at h
  obtain ⟨rest, hrest⟩ := hat.ahead
  have hhead : t.cursor.rest.startsWith token.text = true := by
    rw [hrest]
    exact List.isPrefixOf_iff_prefix.2 ⟨rest, rfl⟩
  have hadvance : t.cursor.advance token.text.byteLength =
      .ok ⟨t.cursor.input, rest, token.span.stop⟩ := by
    unfold Cursor.advance
    rw [checkedAdd_eq_ok.2 ⟨hat.room, rfl⟩, ok_bind, hrest, Text.cut_append]
    dsimp only
    rw [hat.advance]
    rfl
  refine ⟨{ t with cursor := ⟨t.cursor.input, rest, token.span.stop⟩ }, ?_⟩
  unfold forward
  rw [if_pos (by simp [hat.start, hhead]), h]
  show (if token = token then _ else _) = _
  rw [if_pos rfl, length_of_peek h]
  show (t.cursor.advance token.text.byteLength >>= _) = _
  rw [hadvance]
  rfl

/-- A tokenizer is its rules, its input, and where it stands in it. -/
theorem eq_of_parts (hrules : t'.rules = t.rules) (hinput : t'.cursor.input = t.cursor.input)
    (hrest : t'.cursor.rest = t.cursor.rest) (hposition : t'.cursor.position = t.cursor.position) :
    t' = t := by
  obtain ⟨rules, ⟨input, rest, position⟩⟩ := t
  obtain ⟨rules', ⟨input', rest', position'⟩⟩ := t'
  cases hrules
  cases hinput
  cases hrest
  cases hposition
  rfl

/-- A move over a token is a commit of it. -/
theorem Moves.forward (hm : t.Moves token t') : t.forward token = .ok t' := by
  obtain ⟨u, hu⟩ := forward_of_peek hm.peeked
  have hmu := forward_moves hu
  have hrest := List.append_cancel_left (hmu.rest.symm.trans hm.rest)
  rw [hu, eq_of_parts (hmu.rules.trans hm.rules.symm) (hmu.input.trans hm.input.symm) hrest
    (hmu.position.trans hm.position.symm)]

/-- Reading a token is moving over the one at the cursor. -/
theorem next_eq_ok_iff : t.next = .ok (token, t') ↔ t.Moves token t' := by
  constructor
  · intro h
    obtain ⟨peeked, -, h⟩ := bind_eq_ok h
    obtain ⟨_, hforward, h⟩ := bind_eq_ok h
    cases h
    exact forward_moves hforward
  · intro hm
    unfold next
    rw [hm.peeked, ok_bind, hm.forward]
    rfl

/-- Moving over the token at the end of the input does not move. -/
theorem Moves.eq_of_atEnd (hm : t.Moves token t') (hk : token.kind = .endOfInput) : t' = t := by
  have hat := peek_at hm.peeked
  have htext := hat.text_of_atEnd hk
  have hrest : t'.cursor.rest = t.cursor.rest := by rw [hm.rest, htext, List.nil_append]
  have hposition : t'.cursor.position = t.cursor.position := by
    rw [hm.position, hat.stop, htext, Position.after_nil]
  exact eq_of_parts hm.rules hm.input hrest hposition

end Tokenizer

/-! ## Cursors in place -/

/-- The cursor is where its input leads to: its position is the one behind what it has passed, and
the input is no larger than a text can be. -/
structure Cursor.Placed (c : Cursor) : Prop where
  reached : ∃ passed, c.input = passed ++ c.rest ∧ c.position = Position.start.after passed
  bounded : c.input.byteLength ≤ largestInput

namespace Cursor.Placed

variable {c : Cursor}

/-- The cursor at the start of an input is in place. -/
theorem ofInput {input : Text} (h : input.byteLength ≤ largestInput) :
    (Cursor.ofInput input).Placed :=
  ⟨⟨[], rfl, rfl⟩, h⟩

/-- A cursor that has moved over the piece ahead of a cursor in place is in place. -/
theorem behind {d : Cursor} (h : c.Placed) {lexeme : Text} (hinput : d.input = c.input)
    (hrest : c.rest = lexeme ++ d.rest) (hposition : d.position = c.position.after lexeme) :
    d.Placed := by
  obtain ⟨passed, hpassed, hreached⟩ := h.reached
  refine ⟨⟨passed ++ lexeme, ?_, ?_⟩, hinput ▸ h.bounded⟩
  · rw [hinput, hpassed, hrest, List.append_assoc]
  · rw [hposition, hreached, Position.after_append]

/-- What is ahead of a cursor in place fits behind its position. -/
theorem room (h : c.Placed) {text rest : Text} (hr : c.rest = text ++ rest) :
    c.position.line + text.length < wordLimit ∧ c.position.column + text.length < wordLimit ∧
      c.position.offset + text.byteLength < wordLimit := by
  obtain ⟨passed, hinput, hpos⟩ := h.reached
  have hbound := h.bounded
  rw [hinput, hr, Text.byteLength_append, Text.byteLength_append] at hbound
  have hline := Position.after_line_le .start passed
  have hcolumn := Position.after_column_le (Nat.le_refl Position.start.column) passed
  have hoffset := Position.after_offset .start passed
  have hpassed := Text.length_le_byteLength passed
  have htext := Text.length_le_byteLength text
  rw [← hpos] at hline hcolumn hoffset
  simp only [Position.start, largestInput] at hline hcolumn hoffset hbound
  unfold wordLimit
  omega

theorem advance (h : c.Placed) {text rest : Text} (hr : c.rest = text ++ rest) :
    c.position.advance text = .ok (c.position.after text) := by
  obtain ⟨hl, hc, ho⟩ := h.room hr
  exact Position.advance_of_lt hl hc ho

/-- The piece ahead of a cursor in place can be sliced. -/
theorem slice (h : c.Placed) {text rest : Text} (hr : c.rest = text ++ rest) :
    c.sliceAhead text.byteLength = .ok ⟨text, c.position.offset⟩ :=
  Cursor.sliceAhead_eq_ok.2 ⟨(h.room hr).2.2, rfl, rest, hr, rfl⟩

/-- The bytes that are passed and those that are left make the input. -/
theorem offset_add (h : c.Placed) :
    c.position.offset + c.rest.byteLength = c.input.byteLength := by
  obtain ⟨passed, hinput, hpos⟩ := h.reached
  have hoffset := Position.after_offset .start passed
  have hstart : Position.start.offset = 0 := rfl
  rw [hpos, hinput, Text.byteLength_append]
  omega

/-- Of two cursors in place in one input, the one with the larger offset has less left. -/
theorem rest_lt {d : Cursor} (h : c.Placed) (h' : d.Placed) (hi : d.input = c.input)
    (hlt : c.position.offset < d.position.offset) : d.rest.length < c.rest.length := by
  have hsum := h.offset_add
  have hsum' := h'.offset_add
  obtain ⟨passed, hinput, -⟩ := h.reached
  obtain ⟨passed', hinput', -⟩ := h'.reached
  have hsuffix : c.rest <:+ c.input := ⟨passed, hinput.symm⟩
  have hsuffix' : d.rest <:+ c.input := ⟨passed', by rw [← hi, hinput']⟩
  rw [hi] at hsum'
  rcases List.suffix_or_suffix_of_suffix hsuffix hsuffix' with ⟨more, hmore⟩ | ⟨more, hmore⟩
  · have hbytes := Text.byteLength_append more c.rest
    rw [hmore] at hbytes
    omega
  · have hne : more ≠ [] := by
      rintro rfl
      rw [List.nil_append] at hmore
      rw [hmore] at hsum'
      omega
    have hlength := List.length_pos_iff.2 hne
    rw [← hmore, List.length_append]
    omega

end Cursor.Placed

namespace Tokenizer

variable {t t' t'' : Tokenizer} {token : Token} {tokens tokens' : List Token}

/-- At a cursor in place there is a token to peek. -/
theorem peek_of_placed (h : t.cursor.Placed) : ∃ token, t.peek = .ok token := by
  have hspan (text : Text) : Span.between t.cursor.position (t.cursor.position.after text) =
      .ok ⟨t.cursor.position, t.cursor.position.after text⟩ :=
    Span.between_eq_ok.2 ⟨by rw [Position.after_offset]; omega, rfl⟩
  unfold peek
  split
  · next hrest =>
    have hr : t.cursor.rest = [] ++ [] := hrest
    have hslice := h.slice hr
    exact exists_bind_ok hslice ⟨_, rfl⟩
  · next first rest hrest =>
    split
    · next type n hscan =>
      obtain ⟨lexeme, after, hinput, -, rfl⟩ := scan_eq_some hscan
      have hr := hrest.trans hinput
      exact exists_bind_ok (h.slice hr)
        (exists_bind_ok (h.advance hr) (exists_bind_ok (hspan lexeme) ⟨_, rfl⟩))
    · have hr : t.cursor.rest = [first] ++ rest := hrest
      have hn : first.utf8Size = Text.byteLength [first] := by simp
      have hstep := Position.step_of_lt (h.room hr).1 (h.room hr).2.1 (hn ▸ (h.room hr).2.2)
      rw [hn]
      exact exists_bind_ok (h.slice hr)
        (exists_bind_ok hstep (exists_bind_ok (hspan [first]) ⟨_, rfl⟩))

/-- Moving over a token leaves the cursor in place. -/
theorem Moves.placed (hm : t.Moves token t') (h : t.cursor.Placed) : t'.cursor.Placed :=
  h.behind hm.input hm.rest (hm.position.trans (peek_at hm.peeked).stop)

/-- Moving over a token moves the offset by the bytes of the token. -/
theorem Moves.offset (hm : t.Moves token t') :
    t'.position.offset = t.position.offset + token.text.byteLength := by
  have hat := peek_at hm.peeked
  show t'.cursor.position.offset = t.cursor.position.offset + _
  rw [hm.position, hat.stop_offset]

/-- Moving over a token moves over its span. -/
theorem Moves.within (hm : t.Moves token t') :
    token.span.Within t.position.offset t'.position.offset := by
  rw [hm.offset]
  exact (peek_at hm.peeked).within

/-- Moving over a token does not lengthen the unread text. -/
theorem Moves.rest_le (hm : t.Moves token t') :
    t'.cursor.rest.length ≤ t.cursor.rest.length := by
  rw [hm.rest, List.length_append]
  omega

/-- Moving over a token shortens the unread text, unless the input is at its end. -/
theorem Moves.rest_lt (hm : t.Moves token t') (hk : token.kind ≠ .endOfInput) :
    t'.cursor.rest.length < t.cursor.rest.length := by
  have hne := List.length_pos_iff.2 ((peek_at hm.peeked).nonempty hk)
  rw [hm.rest, List.length_append]
  omega

/-! ## Several tokens -/

/-- From `t`, the tokens are committed one after the other, up to `t'`. -/
inductive Commits : Tokenizer → List Token → Tokenizer → Prop
  | nil {t : Tokenizer} : Commits t [] t
  | cons {t t' t'' : Tokenizer} {token : Token} {tokens : List Token} (first : t.Moves token t')
      (rest : Commits t' tokens t'') : Commits t (token :: tokens) t''

theorem Commits.single (h : t.Moves token t') : Commits t [token] t' := .cons h .nil

theorem Commits.append (h : Commits t tokens t') (h' : Commits t' tokens' t'') :
    Commits t (tokens ++ tokens') t'' := by
  induction h with
  | nil => exact h'
  | cons hm _ ih => exact .cons hm (ih h')

/-! ## Ordinary tokens -/

/-- Ordinary tokens lead from the first tokenizer to the second. -/
def LeadsTo (t t' : Tokenizer) : Prop :=
  ∃ tokens, t.Commits tokens t' ∧ ∀ token ∈ tokens, token.kind = .ordinary

namespace LeadsTo

theorem refl (t : Tokenizer) : t.LeadsTo t := ⟨[], .nil, nofun⟩

theorem trans (h : t.LeadsTo t') (h' : t'.LeadsTo t'') : t.LeadsTo t'' := by
  obtain ⟨tokens, hc, hk⟩ := h
  obtain ⟨tokens', hc', hk'⟩ := h'
  refine ⟨tokens ++ tokens', hc.append hc', fun token htoken => ?_⟩
  rcases List.mem_append.1 htoken with htoken | htoken
  · exact hk token htoken
  · exact hk' token htoken

theorem of_moves (h : t.Moves token t') (hk : token.kind = .ordinary) : t.LeadsTo t' := by
  refine ⟨[token], .single h, fun token' htoken' => ?_⟩
  rw [List.mem_singleton.1 htoken']
  exact hk

/-- Of two tokenizers that one leads to, one leads to the other. -/
theorem linear (h : t.LeadsTo t') (h' : t.LeadsTo t'') : t'.LeadsTo t'' ∨ t''.LeadsTo t' := by
  obtain ⟨tokens, hc, hk⟩ := h
  obtain ⟨tokens', hc', hk'⟩ := h'
  induction hc generalizing tokens' with
  | nil => exact .inl ⟨tokens', hc', hk'⟩
  | cons hm hrest ih =>
    cases hc' with
    | nil => exact .inr ⟨_, .cons hm hrest, hk⟩
    | cons hm' hrest' =>
      -- both begin with the token that is peeked
      cases hm.peeked.symm.trans hm'.peeked
      cases hm.forward.symm.trans hm'.forward
      exact ih (fun token h => hk token (.tail _ h)) _ hrest' fun token h => hk' token (.tail _ h)

/-- A tokenizer that is led to is the same one, or has less left to read. -/
theorem eq_or_lt (h : t.LeadsTo t') :
    t' = t ∨ t'.cursor.rest.length < t.cursor.rest.length := by
  obtain ⟨tokens, hc, hk⟩ := h
  induction hc with
  | nil => exact .inl rfl
  | cons hm _ ih =>
    have hlt := hm.rest_lt (by rw [hk _ (.head _)]; nofun)
    rcases ih fun token h => hk token (.tail _ h) with rfl | hrest
    · exact .inr hlt
    · exact .inr (Nat.lt_trans hrest hlt)

end LeadsTo

end Tokenizer

theorem Token.kind_of_is {token : Token} {type : TokenType} (h : token.is type = true) :
    token.kind = .ordinary := by
  simp only [Token.is, Bool.and_eq_true, decide_eq_true_eq] at h
  exact h.1

theorem Token.type_of_is {token : Token} {type : TokenType} (h : token.is type = true) :
    token.type = type := by
  simp only [Token.is, Bool.and_eq_true, beq_iff_eq] at h
  exact h.2

end PredictiveParsing
