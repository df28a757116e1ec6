import Mathlib.Data.List.Forall2
import PredictiveParsing.Proofs.Lexing.Lossless

/-!
# Scanning a text

A symbol is a type with a text, and ordinary tokens spell symbols (`Token.Spells`). Which symbols a
text has is a matter of the rules alone: each is what is scanned in the text that is left
(`Tokenizer.Scans`). Tokenizing an input that scans up to its end makes the ordinary tokens of its
symbols, in a row (`Tokenizer.eq_inRow_of_tokenize`).
-/

namespace PredictiveParsing

/-- The token is an ordinary one of the type and with the text of the symbol. -/
def Token.Spells (token : Token) (symbol : TokenType × Text) : Prop :=
  token.is symbol.1 = true ∧ token.text = symbol.2

/-- What spells symbols in a row are tokens in a row. -/
theorem Token.spells_append {tokens : List Token} {symbols symbols' : List (TokenType × Text)}
    (h : List.Forall₂ Spells tokens (symbols ++ symbols')) :
    ∃ ts ts', tokens = ts ++ ts' ∧ List.Forall₂ Spells ts symbols ∧
      List.Forall₂ Spells ts' symbols' :=
  ⟨_, _, (List.take_append_drop symbols.length tokens).symm, List.forall₂_take_append _ _ _ h,
    List.forall₂_drop_append _ _ _ h⟩

/-- The ordinary token of a symbol behind the text that has been passed. -/
def Token.ofSymbol (passed : Text) (symbol : TokenType × Text) : Token :=
  .ordinary symbol.1 ⟨symbol.2, (Position.start.after passed).offset⟩
    ⟨Position.start.after passed, Position.start.after (passed ++ symbol.2)⟩

theorem Token.within_ofSymbol (passed : Text) (symbol : TokenType × Text) :
    (ofSymbol passed symbol).span.Within passed.byteLength (passed ++ symbol.2).byteLength := by
  have hstart := Position.offset_after_start passed
  have hstop := Position.offset_after_start (passed ++ symbol.2)
  have hlength := Text.byteLength_append passed symbol.2
  exact ⟨Nat.le_of_eq hstart.symm, by dsimp only [ofSymbol, ordinary]; omega, Nat.le_of_eq hstop⟩

/-- The ordinary tokens of symbols in a row behind the text that has been passed. -/
def Token.inRow : Text → List (TokenType × Text) → List Token
  | _, [] => []
  | passed, symbol :: symbols => ofSymbol passed symbol :: inRow (passed ++ symbol.2) symbols

/-- The texts of symbols in a row. -/
def lexemes (symbols : List (TokenType × Text)) : Text := (symbols.map Prod.snd).flatten

theorem lexemes_append (symbols symbols' : List (TokenType × Text)) :
    lexemes (symbols ++ symbols') = lexemes symbols ++ lexemes symbols' := by
  simp [lexemes]

theorem Token.inRow_append (passed : Text) (symbols symbols' : List (TokenType × Text)) :
    inRow passed (symbols ++ symbols') =
      inRow passed symbols ++ inRow (passed ++ lexemes symbols) symbols' := by
  induction symbols generalizing passed with
  | nil => simp [inRow, lexemes]
  | cons symbol symbols ih => simp [inRow, lexemes, ih]

theorem Token.spells_inRow (passed : Text) (symbols : List (TokenType × Text)) :
    List.Forall₂ Spells (inRow passed symbols) symbols := by
  induction symbols generalizing passed with
  | nil => exact .nil
  | cons symbol symbols ih =>
    exact .cons ⟨by simp [Token.is, ofSymbol, Token.ordinary], rfl⟩ (ih _)

/-- An ordinary token that is read behind the passed text is the one of its symbol there. -/
theorem Token.At.eq_ofSymbol {token : Token} {c : Cursor} {passed : Text} (h : token.At c)
    (hk : token.kind = .ordinary) (hposition : c.position = Position.start.after passed) :
    token = ofSymbol passed (token.type, token.text) := by
  have hstart := h.start
  have hstop := h.stop
  have hoffset := h.offset
  rw [hposition] at hstart hstop hoffset
  obtain ⟨type, ⟨text, offset⟩, ⟨start, stop⟩, kind⟩ := token
  simp only [ofSymbol, Token.ordinary, Token.text, Token.mk.injEq, TextSlice.mk.injEq,
    Span.mk.injEq, Position.after_append, true_and] at *
  exact ⟨hoffset, ⟨hstart, hstop⟩, hk⟩

/-! ## Rules that the first scalar rules out -/

section
variable {c d : Char} {members : List Char} {text : Text}

theorem Rule.quickCheck_exactChar (h : c ≠ d) : (exactChar d).quickCheck (some c) = some false :=
  congrArg some (beq_false_of_ne h)

theorem Rule.quickCheck_charSet (h : c ∉ members) :
    (charSet members).quickCheck (some c) = some false := by
  simp [quickCheck, h]

theorem Rule.quickCheck_literal (h : c ≠ d) :
    (literal (d :: text)).quickCheck (some c) = some false := by
  simp [quickCheck, h.symm]

end

namespace Tokenizer

variable {rules : List (TokenType × Rule)} {t t' : Tokenizer} {token : Token}
  {tokens : List Token} {input text text' rest : Text}
  {symbols symbols' : List (TokenType × Text)}

/-! ## Texts and their symbols -/

/-- The symbols are scanned one after the other, from the text up to `rest`. -/
inductive Scans (rules : List (TokenType × Rule)) : Text → List (TokenType × Text) → Text → Prop
  | nil {rest : Text} : Scans rules rest [] rest
  | cons {type : TokenType} {lexeme text rest : Text} {symbols : List (TokenType × Text)}
      (first : scan rules (lexeme ++ text) = some (type, lexeme.byteLength))
      (others : Scans rules text symbols rest) :
      Scans rules (lexeme ++ text) ((type, lexeme) :: symbols) rest

theorem Scans.single {type : TokenType} {lexeme : Text}
    (h : scan rules (lexeme ++ rest) = some (type, lexeme.byteLength)) :
    Scans rules (lexeme ++ rest) [(type, lexeme)] rest :=
  .cons h .nil

theorem Scans.append (h : Scans rules text symbols text') (h' : Scans rules text' symbols' rest) :
    Scans rules text (symbols ++ symbols') rest := by
  induction h with
  | nil => exact h'
  | cons hfirst _ ih => exact .cons hfirst (ih h')

/-- Nothing is scanned at the end of a text. -/
theorem scan_nil : scan rules [] = none := by
  rw [scan_eq_none_iff]
  exact fun _ _ => .inl rfl

/-- Rules that the first scalar rules out are passed over. -/
theorem scan_append {c : Char} {passed : List (TokenType × Rule)}
    (h : ∀ entry ∈ passed, entry.2.quickCheck (some c) = some false) :
    scan (passed ++ rules) (c :: text) = scan rules (c :: text) := by
  have hnone : scan passed (c :: text) = none :=
    scan_eq_none_iff.2 fun entry hmem => .inl (h entry hmem)
  unfold scan at hnone ⊢
  rw [List.findSome?_append, hnone, Option.none_or]

/-- Two lexemes that begin the same text with as many bytes are the same. -/
theorem lexeme_unique {lexeme lexeme' : Text} (h : lexeme ++ text = lexeme' ++ text')
    (hlength : lexeme.byteLength = lexeme'.byteLength) : lexeme = lexeme' ∧ text = text' := by
  have hcut := Text.cut_append lexeme text
  rw [h, hlength, Text.cut_append] at hcut
  cases hcut
  exact ⟨rfl, rfl⟩

theorem Scans.eq_nil (h : Scans rules [] symbols rest) : symbols = [] := by
  generalize hnil : ([] : Text) = text at h
  cases h with
  | nil => rfl
  | cons hfirst =>
    rw [← hnil, scan_nil] at hfirst
    cases hfirst

/-- Up to its end a text has no other symbols. -/
theorem Scans.unique (h : Scans rules text symbols rest) (hrest : rest = [])
    (h' : Scans rules text symbols' []) : symbols = symbols' := by
  induction h generalizing symbols' with
  | nil =>
    subst hrest
    exact h'.eq_nil.symm
  | @cons type lexeme text rest symbols hfirst _ ih =>
    generalize hsame : lexeme ++ text = whole at h'
    cases h' with
    | nil =>
      rw [hsame, scan_nil] at hfirst
      cases hfirst
    | cons hfirst' hothers' =>
      rw [hsame, hfirst'] at hfirst
      simp only [Option.some.injEq, Prod.mk.injEq] at hfirst
      obtain ⟨rfl, rfl⟩ := lexeme_unique hsame hfirst.2.symm
      rw [hfirst.1, ih hrest hothers']

/-! ## Tokens and their symbols -/

/-- An ordinary token is what is scanned at the cursor. -/
theorem scan_of_peek (h : t.peek = .ok token) (hk : token.kind = .ordinary) :
    scan t.rules t.cursor.rest = some (token.type, token.text.byteLength) := by
  unfold peek at h
  split at h
  · obtain ⟨value, -, h⟩ := bind_eq_ok h
    cases h
    cases hk
  · next first rest hrest =>
    split at h
    · next type n hscan =>
      obtain ⟨value, hvalue, h⟩ := bind_eq_ok h
      obtain ⟨stop, -, h⟩ := bind_eq_ok h
      obtain ⟨span, -, h⟩ := bind_eq_ok h
      cases h
      obtain ⟨-, -, -, -, rfl⟩ := Cursor.sliceAhead_eq_ok.1 hvalue
      rw [hrest, hscan]
      rfl
    · obtain ⟨value, -, h⟩ := bind_eq_ok h
      obtain ⟨stop, -, h⟩ := bind_eq_ok h
      obtain ⟨span, -, h⟩ := bind_eq_ok h
      cases h
      cases hk

/-- Each ordinary token of a run of the stream is scanned in front of some text. -/
theorem Commits.scanned (h : t.Commits tokens t') (hmem : token ∈ tokens)
    (hk : token.kind = .ordinary) :
    ∃ rest, scan t.rules (token.text ++ rest) = some (token.type, token.text.byteLength) := by
  induction h with
  | nil => cases hmem
  | @cons t u t' first tokens hm _ ih =>
    rcases List.mem_cons.1 hmem with rfl | hmem
    · exact ⟨u.cursor.rest, hm.rest ▸ scan_of_peek hm.peeked hk⟩
    · rw [← hm.rules]
      exact ih hmem

/-- Tokens up to the end of the input are those of the symbols that are scanned. -/
theorem Commits.eq_inRow {passed : Text} (h : t.Commits tokens t') (hrest : t'.cursor.rest = [])
    (hk : ∀ token ∈ tokens, token.kind ≠ .endOfInput)
    (hscans : Scans t.rules t.cursor.rest symbols [])
    (hposition : t.cursor.position = Position.start.after passed) :
    tokens = Token.inRow passed symbols := by
  induction h generalizing symbols passed with
  | nil =>
    rw [hrest] at hscans
    rw [hscans.eq_nil]
    rfl
  | @cons t u t' token tokens hm _ ih =>
    generalize hwhole : t.cursor.rest = whole at hscans
    generalize hend : ([] : Text) = rest at hscans
    have hat := peek_at hm.peeked
    have hne := hat.nonempty (hk _ (.head _))
    cases hscans with
    | nil =>
      rw [hm.rest, ← hend] at hwhole
      exact absurd (List.append_eq_nil_iff.1 hwhole).1 hne
    | cons hfirst hothers =>
      have hordinary : token.kind = .ordinary := by
        rcases kind_of_peek hm.peeked with ⟨hlast, -⟩ | ⟨hordinary, -⟩ | ⟨-, hnone, -⟩
        · exact absurd hlast (hk _ (.head _))
        · exact hordinary
        · rw [hwhole, hfirst] at hnone
          cases hnone
      have hscan := scan_of_peek hm.peeked hordinary
      rw [hwhole, hfirst] at hscan
      simp only [Option.some.injEq, Prod.mk.injEq] at hscan
      obtain ⟨rfl, rfl⟩ := lexeme_unique (hm.rest.symm.trans hwhole) hscan.2.symm
      have hbehind : u.cursor.position = Position.start.after (passed ++ token.text) := by
        rw [hm.position, hat.stop, hposition, Position.after_append]
      subst hend
      rw [hm.rules] at ih
      rw [Token.inRow, hscan.1, ← hat.eq_ofSymbol hordinary hposition,
        ← ih hrest (fun token h => hk token (.tail _ h)) hothers hbehind]

/-! ## Tokenizing -/

/-- Tokenizing takes the tokens up to the end of the input. -/
theorem tokenize_reaches_end (t : Tokenizer) (hinput : input.byteLength ≤ largestInput) :
    ∃ tokens t', (t.withInput input).tokenize = .ok (tokens, t') ∧
      (t.withInput input).Commits tokens t' ∧ t'.cursor.rest = [] ∧
      ∀ token ∈ tokens, token.kind ≠ .endOfInput := by
  obtain ⟨tokens, last, t', hrun, hcommits, hrest, hlast, hk⟩ :=
    tokensFrom_reaches_end (t := t.withInput input) (.ofInput hinput) (Nat.le_refl _)
  have hkept : tokens.filter (fun token => !token.isEndOfInput) = tokens :=
    List.filter_eq_self.2 fun token hmem => by simp [Token.isEndOfInput, hk token hmem]
  have hdropped : [last].filter (fun token => !token.isEndOfInput) = [] := by
    simp [Token.isEndOfInput, hlast]
  refine ⟨tokens, t', ?_, hcommits, hrest, hk⟩
  unfold tokenize remainingTokens
  rw [hrun, ok_bind]
  dsimp only
  rw [List.filter_append, hkept, hdropped, List.append_nil]
  rfl

/-- The tokens of an input that scans are those of its symbols. -/
theorem eq_inRow_of_tokenize (hinput : input.byteLength ≤ largestInput)
    (hscans : Scans t.rules input symbols [])
    (h : (t.withInput input).tokenize = .ok (tokens, t')) : tokens = Token.inRow [] symbols := by
  obtain ⟨tokens', t'', hrun, hcommits, hrest, hk⟩ := tokenize_reaches_end t hinput
  cases h.symm.trans hrun
  exact hcommits.eq_inRow hrest hk hscans rfl

/-- Each ordinary token of an input is scanned in front of some text. -/
theorem scanned_of_tokenize (hinput : input.byteLength ≤ largestInput)
    (h : (t.withInput input).tokenize = .ok (tokens, t')) (hmem : token ∈ tokens)
    (hk : token.kind = .ordinary) :
    ∃ rest, scan t.rules (token.text ++ rest) = some (token.type, token.text.byteLength) := by
  obtain ⟨tokens', t'', hrun, hcommits, -, -⟩ := tokenize_reaches_end t hinput
  cases h.symm.trans hrun
  exact hcommits.scanned hmem hk

end Tokenizer

end PredictiveParsing
