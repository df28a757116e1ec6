import PredictiveParsing.Proofs.Languages.Identifiers
import PredictiveParsing.Proofs.Languages.Lambda

/-!
# Printing terms

A term of which all names and types are identifiers is written in lexemes that scan to its symbols
(`Term.scans`), and tokens with these symbols derive the term (`Term.derives_of_symbols`). So the
parser reads a written term back, and no two such terms are written alike. The other way around,
identifier tokens are identifiers, so that every term that is read is one of these
(`Term.Derives.wellNamed`).
-/

namespace PredictiveParsing.Lambda

open Tokenizer

namespace Term

/-- All names and types are identifiers. -/
def WellNamed : Term → Prop
  | var name type => isName name = true ∧ isName type = true
  | app f a => f.WellNamed ∧ a.WellNamed
  | lam name type body => isName name = true ∧ isName type = true ∧ body.WellNamed

/-- The symbols that the term is written with. -/
def symbols : Term → List (TokenType × Text)
  | var name type => [("identifier", name), ("column", [':']), ("identifier", type)]
  | app f a =>
    ("lparen", ['(']) :: (f.symbols ++ ("space", [' ']) :: (a.symbols ++ [("rparen", [')'])]))
  | lam name type body =>
    ("lambda", ['λ']) :: ("identifier", name) :: ("column", [':']) :: ("identifier", type) ::
      ("dot", ['.']) :: ("space", [' ']) :: body.symbols

end Term

variable {t t' : Term} {input name rest : Text} {tokens ts : List Token} {token : Token}

/-! ## From terms to symbols -/

/-- Only the rule of identifiers applies to a scalar that begins one. -/
theorem scan_of_startsName {c : Char} {cs : Text} (h : startsName c = true) :
    scan rules (c :: cs) = scan [("identifier", .regexp identifierRegex none)] (c :: cs) := by
  have hne (d : Char) (hd : startsName d = false) : c ≠ d := by
    rintro rfl
    rw [hd] at h
    cases h
  have hset {ds : List Char} (hds : ds.any startsName = false) : c ∉ ds :=
    fun hmem => List.any_eq_false.1 hds c hmem h
  have hpassed : ∀ entry ∈ rules.take 7, entry.2.quickCheck (some c) = some false := by
    simp only [rules, List.take_succ_cons, List.take_zero, List.forall_mem_cons]
    exact ⟨Rule.quickCheck_exactChar (hne '.' rfl), Rule.quickCheck_exactChar (hne ':' rfl),
      Rule.quickCheck_exactChar (hne '(' rfl), Rule.quickCheck_exactChar (hne ')' rfl),
      Rule.quickCheck_charSet (hset rfl), Rule.quickCheck_literal (hne '\\' rfl),
      Rule.quickCheck_charSet (hset rfl), nofun⟩
  exact scan_append hpassed

/-- An identifier is scanned up to where it ends. -/
theorem scan_name (hname : isName name = true) (hrest : EndsName rest) :
    scan rules (name ++ rest) = some ("identifier", name.byteLength) := by
  have hmatch := matchEnd?_name hname hrest
  cases name with
  | nil => cases hname
  | cons c cs =>
    have hpos : 0 < Text.byteLength (c :: cs) :=
      Nat.pos_of_ne_zero fun h => List.cons_ne_nil c cs (Text.byteLength_eq_zero.1 h)
    rw [List.cons_append] at hmatch ⊢
    rw [scan_of_startsName (Bool.and_eq_true_iff.1 hname).1]
    simp only [scan, List.findSome?_cons, Rule.quickCheck, Rule.matchLength?, hmatch,
      Option.filter_some, hpos]
    rfl

theorem endsName_cons {c : Char} (h : continuesName c = false) (hprime : c ≠ '\'') :
    EndsName (c :: rest) := by
  rintro _ ⟨⟩
  exact ⟨h, hprime⟩

/-- A term is written in the lexemes of its symbols. -/
theorem Term.scans (ht : t.WellNamed) (hrest : EndsName rest) :
    Scans rules (t.written ++ rest) t.symbols rest := by
  induction t generalizing rest with
  | var name type =>
    have hwritten : (var name type).written ++ rest = name ++ ([':'] ++ (type ++ rest)) := by
      simp [written]
    rw [hwritten]
    exact .cons (scan_name ht.1 (endsName_cons rfl (by decide)))
      (.cons rfl (.single (scan_name ht.2 hrest)))
  | app f a ihf iha =>
    have hblank : EndsName ([' '] ++ (a.written ++ ([')'] ++ rest))) :=
      endsName_cons rfl (by decide)
    have hwritten : (app f a).written ++ rest =
        ['('] ++ (f.written ++ ([' '] ++ (a.written ++ ([')'] ++ rest)))) := by
      simp [written]
    rw [hwritten]
    have hclosing : Scans rules ([')'] ++ rest) [("rparen", [')'])] rest := .single rfl
    exact .cons rfl ((ihf ht.1 hblank).append
      (.cons rfl ((iha ht.2 (endsName_cons rfl (by decide))).append hclosing)))
  | lam name type body ih =>
    have hwritten : (lam name type body).written ++ rest =
        ['λ'] ++ (name ++ ([':'] ++ (type ++ (['.'] ++ ([' '] ++ (body.written ++ rest)))))) := by
      simp [written]
    rw [hwritten]
    exact .cons rfl (.cons (scan_name ht.1 (endsName_cons rfl (by decide)))
      (.cons rfl (.cons (scan_name ht.2.1 (endsName_cons rfl (by decide)))
        (.cons rfl (.cons rfl (ih ht.2.2 hrest))))))

/-- Up to its end the written term has the symbols of the term. -/
theorem Term.scans_written (ht : t.WellNamed) : Scans rules t.written t.symbols [] := by
  have hscans : Scans rules (t.written ++ []) t.symbols [] := t.scans ht nofun
  rwa [List.append_nil] at hscans

/-! ## From symbols to terms -/

theorem solid_append (tokens ts : List Token) : solid (tokens ++ ts) = solid tokens ++ solid ts :=
  List.filter_append ..

theorem solid_cons_space (h : token.is "space" = true) : solid (token :: ts) = solid ts :=
  Token.filter_of_is h

theorem solid_cons {type : TokenType} (h : token.is type = true) (hne : type ≠ "space") :
    solid (token :: ts) = token :: solid ts :=
  Token.filter_of_not_is h hne

/-- Tokens that spell the symbols of a term derive it. -/
theorem Term.derives_of_spells (h : List.Forall₂ Token.Spells tokens t.symbols) :
    t.Derives (solid tokens) := by
  induction t generalizing tokens with
  | var name type =>
    obtain _ | ⟨⟨hname, rfl⟩, _ | ⟨⟨hcolumn, -⟩, _ | ⟨⟨htype, rfl⟩, _ | _⟩⟩⟩ := h
    rw [solid_cons hname (by simp), solid_cons hcolumn (by decide),
      solid_cons htype (by simp)]
    exact .var hname hcolumn htype
  | app f a ihf iha =>
    obtain _ | ⟨⟨hopening, -⟩, h⟩ := h
    obtain ⟨fs, _, rfl, hf, h⟩ := Token.spells_append h
    obtain _ | ⟨⟨hblank, -⟩, h⟩ := h
    obtain ⟨as, _, rfl, ha, h⟩ := Token.spells_append h
    obtain _ | ⟨⟨hclosing, -⟩, _ | _⟩ := h
    rw [solid_cons hopening (by decide), solid_append, solid_cons_space hblank, solid_append,
      solid_cons hclosing (by decide)]
    exact .app hopening (ihf hf) (iha ha) hclosing
  | lam name type body ih =>
    obtain _ | ⟨⟨hlambda, -⟩, _ | ⟨⟨hname, rfl⟩, _ | ⟨⟨hcolumn, -⟩, _ | ⟨⟨htype, rfl⟩,
      _ | ⟨⟨hdot, -⟩, _ | ⟨⟨hblank, -⟩, hbody⟩⟩⟩⟩⟩⟩ := h
    rw [solid_cons hlambda (by decide), solid_cons hname (by simp),
      solid_cons hcolumn (by decide), solid_cons htype (by simp), solid_cons hdot (by decide),
      solid_cons_space hblank]
    exact .lam hlambda hname hcolumn htype hdot (ih hbody)

/-! ## Identifiers of terms that are read -/

/-- What is scanned as an identifier is one. -/
theorem isName_of_scan (h : scan rules (name ++ rest) = some ("identifier", name.byteLength)) :
    isName name = true := by
  obtain ⟨⟨type, rule⟩, hmem, hrule⟩ := List.exists_of_findSome?_eq_some h
  dsimp only at hrule
  split at hrule
  · cases hrule
  · obtain ⟨n, hn, hsame⟩ := Option.map_eq_some_iff.1 hrule
    simp only [Prod.mk.injEq] at hsame
    obtain ⟨rfl, rfl⟩ := hsame
    -- there is one rule of this type only
    obtain rfl : rule = .regexp identifierRegex none := by simpa [rules] using hmem
    unfold Rule.matchLength? at hn
    split at hn
    · cases hn
    · next hwhole _ =>
      obtain ⟨hmatch, -⟩ := Option.filter_eq_some_iff.1 hn
      obtain ⟨name', rest', hsplit, hname', hlength⟩ := name_of_matchEnd? hmatch
      obtain ⟨rfl, -⟩ := lexeme_unique hsplit hlength
      exact hname'

/-- Of identifiers a term is derived that is named by them. -/
theorem Term.Derives.wellNamed (h : t.Derives ts)
    (hnames : ∀ token ∈ ts, token.is "identifier" = true → isName token.text = true) :
    t.WellNamed := by
  induction h with
  | var hname hcolumn htype =>
    exact ⟨hnames _ (by simp) hname, hnames _ (by simp) htype⟩
  | app _ _ _ _ ihf iha =>
    exact ⟨ihf fun token hmem => hnames token (by simp [hmem]),
      iha fun token hmem => hnames token (by simp [hmem])⟩
  | lam _ hname _ htype _ _ ih =>
    exact ⟨hnames _ (by simp) hname, hnames _ (by simp) htype,
      ih fun token hmem => hnames token (by simp [hmem])⟩

/-! ## Reading back -/

/-- A term is read from the inputs of which the tokens derive it. -/
theorem parseTerm_eq_ok_iff (hinput : input.byteLength ≤ largestInput) :
    parseTerm input = .ok t ↔
      ∃ tokens t', (tokenizer.withInput input).tokenize = .ok (tokens, t') ∧
        t.Derives (solid tokens) := by
  obtain ⟨tokens, t', hrun, hcases⟩ := parse_cases hinput
  unfold parseTerm
  constructor
  · intro h
    rcases hcases with ⟨_, ⟨t, ht, rfl⟩, hparse⟩ | ⟨-, e, hparse⟩
    · rw [hparse] at h
      cases h
      exact ⟨tokens, t', hrun, ht⟩
    · rw [hparse] at h
      cases h
  · rintro ⟨tokens', t'', hrun', ht⟩
    cases hrun.symm.trans hrun'
    rcases hcases with ⟨_, ⟨t', ht', rfl⟩, hparse⟩ | ⟨hnone, -⟩
    · rw [hparse, (ht.det ht' (rfl : solid tokens ++ [] = _)).1]
      rfl
    · exact absurd ⟨t, ht, rfl⟩ (hnone _)

/-- A written term is read back. -/
theorem parseTerm_of_wellNamed (ht : t.WellNamed) (hsize : t.written.byteLength ≤ largestInput) :
    parseTerm t.written = .ok t := by
  obtain ⟨tokens, t', hrun, -⟩ := tokenize_reaches_end tokenizer hsize
  obtain rfl := eq_inRow_of_tokenize hsize (t.scans_written ht) hrun
  exact (parseTerm_eq_ok_iff hsize).2 ⟨_, t', hrun, t.derives_of_spells (Token.spells_inRow _ _)⟩

/-- A term that is read is named by identifiers. -/
theorem wellNamed_of_parseTerm (hinput : input.byteLength ≤ largestInput)
    (h : parseTerm input = .ok t) : t.WellNamed := by
  obtain ⟨tokens, t', hrun, ht⟩ := (parseTerm_eq_ok_iff hinput).1 h
  refine ht.wellNamed fun token hmem hidentifier => ?_
  obtain ⟨rest, hscan⟩ := scanned_of_tokenize hinput hrun (List.mem_of_mem_filter hmem)
    (Token.kind_of_is hidentifier)
  rw [Token.type_of_is hidentifier] at hscan
  exact isName_of_scan hscan

/-- Terms that are written alike are the same: the symbols of what is written derive both. -/
theorem Term.eq_of_written (ht : t.WellNamed) (ht' : t'.WellNamed) (h : t.written = t'.written) :
    t = t' := by
  have hsymbols : t.symbols = t'.symbols :=
    (t.scans_written ht).unique rfl (h ▸ t'.scans_written ht')
  have hderives := t.derives_of_spells (Token.spells_inRow [] t.symbols)
  have hderives' := t'.derives_of_spells (Token.spells_inRow [] t'.symbols)
  rw [← hsymbols] at hderives'
  exact (hderives.det hderives' (rfl : solid _ ++ [] = _)).1

/-- Printing loses nothing of a term that is named by identifiers. Such a term is read back from
its written form; the terms that are read are such terms, so each of them is read again from its
written form; and no two such terms are written alike. -/
theorem parseTerm_reads_written :
    (∀ t : Term, t.WellNamed → t.written.byteLength ≤ largestInput →
      parseTerm t.written = .ok t) ∧
    (∀ (input : Text) (t : Term), input.byteLength ≤ largestInput → parseTerm input = .ok t →
      t.WellNamed ∧ (t.written.byteLength ≤ largestInput → parseTerm t.written = .ok t)) ∧
    ∀ t t' : Term, t.WellNamed → t'.WellNamed → t.written = t'.written → t = t' := by
  refine ⟨fun t => parseTerm_of_wellNamed, fun input t hinput h => ?_,
    fun t t' => Term.eq_of_written⟩
  have ht := wellNamed_of_parseTerm hinput h
  exact ⟨ht, parseTerm_of_wellNamed ht⟩

/-- An abstraction that is applied to a variable. -/
def appliedTerm : Term :=
  .app (.lam "f'".toList "T_0".toList (.var "f'".toList "T_0".toList))
    (.var "_y''".toList "U".toList)

theorem appliedTerm_parseTerm_reads_written :
    (appliedTerm.WellNamed ∧ appliedTerm.written.byteLength ≤ largestInput ∧
      parseTerm appliedTerm.written = .ok appliedTerm) ∧
    (Text.byteLength "(\\f' :T_0.f':T_0\n_y'':U)".toList ≤ largestInput ∧
      parseTerm "(\\f' :T_0.f':T_0\n_y'':U)".toList = .ok appliedTerm ∧ appliedTerm.WellNamed ∧
      (appliedTerm.written.byteLength ≤ largestInput →
        parseTerm appliedTerm.written = .ok appliedTerm)) ∧
    (appliedTerm.written = appliedTerm.written → appliedTerm = appliedTerm) := by
  obtain ⟨hprinted, hread, hunique⟩ := parseTerm_reads_written
  have hnamed : appliedTerm.WellNamed := ⟨⟨rfl, rfl, rfl, rfl⟩, rfl, rfl⟩
  have hsize : appliedTerm.written.byteLength ≤ largestInput := by decide
  have hinput : Text.byteLength "(\\f' :T_0.f':T_0\n_y'':U)".toList ≤ largestInput := by decide
  have hparse : parseTerm "(\\f' :T_0.f':T_0\n_y'':U)".toList = .ok appliedTerm := by
    decide +kernel
  exact ⟨⟨hnamed, hsize, hprinted _ hnamed hsize⟩, ⟨hinput, hparse, hread _ _ hinput hparse⟩,
    hunique _ _ hnamed hnamed⟩

end PredictiveParsing.Lambda
