import PredictiveParsing.Proofs.Languages.Pi
import PredictiveParsing.Proofs.Lexing.Scanning
import PredictiveParsing.Proofs.Regex.Running

/-!
# Printing processes

A printed process is a block, or a block with a composition behind it; a block is termination, a
restriction between braces or a process between parentheses (`Process.written_eq`). What a block is
and where it ends can be told from its text alone, and so can a process if it is known that no
composition follows: `Process.Legible`. So no two processes are printed alike, as long as the names
of restrictions have no parenthesis in them.

The parser does not read the braces of a restriction. Processes without restrictions are printed in
lexemes that scan to tokens which derive them (`Process.Prints`), and so they are read back:
`parseProcess_reads_written`.
-/

namespace PredictiveParsing.Pi

open Tokenizer

/-- A letter or underscore, then letters, digits and underscores. -/
def isName : Text → Bool
  | [] => false
  | c :: cs => (c.isAlpha || c == '_') && cs.all fun d => d.isAlphanum || d == '_'

namespace Process

/-- The names of all restrictions are names. -/
def WellNamed : Process → Prop
  | term => True
  | restriction name body => isName name = true ∧ body.WellNamed
  | parallel left right => left.WellNamed ∧ right.WellNamed

/-- There are no restrictions. -/
def Unrestricted : Process → Prop
  | term => True
  | restriction .. => False
  | parallel left right => left.Unrestricted ∧ right.Unrestricted

/-- The process in print, to the left of a composition. -/
def block (p : Process) : Text :=
  if p.isParallel then '(' :: (p.written ++ [')']) else p.written

theorem written_parallel (left right : Process) :
    (parallel left right).written = left.block ++ (" || ".toList ++ right.written) :=
  List.append_assoc ..

theorem block_parallel (left right : Process) :
    (parallel left right).block = '(' :: ((parallel left right).written ++ [')']) := rfl

/-- A process is printed as a block, or as a block with a composition behind it. -/
theorem written_eq (p : Process) :
    p.written = p.block ∨ ∃ left right, p = .parallel left right := by
  cases p with
  | term | restriction => exact .inl rfl
  | parallel left right => exact .inr ⟨left, right, rfl⟩

end Process

/-! ## Telling processes apart -/

/-- A name ends in front of the parenthesis behind it. -/
theorem name_unique {name name' rest rest' : Text} (hname : ')' ∉ name) (hname' : ')' ∉ name')
    (h : name ++ ')' :: rest = name' ++ ')' :: rest') : name = name' ∧ rest = rest' := by
  induction name generalizing name' with
  | nil =>
    cases name' with
    | nil => exact ⟨rfl, (List.cons.inj h).2⟩
    | cons c cs =>
      cases h
      exact absurd (.head _) hname'
  | cons c cs ih =>
    cases name' with
    | nil =>
      cases h
      exact absurd (.head _) hname
    | cons d ds =>
      obtain ⟨rfl, hmore⟩ := List.cons.inj h
      obtain ⟨rfl, rfl⟩ :=
        ih (fun hmem => hname (.tail _ hmem)) (fun hmem => hname' (.tail _ hmem)) hmore
      exact ⟨rfl, rfl⟩

theorem not_mem_of_isName {name : Text} (h : isName name = true) : ')' ∉ name := by
  cases name with
  | nil => exact List.not_mem_nil
  | cons c cs =>
    intro hmem
    simp only [isName, Bool.and_eq_true, List.all_eq_true] at h
    rcases List.mem_cons.1 hmem with rfl | hmem
    · exact absurd h.1 (by decide)
    · exact absurd (h.2 _ hmem) (by decide)

/-- No composition follows in print. -/
def Closed (text : Text) : Prop := text.head? ≠ some ' '

namespace Process

variable {p q left right : Process} {rest rest' : Text}

/-- The text of the process tells what it is and where it ends: at once if it is a block, and
otherwise if no composition follows. -/
structure Legible (p : Process) : Prop where
  block : ∀ q rest rest', q.WellNamed → p.block ++ rest = q.block ++ rest' → p = q ∧ rest = rest'
  written : ∀ q rest rest', q.WellNamed → Closed rest → Closed rest' →
    p.written ++ rest = q.written ++ rest' → p = q ∧ rest = rest'

/-- A process that is printed as a block is told by the block. -/
theorem Legible.of_block (hwritten : p.written = p.block)
    (h : ∀ q rest rest', q.WellNamed → p.block ++ rest = q.block ++ rest' →
      p = q ∧ rest = rest') : p.Legible := by
  refine ⟨h, fun q rest rest' hq hrest _ hsame => ?_⟩
  rw [hwritten] at hsame
  rcases q.written_eq with hblock | ⟨left, right, rfl⟩
  · rw [hblock] at hsame
    exact h q rest rest' hq hsame
  · rw [written_parallel, List.append_assoc] at hsame
    obtain ⟨-, rfl⟩ := h left _ _ hq.1 hsame
    exact absurd rfl hrest

/-- A process can be told from its printed form if the names of its restrictions are names. -/
theorem legible (hp : p.WellNamed) : p.Legible := by
  induction p with
  | term =>
    refine .of_block rfl fun q rest rest' _ hsame => ?_
    cases q with
    | term => exact ⟨rfl, (List.cons.inj hsame).2⟩
    | restriction | parallel => cases hsame
  | restriction name body ih =>
    refine .of_block rfl fun q rest rest' hq hsame => ?_
    cases q with
    | term | parallel => cases hsame
    | restriction name' body' =>
      have hsame : "new(".toList ++ (name ++ ')' :: '\x7b' :: (body.written ++ '\x7d' :: rest)) =
          "new(".toList ++ (name' ++ ')' :: '\x7b' :: (body'.written ++ '\x7d' :: rest')) := by
        simpa [block, isParallel, written] using hsame
      obtain ⟨rfl, hbraced⟩ := name_unique (not_mem_of_isName hp.1) (not_mem_of_isName hq.1)
        (List.append_cancel_left hsame)
      obtain ⟨rfl, hbehind⟩ := (ih hp.2).written body' _ _ hq.2 (by simp [Closed])
        (by simp [Closed]) (List.cons.inj hbraced).2
      exact ⟨rfl, (List.cons.inj hbehind).2⟩
  | parallel left right ihleft ihright =>
    have hwritten : ∀ q rest rest', q.WellNamed → Closed rest → Closed rest' →
        (parallel left right).written ++ rest = q.written ++ rest' →
          parallel left right = q ∧ rest = rest' := by
      intro q rest rest' hq hrest hrest' hsame
      rw [written_parallel, List.append_assoc] at hsame
      rcases q.written_eq with hblock | ⟨left', right', rfl⟩
      · rw [hblock] at hsame
        obtain ⟨-, rfl⟩ := (ihleft hp.1).block q _ _ hq hsame
        exact absurd rfl hrest'
      · rw [written_parallel] at hsame
        simp only [List.append_assoc] at hsame
        obtain ⟨rfl, hbehind⟩ := (ihleft hp.1).block left' _ _ hq.1 hsame
        obtain ⟨rfl, rfl⟩ := (ihright hp.2).written right' _ _ hq.2 hrest hrest'
          (List.append_cancel_left hbehind)
        exact ⟨rfl, rfl⟩
    refine ⟨fun q rest rest' hq hsame => ?_, hwritten⟩
    cases q with
    | term | restriction => cases hsame
    | parallel left' right' =>
      have hsame : (parallel left right).written ++ ')' :: rest =
          (parallel left' right').written ++ ')' :: rest' := by
        simpa [block_parallel] using hsame
      obtain ⟨hpq, hbehind⟩ := hwritten _ _ _ hq (by simp [Closed]) (by simp [Closed]) hsame
      exact ⟨hpq, (List.cons.inj hbehind).2⟩

/-- Processes that are printed alike are the same. -/
theorem eq_of_written (hp : p.WellNamed) (hq : q.WellNamed) (h : p.written = q.written) : p = q :=
  ((legible hp).written q [] [] hq nofun nofun (by rw [h])).1

end Process

/-! ## Tokens without spaces -/

section
variable {token : Token} {ts : List Token}

theorem solid_append (tokens ts : List Token) : solid (tokens ++ ts) = solid tokens ++ solid ts :=
  List.filter_append ..

theorem solid_cons_space (h : token.is "space" = true) : solid (token :: ts) = solid ts :=
  Token.filter_of_is h

theorem solid_cons {type : TokenType} (h : token.is type = true) (hne : type ≠ "space") :
    solid (token :: ts) = token :: solid ts :=
  Token.filter_of_not_is h hne

end

/-! ## From processes to tokens -/

/-- A zero is scanned as termination. -/
theorem scan_zero (rest : Text) : scan rules (['0'] ++ rest) = some ("term", 1) := by
  have hsame (text : Text) : Regex.Same
      ((Regex.Front.ofRemainders ⟨none, text, 0⟩ [[termMatcher]]).remainders '0') [[]] :=
    .refl [[]]
  have hblocks : ∀ c ∈ rest.head?, Regex.Blocks [[]] c := fun _ _ _ => rfl
  have hmatch : termRegex.matchEnd? ('0' :: rest) = some 1 :=
    Regex.matchEnd?_of_leads rfl hsame .nil (fun _ => rfl) hblocks
  have hpassed : ∀ entry ∈ rules.take 4, entry.2.quickCheck (some '0') = some false := by decide
  have hothers : scan (rules.drop 4) ('0' :: rest) = some ("term", 1) := by
    simp only [rules, List.drop_succ_cons, List.drop_zero, scan, List.findSome?_cons,
      List.head?_cons, Rule.quickCheck, Rule.matchLength?, hmatch]
    rfl
  exact (scan_append hpassed).trans hothers

namespace Process

/-- Whatever stands behind the text, it is scanned to tokens that derive the process. -/
def Prints (k : Category) (p : Process) (text : Text) : Prop :=
  ∃ symbols, (∀ rest, Scans rules (text ++ rest) symbols rest) ∧
    ∀ tokens, List.Forall₂ Token.Spells tokens symbols → p.Derives k (solid tokens)

theorem Prints.term : Prints .operand term ['0'] := by
  refine ⟨[("term", ['0'])], fun rest => .single (scan_zero rest), ?_⟩
  rintro _ (_ | ⟨⟨hterm, -⟩, _ | _⟩)
  rw [solid_cons hterm (by decide)]
  exact .term hterm

/-- What is printed as an operand is printed as a process. -/
theorem Prints.alone {p : Process} {text : Text} (h : Prints .operand p text) :
    Prints .process p text := by
  obtain ⟨symbols, hscans, hderives⟩ := h
  exact ⟨symbols, hscans, fun tokens h => .operand (hderives tokens h)⟩

theorem Prints.brackets {p : Process} {text : Text} (h : Prints .process p text) :
    Prints .operand p ('(' :: (text ++ [')'])) := by
  obtain ⟨symbols, hscans, hderives⟩ := h
  refine ⟨("lparen", ['(']) :: (symbols ++ [("rparen", [')'])]), fun rest => ?_, fun _ h => ?_⟩
  · have htext : '(' :: (text ++ [')']) ++ rest = ['('] ++ (text ++ ([')'] ++ rest)) := by simp
    rw [htext]
    exact .cons rfl ((hscans _).append (.single rfl))
  · obtain _ | ⟨⟨hopening, -⟩, h⟩ := h
    obtain ⟨inner, _, rfl, hinner, h⟩ := Token.spells_append h
    obtain _ | ⟨⟨hclosing, -⟩, _ | _⟩ := h
    rw [solid_cons hopening (by decide), solid_append, solid_cons hclosing (by decide)]
    exact .brackets hopening (hderives _ hinner) hclosing

theorem Prints.parallel {left right : Process} {text text' : Text}
    (h : Prints .operand left text) (h' : Prints .process right text') :
    Prints .process (parallel left right) (text ++ (" || ".toList ++ text')) := by
  obtain ⟨symbols, hscans, hderives⟩ := h
  obtain ⟨symbols', hscans', hderives'⟩ := h'
  let between : List (TokenType × Text) :=
    [("space", [' ']), ("parallel", ['|', '|']), ("space", [' '])]
  refine ⟨symbols ++ (between ++ symbols'), fun rest => ?_, fun _ h => ?_⟩
  · have hbetween (more : Text) : Scans rules (" || ".toList ++ more) between more := by
      show Scans rules ([' '] ++ (['|', '|'] ++ ([' '] ++ more))) between more
      exact .cons rfl (.cons rfl (.single rfl))
    rw [List.append_assoc, List.append_assoc]
    exact (hscans _).append ((hbetween _).append (hscans' rest))
  · obtain ⟨ts, _, rfl, hleft, h⟩ := Token.spells_append h
    obtain _ | ⟨⟨hblank, -⟩, _ | ⟨⟨hop, -⟩, _ | ⟨⟨hblank', -⟩, hright⟩⟩⟩ := h
    rw [solid_append, solid_cons_space hblank, solid_cons hop (by decide),
      solid_cons_space hblank']
    exact .parallel (hderives _ hleft) hop (hderives' _ hright)

/-- A process without restrictions is printed as text that is scanned to tokens of it. -/
theorem prints {p : Process} (hp : p.Unrestricted) :
    Prints .operand p p.block ∧ Prints .process p p.written := by
  induction p with
  | term => exact ⟨.term, .alone .term⟩
  | restriction => exact hp.elim
  | parallel left right ihleft ihright =>
    have hwritten : Prints .process (parallel left right) (parallel left right).written := by
      rw [written_parallel]
      exact (ihleft hp.1).1.parallel (ihright hp.2).2
    exact ⟨hwritten.brackets, hwritten⟩

end Process

/-! ## Reading back -/

/-- A process is read from an input of which the tokens derive it. -/
theorem parseProcess_of_derives {input : Text} {p : Process} {tokens : List Token} {t' : Tokenizer}
    (hinput : input.byteLength ≤ largestInput)
    (hrun : (tokenizer.withInput input).tokenize = .ok (tokens, t'))
    (hp : p.Derives .process (solid tokens)) : parseProcess input = .ok p := by
  have hdecides (c : Context) (ts : List Token) (last : Token)
      (_ : c.tokenizer = tokenizer.withInput input) := @entry_decides input c ts last
  obtain ⟨tokens', t'', hrun', hcases⟩ :=
    Stage.parseText_cases (S := stage input) rfl hinput hdecides
  cases hrun.symm.trans hrun'
  rw [filter_skips] at hcases
  unfold parseProcess
  rcases hcases with ⟨_, ⟨p', first, hp', -, rfl⟩, hparse⟩ | ⟨hnone, -⟩
  · have hparse : parse input = _ := hparse
    rw [hparse, (hp.det hp' (rfl : solid tokens ++ [] = _) nofun nofun).1]
    rfl
  · obtain ⟨first, rest, hfirst⟩ := hp.exists_first
    exact absurd ⟨p, first, hp, by rw [hfirst]; rfl, rfl⟩ (hnone _)

/-- Printing processes is unambiguous. No two processes whose restrictions have names for names are
printed alike; and a process that is made of termination and composition, however it is nested, is
read back from its printed form. -/
theorem parseProcess_reads_written :
    (∀ p q : Process, p.WellNamed → q.WellNamed → p.written = q.written → p = q) ∧
    ∀ p : Process, p.Unrestricted → p.written.byteLength ≤ largestInput →
      parseProcess p.written = .ok p := by
  refine ⟨fun p q => Process.eq_of_written, fun p hp hsize => ?_⟩
  obtain ⟨symbols, hscans, hderives⟩ := (Process.prints hp).2
  have hscans : Scans tokenizer.rules p.written symbols [] := by
    have hall := hscans []
    rwa [List.append_nil] at hall
  obtain ⟨tokens, t', hrun, -⟩ := tokenize_reaches_end tokenizer hsize
  obtain rfl := eq_inRow_of_tokenize hsize hscans hrun
  exact parseProcess_of_derives hsize hrun (hderives _ (Token.spells_inRow _ _))

/-- Compositions on both sides of another one. -/
def nested : Process :=
  .parallel (.parallel .term (.parallel .term .term)) (.parallel .term .term)

/-- A restriction of a composition with another restriction to the left. -/
def hidden : Process :=
  .restriction "a_0".toList (.parallel (.restriction "_B".toList nested) .term)

theorem nested_parseProcess_reads_written :
    (hidden.WellNamed ∧ hidden.written = hidden.written ∧ hidden = hidden) ∧
      nested.Unrestricted ∧ nested.written.byteLength ≤ largestInput ∧
      parseProcess nested.written = .ok nested := by
  have hnamed : hidden.WellNamed := by
    simp only [hidden, nested, Process.WellNamed]
    decide
  have hfree : nested.Unrestricted := by
    simp only [nested, Process.Unrestricted, and_self]
  have hsize : nested.written.byteLength ≤ largestInput := by decide
  exact ⟨⟨hnamed, rfl, parseProcess_reads_written.1 _ _ hnamed hnamed rfl⟩, hfree, hsize,
    parseProcess_reads_written.2 _ hfree hsize⟩

/-- Only what stands to the left of a composition is printed between parentheses. -/
example : hidden.written =
    "new(a_0)\x7bnew(_B)\x7b(0 || 0 || 0) || 0 || 0\x7d || 0\x7d".toList := by
  decide

end PredictiveParsing.Pi
