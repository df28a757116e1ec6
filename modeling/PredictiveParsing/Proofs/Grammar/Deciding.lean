import Mathlib.Data.List.Pairwise
import PredictiveParsing.Proofs.Expression.Safety
import PredictiveParsing.Proofs.Expression.Skipping
import PredictiveParsing.Proofs.Grammar.Safety
import PredictiveParsing.Proofs.Lexing.Scanning

/-!
# Runs that decide a language

A parser of a language reads a beginning of the tokens ahead, or there is none that it could read
and it rejects them. `Reading` is what can be read, `Stage.Decides` says that a run does one or the
other, and that it is neither at fault nor exhausted. The languages here are those that can be read
without looking back: of the same tokens at most one beginning is read (`Reading.Definite`).

Blanks may stand between the tokens. The tokens ahead are therefore those that a table does not
skip (`Stage.Awaits`), and a member of a sequence that takes blanks (`Stage.Clears`) comes to the
next of them (`Stage.Meets`).

Each combinator decides what its parts decide one after the other. The first member of a sequence
takes a token, so that the others have fewer tokens ahead: this is what recursive rules go down on.
-/

namespace PredictiveParsing

open ParseM

variable {V α β : Type}

/-- A token of one type is of no other. -/
theorem Token.not_is {token : Token} {type type' : TokenType} (h : token.is type = true)
    (hne : type ≠ type') : token.is type' ≠ true :=
  fun h' => hne ((type_of_is h).symm.trans (type_of_is h'))

/-- Leaving out the tokens of a type leaves out one of this type. -/
theorem Token.filter_of_is {token : Token} {type : TokenType} {ts : List Token}
    (h : token.is type = true) :
    (token :: ts).filter (fun t => !t.is type) = ts.filter fun t => !t.is type :=
  List.filter_cons_of_neg (by simp [h])

/-- Leaving out the tokens of a type keeps one of another type. -/
theorem Token.filter_of_not_is {token : Token} {type type' : TokenType} {ts : List Token}
    (h : token.is type = true) (hne : type ≠ type') :
    (token :: ts).filter (fun t => !t.is type') = token :: ts.filter fun t => !t.is type' :=
  List.filter_cons_of_pos (by simp [Bool.eq_false_iff.2 (not_is h hne)])

/-- The blanks are the tokens of the skipped types. -/
theorem Operators.skips_eq_any {P : Type} (o : Operators V P) (token : Token) :
    o.skips token = o.skip.any token.is := by
  rw [Bool.eq_iff_iff, List.any_eq_true]
  simp [skips, Token.is, and_comm]

/-! ## Rules -/

section
variable {g : Grammar V} {name : String}

/-- A rule runs its parser. -/
theorem Parser.ref_apply {q : Parser V} (hrule : g.resolve name = .ok q) (depth : Nat)
    (c : Context) : (Parser.ref name).runWithin g (depth + 1) c = q.runWithin g depth c := by
  rw [Parser.runWithin_succ]
  exact bind_of_ok (trust_apply hrule c)

/-- The rule of an expression begins at the lowest priority. -/
theorem Parser.ref_expr_apply {o : Operators V (Parser V)} (hrule : g.resolve name = .ok (.expr o))
    (depth : Nat) (c : Context) : (Parser.ref name).runWithin g (depth + 2) c =
      o.expressionAbove (Parser.runWithin g depth) 0 c := by
  rw [ref_apply hrule, Parser.runWithin_succ]
  rfl

end

/-! ## What is read -/

/-- What can be read of tokens: a beginning of them, what is left behind it, and what it makes. -/
abbrev Reading (α : Type) := List Token → List Token → α → Prop

namespace Reading

/-- Of the same tokens at most one beginning is read. -/
def Definite (L : Reading α) : Prop :=
  ∀ ⦃front back : List Token⦄ ⦃a : α⦄ ⦃front' back' : List Token⦄ ⦃a' : α⦄, L front back a →
    L front' back' a' → front ++ back = front' ++ back' → front = front'

/-- No beginning of the tokens is read. -/
def Declines (L : Reading α) (tokens : List Token) : Prop :=
  ∀ front back a, tokens = front ++ back → ¬ L front back a

/-- Reads nothing. -/
def nothing : Reading (List (Result V)) := fun front _ results => front = [] ∧ results = []

/-- Reads one token of a type. -/
def token (type : TokenType) : Reading (Result V) :=
  fun front _ r => ∃ token, front = [token] ∧ token.is type = true ∧ r = .ofToken token

/-- Reads with any of several parsers, given with what each of them reads. -/
def oneOf (options : List (Parser V × Reading (Result V))) : Reading (Result V) :=
  fun front back r => ∃ option ∈ options, option.2 front back r

end Reading

/-- The results of a sequence, with one that is put in front of them if its member is an element. -/
def Mark.keep : Mark → Result V → List (Result V) → List (Result V)
  | element, r, results => r :: results
  | skip, _, results => results

namespace Reading

/-- Reads the first part of a sequence, and then the others. -/
def andThen (M : Reading (Result V)) (mark : Mark) (L : Reading (List (Result V))) :
    Reading (List (Result V)) :=
  fun front back results => ∃ first rest r others, front = first ++ rest ∧
    M first (rest ++ back) r ∧ results = mark.keep r others ∧ L rest back others

/-- What a token in front of other parts reads. -/
theorem andThen_token {type : TokenType} {mark : Mark} {L : Reading (List (Result V))}
    {front back : List Token} {results : List (Result V)} :
    ((token type).andThen mark L) front back results ↔
      ∃ token rest others, front = token :: rest ∧ token.is type = true ∧
        results = mark.keep (.ofToken token) others ∧ L rest back others := by
  constructor
  · rintro ⟨_, rest, _, others, rfl, ⟨token, rfl, hr, rfl⟩, hresults, hL⟩
    exact ⟨token, rest, others, rfl, hr, hresults, hL⟩
  · rintro ⟨token, rest, others, rfl, hr, hresults, hL⟩
    exact ⟨[token], rest, _, others, rfl, ⟨token, rfl, hr, rfl⟩, hresults, hL⟩

theorem definite_token (type : TokenType) : (token type : Reading (Result V)).Definite := by
  rintro _ _ _ _ _ _ ⟨t, rfl, -⟩ ⟨t', rfl, -⟩ h
  cases h
  rfl

variable {M : Reading (Result V)} {L : Reading (List (Result V))} {mark : Mark}
  {tokens front back : List Token} {r : Result V}

/-- Where the first part cannot be read, nothing is. -/
theorem Declines.andThen (h : M.Declines tokens) : (M.andThen mark L).Declines tokens := by
  rintro front back results hsplit ⟨first, rest, r, others, rfl, hM, -⟩
  exact h first (rest ++ back) r (by rw [hsplit, List.append_assoc]) hM

/-- Where the others cannot be read behind the first part, nothing is. -/
theorem Declines.behind (hM : M.Definite) (hfirst : M front back r) (h : L.Declines back) :
    (M.andThen mark L).Declines (front ++ back) := by
  rintro front' back' results hsplit ⟨first, rest, r', others, rfl, hM', -, hL⟩
  rw [List.append_assoc] at hsplit
  obtain rfl := hM hfirst hM' hsplit
  exact h rest back' others (List.append_cancel_left hsplit) hL

end Reading

/-! ## Where parsers run -/

/-- The grammar that parsers run in, the parser below which the journal is trusted, the input, and a
table that says which tokens are blanks. -/
structure Stage (V : Type) where
  grammar : Grammar V
  entry : Parser V
  input : Text
  table : Operators V (Parser V)

namespace Stage

/-- The tokens are those that lie ahead, up to the one at the end of the input. -/
structure Awaits (S : Stage V) (c : Context) (tokens : List Token) : Prop where
  ready : Ready S.grammar S.entry S.input c
  ahead : ∃ e, S.table.Ahead c.tokenizer tokens e ∧ e.cursor.rest = []
  before : ∀ token ∈ tokens.dropLast, token.kind ≠ .endOfInput

/-- The first of the tokens that lie ahead is the one at the cursor. -/
structure Meets (S : Stage V) (c : Context) (tokens : List Token) : Prop
    extends S.Awaits c tokens where
  faces : ∃ token, S.table.Faces c.tokenizer token

variable {S : Stage V} {c d : Context} {tokens tokens' front back : List Token} {token : Token}

/-- What lies ahead does not depend on the journal. -/
theorem Awaits.of_same (h : S.Awaits c tokens) (hsame : d.tokenizer = c.tokenizer)
    (hj : d.journal.Faithful S.grammar S.entry) : S.Awaits d tokens := by
  obtain ⟨t, j⟩ := d
  obtain rfl : t = c.tokenizer := hsame
  exact ⟨⟨h.ready.placed, h.ready.input, hj⟩, h.ahead, h.before⟩

theorem Meets.of_same (h : S.Meets c tokens) (hsame : d.tokenizer = c.tokenizer)
    (hj : d.journal.Faithful S.grammar S.entry) : S.Meets d tokens :=
  ⟨h.toAwaits.of_same hsame hj, by rw [hsame]; exact h.faces⟩

theorem Awaits.ne_nil (h : S.Awaits c tokens) : tokens ≠ [] := by
  obtain ⟨e, hahead, -⟩ := h.ahead
  exact hahead.ne_nil

/-- There are no more tokens ahead than scalars, and the one at the end of the input. -/
theorem Awaits.length_le (h : S.Awaits c tokens) :
    tokens.length ≤ c.tokenizer.cursor.rest.length + 1 := by
  obtain ⟨-, ⟨e, hahead, -⟩, hbefore⟩ := h
  generalize c.tokenizer = t at hahead
  induction hahead with
  | last => exact Nat.succ_le_succ (Nat.zero_le _)
  | skip hm _ _ ih => exact Nat.le_trans (ih hbefore) (Nat.succ_le_succ hm.rest_le)
  | take hm _ hrest ih =>
    rw [List.dropLast_cons_of_ne_nil hrest.ne_nil] at hbefore
    have hlt := hm.rest_lt (hbefore _ (.head _))
    have hle := ih fun token h => hbefore token (.tail _ h)
    rw [List.length_cons]
    omega

/-- A parser is given the depth that some parsers around it need, and every token ahead. -/
theorem Awaits.exists_depth {p : Parser V} {around each least : Nat} (h : S.Awaits c tokens)
    (hsize : around + each + least ≤ p.size + S.grammar.size + 1) :
    ∃ depth, p.depthFor S.grammar c.tokenizer.cursor.rest.length = depth + around ∧
      each * tokens.length + least ≤ depth := by
  have hle : (c.tokenizer.cursor.rest.length + 1) * (around + each + least) ≤
      p.depthFor S.grammar c.tokenizer.cursor.rest.length := Nat.mul_le_mul_left _ hsize
  have haround := Nat.le_mul_of_pos_left around (Nat.add_one_pos c.tokenizer.cursor.rest.length)
  have hleast := Nat.le_mul_of_pos_left least (Nat.add_one_pos c.tokenizer.cursor.rest.length)
  have hlength := Nat.mul_le_mul_right each h.length_le
  rw [Nat.mul_add, Nat.mul_add] at hle
  rw [Nat.mul_comm each]
  exact ⟨p.depthFor S.grammar c.tokenizer.cursor.rest.length - around, by omega, by omega⟩

/-- The token at the cursor is the first of those that lie ahead. -/
theorem Meets.head (h : S.Meets c tokens) :
    ∃ token rest, tokens = token :: rest ∧ S.table.Faces c.tokenizer token := by
  obtain ⟨token, hf⟩ := h.faces
  obtain ⟨e, hahead, -⟩ := h.ahead
  obtain ⟨t, j⟩ := c
  cases hahead with
  | last hlast => exact ⟨_, [], rfl, hlast⟩
  | skip hm hs _ =>
    cases hf.1.symm.trans hm.peeked
    rw [hf.2] at hs
    cases hs
  | take hm hs _ => exact ⟨_, _, rfl, hm.peeked, hs⟩

/-- An ordinary token at the cursor can be moved over, to where the others lie ahead. -/
theorem Meets.commit {ok : Unit → Context → Prop} {bad : Failure → Context → Prop}
    (h : S.Meets c (token :: back)) (hk : token.kind = .ordinary)
    (hok : ∀ d, S.Awaits d back → c.tokenizer.Moves token d.tokenizer → ok () d) :
    (ParseM.commit token).Ends c ok bad := by
  obtain ⟨first, rest, hsame, hf⟩ := h.head
  cases hsame
  obtain ⟨e, hahead, hend⟩ := h.ahead
  have hback : back ≠ [] := by
    rintro rfl
    obtain rfl := hahead.eq_of_faces hf
    -- only at the end of the input is there no other token ahead
    rcases Tokenizer.kind_of_peek hf.1 with ⟨he, -⟩ | ⟨-, hscan⟩ | ⟨-, -, _, _, hrest, -⟩
    · rw [hk] at he
      cases he
    · rw [hend] at hscan
      exact hscan Tokenizer.scan_nil
    · rw [hend] at hrest
      cases hrest
  obtain ⟨d, hcommit, hahead', hm⟩ := hahead.commit hf hback
  obtain ⟨tokenizer, hforward, rfl⟩ := commit_eq_ok hcommit
  have hready : Ready S.grammar S.entry S.input (committed c token tokenizer) :=
    ⟨hm.placed h.ready.placed, hm.input.trans h.ready.input, h.ready.journal.note _⟩
  refine .of_ok hcommit (hok _ ⟨hready, ⟨e, hahead', hend⟩, fun token' hmem => ?_⟩ hm)
  exact h.before token' (by rw [List.dropLast_cons_of_ne_nil hback]; exact .tail _ hmem)

/-- The next token that is not a blank is the first of those that lie ahead. -/
theorem Awaits.current (h : S.Awaits c tokens) :
    S.table.current.Ends c
      (fun token d => tokens.head? = some token ∧ S.Meets d tokens ∧ Onward c d)
      fun _ _ => False := by
  obtain ⟨e, hahead, hend⟩ := h.ahead
  obtain ⟨token, rest, rfl⟩ := List.exists_cons_of_ne_nil h.ne_nil
  obtain ⟨d, hrun, hf, hahead', honward⟩ := hahead.current
  have hsafe : S.table.current.Ends c (fun _ d => Ready S.grammar S.entry S.input d)
      (Fails S.grammar S.entry S.input False c) :=
    Operators.current_safe h.ready (.refl c) fun _ _ hd _ _ => hd
  have hready : Ready S.grammar S.entry S.input d := hsafe.result hrun
  exact .of_ok hrun ⟨rfl, ⟨⟨hready, ⟨e, hahead', hend⟩, h.before⟩, token, hf⟩, honward⟩

/-- At the end of the input the cursor is behind all of it. -/
theorem Awaits.position_of_end (h : S.Awaits c tokens) (hpeek : c.tokenizer.peek = .ok token)
    (hend : token.isEndOfInput = true) :
    c.tokenizer.position = Position.start.after S.input ∧
      token.span = .empty c.tokenizer.position := by
  have hat := Tokenizer.peek_at hpeek
  have hk : token.kind = .endOfInput := by simpa [Token.isEndOfInput] using hend
  obtain ⟨passed, hpassed, hposition⟩ := h.ready.placed.reached
  rw [hat.atEnd hk, List.append_nil, h.ready.input] at hpassed
  refine ⟨hpassed ▸ hposition, ?_⟩
  have hstop := hat.stop
  rw [hat.text_of_atEnd hk, Position.after_nil] at hstop
  obtain ⟨type, value, ⟨start, stop⟩, kind⟩ := token
  obtain rfl : start = _ := hat.start
  obtain rfl : stop = _ := hstop
  rfl

/-! ## Runs that decide -/

/-- From `c` in front of the tokens a beginning of them has been read, and `d` is behind it. The
result stands for a region from the first of the tokens on. -/
structure Took (S : Stage V) (L : Reading (Result V)) (c : Context) (tokens : List Token)
    (r : Result V) (d : Context) : Prop where
  start : ∀ token ∈ tokens.head?, r.span.start = token.span.start
  within : r.span.Within c.tokenizer.position.offset d.tokenizer.position.offset
  split : ∃ front back, tokens = front ++ back ∧ L front back r ∧ S.Awaits d back

/-- The tokens are rejected, and there is no beginning of them to be read. -/
def Refuses (L : Reading α) (tokens : List Token) (f : Failure) : Prop :=
  (∃ e, f = .rejected e) ∧ L.Declines tokens

/-- In front of at most `n` tokens the run reads a beginning of them, or it refuses them. -/
def Decides (S : Stage V) (n : Nat) (L : Reading (Result V)) (x : ParseM (Result V)) : Prop :=
  ∀ c tokens, S.Meets c tokens → tokens.length ≤ n →
    x.Ends c (fun r d => S.Took L c tokens r d) fun f _ => Refuses L tokens f

/-- Behind members that cover `span`, the run of the others decides, and extends what is covered. -/
def Continues (S : Stage V) (n : Nat) (L : Reading (List (Result V)))
    (x : Span → ParseM (List (Result V) × Option Span)) : Prop :=
  ∀ span c tokens, S.Awaits c tokens → tokens.length ≤ n →
    span.Within span.start.offset c.tokenizer.position.offset →
    (x span).Ends c
      (fun r d => (∃ stop, r.2 = some ⟨span.start, stop⟩ ∧
          Span.Within ⟨span.start, stop⟩ span.start.offset d.tokenizer.position.offset) ∧
        ∃ front back, tokens = front ++ back ∧ L front back r.1 ∧ S.Awaits d back)
      fun f _ => Refuses L tokens f

/-- The run takes the blanks in front of the tokens. Its region begins at the cursor. -/
def Clears (S : Stage V) (x : ParseM (Result V)) : Prop :=
  ∀ c tokens, S.Awaits c tokens →
    x.Ends c
      (fun r d => S.Meets d tokens ∧ r.span.start = c.tokenizer.position ∧
        r.span.Within c.tokenizer.position.offset d.tokenizer.position.offset)
      fun _ _ => False

variable {n depth : Nat} {L : Reading (Result V)} {x : ParseM (Result V)}

theorem Refuses.mono {L : Reading α} {K : Reading β} {f : Failure} (h : Refuses L tokens f)
    (hK : L.Declines tokens → K.Declines tokens') : Refuses K tokens' f :=
  ⟨h.1, hK h.2⟩

theorem Took.mono {K : Reading (Result V)} {r : Result V} (h : S.Took L c tokens r d)
    (hK : ∀ front back, L front back r → K front back r) : S.Took K c tokens r d := by
  obtain ⟨hstart, hwithin, front, back, hsplit, hL, hd⟩ := h
  exact ⟨hstart, hwithin, front, back, hsplit, hK front back hL, hd⟩

/-- What has been read does not depend on the journal that it began with. -/
theorem Took.of_same {c' : Context} {r : Result V} (h : S.Took L c' tokens r d)
    (hsame : c'.tokenizer = c.tokenizer) : S.Took L c tokens r d :=
  ⟨h.start, hsame ▸ h.within, h.split⟩

/-- In front of no tokens there is nothing to decide: the end of the input is always ahead. -/
theorem decides_zero : S.Decides 0 L x := by
  intro c tokens hc hn
  exact absurd (List.length_eq_zero_iff.1 (Nat.le_zero.1 hn)) hc.ne_nil

theorem decides_token (type : TokenType) : S.Decides n (.token type) (expectToken type) := by
  intro c tokens hc _
  obtain ⟨token, rest, rfl, hf⟩ := hc.head
  refine .bind (.peek hf.1 ?_)
  cases hr : token.is type with
  | true =>
    refine .bind (hc.commit (Token.kind_of_is hr) fun d hd hm => .pure ⟨?_, hm.within, ?_⟩)
    · rintro _ ⟨⟩
      rfl
    · exact ⟨[token], rest, rfl, ⟨token, rfl, hr, rfl⟩, hd⟩
  | false =>
    refine .unexpected fun message => ⟨⟨_, rfl⟩, ?_⟩
    rintro _ _ _ hsplit ⟨token', rfl, hr', -⟩
    cases hsplit
    rw [hr] at hr'
    cases hr'

/-- A rule decides what its parser does. -/
theorem decides_ref {name : String} {q : Parser V} (hrule : S.grammar.resolve name = .ok q)
    (h : S.Decides n L (q.runWithin S.grammar depth)) :
    S.Decides n L ((Parser.ref name).runWithin S.grammar (depth + 1)) :=
  fun c tokens hc hn => .of_eq (Parser.ref_apply hrule depth c) (h c tokens hc hn)

/-- The rule of blanks takes the blanks that its parser does. -/
theorem clears_ref {name : String} {q : Parser V} (hrule : S.grammar.resolve name = .ok q)
    (h : S.Clears (q.runWithin S.grammar depth)) :
    S.Clears ((Parser.ref name).runWithin S.grammar (depth + 1)) :=
  fun c tokens hc => .of_eq (Parser.ref_apply hrule depth c) (h c tokens hc)

/-! ## Choices -/

/-- Not both FIRST sets accept the token. -/
def Apart (token : Token) (a b : α × FirstSet) : Prop :=
  ¬(a.2.accepts token = true ∧ b.2.accepts token = true)

instance (token : Token) : Std.Symm (Apart (α := α) token) :=
  ⟨fun _ _ h hswap => h ⟨hswap.2, hswap.1⟩⟩

/-- What is told apart by FIRST sets and accepts the same token is the same. -/
theorem eq_of_accepts {options : List α} {firsts : List FirstSet} {a a' : α} {f f' : FirstSet}
    (hapart : FirstSet.TellApart firsts) (hlength : firsts.length = options.length)
    (ha : (a, f) ∈ options.zip firsts) (ha' : (a', f') ∈ options.zip firsts)
    (hf : f.accepts token = true) (hf' : f'.accepts token = true) : a = a' := by
  have hpairs : (options.zip firsts).Pairwise (Apart token) := by
    have haccepts := hapart.accepts token
    rwa [← List.map_snd_zip (Nat.le_of_eq hlength), List.pairwise_map] at haccepts
  by_contra hne
  exact hpairs.forall ha ha' (fun h => hne (congrArg Prod.fst h)) ⟨hf, hf'⟩

/-- What is read begins with a token that the FIRST set accepts. -/
def Begins (option : Parser V × Reading (Result V)) (f : FirstSet) : Prop :=
  f.nullable = false ∧ ∀ front back r, option.2 front back r →
    ∃ token rest, front = token :: rest ∧ f.accepts token = true

/-- A choice decides what its alternatives do, if their FIRST sets tell these apart. -/
theorem decides_choice {run : Parser V → ParseM (Result V)} {slot : Nat}
    {options : List (Parser V × Reading (Result V))} {firsts : List FirstSet}
    (hreach : S.grammar.Reaches S.entry (.choice slot (options.map Prod.fst)))
    (hfirsts : (options.map Prod.fst).mapM S.grammar.first = .ok firsts)
    (hapart : FirstSet.TellApart firsts) (hbegins : List.Forall₂ Begins options firsts)
    (hrun : ∀ option ∈ options, S.Decides n option.2 (run option.1)) :
    S.Decides n (.oneOf options)
      (chooseAlternative S.grammar run slot (options.map Prod.fst)) := by
  intro c tokens hc hn
  obtain ⟨token, rest, rfl, hf⟩ := hc.head
  have hlength : firsts.length = options.length := hbegins.length_eq.symm
  have begins {option : Parser V × Reading (Result V)} {f : FirstSet}
      (h : (option, f) ∈ options.zip firsts) : Begins option f :=
    (List.forall₂_iff_zip.1 hbegins).2 h
  -- what reads the tokens accepts the first of them
  have accepts {option : Parser V × Reading (Result V)} (hoption : option ∈ options)
      {front back : List Token} {r : Result V} (hL : option.2 front back r)
      (hsplit : token :: rest = front ++ back) :
      ∃ f, (option, f) ∈ options.zip firsts ∧ f.accepts token = true := by
    have hfst : (options.zip firsts).map Prod.fst = options :=
      List.map_fst_zip (Nat.le_of_eq hlength.symm)
    rw [← hfst] at hoption
    obtain ⟨⟨option, f⟩, hmem, rfl⟩ := List.mem_map.1 hoption
    obtain ⟨first, others, rfl, haccepts⟩ := (begins hmem).2 _ _ _ hL
    cases hsplit
    exact ⟨f, hmem, haccepts⟩
  -- what a choice runs is one of the options
  have selected {q : Parser V} {f : FirstSet} (h : (q, f) ∈ (options.map Prod.fst).zip firsts) :
      ∃ option, (option, f) ∈ options.zip firsts ∧ option.1 = q := by
    rw [List.zip_map_left] at h
    obtain ⟨⟨option, f⟩, hmem, he⟩ := List.mem_map.1 h
    cases he
    exact ⟨option, hmem, rfl⟩
  obtain ⟨j, hj, hcases⟩ := chooseAlternative_cases run hf.1 hc.ready.journal hreach hfirsts
  rcases hcases with ⟨q, f, hq, haccepts, hsame⟩ |
    ⟨hnone, ⟨q, f, hq, hnullable, -⟩ | ⟨-, hreject⟩⟩
  · obtain ⟨option, hmem, rfl⟩ := selected hq
    have hoption := (List.of_mem_zip hmem).1
    have hmeets : S.Meets ⟨c.tokenizer, j⟩ (token :: rest) := hc.of_same rfl hj
    refine .of_eq hsame ((hrun option hoption _ _ hmeets hn).mono ?_ fun _ _ hrefuses => ?_)
    · rintro r d ⟨hstart, hwithin, front, back, hsplit, hL, hd⟩
      exact ⟨hstart, hwithin, front, back, hsplit, ⟨option, hoption, hL⟩, hd⟩
    · refine hrefuses.mono fun hdeclines front back r hsplit => ?_
      rintro ⟨option', hoption', hL⟩
      obtain ⟨f', hmem', haccepts'⟩ := accepts hoption' hL hsplit
      obtain rfl := eq_of_accepts hapart hlength hmem hmem' haccepts haccepts'
      exact hdeclines front back r hsplit hL
  · obtain ⟨option, hmem, rfl⟩ := selected hq
    rw [(begins hmem).1] at hnullable
    cases hnullable
  · refine .of_error hreject ⟨⟨_, rfl⟩, fun front back r hsplit => ?_⟩
    rintro ⟨option, hoption, hL⟩
    obtain ⟨f, hmem, haccepts⟩ := accepts hoption hL hsplit
    exact absurd haccepts (List.any_eq_false.1 hnone f (List.of_mem_zip hmem).2)

/-! ## Sequences -/

variable {run : Parser V → ParseM (Result V)} {blanks m : Member (Parser V)} {r : Result V}
  {rest : List (Member (Parser V))} {M : Reading (Result V)} {N : Reading (List (Result V))}

/-- The first member of a sequence runs, and the others behind it. -/
theorem members_first {ok : List (Result V) × Option Span → Context → Prop}
    {bad : Failure → Context → Prop}
    (h : (run m.parser).Ends c (fun r d => (members run rest (some r.span)).Ends d
      (fun results => ok (m.mark.keep r results.1, results.2)) bad) bad) :
    (members run (m :: rest) none).Ends c ok bad := by
  refine .bind (h.imp fun r d hd => .bind (.pure (.bind (hd.imp fun results e he => ?_))))
  cases hmark : m.mark <;> rw [hmark] at he <;> exact .pure he

/-- A member runs behind those that cover a span, and the others behind it. -/
theorem members_cons {ok : List (Result V) × Option Span → Context → Prop}
    {bad : Failure → Context → Prop} {span : Span}
    (h : (run m.parser).Ends c (fun r d => span.start.offset ≤ r.span.stop.offset ∧
      (members run rest (some ⟨span.start, r.span.stop⟩)).Ends d
        (fun results => ok (m.mark.keep r results.1, results.2)) bad) bad) :
    (members run (m :: rest) (some span)).Ends c ok bad := by
  refine .bind (h.imp fun r d hd => ?_)
  obtain ⟨hforward, hrest⟩ := hd
  have hcover : span.cover r.span = .ok ⟨span.start, r.span.stop⟩ :=
    Span.between_eq_ok.2 ⟨hforward, rfl⟩
  refine .bind (.trust hcover (.bind (hrest.imp fun results e he => ?_)))
  cases hmark : m.mark <;> rw [hmark] at he <;> exact .pure he

theorem continues_nil : S.Continues n .nothing fun span => members run [] (some span) :=
  fun span _ tokens hc _ hwithin =>
    .pure ⟨⟨span.stop, rfl, hwithin⟩, [], tokens, rfl, ⟨rfl, rfl⟩, hc⟩

/-- A member between blanks and other members decides with these, one after the other. -/
theorem continues_cons (hblanks : S.Clears (run blanks.parser)) (hmark : blanks.mark = .skip)
    (hm : S.Decides n M (run m.parser)) (hM : M.Definite)
    (hrest : S.Continues n N fun span => members run rest (some span)) :
    S.Continues n (M.andThen m.mark N) fun span =>
      members run (blanks :: m :: rest) (some span) := by
  intro span c tokens hc hn hspan
  have hlow : span.start.offset ≤ c.tokenizer.position.offset :=
    Nat.le_trans hspan.forward hspan.high
  refine members_cons ((hblanks c tokens hc).mono (fun r d hd => ?_) fun _ _ h => h.elim)
  obtain ⟨hd, -, hwithin⟩ := hd
  rw [hmark]
  refine ⟨Nat.le_trans hlow (Nat.le_trans hwithin.low hwithin.forward), members_cons ?_⟩
  refine (hm d tokens hd hn).mono (fun r' e he => ?_) fun _ _ h => h.mono fun h => h.andThen
  obtain ⟨-, hwithin', front, back, rfl, hfirst, he⟩ := he
  have hforward : span.start.offset ≤ r'.span.stop.offset := by
    have := hwithin.low
    have := hwithin.forward
    have := hwithin.high
    have := hwithin'.low
    have := hwithin'.forward
    omega
  have hback : back.length ≤ n := by
    rw [List.length_append] at hn
    omega
  refine ⟨hforward, (hrest ⟨span.start, r'.span.stop⟩ e back he hback
    ⟨Nat.le_refl _, hforward, hwithin'.high⟩).mono (fun results e' he' => ?_) fun _ _ h => ?_⟩
  · obtain ⟨hcovered, front', back', rfl, hothers, he'⟩ := he'
    refine ⟨hcovered, front ++ front', back', (List.append_assoc ..).symm, ?_, he'⟩
    exact ⟨front, front', r', results.1, rfl, hfirst, rfl, hothers⟩
  · exact h.mono (Reading.Declines.behind hM hfirst)

/-- A sequence decides what its action makes of its members, the first of which takes a token. -/
theorem decides_sequence {action : TupleAction V} (hm : S.Decides (n + 1) M (run m.parser))
    (hM : M.Definite) (htakes : ∀ back r, ¬ M [] back r)
    (hrest : S.Continues n N fun span => members run rest (some span))
    (haction : ∀ front back results span, M.andThen m.mark N front back results →
      ∃ v, action results span = .ok v ∧ L front back (.value v span))
    (hback : ∀ front back r, L front back r →
      ∃ results, M.andThen m.mark N front back results) :
    S.Decides (n + 1) L (sequence run (m :: rest) (some action)) := by
  intro c tokens hc hn
  have declines : (M.andThen m.mark N).Declines tokens → L.Declines tokens := by
    intro h front back r hsplit hL
    obtain ⟨results, hresults⟩ := hback front back r hL
    exact h front back results hsplit hresults
  refine .bind (.position (.bind (members_first ?_)))
  refine (hm c tokens hc hn).mono (fun r d hd => ?_) fun _ _ h => h.mono fun h => declines h.andThen
  obtain ⟨hstart, hwithin, front, back, rfl, hfirst, hd⟩ := hd
  have hne : front ≠ [] := by
    rintro rfl
    exact htakes _ _ hfirst
  have hless : back.length ≤ n := by
    have := List.length_pos_iff.2 hne
    rw [List.length_append] at hn
    omega
  refine (hrest r.span d back hd hless ⟨Nat.le_refl _, hwithin.forward, hwithin.high⟩).mono
    (fun results e he => ?_) fun _ _ h => h.mono fun h => declines (.behind hM hfirst h)
  obtain ⟨results, covered⟩ := results
  obtain ⟨⟨stop, rfl, hcovered⟩, front', back', rfl, hothers, he⟩ := he
  obtain ⟨v, hv, hL⟩ := haction (front ++ front') back' (m.mark.keep r results)
    ⟨r.span.start, stop⟩ ⟨front, front', r, results, rfl, hfirst, rfl, hothers⟩
  refine .bind (.of_ok (a := v) (d := e) ?_ (.pure ?_))
  · show perform (action (m.mark.keep r results) ⟨r.span.start, stop⟩) e = _
    rw [hv]
    rfl
  · exact ⟨hstart, ⟨hwithin.low, hcovered.forward, hcovered.high⟩, front ++ front', back',
      (List.append_assoc ..).symm, hL, he⟩

/-! ## Blanks -/

/-- The run takes a blank at the cursor, and rejects any other token there. -/
structure Skims (S : Stage V) (body : ParseM (Result V)) : Prop where
  takes : ∀ c token t, Ready S.grammar S.entry S.input c → c.tokenizer.Moves token t →
    S.table.skips token = true →
    body.Ends c
      (fun r d => d.tokenizer = t ∧ d.journal.Faithful S.grammar S.entry ∧ r.span = token.span)
      fun _ _ => False
  stops : ∀ c token, Ready S.grammar S.entry S.input c → S.table.Faces c.tokenizer token →
    body.Ends c (fun _ _ => False)
      fun f d => (∃ e, f = .rejected e) ∧ d.tokenizer = c.tokenizer ∧
        d.journal.Faithful S.grammar S.entry

variable {body : ParseM (Result V)}

/-- Repeating what takes a blank comes to the first token that is not one. -/
theorem Skims.repetitions (h : S.Skims body) (hc : S.Awaits c tokens)
    (hn : c.tokenizer.cursor.rest.length < n) :
    (repetitions body n).Ends c
      (fun r d => S.Meets d tokens ∧
        Span.InOrder c.tokenizer.position.offset (r.1.map Result.span)
          d.tokenizer.position.offset ∧
        ∀ first ∈ r.1.head?, first.span.start = c.tokenizer.position)
      fun _ _ => False := by
  induction n generalizing c with
  | zero => omega
  | succ n ih =>
    have stop {token : Token} (hf : S.table.Faces c.tokenizer token) :
        (ParseM.repetitions body (n + 1)).Ends c
          (fun r d => S.Meets d tokens ∧
            Span.InOrder c.tokenizer.position.offset (r.1.map Result.span)
              d.tokenizer.position.offset ∧
            ∀ first ∈ r.1.head?, first.span.start = c.tokenizer.position)
          fun _ _ => False := by
      refine .bind (.position (.bind (.attempt ?_)))
      refine (h.stops c token hc.ready hf).mono (fun _ _ h => h.elim) fun f d hd => ?_
      obtain ⟨⟨e, rfl⟩, hsame, hj⟩ := hd
      refine .bind (.position ?_)
      dsimp only
      rw [hsame, if_pos rfl]
      exact .pure ⟨⟨hc.of_same hsame hj, token, hsame ▸ hf⟩,
        Nat.le_of_eq (by rw [hsame]), nofun⟩
    obtain ⟨e, hahead, hend⟩ := hc.ahead
    obtain ⟨t, j⟩ := c
    cases hahead with
    | last hf => exact stop hf
    | take hm hs _ => exact stop ⟨hm.peeked, hs⟩
    | @skip _ t' _ blank _ hm hs hrest =>
      refine .bind (.position (.bind (.attempt ?_)))
      refine (h.takes _ blank t' hc.ready hm hs).mono (fun r d hd => ?_) fun _ _ h => h.elim
      obtain ⟨rfl, hj, hspan⟩ := hd
      have hless : d.tokenizer.cursor.rest.length < n :=
        Nat.lt_of_lt_of_le (hm.rest_lt (Operators.ordinary_of_skips hs)) (Nat.le_of_lt_succ hn)
      have hmoved : d.tokenizer.position.offset ≠ t.position.offset := by
        have hne := (Tokenizer.peek_at hm.peeked).nonempty (Operators.ordinary_of_skips hs)
        have hpos := Nat.pos_of_ne_zero fun h => hne (Text.byteLength_eq_zero.1 h)
        have hoffset : d.tokenizer.position.offset = t.position.offset + _ := hm.offset
        omega
      have hd : S.Awaits d tokens :=
        ⟨⟨hm.placed hc.ready.placed, hm.input.trans hc.ready.input, hj⟩, ⟨e, hrest, hend⟩,
          hc.before⟩
      refine .bind (.position ?_)
      dsimp only
      rw [if_neg hmoved]
      refine .bind ((ih hd hless).mono (fun results e he => .pure ?_) fun _ _ h => h)
      obtain ⟨hmeets, horder, -⟩ := he
      refine ⟨hmeets, .cons (hspan ▸ hm.within) horder, ?_⟩
      rintro _ ⟨⟩
      rw [hspan, (Tokenizer.peek_at hm.peeked).start]
      rfl

/-- Repeating what takes a blank takes all of them. -/
theorem Skims.clears (h : S.Skims body) : S.Clears (repetition body 0) := by
  intro c tokens hc
  refine .bind (.position (.bind (.unread (.bind ?_))))
  refine (h.repetitions hc (Nat.lt_succ_self _)).mono (fun results d hd => ?_) fun _ _ h => h
  obtain ⟨items, reason⟩ := results
  obtain ⟨hmeets, horder, hfirst⟩ := hd
  obtain ⟨span, hcover, hwithin⟩ := coverAll_of_inOrder horder
  have hstart : span.start = c.tokenizer.position := by
    cases items with
    | nil => cases hcover; rfl
    | cons first others =>
      obtain ⟨-, rfl⟩ := Span.between_eq_ok.1 hcover
      exact hfirst first rfl
  refine .bind (.note (.bind (.trust hcover (.pure ⟨?_, hstart, hwithin⟩))))
  exact hmeets.of_same rfl (hmeets.ready.journal.note _)

/-- A token of the type is taken. -/
theorem takes_token {type : TokenType} {t : Tokenizer} (hm : c.tokenizer.Moves token t)
    (hj : c.journal.Faithful S.grammar S.entry) (hr : token.is type = true) :
    (expectToken type : ParseM (Result V)).Ends c
      (fun r d => d.tokenizer = t ∧ d.journal.Faithful S.grammar S.entry ∧ r.span = token.span)
      fun _ _ => False := by
  refine .bind (.peek hm.peeked ?_)
  rw [if_pos hr]
  exact .bind (.of_ok (commit_apply hm.forward) (.pure ⟨rfl, hj.note _, rfl⟩))

/-- One token of the only blank type. -/
theorem skims_token {type : TokenType}
    (hblank : ∀ token, S.table.skips token = token.is type) : S.Skims (expectToken type) := by
  refine ⟨fun c token t hc hm hs => takes_token hm hc.journal (hblank token ▸ hs),
    fun c token hc hf => .bind (.peek hf.1 ?_)⟩
  rw [if_neg (by rw [← hblank, hf.2]; nofun)]
  exact .unexpected fun _ => ⟨⟨_, rfl⟩, rfl, hc.journal⟩

/-- A choice between the blank types takes one token of any of them. -/
theorem skims_choice {slot : Nat}
    (hreach : S.grammar.Reaches S.entry (.choice slot (S.table.skip.map .token)))
    (hrun : ∀ type, run (.token type) = expectToken type) :
    S.Skims (chooseAlternative S.grammar run slot (S.table.skip.map .token)) := by
  generalize htypes : S.table.skip = types at hreach ⊢
  have hfirsts : ∀ types : List TokenType, (types.map Parser.token).mapM S.grammar.first =
      .ok (types.map fun type => .single (.token type)) := by
    intro types
    induction types with
    | nil => rfl
    | cons type types ih => exact mapM_cons_of_ok rfl ih
  have selected {q : Parser V} {f : FirstSet} (h : (q, f) ∈ (types.map Parser.token).zip
      (types.map fun type => .single (.token type))) :
      ∃ type ∈ types, q = .token type ∧ f = .single (.token type) := by
    rw [List.zip_map'] at h
    obtain ⟨type, htype, he⟩ := List.mem_map.1 h
    cases he
    exact ⟨type, htype, rfl, rfl⟩
  have accepts (token : Token) : ((types.map fun type => FirstSet.single (.token type)).any
      fun f => f.accepts token) = S.table.skips token := by
    simp only [Operators.skips_eq_any, htypes, List.any_map, Function.comp_def,
      FirstSet.accepts_single_token]
  constructor
  · intro c token t hc hm hs
    obtain ⟨j, hj, ⟨q, f, hq, haccepts, hsame⟩ | ⟨hnone, -⟩⟩ :=
      chooseAlternative_cases run hm.peeked hc.journal hreach (hfirsts types)
    · obtain ⟨type, -, rfl, rfl⟩ := selected hq
      rw [FirstSet.accepts_single_token] at haccepts
      rw [hrun] at hsame
      exact .of_eq hsame (takes_token (c := ⟨c.tokenizer, j⟩) hm hj haccepts)
    · rw [accepts, hs] at hnone
      cases hnone
  · intro c token hc hf
    obtain ⟨j, hj, ⟨q, f, hq, haccepts, -⟩ | ⟨-, ⟨q, f, hq, hnullable, -⟩ | ⟨-, hreject⟩⟩⟩ :=
      chooseAlternative_cases run hf.1 hc.journal hreach (hfirsts types)
    · have hnone := (accepts token).trans hf.2
      exact absurd haccepts (List.any_eq_false.1 hnone f (List.of_mem_zip hq).2)
    · obtain ⟨type, -, -, rfl⟩ := selected hq
      cases hnullable
    · exact .of_error hreject ⟨⟨_, rfl⟩, rfl, hj⟩

/-! ## Whole inputs -/

/-- Blanks and the end of the input close a sequence, if the end of the input is all that is
left. -/
theorem closes (hblanks : S.Clears (run blanks.parser)) (hmark : blanks.mark = .skip)
    (hend : m = .skip .endOfInput) (hrun : run .endOfInput = expectEnd) {span : Span}
    (hc : S.Awaits c tokens) (hspan : span.start.offset ≤ c.tokenizer.position.offset) :
    (members run [blanks, m] (some span)).Ends c
      (fun r _ => r = ([], some ⟨span.start, Position.start.after S.input⟩) ∧
        ∃ token ∈ tokens.head?, token.isEndOfInput = true)
      fun f _ => (∃ e, f = .rejected e) ∧ ∀ token ∈ tokens.head?, token.isEndOfInput = false := by
  subst hend
  refine members_cons ((hblanks c tokens hc).mono (fun r d hd => ?_) fun _ _ h => h.elim)
  obtain ⟨hd, -, hwithin⟩ := hd
  have hstop : span.start.offset ≤ r.span.stop.offset :=
    Nat.le_trans hspan (Nat.le_trans hwithin.low hwithin.forward)
  rw [hmark]
  refine ⟨hstop, members_cons ?_⟩
  obtain ⟨token, rest, rfl, hf⟩ := hd.head
  show (run .endOfInput).Ends d _ _
  rw [hrun]
  refine .bind (.peek hf.1 ?_)
  cases he : token.isEndOfInput with
  | true =>
    obtain ⟨hposition, hempty⟩ := hd.position_of_end hf.1 he
    have hlast : (Result.ofToken token : Result V).span.stop = Position.start.after S.input := by
      rw [← hposition]
      exact congrArg Span.stop hempty
    have hforward : span.start.offset ≤ (Result.ofToken token : Result V).span.stop.offset := by
      rw [hlast, ← hposition]
      exact Nat.le_trans hstop hwithin.high
    refine .pure ⟨hforward, .pure ⟨?_, token, rfl, he⟩⟩
    · rw [hlast]
      rfl
  | false => exact .unexpected fun _ => ⟨⟨_, rfl⟩, fun _ h => by cases h; exact he⟩

/-- From the start of an input its tokens lie ahead, but for blanks, and the end of the input. -/
theorem awaits_start (t : Tokenizer) (hinput : S.input.byteLength ≤ largestInput) :
    ∃ tokens last t', (t.withInput S.input).tokenize = .ok (tokens, t') ∧
      last.isEndOfInput = true ∧ (∀ token ∈ tokens, token.isEndOfInput = false) ∧
      ∀ j : Journal, j.Faithful S.grammar S.entry → S.Awaits ⟨t.withInput S.input, j⟩
        (tokens.filter (fun token => !S.table.skips token) ++ [last]) := by
  obtain ⟨tokens, t', hrun, hcommits, hrest, hkinds⟩ := t.tokenize_reaches_end hinput
  obtain ⟨last, hpeek⟩ := Tokenizer.peek_of_placed (hcommits.placed (.ofInput hinput))
  have hlast : last.kind = .endOfInput := by
    rcases Tokenizer.kind_of_peek hpeek with ⟨hk, -⟩ | ⟨-, hscan⟩ | ⟨-, -, _, _, hmore, -⟩
    · exact hk
    · rw [hrest] at hscan
      exact absurd Tokenizer.scan_nil hscan
    · rw [hrest] at hmore
      cases hmore
  have hfaces : S.table.Faces t' last := ⟨hpeek, by simp [Operators.skips, hlast]⟩
  have hothers : ∀ token ∈ tokens, token.isEndOfInput = false := fun token hmem => by
    simp [Token.isEndOfInput, hkinds token hmem]
  refine ⟨tokens, last, t', hrun, by simp [Token.isEndOfInput, hlast], hothers, fun j hj => ?_⟩
  refine ⟨.start hinput hj, ⟨t', .of_passes ⟨tokens, hcommits, rfl⟩ hfaces, hrest⟩, ?_⟩
  rw [List.dropLast_concat]
  exact fun token hmem => hkinds token (List.mem_of_mem_filter hmem)

/-- What is read of the tokens up to the end of the input are all others. -/
theorem eq_of_append {last : Token} (hothers : ∀ token ∈ tokens, token.isEndOfInput = false)
    (hsplit : tokens ++ [last] = front ++ back)
    (hend : ∃ token ∈ back.head?, token.isEndOfInput = true) : front = tokens := by
  obtain ⟨token, hhead, hend⟩ := hend
  obtain ⟨rest, rfl⟩ := List.head?_eq_some_iff.1 hhead
  rcases List.append_eq_append_iff.1 hsplit with ⟨more, rfl, hlast⟩ | ⟨more, rfl, hback⟩
  · cases more with
    | nil => exact List.append_nil _
    | cons first more => simp at hlast
  · cases more with
    | nil => exact (List.append_nil _).symm
    | cons first more =>
      cases hback
      rw [hothers token (List.mem_append_right _ (.head _))] at hend
      cases hend

/-- Where all tokens but blanks have been read the sequence closes, and else it cannot. -/
theorem Took.closes (h : S.Took L c (tokens ++ [token]) r d) (hL : L.Definite)
    (hothers : ∀ token ∈ tokens, token.isEndOfInput = false) (htoken : token.isEndOfInput = true)
    (hblanks : S.Clears (run blanks.parser)) (hmark : blanks.mark = .skip)
    (hend : m = .skip .endOfInput) (hrun : run .endOfInput = expectEnd) {span : Span}
    (hspan : span.start.offset ≤ d.tokenizer.position.offset) :
    (members run [blanks, m] (some span)).Ends d
      (fun results _ => results = ([], some ⟨span.start, Position.start.after S.input⟩) ∧
        L tokens [token] r)
      fun f _ => (∃ e, f = .rejected e) ∧ ∀ r, ¬ L tokens [token] r := by
  obtain ⟨-, -, front, back, hsplit, hread, hd⟩ := h
  refine (Stage.closes hblanks hmark hend hrun hd hspan).mono (fun results _ he => ?_)
    fun f _ hf => ?_
  · obtain ⟨hresults, hlast⟩ := he
    obtain rfl := eq_of_append hothers hsplit hlast
    obtain rfl := List.append_cancel_left hsplit
    exact ⟨hresults, hread⟩
  · obtain ⟨he, hmore⟩ := hf
    refine ⟨he, fun r' hread' => ?_⟩
    obtain rfl := hL hread' hread hsplit
    obtain rfl := List.append_cancel_left hsplit
    rw [hmore token rfl] at htoken
    cases htoken

end Stage

/-- Parsing ends as the entry does, if the entry is neither at fault nor exhausted. -/
theorem Grammar.parse_ends_of_faithful {g : Grammar V} {entry : Parser V} {c : Context}
    {good : Result V → Prop} {bad : ParseError → Prop} (hentry : g.entry? = some entry)
    (hj : c.journal.Faithful g entry)
    (hrun : ∀ j : Journal, j.Faithful g entry →
      (entry.run g).Ends ⟨c.tokenizer, j⟩ (fun r _ => good r)
        fun f _ => ∃ e, f = .rejected e ∧ bad e) :
    g.parse.Ends c (fun r _ => good r) fun f _ => ∃ e, f = .rejected e ∧ bad e := by
  have hentered : (entered entry c).journal.Faithful g entry := (hj.forget _).note _
  exact parse_ends hentry (hrun _ hentered) (fun _ _ h => h) fun _ _ h => h

/-- If the entry decides what is read of all tokens of an input but the blanks, then so does
parsing. -/
theorem Stage.parseText_cases {S : Stage V} {t : Tokenizer} {good : List Token → Result V → Prop}
    (hentry : S.grammar.entry? = some S.entry) (hinput : S.input.byteLength ≤ largestInput)
    (hdecides : ∀ c tokens last, c.tokenizer = t.withInput S.input →
      S.Awaits c (tokens ++ [last]) → (∀ token ∈ tokens, token.isEndOfInput = false) →
      last.isEndOfInput = true →
      (S.entry.run S.grammar).Ends c (fun r _ => good tokens r)
        fun f _ => (∃ e, f = .rejected e) ∧ ∀ r, ¬ good tokens r) :
    ∃ tokens t', (t.withInput S.input).tokenize = .ok (tokens, t') ∧
      ((∃ r, good (tokens.filter fun token => !S.table.skips token) r ∧
          (S.grammar.parseText t S.input).1 = .ok r) ∨
        (∀ r, ¬ good (tokens.filter fun token => !S.table.skips token) r) ∧
          ∃ e, (S.grammar.parseText t S.input).1 = .error (.rejected e)) := by
  obtain ⟨tokens, last, t', hrun, hlast, hothers, hawaits⟩ := S.awaits_start t hinput
  refine ⟨tokens, t', hrun, ?_⟩
  have hends := Grammar.parse_ends_of_faithful (c := ⟨t.withInput S.input, .forgetful⟩) hentry .forgetful
    fun j hj => (hdecides _ _ last rfl (hawaits j hj)
      (fun token h => hothers token (List.mem_of_mem_filter h)) hlast).mono (fun _ _ h => h)
      fun _ _ ⟨⟨e, he⟩, hnone⟩ => ⟨e, he, hnone⟩
  rcases hends.cases with ⟨r, d, hparse, hr⟩ | ⟨_, d, hparse, e, rfl, hnone⟩
  · exact .inl ⟨r, hr, congrArg Prod.fst hparse⟩
  · exact .inr ⟨hnone, e, congrArg Prod.fst hparse⟩

/-- If moreover one result at most is read, and none of an error token, then this is when parsing
answers a result, and it rejects all other inputs. -/
theorem Stage.parseText_iff {S : Stage V} {t : Tokenizer} {good : List Token → Result V → Prop}
    (hentry : S.grammar.entry? = some S.entry) (hinput : S.input.byteLength ≤ largestInput)
    (hdecides : ∀ c tokens last, c.tokenizer = t.withInput S.input →
      S.Awaits c (tokens ++ [last]) → (∀ token ∈ tokens, token.isEndOfInput = false) →
      last.isEndOfInput = true →
      (S.entry.run S.grammar).Ends c (fun r _ => good tokens r)
        fun f _ => (∃ e, f = .rejected e) ∧ ∀ r, ¬ good tokens r)
    (hdet : ∀ tokens r r', good tokens r → good tokens r' → r = r')
    (hordinary : ∀ tokens r, good tokens r → ∀ token ∈ tokens, token.kind = .ordinary) :
    ∃ tokens t', (t.withInput S.input).tokenize = .ok (tokens, t') ∧
      (∀ r, (S.grammar.parseText t S.input).1 = .ok r ↔ (∀ token ∈ tokens, token.kind ≠ .error) ∧
        good (tokens.filter fun token => !S.table.skips token) r) ∧
      ((∀ r, (S.grammar.parseText t S.input).1 ≠ .ok r) →
        ∃ e, (S.grammar.parseText t S.input).1 = .error (.rejected e)) := by
  obtain ⟨tokens, t', hrun, hcases⟩ := parseText_cases hentry hinput hdecides
  refine ⟨tokens, t', hrun, fun r => ⟨fun hr => ?_, fun ⟨_, hgood⟩ => ?_⟩, fun hnone => ?_⟩
  · rcases hcases with ⟨r', hgood, hparse⟩ | ⟨-, e, hparse⟩
    · cases hparse.symm.trans hr
      refine ⟨fun token hmem herror => ?_, hgood⟩
      have hsolid : token ∈ tokens.filter fun token => !S.table.skips token :=
        List.mem_filter.2 ⟨hmem, by simp [Operators.skips, herror]⟩
      rw [hordinary _ _ hgood token hsolid] at herror
      cases herror
    · cases hparse.symm.trans hr
  · rcases hcases with ⟨r', hgood', hparse⟩ | ⟨hnone, -⟩
    · rw [hparse, hdet _ r r' hgood hgood']
    · exact absurd hgood (hnone r)
  · rcases hcases with ⟨r, -, hparse⟩ | ⟨-, hrejected⟩
    · exact absurd hparse (hnone r)
    · exact hrejected

end PredictiveParsing
