import PredictiveParsing.Proofs.Grammar.Advancing

/-!
# Results that nest

A result nests in an input if it stands for a region of the input, and if the items of a list do as
well, one behind the other within the list (`Result.Nested`). `ParseM.Nests` says that a run answers
such results, for a region between the places where it began and where it ended, and that it does
not fail by covering spans that are out of order. It asks for a cursor in place only: the run may be
rejected, exhausted, or at another fault.

Each combinator nests if its parts do. The members of a sequence and the rounds of a repetition run
one after the other (`ParseM.Chain`), so their results come in turn (`Result.InTurn`), and what they
cover is the region from the first of them to the last (`Result.region`).
-/

namespace PredictiveParsing

open ParseM

variable {V P α : Type}

/-! ## Regions of a text -/

/-- The position is the one behind a beginning of the text. -/
def Position.Of (text : Text) (p : Position) : Prop :=
  ∃ passed, passed <+: text ∧ p = Position.start.after passed

/-- The span runs forward between two positions of the text. -/
structure Span.Of (text : Text) (s : Span) : Prop where
  start : s.start.Of text
  stop : s.stop.Of text
  forward : s.start.offset ≤ s.stop.offset

namespace Span

variable {s : Span} {spans spans' : List Span} {low low' mid high high' : Nat}

theorem InOrder.le (h : InOrder low spans high) : low ≤ high := by
  induction spans generalizing low with
  | nil => exact h
  | cons s spans ih => exact Nat.le_trans h.1.low (Nat.le_trans h.1.forward (ih h.2))

theorem InOrder.widen (h : InOrder low spans high) (hl : low' ≤ low) (hh : high ≤ high') :
    InOrder low' spans high' := by
  induction spans generalizing low low' with
  | nil => exact Nat.le_trans hl (Nat.le_trans h hh)
  | cons s spans ih => exact .cons (h.1.mono hl (Nat.le_refl _)) (ih h.2 (Nat.le_refl _))

theorem InOrder.append (h : InOrder low spans mid) (h' : InOrder mid spans' high) :
    InOrder low (spans ++ spans') high := by
  induction spans generalizing low with
  | nil => exact h'.mono h
  | cons s spans ih => exact ⟨h.1, ih h.2⟩

/-- Each of several spans in order lies within what they cover. -/
theorem InOrder.within (h : InOrder low spans high) (hs : s ∈ spans) : s.Within low high := by
  induction spans generalizing low with
  | nil => cases hs
  | cons s' spans ih =>
    cases hs with
    | head => exact h.1.mono (Nat.le_refl _) h.2.le
    | tail _ hs =>
      exact (ih h.2 hs).mono (Nat.le_trans h.1.low h.1.forward) (Nat.le_refl _)

/-- Spans that are left out leave the others in order. -/
theorem InOrder.sublist (h : InOrder low spans high) (hsub : spans'.Sublist spans) :
    InOrder low spans' high := by
  induction hsub generalizing low with
  | slnil => exact h
  | cons s _ ih => exact ih (h.2.mono (Nat.le_trans h.1.low h.1.forward))
  | cons_cons s _ ih => exact ⟨h.1, ih h.2⟩

/-- Spans in order begin where the first of them does, and end where the last of them does. -/
theorem InOrder.tight (h : InOrder low (s :: spans) high) :
    InOrder s.start.offset (s :: spans)
      ((s :: spans).getLast (List.cons_ne_nil _ _)).stop.offset := by
  induction spans generalizing s low with
  | nil => exact .single ⟨Nat.le_refl _, h.1.forward, Nat.le_refl _⟩
  | cons s' spans ih =>
    rw [List.getLast_cons (List.cons_ne_nil s' spans)]
    exact ⟨⟨Nat.le_refl _, h.1.forward, Nat.le_refl _⟩, (ih h.2).mono h.2.1.low⟩

end Span

/-! ## Regions of results -/

namespace Result

/-- The region from where the first of several results starts to where the last one ends. -/
def cover? (results : List (Result V)) : Option Span := do
  return ⟨(← results.head?).span.start, (← results.getLast?).span.stop⟩

/-- The region that results cover, which is the empty one at `start` if there are none. -/
def region (start : Position) (results : List (Result V)) : Span :=
  (cover? results).getD (.empty start)

/-- The last of the results does not end in front of the place where the first one starts. -/
def Coverable (results : List (Result V)) : Prop :=
  ∀ span, cover? results = some span → span.start.offset ≤ span.stop.offset

/-- The result stands for a region of the input. The items of a list nest within the list, one
behind the other. -/
inductive Nested (input : Text) : Result V → Prop
  | token {token : Token} {span : Span} (region : span.Of input) : Nested input (.token token span)
  | value {value : V} {span : Span} (region : span.Of input) : Nested input (.value value span)
  | list {items : List (Result V)} {span : Span} (region : span.Of input)
      (order : Span.InOrder span.start.offset (items.map Result.span) span.stop.offset)
      (nested : ∀ item ∈ items, Nested input item) : Nested input (.list items span)

/-- The results nest, and stand for regions one behind the other between two offsets. -/
structure InTurn (input : Text) (low : Nat) (results : List (Result V)) (high : Nat) : Prop where
  order : Span.InOrder low (results.map Result.span) high
  nested : ∀ r ∈ results, r.Nested input

variable {input : Text} {start : Position} {r : Result V} {results items : List (Result V)}
  {span opening closing : Span} {low mid mid' high : Nat}

@[simp] theorem withSpan_span (r : Result V) (span : Span) : (r.withSpan span).span = span := by
  cases r <;> rfl

namespace Nested

theorem region (h : r.Nested input) : r.span.Of input := by
  cases h <;> assumption

/-- A result may stand for a larger region. -/
theorem withSpan (h : r.Nested input) (hspan : span.Of input)
    (hlow : span.start.offset ≤ r.span.start.offset)
    (hhigh : r.span.stop.offset ≤ span.stop.offset) : (r.withSpan span).Nested input := by
  cases h with
  | token => exact .token hspan
  | value => exact .value hspan
  | list _ horder hnested => exact .list hspan (horder.widen hlow hhigh) hnested

/-- A result nests between brackets that stand around it. -/
theorem bracketed (h : r.Nested input) (hopening : opening.Within low mid)
    (hr : r.span.Within mid mid') (hclosing : closing.Within mid' high) (hopen : opening.Of input)
    (hclose : closing.Of input) :
    ∃ span, Span.cover opening closing = .ok span ∧ span.Within low high ∧
      (r.withSpan span).Nested input := by
  obtain ⟨hcover, hwithin⟩ :=
    hopening.cover hclosing (Nat.le_trans hr.low (Nat.le_trans hr.forward hr.high))
  have hlow := Nat.le_trans hopening.forward (Nat.le_trans hopening.high hr.low)
  have hhigh := Nat.le_trans hr.high (Nat.le_trans hclosing.low hclosing.forward)
  exact ⟨_, hcover, hwithin,
    h.withSpan ⟨hopen.start, hclose.stop, hwithin.forward⟩ hlow hhigh⟩

end Nested

/-- Results can be covered if they run forward, and then what they cover is their region. -/
theorem coverAll_eq_ok :
    coverAll start results = .ok span ↔ Coverable results ∧ span = region start results := by
  cases results with
  | nil =>
    constructor
    · rintro ⟨⟩
      exact ⟨nofun, rfl⟩
    · rintro ⟨-, rfl⟩
      rfl
  | cons r results =>
    constructor
    · intro h
      obtain ⟨hforward, heq⟩ := Span.between_eq_ok.1 h
      refine ⟨?_, heq⟩
      rintro _ ⟨⟩
      exact hforward
    · rintro ⟨hcoverable, heq⟩
      exact Span.between_eq_ok.2 ⟨hcoverable _ rfl, heq⟩

namespace InTurn

theorem nil (h : low ≤ high) : InTurn input low ([] : List (Result V)) high :=
  ⟨h, List.forall_mem_nil _⟩

theorem cons (hr : r.Nested input) (hwithin : r.span.Within low mid)
    (h : InTurn input mid results high) : InTurn input low (r :: results) high :=
  ⟨.cons hwithin h.order, List.forall_mem_cons.2 ⟨hr, h.nested⟩⟩

theorem single (hr : r.Nested input) (hwithin : r.span.Within low high) :
    InTurn input low [r] high :=
  .cons hr hwithin (.nil (Nat.le_refl high))

theorem append (h : InTurn input low results mid) (h' : InTurn input mid items high) :
    InTurn input low (results ++ items) high := by
  refine ⟨?_, fun r hr => (List.mem_append.1 hr).elim (h.nested r) (h'.nested r)⟩
  rw [List.map_append]
  exact h.order.append h'.order

/-- Results in turn cover the region from the first of them to the last. -/
theorem coverAll (h : InTurn input start.offset results high) :
    coverAll start results = .ok (region start results) ∧
      (region start results).Within start.offset high := by
  obtain ⟨span, hcover, hwithin⟩ := coverAll_of_inOrder h.order
  obtain ⟨-, rfl⟩ := coverAll_eq_ok.1 hcover
  exact ⟨hcover, hwithin⟩

/-- What results cover is extended by one behind them to what they cover together. -/
theorem extend (h : InTurn input start.offset results mid) (hr : r.span.Within mid high)
    (c : Context) :
    ∃ s, extend (cover? results) r.span c = (.ok s, c) ∧ some s = cover? (results ++ [r]) := by
  cases results with
  | nil => exact ⟨r.span, rfl, rfl⟩
  | cons first rest =>
    obtain ⟨hcover, -⟩ := h.coverAll.2.cover hr (Nat.le_refl _)
    have hlast : cover? (first :: rest ++ [r]) = some ⟨first.span.start, r.span.stop⟩ := by
      unfold cover?
      rw [List.getLast?_concat]
      rfl
    exact ⟨_, trust_apply hcover c, hlast.symm⟩

/-- The region of results in turn is one of the input. -/
theorem region (h : InTurn input start.offset results high) (hstart : start.Of input) :
    (region start results).Of input := by
  have hforward := h.coverAll.2.forward
  cases results with
  | nil => exact ⟨hstart, hstart, hforward⟩
  | cons first rest =>
    have hlast := h.nested _ (List.getLast_mem (List.cons_ne_nil first rest))
    exact ⟨(h.nested _ (.head _)).region.start, hlast.region.stop, hforward⟩

/-- A list of some of the results in turn, for the region of them all, nests. -/
theorem list (h : InTurn input start.offset results high) (hstart : start.Of input)
    (hitems : items.Sublist results) :
    (Result.list items (Result.region start results)).Nested input := by
  refine .list (h.region hstart) ?_ fun item hitem => h.nested _ (hitems.subset hitem)
  refine Span.InOrder.sublist ?_ (hitems.map _)
  cases results with
  | nil => exact Nat.le_refl _
  | cons first rest =>
    have htight := Span.InOrder.tight h.order
    rw [getLast_span] at htight
    exact htight

end InTurn

end Result

/-! ## Runs in the input -/

/-- The cursor is in place in the input. -/
structure Context.InPlace (input : Text) (c : Context) : Prop where
  placed : c.tokenizer.cursor.Placed
  input : c.tokenizer.cursor.input = input

/-- The failure is no reversed span, but for those that are `raised` by actions. -/
def Failure.Forward (raised : Fault → Prop) (e : Failure) : Prop :=
  ∀ start stop, e = .fault (.reversedSpan start stop) → raised (.reversedSpan start stop)

theorem Failure.Forward.rejected {raised : Fault → Prop} (e : ParseError) :
    (Failure.rejected e).Forward raised := nofun

theorem Failure.Forward.exhausted {raised : Fault → Prop} : Failure.exhausted.Forward raised :=
  nofun

/-- Wherever the run begins in the input, its result nests, and it stands for a region between there
and where the run ends. A span is reversed only where that is `raised` by an action. -/
structure ParseM.Nests (input : Text) (raised : Fault → Prop) (x : ParseM (Result V)) : Prop where
  advances : x.Advances
  ends : ∀ c, c.InPlace input → x.Ends c
    (fun r d => r.span.Within c.tokenizer.position.offset d.tokenizer.position.offset ∧
      r.Nested input)
    fun e _ => e.Forward raised

/-- Run one after the other from `c` to `d`, the parsers succeed with the results. -/
inductive ParseM.Chain : Context → List (ParseM (Result V)) → List (Result V) → Context → Prop
  | nil {c : Context} : Chain c [] [] c
  | cons {c d e : Context} {x : ParseM (Result V)} {xs : List (ParseM (Result V))} {r : Result V}
      {rs : List (Result V)} (first : x c = (.ok r, d)) (rest : Chain d xs rs e) :
      Chain c (x :: xs) (r :: rs) e

/-- Where ordinary tokens are committed and the offset stays the same, there are none. -/
theorem Tokenizer.Commits.eq_nil {t t' : Tokenizer} {tokens : List Token}
    (h : t.Commits tokens t') (hk : ∀ token ∈ tokens, token.kind = .ordinary)
    (hoffset : t'.position.offset = t.position.offset) : tokens = [] := by
  cases h with
  | nil => rfl
  | cons hm hrest =>
    have hne := (peek_at hm.peeked).nonempty (by rw [hk _ (.head _)]; nofun)
    have hpos := Nat.pos_of_ne_zero (mt Text.byteLength_eq_zero.1 hne)
    have hmoved := hm.offset
    have hle := hrest.offset_le
    omega

/-- A tokenizer that is led to, and that stands at the same offset, is the same one. -/
theorem Tokenizer.LeadsTo.eq_of_offset {t t' : Tokenizer} (h : t.LeadsTo t')
    (hoffset : t'.position.offset = t.position.offset) : t' = t := by
  obtain ⟨tokens, hc, hk⟩ := h
  cases hc.eq_nil hk hoffset
  cases hc
  rfl

section

variable {input : Text} {raised : Fault → Prop} {c d : Context} {token : Token}

namespace Context.InPlace

theorem leadsTo (hc : c.InPlace input) (h : c.tokenizer.LeadsTo d.tokenizer) :
    d.InPlace input := by
  obtain ⟨tokens, hcommits, -⟩ := h
  exact ⟨hcommits.placed hc.placed, hcommits.input.trans hc.input⟩

theorem position (hc : c.InPlace input) : c.tokenizer.position.Of input := by
  obtain ⟨passed, hinput, hposition⟩ := hc.placed.reached
  exact ⟨passed, ⟨_, hinput.symm.trans hc.input⟩, hposition⟩

theorem moves (hc : c.InPlace input) (hm : c.tokenizer.Moves token d.tokenizer) :
    d.InPlace input :=
  ⟨hm.placed hc.placed, hm.input.trans hc.input⟩

/-- The token at the cursor nests. -/
theorem nested (hc : c.InPlace input) (hpeek : c.tokenizer.peek = .ok token) :
    (Result.ofToken token : Result V).Nested input := by
  obtain ⟨t, hforward⟩ := Tokenizer.forward_of_peek hpeek
  have hm := Tokenizer.forward_moves hforward
  have hd : Context.InPlace input ⟨t, c.journal⟩ := hc.moves hm
  refine .token ⟨?_, ?_, hm.within.forward⟩
  · rw [(Tokenizer.peek_at hpeek).start]
    exact hc.position
  · rw [← hm.position]
    exact hd.position

/-- The token at the cursor can be committed. -/
theorem commit {ok : Unit → Context → Prop} {bad : Failure → Context → Prop}
    (hc : c.InPlace input) (hpeek : c.tokenizer.peek = .ok token)
    (hok : ∀ d, d.InPlace input → c.tokenizer.Moves token d.tokenizer → ok () d) :
    (ParseM.commit token).Ends c ok bad :=
  .commit hpeek fun _ hm => hok _ (hc.moves hm) hm

end Context.InPlace

/-- Where a run has come to, it was led by ordinary tokens. -/
theorem ParseM.Advances.leadsTo {x : ParseM α} {outcome : Except Failure α} (hx : x.Advances)
    (hrun : x c = (outcome, d)) : c.tokenizer.LeadsTo d.tokenizer := by
  have hleads := hx c
  rwa [hrun] at hleads

/-- A run that nests goes on in the input behind its result. -/
theorem ParseM.Nests.andThen {x : ParseM (Result V)} {ok : Result V → Context → Prop}
    (hx : x.Nests input raised) (hc : c.InPlace input)
    (hok : ∀ r d, x c = (.ok r, d) → d.InPlace input →
      r.span.Within c.tokenizer.position.offset d.tokenizer.position.offset → r.Nested input →
      ok r d) :
    x.Ends c ok fun e _ => e.Forward raised := by
  refine (hx.ends c hc).ran.mono (fun r d hd => ?_) fun _ _ he => he.2
  obtain ⟨hrun, hwithin, hnested⟩ := hd
  exact hok r d hrun (hc.leadsTo (hx.advances.leadsTo hrun)) hwithin hnested

/-! ## Tokens -/

theorem nests_expectToken (type : TokenType) :
    (expectToken type : ParseM (Result V)).Nests input raised := by
  refine ⟨expectToken_advances type, fun c hc => ?_⟩
  obtain ⟨token, hpeek⟩ := Tokenizer.peek_of_placed hc.placed
  refine .bind (.peek hpeek ?_)
  cases token.is type with
  | true => exact .bind (hc.commit hpeek fun d _ hm => .pure ⟨hm.within, hc.nested hpeek⟩)
  | false => exact .unexpected fun _ => .rejected _

theorem nests_expectEnd : (expectEnd : ParseM (Result V)).Nests input raised := by
  refine ⟨expectEnd_advances, fun c hc => ?_⟩
  obtain ⟨token, hpeek⟩ := Tokenizer.peek_of_placed hc.placed
  refine .bind (.peek hpeek ?_)
  cases hend : token.isEndOfInput with
  | true =>
    have hwithin := (Tokenizer.peek_at hpeek).within_of_isEndOfInput hend
    exact .pure ⟨hwithin, hc.nested hpeek⟩
  | false => exact .unexpected fun _ => .rejected _

/-! ## Sequences -/

variable {run : P → ParseM (Result V)} {parts : List (Member P)}

/-- A region is extended, or it is at fault. -/
theorem extend_ends {ok : Span → Context → Prop} {bad : Failure → Context → Prop}
    {covered : Option Span} {next : Span} (hok : ∀ span, ok span c)
    (hbad : ∀ fault, bad (.fault fault) c) : (extend covered next).Ends c ok bad := by
  cases covered with
  | none => exact .pure (hok next)
  | some span => exact .trusting (fun cover _ => hok cover) hbad

/-- The members of a sequence run one behind the other, behind what is `done`, and cover a region
together with it. -/
theorem members_nest (hrun : ∀ m ∈ parts, (run m.parser).Nests input raised) {start : Position}
    {done : List (Result V)} (hc : c.InPlace input)
    (hdone : Result.InTurn input start.offset done c.tokenizer.position.offset) :
    (members run parts (Result.cover? done)).Ends c
      (fun r d => ∃ results, Chain c (parts.map fun m => run m.parser) results d ∧
        r.1.Sublist results ∧ r.2 = Result.cover? (done ++ results) ∧
        Result.InTurn input c.tokenizer.position.offset results d.tokenizer.position.offset)
      fun e _ => e.Forward raised := by
  induction parts generalizing done c with
  | nil => exact .pure ⟨[], .nil, .slnil, by rw [List.append_nil], .nil (Nat.le_refl _)⟩
  | cons m parts ih =>
    refine .bind ((hrun m (.head _)).andThen hc fun r d hfirst hd hwithin hnested => ?_)
    obtain ⟨covered, hextend, hcovered⟩ := hdone.extend hwithin d
    refine .bind (.of_ok hextend (.bind ?_))
    rw [hcovered]
    have hrest := ih (fun m' hm' => hrun m' (.tail _ hm')) hd
      (hdone.append (.single hnested hwithin))
    refine hrest.imp fun rest e he => ?_
    obtain ⟨results, hchain, hkept, hcover, hturn⟩ := he
    rw [List.append_assoc] at hcover
    have hall := hturn.cons hnested hwithin
    cases m.mark with
    | element =>
      exact .pure ⟨r :: results, .cons hfirst hchain, hkept.cons_cons r, hcover, hall⟩
    | skip => exact .pure ⟨r :: results, .cons hfirst hchain, hkept.cons r, hcover, hall⟩

/-- A sequence stands for the region from its first member to its last, whichever of them are its
elements. -/
theorem sequence_nests {action : Option (TupleAction V)}
    (hrun : ∀ m ∈ parts, (run m.parser).Nests input raised)
    (hraised : ∀ f, action = some f → ∀ elements span fault,
      (Result.list elements span).Nested input → f elements span = .error (.fault fault) →
      raised fault)
    (hc : c.InPlace input) :
    (sequence run parts action).Ends c
      (fun r d => r.span.Within c.tokenizer.position.offset d.tokenizer.position.offset ∧
        r.Nested input ∧ ∃ results, Chain c (parts.map fun m => run m.parser) results d ∧
          r.span = Result.region c.tokenizer.position results)
      fun e _ => e.Forward raised := by
  refine .bind (.position (.bind ?_))
  have hnone : Result.InTurn input c.tokenizer.position.offset ([] : List (Result V))
      c.tokenizer.position.offset := .nil (Nat.le_refl _)
  refine (members_nest hrun hc hnone).imp fun result d hd => ?_
  obtain ⟨elements, covered⟩ := result
  obtain ⟨results, hchain, hkept, rfl, hturn⟩ := hd
  obtain ⟨-, hwithin⟩ := hturn.coverAll
  have hlist := hturn.list hc.position hkept
  cases action with
  | none => exact .pure ⟨hwithin, hlist, results, hchain, rfl⟩
  | some f =>
    refine .bind (.perform (fun v _ => ?_) (fun e _ => .rejected e) fun fault hf => ?_)
    · exact .pure ⟨hwithin, .value (hturn.region hc.position), results, hchain, rfl⟩
    · rintro _ _ ⟨⟩
      exact hraised f rfl _ _ _ hlist hf

theorem nests_sequence {action : Option (TupleAction V)} (hadvances : ∀ p, (run p).Advances)
    (hrun : ∀ m ∈ parts, (run m.parser).Nests input raised)
    (hraised : ∀ f, action = some f → ∀ elements span fault,
      (Result.list elements span).Nested input → f elements span = .error (.fault fault) →
      raised fault) :
    (sequence run parts action).Nests input raised :=
  ⟨sequence_advances hadvances parts action, fun _ hc =>
    (sequence_nests hrun hraised hc).imp fun _ _ h => ⟨h.1, h.2.1⟩⟩

/-! ## Repetitions -/

variable {body : ParseM (Result V)}

/-- The rounds of a repetition run one behind the other. A last round that fails has not moved the
cursor. -/
theorem repetitions_nest (hbody : body.Nests input raised) (n : Nat) (hc : c.InPlace input) :
    (repetitions body n).Ends c
      (fun r d => ∃ e, Chain c (List.replicate r.1.length body) r.1 e ∧
        e.tokenizer = d.tokenizer ∧
        Result.InTurn input c.tokenizer.position.offset r.1 d.tokenizer.position.offset)
      fun e _ => e.Forward raised := by
  induction n generalizing c with
  | zero => exact .throw .exhausted
  | succ n ih =>
    refine .bind (.position (.bind (.attempt ?_)))
    refine (hbody.ends c hc).ran.mono (fun r d hd => ?_) fun e d he => ?_
    · obtain ⟨hrun, hwithin, hnested⟩ := hd
      have hd := hc.leadsTo (hbody.advances.leadsTo hrun)
      refine .bind (.position ?_)
      dsimp only
      by_cases hsame : d.tokenizer.position.offset = c.tokenizer.position.offset
      · rw [if_pos hsame]
        exact .pure ⟨d, .cons hrun .nil, rfl, .single hnested hwithin⟩
      · rw [if_neg hsame]
        refine .bind ((ih hd).imp fun result e he => ?_)
        obtain ⟨last, hchain, hlast, hturn⟩ := he
        exact .pure ⟨last, .cons hrun hchain, hlast, hturn.cons hnested hwithin⟩
    · obtain ⟨hrun, hforward⟩ := he
      cases e with
      | rejected e =>
        have hleads := hbody.advances.leadsTo hrun
        refine .bind (.position ?_)
        dsimp only
        by_cases hsame : d.tokenizer.position.offset = c.tokenizer.position.offset
        · rw [if_pos hsame]
          exact .pure ⟨c, .nil, (hleads.eq_of_offset hsame).symm, .nil (Nat.le_of_eq hsame.symm)⟩
        · rw [if_neg hsame]
          exact .throw (.rejected e)
      | fault => exact hforward
      | exhausted => exact hforward

/-- A repetition stands for the region from its first round to its last. -/
theorem repetition_nests (hbody : body.Nests input raised) (minimum : Nat)
    (hc : c.InPlace input) :
    (repetition body minimum).Ends c
      (fun r d => r.span.Within c.tokenizer.position.offset d.tokenizer.position.offset ∧
        r.Nested input ∧ ∃ items e, r = .list items (Result.region c.tokenizer.position items) ∧
          Chain c (List.replicate items.length body) items e ∧ e.tokenizer = d.tokenizer)
      fun e _ => e.Forward raised := by
  refine .bind (.position (.bind (.unread (.bind ?_))))
  refine (repetitions_nest hbody _ hc).imp fun rounds d hd => ?_
  obtain ⟨items, reason⟩ := rounds
  obtain ⟨e, hchain, hlast, hturn⟩ := hd
  refine .bind (.note ?_)
  by_cases hfew : items.length < minimum
  · dsimp only
    rw [if_pos hfew]
    cases reason with
    | some e => exact .reject (.rejected _)
    | none => exact .bind (.position (.reject (.rejected _)))
  · dsimp only
    rw [if_neg hfew]
    obtain ⟨hcover, hwithin⟩ := hturn.coverAll
    have hnested := hturn.list hc.position (.refl items)
    exact .bind (.trust hcover (.pure ⟨hwithin, hnested, items, e, rfl, hchain, hlast⟩))

theorem nests_repetition (hbody : body.Nests input raised) (minimum : Nat) :
    (repetition body minimum).Nests input raised :=
  ⟨repetition_advances hbody.advances minimum, fun _ hc =>
    (repetition_nests hbody minimum hc).imp fun _ _ h => ⟨h.1, h.2.1⟩⟩

end

/-! ## Choices -/

section

variable {g : Grammar V} {input : Text} {raised : Fault → Prop} {c : Context} {slot : Nat}
  {alternatives : List (Parser V)}

/-- Finding the FIRST sets of a choice leaves the tokenizer alone, or there are none. -/
theorem predict_ends {bad : Failure → Context → Prop}
    (hbad : ∀ error, bad (.fault (.unpredictable error)) c) :
    (predict g slot alternatives).Ends c (fun _ d => d.tokenizer = c.tokenizer) bad := by
  refine .bind (.get ?_)
  split
  · exact .pure rfl
  · split
    · exact .bind (.note (.bind (.modify (.pure rfl))))
    · exact .throw (hbad _)

/-- The event says which alternative a choice takes. -/
inductive Event.Selects : Event → Prop
  | byToken (index : Nat) (token : Token) : Selects (.selected index token)
  | byNothing (index : Nat) : Selects (.selectedEmpty index)

/-- A choice ends as the alternative that it takes, or it rejects the token at the cursor. -/
theorem choice_ends {run : Parser V → ParseM (Result V)} {ready : Context → Prop}
    {ok : Result V → Context → Prop} {bad : Failure → Context → Prop}
    (hpeek : ∀ fault, c.tokenizer.peek = .error fault → bad (.fault fault) c)
    (hpredict : (predict g slot alternatives).Ends c (fun _ d => ready d) bad)
    (hselected : ∀ q ∈ alternatives, ∀ event d, event.Selects → ready d →
      (run q).Ends (noted d event) ok bad)
    (hrejected : ∀ token d, c.tokenizer.peek = .ok token → ready d → bad (.rejected
      ⟨"unexpected " ++ token.describe ++ " for any alternative", token.span⟩) d) :
    (chooseAlternative g run slot alternatives).Ends c ok bad := by
  have selected {property : FirstSet → Bool} {firsts : List FirstSet} {index : Nat} {q : Parser V}
      {event : Event} {d : Context} (hevent : event.Selects) (hd : ready d)
      (h : alternative? alternatives firsts property = some (index, q)) :
      (do note event; run q).Ends d ok bad := by
    obtain ⟨f, hmem, -⟩ := alternative?_eq_some h
    exact .bind (.note (hselected q (List.of_mem_zip hmem).1 event d hevent hd))
  cases htoken : c.tokenizer.peek with
  | error fault => exact .bind (.of_error (peek_of_fault htoken) (hpeek fault htoken))
  | ok token =>
    refine .bind (.peek htoken (.bind (hpredict.imp fun firsts d hd => ?_)))
    split
    · next index q h => exact selected (.byToken index token) hd h
    · split
      · next index q h => exact selected (.byNothing index) hd h
      · exact .reject (hrejected token d htoken hd)

/-- A choice nests if its alternatives do. -/
theorem nests_choice {run : Parser V → ParseM (Result V)} (hadvances : ∀ p, (run p).Advances)
    (hrun : ∀ q ∈ alternatives, (run q).Nests input raised) :
    (chooseAlternative g run slot alternatives).Nests input raised := by
  refine ⟨choice_advances hadvances slot alternatives, fun c hc => ?_⟩
  refine choice_ends (fun fault hpeek => ?_) (predict_ends fun _ => nofun)
    (fun q hq event d _ hd => ?_) fun token d _ _ => .rejected _
  · obtain ⟨token, htoken⟩ := Tokenizer.peek_of_placed hc.placed
    rw [hpeek] at htoken
    cases htoken
  · obtain ⟨t, journal⟩ := d
    obtain rfl : t = c.tokenizer := hd
    exact (hrun q hq).ends _ ⟨hc.placed, hc.input⟩

end

end PredictiveParsing
