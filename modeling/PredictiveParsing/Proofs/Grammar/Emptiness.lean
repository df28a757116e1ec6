import PredictiveParsing.Proofs.Grammar.Repeating

/-!
# Parsers that can be empty

A FIRST set says whether its parser can succeed without consuming anything. In front of a token that
the FIRST set does not accept, a parser without actions that can be empty does succeed
(`Parser.run_of_nullable`), and so does the alternative that a choice falls back to, provided that no
repetition asks for more rounds than it can get there. A round without extent is the last one, so
that a repetition of a body that can be empty gets one round. If it asks for more, its FIRST set says
that it can be empty, and yet it is rejected (`Parser.many_rejects`).

`Vacant` states of a run that it succeeds where it stands. Each combinator is vacant if the parts are
that it runs there, and what a part that cannot be empty does there is known already: it is idle.
-/

namespace PredictiveParsing

open ParseM

variable {V : Type}

/-- No sequence that `p` reaches has an action. -/
def Grammar.Actionless (g : Grammar V) (p : Parser V) : Prop :=
  ∀ members action, g.Reaches p (.tuple members action) → action = none

/-- No repetition that `p` reaches asks for more than one round of a body that can be empty. -/
def Grammar.OneRoundSuffices (g : Grammar V) (p : Parser V) : Prop :=
  ∀ body minimum f, g.Reaches p (.many body minimum) → g.first body = .ok f → f.nullable = true →
    minimum ≤ 1

/-- The parser succeeds where it stands: it consumes nothing, and its result has no extent. -/
def Parser.EmptyAt (g : Grammar V) (c : Context) (p : Parser V) : Prop :=
  ∃ r journal, p.run g c = (.ok r, ⟨c.tokenizer, journal⟩) ∧ r.span = .empty c.tokenizer.position

/-- The run succeeds where it stands. -/
def Vacant (g : Grammar V) (p : Parser V) (t : Tokenizer) (x : ParseM (Result V)) : Prop :=
  ∀ c, StandsAt g p t c →
    x.Ends c (fun r d => StandsAt g p t d ∧ r.span = .empty t.position) (fun _ _ => False)

section

variable {g : Grammar V} {p : Parser V} {t : Tokenizer} {token : Token} {c : Context}

theorem Grammar.Actionless.below {q : Parser V} (h : g.Actionless p) (hq : g.Reaches p q) :
    g.Actionless q := fun members action h' => h members action (hq.trans h')

theorem Grammar.OneRoundSuffices.below {q : Parser V} (h : g.OneRoundSuffices p)
    (hq : g.Reaches p q) : g.OneRoundSuffices q :=
  fun body minimum f h' => h body minimum f (hq.trans h')

/-- Where there are no actions, none is at fault. -/
theorem Grammar.Actionless.faultless (h : g.Actionless p) : g.Faultless p :=
  fun members action hreach => nomatch h members (some action) hreach

/-! ## Combinators -/

/-- The members of a sequence that can be empty all succeed where they stand. -/
theorem members_vacant {rule : String → Except GrammarError FirstSet}
    {run : Parser V → ParseM (Result V)} {parts : List (Member (Parser V))} {f : FirstSet}
    (hf : Parser.membersFirst rule parts = .ok f) (hnullable : f.nullable = true)
    (ha : f.accepts token = false)
    (hrun : ∀ m ∈ parts, ∀ f₁, m.parser.first rule = .ok f₁ → f₁.nullable = true →
      f₁.accepts token = false → Vacant g p t (run m.parser))
    {covered : Option Span} (hcovered : ∀ s ∈ covered, s = .empty t.position)
    (hc : StandsAt g p t c) :
    (members run parts covered).Ends c
      (fun r d => StandsAt g p t d ∧ ∀ s ∈ r.2, s = .empty t.position) (fun _ _ => False) := by
  induction parts generalizing f covered c with
  | nil => exact .pure ⟨hc, hcovered⟩
  | cons m parts ih =>
    obtain ⟨f₁, h₁, ⟨hnot, rfl⟩ | ⟨hempty, f₂, h₂, rfl⟩⟩ := Parser.membersFirst_cons hf
    · rw [hnot] at hnullable
      cases hnullable
    · rw [FirstSet.accepts_andThen, Bool.or_eq_false_iff] at ha
      refine .bind ((hrun m (.head _) f₁ h₁ hempty ha.1 c hc).mono (fun r d hd => ?_)
        (fun _ _ he => he))
      obtain ⟨hd, hspan⟩ := hd
      rw [hspan]
      refine .bind (.of_ok (extend_empty hcovered) (.bind ?_))
      have hsome : ∀ s ∈ some (Span.empty t.position), s = .empty t.position := by
        rintro s ⟨⟩
        rfl
      refine (ih h₂ hnullable ha.2 (fun m' hm' => hrun m' (.tail _ hm')) hsome hd).mono
        (fun result e he => ?_) (fun _ _ he => he)
      cases m.mark <;> exact .pure he

/-- A sequence without an action succeeds where it stands if it can be empty and its members
succeed. -/
theorem vacant_sequence {rule : String → Except GrammarError FirstSet}
    {run : Parser V → ParseM (Result V)} {parts : List (Member (Parser V))} {f : FirstSet}
    (hf : Parser.membersFirst rule parts = .ok f) (hnullable : f.nullable = true)
    (ha : f.accepts token = false)
    (hrun : ∀ m ∈ parts, ∀ f₁, m.parser.first rule = .ok f₁ → f₁.nullable = true →
      f₁.accepts token = false → Vacant g p t (run m.parser)) :
    Vacant g p t (sequence run parts none) := by
  intro c hc
  refine .bind (.position (.bind ?_))
  have hnone : ∀ s ∈ (none : Option Span), s = .empty t.position := fun _ => nofun
  refine (members_vacant hf hnullable ha hrun hnone hc).mono (fun result d hd => ?_)
    (fun _ _ he => he)
  obtain ⟨hd, hcovered⟩ := hd
  refine .pure ⟨hd, ?_⟩
  cases hr : result.2 with
  | none =>
    show Span.empty c.tokenizer.position = _
    rw [hc.tokenizer]
  | some s => exact hcovered s hr

/-- A body that succeeds where it stands does so for one round. -/
theorem repetitions_vacant {body : ParseM (Result V)} (hbody : Vacant g p t body) (n : Nat)
    (hc : StandsAt g p t c) :
    (repetitions body (n + 1)).Ends c
      (fun r d => StandsAt g p t d ∧
        ∃ result, r = ([result], none) ∧ result.span = .empty t.position)
      (fun _ _ => False) := by
  refine .bind (.position (.bind (.attempt ?_)))
  refine (hbody c hc).mono (fun r d hd => ?_) (fun _ _ he => he.elim)
  refine .bind (.position ?_)
  dsimp only
  rw [if_pos (by rw [hd.1.tokenizer, hc.tokenizer])]
  exact .pure ⟨hd.1, r, rfl, hd.2⟩

/-- A repetition that asks for one round at most succeeds where its body does. -/
theorem vacant_repetition {body : ParseM (Result V)} {minimum : Nat} (hbody : Vacant g p t body)
    (hminimum : minimum ≤ 1) : Vacant g p t (repetition body minimum) := by
  intro c hc
  refine .bind (.position (.bind (.unread (.bind ?_))))
  refine (repetitions_vacant hbody _ hc).mono (fun r d hd => ?_) (fun _ _ he => he)
  obtain ⟨hd, result, rfl, hspan⟩ := hd
  refine .bind (.note ?_)
  have henough : ¬ [result].length < minimum := Nat.not_lt_of_le hminimum
  rw [if_neg henough]
  have hcover : coverAll c.tokenizer.position [result] = .ok (.empty t.position) := by
    show Span.cover result.span result.span = _
    rw [hspan]
    exact cover_empty _
  exact .bind (.trust hcover (.pure ⟨hd.note _, rfl⟩))

/-- A repetition that asks for more than one round is rejected where its body succeeds, because the
first round is the last one. -/
theorem repetition_of_vacant {body : ParseM (Result V)} {minimum : Nat} (hbody : Vacant g p t body)
    (hminimum : 2 ≤ minimum) (hc : StandsAt g p t c) :
    (repetition body minimum).Ends c (fun _ _ => False)
      (fun e d => StandsAt g p t d ∧ e = .rejected (tooFewRounds minimum 1 none t.position)) := by
  refine .bind (.position (.bind (.unread (.bind ?_))))
  refine (repetitions_vacant hbody _ hc).mono (fun r d hd => ?_) (fun _ _ he => he.elim)
  obtain ⟨hd, result, rfl, -⟩ := hd
  refine .bind (.note ?_)
  have hfew : [result].length < minimum := hminimum
  rw [if_pos hfew]
  refine .bind (.position (.reject ⟨hd.note _, ?_⟩))
  show Failure.rejected (tooFewRounds minimum 1 none d.tokenizer.position) = _
  rw [hd.tokenizer]

/-- In front of a body that is rejected where it stands there are no rounds. -/
theorem repetitions_of_idle {body : ParseM (Result V)} (hbody : Idle g p t body false) (n : Nat)
    (hc : StandsAt g p t c) :
    (repetitions body (n + 1)).Ends c (fun r d => StandsAt g p t d ∧ ∃ e, r = ([], some e))
      (fun _ _ => False) := by
  refine .bind (.position (.bind (.attempt ?_)))
  refine (hbody c hc).mono (fun r d hd => absurd hd.2.2 Bool.false_ne_true) (fun e d he => ?_)
  obtain ⟨hd, error, rfl⟩ := he
  refine .bind (.position ?_)
  dsimp only
  rw [if_pos (by rw [hd.tokenizer, hc.tokenizer])]
  exact .pure ⟨hd, error, rfl⟩

/-- A repetition that asks for no round succeeds where its body is rejected. -/
theorem vacant_repetition_of_idle {body : ParseM (Result V)} (hbody : Idle g p t body false) :
    Vacant g p t (repetition body 0) := by
  intro c hc
  refine .bind (.position (.bind (.unread (.bind ?_))))
  refine (repetitions_of_idle hbody _ hc).mono (fun r d hd => ?_) (fun _ _ he => he)
  obtain ⟨hd, e, rfl⟩ := hd
  refine .bind (.note ?_)
  rw [if_neg (Nat.not_lt_zero _)]
  refine .bind (.trust rfl (.pure ⟨hd.note _, ?_⟩))
  show Span.empty c.tokenizer.position = _
  rw [hc.tokenizer]

/-- A choice that accepts the token in none of its alternatives succeeds where it stands if it can
be empty, because the alternative does that it falls back to. -/
theorem vacant_choice {run : Parser V → ParseM (Result V)} {slot : Nat}
    {alternatives : List (Parser V)} {firsts : List FirstSet} (hpeek : t.peek = .ok token)
    (hreach : g.Reaches p (.choice slot alternatives))
    (hfirsts : alternatives.mapM g.first = .ok firsts)
    (ha : (firsts.any fun f => f.accepts token) = false)
    (hnullable : firsts.any FirstSet.nullable = true)
    (hrun : ∀ q f, (q, f) ∈ alternatives.zip firsts → f.nullable = true → Vacant g p t (run q)) :
    Vacant g p t (chooseAlternative g run slot alternatives) := by
  intro c hc
  obtain ⟨j, hj, hcases⟩ :=
    chooseAlternative_cases run (hc.peek hpeek) hc.journal hreach hfirsts
  rcases hcases with ⟨q, f, hmem, hf, -⟩ | ⟨-, ⟨q, f, hmem, hf, hrun'⟩ | ⟨hnone, -⟩⟩
  · exact absurd hf (List.any_eq_false.1 ha f (List.of_mem_zip hmem).2)
  · exact .of_eq hrun' (hrun q f hmem hf _ ⟨hc.tokenizer, hj⟩)
  · rw [hnullable] at hnone
    cases hnone

/-! ## Parsers -/

/-- Run deep enough for the rules that are not active, a parser that can be empty succeeds where it
stands, in front of a token that its FIRST set does not accept. -/
theorem runWithin_vacant (hpeek : t.peek = .ok token) (hactions : g.Actionless p)
    (hrounds : g.OneRoundSuffices p) {depth n : Nat} {active : List String} {q : Parser V}
    {f : FirstSet} (hreach : g.Reaches p q) (hn : n ≤ g.rules.length + 1)
    (hf : q.first (g.firstOfRule n active) = .ok f) (hnullable : f.nullable = true)
    (ha : f.accepts token = false) (hdepth : q.size + g.sizeWithout active ≤ depth) :
    Vacant g p t (Parser.runWithin g depth q) := by
  induction depth generalizing n active q f with
  | zero =>
    have := q.size_pos
    omega
  | succ depth ih =>
    have part {q' : Parser V} {f' : FirstSet} (hpart : Parser.Child q' q)
        (hf' : q'.first (g.firstOfRule n active) = .ok f') (hnullable' : f'.nullable = true)
        (ha' : f'.accepts token = false) : Vacant g p t (Parser.runWithin g depth q') := by
      have := hpart.size_lt
      exact ih (hreach.child hpart) hn hf' hnullable' ha' (by omega)
    cases q with
    | token type =>
      cases hf
      cases hnullable
    | endOfInput =>
      cases hf
      cases hnullable
    | tuple members action =>
      cases hactions members action hreach
      exact vacant_sequence hf hnullable ha fun m hm f₁ h₁ => part (.member hm) h₁
    | choice slot alternatives =>
      obtain ⟨firsts, hfirsts, haccepts, hany⟩ := Parser.alternativesFirst_eq_ok hf
      have hmapM : alternatives.mapM g.first = .ok firsts :=
        mapM_mono (fun _ _ h => Grammar.first_of_firstOfRule hn h) hfirsts
      have hnone : (firsts.any fun f' => f'.accepts token) = false := by rw [← haccepts, ha]
      refine vacant_choice hpeek hreach hmapM hnone (hany ▸ hnullable) fun q' f' hmem hempty => ?_
      have ⟨hq', hf'⟩ := List.of_mem_zip hmem
      refine part (.alternative hq') (of_mem_zip_mapM hfirsts hmem) hempty ?_
      exact Bool.eq_false_iff.2 (List.any_eq_false.1 hnone f' hf')
    | many body minimum =>
      obtain ⟨f₁, h₁, haccepts, hany⟩ := Parser.first_many hf
      have ha₁ : f₁.accepts token = false := by rw [← haccepts, ha]
      cases hempty : f₁.nullable with
      | true =>
        have hfirst : g.first body = .ok f₁ := Grammar.first_of_firstOfRule hn h₁
        exact vacant_repetition (part .repeated h₁ hempty ha₁)
          (hrounds body minimum f₁ hreach hfirst hempty)
      | false =>
        -- a body that cannot be empty is rejected here, so that no round may be asked for
        rw [hany, hempty, Bool.false_or, beq_iff_eq] at hnullable
        subst hnullable
        have hsize : body.size < (Parser.many body 0).size := Parser.Child.repeated.size_lt
        have hidle : Idle g p t (Parser.runWithin g depth body) f₁.nullable :=
          runWithin_idle hpeek hactions.faultless (hreach.child .repeated) hn h₁ ha₁ (by omega)
        rw [hempty] at hidle
        exact vacant_repetition_of_idle hidle
    | embed body => exact part .embedded hf hnullable ha
    | expr o =>
      obtain ⟨-, rfl⟩ := Parser.first_expr_eq_ok_iff.1 hf
      cases hnullable
    | ref name =>
      obtain ⟨m, r, rfl, hname, hr, hfr⟩ := Grammar.firstOfRule_eq_ok hf
      have hsize := Grammar.sizeWithout_cons hr hname
      have hresolve : g.resolve name = .ok r := by rw [Grammar.resolve, hr]
      intro c hc
      refine .bind (.trust hresolve ?_)
      have := (Parser.ref name : Parser V).size_pos
      exact ih (hreach.rule hr) (Nat.le_of_succ_le hn) hfr hnullable ha (by omega) c hc

/-- The depth that a parser runs at is enough for its combinators and those of the rules. -/
theorem Parser.size_le_depthFor (g : Grammar V) (p : Parser V) (n : Nat) :
    p.size + g.sizeWithout [] ≤ p.depthFor g n := by
  rw [Grammar.sizeWithout_nil]
  exact Nat.le_trans (Nat.le_succ _) (Nat.le_mul_of_pos_left _ (Nat.succ_pos _))

/-- The run of a parser that can be empty succeeds where it stands. -/
theorem Parser.emptyAt_of_first {f : FirstSet} (hactions : g.Actionless p)
    (hrounds : g.OneRoundSuffices p) (hf : g.first p = .ok f) (hnullable : f.nullable = true)
    (hj : c.journal.Faithful g p) (hpeek : c.tokenizer.peek = .ok token)
    (ha : f.accepts token = false) : p.EmptyAt g c := by
  have hends := runWithin_vacant hpeek hactions hrounds .refl (Nat.le_refl _) hf hnullable ha
    (p.size_le_depthFor g c.tokenizer.cursor.rest.length) c ⟨rfl, hj⟩
  rcases hends.cases with ⟨r, d, hrun, hd, hspan⟩ | ⟨_, _, _, hfalse⟩
  · refine ⟨r, d.journal, ?_, hspan⟩
    rw [← hd.tokenizer]
    exact hrun
  · exact hfalse.elim

/-- A FIRST set that says that its parser can be empty is right if no repetition asks for more rounds
than one without extent. Then a parser without actions succeeds and consumes nothing in front of
every token that its FIRST set does not accept, and wherever a choice below it falls back to an
alternative that can be empty, that alternative does so. -/
theorem Parser.run_of_nullable (hactions : g.Actionless p) (hrounds : g.OneRoundSuffices p)
    (hj : c.journal.Faithful g p) (hpeek : c.tokenizer.peek = .ok token) :
    (∀ f, g.first p = .ok f → f.nullable = true → f.accepts token = false → p.EmptyAt g c) ∧
    ∀ slot alternatives firsts index q, g.Reaches p (.choice slot alternatives) →
      alternatives.mapM g.first = .ok firsts →
      alternative? alternatives firsts (fun f => f.accepts token) = none →
      alternative? alternatives firsts FirstSet.nullable = some (index, q) → q.EmptyAt g c := by
  refine ⟨fun f hf hnullable ha => emptyAt_of_first hactions hrounds hf hnullable hj hpeek ha, ?_⟩
  intro slot alternatives firsts index q hreach hfirsts hnone hfallback
  obtain ⟨f, hmem, hnullable⟩ := alternative?_eq_some hfallback
  have hq : g.Reaches p q := hreach.child (.alternative (List.of_mem_zip hmem).1)
  have ha : f.accepts token = false :=
    Bool.eq_false_iff.2 (List.any_eq_false.1 (alternative?_eq_none (length_of_mapM hfirsts) hnone) f
      (List.of_mem_zip hmem).2)
  exact emptyAt_of_first (hactions.below hq) (hrounds.below hq) (of_mem_zip_mapM hfirsts hmem)
    hnullable (hj.below hq) hpeek ha

/-- The condition on rounds cannot be dropped. A repetition that asks for more than one round of a
body that can be empty is said to be empty by its FIRST set, but it is rejected. -/
theorem Parser.many_rejects {body : Parser V} {minimum : Nat} {f : FirstSet}
    (hactions : g.Actionless body) (hrounds : g.OneRoundSuffices body) (hminimum : 2 ≤ minimum)
    (hf : g.first body = .ok f) (hnullable : f.nullable = true) (hj : c.journal.Faithful g body)
    (hpeek : c.tokenizer.peek = .ok token) (ha : f.accepts token = false) :
    g.first (.many body minimum) = .ok f ∧ ∃ journal, (many body minimum).run g c =
      (.error (.rejected (tooFewRounds minimum 1 none c.tokenizer.position)),
        ⟨c.tokenizer, journal⟩) := by
  refine ⟨?_, ?_⟩
  · show (body.first g.ruleFirst >>= _) = _
    change body.first g.ruleFirst = .ok f at hf
    rw [hf]
    show Except.ok { f with nullable := f.nullable || minimum == 0 } = _
    rw [hnullable, Bool.true_or, ← hnullable]
  · obtain ⟨depth, hdepth, hrun⟩ := run_many g body minimum c
    have hlt := depthFor_lt_many g body minimum c.tokenizer.cursor.rest.length
    have hsize := body.size_le_depthFor g c.tokenizer.cursor.rest.length
    have hvacant : Vacant g body c.tokenizer (runWithin g depth body) :=
      runWithin_vacant hpeek hactions hrounds .refl (Nat.le_refl _) hf hnullable ha (by omega)
    rw [hrun]
    rcases (repetition_of_vacant hvacant hminimum ⟨rfl, hj⟩).cases with
      ⟨_, _, _, hfalse⟩ | ⟨e, d, hends, hd, rfl⟩
    · exact hfalse.elim
    · exact ⟨d.journal, by rw [hends, ← hd.tokenizer]⟩

end

/-- Two rounds of nothing have a FIRST set that says that they can be empty, and are rejected. -/
example : (Grammar.empty : Grammar Unit).first (.many (.tuple [] none) 2) = .ok ⟨[], true⟩ ∧
    ((Parser.many (.tuple [] none) 2).run (.empty : Grammar Unit) ⟨unsignedDigit, .forgetful⟩).1 =
      .error (.rejected (tooFewRounds 2 1 none unsignedDigit.position)) :=
  ⟨rfl, rfl⟩

theorem optionalSigns_parts : (Parser.many (.ref "sign") 1).parts ++ optionalSign.parts =
    [.many (.ref "sign") 1, .ref "sign", .choice 0 [.token "-", .tuple [] none], .token "-",
      .tuple [] none] := rfl

theorem optionalSigns_actionless : optionalSign.Actionless (.many (.ref "sign") 1) := by
  intro members action h
  have hpart := h.mem_parts
  rw [optionalSigns_parts] at hpart
  have heq : members = [] ∧ action = none := by simpa using hpart
  exact heq.2

theorem optionalSigns_oneRoundSuffices :
    optionalSign.OneRoundSuffices (.many (.ref "sign") 1) := by
  intro body minimum f h _ _
  have hpart := h.mem_parts
  rw [optionalSigns_parts] at hpart
  have heq : body = .ref "sign" ∧ minimum = 1 := by simpa using hpart
  exact Nat.le_of_eq heq.2

/-- In front of a digit, one or more optional signs are one that is absent. -/
theorem optionalSign_run_of_nullable :
    (Parser.many (.ref "sign") 1).EmptyAt optionalSign ⟨unsignedDigit, .forgetful⟩ ∧
      (Parser.tuple [] none).EmptyAt optionalSign ⟨unsignedDigit, .forgetful⟩ := by
  have hpeek : unsignedDigit.peek =
      .ok (.ordinary "digit" ⟨['7'], 0⟩ ⟨⟨1, 1, 0⟩, ⟨1, 2, 1⟩⟩) := rfl
  have hreach : optionalSign.Reaches (.many (.ref "sign") 1)
      (.choice 0 [.token "-", .tuple [] none]) :=
    .rule (.child .refl .repeated) rfl
  obtain ⟨hempty, hfallback⟩ := Parser.run_of_nullable (c := ⟨unsignedDigit, .forgetful⟩)
    optionalSigns_actionless optionalSigns_oneRoundSuffices .forgetful hpeek
  exact ⟨hempty ⟨[.token "-"], true⟩ rfl rfl rfl,
    hfallback 0 _ [⟨[.token "-"], false⟩, ⟨[], true⟩] 1 _ hreach rfl rfl rfl⟩

end PredictiveParsing
