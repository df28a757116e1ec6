import PredictiveParsing.Proofs.Expression.Skipping
import PredictiveParsing.Proofs.Expression.Tree
import PredictiveParsing.Proofs.Grammar.Predicting

/-!
# FIRST sets predict runs

In front of a token that its FIRST set does not accept, a parser consumes nothing. It rejects the
token or, if its FIRST set says that it can be empty, it may succeed with a result of no extent.
`Still` states this of a run whose actions may be at fault, and each combinator is still if the parts
are that its FIRST set is made of. Only these parts are run, so that no rule is met twice, and the
depth that a parser is run with is enough (`runWithin_still`). `Idle` is the case without faults.
-/

namespace PredictiveParsing

open ParseM

variable {V : Type}

/-- The run stands where the tokenizer is `t`, with a journal to be trusted below `p`. -/
structure StandsAt (g : Grammar V) (p : Parser V) (t : Tokenizer) (c : Context) : Prop where
  tokenizer : c.tokenizer = t
  journal : c.journal.Faithful g p

/-- The run has been rejected where it stands. -/
def RejectedAt (g : Grammar V) (p : Parser V) (t : Tokenizer) (e : Failure) (c : Context) : Prop :=
  StandsAt g p t c ∧ ∃ error, e = .rejected error

/-- The run consumes nothing: it is rejected or, if it can be empty, has a result of no extent. -/
def Idle (g : Grammar V) (p : Parser V) (t : Tokenizer) (x : ParseM (Result V)) (nullable : Bool) :
    Prop :=
  ∀ c, StandsAt g p t c →
    x.Ends c (fun r d => StandsAt g p t d ∧ r.span = .empty t.position ∧ nullable = true)
      (RejectedAt g p t)

/-- The run has been rejected where it stands or, if actions are `faulty`, been at fault there. -/
def HaltedAt (g : Grammar V) (p : Parser V) (faulty : Prop) (t : Tokenizer) (e : Failure)
    (c : Context) : Prop :=
  StandsAt g p t c ∧ ((∃ error, e = .rejected error) ∨ faulty ∧ ∃ fault, e = .fault fault)

/-- The run consumes nothing, like an idle one, but it may be at fault if actions are `faulty`. -/
def Still (g : Grammar V) (p : Parser V) (faulty : Prop) (t : Tokenizer) (x : ParseM (Result V))
    (nullable : Bool) : Prop :=
  ∀ c, StandsAt g p t c →
    x.Ends c (fun r d => StandsAt g p t d ∧ r.span = .empty t.position ∧ nullable = true)
      (HaltedAt g p faulty t)

section

variable {g : Grammar V} {p : Parser V} {faulty : Prop} {t : Tokenizer} {token : Token}
  {c : Context}

theorem StandsAt.note (h : StandsAt g p t c) (e : Event) : StandsAt g p t (noted c e) :=
  ⟨h.tokenizer, h.journal.note e⟩

theorem StandsAt.peek (h : StandsAt g p t c) (hpeek : t.peek = .ok token) :
    c.tokenizer.peek = .ok token := by
  rw [h.tokenizer, hpeek]

/-! ## Tokens -/

/-- Where another token comes next, a token is not found. -/
theorem still_expectToken (hpeek : t.peek = .ok token) {type : TokenType}
    (h : token.is type = false) (nullable : Bool) : Still g p faulty t (expectToken type) nullable := by
  intro c hc
  refine .bind (.peek (hc.peek hpeek) ?_)
  rw [h]
  exact .unexpected fun _ => ⟨hc, .inl ⟨_, rfl⟩⟩

/-- In front of a token, the input is not at its end. -/
theorem still_expectEnd (hpeek : t.peek = .ok token) (h : token.isEndOfInput = false)
    (nullable : Bool) : Still g p faulty t expectEnd nullable := by
  intro c hc
  refine .bind (.peek (hc.peek hpeek) ?_)
  rw [h]
  exact .unexpected fun _ => ⟨hc, .inl ⟨_, rfl⟩⟩

/-! ## Sequences -/

theorem cover_empty (q : Position) : Span.cover (.empty q) (.empty q) = .ok (.empty q) :=
  Span.between_eq_ok.2 ⟨Nat.le_refl _, rfl⟩

/-- Regions of no extent cover one of no extent. -/
theorem extend_empty {covered : Option Span} {q : Position} (h : ∀ s ∈ covered, s = .empty q) :
    extend covered (.empty q) c = (.ok (.empty q), c) := by
  cases covered with
  | none => rfl
  | some s =>
    rw [h s rfl]
    exact trust_apply (cover_empty q) c

/-- The members of a sequence consume nothing if each consumes nothing that is run, up to the first
that cannot be empty. -/
theorem members_still {rule : String → Except GrammarError FirstSet}
    {run : Parser V → ParseM (Result V)} {parts : List (Member (Parser V))} {f : FirstSet}
    (hf : Parser.membersFirst rule parts = .ok f) (ha : f.accepts token = false)
    (hrun : ∀ m ∈ parts, ∀ f₁, m.parser.first rule = .ok f₁ → f₁.accepts token = false →
      Still g p faulty t (run m.parser) f₁.nullable)
    {covered : Option Span} (hcovered : ∀ s ∈ covered, s = .empty t.position)
    (hc : StandsAt g p t c) :
    (members run parts covered).Ends c
      (fun r d => StandsAt g p t d ∧ (∀ s ∈ r.2, s = .empty t.position) ∧ f.nullable = true)
      (HaltedAt g p faulty t) := by
  induction parts generalizing f covered c with
  | nil =>
    cases hf
    exact .pure ⟨hc, hcovered, rfl⟩
  | cons m parts ih =>
    obtain ⟨f₁, h₁, hcase⟩ := Parser.membersFirst_cons hf
    have ha₁ : f₁.accepts token = false := by
      rcases hcase with ⟨-, rfl⟩ | ⟨-, f₂, -, rfl⟩
      · exact ha
      · rw [FirstSet.accepts_andThen, Bool.or_eq_false_iff] at ha
        exact ha.1
    refine .bind ((hrun m (.head _) f₁ h₁ ha₁ c hc).mono (fun r d hd => ?_) (fun _ _ he => he))
    obtain ⟨hd, hspan, hnullable⟩ := hd
    rcases hcase with ⟨hnot, -⟩ | ⟨-, f₂, h₂, rfl⟩
    · rw [hnot] at hnullable
      cases hnullable
    · rw [FirstSet.accepts_andThen, Bool.or_eq_false_iff] at ha
      rw [hspan]
      refine .bind (.of_ok (extend_empty hcovered) (.bind ?_))
      have hempty : ∀ s ∈ some (Span.empty t.position), s = .empty t.position := by
        rintro s ⟨⟩
        rfl
      have hrest := ih h₂ ha.2 (fun m' hm' => hrun m' (.tail _ hm')) hempty hd
      refine hrest.mono (fun result e he => ?_) (fun _ _ he => he)
      cases m.mark <;> exact .pure he

/-- A sequence whose members consume nothing consumes nothing. Its action may reject, and it may be
at fault if actions are `faulty`. -/
theorem still_sequence {rule : String → Except GrammarError FirstSet}
    {run : Parser V → ParseM (Result V)} {parts : List (Member (Parser V))} {f : FirstSet}
    {action : Option (TupleAction V)}
    (hf : Parser.membersFirst rule parts = .ok f) (ha : f.accepts token = false)
    (hrun : ∀ m ∈ parts, ∀ f₁, m.parser.first rule = .ok f₁ → f₁.accepts token = false →
      Still g p faulty t (run m.parser) f₁.nullable)
    (haction : ∀ a, action = some a → ∀ elements span fault,
      a elements span = .error (.fault fault) → faulty) :
    Still g p faulty t (sequence run parts action) f.nullable := by
  intro c hc
  refine .bind (.position (.bind ?_))
  have hnone : ∀ s ∈ (none : Option Span), s = .empty t.position := fun _ => nofun
  refine (members_still hf ha hrun hnone hc).mono (fun result d hd => ?_) (fun _ _ he => he)
  obtain ⟨hd, hcovered, hnullable⟩ := hd
  have hspan : result.2.getD (.empty c.tokenizer.position) = .empty t.position := by
    cases hr : result.2 with
    | none => rw [hc.tokenizer]; rfl
    | some s => exact hcovered s hr
  cases action with
  | none => exact .pure ⟨hd, hspan, hnullable⟩
  | some a =>
    refine .bind
      (.perform (fun v _ => .pure ⟨hd, hspan, hnullable⟩) (fun e _ => ?_) (fun x hx => ?_))
    · exact ⟨hd.note _, .inl ⟨e, rfl⟩⟩
    · exact ⟨hd, .inr ⟨haction a rfl _ _ x hx, x, rfl⟩⟩

/-! ## Repetitions -/

/-- The first round of a repetition whose body consumes nothing is the last one: it has a result of
no extent, or none at all. -/
theorem repetitions_still {body : ParseM (Result V)} {nullable : Bool}
    (hbody : Still g p faulty t body nullable) (n : Nat) (hc : StandsAt g p t c) :
    (repetitions body (n + 1)).Ends c
      (fun r d => StandsAt g p t d ∧
        ((∃ result, r = ([result], none) ∧ result.span = .empty t.position ∧ nullable = true) ∨
          ∃ e, r = ([], some e)))
      (HaltedAt g p faulty t) := by
  refine .bind (.position (.bind (.attempt ?_)))
  have hsame {d : Context} (hd : StandsAt g p t d) :
      d.tokenizer.position.offset = c.tokenizer.position.offset := by
    rw [hd.tokenizer, hc.tokenizer]
  refine (hbody c hc).mono (fun r d hd => ?_) (fun e d he => ?_)
  · obtain ⟨hd, hspan, hnullable⟩ := hd
    refine .bind (.position ?_)
    dsimp only
    rw [if_pos (hsame hd)]
    exact .pure ⟨hd, .inl ⟨r, rfl, hspan, hnullable⟩⟩
  · obtain ⟨hd, ⟨error, rfl⟩ | ⟨hfaulty, fault, rfl⟩⟩ := he
    · refine .bind (.position ?_)
      dsimp only
      rw [if_pos (hsame hd)]
      exact .pure ⟨hd, .inr ⟨error, rfl⟩⟩
    · exact ⟨hd, .inr ⟨hfaulty, fault, rfl⟩⟩

/-- A repetition whose body consumes nothing consumes nothing, and can be empty if its body can or
if no round is asked for. -/
theorem still_repetition {body : ParseM (Result V)} {nullable : Bool}
    (hbody : Still g p faulty t body nullable) (minimum : Nat) :
    Still g p faulty t (repetition body minimum) (nullable || minimum == 0) := by
  intro c hc
  refine .bind (.position (.bind (.unread (.bind ?_))))
  refine (repetitions_still hbody _ hc).mono (fun r d hd => ?_) (fun _ _ he => he)
  obtain ⟨hd, ⟨result, rfl, hspan, hnullable⟩ | ⟨e, rfl⟩⟩ := hd
  · refine .bind (.note ?_)
    have hd' := hd.note (.repeated 1 minimum)
    by_cases hfew : [result].length < minimum
    · rw [if_pos hfew]
      exact .bind (.position (.reject ⟨hd', .inl ⟨_, rfl⟩⟩))
    · rw [if_neg hfew]
      have hcover : coverAll c.tokenizer.position [result] = .ok (.empty t.position) := by
        show Span.cover result.span result.span = _
        rw [hspan]
        exact cover_empty _
      refine .bind (.trust hcover (.pure ⟨hd', rfl, ?_⟩))
      rw [hnullable, Bool.true_or]
  · refine .bind (.note ?_)
    have hd' := hd.note (.repeated 0 minimum)
    by_cases hfew : ([] : List (Result V)).length < minimum
    · rw [if_pos hfew]
      exact .reject ⟨hd', .inl ⟨_, rfl⟩⟩
    · rw [if_neg hfew]
      refine .bind (.trust rfl (.pure ⟨hd', ?_, ?_⟩))
      · show Span.empty c.tokenizer.position = _
        rw [hc.tokenizer]
      · rw [Nat.eq_zero_of_not_pos hfew, beq_self_eq_true, Bool.or_true]

/-! ## Choices -/

/-- A choice none of whose alternatives accepts the token consumes nothing: it runs an alternative
that can be empty, if there is one. -/
theorem still_choice {run : Parser V → ParseM (Result V)} {slot : Nat}
    {alternatives : List (Parser V)} {firsts : List FirstSet} (hpeek : t.peek = .ok token)
    (hreach : g.Reaches p (.choice slot alternatives))
    (hfirsts : alternatives.mapM g.first = .ok firsts)
    (ha : (firsts.any fun f => f.accepts token) = false)
    (hrun : ∀ q f, (q, f) ∈ alternatives.zip firsts → Still g p faulty t (run q) f.nullable) :
    Still g p faulty t (chooseAlternative g run slot alternatives) (firsts.any FirstSet.nullable) := by
  intro c hc
  obtain ⟨j, hj, hcases⟩ :=
    chooseAlternative_cases run (hc.peek hpeek) hc.journal hreach hfirsts
  have hstands : StandsAt g p t ⟨c.tokenizer, j⟩ := ⟨hc.tokenizer, hj⟩
  rcases hcases with ⟨q, f, hmem, hf, -⟩ | ⟨-, ⟨q, f, hmem, hf, hrun'⟩ | ⟨-, hreject⟩⟩
  · have := List.any_eq_false.1 ha f (List.of_mem_zip hmem).2
    exact absurd hf this
  · have hany : firsts.any FirstSet.nullable = true :=
      List.any_eq_true.2 ⟨f, (List.of_mem_zip hmem).2, hf⟩
    rw [hany]
    have hidle := hrun q f hmem _ hstands
    rw [hf] at hidle
    exact .of_eq hrun' hidle
  · exact .of_error hreject ⟨hstands, .inl ⟨_, rfl⟩⟩

/-! ## Expressions -/

/-- A token that is no leading type of a table is not skipped by it. -/
theorem skips_of_leadingTypes {o : Operators V (Parser V)}
    (h : token.kind = .ordinary → o.leadingTypes.contains token.type = false) :
    o.skips token = false := by
  unfold Operators.skips
  by_cases hk : token.kind = .ordinary
  · have hleading := h hk
    unfold Operators.leadingTypes at hleading
    rw [List.contains_append, Bool.or_eq_false_iff] at hleading
    rw [hleading.2, Bool.and_false]
  · rw [decide_eq_false hk, Bool.false_and]

/-- A token that is no leading type of a table begins no operand of it. -/
theorem operand_of_leadingTypes {o : Operators V (Parser V)}
    (h : token.kind = .ordinary → o.leadingTypes.contains token.type = false)
    (run : Parser V → ParseM (Result V)) (inner : Nat → ParseM (Result V)) :
    o.operand run inner token = unexpected "an expression" token := by
  unfold Operators.operand
  cases hrole : o.roleOf? token with
  | none => rfl
  | some role =>
    obtain ⟨hk, hrole⟩ := Operators.role?_of_roleOf? hrole
    have hleading := h hk
    unfold Operators.leadingTypes at hleading
    rw [List.contains_append, Bool.or_eq_false_iff] at hleading
    have hstart : ¬ role.startsOperand = true := by
      intro hstart
      have hmem : (token.type, role) ∈ o.roles.filter fun entry => entry.2.startsOperand :=
        List.mem_filter.2 ⟨Operators.mem_of_role? hrole, hstart⟩
      exact Bool.eq_false_iff.1 hleading.1 (List.contains_iff_mem.2 (List.mem_map_of_mem hmem))
    cases role with
    | infixOp => rfl
    | atom | prefixOp | mixfix | bracket | embed => exact absurd rfl hstart

/-- In front of a token that is no leading type of a table there is no expression. -/
theorem still_expression {o : Operators V (Parser V)} (run : Parser V → ParseM (Result V))
    (hpeek : t.peek = .ok token)
    (h : token.kind = .ordinary → o.leadingTypes.contains token.type = false) (nullable : Bool) :
    Still g p faulty t (o.expression run) nullable := by
  intro c hc
  have hface : o.Faces c.tokenizer token := ⟨hc.peek hpeek, skips_of_leadingTypes h⟩
  refine .bind (.unread (.bind (.of_ok (Operators.current_of_faces hface) (.bind ?_))))
  rw [operand_of_leadingTypes h]
  exact .unexpected fun _ => ⟨hc, .inl ⟨_, rfl⟩⟩

/-! ## Parsers -/

/-- Run deep enough for the rules that are not active, a parser consumes nothing in front of a token
that its FIRST set does not accept. The FIRST set is the one computed while the others are active,
which need not be visited again. -/
theorem runWithin_still (hpeek : t.peek = .ok token)
    (hactions : faulty ∨ g.Faultless p)
    {depth n : Nat} {active : List String} {q : Parser V} {f : FirstSet}
    (hreach : g.Reaches p q) (hn : n ≤ g.rules.length + 1)
    (hf : q.first (g.firstOfRule n active) = .ok f) (ha : f.accepts token = false)
    (hdepth : q.size + g.sizeWithout active ≤ depth) :
    Still g p faulty t (Parser.runWithin g depth q) f.nullable := by
  induction depth generalizing n active q f with
  | zero => 
    have := q.size_pos
    omega
  | succ depth ih =>
    have part {q' : Parser V} {f' : FirstSet} (hpart : Parser.Child q' q)
        (hf' : q'.first (g.firstOfRule n active) = .ok f') (ha' : f'.accepts token = false) :
        Still g p faulty t (Parser.runWithin g depth q') f'.nullable := by
      have := hpart.size_lt
      exact ih (hreach.child hpart) hn hf' ha' (by omega)
    cases q with
    | token type =>
      cases hf
      rw [FirstSet.accepts_single_token] at ha
      exact still_expectToken hpeek ha _
    | endOfInput =>
      cases hf
      rw [FirstSet.accepts_single_endOfInput] at ha
      exact still_expectEnd hpeek ha _
    | tuple members action =>
      refine still_sequence hf ha (fun m hm f₁ h₁ ha₁ => part (.member hm) h₁ ha₁) ?_
      rintro a rfl elements span fault hfault
      rcases hactions with hfaulty | hactions
      · exact hfaulty
      · exact absurd hfault (hactions members a hreach elements span fault)
    | choice slot alternatives =>
      obtain ⟨firsts, hfirsts, haccepts, hnullable⟩ := Parser.alternativesFirst_eq_ok hf
      have hmapM : alternatives.mapM g.first = .ok firsts :=
        mapM_mono (fun _ _ h => Grammar.first_of_firstOfRule hn h) hfirsts
      have hnone : (firsts.any fun f' => f'.accepts token) = false := by rw [← haccepts, ha]
      rw [hnullable]
      refine still_choice hpeek hreach hmapM hnone fun q' f' hmem => ?_
      have ⟨hq', hf'⟩ := List.of_mem_zip hmem
      refine part (.alternative hq') (of_mem_zip_mapM hfirsts hmem) ?_
      exact Bool.eq_false_iff.2 (List.any_eq_false.1 hnone f' hf')
    | many body minimum =>
      obtain ⟨f₁, h₁, haccepts, hnullable⟩ := Parser.first_many hf
      rw [hnullable]
      exact still_repetition (part .repeated h₁ (by rw [← haccepts, ha])) minimum
    | embed body => exact part .embedded hf ha
    | expr o =>
      refine still_expression _ hpeek (fun hk => ?_) _
      rw [← Parser.accepts_of_first_expr hf hk, ha]
    | ref name =>
      obtain ⟨m, r, rfl, hname, hr, hfr⟩ := Grammar.firstOfRule_eq_ok hf
      have hsize := Grammar.sizeWithout_cons hr hname
      have hresolve : g.resolve name = .ok r := by rw [Grammar.resolve, hr]
      intro c hc
      refine .bind (.trust hresolve ?_)
      have := (Parser.ref name : Parser V).size_pos
      exact ih (hreach.rule hr) (Nat.le_of_succ_le hn) hfr ha (by omega) c hc

/-- Where actions are at no fault, a parser is idle in front of a token that its FIRST set does not
accept. -/
theorem runWithin_idle (hpeek : t.peek = .ok token) (hactions : g.Faultless p) {depth n : Nat}
    {active : List String} {q : Parser V} {f : FirstSet} (hreach : g.Reaches p q)
    (hn : n ≤ g.rules.length + 1) (hf : q.first (g.firstOfRule n active) = .ok f)
    (ha : f.accepts token = false) (hdepth : q.size + g.sizeWithout active ≤ depth) :
    Idle g p t (Parser.runWithin g depth q) f.nullable := by
  have hstill : Still g p False t (Parser.runWithin g depth q) f.nullable :=
    runWithin_still hpeek (.inr hactions) hreach hn hf ha hdepth
  intro c hc
  refine (hstill c hc).mono (fun _ _ hd => hd) fun e d he => ?_
  rcases he with ⟨hd, herror | ⟨hfaulty, -⟩⟩
  · exact ⟨hd, herror⟩
  · exact hfaulty.elim

/-- A FIRST set predicts what its parser does. In front of a token that it does not accept, the run
ends, at no fault and with the cursor where it was, and with an error unless the parser can be
empty. So a run that succeeds has begun with a token that the FIRST set accepts, or else has
consumed nothing and the parser can be empty. -/
theorem Parser.run_of_first {f : FirstSet} (hf : g.first p = .ok f) (hactions : g.Faultless p)
    (hj : c.journal.Faithful g p) (hpeek : c.tokenizer.peek = .ok token) :
    (f.accepts token = false → ∃ outcome journal, p.run g c = (outcome, ⟨c.tokenizer, journal⟩) ∧
      ((∃ e, outcome = .error (.rejected e)) ∨ ∃ r, outcome = .ok r ∧ f.nullable = true)) ∧
    ∀ r c', p.run g c = (.ok r, c') →
      f.accepts token = true ∨ c'.tokenizer = c.tokenizer ∧ f.nullable = true := by
  have hidle (ha : f.accepts token = false) : (p.run g).Ends c
      (fun r d => StandsAt g p c.tokenizer d ∧ r.span = .empty c.tokenizer.position ∧
        f.nullable = true) (RejectedAt g p c.tokenizer) := by
    refine .bind (.unread ?_)
    refine runWithin_idle hpeek hactions .refl (Nat.le_refl _) hf ha ?_ c ⟨rfl, hj⟩
    rw [Grammar.sizeWithout_nil]
    exact Nat.le_trans (Nat.le_succ _) (Nat.le_mul_of_pos_left _ (Nat.succ_pos _))
  refine ⟨fun ha => ?_, fun r c' hrun => ?_⟩
  · rcases (hidle ha).cases with ⟨r, d, hrun, hd, -, hnullable⟩ | ⟨e, d, hrun, hd, error, rfl⟩
    · exact ⟨_, d.journal, by rw [hrun, ← hd.tokenizer], .inr ⟨r, rfl, hnullable⟩⟩
    · exact ⟨_, d.journal, by rw [hrun, ← hd.tokenizer], .inl ⟨error, rfl⟩⟩
  · cases ha : f.accepts token with
    | true => exact .inl rfl
    | false =>
      obtain ⟨hd, -, hnullable⟩ := (hidle ha).result hrun
      exact .inr ⟨hd.tokenizer, hnullable⟩

/-- A parser that succeeds and has consumed something has begun with a token that its FIRST set
accepts, whatever its actions are. -/
theorem Parser.accepts_of_run {f : FirstSet} {r : Result V} {d : Context} (hf : g.first p = .ok f)
    (hj : c.journal.Faithful g p) (hpeek : c.tokenizer.peek = .ok token)
    (hrun : p.run g c = (.ok r, d)) (hmoved : d.tokenizer ≠ c.tokenizer) :
    f.accepts token = true := by
  refine Bool.of_not_eq_false fun ha => ?_
  have hdepth : p.size + g.sizeWithout [] ≤ p.depthFor g c.tokenizer.cursor.rest.length := by
    rw [Grammar.sizeWithout_nil]
    exact Nat.le_trans (Nat.le_succ _) (Nat.le_mul_of_pos_left _ (Nat.succ_pos _))
  have hstill : Still g p True c.tokenizer (p.run g) f.nullable := by
    intro c' hc'
    refine .bind (.unread ?_)
    rw [hc'.tokenizer]
    exact runWithin_still hpeek (.inl trivial) .refl (Nat.le_refl _) hf ha hdepth c' hc'
  exact hmoved ((hstill c ⟨rfl, hj⟩).result hrun).1.tokenizer

end

/-- The grammar of an optional sign. -/
def optionalSign : Grammar Unit :=
  ⟨[("sign", .choice 0 [.token "-", .tuple [] none])], some (.ref "sign"), 1⟩

/-- Signs and digits in front of a digit. -/
def unsignedDigit : Tokenizer :=
  ⟨[("-", .exactChar '-'), ("digit", .interval '0' '9')], .ofInput ['7']⟩

theorem optionalSign_faultless : optionalSign.Faultless (.ref "sign") := by
  have parts_eq : (Parser.ref "sign").parts ++ optionalSign.parts =
      [.ref "sign", .choice 0 [.token "-", .tuple [] none], .token "-", .tuple [] none] := rfl
  intro members action h
  have hpart := h.mem_parts
  rw [parts_eq] at hpart
  simp at hpart

/-- In front of a digit, an optional sign is absent and nothing is consumed. -/
theorem optionalSign_run_of_first :
    ∃ outcome journal, (Parser.ref "sign").run optionalSign ⟨unsignedDigit, .forgetful⟩ =
        (outcome, ⟨unsignedDigit, journal⟩) ∧
      ((∃ e, outcome = .error (.rejected e)) ∨ ∃ r, outcome = .ok r ∧ true = true) := by
  have hf : optionalSign.first (.ref "sign") = .ok ⟨[.token "-"], true⟩ := rfl
  have hpeek : unsignedDigit.peek =
      .ok (.ordinary "digit" ⟨['7'], 0⟩ ⟨⟨1, 1, 0⟩, ⟨1, 2, 1⟩⟩) := rfl
  exact (Parser.run_of_first hf optionalSign_faultless .forgetful hpeek).1 rfl

end PredictiveParsing
