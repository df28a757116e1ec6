import PredictiveParsing.Proofs.Expression.Halting
import PredictiveParsing.Proofs.Grammar.Depth

/-!
# Grammars that terminate

In front of one token, the rules that are run are those of which the FIRST set is made, and no rule
is met twice as long as nothing is consumed. So a valid grammar terminates, provided that FIRST sets
are right about what can be empty (`Grammar.terminates`).

There are two things that FIRST sets do not tell. The end of the input is never consumed, although
it does not count as empty, and a table never counts as empty, although an embedded parser may read
an operand that is. `Grammar.MovesOn` is the condition that nothing depends on this: what can begin
with the end of the input and is not empty comes last, and embedded parsers cannot be empty.
Without it validation accepts grammars that do not terminate (`endless_exhausted`).
-/

namespace PredictiveParsing

open ParseM

variable {V : Type}

/-- What stands in a sequence before others can begin with the end of the input only if it can be
empty, and the parsers embedded in tables cannot be empty. -/
structure Grammar.MovesOn (g : Grammar V) (p : Parser V) : Prop where
  sequences : ∀ members action, g.Reaches p (.tuple members action) → ∀ m ∈ members.dropLast,
    ∀ f, g.first m.parser = .ok f → .endOfInput ∈ f.tokens → f.nullable = true
  tables : ∀ o, g.Reaches p (.expr o) → ∀ key q, (key, Role.embed q) ∈ o.roles →
    ∀ f, g.first q = .ok f → f.nullable = false

/-- True if the combinator moves on by the FIRST sets of its parts. -/
def Parser.movesOn (g : Grammar V) : Parser V → Bool
  | tuple members _ => members.dropLast.all fun m =>
    (g.first m.parser).toOption.all fun f => f.nullable || !f.tokens.contains .endOfInput
  | expr o => o.roles.all fun entry =>
    match entry.2 with
    | .embed q => (g.first q).toOption.all fun f => !f.nullable
    | _ => true
  | _ => true

/-- A grammar moves on below `p` if all parts of `p` and of the rules do. -/
theorem Grammar.MovesOn.of_parts {g : Grammar V} {p : Parser V}
    (h : (p.parts ++ g.parts).all (Parser.movesOn g) = true) : g.MovesOn p := by
  refine ⟨fun members action hq m hm f hf hend => ?_, fun o hq key q hmem f hf => ?_⟩
  · have hmoves := List.all_eq_true.1 h _ hq.mem_parts
    have hmember := List.all_eq_true.1 hmoves m hm
    rw [hf] at hmember
    simpa [Except.toOption, hend] using hmember
  · have hmoves := List.all_eq_true.1 h _ hq.mem_parts
    have hrole := List.all_eq_true.1 hmoves _ hmem
    dsimp only at hrole
    rw [hf] at hrole
    simpa [Except.toOption] using hrole

/-- A parser with the FIRST set may succeed and leave the tokenizer as it is: it can be empty, or
accepts the end of the input. -/
def FirstSet.MayStay (f : FirstSet) (t : Tokenizer) : Prop :=
  f.nullable = true ∨
    ∃ token, t.peek = .ok token ∧ token.isEndOfInput = true ∧ f.accepts token = true

section

variable {g : Grammar V} {p q : Parser V} {c : Context} {t : Tokenizer} {f : FirstSet}
  {rule : String → Except GrammarError FirstSet}

/-! ## FIRST sets of what consumes nothing -/

/-- What accepts a token at the end of the input can begin with the end of the input. -/
theorem FirstSet.endOfInput_mem {token : Token} (hend : token.isEndOfInput = true)
    (h : f.accepts token = true) : .endOfInput ∈ f.tokens := by
  obtain ⟨l, hl, hmem⟩ := (accepts_eq f token).1 h
  have hk : token.kind = .endOfInput := by simpa [Token.isEndOfInput] using hend
  rw [Lookahead.ofToken?, hk] at hl
  cases hl
  exact hmem

/-- A sequence may stay if all its members may. -/
theorem mayStay_of_members {members : List (Member (Parser V))}
    (hf : Parser.membersFirst rule members = .ok f)
    (h : ∀ m ∈ members, ∃ f₁, m.parser.first rule = .ok f₁ ∧ f₁.MayStay t) : f.MayStay t := by
  induction members generalizing f with
  | nil =>
    cases hf
    exact .inl rfl
  | cons m members ih =>
    obtain ⟨f₁, h₁, hstay⟩ := h m (.head _)
    obtain ⟨f', h', hcase⟩ := Parser.membersFirst_cons hf
    cases h₁.symm.trans h'
    rcases hcase with ⟨-, rfl⟩ | ⟨-, f₂, h₂, rfl⟩
    · exact hstay
    · rcases ih h₂ fun m' hm' => h m' (.tail _ hm') with hnullable | ⟨token, hpeek, hend, ha⟩
      · exact .inl hnullable
      · exact .inr ⟨token, hpeek, hend, by rw [FirstSet.accepts_andThen, ha, Bool.or_true]⟩

/-! ## FIRST sets of what has been checked -/

mutual

/-- Where everything that is reached has been checked, it has FIRST sets. -/
theorem exists_first_of_checked (hchecked : ∀ q, g.Reaches p q → g.Checked q) (q : Parser V)
    (hq : g.Reaches p q) : ∃ f, g.first q = .ok f := by
  cases q with
  | token type => exact ⟨_, rfl⟩
  | endOfInput => exact ⟨_, rfl⟩
  | tuple members action =>
    exact exists_membersFirst_of_checked hchecked members fun m hm => hq.child (.member hm)
  | choice slot alternatives =>
    exact exists_alternativesFirst_of_checked hchecked alternatives
      fun r hr => hq.child (.alternative hr)
  | many body minimum =>
    obtain ⟨f, hf⟩ := exists_first_of_checked hchecked body (hq.child .repeated)
    exact exists_bind_ok hf ⟨_, rfl⟩
  | embed body => exact exists_first_of_checked hchecked body (hq.child .embedded)
  | expr o =>
    refine ⟨_, Parser.first_expr_eq_ok_iff.2 ⟨fun key r hr => ?_, rfl⟩⟩
    obtain ⟨rule, hcheck⟩ := hchecked _ hq key r hr
    obtain ⟨f, hf, -⟩ := bind_eq_ok hcheck
    exact ⟨f, hf⟩
  | ref name => exact hchecked _ hq

theorem exists_membersFirst_of_checked (hchecked : ∀ q, g.Reaches p q → g.Checked q)
    (members : List (Member (Parser V))) (hmembers : ∀ m ∈ members, g.Reaches p m.parser) :
    ∃ f, Parser.membersFirst g.ruleFirst members = .ok f := by
  cases members with
  | nil => exact ⟨_, rfl⟩
  | cons m members =>
    obtain ⟨f₁, h₁⟩ := exists_first_of_checked hchecked m.parser (hmembers m (.head _))
    obtain ⟨f₂, h₂⟩ := exists_membersFirst_of_checked hchecked members
      fun m' hm' => hmembers m' (.tail _ hm')
    refine exists_bind_ok h₁ ?_
    cases hn : f₁.nullable with
    | false => exact ⟨f₁, by rw [if_neg (by nofun)]; rfl⟩
    | true => exact exists_bind_ok h₂ ⟨_, rfl⟩

theorem exists_alternativesFirst_of_checked (hchecked : ∀ q, g.Reaches p q → g.Checked q)
    (alternatives : List (Parser V)) (halternatives : ∀ q ∈ alternatives, g.Reaches p q) :
    ∃ f, Parser.alternativesFirst g.ruleFirst alternatives = .ok f := by
  cases alternatives with
  | nil => exact ⟨_, rfl⟩
  | cons q alternatives =>
    obtain ⟨f₁, h₁⟩ := exists_first_of_checked hchecked q (halternatives q (.head _))
    obtain ⟨f₂, h₂⟩ := exists_alternativesFirst_of_checked hchecked alternatives
      fun r hr => halternatives r (.tail _ hr)
    exact exists_bind_ok h₁ (exists_bind_ok h₂ ⟨_, rfl⟩)

end

/-! ## Parsers that halt -/

/-- Whatever stands below `q` halts where `q` is run from `c`: its parts in front of the same token,
and anything that `p` reaches behind a token that has been consumed. -/
structure HaltsBelow (g : Grammar V) (p q : Parser V)
    (rule : String → Except GrammarError FirstSet) (c : Context)
    (run : Parser V → ParseM (Result V)) : Prop where
  here : ∀ {r f d}, Parser.Child r q → r.first rule = .ok f → d.tokenizer = c.tokenizer →
    d.journal.Faithful g p → HaltsAt g p (f.MayStay d.tokenizer) (run r) d
  ahead : ∀ {r d}, g.Reaches p r → Past g p c d → d.tokenizer ≠ c.tokenizer → ∀ idle : Prop,
    HaltsAt g p (d.tokenizer = c.tokenizer → idle) (run r) d

namespace HaltsBelow

variable {run : Parser V → ParseM (Result V)} {d : Context}

/-- A part halts wherever `q` runs it. -/
theorem part {r : Parser V} (h : HaltsBelow g p q rule c run) (hq : g.Reaches p q)
    (hr : Parser.Child r q) (hf : r.first rule = .ok f) (hd : Past g p c d) :
    HaltsAt g p (d.tokenizer = c.tokenizer → f.MayStay c.tokenizer) (run r) d := by
  by_cases hsame : d.tokenizer = c.tokenizer
  · exact (h.here hr hf hsame hd.journal).imp fun hstay _ => hsame ▸ hstay
  · exact h.ahead (hq.child hr) hd hsame _

/-- A sequence halts, because members that have consumed nothing can be empty, so that what comes
behind them belongs to the FIRST set of the sequence. -/
theorem tuple {members : List (Member (Parser V))} {action : Option (TupleAction V)}
    (h : HaltsBelow g p (.tuple members action) rule c run) (hmoves : g.MovesOn p)
    (hrule : ∀ {r f}, r.first rule = .ok f → g.first r = .ok f)
    (hq : g.Reaches p (.tuple members action)) (hj : c.journal.Faithful g p)
    (hf : Parser.membersFirst rule members = .ok f) :
    HaltsAt g p (f.MayStay c.tokenizer) (sequence run members action) c := by
  have hsequence : HaltsAt g p
      (∀ m ∈ members, ∃ f₁, m.parser.first rule = .ok f₁ ∧ f₁.MayStay c.tokenizer)
      (sequence run members action) c := by
    refine sequence_halts hj (fun before m after d hparts hd hbefore => ?_) action
    have hm : Parser.Child m.parser (.tuple members action) :=
      .member (hparts ▸ List.mem_append_right _ (.head _))
    by_cases hsame : d.tokenizer = c.tokenizer
    · have hnullable : ∀ m' ∈ before, ∀ f', m'.parser.first rule = .ok f' →
          f'.nullable = true := by
        intro m' hm' f' hf'
        obtain ⟨f'', hf'', hstay⟩ := hbefore hsame m' hm'
        cases hf'.symm.trans hf''
        rcases hstay with hnullable | ⟨last, -, hend, ha⟩
        · exact hnullable
        · refine hmoves.sequences members action hq m' ?_ f' (hrule hf')
            (FirstSet.endOfInput_mem hend ha)
          rw [hparts, List.dropLast_append_cons]
          exact List.mem_append_left _ hm'
      rw [hparts] at hf
      obtain ⟨f₁, h₁⟩ := Parser.membersFirst_of_before hf hnullable
      exact (h.part hq hm h₁ hd).imp fun hstay hsame => ⟨f₁, h₁, hstay hsame⟩
    · exact h.ahead (hq.child hm) hd hsame _
  exact hsequence.imp (mayStay_of_members hf)

theorem choice {slot : Nat} {alternatives : List (Parser V)}
    (h : HaltsBelow g p (.choice slot alternatives) rule c run)
    (hq : g.Reaches p (.choice slot alternatives)) (hj : c.journal.Faithful g p)
    (hf : Parser.alternativesFirst rule alternatives = .ok f) :
    HaltsAt g p (f.MayStay c.tokenizer) (chooseAlternative g run slot alternatives) c := by
  obtain ⟨firsts, hfirsts, haccepts, hnullable⟩ := Parser.alternativesFirst_eq_ok hf
  have hchoice : HaltsAt g p (∃ r ∈ alternatives, ∃ f' ∈ firsts, f'.MayStay c.tokenizer)
      (chooseAlternative g run slot alternatives) c := by
    refine choice_halts hj hq fun r hr d hsame hd => ?_
    obtain ⟨f', hf'⟩ := exists_mapM_iff.1 ⟨firsts, hfirsts⟩ r hr
    refine (h.here (.alternative hr) hf' hsame hd).imp fun hstay => ⟨f', ?_, hsame ▸ hstay⟩
    exact (List.of_mem_zip (mem_zip_mapM hfirsts hr hf')).2
  refine hchoice.imp fun ⟨r, _, f', hf', hstay⟩ => ?_
  rcases hstay with hempty | ⟨last, hpeek, hend, ha⟩
  · exact .inl (hnullable ▸ List.any_eq_true.2 ⟨f', hf', hempty⟩)
  · exact .inr ⟨last, hpeek, hend, haccepts last ▸ List.any_eq_true.2 ⟨f', hf', ha⟩⟩

theorem many {body : Parser V} {minimum : Nat} (h : HaltsBelow g p (.many body minimum) rule c run)
    (hq : g.Reaches p (.many body minimum)) (hj : c.journal.Faithful g p)
    (hf : (Parser.many body minimum).first rule = .ok f) :
    HaltsAt g p (f.MayStay c.tokenizer) (repetition (run body) minimum) c := by
  obtain ⟨f₁, h₁, haccepts, hnullable⟩ := Parser.first_many hf
  refine (repetition_halts hj (fun d hd => h.part hq .repeated h₁ hd) minimum).imp fun hidle => ?_
  rcases hidle with (hempty | ⟨last, hpeek, hend, ha⟩) | rfl
  · exact .inl (by rw [hnullable, hempty, Bool.true_or])
  · exact .inr ⟨last, hpeek, hend, by rw [haccepts, ha]⟩
  · exact .inl (by rw [hnullable, beq_self_eq_true, Bool.or_true])

/-- An expression halts and consumes something, because embedded parsers begin with a token of their
own and cannot be empty. -/
theorem expr {o : Operators V (Parser V)} (h : HaltsBelow g p (.expr o) rule c run)
    (hmoves : g.MovesOn p) (hrule : ∀ {r f}, r.first rule = .ok f → g.first r = .ok f)
    (hq : g.Reaches p (.expr o)) (hj : c.journal.Faithful g p)
    (hf : (Parser.expr o).first rule = .ok f) :
    HaltsAt g p (f.MayStay c.tokenizer) (o.expression run) c := by
  obtain ⟨hroles, -⟩ := Parser.first_expr_eq_ok_iff.1 hf
  refine Operators.expression_halts hj fun key r d hr hd hmore => ?_
  obtain ⟨f', hf'⟩ := hroles key r hr
  refine (h.part hq (.role hr) hf' hd).imp fun hstay hsame => ?_
  rcases hstay hsame with hempty | ⟨last, hpeek, hend, -⟩
  · rw [hmoves.tables o hq key r hr f' (hrule hf')] at hempty
    cases hempty
  · exact absurd ⟨last, hsame ▸ hpeek, hend⟩ hmore

end HaltsBelow

/-- Run deep enough, a parser halts. In front of one token the depth counts the rules that are not
active, which need not be met again; with each token that is consumed they all count again. -/
theorem Parser.runWithin_halts (hmoves : g.MovesOn p)
    (hfirst : ∀ q, g.Reaches p q → ∃ f, g.first q = .ok f) {levels : Nat}
    (hlevels : ∀ q, g.Reaches p q → q.size + g.size ≤ levels) {depth n : Nat}
    {active : List String} (hq : g.Reaches p q) (hn : n ≤ g.rules.length + 1)
    (hf : q.first (g.firstOfRule n active) = .ok f) (hj : c.journal.Faithful g p)
    (hdepth : c.tokenizer.cursor.rest.length * levels + q.size + g.sizeWithout active ≤ depth) :
    HaltsAt g p (f.MayStay c.tokenizer) (q.runWithin g depth) c := by
  induction depth generalizing n active q f c with
  | zero =>
    have := q.size_pos
    omega
  | succ depth ih =>
    have hpos := q.size_pos
    have hrule {r : Parser V} {f' : FirstSet} (hf' : r.first (g.firstOfRule n active) = .ok f') :
        g.first r = .ok f' := Grammar.first_of_firstOfRule hn hf'
    have hbelow : HaltsBelow g p q (g.firstOfRule n active) c (runWithin g depth) := by
      refine ⟨fun {r f' d} hpart hf' hsame hd => ?_, fun {r d} hr hd hmoved idle => ?_⟩
      · have hlt := hpart.size_lt
        refine ih (hq.child hpart) hn hf' hd ?_
        rw [hsame]
        omega
      · obtain ⟨f', hf'⟩ := hfirst r hr
        have hlt := hd.eq_or_lt.resolve_left hmoved
        have hmul := Nat.mul_le_mul_right levels (Nat.succ_le_of_lt hlt)
        rw [Nat.succ_mul] at hmul
        have hsize := hlevels r hr
        refine (ih hr (Nat.le_refl _) hf' hd.journal ?_).imp fun _ hsame => absurd hsame hmoved
        rw [Grammar.sizeWithout_nil]
        omega
    rw [runWithin_succ]
    cases q with
    | token type => exact (expectToken_halts hj type).imp False.elim
    | endOfInput =>
      cases hf
      refine (expectEnd_halts hj).imp fun ⟨last, hpeek, hend⟩ => .inr ⟨last, hpeek, hend, ?_⟩
      rw [FirstSet.accepts_single_endOfInput, hend]
    | tuple members action => exact hbelow.tuple hmoves hrule hq hj hf
    | choice slot alternatives => exact hbelow.choice hq hj hf
    | many body minimum => exact hbelow.many hq hj hf
    | embed body => exact hbelow.here .embedded hf rfl hj
    | expr o => exact hbelow.expr hmoves hrule hq hj hf
    | ref name =>
      obtain ⟨m, r, rfl, hname, hr, hfr⟩ := Grammar.firstOfRule_eq_ok hf
      have hsize := Grammar.sizeWithout_cons hr hname
      have hresolve : g.resolve name = .ok r := by rw [Grammar.resolve, hr]
      exact .bind (.trust hresolve (ih (hq.rule hr) (Nat.le_of_succ_le hn) hfr hj (by omega)))

/-- Nothing that is reached is larger than the parser and the rules. -/
theorem Grammar.Reaches.size_le (h : g.Reaches p q) : q.size ≤ p.size + g.size := by
  induction h with
  | refl => exact Nat.le_add_right _ _
  | child _ part ih => exact Nat.le_trans (Nat.le_of_lt part.size_lt) ih
  | rule _ registered _ =>
    have hle := Grammar.sizeWithout_cons registered List.not_mem_nil
    rw [Grammar.sizeWithout_nil] at hle
    omega

/-- Where everything below a parser has been checked and moves on, there is a depth that is enough
to run it. -/
theorem Parser.exists_answers (hchecked : ∀ q, g.Reaches p q → g.Checked q) (hmoves : g.MovesOn p)
    (hj : c.journal.Faithful g p) : ∃ depth, (p.runWithin g depth).Answers c := by
  have hfirst (q : Parser V) (hq : g.Reaches p q) := exists_first_of_checked hchecked q hq
  obtain ⟨f, hf⟩ := hfirst p .refl
  have hlevels (q : Parser V) (hq : g.Reaches p q) : q.size + g.size ≤ p.size + g.size + g.size :=
    Nat.add_le_add_right hq.size_le _
  exact ⟨_, Ends.ne_error
    (runWithin_halts hmoves hfirst hlevels .refl (Nat.le_refl _) hf hj (Nat.le_refl _))
    fun _ he => he⟩

/-- If there is a depth that is enough, then a parser is not run for want of depth. -/
theorem Parser.run_answers (hj : c.journal.Faithful g p) {depth : Nat}
    (h : (p.runWithin g depth).Answers c) : (p.run g).Answers c := by
  obtain ⟨outcome, c', d', hc, hd, -⟩ := run_of_runWithin ⟨rfl, .refl _, hj, hj⟩ h
  unfold Answers at h ⊢
  rw [hd]
  rwa [hc] at h

/-- Where everything below the entry has been checked and moves on, parsing does not end for want of
depth. -/
theorem Grammar.parse_answers {entry : Parser V} (hentry : g.entry? = some entry)
    (hchecked : ∀ q, g.Reaches entry q → g.Checked q) (hmoves : g.MovesOn entry)
    (hj : c.journal.Faithful g entry) : g.parse.Answers c := by
  have hentered : (entered entry c).journal.Faithful g entry := (hj.forget _).note _
  obtain ⟨depth, hdepth⟩ := Parser.exists_answers (c := entered entry c) hchecked hmoves hentered
  have hparse : g.parse.Ends c (fun _ _ => True) fun e _ => e ≠ .exhausted :=
    parse_ends hentry (Parser.run_answers hentered hdepth).ends (fun _ _ _ => trivial) fun _ _ _ =>
      nofun
  exact Ends.ne_error hparse fun _ he => he rfl

/-- A valid grammar terminates if its sequences and tables move on. From every context there is a
depth that is enough for the entry, and parsing does not end for want of depth. -/
theorem Grammar.terminates (hvalid : g.validate = .ok ())
    (hmoves : ∀ entry, g.entry? = some entry → g.MovesOn entry)
    (hj : ∀ entry, g.entry? = some entry → c.journal.Faithful g entry) :
    ∃ entry, g.entry? = some entry ∧
      (∃ depth, (entry.runWithin g depth c).1 ≠ .error .exhausted) ∧
      (g.parse c).1 ≠ .error .exhausted := by
  obtain ⟨entry, hentry, hchecked⟩ := checked_of_validate hvalid
  have hfaithful := hj entry hentry
  exact ⟨entry, hentry, Parser.exists_answers hchecked (hmoves entry hentry) hfaithful,
    parse_answers hentry hchecked (hmoves entry hentry) hfaithful⟩

end

/-- The grammar of lists of digits. -/
def digitList : Grammar Unit :=
  ⟨[("digits", .choice 0 [.tuple [.element (.token "digit"), .element (.ref "digits")] none,
    .tuple [] none])], none, 1⟩

theorem digitList_movesOn : digitList.MovesOn (.ref "digits") := .of_parts rfl

/-- The grammar of lists of digits terminates, here over two digits. -/
theorem digitList_terminates :
    ∃ entry, digitList.entry? = some entry ∧
      (∃ depth, (entry.runWithin digitList depth
        ⟨⟨[("digit", .interval '0' '9')], .ofInput ['4', '2']⟩, .forgetful⟩).1 ≠
          .error .exhausted) ∧
      (digitList.parse ⟨⟨[("digit", .interval '0' '9')], .ofInput ['4', '2']⟩, .forgetful⟩).1 ≠
        .error .exhausted := by
  have hentry : digitList.entry? = some (.ref "digits") := rfl
  refine Grammar.terminates rfl (fun entry h => ?_) fun _ _ => .forgetful
  rw [hentry] at h
  cases h
  exact digitList_movesOn

/-! ## Where nothing moves on -/

/-- The rule begins with the end of the input and goes on with itself. -/
def endless : Grammar Unit :=
  ⟨[("s", .tuple [.element .endOfInput, .element (.ref "s")] none)], none, 1⟩

/-- At the end of the input the rule is met again without end, so that no depth is enough, although
the grammar is valid. -/
theorem endless_exhausted : endless.validate = .ok () ∧
    (∀ depth, (Parser.ref "s").runWithin endless depth ⟨.empty, .forgetful⟩ =
      (.error .exhausted, ⟨.empty, .forgetful⟩)) ∧
    (endless.parse ⟨.empty, .forgetful⟩).1 = .error .exhausted := by
  refine ⟨rfl, fun depth => ?_, rfl⟩
  suffices both : (Parser.ref "s").runWithin endless depth ⟨.empty, .forgetful⟩ =
        (.error .exhausted, ⟨.empty, .forgetful⟩) ∧
      (Parser.tuple [.element .endOfInput, .element (.ref "s")] none).runWithin endless depth
        ⟨.empty, .forgetful⟩ = (.error .exhausted, ⟨.empty, .forgetful⟩) from both.1
  induction depth with
  | zero => exact ⟨rfl, rfl⟩
  | succ depth ih =>
    refine ⟨ih.2, ?_⟩
    cases depth with
    | zero => rfl
    | succ depth =>
      -- the end of the input is found and stays where it is
      have hend : (Parser.endOfInput : Parser Unit).runWithin endless (depth + 1)
          ⟨.empty, .forgetful⟩ = (.ok (.ofToken (.endOfInput ⟨[], 0⟩ ⟨1, 1, 0⟩)),
            ⟨.empty, .forgetful⟩) := rfl
      have hagain (covered : Option Span) :
          members (Parser.runWithin endless (depth + 1)) [.element (.ref "s")] covered
            ⟨.empty, .forgetful⟩ = (.error .exhausted, ⟨.empty, .forgetful⟩) := by
        show (Parser.runWithin endless (depth + 1) (.ref "s") >>= _) _ = _
        rw [bind_apply, ih.1]
      have hmembers : members (Parser.runWithin endless (depth + 1))
          [.element .endOfInput, .element (.ref "s")] none ⟨.empty, .forgetful⟩ =
            (.error .exhausted, ⟨.empty, .forgetful⟩) := by
        show (Parser.runWithin endless (depth + 1) .endOfInput >>= _) _ = _
        rw [bind_of_ok hend]
        show (members (Parser.runWithin endless (depth + 1)) [.element (.ref "s")] _ >>= _) _ = _
        rw [bind_apply, hagain]
      have hposition : position ⟨.empty, .forgetful⟩ =
        (.ok ⟨1, 1, 0⟩, ⟨.empty, .forgetful⟩) := rfl
      show (position >>= _) _ = _
      rw [bind_of_ok hposition, bind_apply, hmembers]

end PredictiveParsing
