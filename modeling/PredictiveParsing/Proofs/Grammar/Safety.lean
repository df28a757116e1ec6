import PredictiveParsing.Proofs.Expression.Grouping
import PredictiveParsing.Proofs.Expression.Safety
import PredictiveParsing.Proofs.Grammar.Validation

/-!
# Valid grammars are never at fault

Everything that the entry of a valid grammar reaches has been checked, so the rules that a run
resolves are registered and its choices have FIRST sets. What remains are the cursor and the regions
of results, and each combinator keeps these in order (`Parser.runWithin_safe`). So whatever the
input, no run of a valid grammar is at fault, at any depth (`Grammar.never_at_fault`).
-/

namespace PredictiveParsing

open ParseM

variable {V : Type}

/-- The actions below `p` are at no fault, and those of operator tables keep the regions of their
arguments. -/
structure Grammar.ActionsKeep (g : Grammar V) (p : Parser V) : Prop where
  sequences : g.Faultless p
  tables : ∀ o, g.Reaches p (.expr o) → ∀ type role, o.role? type = some role → role.Keeps

/-- The actions below `p` are at no fault where they are run: given as many elements as their
sequence keeps, and given the arguments of an operator, of which they keep the regions. -/
structure Grammar.ActionsServe (g : Grammar V) (p : Parser V) : Prop where
  sequences : ∀ members action, g.Reaches p (.tuple members (some action)) →
    ∀ elements span fault, elements.length = keptCount members →
      action elements span ≠ .error (.fault fault)
  tables : ∀ o, g.Reaches p (.expr o) → ∀ type role, o.role? type = some role → role.Keeps

section

variable {g : Grammar V} {p q : Parser V} {input : Text} {c d : Context}

theorem Grammar.ActionsKeep.serve (h : g.ActionsKeep p) : g.ActionsServe p :=
  ⟨fun members action hq elements span fault _ => h.sequences members action hq elements span fault,
    h.tables⟩

/-- The alternatives of a checked choice have FIRST sets. -/
theorem Grammar.mapM_of_checkChoice {rule : String} {alternatives : List (Parser V)}
    (h : g.checkChoice rule alternatives = .ok ()) :
    ∃ firsts, alternatives.mapM g.first = .ok firsts := by
  obtain ⟨firsts, hfirsts, -⟩ := bind_eq_ok h
  exact ⟨firsts, hfirsts⟩

/-- A rule with a FIRST set can be resolved. -/
theorem Grammar.resolve_of_ruleFirst {name : String} {f : FirstSet} (h : g.ruleFirst name = .ok f) :
    ∃ q, g.rule? name = some q ∧ g.resolve name = .ok q := by
  obtain ⟨_, q, -, -, hq, -⟩ := Grammar.firstOfRule_eq_ok h
  exact ⟨q, hq, by rw [Grammar.resolve, hq]⟩

/-- The combinator at the top of a parser, given a way to run its parts. -/
def Parser.top (g : Grammar V) (run : Parser V → ParseM (Result V)) : Parser V → ParseM (Result V)
  | token type => expectToken type
  | endOfInput => expectEnd
  | tuple members action => sequence run members action
  | choice slot alternatives => chooseAlternative g run slot alternatives
  | many body minimum => repetition (run body) minimum
  | embed body => run body
  | expr operators => operators.expression run
  | ref name => do run (← trust (g.resolve name))

theorem Parser.runWithin_succ (g : Grammar V) (depth : Nat) (q : Parser V) :
    q.runWithin g (depth + 1) = q.top g (runWithin g depth) := by
  cases q <;> rfl

/-- Where parsing runs its entry: nothing is kept for its choices, and the start is noted. -/
def Grammar.entered (entry : Parser V) (c : Context) : Context :=
  noted ⟨c.tokenizer, c.journal.forget entry.slots⟩
    (.starting c.tokenizer.position c.tokenizer.cursor.input.byteLength)

/-- Parsing ends as its entry does, and it notes how. -/
theorem Grammar.parse_ends {entry : Parser V} {ok : Result V → Context → Prop}
    {bad : Failure → Context → Prop} (hentry : g.entry? = some entry)
    (hrun : (entry.run g).Ends (entered entry c) ok bad)
    (hok : ∀ r d, ok r d → ok r (noted d (.succeeded r.span)))
    (hbad : ∀ e d, bad (.rejected e) d → bad (.rejected e) (noted d (.failed e))) :
    g.parse.Ends c ok bad := by
  unfold parse
  rw [hentry]
  refine .bind (.modify (.bind (.get (.bind (.note (.bind (.attempt ?_)))))))
  refine hrun.mono (fun r d hr => .bind (.note (.pure (hok r d hr)))) fun failure d hd => ?_
  cases failure with
  | rejected e => exact .bind (.note (.throw (hbad e d hd)))
  | fault | exhausted => exact hd

/-- Where everything below `p` has been checked, a combinator below `p` is safe if what is below `p`
runs safely. It is never exhausted by itself. -/
theorem Parser.top_safe {limited : Prop} {run : Parser V → ParseM (Result V)}
    (hchecked : ∀ q, g.Reaches p q → g.Checked q) (hactions : g.ActionsServe p)
    (hrun : ∀ q, g.Reaches p q → Safe g p input limited (run q)) (hq : g.Reaches p q) :
    Safe g p input limited (q.top g run) := by
  cases q with
  | token type => exact safe_expectToken type
  | endOfInput => exact safe_expectEnd
  | tuple members action =>
    refine safe_sequence (fun m hm => hrun _ (hq.child (.member hm))) ?_
    rintro a rfl
    exact hactions.sequences members a hq
  | choice slot alternatives =>
    obtain ⟨rule, hcheck⟩ := hchecked _ hq
    obtain ⟨firsts, hfirsts⟩ := Grammar.mapM_of_checkChoice hcheck
    exact safe_choice hq hfirsts fun r hr => hrun r (hq.child (.alternative hr))
  | many body minimum => exact safe_repetition (hrun body (hq.child .repeated)) minimum
  | embed body => exact hrun body (hq.child .embedded)
  | expr o =>
    refine Operators.safe_expression (hactions.tables o hq) fun type r hr => ?_
    exact hrun r (hq.child (.role (Operators.mem_of_role? hr)))
  | ref name =>
    obtain ⟨f, hf⟩ := hchecked _ hq
    obtain ⟨r, hr, hresolve⟩ := Grammar.resolve_of_ruleFirst hf
    intro c hc
    exact .bind (.trust hresolve (hrun r (hq.rule hr) c hc))

/-- Where everything below `p` has been checked, every parser below `p` is safe at every depth. -/
theorem Parser.runWithin_safe (hchecked : ∀ q, g.Reaches p q → g.Checked q)
    (hactions : g.ActionsServe p) (depth : Nat) (hq : g.Reaches p q) :
    Safe g p input True (q.runWithin g depth) := by
  induction depth generalizing q with
  | zero => exact fun c _ => .throw trivial
  | succ depth ih =>
    rw [runWithin_succ]
    exact top_safe hchecked hactions (fun _ => ih) hq

/-- At the start of an input that is no larger than a text can be, a cursor is in place. -/
theorem Ready.start {t : Tokenizer} {j : Journal} (hinput : input.byteLength ≤ largestInput)
    (hj : j.Faithful g p) : Ready g p input ⟨t.withInput input, j⟩ :=
  ⟨.ofInput hinput, rfl, hj⟩

/-- Parsing with an entry that is safe at every depth is at no fault. -/
theorem Grammar.parse_safe {entry : Parser V} (hentry : g.entry? = some entry)
    (hsafe : ∀ depth, Safe g entry input True (entry.runWithin g depth))
    (hc : Ready g entry input c) :
    g.parse.Ends c (fun _ _ => True) fun e _ => ∀ fault, e ≠ .fault fault := by
  have hready : Ready g entry input (entered entry c) :=
    ⟨hc.placed, hc.input, (hc.journal.forget _).note _⟩
  refine parse_ends hentry (.bind (.unread ?_)) (fun _ _ h => h) fun _ _ h => h
  refine Ends.mono (hsafe _ _ hready) (fun _ _ _ => trivial) fun e d he fault hfault => ?_
  subst hfault
  exact he

/-- A valid grammar is never at fault. It has an entry, and whatever the tokenizer and the input
are, neither running the entry, however deep, nor parsing with it ends in a fault. -/
theorem Grammar.never_at_fault (hvalid : g.validate = .ok ())
    (hactions : ∀ entry, g.entry? = some entry → g.ActionsKeep entry) (t : Tokenizer)
    (hinput : input.byteLength ≤ largestInput) {j : Journal}
    (hj : ∀ entry, g.entry? = some entry → j.Faithful g entry) :
    ∃ entry, g.entry? = some entry ∧
      (∀ depth fault, (entry.runWithin g depth ⟨t.withInput input, j⟩).1 ≠ .error (.fault fault)) ∧
      ∀ fault, (g.parse ⟨t.withInput input, j⟩).1 ≠ .error (.fault fault) := by
  obtain ⟨entry, hentry, hchecked⟩ := checked_of_validate hvalid
  have hsafe (depth : Nat) : Safe g entry input True (entry.runWithin g depth) :=
    Parser.runWithin_safe hchecked (hactions entry hentry).serve depth .refl
  have hready : Ready g entry input ⟨t.withInput input, j⟩ := .start hinput (hj entry hentry)
  refine ⟨entry, hentry, fun depth fault => ?_, fun fault => ?_⟩
  · exact Ends.ne_error (hsafe depth _ hready) fun _ he => he
  · exact Ends.ne_error (parse_safe hentry hsafe hready) fun _ he => he fault rfl

end

/-- The grammar whose only rule is the table of `arithmetic`. -/
def arithmeticGrammar : Grammar Unit :=
  ⟨[("sum", .expr (Operators.arithmetic Unit (Parser Unit)))], none, 1⟩

theorem arithmeticGrammar_actionsKeep : arithmeticGrammar.ActionsKeep (.ref "sum") := by
  have reached {q : Parser Unit} (h : arithmeticGrammar.Reaches (.ref "sum") q) :
      q = .ref "sum" ∨ q = .expr (Operators.arithmetic Unit (Parser Unit)) := by
    induction h with
    | refl => exact .inl rfl
    | child _ part ih =>
      rcases ih with rfl | rfl
      · cases part
      · cases part with
        | role mem => simp [Operators.arithmetic] at mem
    | rule _ registered ih =>
      rcases ih with ih | ih
      · cases ih
        cases registered
        exact .inr rfl
      · cases ih
  refine ⟨fun members action h => ?_, fun o h type role hrole => ?_⟩
  · rcases reached h with h | h <;> cases h
  · rcases reached h with h | h
    · cases h
    · cases h
      exact Role.Bare.keeps (Operators.arithmetic_bare _ _ type role hrole)

/-- Arithmetic is never at fault, also not over a line that it rejects. -/
theorem arithmeticGrammar_never_at_fault :
    ∃ entry, arithmeticGrammar.entry? = some entry ∧
      (∀ depth fault, (entry.runWithin arithmeticGrammar depth
        ⟨(Operators.arithmeticTokens []).withInput "n - n*(?".toList, .forgetful⟩).1 ≠
          .error (.fault fault)) ∧
      ∀ fault, (arithmeticGrammar.parse
        ⟨(Operators.arithmeticTokens []).withInput "n - n*(?".toList, .forgetful⟩).1 ≠
          .error (.fault fault) := by
  have hentry : arithmeticGrammar.entry? = some (.ref "sum") := rfl
  refine Grammar.never_at_fault (by rfl) (fun entry he => ?_) _ (by decide +kernel) fun _ _ =>
    .forgetful
  rw [hentry] at he
  cases he
  exact arithmeticGrammar_actionsKeep

end PredictiveParsing
