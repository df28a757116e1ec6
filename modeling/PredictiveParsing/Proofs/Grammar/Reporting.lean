import PredictiveParsing.Proofs.Expression.Reporting
import PredictiveParsing.Proofs.Grammar.Depth

/-!
# Errors of grammars

Every parser of every grammar reports, at every depth (`Parser.runWithin_reports`). So a run that no
action has refused to stands, where it fails with an error, in front of what the error is about
(`Parser.run_rejects_at_cursor`).

The error of an action is the error of the whole parse, with one exception
(`Grammar.parse_of_refused`): a repetition takes a round that fails without consuming anything for
one that has not begun, and it cannot tell an action that refuses there from a token that does not
begin the round. So it ends in front of this round. If there are rounds enough it succeeds
(`Grammar.refusals_parse_succeeds`), and otherwise it puts the message behind its own.
-/

namespace PredictiveParsing

open ParseM

variable {V : Type}

/-- The run is one of the body of a repetition below `p`, at some depth. -/
def Grammar.Rounds (g : Grammar V) (p : Parser V) (x : ParseM (Result V)) (minimum : Nat) : Prop :=
  ∃ body depth, g.Reaches p (.many body minimum) ∧ x = body.runWithin g depth

/-- Any number of rounds, each of the given members and an action that refuses. -/
def Grammar.refusals (members : List (Member (Parser Unit))) : Grammar Unit :=
  ⟨[("rounds", .many (.tuple members (some fun _ span => .reject "refused" span)) 0)], none, 1⟩

section

variable {g : Grammar V} {p q : Parser V} {c d : Context} {e : ParseError} {past : List Event}

/-- A combinator below `p` reports if what is below `p` does. -/
theorem Parser.top_reports {repeats : ParseM (Result V) → Nat → Prop}
    {run : Parser V → ParseM (Result V)}
    (hrepeats : ∀ body minimum, g.Reaches p (.many body minimum) → repeats (run body) minimum)
    (hrun : ∀ q, g.Reaches p q → (run q).Reports repeats) (hq : g.Reaches p q) :
    (q.top g run).Reports repeats := by
  cases q with
  | token type => exact expectToken_reports type
  | endOfInput => exact expectEnd_reports
  | tuple members action =>
    exact sequence_reports (fun m hm => hrun _ (hq.child (.member hm))) action
  | choice slot alternatives =>
    exact choice_reports fun r hr => hrun r (hq.child (.alternative hr))
  | many body minimum =>
    exact repetition_reports (hrepeats body minimum hq) (hrun body (hq.child .repeated))
  | embed body => exact hrun body (hq.child .embedded)
  | expr o =>
    refine Operators.expression_reports fun type r hr => ?_
    exact hrun r (hq.child (.role (Operators.mem_of_role? hr)))
  | ref name =>
    intro c
    refine .bind (.trusting (fun r hr => ?_) fun _ => (Context.Running.refl c).fails nofun)
    exact hrun r (hq.rule (Grammar.rule?_of_resolve hr)) c

/-- Every parser below `p` reports, at every depth. -/
theorem Parser.runWithin_reports (depth : Nat) (hq : g.Reaches p q) :
    (q.runWithin g depth).Reports (g.Rounds p) := by
  induction depth generalizing q with
  | zero => exact fun c => .throw ((Context.Running.refl c).fails nofun)
  | succ depth ih =>
    rw [runWithin_succ]
    exact top_reports (fun body _ h => ⟨body, depth, h, rfl⟩) (fun _ => ih) hq

/-! ## Errors of the run's own -/

/-- Where a run fails with an error, and no action has refused, the cursor stands at the start of
the error's span. This is the span of the token there, or the empty one where a repetition stands
still before it has come to its minimum. It is no earlier than where the run began, and it lies in
the input if the cursor was in place. -/
theorem Parser.run_rejects_at_cursor (h : p.run g c = (.error (.rejected e), d))
    (hquiet : c.Quiet d) :
    e.span.start = d.tokenizer.position ∧
      ((∃ token, d.tokenizer.peek = .ok token ∧ e.span = token.span) ∨
        e.span = .empty d.tokenizer.position ∧ c.Stalled (g.Rounds p) d) ∧
      c.tokenizer.position.offset ≤ e.span.start.offset ∧
      (c.tokenizer.cursor.Placed → e.span.Of c.tokenizer.cursor.input) := by
  have hreports : (p.runWithin g (p.depthFor g c.tokenizer.cursor.rest.length)).Reports
      (g.Rounds p) := runWithin_reports _ .refl
  have hstopped := (hreports c).failure h
  have hforward := hstopped.later.leadsTo.advanced.forward
  have hd (hplaced : c.tokenizer.cursor.Placed) : d.InPlace c.tokenizer.cursor.input :=
    Context.InPlace.leadsTo ⟨hplaced, rfl⟩ hstopped.later.leadsTo
  cases hstopped.located e rfl hquiet with
  | token hpeek heq =>
    have hstart : e.span.start = d.tokenizer.position := by
      rw [heq, (Tokenizer.peek_at hpeek).start]
      rfl
    refine ⟨hstart, .inl ⟨_, hpeek, heq⟩, hstart ▸ hforward, fun hplaced => ?_⟩
    have hnested : (Result.ofToken _ : Result V).Nested c.tokenizer.cursor.input :=
      (hd hplaced).nested hpeek
    rw [heq]
    exact hnested.region
  | stalled heq hstalled =>
    have hstart : e.span.start = d.tokenizer.position := by rw [heq]; rfl
    refine ⟨hstart, .inr ⟨heq, hstalled⟩, hstart ▸ hforward, fun hplaced => ?_⟩
    have hposition := (hd hplaced).position
    rw [heq]
    exact ⟨hposition, hposition, Nat.le_refl _⟩

/-- A bracket that is not closed is reported at the end of the input, where the cursor is left. -/
theorem arithmeticGrammar_run_rejects_at_cursor :
    ∃ e d, (Parser.ref "sum").run arithmeticGrammar (Operators.arithmeticStart "n - (n".toList) =
        (.error (.rejected e), d) ∧
      e.span.start = d.tokenizer.position ∧
      ((∃ token, d.tokenizer.peek = .ok token ∧ e.span = token.span) ∨
        e.span = .empty d.tokenizer.position ∧
          (Operators.arithmeticStart "n - (n".toList).Stalled
            (arithmeticGrammar.Rounds (.ref "sum")) d) ∧
      e.span.Of "n - (n".toList := by
  obtain ⟨e, d, h, hquiet⟩ := exists_of_rejects (by decide +kernel :
    rejects ((Parser.ref "sum").run arithmeticGrammar)
      (Operators.arithmeticStart "n - (n".toList) = true)
  obtain ⟨hstart, hlocated, -, hspan⟩ := Parser.run_rejects_at_cursor h hquiet
  exact ⟨e, d, h, hstart, hlocated, hspan (.ofInput (by decide +kernel))⟩

/-! ## Errors of actions -/

/-- What an action refuses in a parse is the failure of the parse, or a repetition below the entry
has swallowed it. -/
theorem Grammar.parse_refusals {entry : Parser V} (hentry : g.entry? = some entry) (c : Context) :
    g.parse.Ends c (fun _ d => c.Running (g.Rounds entry) d) fun failure d => ∀ e past,
      c.Refused d e past → failure = .rejected e ∨ c.Swallowed (g.Rounds entry) d e past := by
  have hforgotten : c.Running (g.Rounds entry)
      ⟨c.tokenizer, c.journal.forget entry.slots⟩ := .step (.of_same rfl rfl) (.of_same rfl)
  have hentered : c.Running (g.Rounds entry) (entered entry c) := hforgotten.note rfl
  have hreports := Parser.runWithin_reports (g := g) (p := entry)
    (entry.depthFor g c.tokenizer.cursor.rest.length) .refl
  refine parse_ends hentry (.bind (.unread ?_)) (fun r d hd => hd.note rfl)
    fun e d hd e' past hrefused => ?_
  · refine Ends.mono (hreports _) (fun r d hd => hentered.trans hd) fun failure d hd e past h => ?_
    exact ((hentered.stops hd).refusals e past h).imp_left And.left
  · rcases hrefused.split (.note d _) with hfirst | hsecond
    · exact (hd e' past hfirst).imp_right fun hs => hs.within (.refl c) (.note d _)
    · exact absurd hsecond (Context.Quiet.note d rfl e' past)

/-- If an action refuses in a parse, then the whole parse answers the error of the action, with its
message and its span, or the error has ended a repetition below the entry. The repetition then
stands in front of the round that the action has refused, which had consumed nothing, and makes its
outcome of the rounds before: it succeeds, or is rejected where they are too few. -/
theorem Grammar.parse_of_refused (h : c.Refused (g.parse c).2 e past) :
    (g.parse c).1 = .error (.rejected e) ∨
      ∃ entry, g.entry? = some entry ∧ c.Swallowed (g.Rounds entry) (g.parse c).2 e past := by
  cases hentry : g.entry? with
  | none =>
    have hrun : g.parse c = (.error (.fault (.incompleteGrammar .missingEntry)), c) := by
      unfold parse
      rw [hentry]
      rfl
    rw [hrun] at h
    exact absurd h (Context.Quiet.of_same rfl e past)
  | some entry =>
    rcases (parse_refusals hentry c).cases with ⟨r, d, hrun, hd⟩ | ⟨failure, d, hrun, hd⟩
    · rw [hrun] at h ⊢
      exact .inr ⟨entry, rfl, hd.refusals e past h⟩
    · rw [hrun] at h ⊢
      rcases hd e past h with rfl | hswallowed
      · exact .inl rfl
      · exact .inr ⟨entry, rfl, hswallowed⟩

end

/-- A round that has consumed a name fails with what its action refuses, and so does the parse. -/
theorem Grammar.refusals_parse_of_refused :
    ∃ past, (Operators.arithmeticStart ['n']).Refused
        ((refusals [.element (.token "n")]).parse (Operators.arithmeticStart ['n'])).2
        ⟨"refused", .start, ⟨1, 2, 1⟩⟩ past ∧
      (((refusals [.element (.token "n")]).parse (Operators.arithmeticStart ['n'])).1 =
          .error (.rejected ⟨"refused", .start, ⟨1, 2, 1⟩⟩) ∨
        ∃ entry, Grammar.entry? (refusals [.element (.token "n")]) = some entry ∧
          (Operators.arithmeticStart ['n']).Swallowed
            ((refusals [.element (.token "n")]).Rounds entry)
            ((refusals [.element (.token "n")]).parse (Operators.arithmeticStart ['n'])).2
            ⟨"refused", .start, ⟨1, 2, 1⟩⟩ past) := by
  have hrefused : (Operators.arithmeticStart ['n']).Refused
      ((refusals [.element (.token "n")]).parse (Operators.arithmeticStart ['n'])).2
      ⟨"refused", .start, ⟨1, 2, 1⟩⟩
      [.committed ⟨"n", ⟨['n'], 0⟩, ⟨.start, ⟨1, 2, 1⟩⟩, .ordinary⟩, .starting .start 1] :=
    ⟨List.nil_suffix, by decide +kernel⟩
  exact ⟨_, hrefused, parse_of_refused hrefused⟩

/-- A round that has consumed nothing ends the repetition with what its action refuses, and the
parse succeeds. -/
theorem Grammar.refusals_parse_succeeds :
    (Operators.arithmeticStart []).Refused
        ((refusals []).parse (Operators.arithmeticStart [])).2
        ⟨"refused", .empty .start⟩ [.starting .start 0] ∧
      ((refusals []).parse (Operators.arithmeticStart [])).1 ≠
        .error (.rejected ⟨"refused", .empty .start⟩) := by
  refine ⟨⟨List.nil_suffix, by decide +kernel⟩, fun h => ?_⟩
  have hsucceeds : succeeds (refusals []).parse (Operators.arithmeticStart []) = true := by
    decide +kernel
  obtain ⟨r, d, hrun⟩ := succeeds_iff.1 hsucceeds
  rw [hrun] at h
  cases h

end PredictiveParsing
