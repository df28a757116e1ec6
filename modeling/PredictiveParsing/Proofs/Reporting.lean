import PredictiveParsing.Proofs.Nesting
import PredictiveParsing.Proofs.Repeating

/-!
# What becomes of errors

A run comes to an error of its own where it meets a token that it cannot use, or where a repetition
stands still before it has come to its minimum; and it comes to the error of an action where the
action refuses. `ParseM.Reports` says of a run, wherever it begins, what becomes of both.

* An error of its own is located: it stands for the token at the cursor, or for the empty region
  there (`Context.Locates`). An action that refuses may place its error anywhere.
* The error of an action that refuses is the failure of the run, or it has ended a repetition, in a
  round that had consumed nothing (`Context.Swallowed`).

The history of a run are the events in its journal. It only grows (`Context.Later`), and an action
refuses at a place in it (`Context.Refused`), so what is known of two parts of a run is known of the
whole. Which repetitions there are is a parameter: `repeats` holds of their bodies and minima.
-/

namespace PredictiveParsing

open ParseM

variable {V P : Type}

/-! ## Histories -/

/-- The error that an event says an action has refused with. -/
def Event.refused? : Event → Option ParseError
  | refused e => some e
  | _ => none

namespace Context

/-- A run may lead from `c` to `d`: over ordinary tokens, and without forgetting an event. -/
structure Later (c d : Context) : Prop where
  leadsTo : c.tokenizer.LeadsTo d.tokenizer
  events : c.journal.events <:+ d.journal.events

/-- Between `c` and `d` an action has refused with the error, when the `past` events had been noted
before. -/
structure Refused (c d : Context) (e : ParseError) (past : List Event) : Prop where
  since : c.journal.events <:+ past
  noted : .refused e :: past <:+ d.journal.events

/-- Between `c` and `d` no action has refused. -/
def Quiet (c d : Context) : Prop :=
  ∀ e past, ¬ c.Refused d e past

variable {b c d : Context} {e : ParseError} {past : List Event} {event : Event}

namespace Later

theorem refl (c : Context) : c.Later c := ⟨.refl _, List.suffix_refl _⟩

theorem trans (h : b.Later c) (h' : c.Later d) : b.Later d :=
  ⟨h.leadsTo.trans h'.leadsTo, h.events.trans h'.events⟩

theorem of_same (htokenizer : d.tokenizer = c.tokenizer)
    (hevents : d.journal.events = c.journal.events) : c.Later d :=
  ⟨htokenizer ▸ .refl _, hevents ▸ List.suffix_refl _⟩

theorem note (c : Context) (event : Event) : c.Later (noted c event) :=
  ⟨.refl _, List.suffix_cons _ _⟩

theorem commit {token : Token} {tokenizer : Tokenizer} (hm : c.tokenizer.Moves token tokenizer)
    (hk : token.kind = .ordinary) : c.Later (committed c token tokenizer) :=
  ⟨.of_moves hm hk, List.suffix_cons _ _⟩

end Later

/-- An action that has refused has done so in one of two parts of a run. -/
theorem Refused.split (h : b.Refused d e past) (hcd : c.Later d) :
    b.Refused c e past ∨ c.Refused d e past := by
  rcases List.suffix_or_suffix_of_suffix h.noted hcd.events with hpast | hpast
  · exact .inl ⟨h.since, hpast⟩
  · rcases List.suffix_cons_iff.1 hpast with heq | hpast
    · exact .inl ⟨h.since, heq ▸ List.suffix_refl _⟩
    · exact .inr ⟨hpast, h.noted⟩

/-- What an action has refused in the last part of a run, it has refused in the run. -/
theorem Refused.behind (h : c.Refused d e past) (hbc : b.Later c) : b.Refused d e past :=
  ⟨hbc.events.trans h.since, h.noted⟩

theorem Quiet.behind (h : b.Quiet d) (hbc : b.Later c) : c.Quiet d :=
  fun e past hc => h e past (hc.behind hbc)

theorem Quiet.before (h : b.Quiet d) (hcd : c.Later d) : b.Quiet c :=
  fun e past hc => h e past ⟨hc.since, hc.noted.trans hcd.events⟩

/-- Where no event is noted, no action refuses. -/
theorem Quiet.of_same (hevents : d.journal.events = c.journal.events) : c.Quiet d := by
  intro e past h
  have hlength := (hevents ▸ h.noted).length_le
  have hpast := h.since.length_le
  rw [List.length_cons] at hlength
  omega

/-- Where no event says so, no action has refused. -/
theorem Quiet.of_events (h : ∀ event ∈ d.journal.events, event.refused? = none) : c.Quiet d :=
  fun _ _ hrefused => nomatch h _ (hrefused.noted.subset (.head _))

/-- Where one event is noted, it is by this event that an action has refused. -/
theorem Refused.events_eq (h : c.Refused d e past)
    (hevents : d.journal.events = event :: c.journal.events) :
    .refused e :: past = event :: c.journal.events := by
  obtain ⟨hsince, hnoted⟩ := h
  rw [hevents] at hnoted
  rcases List.suffix_cons_iff.1 hnoted with heq | hsuffix
  · exact heq
  · have hlength := hsuffix.length_le
    have hpast := hsince.length_le
    rw [List.length_cons] at hlength
    omega

theorem Quiet.note (c : Context) (hevent : event.refused? = none) : c.Quiet (noted c event) := by
  intro e past h
  cases h.events_eq rfl
  cases hevent

end Context

/-! ## Repetitions -/

namespace Context

variable (repeats : ParseM (Result V) → Nat → Prop)

/-- Between `c` and `d` a repetition of the body has run from `s`. It has noted the end of its loop
in `d'` and made its outcome of what the loop has answered there: it succeeds with the items, or is
rejected if they are too few, or is at fault if their regions cannot be covered. -/
structure Repeated (body : ParseM (Result V)) (minimum : Nat) (s : Context)
    (items : List (Result V)) (reason : Option ParseError) (d' c d : Context) : Prop where
  repeated : repeats body minimum
  before : c.Later s
  outcome : repetition body minimum s =
    (settleRounds s.tokenizer.position minimum items reason d'.tokenizer.position,
      noted d' (.repeated items.length minimum))
  after : (noted d' (.repeated items.length minimum)).Later d

/-- Between `c` and `d` the error that an action refused with has ended a repetition. Behind rounds
that made progress it is the failure of a round that had consumed nothing, and the repetition ends
in front of this round: the event that it notes stands right behind the one of the action. -/
inductive Swallowed (c d : Context) (e : ParseError) (past : List Event) : Prop
  | round {body : ParseM (Result V)} {minimum : Nat} {items : List (Result V)}
      {s c' d' : Context} (ran : Repeated repeats body minimum s items (some e) d' c d)
      (rounds : body.Progresses s items c') (failed : body c' = (.error (.rejected e), d'))
      (same : d'.tokenizer = c'.tokenizer) (since : c'.journal.events <:+ past)
      (refused : d'.journal.events = .refused e :: past)

/-- Between `c` and `d` a repetition has come to a round that succeeds and consumes nothing, where
the cursor of `d` is. This round has ended the repetition before it has come to its minimum. -/
inductive Stalled (c d : Context) : Prop
  | rounds {body : ParseM (Result V)} {minimum : Nat} {items : List (Result V)} {r : Result V}
      {s c' d' : Context} (ran : Repeated repeats body minimum s (items ++ [r]) none d' c d)
      (rounds : body.Progresses s items c') (last : body c' = (.ok r, d'))
      (same : d'.tokenizer = c'.tokenizer) (few : (items ++ [r]).length < minimum)
      (cursor : d.tokenizer = d'.tokenizer)

/-- The span is the one of the token at the cursor of `d`, or the empty one there if a repetition
stands still. -/
inductive Locates (c d : Context) (span : Span) : Prop
  | token {token : Token} (peeked : d.tokenizer.peek = .ok token) (eq : span = token.span)
  | stalled (eq : span = .empty d.tokenizer.position) (stalled : Stalled repeats c d)

/-- From `c` to `d` a run goes on, whatever actions have refused. -/
structure Running (c d : Context) : Prop where
  later : c.Later d
  refusals : ∀ e past, c.Refused d e past → Swallowed repeats c d e past

/-- A run from `c` fails in `d`. What an action has refused is the failure, with no event behind it,
or it was swallowed. An error is located, unless an action has refused. -/
structure Stopped (c : Context) (failure : Failure) (d : Context) : Prop where
  later : c.Later d
  refusals : ∀ e past, c.Refused d e past →
    failure = .rejected e ∧ d.journal.events = .refused e :: past ∨ Swallowed repeats c d e past
  located : ∀ e, failure = .rejected e → c.Quiet d → Locates repeats c d e.span

variable {repeats} {b c d : Context} {e : ParseError} {past : List Event} {event : Event}
  {failure : Failure} {span : Span}

theorem Repeated.within {body : ParseM (Result V)} {minimum : Nat} {items : List (Result V)}
    {reason : Option ParseError} {s c' d' e' : Context}
    (h : Repeated repeats body minimum s items reason e' c d) (hbefore : c'.Later c)
    (hafter : d.Later d') : Repeated repeats body minimum s items reason e' c' d' :=
  ⟨h.repeated, hbefore.trans h.before, h.outcome, h.after.trans hafter⟩

theorem Swallowed.within (h : Swallowed repeats c d e past) {c' d' : Context}
    (hbefore : c'.Later c) (hafter : d.Later d') : Swallowed repeats c' d' e past := by
  obtain ⟨hran, hrounds, hfailed, hsame, hsince, hrefused⟩ := h
  exact .round (hran.within hbefore hafter) hrounds hfailed hsame hsince hrefused

theorem Locates.behind (h : Locates repeats c d span) (hbc : b.Later c) :
    Locates repeats b d span := by
  cases h with
  | token hpeek heq => exact .token hpeek heq
  | stalled heq hstalled =>
    obtain ⟨hran, hrounds, hlast, hsame, hfew, hcursor⟩ := hstalled
    exact .stalled heq (.rounds (hran.within hbc (.refl d)) hrounds hlast hsame hfew hcursor)

/-- What is located stays so where the cursor stays. -/
theorem Locates.still (h : Locates repeats c d span) {d' : Context} (hd : d.Later d')
    (hsame : d'.tokenizer = d.tokenizer) : Locates repeats c d' span := by
  cases h with
  | token hpeek heq => exact .token (hsame ▸ hpeek) heq
  | stalled heq hstalled =>
    obtain ⟨hran, hrounds, hlast, hsame', hfew, hcursor⟩ := hstalled
    refine .stalled (hsame ▸ heq) ?_
    exact .rounds (hran.within (.refl c) hd) hrounds hlast hsame' hfew (hsame.trans hcursor)

namespace Running

/-- A step in which no action refuses goes on. -/
theorem step (hlater : c.Later d) (hquiet : c.Quiet d) : Running repeats c d :=
  ⟨hlater, fun e past h => absurd h (hquiet e past)⟩

theorem refl (c : Context) : Running repeats c c := .step (.refl c) (.of_same rfl)

theorem trans (h : Running repeats b c) (h' : Running repeats c d) : Running repeats b d := by
  refine ⟨h.later.trans h'.later, fun e past hrefused => ?_⟩
  rcases hrefused.split h'.later with hfirst | hsecond
  · exact (h.refusals e past hfirst).within (.refl b) h'.later
  · exact (h'.refusals e past hsecond).within h.later (.refl d)

/-- What stops a run stops what has gone before it. -/
theorem stops (h : Running repeats b c) (h' : Stopped repeats c failure d) :
    Stopped repeats b failure d := by
  refine ⟨h.later.trans h'.later, fun e past hrefused => ?_, fun e he hquiet => ?_⟩
  · rcases hrefused.split h'.later with hfirst | hsecond
    · exact .inr ((h.refusals e past hfirst).within (.refl b) h'.later)
    · exact (h'.refusals e past hsecond).imp_right fun hs => hs.within h.later (.refl d)
  · exact (h'.located e he (hquiet.behind h.later)).behind h.later

theorem note (h : Running repeats b c) (hevent : event.refused? = none) :
    Running repeats b (noted c event) :=
  h.trans (.step (.note c event) (.note c hevent))

theorem commit (h : Running repeats b c) {token : Token} {tokenizer : Tokenizer}
    (hm : c.tokenizer.Moves token tokenizer) (hk : token.kind = .ordinary) :
    Running repeats b (committed c token tokenizer) :=
  h.trans (.step (.commit hm hk) fun _ _ hrefused => nomatch hrefused.events_eq rfl)

/-- A failure that is not an error needs no place. -/
theorem fails (h : Running repeats b c) (hfailure : ∀ e, failure ≠ .rejected e) :
    Stopped repeats b failure c :=
  ⟨h.later, fun e past hrefused => .inr (h.refusals e past hrefused),
    fun e he => absurd he (hfailure e)⟩

/-- An error of the run's own is located, unless an action has refused. -/
theorem rejects (h : Running repeats b c) (hlocates : b.Quiet c → Locates repeats b c e.span) :
    Stopped repeats b (.rejected e) c := by
  refine ⟨h.later, fun e past hrefused => .inr (h.refusals e past hrefused), ?_⟩
  rintro _ ⟨⟩ hquiet
  exact hlocates hquiet

/-- The token at the cursor can be rejected. -/
theorem unexpected (h : Running repeats b c) {token : Token} {message : String}
    (hpeek : c.tokenizer.peek = .ok token) :
    Stopped repeats b (.rejected ⟨message, token.span⟩) c :=
  h.rejects fun _ => .token hpeek rfl

/-- An action may refuse, and its error is the failure of the run. -/
theorem perform {α : Type} {answer : Answer α} {ok : α → Context → Prop}
    (h : Running repeats b c) (hok : ∀ a, answer = .ok a → ok a c) :
    (ParseM.perform answer).Ends c ok (Stopped repeats b) := by
  refine .perform hok (fun e _ => h.stops ⟨.note c _, fun e' past hrefused => ?_, ?_⟩)
    fun fault _ => h.fails nofun
  · cases hrefused.events_eq rfl
    exact .inl ⟨rfl, rfl⟩
  · intro e' _ hquiet
    exact absurd ⟨List.suffix_refl _, List.suffix_refl _⟩ (hquiet e c.journal.events)

/-- A repetition that ends in front of a round that fails has swallowed what an action has refused
there. -/
theorem swallows (h : Running repeats b c) {body : ParseM (Result V)} {minimum : Nat}
    {items : List (Result V)} (hrepeats : repeats body minimum)
    (houtcome : repetition body minimum b =
      (settleRounds b.tokenizer.position minimum items (some e) d.tokenizer.position,
        noted d (.repeated items.length minimum)))
    (hrounds : body.Progresses b items c) (hround : body c = (.error (.rejected e), d))
    (hstopped : Stopped repeats c (.rejected e) d) (hsame : d.tokenizer = c.tokenizer) :
    Running repeats b (noted d (.repeated items.length minimum)) := by
  have hnote : d.Later (noted d (.repeated items.length minimum)) := .note d _
  refine ⟨(h.later.trans hstopped.later).trans hnote, fun e' past hrefused => ?_⟩
  rcases hrefused.split hnote with hloop | hnoted
  · rcases hloop.split hstopped.later with hfirst | hlast
    · exact (h.refusals e' past hfirst).within (.refl b) (hstopped.later.trans hnote)
    · rcases hstopped.refusals e' past hlast with ⟨heq, hevents⟩ | hswallowed
      · cases heq
        exact .round ⟨hrepeats, .refl b, houtcome, .refl _⟩ hrounds hround hsame hlast.since hevents
      · exact hswallowed.within h.later hnote
  · exact absurd hnoted (Quiet.note d rfl e' past)

end Running

end Context

/-! ## Runs that report -/

/-- True if the run from the context fails with an error, and no action has refused. -/
def ParseM.rejects {α : Type} (x : ParseM α) (c : Context) : Bool :=
  match x c with
  | (.error (.rejected _), d) => d.journal.events.all fun event => event.refused? = none
  | _ => false

theorem ParseM.exists_of_rejects {α : Type} {x : ParseM α} {c : Context} (h : x.rejects c = true) :
    ∃ e d, x c = (.error (.rejected e), d) ∧ c.Quiet d := by
  unfold rejects at h
  split at h
  · next e d hx =>
    refine ⟨e, d, hx, .of_events fun event hevent => ?_⟩
    simpa using List.all_eq_true.1 h event hevent
  · cases h

/-- Wherever the run begins, it goes on or stops as it should. -/
def ParseM.Reports (repeats : ParseM (Result V) → Nat → Prop) (x : ParseM (Result V)) : Prop :=
  ∀ c, x.Ends c (fun _ d => c.Running repeats d) (c.Stopped repeats)

section

variable {repeats : ParseM (Result V) → Nat → Prop} {b c : Context}

/-- A run reports behind what has gone before it. -/
theorem ParseM.Reports.behind {x : ParseM (Result V)} {ok : Result V → Context → Prop}
    (hx : x.Reports repeats) (hc : b.Running repeats c)
    (hok : ∀ r d, b.Running repeats d → ok r d) : x.Ends c ok (b.Stopped repeats) :=
  (hx c).mono (fun r d hd => hok r d (hc.trans hd)) fun _ _ he => hc.stops he

/-! ## Tokens -/

theorem expectToken_reports (type : TokenType) :
    (expectToken type : ParseM (Result V)).Reports repeats := by
  intro c
  have hc : c.Running repeats c := .refl c
  refine .bind (.peeking (fun token hpeek => ?_) fun _ => hc.fails nofun)
  cases his : token.is type with
  | true =>
    refine .bind (.committing (fun tokenizer hm => .pure ?_) fun _ => hc.fails nofun)
    exact hc.commit hm (Token.kind_of_is his)
  | false => exact .unexpected fun _ => hc.unexpected hpeek

theorem expectEnd_reports : (expectEnd : ParseM (Result V)).Reports repeats := by
  intro c
  have hc : c.Running repeats c := .refl c
  refine .bind (.peeking (fun token hpeek => ?_) fun _ => hc.fails nofun)
  cases token.isEndOfInput with
  | true => exact .pure hc
  | false => exact .unexpected fun _ => hc.unexpected hpeek

/-! ## Sequences -/

variable {run : P → ParseM (Result V)} {parts : List (Member P)}

theorem members_report (hrun : ∀ m ∈ parts, (run m.parser).Reports repeats)
    (covered : Option Span) (hc : b.Running repeats c) :
    (members run parts covered).Ends c (fun _ d => b.Running repeats d) (b.Stopped repeats) := by
  induction parts generalizing covered c with
  | nil => exact .pure hc
  | cons m parts ih =>
    refine .bind ((hrun m (.head _)).behind hc fun r d hd => .bind ?_)
    refine extend_ends (fun covered => .bind ?_) fun _ => hd.fails nofun
    refine (ih (fun m' hm' => hrun m' (.tail _ hm')) (some covered) hd).imp fun rest e he => ?_
    cases m.mark <;> exact .pure he

/-- A sequence reports if its members do, whatever its action is. -/
theorem sequence_reports (hrun : ∀ m ∈ parts, (run m.parser).Reports repeats)
    (action : Option (TupleAction V)) : (sequence run parts action).Reports repeats := by
  intro c
  refine .bind (.position (.bind ?_))
  refine (members_report hrun none (.refl c)).imp fun result d hd => ?_
  cases action with
  | none => exact .pure hd
  | some f => exact .bind (hd.perform fun v _ => .pure hd)

/-! ## Repetitions -/

variable {body : ParseM (Result V)} {minimum : Nat} {items : List (Result V)}
  {reason : Option ParseError} {d : Context}

/-- Rounds that make progress go on. -/
theorem ParseM.Progresses.running (h : body.Progresses c items d) (hbody : body.Reports repeats) :
    c.Running repeats d := by
  induction h with
  | nil => exact .refl _
  | cons hround _ _ ih => exact ((hbody _).result hround).trans ih

/-- A repetition reports what it makes of its rounds, if their end is located where they are too
few. -/
theorem settleRounds_reports {x : ParseM (Result V)} {start stop : Position}
    (hrun : x c = (settleRounds start minimum items reason stop, d)) (hd : c.Running repeats d)
    (hlocates : items.length < minimum → c.Quiet d →
      c.Locates repeats d (tooFewRounds minimum items.length reason stop).span) :
    x.Ends c (fun _ d => c.Running repeats d) (c.Stopped repeats) := by
  cases hsettle : settleRounds start minimum items reason stop with
  | ok r => exact .of_ok (hrun.trans (by rw [hsettle])) hd
  | error failure =>
    refine .of_error (hrun.trans (by rw [hsettle])) ?_
    cases failure with
    | rejected e =>
      obtain ⟨hfew, rfl⟩ := settleRounds_eq_rejected.1 hsettle
      exact hd.rejects (hlocates hfew)
    | fault | exhausted => exact hd.fails nofun

/-- A repetition reports if its body does. -/
theorem repetition_reports (hrepeats : repeats body minimum) (hbody : body.Reports repeats) :
    (repetition body minimum).Reports repeats := by
  intro c
  obtain ⟨items, c', ending, hrounds, hend, hloop⟩ :=
    repetitions_rounds body (c.tokenizer.cursor.rest.length + 1) c
  have hc : c.Running repeats c' := hrounds.running hbody
  have houtcome := repetition_apply body minimum c
  rw [hloop] at houtcome
  cases hend with
  | exhausted => exact .of_error houtcome (hc.fails nofun)
  | failed hround => exact .of_error houtcome (hc.stops ((hbody c').failure hround))
  | still hround hsame =>
    have hd := (hbody c').result hround
    have htokenizer := hd.later.leadsTo.eq_of_offset hsame
    refine settleRounds_reports houtcome ((hc.trans hd).note rfl) fun hfew _ => .stalled rfl ?_
    exact .rounds ⟨hrepeats, .refl c, houtcome, .refl _⟩ hrounds hround htokenizer hfew rfl
  | @stopped d e hround hsame =>
    have hstopped := (hbody c').failure hround
    have htokenizer := hstopped.later.leadsTo.eq_of_offset hsame
    simp only [behindRounds, Except.map, List.append_nil] at houtcome
    refine settleRounds_reports houtcome
      (hc.swallows hrepeats houtcome hrounds hround hstopped htokenizer) fun _ hquiet => ?_
    have hnote : d.Later (noted d (.repeated items.length minimum)) := .note d _
    have hlocated := hstopped.located _ rfl ((hquiet.before hnote).behind hc.later)
    exact (hlocated.behind hc.later).still hnote rfl

/-! ## Choices -/

variable {g : Grammar V} {slot : Nat} {alternatives : List (Parser V)}

/-- Finding the FIRST sets of a choice leaves the cursor where it is. -/
theorem predict_reports :
    (predict g slot alternatives).Ends c
      (fun _ d => c.Running repeats d ∧ d.tokenizer = c.tokenizer) (c.Stopped repeats) := by
  have hc : c.Running repeats c := .refl c
  refine .bind (.get ?_)
  split
  · exact .pure ⟨hc, rfl⟩
  · split
    · next firsts _ =>
      refine .bind (.note (.bind (.modify (.pure ⟨?_, rfl⟩))))
      have hnoted : c.Running repeats (noted c (.predicted firsts.length)) := hc.note rfl
      exact hnoted.trans (.step (.of_same rfl rfl) (.of_same rfl))
    · exact .throw (hc.fails nofun)

/-- The event of a choice is none of an action. -/
theorem Event.Selects.refused? {event : Event} (h : event.Selects) : event.refused? = none := by
  cases h <;> rfl

/-- A choice reports if its alternatives do. -/
theorem choice_reports {run : Parser V → ParseM (Result V)}
    (hrun : ∀ q ∈ alternatives, (run q).Reports repeats) :
    (chooseAlternative g run slot alternatives).Reports repeats := by
  intro c
  refine choice_ends (fun _ _ => (Context.Running.refl c).fails nofun) predict_reports ?_ ?_
  · intro q hq event d hevent hd
    exact (hrun q hq).behind (hd.1.note hevent.refused?) fun _ _ hr => hr
  · intro token d hpeek hd
    exact hd.1.unexpected (hd.2 ▸ hpeek)

end

end PredictiveParsing
