import PredictiveParsing.Proofs.Grammar.Depth
import PredictiveParsing.Proofs.Grammar.Nesting
import PredictiveParsing.Proofs.Grammar.Standstill
import PredictiveParsing.Proofs.Repeating

/-!
# Repetitions as runs of their bodies

A repetition is the maximal run of its body. Its rounds (`Parser.Rounds`) each succeed and move the
cursor, and they end in one of three ways: with a round that succeeds and consumes nothing, in front
of a round that fails without consuming anything, or with a round that fails having consumed
something. The first two make a maximal run (`Parser.MaximalRun`), which the repetition answers if
it is long enough and its results can be covered; the third is the failure of the repetition,
whatever the minimum is. Results can always be covered unless an action of an operator table places
them out of order (`misplacedSign_many_fails`).

`Parser.Rounds.repetitions` goes through the rounds of the loop, and `Parser.run_many_eq` tells all
outcomes of a repetition by its runs. All of it is about outcomes and tokenizers
(`Parser.Yields`), on which journals have no influence, and holds wherever the body returns
(`Parser.repeats_maximally`).
-/

namespace PredictiveParsing

open ParseM

variable {V : Type}

/-! ## Runs of bodies -/

/-- Run from the first tokenizer, the parser has the outcome and leaves the second one. -/
def Parser.Yields (g : Grammar V) (p : Parser V) (t : Tokenizer)
    (outcome : Except Failure (Result V)) (t' : Tokenizer) : Prop :=
  ∃ journal, p.run g ⟨t, .forgetful⟩ = (outcome, ⟨t', journal⟩)

/-- The run of the parser from the tokenizer returns, with a result or an error. -/
def Parser.Returns (g : Grammar V) (p : Parser V) (t : Tokenizer) : Prop :=
  ∃ t', (∃ r, p.Yields g t (.ok r) t') ∨ ∃ e, p.Yields g t (.error (.rejected e)) t'

/-- Run over and over from the first tokenizer to the second, the body succeeds with the results, and
each time it consumes something. -/
inductive Parser.Rounds (g : Grammar V) (body : Parser V) :
    Tokenizer → List (Result V) → Tokenizer → Prop
  | nil {t : Tokenizer} : Rounds g body t [] t
  | cons {t t' t'' : Tokenizer} {r : Result V} {items : List (Result V)}
      (yields : body.Yields g t (.ok r) t') (moved : t.position.offset < t'.position.offset)
      (rest : Rounds g body t' items t'') : Rounds g body t (r :: items) t''

/-- Rounds that end by themselves: with one more that consumes nothing, or in front of one that
fails without consuming anything, whose error is the reason why they end. -/
inductive Parser.MaximalRun (g : Grammar V) (body : Parser V) (t : Tokenizer) :
    List (Result V) → Option ParseError → Tokenizer → Prop
  | still {t' : Tokenizer} {items : List (Result V)} {r : Result V}
      (rounds : Rounds g body t items t') (last : body.Yields g t' (.ok r) t') :
      MaximalRun g body t (items ++ [r]) none t'
  | stopped {t' : Tokenizer} {items : List (Result V)} {e : ParseError}
      (rounds : Rounds g body t items t') (next : body.Yields g t' (.error (.rejected e)) t') :
      MaximalRun g body t items (some e) t'

/-- Rounds that break off in one that fails having consumed something, with the error and the
tokenizer that it leaves. -/
inductive Parser.BrokenRun (g : Grammar V) (body : Parser V) (t : Tokenizer) :
    List (Result V) → ParseError → Tokenizer → Prop
  | broken {t' t'' : Tokenizer} {items : List (Result V)} {e : ParseError}
      (rounds : Rounds g body t items t') (next : body.Yields g t' (.error (.rejected e)) t'')
      (moved : t'.position.offset < t''.position.offset) : BrokenRun g body t items e t''

section

variable {g : Grammar V} {p body : Parser V} {t t' t'' : Tokenizer}
  {outcome : Except Failure (Result V)} {c : Context} {depth n : Nat} {items : List (Result V)}
  {reason : Option ParseError} {r : Result V} {e : ParseError}

namespace Parser

theorem Yields.leadsTo (h : p.Yields g t outcome t') : t.LeadsTo t' := by
  obtain ⟨journal, hrun⟩ := h
  exact (runWithin_advances g _ p).leadsTo hrun

/-- A run moves on, or leaves the tokenizer as it was. -/
theorem Yields.eq_or_moved (h : p.Yields g t outcome t') :
    t' = t ∨ t.position.offset < t'.position.offset := by
  by_cases hsame : t'.position.offset = t.position.offset
  · exact .inl (h.leadsTo.eq_of_offset hsame)
  · have hle := h.leadsTo.advanced.forward
    exact .inr (by omega)

/-- A run that moves on leaves less to read. -/
theorem Yields.rest_lt (h : p.Yields g t outcome t')
    (hmoved : t.position.offset < t'.position.offset) :
    t'.cursor.rest.length < t.cursor.rest.length := by
  rcases h.leadsTo.eq_or_lt with rfl | hlt
  · exact absurd hmoved (Nat.lt_irrefl _)
  · exact hlt

/-- At a depth that is enough, a parser does what its run does, unless that is exhausted. -/
theorem Yields.runWithin (h : p.Yields g c.tokenizer outcome t')
    (hanswer : outcome ≠ .error .exhausted) (hj : c.journal.Faithful g p)
    (hdepth : p.depthFor g c.tokenizer.cursor.rest.length ≤ depth) :
    ∃ d, p.runWithin g depth c = (outcome, d) ∧ d.tokenizer = t' ∧ d.journal.Faithful g p := by
  obtain ⟨journal, hrun⟩ := h
  have halike : Alike c.tokenizer (.trusted g p) (.trusted g p) ⟨c.tokenizer, .forgetful⟩ c :=
    ⟨rfl, .refl _, .forgetful, hj⟩
  have hanswers : (p.run g ⟨c.tokenizer, .forgetful⟩).1 ≠ .error .exhausted := by rwa [hrun]
  obtain ⟨outcome', c', d', hc, hd, hend⟩ :=
    (runWithin_follows (.inr ⟨trivial, hdepth⟩) .refl).ends_alike halike fun _ => hanswers
  cases hrun.symm.trans hc
  exact ⟨d', hd, hend.tokenizer, hend.right⟩

theorem depthFor_mono (p : Parser V) {m : Nat} (h : m ≤ n) : p.depthFor g m ≤ p.depthFor g n :=
  Nat.mul_le_mul_right _ (Nat.succ_le_succ h)

/-! ## Loops over rounds -/

/-- The loop stands at the tokenizer, with a journal to be trusted, with depth enough for the body
and with rounds enough for what is left to read. -/
structure AtRound (g : Grammar V) (body : Parser V) (depth : Nat) (t : Tokenizer) (n : Nat)
    (c : Context) : Prop where
  tokenizer : c.tokenizer = t
  journal : c.journal.Faithful g body
  depth : body.depthFor g t.cursor.rest.length ≤ depth
  rounds : t.cursor.rest.length < n

/-- What the body yields is what it does in the loop. -/
theorem AtRound.runWithin (h : AtRound g body depth t n c) (hyields : body.Yields g t outcome t')
    (hanswer : outcome ≠ .error .exhausted) :
    ∃ d, body.runWithin g depth c = (outcome, d) ∧ d.tokenizer = t' ∧
      d.journal.Faithful g body := by
  obtain ⟨rfl, hj, hdepth, -⟩ := h
  exact hyields.runWithin hanswer hj hdepth

/-- A round that consumes something leads to the next one. -/
theorem AtRound.round (h : AtRound g body depth t n c) (hyields : body.Yields g t (.ok r) t')
    (hmoved : t.position.offset < t'.position.offset) :
    ∃ m d, AtRound g body depth t' m d ∧ repetitions (body.runWithin g depth) n c =
      behindRounds [r] (repetitions (body.runWithin g depth) m d) := by
  obtain ⟨d, hrun, hd, hj⟩ := h.runWithin hyields nofun
  obtain ⟨m, rfl⟩ := Nat.exists_eq_add_one.2 (Nat.zero_lt_of_lt h.rounds)
  have hlt := hyields.rest_lt hmoved
  have hrounds := h.rounds
  have hdepth := Nat.le_trans (depthFor_mono body (Nat.le_of_lt hlt)) h.depth
  refine ⟨m, d, ⟨hd, hj, hdepth, by omega⟩, ?_⟩
  rw [repetitions_succ, hrun]
  dsimp only
  rw [if_neg (by rw [hd, h.tokenizer]; omega)]

/-- A loop goes through the rounds of its body. -/
theorem Rounds.repetitions (h : Rounds g body t items t') (hc : AtRound g body depth t n c) :
    ∃ m d, AtRound g body depth t' m d ∧ repetitions (body.runWithin g depth) n c =
      behindRounds items (repetitions (body.runWithin g depth) m d) := by
  induction h generalizing n c with
  | nil => exact ⟨n, c, hc, (behindRounds_nil _).symm⟩
  | cons hyields hmoved _ ih =>
    obtain ⟨m, d, hd, hfirst⟩ := hc.round hyields hmoved
    obtain ⟨m', d', hd', hrest⟩ := ih hd
    exact ⟨m', d', hd', by rw [hfirst, hrest, behindRounds_cons]⟩

/-- Behind the rounds of its body, a loop runs the body once more. -/
theorem AtRound.next (hc : AtRound g body depth t n c) (h : Rounds g body t items t')
    (hnext : body.Yields g t' outcome t'') (hanswer : outcome ≠ .error .exhausted) :
    ∃ m d e, d.tokenizer = t' ∧ e.tokenizer = t'' ∧ body.runWithin g depth d = (outcome, e) ∧
      repetitions (body.runWithin g depth) n c =
        behindRounds items (repetitions (body.runWithin g depth) (m + 1) d) := by
  obtain ⟨m, d, hd, hloop⟩ := h.repetitions hc
  obtain ⟨e, hrun, he, -⟩ := hd.runWithin hnext hanswer
  obtain ⟨m, rfl⟩ := Nat.exists_eq_add_one.2 (Nat.zero_lt_of_lt hd.rounds)
  exact ⟨m, d, e, hd.tokenizer, he, hrun, hloop⟩

/-- The loop of a maximal run answers its results and the reason why it ends, where it ends. -/
theorem MaximalRun.repetitions (h : MaximalRun g body t items reason t')
    (hc : AtRound g body depth t n c) :
    ∃ d, d.tokenizer = t' ∧
      repetitions (body.runWithin g depth) n c = (.ok (items, reason), d) := by
  cases h with
  | still rounds last =>
    obtain ⟨m, d, e, hd, he, hrun, hloop⟩ := hc.next rounds last nofun
    refine ⟨e, he, ?_⟩
    rw [hloop, repetitions_succ, hrun]
    dsimp only
    rw [if_pos (by rw [he, hd])]
    rfl
  | stopped rounds next =>
    obtain ⟨m, d, e, hd, he, hrun, hloop⟩ := hc.next rounds next nofun
    refine ⟨e, he, ?_⟩
    rw [hloop, repetitions_succ, hrun]
    dsimp only
    rw [if_pos (by rw [he, hd])]
    simp only [behindRounds, Except.map, List.append_nil]

/-- The loop of a broken run fails as its last round does. -/
theorem BrokenRun.repetitions (h : BrokenRun g body t items e t')
    (hc : AtRound g body depth t n c) :
    ∃ d, d.tokenizer = t' ∧
      repetitions (body.runWithin g depth) n c = (.error (.rejected e), d) := by
  obtain ⟨rounds, next, hmoved⟩ := h
  obtain ⟨m, d, d', hd, hd', hrun, hloop⟩ := hc.next rounds next nofun
  refine ⟨d', hd', ?_⟩
  rw [hloop, repetitions_succ, hrun]
  dsimp only
  rw [if_neg (by rw [hd', hd]; omega)]
  rfl

/-- A round in front of a maximal run makes another one. -/
theorem MaximalRun.cons (hyields : body.Yields g t (.ok r) t')
    (hmoved : t.position.offset < t'.position.offset)
    (h : MaximalRun g body t' items reason t'') :
    MaximalRun g body t (r :: items) reason t'' := by
  cases h with
  | still rounds last => exact .still (.cons hyields hmoved rounds) last
  | stopped rounds next => exact .stopped (.cons hyields hmoved rounds) next

/-- A run from a tokenizer has one outcome, and leaves one tokenizer. -/
theorem Yields.unique {outcome' : Except Failure (Result V)} (h : p.Yields g t outcome t')
    (h' : p.Yields g t outcome' t'') : outcome = outcome' ∧ t' = t'' := by
  obtain ⟨journal, hrun⟩ := h
  obtain ⟨journal', hrun'⟩ := h'
  cases hrun.symm.trans hrun'
  exact ⟨rfl, rfl⟩

/-- Where the body returns without moving, there are no more rounds, and it returns behind all those
that there are. -/
theorem Rounds.returns (h : Rounds g body t items t')
    (hlast : (∃ r, body.Yields g t' (.ok r) t') ∨ ∃ e, body.Yields g t' (.error (.rejected e)) t')
    {items' : List (Result V)} (h' : Rounds g body t items' t'') : body.Returns g t'' := by
  induction h generalizing items' with
  | nil =>
    cases h' with
    | nil => exact ⟨_, hlast⟩
    | cons hyields hmoved _ =>
      rcases hlast with ⟨r, hlast⟩ | ⟨e, hlast⟩
      · obtain ⟨-, rfl⟩ := hyields.unique hlast
        exact absurd hmoved (Nat.lt_irrefl _)
      · cases (hyields.unique hlast).1
  | cons hyields _ _ ih =>
    cases h' with
    | nil => exact ⟨_, .inl ⟨_, hyields⟩⟩
    | cons hyields' _ hrest =>
      obtain ⟨-, rfl⟩ := hyields'.unique hyields
      exact ih hlast hrest

/-- If the body returns behind all rounds, the rounds end by themselves, or break off. -/
theorem exists_run (hreturns : ∀ items t', Rounds g body t items t' → body.Returns g t') :
    (∃ items reason t', MaximalRun g body t items reason t') ∨
      ∃ items e t', BrokenRun g body t items e t' := by
  induction hn : t.cursor.rest.length using Nat.strongRecOn generalizing t with
  | _ n ih =>
    obtain ⟨t', ⟨r, hyields⟩ | ⟨e, hyields⟩⟩ := hreturns [] t .nil
    · rcases hyields.eq_or_moved with rfl | hmoved
      · exact .inl ⟨[r], none, t', .still .nil hyields⟩
      · have hlt := hyields.rest_lt hmoved
        have hrest := ih _ (hn ▸ hlt)
          (fun items t'' h => hreturns _ t'' (.cons hyields hmoved h)) rfl
        refine hrest.imp ?_ ?_
        · rintro ⟨items, reason, t'', h⟩
          exact ⟨r :: items, reason, t'', h.cons hyields hmoved⟩
        · rintro ⟨items, e, t'', ⟨rounds, next, hbroken⟩⟩
          exact ⟨r :: items, e, t'', .broken (.cons hyields hmoved rounds) next hbroken⟩
    · rcases hyields.eq_or_moved with rfl | hmoved
      · exact .inl ⟨[], some e, t', .stopped .nil hyields⟩
      · exact .inr ⟨[], e, t', .broken .nil hyields hmoved⟩

/-- A repetition begins its loop with depth and rounds enough. -/
theorem run_many_atRound (hj : c.journal.Faithful g body) (minimum : Nat) :
    ∃ depth, AtRound g body depth c.tokenizer (c.tokenizer.cursor.rest.length + 1) c ∧
      (many body minimum).run g c = repetition (body.runWithin g depth) minimum c := by
  obtain ⟨depth, hdepth, hrun⟩ := run_many g body minimum c
  have hlt := depthFor_lt_many g body minimum c.tokenizer.cursor.rest.length
  exact ⟨depth, ⟨rfl, hj, by omega, Nat.lt_succ_self _⟩, hrun⟩

/-- A repetition makes its outcome of a maximal run of its body, and ends where that ends. -/
theorem MaximalRun.run (h : MaximalRun g body c.tokenizer items reason t')
    (hj : c.journal.Faithful g body) (minimum : Nat) :
    ∃ journal, (many body minimum).run g c =
      (settleRounds c.tokenizer.position minimum items reason t'.position, ⟨t', journal⟩) := by
  obtain ⟨depth, hc, hrun⟩ := run_many_atRound hj minimum
  obtain ⟨d, rfl, hloop⟩ := h.repetitions hc
  exact ⟨_, by rw [hrun, repetition_apply, hloop]; rfl⟩

/-- A repetition whose body fails having consumed something fails so itself. -/
theorem BrokenRun.run (h : BrokenRun g body c.tokenizer items e t')
    (hj : c.journal.Faithful g body) (minimum : Nat) :
    ∃ journal, (many body minimum).run g c = (.error (.rejected e), ⟨t', journal⟩) := by
  obtain ⟨depth, hc, hrun⟩ := run_many_atRound hj minimum
  obtain ⟨d, rfl, hloop⟩ := h.repetitions hc
  exact ⟨_, by rw [hrun, repetition_apply, hloop]⟩

/-- The results of a maximal run can be covered, if the actions of operator tables answer what
nests. -/
theorem MaximalRun.coverable {input : Text} (h : MaximalRun g body c.tokenizer items reason t')
    (hj : c.journal.Faithful g body) (hc : c.InPlace input) (hactions : g.ActionsNest body input) :
    Result.Coverable items := by
  obtain ⟨depth, hround, -⟩ := run_many_atRound hj 0
  obtain ⟨d, -, hloop⟩ := h.repetitions hround
  have hnests := repetitions_nest (runWithin_nests hactions depth .refl)
    (c.tokenizer.cursor.rest.length + 1) hc
  obtain ⟨_, -, -, hturn⟩ := hnests.result hloop
  exact (Result.coverAll_eq_ok.1 hturn.coverAll.1).1

/-! ## Repetitions -/

/-- What is known of the repetitions of a body that run from a context. -/
structure RepeatsMaximally (g : Grammar V) (c : Context) (body : Parser V) : Prop where
  /-- They end. -/
  ends : ∀ minimum, ((many body minimum).run g c).1 ≠ .error .exhausted
  /-- They succeed with the results of a maximal run that is long enough, and stand where it ends,
  provided that the last of the results does not end in front of the first one. -/
  succeeds : ∀ minimum r t', (∃ journal, (many body minimum).run g c = (.ok r, ⟨t', journal⟩)) ↔
    ∃ items reason, MaximalRun g body c.tokenizer items reason t' ∧ minimum ≤ items.length ∧
      Result.Coverable items ∧ r = .list items (Result.region c.tokenizer.position items)
  /-- Where the body fails having consumed something, they fail with that error, whatever the
  minimum is, and stand where the body has left the cursor. -/
  breaks : ∀ items e t', BrokenRun g body c.tokenizer items e t' → ∀ minimum, ∃ journal,
    (many body minimum).run g c = (.error (.rejected e), ⟨t', journal⟩)
  /-- They fail with no other errors but those of maximal runs that are too short, and stand where
  these end. -/
  rejects : ∀ minimum e t',
    (∃ journal, (many body minimum).run g c = (.error (.rejected e), ⟨t', journal⟩)) ↔
      (∃ items, BrokenRun g body c.tokenizer items e t') ∨
        ∃ items reason, MaximalRun g body c.tokenizer items reason t' ∧ items.length < minimum ∧
          e = tooFewRounds minimum items.length reason t'.position
  /-- They are at fault for a maximal run that is long enough and whose last result ends in front of
  the first one, and for nothing else. -/
  faults : ∀ minimum t',
    (∃ fault journal, (many body minimum).run g c = (.error (.fault fault), ⟨t', journal⟩)) ↔
      ∃ items reason, MaximalRun g body c.tokenizer items reason t' ∧ minimum ≤ items.length ∧
        ¬ Result.Coverable items
  /-- This cannot be if the actions of operator tables answer what nests. -/
  covers : c.tokenizer.cursor.Placed → g.ActionsNest body c.tokenizer.cursor.input →
    ∀ items reason t', MaximalRun g body c.tokenizer items reason t' → Result.Coverable items
  /-- With a minimum they succeed as they do without one, if there are results enough. -/
  filtered : ∀ minimum r t', (∃ journal, (many body minimum).run g c = (.ok r, ⟨t', journal⟩)) ↔
    (∃ journal, (many body 0).run g c = (.ok r, ⟨t', journal⟩)) ∧
      ∃ items span, r = .list items span ∧ minimum ≤ items.length
  /-- If there are not, they fail where they would have succeeded without a minimum. -/
  tooFew : ∀ minimum items span t',
    (∃ journal, (many body 0).run g c = (.ok (.list items span), ⟨t', journal⟩)) →
      items.length < minimum → ∃ reason journal, (many body minimum).run g c =
        (.error (.rejected (tooFewRounds minimum items.length reason t'.position)), ⟨t', journal⟩)
  /-- The errors without a minimum are errors with every minimum. -/
  fails : ∀ minimum e t',
    (∃ journal, (many body 0).run g c = (.error (.rejected e), ⟨t', journal⟩)) →
      ∃ journal, (many body minimum).run g c = (.error (.rejected e), ⟨t', journal⟩)

/-- Where a body returns, its repetitions make their outcomes of a maximal run, or fail as a broken
run does. -/
theorem run_many_eq (hj : c.journal.Faithful g body)
    (hreturns : ∀ items t, Rounds g body c.tokenizer items t → body.Returns g t) {minimum : Nat} :
    (∃ journal, (many body minimum).run g c = (outcome, ⟨t', journal⟩)) ↔
      (∃ items reason, MaximalRun g body c.tokenizer items reason t' ∧
        settleRounds c.tokenizer.position minimum items reason t'.position = outcome) ∨
      ∃ items e, BrokenRun g body c.tokenizer items e t' ∧ .error (.rejected e) = outcome := by
  constructor
  · rintro ⟨journal, hrun⟩
    rcases exists_run hreturns with ⟨items, reason, t'', h⟩ | ⟨items, e, t'', h⟩
    · obtain ⟨journal', hrun'⟩ := h.run hj minimum
      obtain ⟨hsettle, hcontext⟩ := Prod.mk.inj (hrun'.symm.trans hrun)
      cases hcontext
      exact .inl ⟨items, reason, h, hsettle⟩
    · obtain ⟨journal', hrun'⟩ := h.run hj minimum
      obtain ⟨hfails, hcontext⟩ := Prod.mk.inj (hrun'.symm.trans hrun)
      cases hcontext
      exact .inr ⟨items, e, h, hfails⟩
  · rintro (⟨items, reason, h, rfl⟩ | ⟨items, e, h, rfl⟩)
    · exact h.run hj minimum
    · exact h.run hj minimum

/-- A repetition succeeds with the results of a maximal run that is long enough, if they can be
covered. -/
theorem run_many_eq_ok (hj : c.journal.Faithful g body)
    (hreturns : ∀ items t, Rounds g body c.tokenizer items t → body.Returns g t) {minimum : Nat} :
    (∃ journal, (many body minimum).run g c = (.ok r, ⟨t', journal⟩)) ↔
      ∃ items reason, MaximalRun g body c.tokenizer items reason t' ∧ minimum ≤ items.length ∧
        Result.Coverable items ∧ r = .list items (Result.region c.tokenizer.position items) := by
  rw [run_many_eq hj hreturns]
  constructor
  · rintro (⟨items, reason, h, hsettle⟩ | ⟨_, _, _, ⟨⟩⟩)
    exact ⟨items, reason, h, settleRounds_eq_ok.1 hsettle⟩
  · rintro ⟨items, reason, h, hsettle⟩
    exact .inl ⟨items, reason, h, settleRounds_eq_ok.2 hsettle⟩

/-- A repetition is rejected with the error of a broken run, or for a maximal run that is too
short. -/
theorem run_many_eq_rejected (hj : c.journal.Faithful g body)
    (hreturns : ∀ items t, Rounds g body c.tokenizer items t → body.Returns g t) {minimum : Nat} :
    (∃ journal, (many body minimum).run g c = (.error (.rejected e), ⟨t', journal⟩)) ↔
      (∃ items, BrokenRun g body c.tokenizer items e t') ∨
        ∃ items reason, MaximalRun g body c.tokenizer items reason t' ∧ items.length < minimum ∧
          e = tooFewRounds minimum items.length reason t'.position := by
  rw [run_many_eq hj hreturns]
  constructor
  · rintro (⟨items, reason, h, hsettle⟩ | ⟨items, e, h, ⟨⟩⟩)
    · exact .inr ⟨items, reason, h, settleRounds_eq_rejected.1 hsettle⟩
    · exact .inl ⟨items, h⟩
  · rintro (⟨items, h⟩ | ⟨items, reason, h, hsettle⟩)
    · exact .inr ⟨items, e, h, rfl⟩
    · exact .inl ⟨items, reason, h, settleRounds_eq_rejected.2 hsettle⟩

/-- A repetition is at fault for a maximal run that is long enough and cannot be covered. -/
theorem run_many_eq_fault (hj : c.journal.Faithful g body)
    (hreturns : ∀ items t, Rounds g body c.tokenizer items t → body.Returns g t) {minimum : Nat} :
    (∃ fault journal, (many body minimum).run g c = (.error (.fault fault), ⟨t', journal⟩)) ↔
      ∃ items reason, MaximalRun g body c.tokenizer items reason t' ∧ minimum ≤ items.length ∧
        ¬ Result.Coverable items := by
  constructor
  · rintro ⟨fault, hrun⟩
    rcases (run_many_eq hj hreturns).1 hrun with ⟨items, reason, h, hsettle⟩ | ⟨_, _, _, ⟨⟩⟩
    exact ⟨items, reason, h, exists_settleRounds_eq_fault.1 ⟨fault, hsettle⟩⟩
  · rintro ⟨items, reason, h, hsettle⟩
    obtain ⟨fault, hfault⟩ := exists_settleRounds_eq_fault.2 hsettle
    exact ⟨fault, (run_many_eq hj hreturns).2 (.inl ⟨items, reason, h, hfault⟩)⟩

/-- A repetition is the maximal run of its body. Wherever the body returns, the repetition succeeds
with the results of the maximal run if there are enough of them and they can be covered, and it fails
with the very error of a round that has consumed something. So a minimum does nothing but to
filter. -/
theorem repeats_maximally (hj : c.journal.Faithful g body)
    (hreturns : ∀ items t, Rounds g body c.tokenizer items t → body.Returns g t) :
    body.RepeatsMaximally g c where
  ends minimum hexhausted := by
    have hrun := (run_many_eq hj hreturns).1 ⟨_, Prod.ext hexhausted rfl⟩
    rcases hrun with ⟨items, reason, -, hsettle⟩ | ⟨_, _, _, ⟨⟩⟩
    exact settleRounds_ne_exhausted hsettle
  succeeds minimum r t' := run_many_eq_ok hj hreturns
  breaks items e t' h minimum := h.run hj minimum
  rejects minimum e t' := run_many_eq_rejected hj hreturns
  faults minimum t' := run_many_eq_fault hj hreturns
  covers hplaced hactions items reason t' h := h.coverable hj ⟨hplaced, rfl⟩ hactions
  filtered minimum r t' := by
    rw [run_many_eq_ok hj hreturns, run_many_eq_ok hj hreturns]
    constructor
    · rintro ⟨items, reason, h, henough, hcoverable, rfl⟩
      exact ⟨⟨items, reason, h, Nat.zero_le _, hcoverable, rfl⟩, items, _, rfl, henough⟩
    · rintro ⟨⟨items, reason, h, -, hcoverable, rfl⟩, items', span', heq, henough⟩
      cases heq
      exact ⟨items, reason, h, henough, hcoverable, rfl⟩
  tooFew minimum items span t' hok hfew := by
    obtain ⟨items', reason, h, -, -, heq⟩ := (run_many_eq_ok hj hreturns).1 hok
    cases heq
    obtain ⟨journal, hrun⟩ := h.run hj minimum
    exact ⟨reason, journal, by rw [hrun, settleRounds_eq_rejected.2 ⟨hfew, rfl⟩]⟩
  fails minimum e t' hrejected := by
    rcases (run_many_eq_rejected hj hreturns).1 hrejected with ⟨items, h⟩ | ⟨_, _, -, hfew, -⟩
    · exact h.run hj minimum
    · exact absurd hfew (Nat.not_lt_zero _)

/-! ## Tokens -/

theorem Rounds.leadsTo (h : Rounds g body t items t') : t.LeadsTo t' := by
  induction h with
  | nil => exact .refl _
  | cons hyields _ _ ih => exact hyields.leadsTo.trans ih

/-- Where the cursor is placed, the run of a token returns. -/
theorem token_returns (g : Grammar V) (type : TokenType) (hplaced : t.cursor.Placed) :
    (token type).Returns g t := by
  obtain ⟨next, hpeek⟩ := Tokenizer.peek_of_placed hplaced
  obtain ⟨depth, hdepth⟩ : ∃ depth,
      (token type : Parser V).depthFor g t.cursor.rest.length = depth + 1 :=
    Nat.exists_eq_add_one.2 (Nat.mul_pos (Nat.succ_pos _) (Nat.succ_pos _))
  have hrun : (token type).run g ⟨t, .forgetful⟩ = expectToken type ⟨t, .forgetful⟩ := by
    show runWithin g _ _ _ = _
    rw [hdepth]
    rfl
  have hends : (expectToken type : ParseM (Result V)).Ends ⟨t, .forgetful⟩ (fun _ _ => True)
      (fun e _ => ∃ error, e = .rejected error) := by
    refine .bind (.peek hpeek ?_)
    cases next.is type with
    | true => exact .bind (.commit hpeek fun _ _ => .pure trivial)
    | false => exact .unexpected fun _ => ⟨_, rfl⟩
  rcases hends.cases with ⟨r, d, hok, -⟩ | ⟨_, d, herror, error, rfl⟩
  · exact ⟨d.tokenizer, .inl ⟨r, d.journal, by rw [hrun, hok]⟩⟩
  · exact ⟨d.tokenizer, .inr ⟨error, d.journal, by rw [hrun, herror]⟩⟩

end Parser

end

/-- Two signs in front of a digit. -/
def twiceSigned : Tokenizer := unsignedDigit.withInput ['-', '-', '7']

/-- The repetitions of a sign are the maximal run of signs. -/
theorem twiceSigned_repeats_maximally :
    (Parser.token "-").RepeatsMaximally (.empty : Grammar Unit) ⟨twiceSigned, .forgetful⟩ := by
  have hplaced : twiceSigned.cursor.Placed := .ofInput (by decide)
  refine Parser.repeats_maximally .forgetful fun items t h => ?_
  obtain ⟨tokens, hcommits, -⟩ := h.leadsTo
  exact Parser.token_returns .empty "-" (hcommits.placed hplaced)

/-- Two signs are too few for three rounds, and the digit is the reason. -/
example : ((Parser.many (.token "-") 3).run (.empty : Grammar Unit) ⟨twiceSigned, .forgetful⟩).1 =
    .error (.rejected (tooFewRounds 3 2
      (some ⟨"expected - but found digit \"7\"", ⟨⟨1, 3, 2⟩, ⟨1, 4, 3⟩⟩⟩) ⟨1, 3, 2⟩)) := rfl

/-- A sign or a digit, where the action of the sign places its value behind the whole input. -/
def misplacedSign : Parser Unit :=
  .expr ⟨[("-", .atom (some fun _ => .ok (.value () ⟨⟨1, 5, 4⟩, ⟨1, 6, 5⟩⟩))),
    ("digit", .atom none)], []⟩

/-- Behind what has been passed of a sign in front of a digit. -/
def signThenDigit (rest : Text) (position : Position) : Tokenizer :=
  { unsignedDigit with cursor := ⟨['-', '7'], rest, position⟩ }

/-- Behind the value that is out of place the digit cannot be covered: the maximal run is long
enough, and yet the repetition does not succeed. -/
theorem misplacedSign_many_fails :
    (∀ items t, Parser.Rounds .empty misplacedSign (signThenDigit ['-', '7'] .start) items t →
        misplacedSign.Returns .empty t) ∧
      (∃ items reason t, Parser.MaximalRun .empty misplacedSign (signThenDigit ['-', '7'] .start)
        items reason t ∧ 2 ≤ items.length) ∧
      ∀ r d, (Parser.many misplacedSign 2).run .empty
        ⟨signThenDigit ['-', '7'] .start, .forgetful⟩ ≠ (.ok r, d) := by
  have hsign : misplacedSign.Yields .empty (signThenDigit ['-', '7'] .start)
      (.ok (.value () ⟨⟨1, 5, 4⟩, ⟨1, 6, 5⟩⟩)) (signThenDigit ['7'] ⟨1, 2, 1⟩) := ⟨_, rfl⟩
  have hdigit : misplacedSign.Yields .empty (signThenDigit ['7'] ⟨1, 2, 1⟩)
      (.ok (.ofToken (.ordinary "digit" ⟨['7'], 1⟩ ⟨⟨1, 2, 1⟩, ⟨1, 3, 2⟩⟩)))
      (signThenDigit [] ⟨1, 3, 2⟩) := ⟨_, rfl⟩
  have hend : misplacedSign.Yields .empty (signThenDigit [] ⟨1, 3, 2⟩) (.error (.rejected
      ⟨"expected an expression but found end of input", .empty ⟨1, 3, 2⟩⟩))
      (signThenDigit [] ⟨1, 3, 2⟩) := ⟨_, rfl⟩
  have hrounds := Parser.Rounds.cons hsign (by decide) (.cons hdigit (by decide) .nil)
  refine ⟨fun items t h => hrounds.returns (.inr ⟨_, hend⟩) h,
    ⟨_, _, _, .stopped hrounds hend, Nat.le_refl 2⟩, fun r d hrun => ?_⟩
  have hfault : ((Parser.many misplacedSign 2).run .empty
      ⟨signThenDigit ['-', '7'] .start, .forgetful⟩).1 =
      .error (.fault (.reversedSpan ⟨1, 5, 4⟩ ⟨1, 3, 2⟩)) := rfl
  cases hfault.symm.trans (congrArg Prod.fst hrun)

end PredictiveParsing
