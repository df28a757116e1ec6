import PredictiveParsing.Proofs.Nesting

/-!
# Loops of repetitions

A loop over a body is told by its rounds. First come rounds that succeed and consume something
(`ParseM.Progresses`), and behind them the loop ends (`ParseM.LoopEnds`): with a round that consumes
nothing, whether it succeeds or fails, or by failing itself. `repetitions_rounds` splits every loop
so, and `repetition_apply` is what a repetition makes of its loop.
-/

namespace PredictiveParsing

open ParseM

variable {V : Type}

/-! ## Rounds -/

/-- Over and over the body succeeds from the first context to the second, with the results, and each
time it consumes something. -/
inductive ParseM.Progresses (body : ParseM (Result V)) :
    Context → List (Result V) → Context → Prop
  | nil {c : Context} : Progresses body c [] c
  | cons {b c d : Context} {r : Result V} {items : List (Result V)} (round : body b = (.ok r, c))
      (moved : c.tokenizer.position.offset ≠ b.tokenizer.position.offset)
      (rest : Progresses body c items d) : Progresses body b (r :: items) d

/-- The loop over the body that stands in `c` makes no more progress: it ends with the outcome, in
the context. -/
inductive ParseM.LoopEnds (body : ParseM (Result V)) (c : Context) :
    Except Failure (List (Result V) × Option ParseError) × Context → Prop
  | still {d : Context} {r : Result V} (round : body c = (.ok r, d))
      (same : d.tokenizer.position.offset = c.tokenizer.position.offset) :
      LoopEnds body c (.ok ([r], none), d)
  | stopped {d : Context} {e : ParseError} (round : body c = (.error (.rejected e), d))
      (same : d.tokenizer.position.offset = c.tokenizer.position.offset) :
      LoopEnds body c (.ok ([], some e), d)
  | failed {d : Context} {failure : Failure} (round : body c = (.error failure, d)) :
      LoopEnds body c (.error failure, d)
  | exhausted : LoopEnds body c (.error .exhausted, c)

/-! ## Loops -/

section

variable {x : ParseM (Result V)} {c : Context} {minimum : Nat} {items : List (Result V)}
  {reason : Option ParseError}

/-- The end of a loop, with the results of the rounds in front. -/
def behindRounds (items : List (Result V))
    (ending : Except Failure (List (Result V) × Option ParseError) × Context) :
    Except Failure (List (Result V) × Option ParseError) × Context :=
  (ending.1.map fun rest => (items ++ rest.1, rest.2), ending.2)

theorem behindRounds_nil (ending : Except Failure (List (Result V) × Option ParseError) × Context) :
    behindRounds [] ending = ending := by
  obtain ⟨_ | ⟨_, _⟩, _⟩ := ending <;> rfl

theorem behindRounds_cons (r : Result V) (items : List (Result V))
    (ending : Except Failure (List (Result V) × Option ParseError) × Context) :
    behindRounds [r] (behindRounds items ending) = behindRounds (r :: items) ending := by
  obtain ⟨_ | ⟨_, _⟩, _⟩ := ending <;> rfl

/-- A loop runs its body. It goes on behind a result that has consumed something, and otherwise
ends. -/
theorem repetitions_succ (x : ParseM (Result V)) (n : Nat) (c : Context) :
    repetitions x (n + 1) c =
      match x c with
      | (.ok r, d) =>
        if d.tokenizer.position.offset = c.tokenizer.position.offset then (.ok ([r], none), d)
        else behindRounds [r] (repetitions x n d)
      | (.error (.rejected e), d) =>
        if d.tokenizer.position.offset = c.tokenizer.position.offset then (.ok ([], some e), d)
        else (.error (.rejected e), d)
      | (.error e, d) => (.error e, d) := by
  have hposition (c : Context) : position c = (.ok c.tokenizer.position, c) := rfl
  rw [repetitions, bind_of_ok (hposition c), bind_apply]
  unfold attempt
  rcases x c with ⟨(e | e | _) | r, d⟩
  · dsimp only
    rw [bind_of_ok (hposition d)]
    split <;> rfl
  · rfl
  · rfl
  · dsimp only
    rw [bind_of_ok (hposition d)]
    split
    · rfl
    · rw [bind_apply]
      rcases repetitions x n d with ⟨_ | ⟨_, _⟩, _⟩ <;> rfl

/-- A loop makes progress as long as it can, and then ends. -/
theorem repetitions_rounds (x : ParseM (Result V)) (n : Nat) (c : Context) :
    ∃ items d ending, x.Progresses c items d ∧ x.LoopEnds d ending ∧
      repetitions x n c = behindRounds items ending := by
  induction n generalizing c with
  | zero => exact ⟨[], c, (.error .exhausted, c), .nil, .exhausted, rfl⟩
  | succ n ih =>
    rw [repetitions_succ]
    rcases hround : x c with ⟨failure | r, d⟩
    · cases failure with
      | rejected e =>
        dsimp only
        split
        · next hsame => exact ⟨[], c, _, .nil, .stopped hround hsame, (behindRounds_nil _).symm⟩
        · exact ⟨[], c, _, .nil, .failed hround, (behindRounds_nil _).symm⟩
      | fault | exhausted => exact ⟨[], c, _, .nil, .failed hround, (behindRounds_nil _).symm⟩
    · dsimp only
      split
      · next hsame => exact ⟨[], c, _, .nil, .still hround hsame, (behindRounds_nil _).symm⟩
      · next hmoved =>
        obtain ⟨items, d', ending, hprogress, hend, hrest⟩ := ih d
        refine ⟨r :: items, d', ending, .cons hround hmoved hprogress, hend, ?_⟩
        rw [hrest, behindRounds_cons]

/-- The error of a repetition that has found too few rounds, at what kept it from finding more. -/
def tooFewRounds (minimum found : Nat) (reason : Option ParseError) (stop : Position) :
    ParseError :=
  let message := "expected at least " ++ toString minimum ++ " repetition(s) but found " ++
    toString found
  match reason with
  | some e => ⟨message ++ ": " ++ e.message, e.span⟩
  | none => ⟨message, .empty stop⟩

/-- What a repetition makes of its rounds: their results, if there are enough of them and their
regions can be covered. -/
def settleRounds (start : Position) (minimum : Nat) (items : List (Result V))
    (reason : Option ParseError) (stop : Position) : Except Failure (Result V) :=
  if items.length < minimum then .error (.rejected (tooFewRounds minimum items.length reason stop))
  else
    match coverAll start items with
    | .ok span => .ok (.list items span)
    | .error fault => .error (.fault fault)

/-- A repetition ends as its loop, and makes its outcome of the rounds. -/
theorem repetition_apply (x : ParseM (Result V)) (minimum : Nat) (c : Context) :
    repetition x minimum c =
      match repetitions x (c.tokenizer.cursor.rest.length + 1) c with
      | (.ok (items, reason), d) =>
        (settleRounds c.tokenizer.position minimum items reason d.tokenizer.position,
          noted d (.repeated items.length minimum))
      | (.error e, d) => (.error e, d) := by
  have hposition (c : Context) : position c = (.ok c.tokenizer.position, c) := rfl
  unfold repetition
  rw [bind_of_ok (hposition c), bind_of_ok (unread_apply c), bind_apply]
  rcases repetitions x (c.tokenizer.cursor.rest.length + 1) c with ⟨e | ⟨items, reason⟩, d⟩
  · rfl
  · dsimp only
    rw [bind_of_ok (note_apply _ d)]
    unfold settleRounds
    split
    · cases reason <;> rfl
    · cases coverAll c.tokenizer.position items <;> rfl

variable {start stop : Position} {r : Result V}

theorem settleRounds_eq_ok :
    settleRounds start minimum items reason stop = .ok r ↔ minimum ≤ items.length ∧
      Result.Coverable items ∧ r = .list items (Result.region start items) := by
  unfold settleRounds
  split
  · next hfew => exact ⟨nofun, fun h => absurd hfew (Nat.not_lt_of_le h.1)⟩
  · next henough =>
    cases hcover : coverAll start items with
    | error fault =>
      refine ⟨nofun, fun ⟨_, hcoverable, _⟩ => ?_⟩
      cases hcover.symm.trans (Result.coverAll_eq_ok.2 ⟨hcoverable, rfl⟩)
    | ok span =>
      obtain ⟨hcoverable, rfl⟩ := Result.coverAll_eq_ok.1 hcover
      constructor
      · rintro ⟨⟩
        exact ⟨Nat.le_of_not_lt henough, hcoverable, rfl⟩
      · rintro ⟨-, -, rfl⟩
        rfl

theorem settleRounds_eq_rejected {e : ParseError} :
    settleRounds start minimum items reason stop = .error (.rejected e) ↔
      items.length < minimum ∧ e = tooFewRounds minimum items.length reason stop := by
  unfold settleRounds
  split
  · next hfew =>
    constructor
    · rintro ⟨⟩
      exact ⟨hfew, rfl⟩
    · rintro ⟨-, rfl⟩
      rfl
  · next henough =>
    refine ⟨fun h => ?_, fun h => absurd h.1 henough⟩
    cases hcover : coverAll start items <;> rw [hcover] at h <;> cases h

theorem exists_settleRounds_eq_fault :
    (∃ fault, settleRounds start minimum items reason stop = .error (.fault fault)) ↔
      minimum ≤ items.length ∧ ¬ Result.Coverable items := by
  unfold settleRounds
  split
  · next hfew =>
    refine ⟨?_, fun h => absurd hfew (Nat.not_lt_of_le h.1)⟩
    rintro ⟨_, ⟨⟩⟩
  · next henough =>
    cases hcover : coverAll start items with
    | error fault =>
      refine ⟨fun _ => ⟨Nat.le_of_not_lt henough, fun hcoverable => ?_⟩, fun _ => ⟨fault, rfl⟩⟩
      cases hcover.symm.trans (Result.coverAll_eq_ok.2 ⟨hcoverable, rfl⟩)
    | ok span =>
      have hcoverable := (Result.coverAll_eq_ok.1 hcover).1
      refine ⟨?_, fun h => absurd hcoverable h.2⟩
      rintro ⟨_, ⟨⟩⟩

theorem settleRounds_ne_exhausted :
    settleRounds start minimum items reason stop ≠ .error .exhausted := by
  unfold settleRounds
  split
  · nofun
  · cases coverAll start items <;> nofun

end

end PredictiveParsing
