import PredictiveParsing.Proofs.Grammar.Depth
import PredictiveParsing.Proofs.Grammar.Relabelling
import PredictiveParsing.Proofs.Sharing.Workshop

/-!
# Running copies

A copy of a parser does what the original does: slots count for nothing but what is kept
(`Parser.run_relabel`). So a grammar may be parsed from a copy of its entry (`execute_copy`).
-/

namespace PredictiveParsing

open ParseM

variable {V : Type}

namespace Parser

mutual

/-- A copy is as large as the original. -/
theorem size_relabel (n : Nat) (p : Parser V) : (p.relabel n).1.size = p.size := by
  cases p with
  | token | endOfInput | ref | expr => rfl
  | tuple members => exact congrArg (· + 1) (membersSize_relabel n members)
  | choice slot alternatives => exact congrArg (· + 1) (alternativesSize_relabel (n + 1) alternatives)
  | many body | embed body => exact congrArg (· + 1) (size_relabel n body)

theorem membersSize_relabel (n : Nat) (members : List (Member (Parser V))) :
    membersSize (relabelMembers n members).1 = membersSize members := by
  cases members with
  | nil => rfl
  | cons m members =>
    show (m.parser.relabel n).1.size + membersSize (relabelMembers _ members).1 =
      m.parser.size + membersSize members
    rw [size_relabel n m.parser, membersSize_relabel _ members]

theorem alternativesSize_relabel (n : Nat) (alternatives : List (Parser V)) :
    alternativesSize (relabelAlternatives n alternatives).1 = alternativesSize alternatives := by
  cases alternatives with
  | nil => rfl
  | cons p alternatives =>
    show (p.relabel n).1.size + alternativesSize (relabelAlternatives _ alternatives).1 =
      p.size + alternativesSize alternatives
    rw [size_relabel n p, alternativesSize_relabel _ alternatives]

end

section

variable {R : Parser V → Parser V → Prop}

theorem relabelMembers_forall₂ (h : ∀ n p, R (p.relabel n).1 p) (n : Nat)
    (members : List (Member (Parser V))) :
    List.Forall₂ (fun m m' => m.mark = m'.mark ∧ R m.parser m'.parser)
      (relabelMembers n members).1 members := by
  induction members generalizing n with
  | nil => exact .nil
  | cons m members ih => exact .cons ⟨rfl, h n m.parser⟩ (ih _)

theorem relabelAlternatives_forall₂ (h : ∀ n p, R (p.relabel n).1 p) (n : Nat)
    (alternatives : List (Parser V)) :
    List.Forall₂ R (relabelAlternatives n alternatives).1 alternatives := by
  induction alternatives generalizing n with
  | nil => exact .nil
  | cons p alternatives ih => exact .cons (h n p) (ih _)

end

variable {g : Grammar V} {p₀ : Parser V} {t : Tokenizer} {limited : Prop}

/-- Runs that keep nothing do alike below whichever parser. -/
theorem follows_keepless (p : Parser V) {α : Type} {x y : ParseM α}
    (h : Follows limited t (.keepless g p) (.keepless g p) x y) :
    Follows limited t (.keepless g p₀) (.keepless g p₀) x y := by
  intro c d hcd
  rcases h c d ⟨hcd.tokenizer, hcd.behind, hcd.left, hcd.right⟩ with
    hexhausted | ⟨outcome, c', d', hx, hy, hcd'⟩
  · exact .inl hexhausted
  · exact .inr ⟨outcome, c', d', hx, hy, hcd'.tokenizer, hcd'.behind, hcd'.left, hcd'.right⟩

/-- If nothing is kept, a copy does what the original does, at every depth. -/
theorem runWithin_relabel (depth n : Nat) (p : Parser V) :
    Follows False t (.keepless g p₀) (.keepless g p₀) ((p.relabel n).1.runWithin g depth)
      (p.runWithin g depth) := by
  induction depth generalizing n p with
  | zero => exact .throw .exhausted
  | succ depth ih =>
    rw [runWithin_succ, runWithin_succ]
    cases p with
    | token | endOfInput | ref | expr =>
      exact follows_keepless _ (top_follows (fun q hq => runWithin_follows (.inl rfl) hq) .refl)
    | tuple members action =>
      have hmembers := relabelMembers_forall₂ (R := fun q q' =>
        Follows False t (.keepless g p₀) (.keepless g p₀) (q.runWithin g depth)
          (q'.runWithin g depth)) ih n members
      exact follows_sequence hmembers action
    | choice slot alternatives =>
      exact follows_choice (follows_predict_keepless (mapM_first_relabel _ alternatives))
        (relabelAlternatives_forall₂ ih _ alternatives)
    | many body minimum => exact follows_repetition (ih n body) minimum
    | embed body => exact ih n body

/-- If nothing is kept, a copy does what the original does. -/
theorem run_relabel (n : Nat) (p : Parser V) :
    Follows False t (.keepless g p₀) (.keepless g p₀) ((p.relabel n).1.run g) (p.run g) := by
  refine .bind .unread fun unread => ?_
  have hdepth : (p.relabel n).1.depthFor g unread = p.depthFor g unread := by
    rw [depthFor, depthFor, size_relabel]
  rw [hdepth]
  exact runWithin_relabel _ n p

end Parser

/-- Parsing with a grammar comes to what running its entry comes to, behind the same tokens. -/
theorem Grammar.parse_of_run {g : Grammar V} {entry : Parser V} {c d : Context}
    {outcome : Except Failure (Result V)} (hentry : g.entry? = some entry)
    (hrun : entry.run g (entered entry c) = (outcome, d)) :
    ∃ j, g.parse c = (outcome, ⟨d.tokenizer, j⟩) := by
  have hends : (entry.run g).Ends (entered entry c)
      (fun r e => outcome = .ok r ∧ e.tokenizer = d.tokenizer)
      fun failure e => outcome = .error failure ∧ e.tokenizer = d.tokenizer := by
    cases outcome with
    | ok r => exact .of_ok hrun ⟨rfl, rfl⟩
    | error failure => exact .of_error hrun ⟨rfl, rfl⟩
  have hparses := parse_ends hentry hends (fun _ _ h => h) fun _ _ h => h
  rcases hparses.cases with ⟨r, e, hparse, rfl, hsame⟩ | ⟨failure, e, hparse, rfl, hsame⟩
  · exact ⟨e.journal, by rw [hparse, ← hsame]⟩
  · exact ⟨e.journal, by rw [hparse, ← hsame]⟩

namespace Workshop

variable {g : Grammar V} {t : Tokenizer} {j : Journal}

theorem execute_of_run {x : ParseM (Result V)} {outcome : Except Failure (Result V)} {c : Context}
    (h : x ⟨t, j⟩ = (outcome, c)) : execute j x t = ((outcome, c.tokenizer), c.journal) := by
  unfold execute
  rw [h]

/-- If nothing is kept, running a copy of the entry comes to what parsing comes to. -/
theorem execute_copy {entry : Parser V} (hentry : g.entry? = some entry) (n : Nat) :
    (execute .forgetful ((entry.relabel n).1.run g) t).1 = (execute .forgetful g.parse t).1 := by
  have halike : Alike t (.keepless g entry) (.keepless g entry) ⟨t, .forgetful⟩
      (Grammar.entered entry ⟨t, .forgetful⟩) :=
    ⟨rfl, .refl t, rfl, rfl⟩
  obtain ⟨outcome, c, d, hcopy, hentry', hcd⟩ :=
    (Parser.run_relabel n entry).ends_alike halike fun hlimited => hlimited.elim
  obtain ⟨j, hparse⟩ := Grammar.parse_of_run (c := ⟨t, .forgetful⟩) hentry hentry'
  rw [execute_of_run hcopy, execute_of_run hparse, hcd.tokenizer]

/-- A grammar without an entry comes to a fault. -/
theorem execute_missingEntry (hentry : g.entry? = none) :
    (execute .forgetful g.parse t).1 =
      (.error (.fault (.incompleteGrammar .missingEntry)), t) := by
  unfold execute Grammar.parse
  rw [hentry]
  rfl

end Workshop

end PredictiveParsing
