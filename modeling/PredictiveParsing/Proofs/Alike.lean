import PredictiveParsing.Parsing.Combinators
import PredictiveParsing.Proofs.Grammar.Predicting

/-!
# Runs that do alike

Two runs from the same tokenizer do alike if they end with the same outcome and the same tokenizer,
whatever their journals keep. `Follows` states this of runs that may differ in how their parts run:
the second does what the first does or, if depths are `limited`, goes on where the first is
exhausted. Each combinator follows if its parts do.

Contexts that are `Alike` have the same tokenizer, behind ordinary tokens of the one where the runs
began, and journals of two kinds. A kind of journals (`Journal.Kind`) is a property that running
choices keeps, so that a run which keeps FIRST sets can be compared with one which does not.
-/

namespace PredictiveParsing

open ParseM

variable {V : Type}

/-! ## Kinds of journals -/

/-- A property of journals that the runs below `p` keep. A journal with the property is to be
trusted. -/
structure Journal.Kind (g : Grammar V) (p : Parser V) where
  Holds : Journal → Prop
  faithful : ∀ {j}, Holds j → j.Faithful g p
  note : ∀ {j} (e : Event), Holds j → Holds (j.note e)
  keep : ∀ {j slot alternatives firsts}, Holds j → g.Reaches p (.choice slot alternatives) →
    alternatives.mapM g.first = .ok firsts → Holds (j.keep slot g.stamp firsts)

/-- The journals to be trusted. -/
def Journal.Kind.trusted (g : Grammar V) (p : Parser V) : Journal.Kind g p where
  Holds j := j.Faithful g p
  faithful h := h
  note e h := h.note e
  keep h hreach hfirsts := h.keep hreach hfirsts

/-- The journals that keep nothing. -/
def Journal.Kind.keepless (g : Grammar V) (p : Parser V) : Journal.Kind g p where
  Holds j := j.memo = none
  faithful h := .inl h
  note _ h := h
  keep {j _ _ _} h _ _ := by
    show j.memo.map _ = none
    rw [h]
    rfl

section

variable {g : Grammar V} {p : Parser V} {k k' : Journal.Kind g p} {t : Tokenizer} {limited : Prop}
  {c d : Context} {token : Token}

/-- The contexts differ in their journals only, which are of the two kinds. -/
structure Alike (t : Tokenizer) (k k' : Journal.Kind g p) (c d : Context) : Prop where
  tokenizer : d.tokenizer = c.tokenizer
  behind : t.LeadsTo c.tokenizer
  left : k.Holds c.journal
  right : k'.Holds d.journal

/-- The second run does what the first one does, unless depths are limited and the first one is
exhausted. -/
def Follows (limited : Prop) (t : Tokenizer) (k k' : Journal.Kind g p) {α : Type}
    (x y : ParseM α) : Prop :=
  ∀ c d, Alike t k k' c d →
    (limited ∧ ∃ c', x c = (.error .exhausted, c')) ∨
      ∃ outcome c' d', x c = (outcome, c') ∧ y d = (outcome, d') ∧ Alike t k k' c' d'

/-- The run from the context is not exhausted. -/
def ParseM.Answers {α : Type} (x : ParseM α) (c : Context) : Prop :=
  (x c).1 ≠ .error .exhausted

/-- A run that is not exhausted succeeds or fails otherwise. -/
theorem ParseM.Answers.ends {α : Type} {x : ParseM α} (h : x.Answers c) :
    x.Ends c (fun _ _ => True) fun e _ => e ≠ .exhausted := by
  unfold Answers at h
  unfold Ends
  split
  · trivial
  · next e d hx =>
    rw [hx] at h
    rintro rfl
    exact h rfl

theorem Alike.symm (h : Alike t k k' c d) : Alike t k' k d c :=
  ⟨h.tokenizer.symm, h.tokenizer ▸ h.behind, h.right, h.left⟩

theorem Alike.note (h : Alike t k k' c d) (e : Event) : Alike t k k' (noted c e) (noted d e) :=
  ⟨h.tokenizer, h.behind, k.note e h.left, k'.note e h.right⟩

namespace Follows

variable {α β : Type} {x y : ParseM α} {f f' : α → ParseM β}

/-- Runs that do alike end alike, unless the first one is exhausted. -/
theorem ends_alike (h : Follows limited t k k' x y) (hcd : Alike t k k' c d)
    (hx : limited → x.Answers c) :
    ∃ outcome c' d', x c = (outcome, c') ∧ y d = (outcome, d') ∧ Alike t k k' c' d' := by
  rcases h c d hcd with ⟨hlimited, c', hexhausted⟩ | h
  · exact absurd (congrArg Prod.fst hexhausted) (hx hlimited)
  · exact h

/-- If the first of two runs that do alike is not exhausted, neither is the second. -/
theorem answers (h : Follows limited t k k' x y) (hcd : Alike t k k' c d) (hx : x.Answers c) :
    y.Answers d := by
  obtain ⟨outcome, c', d', hc, hd, -⟩ := h.ends_alike hcd fun _ => hx
  unfold Answers at hx ⊢
  rw [hd]
  rwa [hc] at hx

/-! ## Rules -/

/-- Runs in two parts do alike if their first parts do, and their second parts from what the first
ones answer. -/
theorem bind (h : Follows limited t k k' x y) (hf : ∀ a, Follows limited t k k' (f a) (f' a)) :
    Follows limited t k k' (x >>= f) (y >>= f') := by
  intro c d hcd
  rw [bind_apply, bind_apply]
  rcases h c d hcd with ⟨hlimited, c', hx⟩ | ⟨outcome, c', d', hx, hy, hcd'⟩
  · rw [hx]
    exact .inl ⟨hlimited, c', rfl⟩
  · rw [hx, hy]
    cases outcome with
    | ok a => exact hf a c' d' hcd'
    | error e => exact .inr ⟨.error e, c', d', rfl, rfl, hcd'⟩

theorem pure (a : α) : Follows limited t k k' (Pure.pure a) (Pure.pure a) :=
  fun c d hcd => .inr ⟨.ok a, c, d, rfl, rfl, hcd⟩

theorem throw (e : Failure) :
    Follows limited t k k' (MonadExcept.throw e : ParseM α) (MonadExcept.throw e) :=
  fun c d hcd => .inr ⟨.error e, c, d, rfl, rfl, hcd⟩

theorem reject (message : String) (span : Span) :
    Follows limited t k k' (ParseM.reject message span : ParseM α) (ParseM.reject message span) :=
  throw _

theorem unexpected (expected : String) (token : Token) :
    Follows limited t k k' (ParseM.unexpected expected token : ParseM α)
      (ParseM.unexpected expected token) :=
  reject _ _

theorem note (e : Event) : Follows limited t k k' (ParseM.note e) (ParseM.note e) :=
  fun c d hcd => .inr ⟨.ok (), noted c e, noted d e, rfl, rfl, hcd.note e⟩

/-- A computation outside of the context has the same outcome in every context. -/
theorem trust (a : Except Fault α) : Follows limited t k k' (ParseM.trust a) (ParseM.trust a) := by
  cases a with
  | ok a => exact pure a
  | error f => exact throw (.fault f)

/-- What follows a computation outside of the context need do alike for its outcome only. -/
theorem bind_trust {a : Except Fault α}
    (hf : ∀ b, a = .ok b → Follows limited t k k' (f b) (f' b)) :
    Follows limited t k k' (ParseM.trust a >>= f) (ParseM.trust a >>= f') := by
  cases a with
  | ok b => exact hf b rfl
  | error e => exact throw (.fault e)

theorem perform (answer : Answer α) :
    Follows limited t k k' (ParseM.perform answer) (ParseM.perform answer) := by
  cases answer with
  | ok a => exact pure a
  | error refusal =>
    cases refusal with
    | rejected e => exact bind (note (.refused e)) fun _ => throw (.rejected e)
    | fault f => exact throw (.fault f)

theorem peek : Follows limited t k k' ParseM.peek ParseM.peek := by
  intro c d hcd
  have hsame : ParseM.peek d = ParseM.trust c.tokenizer.peek d := by
    rw [← hcd.tokenizer]
    rfl
  rw [hsame]
  exact trust c.tokenizer.peek c d hcd

theorem position : Follows limited t k k' ParseM.position ParseM.position :=
  fun c d hcd => .inr ⟨.ok c.tokenizer.position, c, d, rfl, by rw [← hcd.tokenizer]; rfl, hcd⟩

theorem unread : Follows limited t k k' ParseM.unread ParseM.unread :=
  fun c d hcd => .inr ⟨.ok c.tokenizer.cursor.rest.length, c, d, rfl,
    by rw [← hcd.tokenizer]; rfl, hcd⟩

/-- Committing an ordinary token stays behind ordinary tokens. -/
theorem commit (hk : token.kind = .ordinary) :
    Follows limited t k k' (ParseM.commit token) (ParseM.commit token) := by
  intro c d hcd
  cases hforward : c.tokenizer.forward token with
  | error f =>
    have hforward' : d.tokenizer.forward token = .error f := by rw [hcd.tokenizer, hforward]
    exact .inr ⟨_, c, d, commit_of_fault hforward, commit_of_fault hforward', hcd⟩
  | ok tokenizer =>
    have hforward' : d.tokenizer.forward token = .ok tokenizer := by rw [hcd.tokenizer, hforward]
    have hm := Tokenizer.forward_moves hforward
    refine .inr ⟨_, _, _, commit_apply hforward, commit_apply hforward', ?_⟩
    exact ⟨rfl, hcd.behind.trans (.of_moves hm hk), k.note _ hcd.left, k'.note _ hcd.right⟩

theorem attempt (h : Follows limited t k k' x y) :
    Follows limited t k k' (ParseM.attempt x) (ParseM.attempt y) := by
  intro c d hcd
  unfold ParseM.attempt
  rcases h c d hcd with ⟨hlimited, c', hx⟩ | ⟨outcome, c', d', hx, hy, hcd'⟩
  · rw [hx]
    exact .inl ⟨hlimited, c', rfl⟩
  · rw [hx, hy]
    cases outcome with
    | ok a => exact .inr ⟨_, c', d', rfl, rfl, hcd'⟩
    | error e => cases e <;> exact .inr ⟨_, c', d', rfl, rfl, hcd'⟩

end Follows

open Follows

/-! ## Tokens -/

theorem follows_expectToken (type : TokenType) :
    Follows limited t k k' (expectToken type : ParseM (Result V)) (expectToken type) := by
  refine .bind .peek fun token => ?_
  cases his : token.is type with
  | true => exact .bind (.commit (Token.kind_of_is his)) fun _ => .pure _
  | false => exact .unexpected type token

theorem follows_expectEnd :
    Follows limited t k k' (expectEnd : ParseM (Result V)) expectEnd := by
  refine .bind .peek fun token => ?_
  cases token.isEndOfInput with
  | true => exact .pure _
  | false => exact .unexpected _ token

/-! ## Sequences -/

section

variable {P Q : Type} {run : P → ParseM (Result V)} {run' : Q → ParseM (Result V)}
  {parts : List (Member P)} {parts' : List (Member Q)}

theorem follows_extend (covered : Option Span) (next : Span) :
    Follows limited t k k' (extend covered next) (extend covered next) := by
  cases covered with
  | none => exact .pure next
  | some span => exact .trust _

theorem follows_members
    (hrun : List.Forall₂ (fun m m' => m.mark = m'.mark ∧
      Follows limited t k k' (run m.parser) (run' m'.parser)) parts parts')
    (covered : Option Span) :
    Follows limited t k k' (members run parts covered) (members run' parts' covered) := by
  induction hrun generalizing covered with
  | nil => exact .pure _
  | @cons m m' _ _ hm _ ih =>
    obtain ⟨hmark, hm⟩ := hm
    refine .bind hm fun result => .bind (follows_extend _ _) fun covered' => ?_
    refine .bind (ih _) fun elements => ?_
    rw [hmark]
    cases m'.mark <;> exact .pure _

/-- Sequences do alike if their members do, one by one. -/
theorem follows_sequence
    (hrun : List.Forall₂ (fun m m' => m.mark = m'.mark ∧
      Follows limited t k k' (run m.parser) (run' m'.parser)) parts parts')
    (action : Option (TupleAction V)) :
    Follows limited t k k' (sequence run parts action) (sequence run' parts' action) := by
  refine .bind .position fun start => .bind (follows_members hrun none) fun elements => ?_
  cases action with
  | none => exact .pure _
  | some f => exact .bind (.perform _) fun _ => .pure _

end

/-! ## Repetitions -/

theorem follows_repetitions {body body' : ParseM (Result V)}
    (hbody : Follows limited t k k' body body') (n : Nat) :
    Follows limited t k k' (repetitions body n) (repetitions body' n) := by
  induction n with
  | zero => exact .throw .exhausted
  | succ n ih =>
    refine .bind .position fun before => .bind hbody.attempt fun outcome => ?_
    refine .bind .position fun after => ?_
    cases outcome with
    | ok result =>
      dsimp only
      split
      · exact .pure _
      · exact .bind ih fun _ => .pure _
    | error e =>
      dsimp only
      split
      · exact .pure _
      · exact .throw _

/-- Repetitions do alike if their bodies do. -/
theorem follows_repetition {body body' : ParseM (Result V)}
    (hbody : Follows limited t k k' body body') (minimum : Nat) :
    Follows limited t k k' (repetition body minimum) (repetition body' minimum) := by
  refine .bind .position fun start => .bind .unread fun unread => ?_
  refine .bind (follows_repetitions hbody _) fun rounds => .bind (.note _) fun _ => ?_
  dsimp only
  split
  · cases rounds.2 with
    | some e => exact .reject _ _
    | none => exact .bind .position fun _ => .reject _ _
  · exact .bind (.trust _) fun _ => .pure _

/-! ## Choices -/

variable {slot : Nat} {alternatives : List (Parser V)}

/-- Finding FIRST sets keeps the kind of the journal. -/
theorem predict_kind (k : Journal.Kind g p) (hc : k.Holds c.journal)
    (hreach : g.Reaches p (.choice slot alternatives)) {firsts : List FirstSet}
    (hfirsts : alternatives.mapM g.first = .ok firsts) :
    ∃ j, predict g slot alternatives c = (.ok firsts, ⟨c.tokenizer, j⟩) ∧ k.Holds j := by
  rcases predict_eq_ok (k.faithful hc) hreach hfirsts with h | h
  · exact ⟨_, h, hc⟩
  · exact ⟨_, h, k.keep (k.note _ hc) hreach hfirsts⟩

/-- Whether FIRST sets are kept or computed, they are the same. -/
theorem follows_predict (hreach : g.Reaches p (.choice slot alternatives)) :
    Follows limited t k k' (predict g slot alternatives) (predict g slot alternatives) := by
  intro c d hcd
  cases hfirsts : alternatives.mapM g.first with
  | error e =>
    exact .inr ⟨_, c, d, predict_eq_error (k.faithful hcd.left) hreach hfirsts,
      predict_eq_error (k'.faithful hcd.right) hreach hfirsts, hcd⟩
  | ok firsts =>
    obtain ⟨j, hj, hkind⟩ := predict_kind k hcd.left hreach hfirsts
    obtain ⟨j', hj', hkind'⟩ := predict_kind k' hcd.right hreach hfirsts
    exact .inr ⟨_, _, _, hj, hj', hcd.tokenizer, hcd.behind, hkind, hkind'⟩

/-- If nothing is kept, choices between alternatives with the same FIRST sets find the same. -/
theorem follows_predict_keepless {slot' : Nat} {alternatives' : List (Parser V)}
    (hsame : alternatives.mapM g.first = alternatives'.mapM g.first) :
    Follows limited t (.keepless g p) (.keepless g p) (predict g slot alternatives)
      (predict g slot' alternatives') := by
  intro c d hcd
  have hc : c.journal.memo = none := hcd.left
  have hd : d.journal.memo = none := hcd.right
  cases hfirsts : alternatives.mapM g.first with
  | error e =>
    exact .inr ⟨_, c, d, predict_eq_error (.inl hc) .refl hfirsts,
      predict_eq_error (.inl hd) .refl (hsame ▸ hfirsts), hcd⟩
  | ok firsts =>
    obtain ⟨j, hj, hnone⟩ :=
      predict_kind (.keepless g (.choice slot alternatives)) hc .refl hfirsts
    obtain ⟨j', hj', hnone'⟩ :=
      predict_kind (.keepless g (.choice slot' alternatives')) hd .refl (hsame ▸ hfirsts)
    exact .inr ⟨_, _, _, hj, hj', hcd.tokenizer, hcd.behind, hnone, hnone'⟩

/-- Choices do alike if they find the same FIRST sets and their alternatives do alike, one by
one. -/
theorem follows_choice {run run' : Parser V → ParseM (Result V)} {slot' : Nat}
    {alternatives' : List (Parser V)}
    (hpredict : Follows limited t k k' (predict g slot alternatives)
      (predict g slot' alternatives'))
    (hrun : List.Forall₂ (fun q q' => Follows limited t k k' (run q) (run' q'))
      alternatives alternatives') :
    Follows limited t k k' (chooseAlternative g run slot alternatives)
      (chooseAlternative g run' slot' alternatives') := by
  refine .bind .peek fun token => .bind hpredict fun firsts => ?_
  have haccepting := alternative?_rel hrun firsts fun f => f.accepts token
  have hempty := alternative?_rel hrun firsts FirstSet.nullable
  generalize alternative? alternatives firsts (fun f => f.accepts token) = found,
    alternative? alternatives' firsts (fun f => f.accepts token) = found' at haccepting ⊢
  cases haccepting with
  | some hsame =>
    obtain ⟨hindex, hselected⟩ := hsame
    dsimp only
    rw [hindex]
    exact .bind (.note _) fun _ => hselected
  | none =>
    dsimp only
    generalize alternative? alternatives firsts FirstSet.nullable = found,
      alternative? alternatives' firsts FirstSet.nullable = found' at hempty ⊢
    cases hempty with
    | some hsame =>
      obtain ⟨hindex, hselected⟩ := hsame
      dsimp only
      rw [hindex]
      exact .bind (.note _) fun _ => hselected
    | none => exact .reject _ _

end

end PredictiveParsing
