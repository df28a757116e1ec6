import PredictiveParsing.Parsing.Context
import PredictiveParsing.Proofs.Tokens

/-!
# How runs end

A run from a context ends with a result or with a failure, in another context. `ParseM.Ends` states
what holds at either end; its rules follow the way runs are put together, so that what a combinator
guarantees is derived from what its parts guarantee. For runs that are known to succeed, the
equations `bind_of_ok` and `ok_of_bind` compose and take apart results instead.
-/

namespace PredictiveParsing

namespace ParseM

variable {α β : Type} {x : ParseM α} {f : α → ParseM β} {c d : Context}

/-! ## Single runs -/

/-- What a run in two parts does, by the end of its first part. -/
theorem bind_apply (x : ParseM α) (f : α → ParseM β) (c : Context) :
    (x >>= f) c =
      match x c with
      | (.ok a, d) => f a d
      | (.error e, d) => (.error e, d) := by
  show (match x c with | (r, d) => ExceptT.bindCont f r d) = _
  rcases x c with ⟨_ | _, _⟩ <;> rfl

/-- A run in two parts goes on from where its first part succeeded. -/
theorem bind_of_ok {a : α} (h : x c = (.ok a, d)) : (x >>= f) c = f a d := by
  rw [bind_apply, h]

/-- A run in two parts succeeds only if both parts do. -/
theorem ok_of_bind {b : β} (h : (x >>= f) c = (.ok b, d)) :
    ∃ a c', x c = (.ok a, c') ∧ f a c' = (.ok b, d) := by
  rw [bind_apply] at h
  split at h
  · next a c' hx => exact ⟨a, c', hx, h⟩
  · cases h

/-- A run in two parts fails as its first part does. -/
theorem fst_bind_of_error {e : Failure} (h : (x c).1 = .error e) : ((x >>= f) c).1 = .error e := by
  rw [bind_apply]
  rcases hrun : x c with ⟨e' | a, d⟩
  · rw [hrun] at h
    cases h
    rfl
  · rw [hrun] at h
    cases h

/-- The context in which an event has been noted. -/
def noted (c : Context) (e : Event) : Context := { c with journal := c.journal.note e }

theorem note_apply (e : Event) (c : Context) : note e c = (.ok (), noted c e) := rfl

theorem get_apply (c : Context) : (get : ParseM Context) c = (.ok c, c) := rfl

theorem unread_apply (c : Context) : unread c = (.ok c.tokenizer.cursor.rest.length, c) := rfl

theorem peek_apply {t : Token} (h : c.tokenizer.peek = .ok t) : peek c = (.ok t, c) := by
  show trust c.tokenizer.peek c = _
  rw [h]
  rfl

/-- Where there is no token to answer, peeking is at fault. -/
theorem peek_of_fault {f : Fault} (h : c.tokenizer.peek = .error f) :
    peek c = (.error (.fault f), c) := by
  show trust c.tokenizer.peek c = _
  rw [h]
  rfl

/-- A token that was peeked in a run is the one that the tokenizer answers. -/
theorem peek_eq_ok {t : Token} (h : peek c = (.ok t, d)) : c.tokenizer.peek = .ok t ∧ d = c := by
  change trust c.tokenizer.peek c = _ at h
  cases hp : c.tokenizer.peek with
  | error e => rw [hp] at h; cases h
  | ok t' => rw [hp] at h; cases h; exact ⟨rfl, rfl⟩

/-- The context in which a token has been committed. -/
def committed (c : Context) (t : Token) (tokenizer : Tokenizer) : Context :=
  ⟨tokenizer, c.journal.note (.committed t)⟩

theorem commit_apply {t : Token} {tokenizer : Tokenizer}
    (h : c.tokenizer.forward t = .ok tokenizer) :
    commit t c = (.ok (), committed c t tokenizer) := by
  show (trust (c.tokenizer.forward t) >>= _) c = _
  rw [h]
  rfl

/-- A token that cannot be moved over is not committed. -/
theorem commit_of_fault {t : Token} {f : Fault} (h : c.tokenizer.forward t = .error f) :
    commit t c = (.error (.fault f), c) := by
  show (trust (c.tokenizer.forward t) >>= _) c = _
  rw [h]
  rfl

/-- A commit that succeeds has moved the tokenizer forward. -/
theorem commit_eq_ok {t : Token} {u : Unit} (h : commit t c = (.ok u, d)) :
    ∃ tokenizer, c.tokenizer.forward t = .ok tokenizer ∧ d = committed c t tokenizer := by
  cases hf : c.tokenizer.forward t with
  | error e => rw [commit_of_fault hf] at h; cases h
  | ok tokenizer => exact ⟨tokenizer, rfl, by rw [commit_apply hf] at h; cases h; rfl⟩

theorem trust_apply {y : Except Fault α} {a : α} (h : y = .ok a) (c : Context) :
    trust y c = (.ok a, c) := by
  rw [h]
  rfl

/-- What is trusted and succeeds leaves the context alone. -/
theorem trust_eq_ok {y : Except Fault α} {a : α} (h : trust y c = (.ok a, d)) :
    y = .ok a ∧ d = c := by
  cases y with
  | error e => cases h
  | ok b => cases h; exact ⟨rfl, rfl⟩

/-- True if the run from the context succeeds. -/
def succeeds (x : ParseM α) (c : Context) : Bool :=
  match x c with
  | (.ok _, _) => true
  | (.error _, _) => false

theorem succeeds_iff : succeeds x c = true ↔ ∃ a d, x c = (.ok a, d) := by
  unfold succeeds
  constructor
  · intro h
    split at h
    · next a d hx => exact ⟨a, d, hx⟩
    · cases h
  · rintro ⟨a, d, hx⟩
    rw [hx]

/-- How the run from the context fails, if it does. -/
def failure? (x : ParseM α) (c : Context) : Option Failure :=
  match x c with
  | (.ok _, _) => none
  | (.error e, _) => some e

theorem failure?_eq_some {e : Failure} : failure? x c = some e ↔ ∃ d, x c = (.error e, d) := by
  unfold failure?
  constructor
  · intro h
    split at h
    · cases h
    · next d hx => cases h; exact ⟨d, hx⟩
  · rintro ⟨d, hx⟩
    rw [hx]

/-! ## Runs that move on -/

/-- From `c` to `d` the cursor has not moved back. -/
structure Onward (c d : Context) : Prop where
  offset : c.tokenizer.position.offset ≤ d.tokenizer.position.offset
  unread : d.tokenizer.cursor.rest.length ≤ c.tokenizer.cursor.rest.length

theorem Onward.refl (c : Context) : Onward c c := ⟨Nat.le_refl _, Nat.le_refl _⟩

theorem Onward.trans {e : Context} (h : Onward c d) (h' : Onward d e) : Onward c e :=
  ⟨Nat.le_trans h.offset h'.offset, Nat.le_trans h'.unread h.unread⟩

/-- Events do not move the cursor. -/
theorem Onward.note (h : Onward c d) (e : Event) : Onward c (noted d e) := ⟨h.offset, h.unread⟩

/-- Moving over a token moves on. -/
theorem Onward.of_moves {t : Token} (h : c.tokenizer.Moves t d.tokenizer) : Onward c d := by
  refine ⟨?_, h.rest_le⟩
  rw [h.offset]
  omega

/-! ## All ends of a run -/

/-- What holds where a run from `c` ends: `ok` of its result, or `bad` of its failure. -/
def Ends (x : ParseM α) (c : Context) (ok : α → Context → Prop)
    (bad : Failure → Context → Prop) : Prop :=
  match x c with
  | (.ok a, d) => ok a d
  | (.error e, d) => bad e d

variable {ok ok' : α → Context → Prop} {bad bad' : Failure → Context → Prop}

theorem Ends.of_ok {a : α} (h : x c = (.ok a, d)) (hok : ok a d) : Ends x c ok bad := by
  unfold Ends
  rwa [h]

theorem Ends.of_error {e : Failure} (h : x c = (.error e, d)) (hbad : bad e d) :
    Ends x c ok bad := by
  unfold Ends
  rwa [h]

/-- A run ends as another one that does the same. -/
theorem Ends.of_eq {y : ParseM α} (h : x c = y d) (hy : Ends y d ok bad) : Ends x c ok bad := by
  unfold Ends
  rw [h]
  exact hy

/-- The result of a run that ends well. -/
theorem Ends.result {a : α} (h : Ends x c ok bad) (hx : x c = (.ok a, d)) : ok a d := by
  unfold Ends at h
  rwa [hx] at h

/-- The failure of a run that ends badly. -/
theorem Ends.failure {e : Failure} (h : Ends x c ok bad) (hx : x c = (.error e, d)) : bad e d := by
  unfold Ends at h
  rwa [hx] at h

/-- A run has one of the two ends. -/
theorem Ends.cases (h : Ends x c ok bad) :
    (∃ a d, x c = (.ok a, d) ∧ ok a d) ∨ ∃ e d, x c = (.error e, d) ∧ bad e d := by
  unfold Ends at h
  split at h
  · next a d hx => exact .inl ⟨a, d, hx, h⟩
  · next e d hx => exact .inr ⟨e, d, hx, h⟩

/-- A run does not end with a failure that cannot be. -/
theorem Ends.ne_error {e : Failure} (h : Ends x c ok bad) (hbad : ∀ d, ¬ bad e d) :
    (x c).1 ≠ .error e := by
  intro hx
  have hrun : x c = (.error e, (x c).2) := Prod.ext hx rfl
  exact hbad _ (h.failure hrun)

/-- Less can be claimed of the ends. -/
theorem Ends.mono (h : Ends x c ok bad) (hok : ∀ a d, ok a d → ok' a d)
    (hbad : ∀ e d, bad e d → bad' e d) : Ends x c ok' bad' := by
  rcases h.cases with ⟨a, d, hx, ha⟩ | ⟨e, d, hx, he⟩
  · exact .of_ok hx (hok a d ha)
  · exact .of_error hx (hbad e d he)

/-- Less can be claimed of the result. -/
theorem Ends.imp (h : Ends x c ok bad) (hok : ∀ a d, ok a d → ok' a d) : Ends x c ok' bad :=
  h.mono hok fun _ _ he => he

/-- What holds at an end holds of the run that came to it. -/
theorem Ends.ran (h : Ends x c ok bad) :
    Ends x c (fun a d => x c = (.ok a, d) ∧ ok a d) fun e d => x c = (.error e, d) ∧ bad e d := by
  rcases h.cases with ⟨a, d, hx, ha⟩ | ⟨e, d, hx, he⟩
  · exact .of_ok hx ⟨hx, ha⟩
  · exact .of_error hx ⟨hx, he⟩

/-- A run in two parts ends as its second part does, or fails as its first part does. -/
theorem Ends.bind {ok : β → Context → Prop}
    (h : Ends x c (fun a d => Ends (f a) d ok bad) bad) : Ends (x >>= f) c ok bad := by
  rcases h.cases with ⟨a, d, hx, ha⟩ | ⟨e, d, hx, he⟩
  · unfold Ends
    rw [bind_of_ok hx]
    exact ha
  · exact .of_error (by rw [bind_apply, hx]) he

theorem Ends.pure {a : α} (h : ok a c) : Ends (Pure.pure a : ParseM α) c ok bad := h

theorem Ends.throw {e : Failure} (h : bad e c) : Ends (MonadExcept.throw e : ParseM α) c ok bad := h

theorem Ends.get {ok : Context → Context → Prop} (h : ok c c) :
    Ends (MonadState.get : ParseM Context) c ok bad := h

theorem Ends.modify {ok : Unit → Context → Prop} {change : Context → Context}
    (h : ok () (change c)) : Ends (modify change : ParseM Unit) c ok bad := h

theorem Ends.note {ok : Unit → Context → Prop} {e : Event}
    (h : ok () (noted c e)) : Ends (ParseM.note e) c ok bad := h

theorem Ends.unread {ok : Nat → Context → Prop} (h : ok c.tokenizer.cursor.rest.length c) :
    Ends ParseM.unread c ok bad := h

theorem Ends.peek {ok : Token → Context → Prop} {t : Token} (ht : c.tokenizer.peek = .ok t)
    (h : ok t c) : Ends ParseM.peek c ok bad := .of_ok (peek_apply ht) h

/-- The token at the cursor can be committed. -/
theorem Ends.commit {ok : Unit → Context → Prop} {t : Token} (ht : c.tokenizer.peek = .ok t)
    (h : ∀ tokenizer, c.tokenizer.Moves t tokenizer → ok () (committed c t tokenizer)) :
    Ends (ParseM.commit t) c ok bad := by
  obtain ⟨tokenizer, hforward⟩ := Tokenizer.forward_of_peek ht
  exact .of_ok (commit_apply hforward) (h tokenizer (Tokenizer.forward_moves hforward))

theorem Ends.trust {y : Except Fault α} {a : α} (hy : y = .ok a) (h : ok a c) :
    Ends (ParseM.trust y) c ok bad := .of_ok (trust_apply hy c) h

/-- An action succeeds, rejects its arguments, or is at fault. -/
theorem Ends.perform {answer : Answer α} (hok : ∀ a, answer = .ok a → ok a c)
    (hrejected : ∀ e, answer = .error (.rejected e) → bad (.rejected e) (noted c (.refused e)))
    (hfault : ∀ f, answer = .error (.fault f) → bad (.fault f) c) :
    Ends (ParseM.perform answer) c ok bad := by
  cases answer with
  | ok a => exact hok a rfl
  | error refusal =>
    cases refusal with
    | rejected e => exact hrejected e rfl
    | fault f => exact hfault f rfl

/-! Where faults do not matter, the token at the cursor need not exist. -/

/-- A token that is peeked is the one at the cursor. -/
theorem Ends.peeking {ok : Token → Context → Prop}
    (hok : ∀ token, c.tokenizer.peek = .ok token → ok token c)
    (hbad : ∀ fault, bad (.fault fault) c) : Ends ParseM.peek c ok bad := by
  cases hpeek : c.tokenizer.peek with
  | ok token => exact .peek hpeek (hok token hpeek)
  | error fault => exact .of_error (peek_of_fault hpeek) (hbad fault)

/-- A token that is committed is moved over. -/
theorem Ends.committing {ok : Unit → Context → Prop} {t : Token}
    (hok : ∀ tokenizer, c.tokenizer.Moves t tokenizer → ok () (committed c t tokenizer))
    (hbad : ∀ fault, bad (.fault fault) c) : Ends (ParseM.commit t) c ok bad := by
  cases hforward : c.tokenizer.forward t with
  | ok tokenizer =>
    exact .of_ok (commit_apply hforward) (hok tokenizer (Tokenizer.forward_moves hforward))
  | error fault => exact .of_error (commit_of_fault hforward) (hbad fault)

/-- What is trusted succeeds, or is at fault. -/
theorem Ends.trusting {y : Except Fault α} (hok : ∀ a, y = .ok a → ok a c)
    (hbad : ∀ fault, bad (.fault fault) c) : Ends (ParseM.trust y) c ok bad := by
  cases y with
  | ok a => exact hok a rfl
  | error fault => exact hbad fault

theorem Ends.position {ok : Position → Context → Prop} (h : ok c.tokenizer.position c) :
    Ends ParseM.position c ok bad := h

theorem Ends.reject {message : String} {span : Span} (h : bad (.rejected ⟨message, span⟩) c) :
    Ends (ParseM.reject message span : ParseM α) c ok bad := h

theorem Ends.unexpected {expected : String} {t : Token}
    (h : ∀ message, bad (.rejected ⟨message, t.span⟩) c) :
    Ends (ParseM.unexpected expected t : ParseM α) c ok bad := h _

/-- Errors become results; other failures stay failures. -/
theorem Ends.attempt {ok : Except ParseError α → Context → Prop}
    (h : Ends x c (fun a d => ok (.ok a) d) fun e d =>
      match e with
      | .rejected error => ok (.error error) d
      | e => bad e d) :
    Ends (ParseM.attempt x) c ok bad := by
  unfold Ends ParseM.attempt
  rcases h.cases with ⟨a, d, hx, ha⟩ | ⟨e, d, hx, he⟩
  · rw [hx]; exact ha
  · rw [hx]; cases e <;> exact he

end ParseM

end PredictiveParsing
