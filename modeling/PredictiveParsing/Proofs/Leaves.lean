import PredictiveParsing.Proofs.Nesting

/-!
# Leaves of results

The leaves of a result are its ordinary tokens, in reading order (`Result.leaves`). Without actions
a result is built from committed tokens only, so its leaves are some of the tokens that the run has
committed, each at most once and in the same order; and where nothing is dropped, they are all of
them. `Context.Gathers` states both: `whole` is the condition under which nothing is dropped.

What has been gathered grows along a run, from where it began. Each rule says what a step adds, and
each combinator gathers behind what has been gathered before (`ParseM.Gathers.behind`).
-/

namespace PredictiveParsing

open ParseM

variable {V P : Type}

/-! ## Leaves -/

namespace Result

mutual

/-- The ordinary tokens of a result in reading order. -/
def leaves : Result V → List Token
  | token t _ => if t.kind = .ordinary then [t] else []
  | list items _ => itemsLeaves items
  | value _ _ => []

/-- The ordinary tokens of several results in reading order. -/
def itemsLeaves : List (Result V) → List Token
  | [] => []
  | r :: rs => r.leaves ++ itemsLeaves rs

end

@[simp] theorem leaves_list (items : List (Result V)) (span : Span) :
    (list items span).leaves = itemsLeaves items := rfl

@[simp] theorem itemsLeaves_nil : itemsLeaves ([] : List (Result V)) = [] := rfl

@[simp] theorem itemsLeaves_cons (r : Result V) (rs : List (Result V)) :
    itemsLeaves (r :: rs) = r.leaves ++ itemsLeaves rs := rfl

theorem leaves_ofToken {t : Token} (h : t.kind = .ordinary) :
    (ofToken t : Result V).leaves = [t] := if_pos h

theorem leaves_ofToken_of_ne {t : Token} (h : t.kind ≠ .ordinary) :
    (ofToken t : Result V).leaves = [] := if_neg h

/-- Standing for another region changes no leaf. -/
@[simp] theorem leaves_withSpan (span : Span) (r : Result V) :
    (r.withSpan span).leaves = r.leaves := by
  cases r <;> rfl

end Result

/-! ## Committed tokens -/

/-- The token that an event says was committed. -/
def Event.committed? : Event → Option Token
  | committed t => some t
  | _ => none

/-- The tokens that have been committed, the latest first. -/
def Journal.commits (j : Journal) : List Token :=
  j.events.filterMap Event.committed?

/-- From `c` to `d` the tokens have been committed, one after the other, and all are ordinary. -/
structure Context.Takes (c : Context) (tokens : List Token) (d : Context) : Prop where
  commits : c.tokenizer.Commits tokens d.tokenizer
  noted : d.journal.commits = tokens.reverse ++ c.journal.commits
  ordinary : ∀ token ∈ tokens, token.kind = .ordinary

/-- From `c` to `d` tokens have been committed, and the leaves are some of them in the same order.
If the whole is kept, they are all of them. -/
def Context.Gathers (whole : Prop) (c : Context) (leaves : List Token) (d : Context) : Prop :=
  ∃ tokens, c.Takes tokens d ∧ leaves.Sublist tokens ∧ (whole → leaves = tokens)

/-- A run from `c` that fails in `d` has committed ordinary tokens before. -/
def Context.Breaks (c : Context) (_ : Failure) (d : Context) : Prop :=
  ∃ tokens, c.Takes tokens d

section

variable {whole : Prop} {b c d : Context} {token : Token} {tokens tokens' leaves more : List Token}

namespace Context

namespace Takes

theorem refl (c : Context) : c.Takes [] c := ⟨.nil, rfl, nofun⟩

theorem of_same (htokenizer : d.tokenizer = c.tokenizer)
    (hjournal : d.journal.commits = c.journal.commits) : c.Takes [] d :=
  ⟨htokenizer ▸ .nil, hjournal, nofun⟩

theorem append (h : b.Takes tokens c) (h' : c.Takes tokens' d) :
    b.Takes (tokens ++ tokens') d where
  commits := h.commits.append h'.commits
  noted := by rw [h'.noted, h.noted, List.reverse_append, List.append_assoc]
  ordinary t ht := (List.mem_append.1 ht).elim (h.ordinary t) (h'.ordinary t)

theorem single {tokenizer : Tokenizer} (hm : c.tokenizer.Moves token tokenizer)
    (hk : token.kind = .ordinary) : c.Takes [token] (committed c token tokenizer) where
  commits := .single hm
  noted := rfl
  ordinary t ht := by rwa [List.mem_singleton.1 ht]

end Takes

namespace Gathers

theorem refl (c : Context) : c.Gathers whole [] c :=
  ⟨[], .refl c, .slnil, fun _ => rfl⟩

theorem append (h : b.Gathers whole leaves c) (h' : c.Gathers whole more d) :
    b.Gathers whole (leaves ++ more) d := by
  obtain ⟨tokens, htakes, hsub, hwhole⟩ := h
  obtain ⟨tokens', htakes', hsub', hwhole'⟩ := h'
  exact ⟨tokens ++ tokens', htakes.append htakes', hsub.append hsub',
    fun hw => by rw [hwhole hw, hwhole' hw]⟩

/-- Where nothing is committed, nothing is added. -/
theorem still (h : b.Gathers whole leaves c) (h' : c.Takes [] d) : b.Gathers whole leaves d := by
  obtain ⟨tokens, htakes, hsub, hwhole⟩ := h
  refine ⟨tokens, ?_, hsub, hwhole⟩
  have hall := htakes.append h'
  rwa [List.append_nil] at hall

theorem note {e : Event} (h : b.Gathers whole leaves c) (he : e.committed? = none) :
    b.Gathers whole leaves (noted c e) :=
  h.still (.of_same rfl (List.filterMap_cons_none he))

/-- A token that is committed can be kept. -/
theorem commit {tokenizer : Tokenizer} (h : b.Gathers whole leaves c)
    (hm : c.tokenizer.Moves token tokenizer) (hk : token.kind = .ordinary) :
    b.Gathers whole (leaves ++ [token]) (committed c token tokenizer) :=
  h.append ⟨[token], .single hm hk, .refl _, fun _ => rfl⟩

/-- Leaves can be dropped, unless the whole is to be kept. -/
theorem drop (h : b.Gathers whole leaves c) (hnot : ¬ whole) (hsub : more.Sublist leaves) :
    b.Gathers whole more c := by
  obtain ⟨tokens, htakes, hleaves, -⟩ := h
  exact ⟨tokens, htakes, hsub.trans hleaves, fun hw => absurd hw hnot⟩

theorem breaks (h : b.Gathers whole leaves c) (e : Failure) : b.Breaks e c := by
  obtain ⟨tokens, htakes, -⟩ := h
  exact ⟨tokens, htakes⟩

end Gathers

end Context

/-! ## Runs that gather leaves -/

/-- Wherever the run begins, its result's leaves are tokens that it has committed, and no token is
lost if the whole is kept. -/
def ParseM.Gathers (whole : Prop) (x : ParseM (Result V)) : Prop :=
  ∀ c, x.Ends c (fun r d => c.Gathers whole r.leaves d) c.Breaks

/-- A run gathers behind what has been gathered before. -/
theorem ParseM.Gathers.behind {x : ParseM (Result V)} {ok : Result V → Context → Prop}
    (hx : x.Gathers whole) (hc : b.Gathers whole leaves c)
    (hok : ∀ r d, b.Gathers whole (leaves ++ r.leaves) d → ok r d) : x.Ends c ok b.Breaks := by
  refine (hx c).mono (fun r d hd => hok r d (hc.append hd)) fun e d he => ?_
  obtain ⟨tokens, htakes, -⟩ := hc
  obtain ⟨tokens', htakes'⟩ := he
  exact ⟨_, htakes.append htakes'⟩

/-! ## Tokens -/

theorem expectToken_gathers (type : TokenType) :
    (expectToken type : ParseM (Result V)).Gathers whole := by
  intro c
  have hc : c.Gathers whole [] c := .refl c
  refine .bind (.peeking (fun token _ => ?_) fun _ => hc.breaks _)
  cases his : token.is type with
  | true =>
    have hk := Token.kind_of_is his
    refine .bind (.committing (fun tokenizer hm => .pure ?_) fun _ => hc.breaks _)
    rw [Result.leaves_ofToken hk]
    exact hc.commit hm hk
  | false => exact .unexpected fun _ => hc.breaks _

theorem expectEnd_gathers : (expectEnd : ParseM (Result V)).Gathers whole := by
  intro c
  have hc : c.Gathers whole [] c := .refl c
  refine .bind (.peeking (fun token _ => ?_) fun _ => hc.breaks _)
  cases hend : token.isEndOfInput with
  | true =>
    refine .pure ?_
    rw [Token.isEndOfInput, decide_eq_true_eq] at hend
    rw [Result.leaves_ofToken_of_ne (by simp [hend])]
    exact hc
  | false => exact .unexpected fun _ => hc.breaks _

/-! ## Sequences -/

variable {run : P → ParseM (Result V)} {parts : List (Member P)}

/-- The elements of a sequence keep what their members gather. -/
theorem members_gather (hrun : ∀ m ∈ parts, (run m.parser).Gathers whole)
    (hmarks : whole → ∀ m ∈ parts, m.mark = .element) (covered : Option Span)
    (hc : b.Gathers whole leaves c) :
    (members run parts covered).Ends c
      (fun r d => b.Gathers whole (leaves ++ Result.itemsLeaves r.1) d) b.Breaks := by
  induction parts generalizing leaves covered c with
  | nil => exact .pure (by rwa [Result.itemsLeaves_nil, List.append_nil])
  | cons m parts ih =>
    refine .bind ((hrun m (.head _)).behind hc fun r d hd => .bind ?_)
    refine extend_ends (fun covered => .bind ?_) fun _ => hd.breaks _
    refine (ih (fun m' hm' => hrun m' (.tail _ hm')) (fun hw m' hm' => hmarks hw m' (.tail _ hm'))
      (some covered) hd).imp fun rest d' hd' => ?_
    cases hmark : m.mark with
    | element =>
      refine .pure ?_
      rw [Result.itemsLeaves_cons, ← List.append_assoc]
      exact hd'
    | skip =>
      have hnot : ¬ whole := fun hw => absurd (hmarks hw m (.head _)) (by rw [hmark]; nofun)
      exact .pure (hd'.drop hnot ((List.sublist_append_left _ _).append (.refl _)))

theorem sequence_gathers (hrun : ∀ m ∈ parts, (run m.parser).Gathers whole)
    (hmarks : whole → ∀ m ∈ parts, m.mark = .element) :
    (sequence run parts none).Gathers whole := by
  intro c
  refine .bind (.position (.bind ?_))
  exact (members_gather hrun hmarks none (.refl c)).imp fun result d hd => .pure hd

/-! ## Repetitions -/

variable {body : ParseM (Result V)}

/-- The rounds of a repetition gather one behind the other. A last round that fails has committed
nothing. -/
theorem repetitions_gather (hbody : body.Gathers whole) (n : Nat)
    (hc : b.Gathers whole leaves c) :
    (repetitions body n).Ends c
      (fun r d => b.Gathers whole (leaves ++ Result.itemsLeaves r.1) d) b.Breaks := by
  induction n generalizing leaves c with
  | zero => exact .throw (hc.breaks _)
  | succ n ih =>
    refine .bind (.position (.bind (.attempt ?_)))
    refine (hbody c).mono (fun r d hd => ?_) fun e d he => ?_
    · have hround := hc.append hd
      refine .bind (.position ?_)
      dsimp only
      split
      · exact .pure (by rwa [Result.itemsLeaves_cons, Result.itemsLeaves_nil, List.append_nil])
      · refine .bind ((ih hround).imp fun rounds d' hd' => .pure ?_)
        rwa [Result.itemsLeaves_cons, ← List.append_assoc]
    · obtain ⟨tokens, htakes⟩ := he
      have hbreaks (e : Failure) : b.Breaks e d := by
        obtain ⟨before, hbefore, -⟩ := hc
        exact ⟨_, hbefore.append htakes⟩
      cases e with
      | rejected error =>
        refine .bind (.position ?_)
        dsimp only
        split
        · next hsame =>
          cases htakes.commits.eq_nil htakes.ordinary hsame
          exact .pure (by
            rw [Result.itemsLeaves_nil, List.append_nil]
            exact hc.still htakes)
        · exact .throw (hbreaks _)
      | fault | exhausted => exact hbreaks _

theorem repetition_gathers (hbody : body.Gathers whole) (minimum : Nat) :
    (repetition body minimum).Gathers whole := by
  intro c
  refine .bind (.position (.bind (.unread (.bind ?_))))
  refine (repetitions_gather hbody _ (.refl c)).imp fun rounds d hd => ?_
  have hd' := hd.note (e := .repeated rounds.1.length minimum) rfl
  refine .bind (.note ?_)
  dsimp only
  split
  · cases rounds.2 with
    | some e => exact .reject (hd'.breaks _)
    | none => exact .bind (.position (.reject (hd'.breaks _)))
  · exact .bind (.trusting (fun span _ => .pure hd') fun _ => hd'.breaks _)

end

/-! ## Choices -/

/-- Finding the FIRST sets of a choice commits nothing. -/
theorem predict_gathers (g : Grammar V) (slot : Nat) (alternatives : List (Parser V))
    (whole : Prop) (c : Context) :
    (predict g slot alternatives).Ends c (fun _ d => c.Gathers whole [] d) c.Breaks := by
  have hc : c.Gathers whole [] c := .refl c
  refine .bind (.get ?_)
  split
  · exact .pure hc
  · split
    · exact .bind (.note (.bind (.modify (.pure ((hc.note rfl).still (.of_same rfl rfl))))))
    · exact .throw (hc.breaks _)

theorem Event.Selects.committed? {event : Event} (h : event.Selects) :
    event.committed? = none := by
  cases h <;> rfl

theorem choice_gathers {g : Grammar V} {whole : Prop} {run : Parser V → ParseM (Result V)}
    {slot : Nat} {alternatives : List (Parser V)}
    (hrun : ∀ q ∈ alternatives, (run q).Gathers whole) :
    (chooseAlternative g run slot alternatives).Gathers whole := by
  intro c
  refine choice_ends (fun _ _ => ⟨[], .refl c⟩)
    (predict_gathers g slot alternatives whole c) (fun q hq event d hevent hd => ?_)
    fun token d _ hd => hd.breaks _
  exact (hrun q hq).behind (hd.note hevent.committed?) fun r d hr => hr

end PredictiveParsing
