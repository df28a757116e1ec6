import PredictiveParsing.Parsing.Combinators
import PredictiveParsing.Proofs.Grammar.Predicting

/-!
# Runs that come to an end

A run halts if it is not exhausted: it succeeds, is rejected, or is at fault. `HaltsAt` says this of
a run from a context, and moreover what is the case if the run succeeds without consuming anything.
Each combinator halts if its parts do wherever they are run; a part is run in front of the first
token only if the parts before it have consumed nothing. The loops of combinators count the scalars
that are left, and each round but the last consumes some.
-/

namespace PredictiveParsing

open ParseM

variable {V : Type}

/-- A run leads from `c` to `d`, over ordinary tokens, with a journal to be trusted below `p`. -/
structure Past (g : Grammar V) (p : Parser V) (c d : Context) : Prop where
  leads : c.tokenizer.LeadsTo d.tokenizer
  journal : d.journal.Faithful g p

/-- How a run from `c` fails that comes to an end. -/
def Halted (g : Grammar V) (p : Parser V) (c : Context) : Failure → Context → Prop
  | .rejected _, d => Past g p c d
  | .fault _, _ => True
  | .exhausted, _ => False

/-- The run from `c` comes to an end. If it succeeds and has consumed nothing, `idle` holds. -/
def HaltsAt (g : Grammar V) (p : Parser V) (idle : Prop) {α : Type} (x : ParseM α) (c : Context) :
    Prop :=
  x.Ends c (fun _ d => Past g p c d ∧ (d.tokenizer = c.tokenizer → idle)) (Halted g p c)

section

variable {g : Grammar V} {p : Parser V} {c₀ c d e : Context} {idle : Prop} {token : Token}
  {α : Type}

/-! ## Contexts that a run leads to -/

theorem Past.refl (hj : c.journal.Faithful g p) : Past g p c c := ⟨.refl _, hj⟩

theorem Past.trans (h : Past g p c d) (h' : Past g p d e) : Past g p c e :=
  ⟨h.leads.trans h'.leads, h'.journal⟩

theorem Past.note (h : Past g p c d) (event : Event) : Past g p c (noted d event) :=
  ⟨h.leads, h.journal.note event⟩

/-- Nothing has been consumed, or less is left. -/
theorem Past.eq_or_lt (h : Past g p c d) :
    d.tokenizer = c.tokenizer ∨
      d.tokenizer.cursor.rest.length < c.tokenizer.cursor.rest.length :=
  h.leads.eq_or_lt

theorem Past.unread_le (h : Past g p c d) :
    d.tokenizer.cursor.rest.length ≤ c.tokenizer.cursor.rest.length := by
  rcases h.eq_or_lt with hsame | hlt
  · exact Nat.le_of_eq (by rw [hsame])
  · exact Nat.le_of_lt hlt

/-- If nothing has been consumed in the end, nothing has been on the way. -/
theorem Past.same (h : Past g p c d) (h' : Past g p d e) (hsame : e.tokenizer = c.tokenizer) :
    d.tokenizer = c.tokenizer := by
  rcases h.eq_or_lt with hd | hlt
  · exact hd
  · have hle := h'.unread_le
    rw [hsame] at hle
    omega

/-- A failure behind `c` is one behind where `c` comes from. -/
theorem Halted.behind {failure : Failure} (h : Past g p c₀ c) (hd : Halted g p c failure d) :
    Halted g p c₀ failure d := by
  cases failure with
  | rejected => exact h.trans hd
  | fault => trivial
  | exhausted => exact hd

/-- What halts goes on from where it succeeds. -/
theorem HaltsAt.mono {x : ParseM α} {ok : α → Context → Prop} (h : HaltsAt g p idle x c)
    (hc : Past g p c₀ c)
    (hok : ∀ a d, Past g p c d → (d.tokenizer = c.tokenizer → idle) → ok a d) :
    x.Ends c ok (Halted g p c₀) :=
  Ends.mono h (fun a d hd => hok a d hd.1 hd.2) fun _ _ he => he.behind hc

theorem HaltsAt.imp {idle' : Prop} {x : ParseM α} (h : HaltsAt g p idle x c)
    (hidle : idle → idle') : HaltsAt g p idle' x c :=
  Ends.mono h (fun _ _ hd => ⟨hd.1, fun hsame => hidle (hd.2 hsame)⟩) fun _ _ he => he

/-! ## Steps -/

theorem Halted.peek {ok : Token → Context → Prop}
    (hok : ∀ token, c.tokenizer.peek = .ok token → ok token c) :
    ParseM.peek.Ends c ok (Halted g p c₀) := by
  cases hpeek : c.tokenizer.peek with
  | error fault =>
    have hrun : ParseM.peek c = (.error (.fault fault), c) := by
      show ParseM.trust c.tokenizer.peek c = _
      rw [hpeek]
      rfl
    exact .of_error hrun trivial
  | ok token => exact .peek hpeek (hok token hpeek)

theorem Halted.trust {y : Except Fault α} {ok : α → Context → Prop} (hok : ∀ a, ok a c) :
    (ParseM.trust y).Ends c ok (Halted g p c₀) := by
  cases y with
  | error fault => exact .throw trivial
  | ok a => exact .pure (hok a)

theorem Past.perform {answer : Answer α} {ok : α → Context → Prop} (hc : Past g p c₀ c)
    (hok : ∀ a, ok a c) : (ParseM.perform answer).Ends c ok (Halted g p c₀) :=
  .perform (fun a _ => hok a) (fun e _ => hc.note (.refused e)) fun _ _ => trivial

theorem Past.reject {message : String} {span : Span} {ok : α → Context → Prop}
    (hc : Past g p c₀ c) : (ParseM.reject message span).Ends c ok (Halted g p c₀) :=
  .throw hc

theorem Past.unexpected {expected : String} {ok : α → Context → Prop} (hc : Past g p c₀ c) :
    (ParseM.unexpected expected token).Ends c ok (Halted g p c₀) :=
  hc.reject

/-- Committing an ordinary token consumes it. -/
theorem Past.commit {ok : Unit → Context → Prop} (hc : Past g p c₀ c) (hk : token.kind = .ordinary)
    (hok : ∀ d, Past g p c d →
      d.tokenizer.cursor.rest.length < c.tokenizer.cursor.rest.length → ok () d) :
    (ParseM.commit token).Ends c ok (Halted g p c₀) := by
  cases hforward : c.tokenizer.forward token with
  | error fault => exact .of_error (commit_of_fault hforward) trivial
  | ok tokenizer =>
    have hm := Tokenizer.forward_moves hforward
    refine .of_ok (commit_apply hforward) (hok _ ⟨.of_moves hm hk, hc.journal.note _⟩ ?_)
    exact hm.rest_lt (by rw [hk]; nofun)

/-! ## Tokens -/

/-- One token is always consumed. -/
theorem expectToken_halts (hj : c.journal.Faithful g p) (type : TokenType) :
    HaltsAt g p False (expectToken type : ParseM (Result V)) c := by
  refine .bind (Halted.peek fun token _ => ?_)
  cases his : token.is type with
  | true =>
    refine .bind ((Past.refl hj).commit (Token.kind_of_is his) fun d hd hlt => .pure ⟨hd, ?_⟩)
    intro hsame
    rw [hsame] at hlt
    exact Nat.lt_irrefl _ hlt
  | false => exact (Past.refl hj).unexpected

/-- The end of the input is next. -/
def Tokenizer.FacesEnd (t : Tokenizer) : Prop :=
  ∃ token, t.peek = .ok token ∧ token.isEndOfInput = true

theorem expectEnd_halts (hj : c.journal.Faithful g p) :
    HaltsAt g p c.tokenizer.FacesEnd (expectEnd : ParseM (Result V)) c := by
  refine .bind (Halted.peek fun token hpeek => ?_)
  cases hend : token.isEndOfInput with
  | true => exact .pure ⟨.refl hj, fun _ => ⟨token, hpeek, hend⟩⟩
  | false => exact (Past.refl hj).unexpected

/-! ## Sequences -/

section

variable {P : Type} {run : P → ParseM (Result V)} {parts : List (Member P)} {idles : Member P → Prop}

/-- The members of a sequence halt if each halts where it is run, which is in front of the first
token only if those before it have consumed nothing. -/
theorem members_halts (hj : c.journal.Faithful g p)
    (hrun : ∀ before m after d, parts = before ++ m :: after → Past g p c d →
      (d.tokenizer = c.tokenizer → ∀ m' ∈ before, idles m') →
      HaltsAt g p (d.tokenizer = c.tokenizer → idles m) (run m.parser) d)
    (covered : Option Span) :
    HaltsAt g p (∀ m ∈ parts, idles m) (members run parts covered) c := by
  suffices from_here : ∀ rest before d covered, parts = before ++ rest → Past g p c d →
      (d.tokenizer = c.tokenizer → ∀ m' ∈ before, idles m') →
      (members run rest covered).Ends d
        (fun _ e => Past g p c e ∧ (e.tokenizer = c.tokenizer → ∀ m ∈ parts, idles m))
        (Halted g p c) from from_here parts [] c covered rfl (.refl hj) fun _ => nofun
  intro rest
  induction rest with
  | nil =>
    intro before d covered hparts hd hbefore
    rw [List.append_nil] at hparts
    rw [hparts]
    exact .pure ⟨hd, hbefore⟩
  | cons m rest ih =>
    intro before d covered hparts hd hbefore
    refine .bind ((hrun before m rest d hparts hd hbefore).mono hd fun r e he hidle => ?_)
    have hextend {ok : Span → Context → Prop} (hok : ∀ span, ok span e) :
        (extend covered r.span).Ends e ok (Halted g p c) := by
      cases covered with
      | none => exact .pure (hok _)
      | some span => exact Halted.trust hok
    refine .bind (hextend fun span => .bind ?_)
    have hrest := ih (before ++ [m]) e (some span) (by rw [hparts]; simp) (hd.trans he) ?_
    · refine hrest.mono (fun elements e' he' => ?_) fun _ _ h => h
      cases m.mark <;> exact .pure he'
    · intro hsame m' hm'
      have hd' := hd.same he hsame
      rcases List.mem_append.1 hm' with hm' | hm'
      · exact hbefore hd' m' hm'
      · rw [List.mem_singleton.1 hm']
        exact hidle (hsame.trans hd'.symm) hd'

/-- A sequence halts if its members do, and consumes nothing only if none of them does. -/
theorem sequence_halts (hj : c.journal.Faithful g p)
    (hrun : ∀ before m after d, parts = before ++ m :: after → Past g p c d →
      (d.tokenizer = c.tokenizer → ∀ m' ∈ before, idles m') →
      HaltsAt g p (d.tokenizer = c.tokenizer → idles m) (run m.parser) d)
    (action : Option (TupleAction V)) :
    HaltsAt g p (∀ m ∈ parts, idles m) (sequence run parts action) c := by
  refine .bind (.position (.bind ?_))
  refine (members_halts hj hrun none).mono (.refl hj) fun elements d hd hidle => ?_
  cases action with
  | none => exact .pure ⟨hd, hidle⟩
  | some f => exact .bind (hd.perform fun value => .pure ⟨hd, hidle⟩)

end

/-! ## Repetitions -/

/-- The rounds of a repetition halt. If there was one, and nothing was consumed, the body has
consumed nothing. -/
theorem repetitions_halts {body : ParseM (Result V)}
    (hbody : ∀ d, Past g p c d → HaltsAt g p (d.tokenizer = c.tokenizer → idle) body d) {n : Nat}
    (hd : Past g p c d) (hn : d.tokenizer.cursor.rest.length < n) :
    (repetitions body n).Ends d
      (fun r e => Past g p d e ∧
        (r.1 ≠ [] → e.tokenizer = d.tokenizer → d.tokenizer = c.tokenizer → idle))
      (Halted g p d) := by
  induction n generalizing d with
  | zero => omega
  | succ n ih =>
    refine .bind (.position (.bind (.attempt ?_)))
    refine Ends.mono (hbody d hd) (fun r e he => ?_) fun failure e he => ?_
    · obtain ⟨he, hidle⟩ := he
      refine .bind (.position ?_)
      dsimp only
      by_cases hsame : e.tokenizer.position.offset = d.tokenizer.position.offset
      · rw [if_pos hsame]
        exact .pure ⟨he, fun _ => hidle⟩
      · rw [if_neg hsame]
        -- the round has consumed something, so that less is left for those that follow
        have hlt : e.tokenizer.cursor.rest.length < d.tokenizer.cursor.rest.length :=
          he.eq_or_lt.resolve_left fun h => hsame (by rw [h])
        refine .bind ((ih (hd.trans he) (by omega)).mono (fun rounds e' he' => ?_)
          fun _ _ h => h.behind he)
        exact .pure ⟨he.trans he'.1, fun _ hback => hidle (he.same he'.1 hback)⟩
    · cases failure with
      | rejected error =>
        refine .bind (.position ?_)
        dsimp only
        by_cases hsame : e.tokenizer.position.offset = d.tokenizer.position.offset
        · rw [if_pos hsame]
          exact .pure ⟨he, fun h => absurd rfl h⟩
        · rw [if_neg hsame]
          exact .throw he
      | fault => trivial
      | exhausted => exact he

/-- A repetition halts if its body does, and consumes nothing only if its body does not or if no
round is asked for. -/
theorem repetition_halts {body : ParseM (Result V)} (hj : c.journal.Faithful g p)
    (hbody : ∀ d, Past g p c d → HaltsAt g p (d.tokenizer = c.tokenizer → idle) body d)
    (minimum : Nat) : HaltsAt g p (idle ∨ minimum = 0) (repetition body minimum) c := by
  refine .bind (.position (.bind (.unread (.bind ?_))))
  refine (repetitions_halts hbody (.refl hj) (Nat.lt_succ_self _)).mono (fun rounds d hd => ?_)
    fun _ _ h => h
  obtain ⟨items, reason⟩ := rounds
  obtain ⟨hd, hidle⟩ := hd
  refine .bind (.note ?_)
  have hd' := hd.note (.repeated items.length minimum)
  dsimp only
  by_cases hfew : items.length < minimum
  · rw [if_pos hfew]
    cases reason with
    | some error => exact hd'.reject
    | none => exact .bind (.position hd'.reject)
  · rw [if_neg hfew]
    refine .bind (Halted.trust fun span => .pure ⟨hd', fun hsame => ?_⟩)
    cases items with
    | nil => exact .inr (Nat.eq_zero_of_not_pos hfew)
    | cons r items => exact .inl (hidle (List.cons_ne_nil _ _) hsame rfl)

/-! ## Choices -/

/-- A choice halts if its alternatives do, and consumes nothing only if one of them does not. -/
theorem choice_halts {run : Parser V → ParseM (Result V)} {slot : Nat}
    {alternatives : List (Parser V)} {idles : Parser V → Prop} (hj : c.journal.Faithful g p)
    (hreach : g.Reaches p (.choice slot alternatives))
    (hrun : ∀ q ∈ alternatives, ∀ d, d.tokenizer = c.tokenizer → d.journal.Faithful g p →
      HaltsAt g p (idles q) (run q) d) :
    HaltsAt g p (∃ q ∈ alternatives, idles q) (chooseAlternative g run slot alternatives) c := by
  refine .bind (Halted.peek fun token _ => .bind ?_)
  cases hfirsts : alternatives.mapM g.first with
  | error e => exact .of_error (predict_eq_error hj hreach hfirsts) trivial
  | ok firsts =>
    obtain ⟨j, hpredict, hj'⟩ := predict_apply (c := c) hj hreach hfirsts
    refine .of_ok hpredict ?_
    have selected {property : FirstSet → Bool} {index : Nat} {q : Parser V} (event : Event)
        (h : alternative? alternatives firsts property = some (index, q)) :
        (do note event; run q).Ends ⟨c.tokenizer, j⟩
          (fun _ d => Past g p c d ∧ (d.tokenizer = c.tokenizer → ∃ q ∈ alternatives, idles q))
          (Halted g p c) := by
      obtain ⟨f, hmem, -⟩ := alternative?_eq_some h
      have hq := (List.of_mem_zip hmem).1
      have hc : Past g p c (noted ⟨c.tokenizer, j⟩ event) := ⟨.refl _, hj'.note event⟩
      have hhalts : HaltsAt g p (idles q) (run q) (noted ⟨c.tokenizer, j⟩ event) :=
        hrun q hq _ rfl hc.journal
      refine .bind (.note (hhalts.mono hc fun r d hd hidle => ?_))
      exact ⟨hc.trans hd, fun hsame => ⟨q, hq, hidle hsame⟩⟩
    split
    · next h => exact selected _ h
    · split
      · next h => exact selected _ h
      · exact Past.reject ⟨.refl _, hj'⟩

end

end PredictiveParsing
