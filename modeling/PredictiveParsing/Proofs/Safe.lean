import PredictiveParsing.Parsing.Combinators
import PredictiveParsing.Proofs.Grammar.Predicting

/-!
# Runs that are never at fault

A run is safe if it is at no fault, and if what it answers stands for a region between the places
where the run began and where it ended. A safe run may be rejected, or it may be exhausted if depths
are `limited`; the loops of the combinators count the scalars that are left and are never exhausted
themselves.

Each combinator is safe if its parts are. What a safe run keeps is that the cursor is in place in
the input and that the journal is to be trusted (`Ready`); from there every token can be peeked and
committed, and regions that follow each other have a cover.
-/

namespace PredictiveParsing

open ParseM

variable {V : Type}

/-! ## Spans in order -/

/-- The spans run forward one behind the other, between two offsets. -/
def Span.InOrder (low : Nat) : List Span → Nat → Prop
  | [], high => low ≤ high
  | s :: spans, high => s.Within low s.stop.offset ∧ InOrder s.stop.offset spans high

namespace Span

variable {s : Span} {spans : List Span} {low low' mid high : Nat}

theorem InOrder.mono (h : InOrder low spans high) (hl : low' ≤ low) : InOrder low' spans high := by
  cases spans with
  | nil => exact Nat.le_trans hl h
  | cons s spans => exact ⟨h.1.mono hl (Nat.le_refl _), h.2⟩

theorem InOrder.cons (h : s.Within low mid) (hrest : InOrder mid spans high) :
    InOrder low (s :: spans) high :=
  ⟨⟨h.low, h.forward, Nat.le_refl _⟩, hrest.mono h.high⟩

theorem InOrder.single (h : s.Within low high) : InOrder low [s] high :=
  .cons h (Nat.le_refl high)

/-- The first and the last of several spans in order have a cover. -/
theorem InOrder.cover (h : InOrder low (s :: spans) high) :
    Span.cover s ((s :: spans).getLast (List.cons_ne_nil _ _)) =
        .ok ⟨s.start, ((s :: spans).getLast (List.cons_ne_nil _ _)).stop⟩ ∧
      Within ⟨s.start, ((s :: spans).getLast (List.cons_ne_nil _ _)).stop⟩ low high := by
  induction spans generalizing s low with
  | nil =>
    obtain ⟨hwithin, hle⟩ := h
    exact ⟨between_eq_ok.2 ⟨hwithin.forward, rfl⟩, hwithin.low, hwithin.forward, hle⟩
  | cons s' spans ih =>
    obtain ⟨hwithin, hrest⟩ := h
    obtain ⟨-, hlast⟩ := ih hrest
    rw [List.getLast_cons (List.cons_ne_nil s' spans)]
    have hforward : s.start.offset ≤
        ((s' :: spans).getLast (List.cons_ne_nil s' spans)).stop.offset :=
      Nat.le_trans hwithin.forward (Nat.le_trans hlast.low hlast.forward)
    exact ⟨between_eq_ok.2 ⟨hforward, rfl⟩, hwithin.low, hforward, hlast.high⟩

end Span

/-- The last of several regions is the one of the last result. -/
theorem Result.getLast_span (r : Result V) (items : List (Result V)) :
    (r.span :: items.map Result.span).getLast (List.cons_ne_nil _ _) =
      ((r :: items).getLast (List.cons_ne_nil _ _)).span :=
  List.getLast_map (l := r :: items) (List.cons_ne_nil _ _)

/-- Results in order have a common region. -/
theorem coverAll_of_inOrder {start : Position} {items : List (Result V)} {high : Nat}
    (h : Span.InOrder start.offset (items.map Result.span) high) :
    ∃ span, coverAll start items = .ok span ∧ span.Within start.offset high := by
  cases items with
  | nil => exact ⟨.empty start, rfl, Nat.le_refl _, Nat.le_refl _, h⟩
  | cons r items =>
    obtain ⟨hcover, hwithin⟩ := h.cover
    refine ⟨_, ?_, hwithin⟩
    show Span.cover r.span ((r :: items).getLast _).span = _
    rw [← Result.getLast_span]
    exact hcover

/-! ## Safe runs -/

/-- The cursor is in place in the input, and the journal is to be trusted below `p`. -/
structure Ready (g : Grammar V) (p : Parser V) (input : Text) (c : Context) : Prop where
  placed : c.tokenizer.cursor.Placed
  input : c.tokenizer.cursor.input = input
  journal : c.journal.Faithful g p

/-- How a safe run from `c` fails: it is rejected behind `c`, or exhausted where depths are
limited. -/
def Fails (g : Grammar V) (p : Parser V) (input : Text) (limited : Prop) (c : Context) :
    Failure → Context → Prop
  | .rejected _, d => Ready g p input d ∧ Onward c d
  | .fault _, _ => False
  | .exhausted, _ => limited

/-- The run from `c` is safe: its result stands for a region behind `c`, up to where it ends. -/
def SafeAt (g : Grammar V) (p : Parser V) (input : Text) (limited : Prop)
    (x : ParseM (Result V)) (c : Context) : Prop :=
  x.Ends c
    (fun r d => Ready g p input d ∧ Onward c d ∧
      r.span.Within c.tokenizer.position.offset d.tokenizer.position.offset)
    (Fails g p input limited c)

/-- The run is safe wherever it begins. -/
def Safe (g : Grammar V) (p : Parser V) (input : Text) (limited : Prop)
    (x : ParseM (Result V)) : Prop :=
  ∀ c, Ready g p input c → SafeAt g p input limited x c

section

variable {g : Grammar V} {p : Parser V} {input : Text} {limited : Prop} {c d : Context}
  {token : Token}

theorem Ready.peek (h : Ready g p input c) : ∃ token, c.tokenizer.peek = .ok token :=
  Tokenizer.peek_of_placed h.placed

theorem Ready.note (h : Ready g p input c) (e : Event) : Ready g p input (noted c e) :=
  ⟨h.placed, h.input, h.journal.note e⟩

/-- Less is left to read where the offset is larger. -/
theorem Ready.unread_lt (h : Ready g p input c) (h' : Ready g p input d)
    (hlt : c.tokenizer.position.offset < d.tokenizer.position.offset) :
    d.tokenizer.cursor.rest.length < c.tokenizer.cursor.rest.length :=
  h.placed.rest_lt h'.placed (h'.input.trans h.input.symm) hlt

/-- A failure behind `d` is one behind `c`, if `d` is behind `c`. -/
theorem Fails.behind {e : Failure} {c' : Context} (ho : Onward c d)
    (h : Fails g p input limited d e c') : Fails g p input limited c e c' := by
  cases e with
  | rejected => exact ⟨h.1, ho.trans h.2⟩
  | fault => exact h
  | exhausted => exact h

/-- A safe run goes on behind its result. -/
theorem SafeAt.mono {x : ParseM (Result V)} {ok : Result V → Context → Prop}
    {c₀ : Context} (h : SafeAt g p input limited x c) (ho : Onward c₀ c)
    (hok : ∀ r d, Ready g p input d → Onward c d →
      r.span.Within c.tokenizer.position.offset d.tokenizer.position.offset → ok r d) :
    x.Ends c ok (Fails g p input limited c₀) :=
  Ends.mono h (fun r d hd => hok r d hd.1 hd.2.1 hd.2.2) (fun _ _ he => he.behind ho)

/-- The next token can be committed. -/
theorem Ready.commit {ok : Unit → Context → Prop} {bad : Failure → Context → Prop}
    (h : Ready g p input c) (hpeek : c.tokenizer.peek = .ok token)
    (hok : ∀ d, Ready g p input d → c.tokenizer.Moves token d.tokenizer → ok () d) :
    (commit token).Ends c ok bad := by
  refine .commit hpeek fun t hm => ?_
  exact hok _ ⟨hm.placed h.placed, hm.input.trans h.input, h.journal.note _⟩ hm

/-! ## Tokens -/

theorem safe_expectToken (type : TokenType) : Safe g p input limited (expectToken type) := by
  intro c hc
  obtain ⟨token, hpeek⟩ := hc.peek
  refine .bind (.peek hpeek ?_)
  cases hr : token.is type with
  | true =>
    refine .bind (hc.commit hpeek fun d hd hm => ?_)
    exact .pure ⟨hd, .of_moves hm, hm.within⟩
  | false => exact .unexpected fun _ => ⟨hc, .refl c⟩

theorem safe_expectEnd : Safe g p input limited expectEnd := by
  intro c hc
  obtain ⟨token, hpeek⟩ := hc.peek
  refine .bind (.peek hpeek ?_)
  cases hr : token.isEndOfInput with
  | true =>
    have hwithin := (Tokenizer.peek_at hpeek).within_of_isEndOfInput hr
    exact .pure ⟨hc, .refl c, hwithin⟩
  | false => exact .unexpected fun _ => ⟨hc, .refl c⟩

/-! ## Sequences -/

/-- The region covered so far can be extended by one behind it. -/
theorem extend_within {covered : Option Span} {s : Span} {low mid high : Nat}
    (hcovered : ∀ s₀ ∈ covered, s₀.Within low mid) (hlow : low ≤ mid) (hs : s.Within mid high) :
    ∃ s', extend covered s c = (.ok s', c) ∧ s'.Within low high := by
  cases covered with
  | none => exact ⟨s, rfl, hs.mono hlow (Nat.le_refl _)⟩
  | some s₀ =>
    obtain ⟨hcover, hwithin⟩ := (hcovered s₀ rfl).cover hs (Nat.le_refl _)
    exact ⟨_, trust_apply hcover c, hwithin⟩

/-- The number of elements that a sequence keeps. -/
def keptCount {P : Type} (parts : List (Member P)) : Nat :=
  parts.countP fun m => m.mark = .element

/-- The members of a sequence cover a region behind the one that is covered already, and as many
results are answered as are kept. -/
theorem members_safe {run : Parser V → ParseM (Result V)} {parts : List (Member (Parser V))}
    (hrun : ∀ m ∈ parts, Safe g p input limited (run m.parser)) {covered : Option Span} {low : Nat}
    (hlow : low ≤ c.tokenizer.position.offset)
    (hcovered : ∀ s ∈ covered, s.Within low c.tokenizer.position.offset)
    (hc : Ready g p input c) :
    (members run parts covered).Ends c
      (fun r d => Ready g p input d ∧ Onward c d ∧ r.1.length = keptCount parts ∧
        ∀ s ∈ r.2, s.Within low d.tokenizer.position.offset)
      (Fails g p input limited c) := by
  induction parts generalizing covered c with
  | nil => exact .pure ⟨hc, .refl c, rfl, hcovered⟩
  | cons m parts ih =>
    refine .bind ((hrun m (.head _) c hc).mono (.refl c) fun r d hd ho hwithin => ?_)
    obtain ⟨s, hextend, hs⟩ := extend_within hcovered hlow hwithin
    refine .bind (.of_ok hextend (.bind ?_))
    have hnext : ∀ s' ∈ some s, s'.Within low d.tokenizer.position.offset := by
      rintro _ ⟨⟩
      exact hs
    have hrest := ih (fun m' hm' => hrun m' (.tail _ hm')) (Nat.le_trans hlow ho.offset) hnext hd
    refine hrest.mono (fun result e he => ?_) (fun _ _ he => he.behind ho)
    obtain ⟨hready, ho', hcount, hcovered'⟩ := he
    cases hmark : m.mark with
    | element =>
      refine .pure ⟨hready, ho.trans ho', ?_, hcovered'⟩
      simp [keptCount, hmark, hcount]
    | skip =>
      refine .pure ⟨hready, ho.trans ho', ?_, hcovered'⟩
      simp [keptCount, hmark, hcount]

/-- A sequence of safe members is safe, if its action is at no fault over what the sequence
keeps. -/
theorem safe_sequence {run : Parser V → ParseM (Result V)} {parts : List (Member (Parser V))}
    {action : Option (TupleAction V)} (hrun : ∀ m ∈ parts, Safe g p input limited (run m.parser))
    (haction : ∀ a, action = some a → ∀ elements span fault, elements.length = keptCount parts →
      a elements span ≠ .error (.fault fault)) :
    Safe g p input limited (sequence run parts action) := by
  intro c hc
  refine .bind (.position (.bind ?_))
  have hnone : ∀ s ∈ (none : Option Span), s.Within c.tokenizer.position.offset
      c.tokenizer.position.offset := nofun
  refine (members_safe hrun (Nat.le_refl _) hnone hc).imp fun result d hd => ?_
  obtain ⟨hd, ho, hcount, hcovered⟩ := hd
  have hspan : (result.2.getD (.empty c.tokenizer.position)).Within
      c.tokenizer.position.offset d.tokenizer.position.offset := by
    cases hr : result.2 with
    | none => exact ⟨Nat.le_refl _, Nat.le_refl _, ho.offset⟩
    | some s => exact hcovered s hr
  cases action with
  | none => exact .pure ⟨hd, ho, hspan⟩
  | some a =>
    refine .bind (.perform (fun v _ => .pure ⟨hd, ho, hspan⟩) (fun e _ => ?_) fun x hx => ?_)
    · exact ⟨hd.note _, ho.note _⟩
    · exact absurd hx (haction a rfl _ _ x hcount)

/-! ## Repetitions -/

/-- The rounds of a repetition are as many as scalars are left at most, and their results stand for
regions in order. -/
theorem repetitions_safe {body : ParseM (Result V)} (hbody : Safe g p input limited body) {n : Nat}
    (hn : c.tokenizer.cursor.rest.length < n) (hc : Ready g p input c) :
    (repetitions body n).Ends c
      (fun r d => Ready g p input d ∧ Onward c d ∧ Span.InOrder c.tokenizer.position.offset
        (r.1.map Result.span) d.tokenizer.position.offset)
      (Fails g p input limited c) := by
  induction n generalizing c with
  | zero => omega
  | succ n ih =>
    refine .bind (.position (.bind (.attempt ?_)))
    refine Ends.mono (hbody c hc) (fun r d hd => ?_) (fun e d he => ?_)
    · obtain ⟨hd, ho, hwithin⟩ := hd
      refine .bind (.position ?_)
      dsimp only
      by_cases hsame : d.tokenizer.position.offset = c.tokenizer.position.offset
      · rw [if_pos hsame]
        exact .pure ⟨hd, ho, .single hwithin⟩
      · rw [if_neg hsame]
        -- the round has moved on, so that less is left for those that follow
        have hoffset := ho.offset
        have hlt := hc.unread_lt hd (by omega)
        refine .bind ((ih (by omega) hd).mono (fun result e he => ?_) fun _ _ he => he.behind ho)
        obtain ⟨hready, ho', horder⟩ := he
        exact .pure ⟨hready, ho.trans ho', .cons hwithin horder⟩
    · cases e with
      | rejected e =>
        obtain ⟨hd, ho⟩ := he
        refine .bind (.position ?_)
        dsimp only
        by_cases hsame : d.tokenizer.position.offset = c.tokenizer.position.offset
        · rw [if_pos hsame]
          exact .pure ⟨hd, ho, ho.offset⟩
        · rw [if_neg hsame]
          exact .throw ⟨hd, ho⟩
      | fault => exact he
      | exhausted => exact he

/-- A repetition of a safe body is safe. -/
theorem safe_repetition {body : ParseM (Result V)} (hbody : Safe g p input limited body)
    (minimum : Nat) : Safe g p input limited (repetition body minimum) := by
  intro c hc
  refine .bind (.position (.bind (.unread (.bind ?_))))
  refine (repetitions_safe hbody (Nat.lt_succ_self _) hc).imp fun r d hd => ?_
  obtain ⟨items, reason⟩ := r
  obtain ⟨hd, ho, horder⟩ := hd
  refine .bind (.note ?_)
  have hd' := hd.note (.repeated items.length minimum)
  by_cases hfew : items.length < minimum
  · dsimp only
    rw [if_pos hfew]
    cases reason with
    | some e => exact .reject ⟨hd', ho.note _⟩
    | none => exact .bind (.position (.reject ⟨hd', ho.note _⟩))
  · dsimp only
    rw [if_neg hfew]
    obtain ⟨span, hcover, hwithin⟩ := coverAll_of_inOrder horder
    exact .bind (.trust hcover (.pure ⟨hd', ho.note _, hwithin⟩))

/-! ## Choices -/

/-- A choice of safe alternatives is safe, if they have FIRST sets. -/
theorem safe_choice {run : Parser V → ParseM (Result V)} {slot : Nat}
    {alternatives : List (Parser V)} {firsts : List FirstSet}
    (hreach : g.Reaches p (.choice slot alternatives))
    (hfirsts : alternatives.mapM g.first = .ok firsts)
    (hrun : ∀ q ∈ alternatives, Safe g p input limited (run q)) :
    Safe g p input limited (chooseAlternative g run slot alternatives) := by
  intro c hc
  obtain ⟨token, hpeek⟩ := hc.peek
  obtain ⟨j, hj, hcases⟩ := chooseAlternative_cases run hpeek hc.journal hreach hfirsts
  have hready : Ready g p input ⟨c.tokenizer, j⟩ := ⟨hc.placed, hc.input, hj⟩
  have selected {q : Parser V} {f : FirstSet} (hmem : (q, f) ∈ alternatives.zip firsts)
      (hsame : chooseAlternative g run slot alternatives c = run q ⟨c.tokenizer, j⟩) :
      SafeAt g p input limited (chooseAlternative g run slot alternatives) c := by
    have hhere : Onward c ⟨c.tokenizer, j⟩ := ⟨Nat.le_refl _, Nat.le_refl _⟩
    refine .of_eq hsame ((hrun q (List.of_mem_zip hmem).1 _ hready).mono hhere ?_)
    exact fun r d hd ho hwithin => ⟨hd, hhere.trans ho, hwithin⟩
  rcases hcases with ⟨q, f, hmem, -, hsame⟩ | ⟨-, ⟨q, f, hmem, -, hsame⟩ | ⟨-, hreject⟩⟩
  · exact selected hmem hsame
  · exact selected hmem hsame
  · exact .of_error hreject ⟨hready, Nat.le_refl _, Nat.le_refl _⟩

end

end PredictiveParsing
