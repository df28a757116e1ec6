import PredictiveParsing.Proofs.Grammar.Safety
import PredictiveParsing.Proofs.Lexing.Lossless

/-!
# Runs pass over recognised tokens only

However a run ends, what it has done to the tokenizer is to move over some tokens, one after the
other, and each of them is ordinary: no scalar that no rule recognises is ever passed over, and the
end of the input is not either. `ParseM.Advances` says this of a run wherever it begins. It asks
nothing of the grammar, the actions or the place of the cursor, so its rules follow the way runs are
put together, and only `ParseM.commit` has something to show: each combinator commits a token only
after it has looked at its type (`ParseM.Advances.commit`).
-/

namespace PredictiveParsing

open ParseM

variable {V P α β : Type}

/-- From the first tokenizer to the second the cursor has moved forward over ordinary tokens, in the
same input and with the same rules. -/
structure Tokenizer.Advanced (t t' : Tokenizer) : Prop where
  rules : t'.rules = t.rules
  input : t'.cursor.input = t.cursor.input
  forward : t.position.offset ≤ t'.position.offset
  tokens : ∃ tokens, t.Commits tokens t' ∧ ∀ token ∈ tokens, token.kind = .ordinary

namespace Tokenizer

variable {t t' : Tokenizer} {tokens : List Token}

theorem Commits.offset_le (h : t.Commits tokens t') : t.position.offset ≤ t'.position.offset := by
  induction h with
  | nil => exact Nat.le_refl _
  | cons hm _ ih =>
    rw [hm.offset] at ih
    omega

theorem LeadsTo.advanced (h : t.LeadsTo t') : t.Advanced t' := by
  obtain ⟨tokens, hc, hk⟩ := h
  exact ⟨hc.rules, hc.input, hc.offset_le, tokens, hc, hk⟩

end Tokenizer

/-! ## Rules -/

/-- Wherever the run begins and however it ends, it has passed over ordinary tokens only. -/
def ParseM.Advances (x : ParseM α) : Prop :=
  ∀ c : Context, c.tokenizer.LeadsTo (x c).2.tokenizer

namespace ParseM.Advances

variable {x : ParseM α} {f : α → ParseM β} {token : Token}

/-- A run that leaves the tokenizer alone passes over nothing. -/
theorem of_same (h : ∀ c, (x c).2.tokenizer = c.tokenizer) : x.Advances := by
  intro c
  rw [h c]
  exact .refl _

/-- A run in two parts passes over what both parts do. -/
theorem bind (hx : x.Advances) (hf : ∀ a, (f a).Advances) : (x >>= f).Advances := by
  intro c
  have hfirst := hx c
  rw [bind_apply]
  rcases hrun : x c with ⟨a | e, d⟩
  · rw [hrun] at hfirst
    exact hfirst
  · rw [hrun] at hfirst
    exact hfirst.trans (hf e d)

theorem pure (a : α) : (Pure.pure a : ParseM α).Advances := .of_same fun _ => rfl

theorem throw (e : Failure) : (MonadExcept.throw e : ParseM α).Advances := .of_same fun _ => rfl

theorem reject (message : String) (span : Span) : (ParseM.reject message span : ParseM α).Advances :=
  throw _

theorem unexpected (expected : String) (token : Token) :
    (ParseM.unexpected expected token : ParseM α).Advances :=
  throw _

theorem get : (MonadState.get : ParseM Context).Advances := .of_same fun _ => rfl

theorem note (e : Event) : (ParseM.note e).Advances := .of_same fun _ => rfl

theorem position : ParseM.position.Advances := .of_same fun _ => rfl

theorem unread : ParseM.unread.Advances := .of_same fun _ => rfl

theorem trust (y : Except Fault α) : (ParseM.trust y).Advances := by
  cases y with
  | ok a => exact pure a
  | error f => exact throw _

theorem peek : ParseM.peek.Advances := .bind get fun _ => trust _

theorem perform (answer : Answer α) : (ParseM.perform answer).Advances := by
  cases answer with
  | ok a => exact pure a
  | error refusal =>
    cases refusal with
    | rejected e => exact .bind (note _) fun _ => throw _
    | fault f => exact throw _

/-- Committing a token passes over it, if it is the one at the cursor. -/
theorem commit (hk : token.kind = .ordinary) : (ParseM.commit token).Advances := by
  intro c
  cases hforward : c.tokenizer.forward token with
  | error f =>
    rw [commit_of_fault hforward]
    exact .refl _
  | ok t =>
    rw [commit_apply hforward]
    exact .of_moves (Tokenizer.forward_moves hforward) hk

/-- An error that becomes a result has passed over the same tokens. -/
theorem attempt (hx : x.Advances) : (ParseM.attempt x).Advances := by
  intro c
  have hrun := hx c
  unfold ParseM.attempt
  rcases h : x c with ⟨a | e, d⟩ <;> rw [h] at hrun
  · cases a <;> exact hrun
  · exact hrun

end ParseM.Advances

/-! ## Combinators -/

section

variable {run : P → ParseM (Result V)} {body : ParseM (Result V)}

theorem expectToken_advances (type : TokenType) :
    (expectToken type : ParseM (Result V)).Advances := by
  refine .bind .peek fun token => ?_
  cases his : token.is type with
  | true => exact .bind (.commit (Token.kind_of_is his)) fun _ => .pure _
  | false => exact .unexpected _ _

theorem expectEnd_advances : (expectEnd : ParseM (Result V)).Advances := by
  refine .bind .peek fun token => ?_
  cases token.isEndOfInput with
  | true => exact .pure _
  | false => exact .unexpected _ _

theorem members_advances (hrun : ∀ p, (run p).Advances) (parts : List (Member P))
    (covered : Option Span) : (members run parts covered).Advances := by
  induction parts generalizing covered with
  | nil => exact .pure _
  | cons m parts ih =>
    refine .bind (hrun _) fun r => .bind ?_ fun span => .bind (ih _) fun result => ?_
    · cases covered with
      | none => exact .pure _
      | some s => exact .trust _
    · cases m.mark <;> exact .pure _

theorem sequence_advances (hrun : ∀ p, (run p).Advances) (parts : List (Member P))
    (action : Option (TupleAction V)) : (sequence run parts action).Advances := by
  refine .bind .position fun start => .bind (members_advances hrun parts none) fun result => ?_
  cases action with
  | none => exact .pure _
  | some f => exact .bind (.perform _) fun _ => .pure _

theorem repetitions_advances (hbody : body.Advances) (n : Nat) : (repetitions body n).Advances := by
  induction n with
  | zero => exact .throw _
  | succ n ih =>
    refine .bind .position fun before => .bind hbody.attempt fun outcome => ?_
    refine .bind .position fun after => ?_
    cases outcome with
    | ok r =>
      dsimp only
      split
      · exact .pure _
      · exact .bind ih fun _ => .pure _
    | error e =>
      dsimp only
      split
      · exact .pure _
      · exact .throw _

theorem repetition_advances (hbody : body.Advances) (minimum : Nat) :
    (repetition body minimum).Advances := by
  refine .bind .position fun start => .bind .unread fun n => ?_
  refine .bind (repetitions_advances hbody _) fun rounds => .bind (.note _) fun _ => ?_
  dsimp only
  split
  · cases rounds.2 with
    | some e => exact .reject _ _
    | none => exact .bind .position fun _ => .reject _ _
  · exact .bind (.trust _) fun _ => .pure _

end

/-- Finding the FIRST sets of a choice changes the journal only. -/
theorem predict_advances (g : Grammar V) (slot : Nat) (alternatives : List (Parser V)) :
    (predict g slot alternatives).Advances := by
  refine .bind .get fun c => ?_
  split
  · exact .pure _
  · split
    · exact .bind (.note _) fun _ => .bind (.of_same fun _ => rfl) fun _ => .pure _
    · exact .throw _

theorem choice_advances {g : Grammar V} {run : Parser V → ParseM (Result V)}
    (hrun : ∀ p, (run p).Advances) (slot : Nat) (alternatives : List (Parser V)) :
    (chooseAlternative g run slot alternatives).Advances := by
  refine .bind .peek fun token => .bind (predict_advances g slot alternatives) fun firsts => ?_
  split
  · exact .bind (.note _) fun _ => hrun _
  · split
    · exact .bind (.note _) fun _ => hrun _
    · exact .reject _ _

/-! ## Expressions -/

namespace Operators

variable {o : Operators V P} {embedded : P → ParseM (Result V)} {inner : Nat → ParseM (Result V)}

theorem skipTo_advances (n : Nat) : (o.skipTo n).Advances := by
  induction n with
  | zero => exact .throw _
  | succ n ih =>
    refine .bind .peek fun token => ?_
    cases hs : o.skips token with
    | true => exact .bind (.commit (kind_of_skips hs)) fun _ => ih
    | false => exact .pure _

theorem current_advances : o.current.Advances := .bind .unread fun _ => skipTo_advances _

theorem atomResult_advances (action : Option (AtomAction V)) (token : Token) :
    (atomResult action token).Advances := by
  cases action with
  | none => exact .pure _
  | some f => exact .perform _

theorem prefixResult_advances (action : Option (PrefixAction V)) (op : Token)
    (operand : Result V) : (prefixResult action op operand).Advances := by
  cases action with
  | none => exact .bind (.trust _) fun _ => .pure _
  | some f => exact .perform _

theorem infixResult_advances (action : Option (InfixAction V)) (left : Result V) (op : Token)
    (right : Result V) : (infixResult action left op right).Advances := by
  cases action with
  | none => exact .bind (.trust _) fun _ => .pure _
  | some f => exact .perform _

theorem operand_advances (hembedded : ∀ p, (embedded p).Advances)
    (hinner : ∀ minimum, (inner minimum).Advances) (token : Token) :
    (o.operand embedded inner token).Advances := by
  unfold operand
  cases hrole : o.roleOf? token with
  | none => exact .unexpected _ _
  | some role =>
    have hk := (role?_of_roleOf? hrole).1
    cases role with
    | infixOp => exact .unexpected _ _
    | atom action => exact .bind (.commit hk) fun _ => .bind (.note _) fun _ => atomResult_advances _ _
    | prefixOp priority action | mixfix priority _ _ action =>
      refine .bind (.commit hk) fun _ => .bind (.note _) fun _ => ?_
      exact .bind (hinner _) fun _ => prefixResult_advances _ _ _
    | embed p => exact .bind (.note _) fun _ => hembedded p
    | bracket opening closing =>
      refine .bind (.commit hk) fun _ => .bind (hinner 0) fun r => ?_
      refine .bind current_advances fun last => ?_
      cases hcloses : last.is closing with
      | true =>
        refine .bind (.commit (Token.kind_of_is hcloses)) fun _ => ?_
        exact .bind (.trust _) fun _ => .pure _
      | false => exact .unexpected _ _

theorem climb_advances (hinner : ∀ minimum, (inner minimum).Advances) (minimum n : Nat)
    (left : Result V) : (o.climb inner minimum n left).Advances := by
  induction n generalizing left with
  | zero => exact .throw _
  | succ n ih =>
    refine .bind current_advances fun token => ?_
    cases hinfix : (o.roleOf? token).bind Role.infixRole? with
    | none => exact .pure _
    | some operator =>
      obtain ⟨role, hrole, -⟩ := Option.bind_eq_some_iff.1 hinfix
      dsimp only
      split
      · exact .pure _
      · refine .bind (.commit (role?_of_roleOf? hrole).1) fun _ => .bind (.note _) fun _ => ?_
        refine .bind (hinner _) fun right => .bind (infixResult_advances _ _ _ _) fun r => ?_
        exact ih r

theorem above_advances (hembedded : ∀ p, (embedded p).Advances) (depth minimum : Nat) :
    (o.above embedded depth minimum).Advances := by
  induction depth generalizing minimum with
  | zero => exact .throw _
  | succ depth ih =>
    refine .bind current_advances fun token => ?_
    refine .bind (operand_advances hembedded ih token) fun left => ?_
    exact .bind .unread fun _ => climb_advances ih _ _ left

theorem expression_advances (hembedded : ∀ p, (embedded p).Advances) :
    (o.expression embedded).Advances :=
  .bind .unread fun _ => above_advances hembedded _ _

end Operators

/-! ## Parsers -/

section

variable (g : Grammar V)

/-- A combinator passes over ordinary tokens only if its parts do. -/
theorem Parser.top_advances {run : Parser V → ParseM (Result V)} (hrun : ∀ q, (run q).Advances)
    (p : Parser V) : (p.top g run).Advances := by
  cases p with
  | token type => exact expectToken_advances type
  | endOfInput => exact expectEnd_advances
  | tuple members action => exact sequence_advances hrun members action
  | choice slot alternatives => exact choice_advances hrun slot alternatives
  | many body minimum => exact repetition_advances (hrun body) minimum
  | embed body => exact hrun body
  | expr o => exact Operators.expression_advances hrun
  | ref name => exact .bind (.trust _) fun r => hrun r

theorem Parser.runWithin_advances (depth : Nat) (p : Parser V) : (p.runWithin g depth).Advances := by
  induction depth generalizing p with
  | zero => exact .throw _
  | succ depth ih =>
    rw [runWithin_succ]
    exact top_advances g ih p

/-- Whatever the grammar, the actions and the tokenizer are, and however a run ends, it leaves the
tokenizer as it was but for a number of ordinary tokens that it has passed over. -/
theorem Parser.run_passes_ordinary (p : Parser V) (c : Context) :
    (∀ depth, c.tokenizer.Advanced (p.runWithin g depth c).2.tokenizer) ∧
      c.tokenizer.Advanced (p.run g c).2.tokenizer :=
  have hdepth (depth : Nat) : c.tokenizer.Advanced (p.runWithin g depth c).2.tokenizer :=
    (runWithin_advances g depth p c).advanced
  ⟨hdepth, hdepth _⟩

end

end PredictiveParsing
