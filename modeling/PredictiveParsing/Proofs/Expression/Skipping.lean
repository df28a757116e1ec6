import PredictiveParsing.Expression.Climbing
import PredictiveParsing.Proofs.Running

/-!
# Streams with skipped tokens

An operator table steps over the tokens of its skipped types, so its climbing sees the other tokens
of a stream only. `Operators.Passes` are the tokens that it has seen on the way from one tokenizer
to another, and `Operators.Ahead` those that it will see. The next of them is the current one:
`Operators.current_eq_ok` says so of a run that has found it, `Operators.Ahead.current` of a run
that is to find it, and `Operators.current_keeps` says what is kept on the way to it.
-/

namespace PredictiveParsing

open ParseM

variable {V P : Type}

namespace Operators

variable {o : Operators V P} {t t' t'' e : Tokenizer} {token next : Token} {ts ts' : List Token}
  {c c' : Context}

/-! ## Tokens that have been passed -/

/-- From `t` to `t'` the given tokens are committed, and skipped ones in between. -/
def Passes (o : Operators V P) (t : Tokenizer) (ts : List Token) (t' : Tokenizer) : Prop :=
  ∃ tokens, t.Commits tokens t' ∧ tokens.filter (fun token => !o.skips token) = ts

/-- The token at the cursor is the given one, and it is not skipped. -/
def Faces (o : Operators V P) (t : Tokenizer) (token : Token) : Prop :=
  t.peek = .ok token ∧ o.skips token = false

theorem Passes.nil : o.Passes t [] t := ⟨[], .nil, rfl⟩

theorem Passes.append (h : o.Passes t ts t') (h' : o.Passes t' ts' t'') :
    o.Passes t (ts ++ ts') t'' := by
  obtain ⟨tokens, hc, rfl⟩ := h
  obtain ⟨tokens', hc', rfl⟩ := h'
  exact ⟨tokens ++ tokens', hc.append hc', List.filter_append ..⟩

/-- Moving over a token that is not skipped passes the token. -/
theorem Passes.take (h : t.Moves token t') (hs : o.skips token = false) :
    o.Passes t [token] t' :=
  ⟨[token], .single h, by simp [hs]⟩

/-- Moving over a skipped token passes nothing. -/
theorem Passes.skip (h : t.Moves token t') (hs : o.skips token = true) : o.Passes t [] t' :=
  ⟨[token], .single h, by simp [hs]⟩

/-- The sequence begins with the first token from `t` that is not skipped. -/
def Leads (o : Operators V P) (t : Tokenizer) (ts : List Token) : Prop :=
  ∃ t' token rest, o.Passes t [] t' ∧ o.Faces t' token ∧ ts = token :: rest

theorem Faces.leads (h : o.Faces t token) (rest : List Token) : o.Leads t (token :: rest) :=
  ⟨t, token, rest, .nil, h, rfl⟩

/-- In front of a token that is not skipped, sequences begin with it. -/
theorem Leads.of_faces (h : o.Leads t ts) (hf : o.Faces t token) : ∃ rest, ts = token :: rest := by
  obtain ⟨t', token', rest, ⟨tokens, hc, hnone⟩, hf', rfl⟩ := h
  cases hc with
  | nil =>
    cases hf.1.symm.trans hf'.1
    exact ⟨rest, rfl⟩
  | cons hm _ =>
    cases hf.1.symm.trans hm.peeked
    simp [hf.2] at hnone

/-- What is passed begins the sequence, with what comes behind it. -/
theorem Leads.of_passes (hp : o.Passes t ts t') (h : o.Leads t' ts') : o.Leads t (ts ++ ts') := by
  obtain ⟨tokens, hc, rfl⟩ := hp
  induction hc with
  | nil => exact h
  | @cons t t₁ t₂ token tokens hm hc ih =>
    cases hs : o.skips token with
    | true =>
      obtain ⟨t', token', rest, hpass, hf, htokens⟩ := ih h
      exact ⟨t', token', rest, (Passes.skip hm hs).append hpass, hf, by simpa [hs] using htokens⟩
    | false => exact ⟨t, token, _, .nil, ⟨hm.peeked, hs⟩, by simp only [hs, List.filter_cons]; rfl⟩

/-- Stepping over skipped tokens passes nothing, up to a token that is not skipped. -/
theorem skipTo_eq_ok {n : Nat} (h : o.skipTo n c = (.ok token, c')) :
    o.Passes c.tokenizer [] c'.tokenizer ∧ o.Faces c'.tokenizer token := by
  induction n generalizing c with
  | zero => cases h
  | succ n ih =>
    obtain ⟨next, c₁, hp, h₁⟩ := ok_of_bind h
    obtain ⟨hpeek, rfl⟩ := peek_eq_ok hp
    cases hs : o.skips next with
    | true =>
      rw [hs] at h₁
      obtain ⟨_, c₂, hm, h₂⟩ := ok_of_bind h₁
      obtain ⟨tokenizer, hforward, rfl⟩ := commit_eq_ok hm
      obtain ⟨hpass, hface⟩ := ih h₂
      exact ⟨(Passes.skip (Tokenizer.forward_moves hforward) hs).append hpass, hface⟩
    | false =>
      rw [hs] at h₁
      cases h₁
      exact ⟨.nil, hpeek, hs⟩

theorem current_eq_ok (h : o.current c = (.ok token, c')) :
    o.Passes c.tokenizer [] c'.tokenizer ∧ o.Faces c'.tokenizer token := by
  obtain ⟨n, _, hn, h₁⟩ := ok_of_bind h
  cases hn
  exact skipTo_eq_ok h₁

/-- What each step over a skipped token keeps holds at the token that is not skipped. -/
theorem skipTo_keeps {keeps : Context → Prop} {bad : Failure → Context → Prop}
    (hstep : ∀ d skipped tokenizer, keeps d → o.skips skipped = true →
      d.tokenizer.Moves skipped tokenizer → keeps (committed d skipped tokenizer))
    (hbad : ∀ failure d, keeps d → (∀ e, failure ≠ .rejected e) → bad failure d) (n : Nat)
    (hc : keeps c) :
    (o.skipTo n).Ends c (fun token d => keeps d ∧ o.Faces d.tokenizer token) bad := by
  induction n generalizing c with
  | zero => exact .throw (hbad _ c hc nofun)
  | succ n ih =>
    refine .bind (.peeking (fun token hpeek => ?_) fun fault => hbad _ c hc nofun)
    cases hs : o.skips token with
    | true =>
      refine .bind (.committing (fun tokenizer hm => ih ?_) fun fault => hbad _ c hc nofun)
      exact hstep c token tokenizer hc hs hm
    | false => exact .pure ⟨hc, hpeek, hs⟩

theorem current_keeps {keeps : Context → Prop} {ok : Token → Context → Prop}
    {bad : Failure → Context → Prop}
    (hstep : ∀ d skipped tokenizer, keeps d → o.skips skipped = true →
      d.tokenizer.Moves skipped tokenizer → keeps (committed d skipped tokenizer))
    (hbad : ∀ failure d, keeps d → (∀ e, failure ≠ .rejected e) → bad failure d) (hc : keeps c)
    (hok : ∀ token d, keeps d → o.Faces d.tokenizer token → ok token d) :
    o.current.Ends c ok bad :=
  .bind (.unread ((skipTo_keeps hstep hbad _ hc).imp fun token d hd => hok token d hd.1 hd.2))

/-- In front of a token that is not skipped there is nothing to step over. -/
theorem current_of_faces (hf : o.Faces c.tokenizer token) : o.current c = (.ok token, c) := by
  show (peek >>= _) c = _
  rw [bind_of_ok (peek_apply hf.1), hf.2]
  rfl

/-- Committing the token that is faced passes it. -/
theorem passes_of_commit {u : Unit} (hf : o.Faces c.tokenizer token)
    (h : commit token c = (.ok u, c')) : o.Passes c.tokenizer [token] c'.tokenizer := by
  obtain ⟨tokenizer, hforward, rfl⟩ := commit_eq_ok h
  exact .take (Tokenizer.forward_moves hforward) hf.2

/-! ## Tokens that lie ahead -/

theorem kind_of_skips (h : o.skips token = true) : token.kind = .ordinary := by
  simp only [skips, Bool.and_eq_true, decide_eq_true_eq] at h
  exact h.1

theorem ordinary_of_skips (h : o.skips token = true) : token.kind ≠ .endOfInput := by
  rw [kind_of_skips h]
  nofun

/-- The tokens lie ahead of `t`, skipped ones in between, and the last of them is faced at `e`. -/
inductive Ahead (o : Operators V P) : Tokenizer → List Token → Tokenizer → Prop
  | last {t : Tokenizer} {token : Token} (faces : o.Faces t token) : Ahead o t [token] t
  | skip {t t' e : Tokenizer} {token : Token} {ts : List Token} (moves : t.Moves token t')
      (skipped : o.skips token = true) (rest : Ahead o t' ts e) : Ahead o t ts e
  | take {t t' e : Tokenizer} {token : Token} {ts : List Token} (moves : t.Moves token t')
      (kept : o.skips token = false) (rest : Ahead o t' ts e) : Ahead o t (token :: ts) e

/-- What is passed lies ahead, with the token behind it. -/
theorem Ahead.of_passes (h : o.Passes t ts e) (hf : o.Faces e next) :
    o.Ahead t (ts ++ [next]) e := by
  obtain ⟨tokens, hc, rfl⟩ := h
  induction hc with
  | nil => exact .last hf
  | @cons t t₁ t₂ token tokens hm _ ih =>
    cases hs : o.skips token with
    | true => simpa [hs] using Ahead.skip hm hs (ih hf)
    | false => simpa [hs] using Ahead.take hm hs (ih hf)

theorem Ahead.ne_nil (h : o.Ahead t ts e) : ts ≠ [] := by
  induction h with
  | last => nofun
  | skip _ _ _ ih => exact ih
  | take => nofun

/-- Where a token is faced, the last token that lies ahead is that one. -/
theorem Ahead.eq_of_faces (h : o.Ahead t [token] e) (hf : o.Faces t next) : t = e := by
  cases h with
  | last => rfl
  | skip hm hs _ =>
    cases hf.1.symm.trans hm.peeked
    rw [hf.2] at hs
    cases hs
  | take _ _ hrest => exact absurd rfl hrest.ne_nil

/-- Stepping over skipped tokens comes to the next token that lies ahead. -/
theorem Ahead.skipTo {n : Nat} (h : o.Ahead c.tokenizer (token :: ts) e)
    (hn : c.tokenizer.cursor.rest.length < n) :
    ∃ c', o.skipTo n c = (.ok token, c') ∧ o.Faces c'.tokenizer token ∧
      o.Ahead c'.tokenizer (token :: ts) e ∧ Onward c c' := by
  induction n generalizing c with
  | zero => omega
  | succ n ih =>
    have stop (hf : o.Faces c.tokenizer token) : o.skipTo (n + 1) c = (.ok token, c) := by
      show (peek >>= _) c = _
      rw [bind_of_ok (peek_apply hf.1), hf.2]
      rfl
    obtain ⟨tokenizer, journal⟩ := c
    cases h with
    | last hf => exact ⟨_, stop hf, hf, .last hf, .refl _⟩
    | take hm hs hrest =>
      exact ⟨_, stop ⟨hm.peeked, hs⟩, ⟨hm.peeked, hs⟩, .take hm hs hrest, .refl _⟩
    | @skip _ t' _ skipped _ hm hs hrest =>
      have hlt : t'.cursor.rest.length < n :=
        Nat.lt_of_lt_of_le (hm.rest_lt (ordinary_of_skips hs)) (Nat.le_of_lt_succ hn)
      obtain ⟨c', hrun, hf, hahead, honward⟩ :=
        ih (c := committed ⟨tokenizer, journal⟩ skipped t') hrest hlt
      refine ⟨c', ?_, hf, hahead, .trans (.of_moves hm) honward⟩
      show (peek >>= _) _ = _
      rw [bind_of_ok (peek_apply hm.peeked), hs, if_pos rfl, bind_of_ok (commit_apply hm.forward)]
      exact hrun

/-- The next token that lies ahead is the current one. -/
theorem Ahead.current (h : o.Ahead c.tokenizer (token :: ts) e) :
    ∃ c', o.current c = (.ok token, c') ∧ o.Faces c'.tokenizer token ∧
      o.Ahead c'.tokenizer (token :: ts) e ∧ Onward c c' := by
  obtain ⟨c', hrun, hf⟩ := h.skipTo (Nat.lt_succ_self _)
  refine ⟨c', ?_, hf⟩
  show (unread >>= _) c = _
  rw [bind_of_ok (unread_apply c)]
  exact hrun

/-- The token that is faced can be committed, and the others lie ahead. -/
theorem Ahead.commit (h : o.Ahead c.tokenizer (token :: ts) e) (hf : o.Faces c.tokenizer token)
    (hts : ts ≠ []) :
    ∃ c', commit token c = (.ok (), c') ∧ o.Ahead c'.tokenizer ts e ∧
      c.tokenizer.Moves token c'.tokenizer := by
  obtain ⟨tokenizer, journal⟩ := c
  cases h with
  | last => exact absurd rfl hts
  | skip hm hs _ =>
    cases hf.1.symm.trans hm.peeked
    rw [hf.2] at hs
    cases hs
  | @take _ t' _ _ _ hm _ hrest => exact ⟨_, commit_apply hm.forward, hrest, hm⟩

end Operators

end PredictiveParsing
