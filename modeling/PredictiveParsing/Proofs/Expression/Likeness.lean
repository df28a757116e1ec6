import PredictiveParsing.Proofs.Expression.Nesting
import PredictiveParsing.Proofs.Lexing.Lossless

/-!
# Likeness up to places

Tokens are like if they differ in where they stand only, and results, if they differ in the tokens'
places and in the spans only. The actions of a role may ignore places (`Role.IgnoresPlaces`): then
like arguments have like answers.

Two tokenizers are in step with respect to an operator table (`Operators.InStep`) if the tokens that
are left in front of them are like, one by one, once those that the table skips are deleted. Then the
next tokens that are not skipped are like (`Operators.InStep.current`), and behind them the
tokenizers are in step again (`Operators.Facing.commit`).
-/

namespace PredictiveParsing

open ParseM

variable {V P : Type}

/-! ## Tokens, results and answers -/

/-- The tokens are of one kind, one type and one text. -/
structure Token.Like (token token' : Token) : Prop where
  kind : token.kind = token'.kind
  type : token.type = token'.type
  text : token.text = token'.text

/-- The results have the same content, up to the places of tokens and the spans. -/
inductive Result.Like : Result V → Result V → Prop
  | token {t t' : Token} {span span' : Span} (like : t.Like t') :
    Like (.token t span) (.token t' span')
  | list {items items' : List (Result V)} {span span' : Span}
      (like : List.Forall₂ Like items items') : Like (.list items span) (.list items' span')
  | value {v : V} {span span' : Span} : Like (.value v span) (.value v span')

/-- The refusals are the same but for where they point to. -/
inductive Refusal.Like : Refusal → Refusal → Prop
  | rejected {e e' : ParseError} (message : e.message = e'.message) :
    Like (.rejected e) (.rejected e')
  | fault (fault : Fault) : Like (.fault fault) (.fault fault)

/-- The answers are like results or like refusals. -/
inductive Answer.Like : Answer (Result V) → Answer (Result V) → Prop
  | ok {r r' : Result V} (like : r.Like r') : Like (.ok r) (.ok r')
  | refused {refusal refusal' : Refusal} (like : refusal.Like refusal') :
    Like (.error refusal) (.error refusal')

/-- The arguments stand one behind the other. -/
def Result.Ordered (arguments : List (Result V)) : Prop :=
  ∃ low high, Span.InOrder low (arguments.map Result.span) high

/-- To like arguments that stand in order, the actions of the role give like answers. -/
def Role.IgnoresPlaces (role : Role V P) : Prop :=
  ∀ arguments arguments' answer answer', role.Answers arguments answer →
    role.Answers arguments' answer' → Result.Ordered arguments → Result.Ordered arguments' →
      List.Forall₂ Result.Like arguments arguments' → answer.Like answer'

/-- What the actions of the role answer to arguments in order stands for a region that these
cover. -/
def Role.Confined (role : Role V P) : Prop :=
  ∀ arguments r, role.Answers arguments (.ok r) → ∀ low high,
    Span.InOrder low (arguments.map Result.span) high → r.span.Within low high

namespace Operators

/-- The actions of the table ignore places. -/
def IgnoresPlaces (o : Operators V P) : Prop :=
  ∀ type role, o.role? type = some role → role.IgnoresPlaces

/-- The actions of the table answer regions that their arguments cover. -/
def Confined (o : Operators V P) : Prop :=
  ∀ type role, o.role? type = some role → role.Confined

end Operators

theorem Token.Like.is {token token' : Token} (h : token.Like token') (type : TokenType) :
    token.is type = token'.is type := by
  unfold Token.is
  rw [h.kind, h.type]

theorem Token.Like.ofToken {token token' : Token} (h : token.Like token') :
    (Result.ofToken token : Result V).Like (.ofToken token') := .token h

theorem Result.Like.withSpan {r r' : Result V} (h : r.Like r') (span span' : Span) :
    (r.withSpan span).Like (r'.withSpan span') := by
  cases h with
  | token like => exact .token like
  | list like => exact .list like
  | value => exact .value

/-- Of like results, the same value can be demanded, or both are no values. -/
theorem Result.Like.demandValue {r r' : Result V} (h : r.Like r') :
    (∃ v, r.demandValue = .ok v ∧ r'.demandValue = .ok v) ∨
      ∃ e e', r.demandValue = .error (.rejected e) ∧ r'.demandValue = .error (.rejected e') ∧
        e.message = e'.message := by
  cases h with
  | token => exact .inr ⟨_, _, rfl, rfl, rfl⟩
  | list => exact .inr ⟨_, _, rfl, rfl, rfl⟩
  | value => exact .inl ⟨_, rfl, rfl⟩

namespace Operators

variable {o : Operators V P} {token token' : Token}

theorem roleOf?_of_like (h : token.Like token') : o.roleOf? token = o.roleOf? token' := by
  unfold roleOf?
  rw [h.kind, h.type]

end Operators

/-! ## Remaining tokens -/

/-- The last of the tokens stands for the end of the input, and no other does. -/
def Token.EndsInput (tokens : List Token) : Prop :=
  ∃ front last, tokens = front ++ [last] ∧ last.kind = .endOfInput ∧
    ∀ token ∈ front, token.kind ≠ .endOfInput

namespace Tokenizer

variable {t t' : Tokenizer} {tokens front : List Token} {last : Token}

/-- The stream of tokens ends where it has come to the end of the input. -/
theorem tokensFrom_of_commits {n : Nat} (h : t.Commits front t')
    (hfront : ∀ token ∈ front, token.kind ≠ .endOfInput) (hpeek : t'.peek = .ok last)
    (hlast : last.kind = .endOfInput) (hn : t.cursor.rest.length ≤ n) :
    tokensFrom n t = .ok (front ++ [last], t') := by
  induction h generalizing n with
  | @nil t =>
    obtain ⟨t', hforward⟩ := forward_of_peek hpeek
    have hm := forward_moves hforward
    rw [hm.eq_of_atEnd hlast] at hm
    cases n with
    | zero =>
      unfold tokensFrom
      rw [next_eq_ok_iff.2 hm]
      rfl
    | succ n =>
      have hend : last.isEndOfInput = true := by simp [Token.isEndOfInput, hlast]
      unfold tokensFrom
      rw [next_eq_ok_iff.2 hm, ok_bind]
      dsimp only
      rw [hend]
      rfl
  | @cons t t₁ t₂ token tokens hm _ ih =>
    have hk := hfront token (.head _)
    have hlt := hm.rest_lt hk
    obtain ⟨n, rfl⟩ := Nat.exists_eq_add_one.2 (Nat.lt_of_lt_of_le (Nat.zero_lt_of_lt hlt) hn)
    have hrest := ih (fun token h => hfront token (.tail _ h)) hpeek (by omega : _ ≤ n)
    have hend : token.isEndOfInput = false := by simp [Token.isEndOfInput, hk]
    unfold tokensFrom
    rw [next_eq_ok_iff.2 hm, ok_bind]
    dsimp only
    rw [hend, if_neg Bool.false_ne_true, hrest]
    rfl

/-- The stream of tokens commits them up to the end of the input, which it answers last. -/
theorem commits_of_tokensFrom {n : Nat} (h : tokensFrom n t = .ok (tokens, t'))
    (hn : t.cursor.rest.length ≤ n) :
    ∃ front last, tokens = front ++ [last] ∧ t.Commits front t' ∧ t'.peek = .ok last ∧
      last.kind = .endOfInput ∧ ∀ token ∈ front, token.kind ≠ .endOfInput := by
  induction n generalizing t tokens with
  | zero =>
    obtain ⟨⟨token, t₁⟩, hnext, h⟩ := bind_eq_ok h
    have hm := next_eq_ok_iff.1 hnext
    cases h
    have hk : token.kind = .endOfInput := Decidable.byContradiction fun hk => by
      have hlt := hm.rest_lt hk
      omega
    cases hm.eq_of_atEnd hk
    exact ⟨[], token, rfl, .nil, hm.peeked, hk, List.forall_mem_nil _⟩
  | succ n ih =>
    obtain ⟨⟨token, t₁⟩, hnext, h⟩ := bind_eq_ok h
    have hm := next_eq_ok_iff.1 hnext
    dsimp only at h
    cases hend : token.isEndOfInput with
    | true =>
      rw [hend] at h
      cases h
      have hk : token.kind = .endOfInput := by simpa [Token.isEndOfInput] using hend
      cases hm.eq_of_atEnd hk
      exact ⟨[], token, rfl, .nil, hm.peeked, hk, List.forall_mem_nil _⟩
    | false =>
      have hk : token.kind ≠ .endOfInput := by simpa [Token.isEndOfInput] using hend
      have hlt := hm.rest_lt hk
      rw [hend, if_neg Bool.false_ne_true] at h
      obtain ⟨⟨rest, t₂⟩, hrest, h⟩ := bind_eq_ok h
      cases h
      obtain ⟨front, last, rfl, hcommits, hpeek, hlast, hfront⟩ := ih hrest (by omega)
      exact ⟨token :: front, last, rfl, .cons hm hcommits, hpeek, hlast,
        List.forall_mem_cons.2 ⟨hk, hfront⟩⟩

end Tokenizer

namespace Operators

variable {o : Operators V P} {t t' e : Tokenizer} {token token' : Token} {ts ts' : List Token}
  {c c' : Context}

/-- The tokens that are left, without those that the table skips. -/
def remaining (o : Operators V P) (t : Tokenizer) : Except Fault (List Token) := do
  let (tokens, _) ← t.remainingTokens
  return tokens.filter fun token => !o.skips token

/-- The tokens that are left in front of the two tokenizers are like, one by one, up to those that
the table skips. -/
def InStep (o : Operators V P) (t t' : Tokenizer) : Prop :=
  ∃ ts ts', o.remaining t = .ok ts ∧ o.remaining t' = .ok ts' ∧ List.Forall₂ Token.Like ts ts'

instance (token token' : Token) : Decidable (token.Like token') :=
  decidable_of_iff (token.kind = token'.kind ∧ token.type = token'.type ∧ token.text = token'.text)
    ⟨fun h => ⟨h.1, h.2.1, h.2.2⟩, fun h => ⟨h.kind, h.type, h.text⟩⟩

instance (t t' : Tokenizer) : Decidable (o.InStep t t') :=
  match hts : o.remaining t, hts' : o.remaining t' with
  | .ok ts, .ok ts' =>
    decidable_of_iff (List.Forall₂ Token.Like ts ts')
      ⟨fun h => ⟨ts, ts', hts, hts', h⟩, fun ⟨_, _, h, h', hlike⟩ => by
        cases hts.symm.trans h
        cases hts'.symm.trans h'
        exact hlike⟩
  | .error _, _ => .isFalse fun ⟨_, _, h, _, _⟩ => nomatch hts.symm.trans h
  | _, .error _ => .isFalse fun ⟨_, _, _, h', _⟩ => nomatch hts'.symm.trans h'

/-- What lies ahead of a tokenizer has been passed at its end, but for the last token. -/
theorem Ahead.passes (h : o.Ahead t ts e) :
    ∃ front last, ts = front ++ [last] ∧ o.Passes t front e ∧ o.Faces e last := by
  induction h with
  | last faces => exact ⟨[], _, rfl, .nil, faces⟩
  | skip hm hs _ ih =>
    obtain ⟨front, last, rfl, hpass, hface⟩ := ih
    exact ⟨front, last, rfl, (Passes.skip hm hs).append hpass, hface⟩
  | @take _ _ _ token _ hm hs _ ih =>
    obtain ⟨front, last, rfl, hpass, hface⟩ := ih
    exact ⟨token :: front, last, rfl, (Passes.take hm hs).append hpass, hface⟩

/-- The tokens that are left lie ahead, up to the end of the input. -/
theorem remaining_eq_ok_iff :
    o.remaining t = .ok ts ↔ Token.EndsInput ts ∧ ∃ e, o.Ahead t ts e := by
  have skips_false {token : Token} (h : token.kind = .endOfInput) : o.skips token = false :=
    Bool.eq_false_iff.2 fun hs => ordinary_of_skips hs h
  constructor
  · intro h
    obtain ⟨⟨tokens, e⟩, hrun, h⟩ := bind_eq_ok h
    cases h
    obtain ⟨front, last, rfl, hcommits, hpeek, hlast, hfront⟩ :=
      Tokenizer.commits_of_tokensFrom hrun (Nat.le_refl _)
    have hskips := skips_false hlast
    rw [List.filter_append, List.filter_singleton, hskips]
    refine ⟨⟨_, last, rfl, hlast, fun token h => hfront token (List.mem_filter.1 h).1⟩, e, ?_⟩
    exact .of_passes ⟨front, hcommits, rfl⟩ ⟨hpeek, hskips⟩
  · rintro ⟨⟨front, last, rfl, hlast, hfront⟩, e, hahead⟩
    obtain ⟨front', last', heq, ⟨tokens, hcommits, hfilter⟩, hpeek, hskips⟩ := hahead.passes
    obtain ⟨rfl, hlasts⟩ := List.append_inj' heq rfl
    cases hlasts
    have hkinds : ∀ token ∈ tokens, token.kind ≠ .endOfInput := by
      intro token hmem hk
      have hkept : token ∈ tokens.filter fun token => !o.skips token :=
        List.mem_filter.2 ⟨hmem, by rw [skips_false hk]; rfl⟩
      rw [hfilter] at hkept
      exact hfront token hkept hk
    have hrun := Tokenizer.tokensFrom_of_commits hcommits hkinds hpeek hlast (Nat.le_refl _)
    unfold remaining Tokenizer.remainingTokens
    rw [hrun, ok_bind]
    dsimp only
    rw [List.filter_append, hfilter, List.filter_singleton, hskips]
    rfl

/-- In front of a token that is not skipped, it is the first of those that are left. -/
theorem remaining_of_faces (h : o.remaining t = .ok ts) (hf : o.Faces t token)
    (hk : token.kind ≠ .endOfInput) :
    ∃ t' rest, ts = token :: rest ∧ t.Moves token t' ∧ o.remaining t' = .ok rest := by
  obtain ⟨⟨front, last, hsplit, hlast, hfront⟩, e, hahead⟩ := remaining_eq_ok_iff.1 h
  cases hahead with
  | last hf' =>
    cases hf.1.symm.trans hf'.1
    have heq : token = last := by
      cases front with
      | nil => exact (List.cons.inj hsplit).1
      | cons _ front => simp at hsplit
    exact absurd (heq ▸ hlast) hk
  | skip hm hs _ =>
    cases hf.1.symm.trans hm.peeked
    rw [hf.2] at hs
    cases hs
  | @take _ t' _ token' rest hm _ hrest =>
    cases hf.1.symm.trans hm.peeked
    cases front with
    | nil => exact absurd (List.cons.inj hsplit).2 hrest.ne_nil
    | cons _ front =>
      have htail : rest = front ++ [last] := (List.cons.inj hsplit).2
      exact ⟨t', rest, rfl, hm, remaining_eq_ok_iff.2
        ⟨⟨front, last, htail, hlast, fun token h => hfront token (.tail _ h)⟩, e, hrest⟩⟩

/-- The two tokenizers are in step, in front of like tokens that are not skipped. -/
structure Facing (o : Operators V P) (token : Token) (t : Tokenizer) (token' : Token)
    (t' : Tokenizer) : Prop where
  like : token.Like token'
  left : o.Faces t token
  right : o.Faces t' token'
  rest : o.InStep t t'

/-- From tokenizers in step, the next tokens that are not skipped are like. -/
theorem InStep.current (h : o.InStep c.tokenizer c'.tokenizer) :
    ∃ token d token' d', o.current c = (.ok token, d) ∧ o.current c' = (.ok token', d') ∧
      o.Facing token d.tokenizer token' d'.tokenizer ∧ Onward c d ∧ Onward c' d' := by
  obtain ⟨ts, ts', hts, hts', hlike⟩ := h
  obtain ⟨hends, e, hahead⟩ := remaining_eq_ok_iff.1 hts
  obtain ⟨hends', e', hahead'⟩ := remaining_eq_ok_iff.1 hts'
  cases hlike with
  | nil => exact absurd rfl hahead.ne_nil
  | cons htoken hrest =>
    obtain ⟨d, hrun, hface, hahead, ho⟩ := hahead.current
    obtain ⟨d', hrun', hface', hahead', ho'⟩ := hahead'.current
    exact ⟨_, d, _, d', hrun, hrun', ⟨htoken, hface, hface', _, _,
      remaining_eq_ok_iff.2 ⟨hends, e, hahead⟩, remaining_eq_ok_iff.2 ⟨hends', e', hahead'⟩,
      .cons htoken hrest⟩, ho, ho'⟩

/-- From `c` and `c'` on, like tokens have been committed. Behind them the tokenizers are in step. -/
structure Taking (o : Operators V P) (token : Token) (c d : Context) (token' : Token)
    (c' d' : Context) : Prop where
  like : token.Like token'
  left : commit token c = (.ok (), d)
  right : commit token' c' = (.ok (), d')
  moves : c.tokenizer.Moves token d.tokenizer
  moves' : c'.tokenizer.Moves token' d'.tokenizer
  less : d.tokenizer.cursor.rest.length < c.tokenizer.cursor.rest.length
  less' : d'.tokenizer.cursor.rest.length < c'.tokenizer.cursor.rest.length
  rest : o.InStep d.tokenizer d'.tokenizer

/-- Like tokens that are faced can be taken. -/
theorem Facing.commit (h : o.Facing token c.tokenizer token' c'.tokenizer)
    (hk : token.kind = .ordinary) : ∃ d d', o.Taking token c d token' c' d' := by
  obtain ⟨ts, ts', hts, hts', hlike⟩ := h.rest
  have hend : token.kind ≠ .endOfInput := by simp [hk]
  have hend' : token'.kind ≠ .endOfInput := by simp [← h.like.kind, hk]
  obtain ⟨t, rest, rfl, hm, hrest⟩ := remaining_of_faces hts h.left hend
  obtain ⟨t', rest', rfl, hm', hrest'⟩ := remaining_of_faces hts' h.right hend'
  cases hlike with
  | cons _ hlike =>
    exact ⟨_, _, h.like, commit_apply hm.forward, commit_apply hm'.forward, hm, hm',
      hm.rest_lt hend, hm'.rest_lt hend', rest, rest', hrest, hrest', hlike⟩

end Operators

end PredictiveParsing
