import PredictiveParsing.Proofs.Expression.Evaluating
import PredictiveParsing.Proofs.Expression.Likeness

/-!
# Skipped tokens are transparent

Where two tokenizers are in step, an expression is read alike from both, however many skipped tokens
stand in between (`Operators.expressionAbove_alike`). Both runs succeed with like results, or both
fail in front of like tokens or in the same action, and the tokenizers are in step again. The runs
have different depths and rounds, since these are counted from the unread texts, so that each is
measured by what it has left to read itself.

The actions have to answer regions that their arguments cover (`Operators.Confined`). Actions that
ignore places may otherwise answer results whose spans are anywhere, and the spans of two such
results need not have a cover: one run is at fault for this alone while the other one goes on
(`Operators.misplacedName_not_alike`).
-/

namespace PredictiveParsing

open ParseM

variable {V P α β : Type}

/-! ## Two runs -/

/-- How two runs end together: with results for which `ok` holds, or with failures for which `bad`
holds. -/
inductive ParseM.Together (ok : α → Context → α → Context → Prop)
    (bad : Failure → Context → Failure → Context → Prop) :
    Except Failure α × Context → Except Failure α × Context → Prop
  | ok {a a' : α} {d d' : Context} (h : ok a d a' d') : Together ok bad (.ok a, d) (.ok a', d')
  | failed {e e' : Failure} {d d' : Context} (h : bad e d e' d') :
    Together ok bad (.error e, d) (.error e', d')

namespace ParseM.Together

variable {bad : Failure → Context → Failure → Context → Prop} {x x' : ParseM α} {c c' : Context}

/-- Two runs in two parts end together if their first parts do, and their second parts from the
results of these. -/
theorem bind {f f' : α → ParseM β} {ok : β → Context → β → Context → Prop}
    (h : Together (fun a d a' d' => Together ok bad (f a d) (f' a' d')) bad (x c) (x' c')) :
    Together ok bad ((x >>= f) c) ((x' >>= f') c') := by
  rw [bind_apply, bind_apply]
  generalize x c = ending, x' c' = ending' at h
  cases h with
  | ok h => exact h
  | failed h => exact .failed h

/-- Less can be claimed of the results. -/
theorem imp {ok ok' : α → Context → α → Context → Prop}
    {ending ending' : Except Failure α × Context} (h : Together ok bad ending ending')
    (hok : ∀ a d a' d', ok a d a' d' → ok' a d a' d') : Together ok' bad ending ending' := by
  cases h with
  | ok h => exact .ok (hok _ _ _ _ h)
  | failed h => exact .failed h

end ParseM.Together

/-- The error of a token where something else was expected. -/
def Token.mismatch (expected : String) (token : Token) : ParseError :=
  ⟨"expected " ++ expected ++ " but found " ++ token.describe, token.span⟩

namespace Operators

/-- The two runs have failed alike where the tokenizers are: in front of like tokens with which no
operand begins, or that do not close a bracket, or in the same action, which has been given like
arguments and has refused them alike. -/
inductive FailsAlike (o : Operators V P) : Failure → Tokenizer → Failure → Tokenizer → Prop
  | operand {t t' : Tokenizer} {token token' : Token} (facing : o.Facing token t token' t')
      (missing : ∀ role, o.roleOf? token = some role → role.startsOperand = false) :
    FailsAlike o (.rejected (token.mismatch "an expression")) t
      (.rejected (token'.mismatch "an expression")) t'
  | closing {t t' : Tokenizer} {opening opening' token token' : Token} {type closing : TokenType}
      (openings : opening.Like opening') (role : o.roleOf? opening = some (.bracket type closing))
      (facing : o.Facing token t token' t') (missing : token.is closing = false) :
    FailsAlike o
      (.rejected (token.mismatch
        (closing ++ " to balance the bracket at " ++ toString opening.span.start))) t
      (.rejected (token'.mismatch
        (closing ++ " to balance the bracket at " ++ toString opening'.span.start))) t'
  | action {t t' : Tokenizer} {type : TokenType} {role : Role V P}
      {arguments arguments' : List (Result V)} {refusal refusal' : Refusal}
      (registered : o.role? type = some role)
      (answers : role.Answers arguments (.error refusal))
      (answers' : role.Answers arguments' (.error refusal'))
      (like : List.Forall₂ Result.Like arguments arguments') (refusals : refusal.Like refusal')
      (rest : o.InStep t t') :
    FailsAlike o refusal.toFailure t refusal'.toFailure t'

/-- Behind runs that fail alike, the tokenizers are in step. -/
theorem FailsAlike.inStep {o : Operators V P} {e e' : Failure} {t t' : Tokenizer}
    (h : o.FailsAlike e t e' t') : o.InStep t t' := by
  cases h with
  | operand facing => exact facing.rest
  | closing _ _ facing => exact facing.rest
  | action _ _ _ _ _ rest => exact rest

/-- From `c` and `c'` on, like results have been read, which stand for regions behind `start` and
`start'`, and the tokenizers are in step. -/
structure ReadsAlike (o : Operators V P) (start start' : Position) (c c' : Context) (r : Result V)
    (d : Context) (r' : Result V) (d' : Context) : Prop where
  like : r.Like r'
  rest : o.InStep d.tokenizer d'.tokenizer
  left : Onward c d
  right : Onward c' d'
  region : r.span.Within start.offset d.tokenizer.position.offset
  region' : r'.span.Within start'.offset d'.tokenizer.position.offset

/-- Two runs from `c` and `c'` read alike, or fail alike. -/
abbrev EndsAlike (o : Operators V P) (start start' : Position) (c c' : Context) :
    Except Failure (Result V) × Context → Except Failure (Result V) × Context → Prop :=
  Together (o.ReadsAlike start start' c c')
    fun e d e' d' => o.FailsAlike e d.tokenizer e' d'.tokenizer

section

variable {o : Operators V P} {start start' start₀ start₀' : Position} {c c' d d' : Context}
  {token token' : Token} {high high' : Nat} {arguments arguments' : List (Result V)}
  {role : Role V P} {ok : Result V → Context → Result V → Context → Prop}
  {ending ending' : Except Failure (Result V) × Context}

/-- What is read from further on is read from further back. -/
theorem EndsAlike.behind (h : o.EndsAlike start start' d d' ending ending') (ho : Onward c d)
    (ho' : Onward c' d') (hstart : start₀.offset ≤ start.offset)
    (hstart' : start₀'.offset ≤ start'.offset) :
    o.EndsAlike start₀ start₀' c c' ending ending' :=
  h.imp fun _ _ _ _ h => ⟨h.like, h.rest, ho.trans h.left, ho'.trans h.right,
    h.region.mono hstart (Nat.le_refl _), h.region'.mono hstart' (Nat.le_refl _)⟩

/-! ## Actions -/

/-- An action that ignores places and is confined answers alike to like arguments in order, or
refuses them alike. -/
theorem perform_together {type : TokenType} {answer answer' : Answer (Result V)}
    (hignores : o.IgnoresPlaces) (hconfined : o.Confined) (hrole : o.role? type = some role)
    (ha : role.Answers arguments answer) (ha' : role.Answers arguments' answer')
    (hlike : List.Forall₂ Result.Like arguments arguments')
    (hrest : o.InStep c.tokenizer c'.tokenizer)
    (horder : Span.InOrder start.offset (arguments.map Result.span) high)
    (horder' : Span.InOrder start'.offset (arguments'.map Result.span) high')
    (hok : ∀ r r', r.Like r' → r.span.Within start.offset high →
      r'.span.Within start'.offset high' → ok r c r' c') :
    Together ok (fun e d e' d' => o.FailsAlike e d.tokenizer e' d'.tokenizer)
      (perform answer c) (perform answer' c') := by
  cases hignores type role hrole _ _ _ _ ha ha' ⟨_, _, horder⟩ ⟨_, _, horder'⟩ hlike with
  | ok hr =>
    have hwithin := hconfined type role hrole
    exact .ok (hok _ _ hr (hwithin _ _ ha _ _ horder) (hwithin _ _ ha' _ _ horder'))
  | refused hrefusal =>
    cases hrefusal with
    | rejected hmessage => exact .failed (.action hrole ha ha' hlike (.rejected hmessage) hrest)
    | fault fault => exact .failed (.action hrole ha ha' hlike (.fault fault) hrest)

/-- An operator and its operands make like results of like arguments in order. -/
theorem outcome_together {type : TokenType} {answer answer' : Option (Answer (Result V))}
    (hignores : o.IgnoresPlaces) (hconfined : o.Confined) (hrole : o.role? type = some role)
    (hboth : answer.isSome = answer'.isSome)
    (ha : ∀ a, answer = some a → role.Answers arguments a)
    (ha' : ∀ a, answer' = some a → role.Answers arguments' a)
    (hlike : List.Forall₂ Result.Like arguments arguments')
    (hrest : o.InStep c.tokenizer c'.tokenizer)
    (horder : Span.InOrder start.offset (arguments.map Result.span) high)
    (horder' : Span.InOrder start'.offset (arguments'.map Result.span) high')
    (hok : ∀ r r', r.Like r' → r.span.Within start.offset high →
      r'.span.Within start'.offset high' → ok r c r' c') :
    Together ok (fun e d e' d' => o.FailsAlike e d.tokenizer e' d'.tokenizer)
      (outcome start answer arguments c) (outcome start' answer' arguments' c') := by
  cases answer with
  | some a =>
    obtain ⟨a', rfl⟩ := Option.isSome_iff_exists.1 (hboth.symm.trans rfl)
    exact perform_together hignores hconfined hrole (ha a rfl) (ha' a' rfl) hlike hrest horder
      horder' hok
  | none =>
    obtain rfl : answer' = none := by simpa using hboth.symm
    obtain ⟨span, hcover, hwithin⟩ := coverAll_of_inOrder horder
    obtain ⟨span', hcover', hwithin'⟩ := coverAll_of_inOrder horder'
    unfold outcome
    rw [hcover, hcover']
    exact .ok (hok _ _ (.list hlike) hwithin hwithin')

/-! ## Operands and climbs -/

variable {inner inner' : Nat → ParseM (Result V)}

/-- The expressions inside of an operand end alike, if less is left to read than in `c` and `c'`. -/
def InnerAlike (o : Operators V P) (c c' : Context) (inner inner' : Nat → ParseM (Result V)) :
    Prop :=
  ∀ minimum d d', o.InStep d.tokenizer d'.tokenizer →
    d.tokenizer.cursor.rest.length < c.tokenizer.cursor.rest.length →
    d'.tokenizer.cursor.rest.length < c'.tokenizer.cursor.rest.length →
    o.EndsAlike d.tokenizer.position d'.tokenizer.position d d' (inner minimum d)
      (inner' minimum d')

theorem InnerAlike.behind (h : o.InnerAlike c c' inner inner') (ho : Onward c d)
    (ho' : Onward c' d') : o.InnerAlike d d' inner inner' :=
  fun minimum e e' hrest hlt hlt' => h minimum e e' hrest (Nat.lt_of_lt_of_le hlt ho.unread)
    (Nat.lt_of_lt_of_le hlt' ho'.unread)

/-- Operands of one token are read alike. -/
theorem atom_alike {type : TokenType} {action : Option (AtomAction V)}
    (hignores : o.IgnoresPlaces) (hconfined : o.Confined)
    (hrole : o.role? type = some (.atom action)) (h : o.Taking token c d token' c' d') :
    o.EndsAlike c.tokenizer.position c'.tokenizer.position c c'
      ((do
        commit token
        note (.atom token)
        atomResult action token) c)
      ((do
        commit token'
        note (.atom token')
        atomResult action token') c') := by
  rw [bind_of_ok h.left, bind_of_ok h.right, bind_of_ok (note_apply _ _),
    bind_of_ok (note_apply _ _)]
  have ho : Onward c (noted d (.atom token)) := (Onward.of_moves h.moves).note _
  have ho' : Onward c' (noted d' (.atom token')) := (Onward.of_moves h.moves').note _
  cases action with
  | none =>
    exact .ok ⟨h.like.ofToken, h.rest, ho, ho', h.moves.within, h.moves'.within⟩
  | some f =>
    refine perform_together hignores hconfined hrole (.atom f token) (.atom f token')
      (.cons h.like.ofToken .nil) h.rest (.single h.moves.within) (.single h.moves'.within)
      fun r r' hlike hregion hregion' => ?_
    exact ⟨hlike, h.rest, ho, ho', hregion, hregion'⟩

/-- Prefix operators with their operands are read alike if the operands are. -/
theorem prefixed_alike {type : TokenType} {priority : Nat} {action : Option (PrefixAction V)}
    (hignores : o.IgnoresPlaces) (hconfined : o.Confined) (hrole : o.role? type = some role)
    (hanswers : ∀ f op operand, action = some f →
      role.Answers [.ofToken op, operand] (f op operand))
    (hinner : o.InnerAlike c c' inner inner') (h : o.Taking token c d token' c' d') :
    o.EndsAlike c.tokenizer.position c'.tokenizer.position c c'
      ((do
        commit token
        note (.prefixOp token priority)
        let result ← inner priority
        prefixResult action token result) c)
      ((do
        commit token'
        note (.prefixOp token' priority)
        let result ← inner' priority
        prefixResult action token' result) c') := by
  rw [bind_of_ok h.left, bind_of_ok h.right, bind_of_ok (note_apply _ _),
    bind_of_ok (note_apply _ _)]
  have hanswers' : ∀ op operand a, (action.map fun f => f op operand) = some a →
      role.Answers [.ofToken op, operand] a := by
    intro op operand a ha
    obtain ⟨f, rfl, rfl⟩ := Option.map_eq_some_iff.1 ha
    exact hanswers f op operand rfl
  have hoperand := hinner priority (noted d (.prefixOp token priority))
    (noted d' (.prefixOp token' priority)) h.rest h.less h.less'
  refine .bind (hoperand.imp fun r e r' e' hr => ?_)
  rw [prefixResult_eq c.tokenizer.position, prefixResult_eq c'.tokenizer.position]
  refine outcome_together hignores hconfined hrole (by cases action <;> rfl) (hanswers' token r)
    (hanswers' token' r') (.cons h.like.ofToken (.cons hr.like .nil)) hr.rest
    (.cons h.moves.within (.single hr.region)) (.cons h.moves'.within (.single hr.region'))
    fun result result' hlike hregion hregion' => ?_
  exact ⟨hlike, hr.rest, ((Onward.of_moves h.moves).note _).trans hr.left,
    ((Onward.of_moves h.moves').note _).trans hr.right, hregion, hregion'⟩

/-- Brackets are read alike if the expressions inside of them are. -/
theorem bracketed_alike {type closing : TokenType}
    (hrole : o.roleOf? token = some (.bracket type closing))
    (hinner : o.InnerAlike c c' inner inner') (h : o.Taking token c d token' c' d') :
    o.EndsAlike c.tokenizer.position c'.tokenizer.position c c'
      ((do
        commit token
        let result ← inner 0
        let last ← o.current
        if last.is closing then
          commit last
          let span ← trust (Span.cover token.span last.span)
          return result.withSpan span
        else
          unexpected (closing ++ " to balance the bracket at " ++ toString token.span.start) last)
        c)
      ((do
        commit token'
        let result ← inner' 0
        let last ← o.current
        if last.is closing then
          commit last
          let span ← trust (Span.cover token'.span last.span)
          return result.withSpan span
        else
          unexpected (closing ++ " to balance the bracket at " ++ toString token'.span.start) last)
        c') := by
  have hmoved : Onward c d := .of_moves h.moves
  have hmoved' : Onward c' d' := .of_moves h.moves'
  rw [bind_of_ok h.left, bind_of_ok h.right]
  refine .bind ((hinner 0 d d' h.rest h.less h.less').imp fun r e r' e' hr => ?_)
  obtain ⟨last, e₁, last', e₁', hcurrent, hcurrent', hlast, ho₁, ho₁'⟩ := hr.rest.current
  rw [bind_of_ok hcurrent, bind_of_ok hcurrent', ← hlast.like.is closing]
  cases hcloses : last.is closing with
  | false => exact .failed (.closing h.like hrole hlast hcloses)
  | true =>
    rw [if_pos rfl, if_pos rfl]
    obtain ⟨e₂, e₂', hclose⟩ := hlast.commit (Token.kind_of_is hcloses)
    -- the brackets stand behind one another, whatever the actions in between have answered
    obtain ⟨hcover, hwithin⟩ := h.moves.within.cover hclose.moves.within (hr.left.trans ho₁).offset
    obtain ⟨hcover', hwithin'⟩ :=
      h.moves'.within.cover hclose.moves'.within (hr.right.trans ho₁').offset
    rw [bind_of_ok hclose.left, bind_of_ok hclose.right, bind_of_ok (trust_apply hcover _),
      bind_of_ok (trust_apply hcover' _)]
    refine .ok ⟨hr.like.withSpan _ _, hclose.rest, ?_, ?_, ?_, ?_⟩
    · exact hmoved.trans (hr.left.trans (ho₁.trans (.of_moves hclose.moves)))
    · exact hmoved'.trans (hr.right.trans (ho₁'.trans (.of_moves hclose.moves')))
    · rwa [Result.withSpan_span]
    · rwa [Result.withSpan_span]

/-- Operands that begin with like tokens are read alike if the expressions inside of them are. -/
theorem operand_alike (ho : o.Closed) (hignores : o.IgnoresPlaces) (hconfined : o.Confined)
    (embedded : P → ParseM (Result V)) (hinner : o.InnerAlike c c' inner inner')
    (hf : o.Facing token c.tokenizer token' c'.tokenizer) :
    o.EndsAlike c.tokenizer.position c'.tokenizer.position c c'
      (o.operand embedded inner token c) (o.operand embedded inner' token' c') := by
  unfold operand
  rw [← roleOf?_of_like hf.like]
  cases hrole : o.roleOf? token with
  | none => exact .failed (.operand hf fun role h => nomatch hrole.symm.trans h)
  | some role =>
    obtain ⟨hk, hregistered⟩ := role?_of_roleOf? hrole
    obtain ⟨d, d', htaking⟩ := hf.commit hk
    cases role with
    | atom => exact atom_alike hignores hconfined hregistered htaking
    | prefixOp priority =>
      refine prefixed_alike hignores hconfined hregistered ?_ hinner htaking
      rintro f op operand rfl
      exact .prefixOp priority f op operand
    | mixfix p i associativity _ onInfix =>
      refine prefixed_alike hignores hconfined hregistered ?_ hinner htaking
      rintro f op operand rfl
      exact .mixfixPrefix p i associativity onInfix f op operand
    | bracket => exact bracketed_alike hrole hinner htaking
    | embed parser => exact absurd hregistered (ho token.type parser)
    | infixOp =>
      refine .failed (.operand hf fun role h => ?_)
      cases hrole.symm.trans h
      rfl

/-- Behind like operands, the same operators are taken, and what they make is alike. -/
theorem climb_alike (hignores : o.IgnoresPlaces) (hconfined : o.Confined) {minimum n n' : Nat}
    {left left' : Result V} (hinner : o.InnerAlike c c' inner inner')
    (hn : c.tokenizer.cursor.rest.length < n) (hn' : c'.tokenizer.cursor.rest.length < n')
    (hrest : o.InStep c.tokenizer c'.tokenizer) (hleft : left.Like left')
    (hregion : left.span.Within start.offset c.tokenizer.position.offset)
    (hregion' : left'.span.Within start'.offset c'.tokenizer.position.offset) :
    o.EndsAlike start start' c c' (o.climb inner minimum n left c)
      (o.climb inner' minimum n' left' c') := by
  induction n generalizing n' c c' left left' with
  | zero => omega
  | succ n ih =>
    obtain ⟨n', rfl⟩ := Nat.exists_eq_add_one.2 (Nat.zero_lt_of_lt hn')
    obtain ⟨token, d, token', d', hcurrent, hcurrent', hf, hmoved, hmoved'⟩ := hrest.current
    unfold climb
    rw [bind_of_ok hcurrent, bind_of_ok hcurrent', ← roleOf?_of_like hf.like]
    have hbefore := hregion.mono (Nat.le_refl _) hmoved.offset
    have hbefore' := hregion'.mono (Nat.le_refl _) hmoved'.offset
    have hstop : o.EndsAlike start start' c c' (.ok left, d) (.ok left', d') :=
      .ok ⟨hleft, hf.rest, hmoved, hmoved', hbefore, hbefore'⟩
    cases hinfix : (o.roleOf? token).bind Role.infixRole? with
    | none => exact hstop
    | some operator =>
      obtain ⟨priority, associativity, action⟩ := operator
      obtain ⟨role, hrole, hinfix⟩ := Option.bind_eq_some_iff.1 hinfix
      obtain ⟨hk, hrole⟩ := role?_of_roleOf? hrole
      dsimp only
      by_cases hweak : priority < minimum
      · rw [if_pos hweak, if_pos hweak]
        exact hstop
      · rw [if_neg hweak, if_neg hweak]
        obtain ⟨e, e', ht⟩ := hf.commit hk
        have hlt := Nat.lt_of_lt_of_le ht.less hmoved.unread
        have hlt' := Nat.lt_of_lt_of_le ht.less' hmoved'.unread
        rw [bind_of_ok ht.left, bind_of_ok ht.right, bind_of_ok (note_apply _ _),
          bind_of_ok (note_apply _ _)]
        have hright := hinner (associativity.rightMinimum priority)
          (noted e (.infixOp token priority)) (noted e' (.infixOp token' priority)) ht.rest hlt hlt'
        refine .bind (hright.imp fun right e₁ right' e₁' h => .bind ?_)
        have ho₁ : Onward c e₁ := hmoved.trans (((Onward.of_moves ht.moves).note _).trans h.left)
        have ho₁' : Onward c' e₁' :=
          hmoved'.trans (((Onward.of_moves ht.moves').note _).trans h.right)
        have hless := h.left.unread
        have hless' := h.right.unread
        rw [infixResult_eq start, infixResult_eq start']
        refine outcome_together hignores hconfined hrole (by cases action <;> rfl)
          (fun _ => answers_of_infixRole? hinfix left token right)
          (fun _ => answers_of_infixRole? hinfix left' token' right')
          (.cons hleft (.cons hf.like.ofToken (.cons h.like .nil))) h.rest
          (.cons hbefore (.cons ht.moves.within (.single h.region)))
          (.cons hbefore' (.cons ht.moves'.within (.single h.region')))
          fun r r' hlike hregion hregion' => ?_
        -- the operator has been taken in both runs, so less is left for those that follow
        refine EndsAlike.behind (ih (hinner.behind ho₁ ho₁') ?_ ?_ h.rest hlike hregion hregion')
          ho₁ ho₁' (Nat.le_refl _) (Nat.le_refl _)
        · exact Nat.lt_of_lt_of_le (Nat.lt_of_le_of_lt hless hlt) (Nat.le_of_lt_succ hn)
        · exact Nat.lt_of_lt_of_le (Nat.lt_of_le_of_lt hless' hlt') (Nat.le_of_lt_succ hn')

/-- Expressions are read alike, at depths that are enough for what is left to read. -/
theorem above_alike (ho : o.Closed) (hignores : o.IgnoresPlaces) (hconfined : o.Confined)
    (embedded : P → ParseM (Result V)) (minimum : Nat) {n n' : Nat}
    (hn : c.tokenizer.cursor.rest.length < n) (hn' : c'.tokenizer.cursor.rest.length < n')
    (hrest : o.InStep c.tokenizer c'.tokenizer) :
    o.EndsAlike c.tokenizer.position c'.tokenizer.position c c' (o.above embedded n minimum c)
      (o.above embedded n' minimum c') := by
  induction n generalizing minimum n' c c' with
  | zero => omega
  | succ n ih =>
    obtain ⟨n', rfl⟩ := Nat.exists_eq_add_one.2 (Nat.zero_lt_of_lt hn')
    have hinner : o.InnerAlike c c' (o.above embedded n) (o.above embedded n') :=
      fun m d d' hrest hlt hlt' => ih m (by omega) (by omega) hrest
    obtain ⟨token, d, token', d', hcurrent, hcurrent', hf, hmoved, hmoved'⟩ := hrest.current
    unfold above
    rw [bind_of_ok hcurrent, bind_of_ok hcurrent']
    have hoperand := operand_alike ho hignores hconfined embedded (hinner.behind hmoved hmoved') hf
    refine .bind (hoperand.imp fun left e left' e' h => ?_)
    have ho₁ := hmoved.trans h.left
    have ho₁' := hmoved'.trans h.right
    rw [bind_of_ok (unread_apply e), bind_of_ok (unread_apply e')]
    refine EndsAlike.behind (climb_alike hignores hconfined (hinner.behind ho₁ ho₁')
      (Nat.lt_succ_self _) (Nat.lt_succ_self _) h.rest h.like h.region h.region') ho₁ ho₁'
      hmoved.offset hmoved'.offset

/-- Skipped tokens are transparent. If the actions of a table ignore places and answer regions that
their arguments cover, then expressions are read from tokenizers in step with like results, or both
runs fail in front of like tokens or in the same action, and the tokenizers are in step behind. -/
theorem expressionAbove_alike (ho : o.Closed) (hignores : o.IgnoresPlaces)
    (hconfined : o.Confined) (h : o.InStep c.tokenizer c'.tokenizer)
    (embedded : P → ParseM (Result V)) (minimum : Nat) :
    (∃ r d r' d', o.expressionAbove embedded minimum c = (.ok r, d) ∧
      o.expressionAbove embedded minimum c' = (.ok r', d') ∧ r.Like r' ∧
      o.InStep d.tokenizer d'.tokenizer) ∨
    ∃ e d e' d', o.expressionAbove embedded minimum c = (.error e, d) ∧
      o.expressionAbove embedded minimum c' = (.error e', d') ∧
      o.FailsAlike e d.tokenizer e' d'.tokenizer ∧ o.InStep d.tokenizer d'.tokenizer := by
  unfold expressionAbove
  rw [bind_of_ok (unread_apply c), bind_of_ok (unread_apply c')]
  have hends := above_alike ho hignores hconfined embedded minimum (Nat.lt_succ_self _)
    (Nat.lt_succ_self _) h
  generalize o.above embedded (c.tokenizer.cursor.rest.length + 1) minimum c = ending,
    o.above embedded (c'.tokenizer.cursor.rest.length + 1) minimum c' = ending' at hends ⊢
  cases hends with
  | ok h => exact .inl ⟨_, _, _, _, rfl, rfl, h.like, h.rest⟩
  | failed h => exact .inr ⟨_, _, _, _, rfl, rfl, h, h.inStep⟩

end

theorem subtraction_ignoresPlaces : subtraction.IgnoresPlaces := by
  intro type role hrole arguments arguments' answer answer' ha ha' _ _ hlike
  have hmem := mem_of_role? hrole
  simp only [subtraction, List.mem_cons, Prod.mk.injEq, List.not_mem_nil, or_false] at hmem
  rcases hmem with ⟨-, rfl⟩ | ⟨-, rfl⟩ | ⟨-, rfl⟩
  · cases ha
    cases ha'
    exact .ok .value
  · cases ha
    cases ha'
    cases hlike with | cons hleft hlike =>
    cases hlike with | cons _ hlike =>
    cases hlike with | cons hright _ =>
    dsimp only
    rcases hleft.demandValue with ⟨v, hv, hv'⟩ | ⟨e, e', he, he', hmessage⟩
    · rcases hright.demandValue with ⟨w, hw, hw'⟩ | ⟨e, e', he, he', hmessage⟩
      · rw [hv, hv', hw, hw']
        by_cases hless : v < w
        · simp only [ok_bind, if_pos hless]
          exact .refused (.rejected rfl)
        · simp only [ok_bind, if_neg hless]
          exact .ok .value
      · rw [hv, hv', he, he']
        exact .refused (.rejected hmessage)
    · rw [he, he']
      exact .refused (.rejected hmessage)
  · cases ha

theorem subtraction_confined : subtraction.Confined := by
  intro type role hrole arguments r ha low high horder
  have hmem := mem_of_role? hrole
  simp only [subtraction, List.mem_cons, Prod.mk.injEq, List.not_mem_nil, or_false] at hmem
  rcases hmem with ⟨-, rfl⟩ | ⟨-, rfl⟩ | ⟨-, rfl⟩
  · cases ha
    exact horder.within (.head _)
  · generalize hanswer : Except.ok r = answer at ha
    cases ha with | infixOp _ _ _ left op right =>
    obtain ⟨v, -, hanswer⟩ := bind_eq_ok hanswer.symm
    obtain ⟨w, -, hanswer⟩ := bind_eq_ok hanswer
    split at hanswer
    · cases hanswer
    · cases hanswer
      exact horder.cover.2
  · cases ha

/-- Blanks between tokens change neither a difference nor how it is refused. -/
theorem subtraction_expressionAbove_alike :
    (∃ r d r' d', subtraction.expressionAbove Empty.elim 0 (arithmeticStart "n-(n)".toList) =
        (.ok r, d) ∧
      subtraction.expressionAbove Empty.elim 0 (arithmeticStart " n - ( n ) ".toList) =
        (.ok r', d') ∧ r.Like r' ∧ subtraction.InStep d.tokenizer d'.tokenizer) ∧
    ∃ e d e' d', subtraction.expressionAbove Empty.elim 0 (arithmeticStart "n-n-(n)".toList) =
        (.error e, d) ∧
      subtraction.expressionAbove Empty.elim 0 (arithmeticStart " n - n -( n ) ".toList) =
        (.error e', d') ∧ subtraction.FailsAlike e d.tokenizer e' d'.tokenizer ∧
      subtraction.InStep d.tokenizer d'.tokenizer := by
  constructor
  · obtain ⟨r, d, h⟩ := succeeds_iff.1 (by decide +kernel :
      succeeds (subtraction.expressionAbove Empty.elim 0) (arithmeticStart "n-(n)".toList) = true)
    rcases expressionAbove_alike subtraction_closed subtraction_ignoresPlaces subtraction_confined
      (by decide +kernel : subtraction.InStep (arithmeticStart "n-(n)".toList).tokenizer
        (arithmeticStart " n - ( n ) ".toList).tokenizer) Empty.elim 0 with
      hread | ⟨e, _, _, _, hfailed, -⟩
    · exact hread
    · cases h.symm.trans hfailed
  · obtain ⟨d, h⟩ := failure?_eq_some.1 (by decide +kernel :
      failure? (subtraction.expressionAbove Empty.elim 0) (arithmeticStart "n-n-(n)".toList) =
        some (.rejected ⟨"negative", ⟨1, 4, 3⟩, ⟨1, 5, 4⟩⟩))
    rcases expressionAbove_alike subtraction_closed subtraction_ignoresPlaces subtraction_confined
      (by decide +kernel : subtraction.InStep (arithmeticStart "n-n-(n)".toList).tokenizer
        (arithmeticStart " n - n -( n ) ".toList).tokenizer) Empty.elim 0 with
      ⟨r, _, _, _, hread, -⟩ | hfailed
    · cases h.symm.trans hread
    · exact hfailed

/-- Differences of names and stars. The action of a name places its value at a fixed region. -/
def misplacedName : Operators Unit Empty :=
  ⟨[("n", .atom (some fun _ => .ok (.value () ⟨⟨1, 9, 8⟩, ⟨1, 10, 9⟩⟩))), ("*", .atom none),
    ("-", .infixOp 1 .left none)], [" "]⟩

theorem misplacedName_ignoresPlaces : misplacedName.IgnoresPlaces := by
  intro type role hrole arguments arguments' answer answer' ha ha' _ _ _
  have hmem := mem_of_role? hrole
  simp only [misplacedName, List.mem_cons, Prod.mk.injEq, List.not_mem_nil, or_false] at hmem
  rcases hmem with ⟨-, rfl⟩ | ⟨-, rfl⟩ | ⟨-, rfl⟩
  · cases ha
    cases ha'
    exact .ok .value
  · cases ha
  · cases ha

/-- A difference cannot be covered where the star stands in front of the region at which the name is
placed, but it can where blanks push the star behind it. -/
theorem misplacedName_not_alike :
    misplacedName.Closed ∧ misplacedName.IgnoresPlaces ∧
      misplacedName.InStep (arithmeticStart "n-*".toList).tokenizer
        (arithmeticStart "n -       *".toList).tokenizer ∧
      failure? (misplacedName.expressionAbove Empty.elim 0) (arithmeticStart "n-*".toList) =
        some (.fault (.reversedSpan ⟨1, 9, 8⟩ ⟨1, 4, 3⟩)) ∧
      succeeds (misplacedName.expressionAbove Empty.elim 0)
        (arithmeticStart "n -       *".toList) = true := by
  refine ⟨fun _ parser _ => parser.elim, misplacedName_ignoresPlaces, ?_, ?_, ?_⟩
  · decide +kernel
  · decide +kernel
  · decide +kernel

end Operators

end PredictiveParsing
