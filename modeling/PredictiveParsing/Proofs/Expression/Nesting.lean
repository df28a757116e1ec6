import PredictiveParsing.Proofs.Nesting

/-!
# Results of expressions nest

What an action is given and what it answers is stated once for all roles (`Role.Answers`). A role
nests if its actions answer one of their arguments, or a value for a region that the arguments cover
(`Role.Nests`). The operands of an operator and the operator itself follow each other, so that a
list of them, an argument, and such a value all nest between where the first operand began and where
the last one ended; by that an expression nests if its roles and its embedded parsers do
(`Operators.nests_expression`).
-/

namespace PredictiveParsing

open ParseM

variable {V P : Type}

/-! ## Actions -/

/-- An action of the role gives the answer to the arguments. -/
inductive Role.Answers : Role V P → List (Result V) → Answer (Result V) → Prop
  | atom (f : AtomAction V) (token : Token) :
    Answers (.atom (some f)) [.ofToken token] (f token)
  | prefixOp (priority : Nat) (f : PrefixAction V) (op : Token) (operand : Result V) :
    Answers (.prefixOp priority (some f)) [.ofToken op, operand] (f op operand)
  | infixOp (priority : Nat) (associativity : Associativity) (f : InfixAction V)
      (left : Result V) (op : Token) (right : Result V) :
    Answers (.infixOp priority associativity (some f)) [left, .ofToken op, right] (f left op right)
  | mixfixPrefix (p i : Nat) (a : Associativity) (onInfix : Option (InfixAction V))
      (f : PrefixAction V) (op : Token) (operand : Result V) :
    Answers (.mixfix p i a (some f) onInfix) [.ofToken op, operand] (f op operand)
  | mixfixInfix (p i : Nat) (a : Associativity) (onPrefix : Option (PrefixAction V))
      (f : InfixAction V) (left : Result V) (op : Token) (right : Result V) :
    Answers (.mixfix p i a onPrefix (some f)) [left, .ofToken op, right] (f left op right)

/-- If the action succeeds, it answers one of its arguments, or a value for a region of the input
that lies within what the arguments cover. -/
def Answer.Nests (input : Text) (arguments : List (Result V)) (answer : Answer (Result V)) : Prop :=
  ∀ r, answer = .ok r → r ∈ arguments ∨
    ∃ value span, r = .value value span ∧ span.Of input ∧
      ∀ cover, coverAll .start arguments = .ok cover → cover.contains span = true

/-- Given arguments that nest, one behind the other, the actions of the role answer what nests. -/
def Role.Nests (input : Text) (role : Role V P) : Prop :=
  ∀ arguments answer, role.Answers arguments answer →
    (∃ low high, Result.InTurn input low arguments high) → answer.Nests input arguments

/-- Given arguments that nest, one behind the other, an action of the role is at fault. -/
def Role.Raises (input : Text) (role : Role V P) (fault : Fault) : Prop :=
  ∃ arguments, role.Answers arguments (.error (.fault fault)) ∧
    ∃ low high, Result.InTurn input low arguments high

theorem Role.Answers.ne_nil {role : Role V P} {arguments : List (Result V)}
    {answer : Answer (Result V)} (h : role.Answers arguments answer) : arguments ≠ [] := by
  cases h <;> nofun

section

variable {input : Text} {raised : Fault → Prop} {c d : Context} {token : Token}
  {role : Role V P} {arguments : List (Result V)} {start : Position} {high : Nat}

/-- What an action answers nests where its arguments do. -/
theorem Role.Nests.result {r : Result V} (hrole : role.Nests input)
    (hanswers : role.Answers arguments (.ok r))
    (hturn : Result.InTurn input start.offset arguments high) :
    r.span.Within start.offset high ∧ r.Nested input := by
  rcases hrole _ _ hanswers ⟨_, _, hturn⟩ r rfl with hmem | ⟨v, span, rfl, hspan, hcover⟩
  · exact ⟨hturn.order.within (List.mem_map_of_mem hmem), hturn.nested r hmem⟩
  · refine ⟨?_, .value hspan⟩
    -- there are arguments, so that what they cover does not depend on where they start
    obtain ⟨first, rest, rfl⟩ := List.exists_cons_of_ne_nil hanswers.ne_nil
    obtain ⟨hcovered, hwithin⟩ := hturn.coverAll
    have hcontains := hcover _ hcovered
    simp only [Span.contains, Bool.and_eq_true, decide_eq_true_eq] at hcontains
    exact ⟨Nat.le_trans hwithin.low hcontains.1, hspan.forward,
      Nat.le_trans hcontains.2 hwithin.high⟩

namespace Operators

/-! ## Results of operators -/

/-- The result of an operator and its operands: what the action answers, or else their list. -/
def outcome (start : Position) (answer : Option (Answer (Result V)))
    (arguments : List (Result V)) : ParseM (Result V) :=
  match answer with
  | some a => perform a
  | none => do
    let span ← trust (coverAll start arguments)
    return .list arguments span

theorem prefixResult_eq (start : Position) (action : Option (PrefixAction V)) (op : Token)
    (operand : Result V) :
    prefixResult action op operand =
      outcome start (action.map fun f => f op operand) [.ofToken op, operand] := by
  cases action <;> rfl

theorem infixResult_eq (start : Position) (action : Option (InfixAction V)) (left : Result V)
    (op : Token) (right : Result V) :
    infixResult action left op right =
      outcome start (action.map fun f => f left op right) [left, .ofToken op, right] := by
  cases action <;> rfl

/-- An action of a role that nests answers what nests, and is at no other fault than `raised`. -/
theorem perform_nests {answer : Answer (Result V)} {ok : Result V → Context → Prop}
    (hrole : role.Nests input) (hraised : ∀ fault, role.Raises input fault → raised fault)
    (hanswers : role.Answers arguments answer)
    (hturn : Result.InTurn input start.offset arguments high)
    (hok : ∀ r, r.span.Within start.offset high → r.Nested input → ok r c) :
    (perform answer).Ends c ok fun e _ => e.Forward raised := by
  refine .perform (fun r hr => ?_) (fun e _ => .rejected e) fun fault hf => ?_
  · subst hr
    obtain ⟨hwithin, hr⟩ := hrole.result hanswers hturn
    exact hok r hwithin hr
  · subst hf
    rintro _ _ ⟨⟩
    exact hraised _ ⟨arguments, hanswers, _, _, hturn⟩

/-- An operator with its operands nests if they are in order. -/
theorem outcome_nests {answer : Option (Answer (Result V))} {ok : Result V → Context → Prop}
    (hrole : role.Nests input) (hraised : ∀ fault, role.Raises input fault → raised fault)
    (hanswers : ∀ a, answer = some a → role.Answers arguments a) (hstart : start.Of input)
    (hturn : Result.InTurn input start.offset arguments high)
    (hok : ∀ r, r.span.Within start.offset high → r.Nested input → ok r c) :
    (outcome start answer arguments).Ends c ok fun e _ => e.Forward raised := by
  cases answer with
  | none =>
    obtain ⟨hcover, hwithin⟩ := hturn.coverAll
    exact .bind (.trust hcover (.pure (hok _ hwithin (hturn.list hstart (.refl arguments)))))
  | some a => exact perform_nests hrole hraised (hanswers a rfl) hturn hok

/-! ## Skipped tokens -/

variable {o : Operators V P}

/-- Stepping over skipped tokens stays in the input, and reverses no span. -/
theorem skipTo_nests (n : Nat) (hc : c.InPlace input) :
    (o.skipTo n : ParseM Token).Ends c
      (fun token d => d.InPlace input ∧
        c.tokenizer.position.offset ≤ d.tokenizer.position.offset ∧ o.Faces d.tokenizer token)
      fun e _ => e.Forward raised := by
  induction n generalizing c with
  | zero => exact .throw .exhausted
  | succ n ih =>
    obtain ⟨token, hpeek⟩ := Tokenizer.peek_of_placed hc.placed
    refine .bind (.peek hpeek ?_)
    cases hs : o.skips token with
    | true =>
      refine .bind (hc.commit hpeek fun d hd hm => ?_)
      refine (ih hd).imp fun next e he => ?_
      exact ⟨he.1, Nat.le_trans (Onward.of_moves hm).offset he.2.1, he.2.2⟩
    | false => exact .pure ⟨hc, Nat.le_refl _, hpeek, hs⟩

/-- Whatever comes next, up to it a run stays in the input. -/
theorem current_nests {ok : Token → Context → Prop} (hc : c.InPlace input)
    (hok : ∀ token d, d.InPlace input →
      c.tokenizer.position.offset ≤ d.tokenizer.position.offset → o.Faces d.tokenizer token →
      ok token d) :
    o.current.Ends c ok fun e _ => e.Forward raised :=
  .bind (.unread ((skipTo_nests _ hc).imp fun token d hd => hok token d hd.1 hd.2.1 hd.2.2))

/-! ## Operands and climbs -/

/-- The action of an operator behind its left operand is one of its role. -/
theorem answers_of_infixRole? {priority : Nat} {associativity : Associativity}
    {action : Option (InfixAction V)}
    (h : role.infixRole? = some (priority, associativity, action)) (left : Result V) (op : Token)
    (right : Result V) {answer : Answer (Result V)}
    (hanswer : (action.map fun f => f left op right) = some answer) :
    role.Answers [left, .ofToken op, right] answer := by
  obtain ⟨f, rfl, rfl⟩ := Option.map_eq_some_iff.1 hanswer
  cases role with
  | atom | prefixOp | bracket | embed => cases h
  | infixOp => cases h; exact .infixOp _ _ f left op right
  | mixfix => cases h; exact .mixfixInfix _ _ _ _ f left op right

/-- The roles of the table and its embedded parsers nest, and its actions are at no other fault than
`raised`. -/
structure Nests (input : Text) (raised : Fault → Prop) (o : Operators V P)
    (embedded : P → ParseM (Result V)) : Prop where
  roles : ∀ type role, o.role? type = some role → role.Nests input
  faults : ∀ type role fault, o.role? type = some role → role.Raises input fault → raised fault
  advances : ∀ p, (embedded p).Advances
  embedded : ∀ type parser, o.role? type = some (.embed parser) →
    (embedded parser).Nests input raised

variable {embedded : P → ParseM (Result V)} {inner : Nat → ParseM (Result V)}

/-- An operand nests if every expression inside of it does. -/
theorem operand_nests (ho : o.Nests input raised embedded)
    (hinner : ∀ minimum, (inner minimum).Nests input raised) (hc : c.InPlace input)
    (hf : o.Faces c.tokenizer token) :
    (o.operand embedded inner token).Ends c
      (fun r d => d.InPlace input ∧
        r.span.Within c.tokenizer.position.offset d.tokenizer.position.offset ∧ r.Nested input)
      fun e _ => e.Forward raised := by
  unfold operand
  cases hrole : o.roleOf? token with
  | none => exact .unexpected fun _ => .rejected _
  | some role =>
    obtain ⟨-, hrole⟩ := role?_of_roleOf? hrole
    have hnests := ho.roles _ _ hrole
    have hraised (fault : Fault) : role.Raises input fault → raised fault :=
      ho.faults _ _ fault hrole
    have htoken : (Result.ofToken token : Result V).Nested input := hc.nested hf.1
    have prefixed {priority : Nat} {action : Option (PrefixAction V)}
        (hanswers : ∀ operand a, (action.map fun f => f token operand) = some a →
          role.Answers [.ofToken token, operand] a) :
        (do
          commit token
          note (.prefixOp token priority)
          let result ← inner priority
          prefixResult action token result).Ends c
          (fun r d => d.InPlace input ∧
            r.span.Within c.tokenizer.position.offset d.tokenizer.position.offset ∧
            r.Nested input)
          fun e _ => e.Forward raised := by
      refine .bind (hc.commit hf.1 fun d hd hm => .bind (.note (.bind ?_)))
      have hd' : (noted d (.prefixOp token priority)).InPlace input := ⟨hd.placed, hd.input⟩
      refine (hinner priority).andThen hd' fun operand e _ he hwithin hoperand => ?_
      rw [prefixResult_eq c.tokenizer.position]
      have hturn : Result.InTurn input c.tokenizer.position.offset [.ofToken token, operand]
          e.tokenizer.position.offset :=
        .cons htoken hm.within (.single hoperand hwithin)
      exact outcome_nests hnests hraised (hanswers operand) hc.position hturn
        fun r hr hr' => ⟨he, hr, hr'⟩
    cases role with
    | infixOp => exact .unexpected fun _ => .rejected _
    | atom action =>
      refine .bind (hc.commit hf.1 fun d hd hm => .bind (.note ?_))
      have hd' : (noted d (.atom token)).InPlace input := ⟨hd.placed, hd.input⟩
      cases action with
      | none => exact .pure ⟨hd', hm.within, htoken⟩
      | some f =>
        exact perform_nests hnests hraised (.atom f token) (.single htoken hm.within)
          fun r hr hr' => ⟨hd', hr, hr'⟩
    | prefixOp priority action =>
      refine prefixed fun operand a ha => ?_
      obtain ⟨f, rfl, rfl⟩ := Option.map_eq_some_iff.1 ha
      exact .prefixOp priority f token operand
    | mixfix p i associativity action onInfix =>
      refine prefixed fun operand a ha => ?_
      obtain ⟨f, rfl, rfl⟩ := Option.map_eq_some_iff.1 ha
      exact .mixfixPrefix p i associativity onInfix f token operand
    | embed parser =>
      refine .bind (.note ?_)
      have hc' : (noted c (.embedded token)).InPlace input := ⟨hc.placed, hc.input⟩
      exact (ho.embedded _ _ hrole).andThen hc' fun r d _ hd hwithin hr => ⟨hd, hwithin, hr⟩
    | bracket opening closing =>
      refine .bind (hc.commit hf.1 fun d hd hm => .bind ?_)
      refine (hinner 0).andThen hd fun r e _ he hwithin hr => .bind ?_
      refine current_nests he fun last e' he' hle hlast => ?_
      cases last.is closing with
      | false => exact .unexpected fun _ => .rejected _
      | true =>
        refine .bind (he'.commit hlast.1 fun d' hd' hm' => ?_)
        have hlast' : (Result.ofToken last : Result V).Nested input := he'.nested hlast.1
        obtain ⟨span, hcover, hspan, hbracketed⟩ := hr.bracketed hm.within
          (hwithin.mono (Nat.le_refl _) hle) hm'.within htoken.region hlast'.region
        exact .bind (.trust hcover (.pure ⟨hd', by rwa [Result.withSpan_span], hbracketed⟩))

/-- A climb nests behind a left operand if every expression inside of it does. -/
theorem climb_nests (ho : o.Nests input raised embedded)
    (hinner : ∀ minimum, (inner minimum).Nests input raised) {minimum n : Nat} {left : Result V}
    (hstart : start.Of input) (hc : c.InPlace input)
    (hleft : left.span.Within start.offset c.tokenizer.position.offset)
    (hnested : left.Nested input) :
    (o.climb inner minimum n left).Ends c
      (fun r d => r.span.Within start.offset d.tokenizer.position.offset ∧ r.Nested input)
      fun e _ => e.Forward raised := by
  induction n generalizing c left with
  | zero => exact .throw .exhausted
  | succ n ih =>
    refine .bind (current_nests hc fun token d hd hle hf => ?_)
    have hwithin := hleft.mono (Nat.le_refl _) hle
    cases hinfix : (o.roleOf? token).bind Role.infixRole? with
    | none => exact .pure ⟨hwithin, hnested⟩
    | some operator =>
      obtain ⟨priority, associativity, action⟩ := operator
      obtain ⟨role, hrole, hinfix⟩ := Option.bind_eq_some_iff.1 hinfix
      obtain ⟨-, hrole⟩ := role?_of_roleOf? hrole
      dsimp only
      by_cases hweak : priority < minimum
      · rw [if_pos hweak]
        exact .pure ⟨hwithin, hnested⟩
      · rw [if_neg hweak]
        refine .bind (hd.commit hf.1 fun e he hm => .bind (.note (.bind ?_)))
        have he' : (noted e (.infixOp token priority)).InPlace input := ⟨he.placed, he.input⟩
        refine (hinner _).andThen he' fun right e₁ _ he₁ hright hright' => .bind ?_
        rw [infixResult_eq start]
        have hturn : Result.InTurn input start.offset [left, .ofToken token, right]
            e₁.tokenizer.position.offset :=
          .cons hnested hwithin (.cons (hd.nested hf.1) hm.within (.single hright' hright))
        exact outcome_nests (ho.roles _ _ hrole) (fun fault => ho.faults _ _ fault hrole)
          (fun _ => answers_of_infixRole? hinfix left token right) hstart hturn
          fun r hr hr' => ih he₁ hr hr'

/-- An expression nests, however deep it may be. -/
theorem nests_above (ho : o.Nests input raised embedded) (depth minimum : Nat) :
    (o.above embedded depth minimum).Nests input raised := by
  refine ⟨above_advances ho.advances depth minimum, ?_⟩
  induction depth generalizing minimum with
  | zero => exact fun c _ => .throw .exhausted
  | succ depth ih =>
    intro c hc
    have hinner (m : Nat) : (o.above embedded depth m).Nests input raised :=
      ⟨above_advances ho.advances depth m, ih m⟩
    refine .bind (current_nests hc fun token d hd hle hf => .bind ?_)
    refine (operand_nests ho hinner hd hf).imp fun left e he => ?_
    obtain ⟨he, hwithin, hnested⟩ := he
    exact .bind (.unread (climb_nests ho hinner hc.position he
      (hwithin.mono hle (Nat.le_refl _)) hnested))

/-- An expression nests if the roles of its table and the parsers embedded in it do. -/
theorem nests_expression (ho : o.Nests input raised embedded) :
    (o.expression embedded).Nests input raised :=
  ⟨expression_advances ho.advances, fun c hc => .bind (.unread ((nests_above ho _ 0).ends c hc))⟩

end Operators

end

end PredictiveParsing
