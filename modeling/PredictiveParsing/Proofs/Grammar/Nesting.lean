import PredictiveParsing.Proofs.Expression.Nesting

/-!
# The spans of results

Whatever the grammar and wherever in its input a parser begins, its result stands for a region
between there and where it ends, and it nests, if the actions of operator tables answer what nests
(`Parser.runWithin_nests`). What a sequence or a repetition stands for is the region from the first
of its parts to the last, so that no two spans that are covered are ever in the wrong order
(`Parser.run_spansNest`).
-/

namespace PredictiveParsing

open ParseM

variable {V : Type}

/-- Given arguments that nest in the input, an action below `p` is at fault. -/
inductive Grammar.Raises (g : Grammar V) (p : Parser V) (input : Text) (fault : Fault) : Prop
  | sequence {members : List (Member (Parser V))} {action : TupleAction V}
      {elements : List (Result V)} {span : Span}
      (reaches : g.Reaches p (.tuple members (some action)))
      (nested : (Result.list elements span).Nested input)
      (raises : action elements span = .error (.fault fault))
  | table {o : Operators V (Parser V)} {type : TokenType} {role : Role V (Parser V)}
      (reaches : g.Reaches p (.expr o)) (registered : o.role? type = some role)
      (raises : role.Raises input fault)

/-- The actions of the operator tables below `p` answer what nests in the input. -/
def Grammar.ActionsNest (g : Grammar V) (p : Parser V) (input : Text) : Prop :=
  ∀ o, g.Reaches p (.expr o) → ∀ type role, o.role? type = some role → role.Nests input

section

variable {g : Grammar V} {p q : Parser V} {input : Text}

/-- A reference is resolved to a rule, or it is at fault without reversing a span. -/
theorem Grammar.resolve_ends {name : String} {c : Context} {ok : Parser V → Context → Prop}
    {raised : Fault → Prop} (hok : ∀ r, g.rule? name = some r → ok r c) :
    (trust (g.resolve name)).Ends c ok fun e _ => e.Forward raised := by
  unfold resolve
  split
  · next r hr => exact .pure (hok r hr)
  · exact .throw nofun

/-- A combinator below `p` nests if what is below `p` does. -/
theorem Parser.top_nests {run : Parser V → ParseM (Result V)} (hactions : g.ActionsNest p input)
    (hadvances : ∀ q, (run q).Advances)
    (hrun : ∀ q, g.Reaches p q → (run q).Nests input (g.Raises p input)) (hq : g.Reaches p q) :
    (q.top g run).Nests input (g.Raises p input) := by
  cases q with
  | token type => exact nests_expectToken type
  | endOfInput => exact nests_expectEnd
  | tuple members action =>
    refine nests_sequence hadvances (fun m hm => hrun _ (hq.child (.member hm))) ?_
    rintro f rfl elements span fault hnested hf
    exact .sequence hq hnested hf
  | choice slot alternatives =>
    exact nests_choice hadvances fun r hr => hrun r (hq.child (.alternative hr))
  | many body minimum => exact nests_repetition (hrun body (hq.child .repeated)) minimum
  | embed body => exact hrun body (hq.child .embedded)
  | expr o =>
    refine Operators.nests_expression ⟨hactions o hq, fun type role fault hrole hfault => ?_,
      hadvances, fun type r hr => ?_⟩
    · exact .table hq hrole hfault
    · exact hrun r (hq.child (.role (Operators.mem_of_role? hr)))
  | ref name =>
    refine ⟨.bind (.trust _) fun r => hadvances r, fun c hc => ?_⟩
    exact .bind (Grammar.resolve_ends fun r hr => (hrun r (hq.rule hr)).ends c hc)

/-- Every parser below `p` nests, at every depth. -/
theorem Parser.runWithin_nests (hactions : g.ActionsNest p input) (depth : Nat)
    (hq : g.Reaches p q) : (q.runWithin g depth).Nests input (g.Raises p input) := by
  induction depth generalizing q with
  | zero => exact ⟨runWithin_advances g 0 q, fun c _ => .throw .exhausted⟩
  | succ depth ih =>
    rw [runWithin_succ]
    exact top_nests hactions (runWithin_advances g depth) (fun _ => ih) hq

/-! ## Regions of sequences and repetitions -/

variable {c d : Context} {depth : Nat} {r : Result V}

/-- A sequence stands for the region of all its members. -/
theorem Parser.tuple_region {members : List (Member (Parser V))} {action : Option (TupleAction V)}
    (hactions : g.ActionsNest (.tuple members action) input) (hc : c.InPlace input)
    (h : (tuple members action).runWithin g depth c = (.ok r, d)) :
    ∃ results, Chain c (members.map fun m => m.parser.runWithin g (depth - 1)) results d ∧
      r.span = Result.region c.tokenizer.position results := by
  cases depth with
  | zero => cases h
  | succ depth =>
    have hmembers : ∀ m ∈ members,
        (m.parser.runWithin g depth).Nests input (g.Raises (.tuple members action) input) :=
      fun m hm => runWithin_nests hactions depth (Grammar.Reaches.refl.child (.member hm))
    have hraised : ∀ f, action = some f → ∀ elements span fault,
        (Result.list elements span).Nested input → f elements span = .error (.fault fault) →
        g.Raises (.tuple members action) input fault := by
      rintro f rfl elements span fault hnested hf
      exact .sequence .refl hnested hf
    exact ((sequence_nests hmembers hraised hc).result h).2.2

/-- A repetition stands for the region of all its rounds. -/
theorem Parser.many_region {body : Parser V} {minimum : Nat}
    (hactions : g.ActionsNest (.many body minimum) input) (hc : c.InPlace input)
    (h : (many body minimum).runWithin g depth c = (.ok r, d)) :
    ∃ items e, r = .list items (Result.region c.tokenizer.position items) ∧
      Chain c (List.replicate items.length (body.runWithin g (depth - 1))) items e ∧
      e.tokenizer = d.tokenizer := by
  cases depth with
  | zero => cases h
  | succ depth =>
    have hbody : (body.runWithin g depth).Nests input (g.Raises (.many body minimum) input) :=
      runWithin_nests hactions depth (Grammar.Reaches.refl.child .repeated)
    exact ((repetition_nests hbody minimum hc).result h).2.2

/-- What is known of the spans of a run of `p` that begins in `c`. -/
structure Parser.SpansNest (g : Grammar V) (p : Parser V) (c : Context) (depth : Nat) : Prop where
  /-- The result stands for a region of the input that the run has passed over, and it nests. -/
  result : ∀ r d, p.runWithin g depth c = (.ok r, d) →
    r.span.Within c.tokenizer.position.offset d.tokenizer.position.offset ∧
      r.Nested c.tokenizer.cursor.input
  /-- A sequence stands for the region of all its members, whichever of them are its elements. -/
  sequence : ∀ members action, p = .tuple members action →
    ∀ r d, p.runWithin g depth c = (.ok r, d) →
      ∃ results, Chain c (members.map fun m => m.parser.runWithin g (depth - 1)) results d ∧
        r.span = Result.region c.tokenizer.position results
  /-- A repetition stands for the region of all its rounds, behind which the cursor is left. -/
  repetition : ∀ body minimum, p = .many body minimum →
    ∀ r d, p.runWithin g depth c = (.ok r, d) →
      ∃ items e, r = .list items (Result.region c.tokenizer.position items) ∧
        Chain c (List.replicate items.length (body.runWithin g (depth - 1))) items e ∧
        e.tokenizer = d.tokenizer
  /-- No span is reversed, unless an action raises that by itself. -/
  forward : ∀ start stop d,
    p.runWithin g depth c = (.error (.fault (.reversedSpan start stop)), d) →
      g.Raises p c.tokenizer.cursor.input (.reversedSpan start stop)

/-- Whatever the grammar, and wherever in its input the cursor is (`Tokenizer.placed_afterAll`), the
spans of a run nest at every depth, and so at the one that is chosen for running the parser. -/
theorem Parser.run_spansNest (g : Grammar V) (p : Parser V) {c : Context}
    (hplaced : c.tokenizer.cursor.Placed)
    (hactions : g.ActionsNest p c.tokenizer.cursor.input) :
    (∀ depth, p.SpansNest g c depth) ∧ ∃ depth, p.run g c = p.runWithin g depth c := by
  have hc : c.InPlace c.tokenizer.cursor.input := ⟨hplaced, rfl⟩
  refine ⟨fun depth => ⟨fun r d h => ?_, ?_, ?_, fun start stop d h => ?_⟩, _, rfl⟩
  · exact ((runWithin_nests hactions depth .refl).ends c hc).result h
  · rintro members action rfl r d h
    exact tuple_region hactions hc h
  · rintro body minimum rfl r d h
    exact many_region hactions hc h
  · exact ((runWithin_nests hactions depth .refl).ends c hc).failure h start stop rfl

end

/-! ## Sums -/

/-- Sums and differences of names, whose actions answer operands and values for what operands
cover. -/
def Operators.sums : Operators Unit (Parser Unit) :=
  ⟨[("n", .atom (some fun token => .ok (.ofToken token))),
    ("-", .mixfix 2 1 .left (some fun _ operand => .ok operand)
      (some fun left _ right => .ok (.value () ⟨left.span.start, right.span.stop⟩))),
    ("(", .bracket "(" ")")], [" "]⟩

theorem Operators.sums_nests (input : Text) (type : TokenType) (role : Role Unit (Parser Unit))
    (h : sums.role? type = some role) : role.Nests input := by
  have hmem := mem_of_role? h
  simp only [sums, List.mem_cons, Prod.mk.injEq, List.not_mem_nil, or_false] at hmem
  intro arguments answer hanswers hturn r hr
  rcases hmem with ⟨-, rfl⟩ | ⟨-, rfl⟩ | ⟨-, rfl⟩
  · cases hanswers
    cases hr
    exact .inl (.head _)
  · cases hanswers with
    | mixfixPrefix =>
      cases hr
      exact .inl (.tail _ (.head _))
    | mixfixInfix _ _ _ _ _ left op right =>
      cases hr
      obtain ⟨low, high, ⟨hleft, hop, hright, -⟩, hnested⟩ := hturn
      have hforward := Nat.le_trans hleft.forward (Nat.le_trans hop.low (Nat.le_trans hop.forward
        (Nat.le_trans hright.low hright.forward)))
      have hstart := (hnested left (.head _)).region.start
      have hstop := (hnested right (.tail _ (.tail _ (.head _)))).region.stop
      refine .inr ⟨(), _, rfl, ⟨hstart, hstop, hforward⟩, fun cover hcover => ?_⟩
      rw [(Result.coverAll_eq_ok.1 hcover).2]
      simp [Span.contains, Result.region, Result.cover?]
  · cases hanswers

/-- A sum up to the end of the input. -/
def Parser.sum : Parser Unit := .tuple [.element (.expr .sums), .skip .endOfInput] none

theorem Parser.sum_actionsNest (input : Text) : Grammar.empty.ActionsNest sum input := by
  intro o h
  have hmem : expr o ∈ [sum, expr .sums, endOfInput] := h.mem_parts
  simp only [sum, List.mem_cons, List.not_mem_nil, or_false, reduceCtorEq, false_or,
    expr.injEq] at hmem
  subst hmem
  exact Operators.sums_nests input

/-- A negated difference in brackets, taken from a name, nests in the line it is read from. -/
theorem Parser.sum_run_spansNest :
    (∃ r d, sum.run .empty
      ⟨(Operators.arithmeticTokens []).withInput "n - -(n - n)".toList, .forgetful⟩ = (.ok r, d)) ∧
      (∀ depth, sum.SpansNest .empty
        ⟨(Operators.arithmeticTokens []).withInput "n - -(n - n)".toList, .forgetful⟩ depth) ∧
      ∃ depth, sum.run .empty
          ⟨(Operators.arithmeticTokens []).withInput "n - -(n - n)".toList, .forgetful⟩ =
        sum.runWithin .empty depth
          ⟨(Operators.arithmeticTokens []).withInput "n - -(n - n)".toList, .forgetful⟩ := by
  refine ⟨succeeds_iff.1 (by decide +kernel), ?_⟩
  exact Parser.run_spansNest .empty sum (.ofInput (by decide +kernel)) (sum_actionsNest _)

end PredictiveParsing
