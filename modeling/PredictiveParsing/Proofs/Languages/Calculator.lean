import PredictiveParsing.Proofs.Expression.Settling
import PredictiveParsing.Proofs.Languages.Arithmetic

/-!
# What the calculator computes

The tokens of a rendering with sufficient parentheses are those of a grouped tree, so the entry of
the grammar ends as the evaluation of this tree does (`entry_ends`). Therefore the calculator
answers the value of the expression that is written, and it rejects a text where a divisor is zero
(`evaluate_rendering`).
-/

namespace PredictiveParsing.Calculator

open ParseM Stage

/-- The parser that `grammar` starts from. -/
def entry : Parser Float :=
  .tuple [.element (.ref "expr"), .skip (.ref "spaces"), .skip .endOfInput] (some wholeValue)

/-- Expressions run over an input in which there are blanks. -/
def stage (input : Text) : Stage Float := ⟨grammar, entry, input, operators⟩

variable {input : Text} {depth : Nat} {r : Rendering} {gap : List Blank}

/-! ## Rules -/

theorem operators_closed : operators.Closed := by
  intro type parser h
  have hmem := Operators.mem_of_role? h
  simp [operators] at hmem

theorem operators_closingsEnd : operators.ClosingsEnd := by
  intro type opening closing role h hrole
  have hmem := Operators.mem_of_role? h
  simp only [operators, List.mem_cons, Prod.mk.injEq, reduceCtorEq, and_false, false_or,
    Role.bracket.injEq, List.not_mem_nil, or_false] at hmem
  obtain ⟨-, -, rfl⟩ := hmem
  cases hrole

theorem reaches_blanks : grammar.Reaches entry (.choice 0 [.token "space", .token "newline"]) :=
  .child (.rule (.child .refl (.member (m := .skip (.ref "spaces")) (.tail _ (.head _)))) rfl)
    .repeated

theorem spaces_clears :
    (stage input).Clears ((Parser.ref "spaces").runWithin grammar (depth + 4)) :=
  clears_ref (q := .many (.choice 0 [.token "space", .token "newline"]) 0) rfl
    (Skims.clears (skims_choice reaches_blanks fun _ => rfl))

/-! ## Whole inputs -/

/-- In front of the tokens of a rendering with sufficient parentheses the entry ends with what is
computed, or it rejects a division by zero. -/
theorem entry_ends {c : Context} {last : Token} (h : r.Sufficient)
    (hawaits : (stage input).Awaits c ((r.tree []).tokens ++ [last]))
    (hlast : last.isEndOfInput = true) :
    (entry.run grammar).Ends c
      (fun result _ => ∃ x span, r.outcome [] = .ok x ∧ result = .value x span)
      fun f _ => ∃ e, f = .rejected e ∧ ∃ region, r.outcome [] = .error region ∧
        e = ⟨"Division by zero", region⟩ := by
  -- blanks nest five parsers: the entry, their rule, the repetition, the choice and the token
  have hsize : 5 + 0 + 0 ≤ entry.size + grammar.size + 1 := by decide
  obtain ⟨depth, hdepth, -⟩ : ∃ depth,
      entry.depthFor grammar c.tokenizer.cursor.rest.length = depth + 5 ∧ _ :=
    hawaits.exists_depth hsize
  have hend : operators.bindingOf? last = none := by
    refine Option.eq_none_iff_forall_ne_some.2 fun ⟨p, a⟩ h => ?_
    simp [Token.isEndOfInput, Operators.kind_of_bindingOf? h] at hlast
  refine .bind (.unread ?_)
  rw [hdepth]
  refine .bind (.position (.bind (members_first (.of_eq (Parser.ref_expr_apply rfl _ c) ?_))))
  refine (expression_ends operators_closed operators_closingsEnd (r.over_tree [])
    (Rendering.grouped_tree h []) hawaits hend).mono (fun result d hd => ?_) fun f _ hf => ?_
  · obtain ⟨hvalue, hd, hspan⟩ := hd
    rw [show (stage input).table = operators from rfl, r.evaluate_tree] at hvalue
    cases houtcome : r.outcome [] with
    | error region => rw [houtcome] at hvalue; cases hvalue
    | ok x =>
      rw [houtcome] at hvalue
      cases hvalue
      have hbehind := Nat.le_trans hspan.forward hspan.high
      refine (Stage.closes spaces_clears rfl rfl rfl hd hbehind).mono (fun results e he => ?_)
        fun f _ hf => ?_
      · obtain ⟨rfl, -⟩ := he
        exact .bind (.pure (.pure ⟨x, _, rfl, rfl⟩))
      · have hmore := hf.2 last rfl
        rw [hlast] at hmore
        cases hmore
  · obtain ⟨refusal, hrefusal, rfl⟩ := hf
    rw [show (stage input).table = operators from rfl, r.evaluate_tree] at hrefusal
    cases houtcome : r.outcome [] with
    | ok x => rw [houtcome] at hrefusal; cases hrefusal
    | error region =>
      rw [houtcome] at hrefusal
      cases hrefusal
      exact ⟨_, rfl, region, rfl, rfl⟩

/-- The calculator computes a rendering with sufficient parentheses. -/
theorem evaluate_eq_outcome (h : r.Sufficient)
    (hinput : (r.written ++ gapText gap).byteLength ≤ largestInput) :
    evaluate (r.written ++ gapText gap) =
      (r.outcome []).mapError fun region => .rejected ⟨"Division by zero", region⟩ := by
  obtain ⟨tokens, last, t', hrun, hlast, -, hawaits⟩ :=
    awaits_start (S := stage (r.written ++ gapText gap)) tokenizer hinput
  have hscans : Tokenizer.Scans rules (r.written ++ (gapText gap ++ []))
      (r.symbols ++ gap.map Blank.symbol) [] :=
    (r.scans (endsNumber_gap gap endsNumber_nil)).append (scans_gap gap)
  rw [List.append_nil] at hscans
  obtain rfl := Tokenizer.eq_inRow_of_tokenize hinput hscans hrun
  have htokens :
      solid (Token.inRow [] (r.symbols ++ gap.map Blank.symbol)) = (r.tree []).tokens := by
    rw [Token.inRow_append, solid_append, r.solid_symbols, solid_gap, List.append_nil]
  change ∀ j : Journal, _ → (stage _).Awaits _ (solid _ ++ [last]) at hawaits
  rw [htokens] at hawaits
  have hends := Grammar.parse_ends_of_faithful
    (c := ⟨tokenizer.withInput (r.written ++ gapText gap), .forgetful⟩) rfl .forgetful
    fun j hj => entry_ends h (hawaits j hj) hlast
  unfold evaluate Grammar.parseText
  rcases hends.cases with ⟨result, d, hparse, x, span, houtcome, rfl⟩ |
    ⟨f, d, hparse, e, rfl, region, houtcome, rfl⟩
  · rw [hparse, houtcome]
    rfl
  · rw [hparse, houtcome]
    rfl

/-- The calculator answers the value of the expression that is written with sufficient parentheses
and with blanks in front of the tokens and behind them. If a divisor is zero, it rejects the first
division by zero, in the region from its glyph to the end of its divisor. -/
theorem evaluate_rendering (h : r.Sufficient)
    (hinput : (r.written ++ gapText gap).byteLength ≤ largestInput) :
    (∀ x, r.expression.value = some x → evaluate (r.written ++ gapText gap) = .ok x) ∧
      (r.expression.value = none → ∃ region, r.outcome [] = .error region ∧
        evaluate (r.written ++ gapText gap) =
          .error (.rejected ⟨"Division by zero", region⟩)) := by
  have heval := evaluate_eq_outcome h hinput
  have hvalue := r.toOption_outcome []
  cases houtcome : r.outcome [] with
  | ok x =>
    rw [houtcome] at heval hvalue
    refine ⟨fun y hy => ?_, fun hnone => ?_⟩
    · cases hvalue.trans hy
      exact heval
    · cases hvalue.trans hnone
  | error region =>
    rw [houtcome] at heval hvalue
    refine ⟨fun y hy => ?_, fun _ => ⟨region, rfl, heval⟩⟩
    cases hvalue.trans hy

/-- The literal of one. -/
def one : Literal := .integer ⟨'1', rfl⟩ ⟨[], nofun⟩

/-- A signed decimal times a sum in parentheses, divided by zero, and less by one. -/
def difference : Rendering :=
  let decimal := .decimal ⟨'2', rfl⟩ ⟨[], nofun⟩ ⟨[], nofun⟩ ⟨'5', rfl⟩
  let sum := .enclosed [] (.binary (.number [] one) [.space] .plus (.number [.tab] .zero)) []
  let product := .binary (.signed [.space] .minus (.number [] decimal)) [.space] .cross sum
  .binary (.binary product [] .obelus (.number [] .zero)) [.newline] .hyphen (.number [.space] one)

theorem difference_evaluate_rendering :
    difference.written = " -2.5 ×(1 +\t0)÷0\n- 1".toList ∧ difference.Sufficient ∧
      (difference.written ++ gapText [.carriageReturn]).byteLength ≤ largestInput ∧
      (∀ x, difference.expression.value = some x →
        evaluate (difference.written ++ gapText [.carriageReturn]) = .ok x) ∧
      (difference.expression.value = none → ∃ region, difference.outcome [] = .error region ∧
        evaluate (difference.written ++ gapText [.carriageReturn]) =
          .error (.rejected ⟨"Division by zero", region⟩)) :=
  have hsufficient : difference.Sufficient := by decide
  have hinput : (difference.written ++ gapText [.carriageReturn]).byteLength ≤ largestInput := by
    decide
  ⟨rfl, hsufficient, hinput, evaluate_rendering hsufficient hinput⟩

end PredictiveParsing.Calculator
