import PredictiveParsing.Languages.Lambda
import PredictiveParsing.Languages.Pi
import PredictiveParsing.Proofs.Grammar.Forms
import PredictiveParsing.Proofs.Languages.Numbers

/-!
# Forms of the languages

The parsers of the calculator, of lambda terms and of processes have forms: expressions, terms and
processes are values, what an abstraction binds is the value of a variable, and everything else is a
token or a list that no action looks at. A token that the calculator takes for a number is read as
one. So all actions are given what they expect, and whatever the input is, each of the three parsers
answers a value or an error that is about the input (`languages_answer`).
-/

namespace PredictiveParsing

open Result (Form Fits)

/-! ## Actions -/

section

variable {V : Type} {t : Tokenizer}

/-- A token that is supplied is scanned in front of some text. -/
theorem Tokenizer.Supplies.scanned {token : Token} (h : t.Supplies token)
    (hk : token.kind = .ordinary) :
    ∃ rest, Tokenizer.scan t.rules (token.text ++ rest) =
      some (token.type, token.text.byteLength) := by
  obtain ⟨u, ⟨tokens, hcommits, -⟩, hpeek⟩ := h
  obtain ⟨u', hforward⟩ := Tokenizer.forward_of_peek hpeek
  have hall := hcommits.append (.single (Tokenizer.forward_moves hforward))
  exact hall.scanned (List.mem_append_right _ (.head _)) hk

theorem Result.demandToken_faultless (r : Result V) : r.demandToken.Faultless := .ofDemand _

theorem Result.demandValue_faultless (r : Result V) : r.demandValue.Faultless := .ofDemand _

/-- What stands for a token keeps its region. -/
theorem Answer.Keeps.of_same {span : Span} {answer : Answer (Result V)}
    (hfaultless : answer.Faultless) (hspan : ∀ r, answer = .ok r → r.span = span) :
    answer.Keeps [span] := by
  refine fun low high horder => ⟨hfaultless, fun r hr => ?_⟩
  rw [hspan r hr]
  exact ⟨horder.1.low, horder.1.forward, horder.2⟩

/-- What stands for the region that an operator and its operands cover keeps their regions. -/
theorem Answer.Keeps.of_cover {first : Span} {rest : List Span} (last : Span)
    (hlast : (first :: rest).getLast (List.cons_ne_nil _ _) = last)
    {f : Span → Answer (Result V)}
    (hfaultless : ∀ low high, Span.InOrder low (first :: rest) high →
      (f ⟨first.start, last.stop⟩).Faultless)
    (hspan : ∀ span r, f span = .ok r → r.span = span) :
    (Answer.ofChecked (Span.cover first last) >>= f).Keeps (first :: rest) := by
  intro low high horder
  obtain ⟨hcover, hwithin⟩ := horder.cover
  rw [hlast] at hcover hwithin
  rw [hcover]
  refine ⟨hfaultless low high horder, fun r hr => ?_⟩
  rw [hspan _ r hr]
  exact hwithin

/-- The action that makes a value of the values of both operands. -/
def combine (operation : V → V → V) : InfixAction V := fun left _ right => do
  let span ← Answer.ofChecked (Span.cover left.span right.span)
  let x ← left.demandValue
  let y ← right.demandValue
  return .value (operation x y) span

theorem combine_keeps (operation : V → V → V) (left : Result V) (op : Token) (right : Result V) :
    (combine operation left op right).Keeps [left.span, op.span, right.span] := by
  refine .of_cover right.span rfl (fun _ _ _ => ?_) fun span r hr => ?_
  · exact .bind left.demandValue_faultless fun x => .bind right.demandValue_faultless fun y => .ok _
  · obtain ⟨x, -, hx⟩ := bind_eq_ok hr
    obtain ⟨y, -, hy⟩ := bind_eq_ok hx
    cases hy
    rfl

theorem combine_makes (operation : V → V → V) :
    InfixMakes t .anyValue (some (combine operation)) := by
  intro left op right hleft _ hright
  refine .bind (.ofChecked fun span hspan => ?_)
  refine .bind (.demandValue hleft.form fun x _ => .bind (.demandValue hright.form fun y _ => ?_))
  exact ⟨hleft.region.cover hright.region hspan, .anyValue⟩

end

/-! ## The calculator -/

namespace Calculator

variable {input : Text} {t : Tokenizer}

/-- The forms of the rules: an expression is a value. -/
def forms : String → Form Float
  | "expr" => .anyValue
  | _ => .list

theorem number_keeps (token : Token) : (number token).Keeps [token.span] := by
  refine .of_same ?_ fun r hr => ?_
  · unfold number
    split
    · exact .ok _
    · exact .reject _ _
  · unfold number at hr
    split at hr
    · cases hr
      rfl
    · cases hr

theorem signed_keeps (sign : Float → Float) (op : Token) (operand : Result Float) :
    (signed sign op operand).Keeps [op.span, operand.span] := by
  refine .of_cover operand.span rfl (fun _ _ _ => ?_) fun span r hr => ?_
  · exact .bind operand.demandValue_faultless fun x => .ok _
  · obtain ⟨x, -, hx⟩ := bind_eq_ok hr
    cases hx
    rfl

theorem divide_keeps (left : Result Float) (op : Token) (right : Result Float) :
    (divide left op right).Keeps [left.span, op.span, right.span] := by
  refine .of_cover right.span rfl (fun low high horder => ?_) fun span r hr => ?_
  · -- an error is about the region from the operator on, which ends with the divisor
    obtain ⟨-, hop, hright, -⟩ := horder
    have hforward : op.span.start.offset ≤ right.span.stop.offset :=
      Nat.le_trans hop.forward (Nat.le_trans hright.low hright.forward)
    have hcover : Span.cover op.span ⟨left.span.start, right.span.stop⟩ =
        .ok ⟨op.span.start, right.span.stop⟩ := Span.between_eq_ok.2 ⟨hforward, rfl⟩
    refine .bind right.demandValue_faultless fun y => ?_
    rw [hcover]
    split
    · exact .bind (.ok _) fun region => .reject _ _
    · exact .bind left.demandValue_faultless fun x => .ok _
  · obtain ⟨y, -, hy⟩ := bind_eq_ok hr
    split at hy
    · obtain ⟨region, -, hregion⟩ := bind_eq_ok hy
      cases hregion
    · obtain ⟨x, -, hx⟩ := bind_eq_ok hy
      cases hx
      rfl

theorem operators_keep : ∀ entry ∈ operators.roles, entry.2.Keeps := by
  have hsigned (sign : Float → Float) : ∀ f, some (signed sign) = some f → ∀ op operand,
      (f op operand).Keeps [op.span, operand.span] := by
    rintro _ ⟨⟩
    exact signed_keeps sign
  have harithmetic (operation : Float → Float → Float) :
      ∀ f, some (arithmetic operation) = some f → ∀ left op right,
        (f left op right).Keeps [left.span, op.span, right.span] := by
    rintro _ ⟨⟩
    exact combine_keeps operation
  have hdivide : ∀ f, some divide = some f → ∀ left op right,
      (f left op right).Keeps [left.span, op.span, right.span] := by
    rintro _ ⟨⟩
    exact divide_keeps
  have hnumber : ∀ f, some number = some f → ∀ token, (f token).Keeps [token.span] := by
    rintro _ ⟨⟩
    exact number_keeps
  simp only [operators, List.forall_mem_cons]
  exact ⟨⟨hsigned id, harithmetic _⟩, ⟨hsigned _, harithmetic _⟩, harithmetic _, hdivide, trivial,
    hnumber, List.forall_mem_nil _⟩

/-- A token that is supplied as a number is read as one. -/
theorem number_meets {token : Token} (htoken : (tokenizer.withInput input).Supplies token)
    (his : token.is "number" = true) (hregion : token.span.Of input) :
    (number token).Meets input (Fits input .anyValue) := by
  obtain ⟨rest, hscan⟩ := htoken.scanned (Token.kind_of_is his)
  rw [Token.type_of_is his] at hscan
  obtain ⟨x, hx⟩ := read_of_scan hscan
  unfold number
  rw [hx]
  exact ⟨hregion, .anyValue⟩

theorem signed_makes (hplaced : t.cursor.Placed) (sign : Float → Float) :
    PrefixMakes t .anyValue (some (signed sign)) := by
  intro op operand hop hoperand
  refine .bind (.ofChecked fun span hspan => .bind (.demandValue hoperand.form fun x _ => ?_))
  exact ⟨(hop.region hplaced).cover hoperand.region hspan, .anyValue⟩

theorem divide_makes (hplaced : t.cursor.Placed) : InfixMakes t .anyValue (some divide) := by
  intro left op right hleft hop hright
  refine .bind (.ofChecked fun span hspan => .bind (.demandValue hright.form fun y _ => ?_))
  have hregion := hleft.region.cover hright.region hspan
  split
  · have hmessage : ¬ Confused "Division by zero" := by decide
    exact .bind (.ofChecked fun region hcover =>
      ⟨(hop.region hplaced).cover hregion hcover, hmessage⟩)
  · exact .bind (.demandValue hleft.form fun x _ => ⟨hregion, .anyValue⟩)

theorem operators_make (hinput : input.byteLength ≤ largestInput) :
    ∀ entry ∈ operators.roles, entry.2.Makes (tokenizer.withInput input) .anyValue entry.1 := by
  have hplaced : (tokenizer.withInput input).cursor.Placed := .ofInput hinput
  have hclosing : PlainName "rparen" := by decide
  simp only [operators, List.forall_mem_cons]
  exact ⟨⟨signed_makes hplaced id, combine_makes _⟩, ⟨signed_makes hplaced _, combine_makes _⟩,
    combine_makes _, divide_makes hplaced, hclosing,
    fun token htoken his => number_meets htoken his (htoken.region hplaced), List.forall_mem_nil _⟩

theorem grammar_makes (hinput : input.byteLength ≤ largestInput) :
    grammar.Makes (tokenizer.withInput input) forms := by
  have hblank : (Parser.choice 0 [.token "space", .token "newline"]).Makes
      (tokenizer.withInput input) forms .token := by
    refine .choice ?_
    simp only [List.forall_mem_cons]
    exact ⟨.token (by decide), .token (by decide), List.forall_mem_nil _⟩
  have hexpr : (Parser.expr operators).Makes (tokenizer.withInput input) forms .anyValue := by
    refine .expr operators_keep (operators_make hinput) fun key q hmem => ?_
    simp [operators] at hmem
  exact .register (.register (.withEntry .empty _) (.many hblank)) hexpr

/-- The parser that the calculator starts from makes values. -/
theorem entry_makes : (Parser.tuple
    [.element (.ref "expr"), .skip (.ref "spaces"), .skip .endOfInput] (some wholeValue)).Makes
      t forms .anyValue := by
  refine .single [.anyValue, .list, .token] rfl ?_ rfl fun _ _ => rfl
  simp only [List.zip_cons_cons, List.zip_nil_left, List.forall_mem_cons]
  exact ⟨.ref _, .ref _, .endOfInput, List.forall_mem_nil _⟩

end Calculator

/-! ## Lambda terms -/

namespace Lambda

variable {t : Tokenizer}

/-- The term is a variable. -/
def IsVar (term : Term) : Prop := ∃ name type, term = .var name type

/-- The forms of the rules: terms are values, and what an abstraction binds is a variable. -/
def forms : String → Form Term
  | "ref" => .value IsVar
  | "app" | "lam" | "expr" => .anyValue
  | "spaces" => .list
  | _ => .token

theorem ref_makes : (Parser.tuple
    [.element (.ref "identifier"), .skip (.ref "spaces"), .skip (.ref "column"),
      .skip (.ref "spaces"), .element (.ref "identifier")] (some makeVar)).Makes t forms
      (.value IsVar) := by
  refine .pair [.token, .list, .token, .list, .token] rfl ?_ rfl (fun name type _ => ?_)
    fun name type _ hname htype => ?_
  · simp only [List.zip_cons_cons, List.zip_nil_left, List.forall_mem_cons]
    exact ⟨.ref _, .ref _, .ref _, .ref _, .ref _, List.forall_mem_nil _⟩
  · exact .bind name.demandToken_faultless fun _ => .bind type.demandToken_faultless fun _ => .ok _
  · exact .bind (.demandToken hname fun _ => .bind (.demandToken htype fun _ => ⟨_, _, rfl⟩))

theorem app_makes : (Parser.tuple
    [.skip (.ref "lparen"), .skip (.ref "spaces"), .element (.ref "expr"), .skip (.ref "spaces"),
      .element (.ref "expr"), .skip (.ref "spaces"), .skip (.ref "rparen")] (some makeApp)).Makes t
      forms .anyValue := by
  refine .pair [.token, .list, .anyValue, .list, .anyValue, .list, .token] rfl ?_ rfl
    (fun f a _ => ?_) fun f a _ hf ha => ?_
  · simp only [List.zip_cons_cons, List.zip_nil_left, List.forall_mem_cons]
    exact ⟨.ref _, .ref _, .ref _, .ref _, .ref _, .ref _, .ref _, List.forall_mem_nil _⟩
  · exact .bind f.demandValue_faultless fun _ => .bind a.demandValue_faultless fun _ => .ok _
  · exact .bind (.demandValue hf fun _ _ => .bind (.demandValue ha fun _ _ => trivial))

theorem lam_makes : (Parser.tuple
    [.skip (.ref "lambda"), .skip (.ref "spaces"), .element (.ref "ref"), .skip (.ref "spaces"),
      .skip (.ref "dot"), .skip (.ref "spaces"), .element (.ref "expr")] (some makeLam)).Makes t
      forms .anyValue := by
  refine .pair [.token, .list, .value IsVar, .list, .token, .list, .anyValue] rfl ?_ rfl
    (fun binder body _ => ?_) fun binder body _ hbinder hbody => ?_
  · simp only [List.zip_cons_cons, List.zip_nil_left, List.forall_mem_cons]
    exact ⟨.ref _, .ref _, .ref _, .ref _, .ref _, .ref _, .ref _, List.forall_mem_nil _⟩
  · refine .bind binder.demandValue_faultless fun term => ?_
    cases term with
    | var name type => exact .bind body.demandValue_faultless fun _ => .ok _
    | app | lam => exact .reject _ _
  · refine .bind (.demandValue hbinder fun term hterm => ?_)
    obtain ⟨name, type, rfl⟩ := hterm
    exact .bind (.demandValue hbody fun _ _ => trivial)

theorem expr_makes :
    (Parser.choice 0 [.ref "ref", .ref "app", .ref "lam"]).Makes t forms .anyValue := by
  have hvar : (Parser.ref "ref").Makes t forms .anyValue := by
    refine .widen (.ref "ref") fun r hr => ?_
    cases hr
    exact .anyValue
  refine .choice ?_
  simp only [List.forall_mem_cons]
  exact ⟨hvar, .ref "app", .ref "lam", List.forall_mem_nil _⟩

theorem grammar_makes : grammar.Makes t forms := by
  have htoken (type : TokenType) (h : PlainName type) :
      (Parser.token type : Parser Term).Makes t forms .token := .token h
  refine .withEntry ?_ _
  refine .register (.register (.register (.register ?_ ref_makes) app_makes) lam_makes) expr_makes
  refine .register (.register ?_ (htoken "lambda" (by decide))) (htoken "identifier" (by decide))
  refine .register ?_ (.many (htoken "space" (by decide)))
  refine .register (.register ?_ (htoken "lparen" (by decide))) (htoken "rparen" (by decide))
  exact .register (.register .empty (htoken "column" (by decide))) (htoken "dot" (by decide))

/-- The parser that terms are read from makes values. -/
theorem entry_makes : (Parser.tuple
    [.skip (.ref "spaces"), .element (.ref "expr"), .skip (.ref "spaces"), .skip .endOfInput]
    (some wholeTerm)).Makes t forms .anyValue := by
  refine .single [.list, .anyValue, .list, .token] rfl ?_ rfl fun _ _ => rfl
  simp only [List.zip_cons_cons, List.zip_nil_left, List.forall_mem_cons]
  exact ⟨.ref _, .ref _, .ref _, .endOfInput, List.forall_mem_nil _⟩

end Lambda

/-! ## Processes -/

namespace Pi

variable {t : Tokenizer}

/-- The forms of the rules: processes are values. -/
def forms : String → Form Process
  | "expr" => .anyValue
  | "spaces" => .list
  | _ => .token

theorem operators_keep : ∀ entry ∈ operators.roles, entry.2.Keeps := by
  have hterm : ∀ f, some makeTerm = some f → ∀ token, (f token).Keeps [token.span] := by
    rintro _ ⟨⟩ token
    refine .of_same (.ok _) fun r hr => ?_
    cases hr
    rfl
  have hparallel : ∀ f, some makeParallel = some f → ∀ left op right,
      (f left op right).Keeps [left.span, op.span, right.span] := by
    rintro _ ⟨⟩
    exact combine_keeps Process.parallel
  simp only [operators, List.forall_mem_cons]
  exact ⟨hterm, trivial, hparallel, trivial, List.forall_mem_nil _⟩

theorem operators_make (hplaced : t.cursor.Placed) :
    ∀ entry ∈ operators.roles, entry.2.Makes t .anyValue entry.1 := by
  have hclosing : PlainName "rparen" := by decide
  have hparallel : InfixMakes t .anyValue (some makeParallel) := combine_makes Process.parallel
  simp only [operators, List.forall_mem_cons]
  exact ⟨fun token htoken _ => ⟨htoken.region hplaced, .anyValue⟩, trivial, hparallel, hclosing,
    List.forall_mem_nil _⟩

theorem restriction_makes : restriction.Makes t forms .anyValue := by
  refine .pair [.token, .list, .token, .list, .token, .list, .token, .list, .anyValue] rfl ?_ rfl
    (fun name body _ => ?_) fun name body _ hname hbody => ?_
  · simp only [List.zip_cons_cons, List.zip_nil_left, List.forall_mem_cons]
    exact ⟨.token (by decide), .ref _, .token (by decide), .ref _, .token (by decide), .ref _,
      .token (by decide), .ref _, .ref _, List.forall_mem_nil _⟩
  · exact .bind name.demandToken_faultless fun _ => .bind body.demandValue_faultless fun _ => .ok _
  · exact .bind (.demandToken hname fun _ => .bind (.demandValue hbody fun _ _ => trivial))

theorem grammar_makes (hplaced : t.cursor.Placed) : grammar.Makes t forms := by
  have htoken (type : TokenType) (h : PlainName type) :
      (Parser.token type : Parser Process).Makes t forms .token := .token h
  have hexpr : (Parser.expr operators).Makes t forms .anyValue := by
    refine .expr operators_keep (operators_make hplaced) fun key q hmem => ?_
    simp only [operators, List.mem_cons, Prod.mk.injEq, reduceCtorEq, and_false, false_or, or_false,
      Role.embedding, Role.embed.injEq, List.not_mem_nil] at hmem
    rw [hmem.2]
    exact .embed restriction_makes
  refine .withEntry ?_ _
  refine .register (.register ?_ (htoken "term" (by decide))) hexpr
  exact .register .empty (.many (htoken "space" (by decide)))

/-- The parser that processes are read from makes values. -/
theorem entry_makes : (Parser.tuple
    [.element (.ref "expr"), .skip (.ref "spaces"), .skip .endOfInput] (some wholeProcess)).Makes
      t forms .anyValue := by
  refine .single [.anyValue, .list, .token] rfl ?_ rfl fun _ _ => rfl
  simp only [List.zip_cons_cons, List.zip_nil_left, List.forall_mem_cons]
  exact ⟨.ref _, .ref _, .endOfInput, List.forall_mem_nil _⟩

end Pi

/-! ## Whole inputs -/

/-- The beginnings of the errors by which actions say that they cannot use what they are given. -/
def internalBeginnings : List String :=
  ["expected a value but found ", "expected a token but found ", "expected a list but found ",
    "expected a typed variable but found ", "invalid number: "]

/-- The outcome is an answer, or an error that is about the input: it stands for a region of the
input, and it is none of an action that cannot use what it is given. -/
def Answered {α : Type} (input : Text) (outcome : Except Failure α) : Prop :=
  (∃ a, outcome = .ok a) ∨ ∃ e, outcome = .error (.rejected e) ∧ e.span.Of input ∧
    ∀ beginning ∈ internalBeginnings, ¬ beginning.toList <+: e.message.toList

variable {V : Type} {input : Text}

theorem ParseError.Proper.not_internal {e : ParseError} (h : e.Proper input) :
    ∀ beginning ∈ internalBeginnings, ¬ beginning.toList <+: e.message.toList := by
  have hconfused : ∀ beginning ∈ internalBeginnings, Confused beginning := by decide
  intro beginning hmem hbegins
  refine h.unconfused ((hconfused beginning hmem).imp (fun h => ?_) fun h => ?_)
  · exact h.trans hbegins
  · exact h.trans hbegins

/-- The value of a result that is one is an answer. -/
theorem answered_of_value {outcome : Except Failure (Result V)}
    (h : (∃ r, outcome = .ok r ∧ r.Fits input .anyValue) ∨
      ∃ e, outcome = .error (.rejected e) ∧ e.Proper input) :
    Answered input (do
      let result ← outcome
      result.getValue.mapError Failure.rejected) := by
  rcases h with ⟨r, rfl, -, hr⟩ | ⟨e, rfl, hproper⟩
  · cases hr
    exact .inl ⟨_, rfl⟩
  · exact .inr ⟨e, rfl, hproper.region, hproper.not_internal⟩

/-- Whatever the input is, the parsers of the three languages end, and they end with an answer or
with an error that is about the input: no action is given what it cannot use, and nothing is at
fault. -/
theorem languages_answer (hinput : input.byteLength ≤ largestInput) :
    Answered input (Calculator.evaluate input) ∧ Answered input (Lambda.parseTerm input) ∧
      Answered input (Pi.parseProcess input) := by
  refine ⟨answered_of_value ?_, answered_of_value ?_, answered_of_value ?_⟩
  · exact (Calculator.grammar_makes hinput).parseText rfl rfl (.of_parts rfl)
      Calculator.entry_makes hinput
  · exact Lambda.grammar_makes.parseText rfl rfl (.of_parts rfl) Lambda.entry_makes hinput
  · exact (Pi.grammar_makes (.ofInput hinput)).parseText rfl rfl (.of_parts rfl) Pi.entry_makes
      hinput

/-- A division that is left open is answered by all three parsers. -/
theorem division_languages_answer :
    Text.byteLength "1 / (0".toList ≤ largestInput ∧
      Answered "1 / (0".toList (Calculator.evaluate "1 / (0".toList) ∧
      Answered "1 / (0".toList (Lambda.parseTerm "1 / (0".toList) ∧
      Answered "1 / (0".toList (Pi.parseProcess "1 / (0".toList) :=
  have hinput : Text.byteLength "1 / (0".toList ≤ largestInput := by decide
  ⟨hinput, languages_answer hinput⟩

end PredictiveParsing
