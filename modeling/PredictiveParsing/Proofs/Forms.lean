import Mathlib.Data.List.Forall2
import PredictiveParsing.Proofs.Nesting

/-!
# Forms of results

Actions are given results of any content: tokens, lists or values. What a result is in this respect
is its form (`Result.Form`), and of a value a form also says what holds of it. An action that is
given a result of another form than it expects, or a text that it cannot use, rejects it with an
error that says so (`Confused`), and such an error blames the author of the grammar and not the
input.

`ParseM.Makes` says of a run that its results are of a form and stand for regions of the input, and
that its errors are `ParseError.Proper`: they stand for regions of the input too, and they confuse
nothing. It says so of runs that begin in a tokenizer that a given one leads to, so that the tokens
they meet are those that the given one supplies (`Tokenizer.Supplies`). Faults and depths are no
concern here. Each combinator makes results of a form if its parts do.
-/

namespace PredictiveParsing

open ParseM

variable {V P α β : Type}

/-! ## Regions -/

/-- What spans of a text cover is a span of the text. -/
theorem Span.Of.cover {text : Text} {first last span : Span} (hfirst : first.Of text)
    (hlast : last.Of text) (h : Span.cover first last = .ok span) : span.Of text := by
  obtain ⟨hforward, rfl⟩ := Span.between_eq_ok.1 h
  exact ⟨hfirst.start, hlast.stop, hforward⟩

theorem Span.Of.empty {text : Text} {p : Position} (h : p.Of text) : (Span.empty p).Of text :=
  ⟨h, h, Nat.le_refl _⟩

theorem Span.Of.coverAll {text : Text} {start : Position} {items : List (Result V)} {span : Span}
    (hstart : start.Of text) (hitems : ∀ item ∈ items, item.span.Of text)
    (h : PredictiveParsing.coverAll start items = .ok span) : span.Of text := by
  cases items with
  | nil =>
    cases h
    exact .empty hstart
  | cons first rest => exact .cover (hitems _ (.head _)) (hitems _ (List.getLast_mem _)) h

/-! ## Forms -/

namespace Result

/-- The form of a result, and of a value what holds of it. -/
inductive Form (V : Type)
  | token
  | list
  | value (holds : V → Prop)

/-- The form of all values. -/
def Form.anyValue : Form V := .value fun _ => True

/-- The result is of the form. -/
inductive HasForm : Result V → Form V → Prop
  | token {token : Token} {span : Span} : HasForm (.token token span) .token
  | list {items : List (Result V)} {span : Span} : HasForm (.list items span) .list
  | value {value : V} {span : Span} {holds : V → Prop} (property : holds value) :
    HasForm (.value value span) (.value holds)

/-- The result is of the form and stands for a region of the input. -/
structure Fits (input : Text) (form : Form V) (r : Result V) : Prop where
  region : r.span.Of input
  form : r.HasForm form

variable {r : Result V} {form : Form V} {input : Text} {span : Span}

theorem HasForm.anyValue {value : V} : (Result.value value span).HasForm .anyValue :=
  .value trivial

/-- What a result is does not depend on the region it stands for. -/
theorem Fits.withSpan (h : r.Fits input form) (hspan : span.Of input) :
    (r.withSpan span).Fits input form := by
  obtain ⟨-, hform⟩ := h
  cases hform with
  | token => exact ⟨hspan, .token⟩
  | list => exact ⟨hspan, .list⟩
  | value hholds => exact ⟨hspan, .value hholds⟩

end Result

/-! ## Errors -/

/-- The message says that a thing of some kind was expected, or that something is invalid: an action
was given what it cannot use. -/
def Confused (message : String) : Prop :=
  "expected a ".toList <+: message.toList ∨ "invalid ".toList <+: message.toList

instance (message : String) : Decidable (Confused message) := inferInstanceAs (Decidable (_ ∨ _))

/-- The error stands for a region of the input, and it confuses nothing. -/
structure ParseError.Proper (input : Text) (e : ParseError) : Prop where
  region : e.span.Of input
  unconfused : ¬ Confused e.message

/-- If the failure is an error, then it is a proper one. -/
def Failure.Proper (input : Text) (failure : Failure) : Prop :=
  ∀ e, failure = .rejected e → e.Proper input

/-- What the text names, with a blank behind it, is not introduced as a thing of some kind. -/
def PlainName (what : String) : Prop := ¬ "a ".toList <+: what.toList ++ [' ']

instance (what : String) : Decidable (PlainName what) := inferInstanceAs (Decidable (¬ _))

section

variable {message what : String}

/-- That something plain was expected is no confusion. -/
theorem unconfused_of_expected (h : PlainName what)
    (hmessage : "expected ".toList ++ (what.toList ++ [' ']) <+: message.toList) :
    ¬ Confused message := by
  obtain ⟨behind, hmessage⟩ := hmessage
  unfold Confused
  rw [← hmessage, List.append_assoc]
  rintro (hconfused | ⟨more, heq⟩)
  · have hsplit : "expected a ".toList = "expected ".toList ++ "a ".toList := rfl
    rw [hsplit, List.prefix_append_right_inj] at hconfused
    cases hwhat : what.toList with
    | nil =>
      rw [hwhat] at hconfused
      obtain ⟨more, heq⟩ := hconfused
      cases heq
    | cons c cs =>
      have hlength : "a ".toList.length ≤ (what.toList ++ [' ']).length := by
        rw [hwhat, List.length_append, List.length_cons]
        exact Nat.le_add_left 2 cs.length
      exact h (List.prefix_of_prefix_length_le hconfused (List.prefix_append _ _) hlength)
  · cases heq

/-- The error of a token that cannot be used where something plain was expected. -/
theorem unconfused_unexpected (h : PlainName what) (token : Token) :
    ¬ Confused ("expected " ++ what ++ " but found " ++ token.describe) := by
  refine unconfused_of_expected h ?_
  simp only [String.toList_append, List.append_assoc, List.prefix_append_right_inj]
  exact ⟨_, rfl⟩

/-- The error of a token that is not the one that closes a bracket. -/
theorem unconfused_unbalanced (h : PlainName what) (start : Position) (token : Token) :
    ¬ Confused ("expected " ++ (what ++ " to balance the bracket at " ++ toString start) ++
      " but found " ++ token.describe) := by
  refine unconfused_of_expected h ?_
  simp only [String.toList_append, List.append_assoc, List.prefix_append_right_inj]
  exact ⟨_, rfl⟩

/-- The error of a repetition that has not come to its minimum. -/
theorem unconfused_few (rest : String) : ¬ Confused ("expected at least " ++ rest) := by
  have hplain : PlainName "at least" := by decide
  refine unconfused_of_expected hplain ?_
  rw [String.toList_append]
  exact ⟨rest.toList, rfl⟩

/-- The error of a choice of which no alternative can begin with the token. -/
theorem unconfused_unselected (rest : String) : ¬ Confused ("unexpected " ++ rest) := by
  unfold Confused
  rw [String.toList_append]
  rintro (⟨more, heq⟩ | ⟨more, heq⟩)
  · exact absurd (List.cons.inj heq).1 (by decide)
  · exact absurd (List.cons.inj heq).1 (by decide)

end

namespace Failure.Proper

variable {input : Text}

theorem rejected {e : ParseError} (h : e.Proper input) : (Failure.rejected e).Proper input := by
  rintro _ ⟨⟩
  exact h

theorem fault (f : Fault) : (Failure.fault f).Proper input := nofun

theorem exhausted : Failure.exhausted.Proper input := nofun

end Failure.Proper

/-! ## Answers -/

/-- If the action answers, then with what is `good`, and if it rejects, then with a proper error. -/
def Answer.Meets (input : Text) (good : α → Prop) : Answer α → Prop
  | .ok a => good a
  | .error (.rejected e) => e.Proper input
  | .error (.fault _) => True

namespace Answer.Meets

variable {input : Text} {good : α → Prop} {good' : β → Prop} {answer : Answer α}

theorem bind {f : α → Answer β} (h : answer.Meets input fun a => (f a).Meets input good') :
    (answer >>= f).Meets input good' := by
  cases answer with
  | ok a => exact h
  | error refusal => cases refusal <;> exact h

theorem ofChecked {y : Except Fault α} (h : ∀ a, y = .ok a → good a) :
    (Answer.ofChecked y).Meets input good := by
  cases y with
  | ok a => exact h a rfl
  | error => trivial

theorem demandToken {r : Result V} {good : Token → Prop} (h : r.HasForm .token)
    (hgood : ∀ token, good token) : r.demandToken.Meets input good := by
  cases h
  exact hgood _

theorem demandValue {r : Result V} {holds good : V → Prop} (h : r.HasForm (.value holds))
    (hgood : ∀ value, holds value → good value) : r.demandValue.Meets input good := by
  cases h with
  | value hholds => exact hgood _ hholds

/-- What is performed succeeds as it should, or its failure is proper. -/
theorem perform {c : Context} {ok : α → Context → Prop} (h : answer.Meets input good)
    (hok : ∀ a, good a → ok a c) :
    (ParseM.perform answer).Ends c ok fun failure _ => failure.Proper input := by
  refine .perform (fun a ha => ?_) (fun e he => ?_) fun fault _ => .fault fault
  · subst ha
    exact hok a h
  · subst he
    exact .rejected h

end Answer.Meets

/-! ## Runs -/

/-- Ordinary tokens lead to where the tokenizer reads the token. -/
def Tokenizer.Supplies (t : Tokenizer) (token : Token) : Prop :=
  ∃ u, t.LeadsTo u ∧ u.peek = .ok token

/-- Wherever `t` leads to and the run begins, its result is of the form and stands for a region of
the input, and its failure is proper. -/
def ParseM.Makes (t : Tokenizer) (form : Result.Form V) (x : ParseM (Result V)) : Prop :=
  ∀ c, t.LeadsTo c.tokenizer → x.Ends c
    (fun r d => t.LeadsTo d.tokenizer ∧ r.Fits t.cursor.input form)
    fun failure _ => failure.Proper t.cursor.input

section

variable {t : Tokenizer} {c : Context} {token : Token} {form : Result.Form V}

theorem Tokenizer.LeadsTo.inPlace (hc : t.LeadsTo c.tokenizer) (hplaced : t.cursor.Placed) :
    c.InPlace t.cursor.input :=
  Context.InPlace.leadsTo (c := ⟨t, c.journal⟩) ⟨hplaced, rfl⟩ hc

theorem Tokenizer.LeadsTo.position_of (hc : t.LeadsTo c.tokenizer) (hplaced : t.cursor.Placed) :
    c.tokenizer.position.Of t.cursor.input :=
  (hc.inPlace hplaced).position

theorem Tokenizer.LeadsTo.commit (hc : t.LeadsTo c.tokenizer) {tokenizer : Tokenizer}
    (hm : c.tokenizer.Moves token tokenizer) (hk : token.kind = .ordinary) : t.LeadsTo tokenizer :=
  hc.trans (.of_moves hm hk)

/-- A token that is supplied stands for a region of the input. -/
theorem Tokenizer.Supplies.region (h : t.Supplies token) (hplaced : t.cursor.Placed) :
    token.span.Of t.cursor.input := by
  obtain ⟨u, hu, hpeek⟩ := h
  have hin : Context.InPlace t.cursor.input ⟨u, .forgetful⟩ := hu.inPlace hplaced
  have hnested : (Result.ofToken token : Result Unit).Nested t.cursor.input := hin.nested hpeek
  exact hnested.region

/-- A run that makes results goes on behind its result. -/
theorem ParseM.Makes.andThen {x : ParseM (Result V)} {ok : Result V → Context → Prop}
    (hx : x.Makes t form) (hc : t.LeadsTo c.tokenizer)
    (hok : ∀ r d, t.LeadsTo d.tokenizer → r.Fits t.cursor.input form → ok r d) :
    x.Ends c ok fun failure _ => failure.Proper t.cursor.input :=
  (hx c hc).imp fun r d hd => hok r d hd.1 hd.2

/-! ## Tokens -/

/-- The token at the cursor can be rejected where something plain is expected. -/
theorem unexpected_proper {what : String} {ok : α → Context → Prop} (hplain : PlainName what)
    (hplaced : t.cursor.Placed) (h : t.Supplies token) :
    (unexpected what token : ParseM α).Ends c ok
      fun failure _ => failure.Proper t.cursor.input :=
  .reject (.rejected ⟨h.region hplaced, unconfused_unexpected hplain token⟩)

theorem expectToken_makes {type : TokenType} (hplain : PlainName type) (hplaced : t.cursor.Placed) :
    (expectToken type : ParseM (Result V)).Makes t .token := by
  intro c hc
  refine .bind (.peeking (fun token hpeek => ?_) fun fault => .fault fault)
  have hsupplied : t.Supplies token := ⟨_, hc, hpeek⟩
  cases his : token.is type with
  | true =>
    refine .bind (.committing (fun tokenizer hm => ?_) fun fault => .fault fault)
    exact .pure ⟨hc.commit hm (Token.kind_of_is his), hsupplied.region hplaced, .token⟩
  | false => exact unexpected_proper hplain hplaced hsupplied

theorem expectEnd_makes (hplaced : t.cursor.Placed) :
    (expectEnd : ParseM (Result V)).Makes t .token := by
  intro c hc
  refine .bind (.peeking (fun token hpeek => ?_) fun fault => .fault fault)
  have hsupplied : t.Supplies token := ⟨_, hc, hpeek⟩
  cases token.isEndOfInput with
  | true => exact .pure ⟨hc, hsupplied.region hplaced, .token⟩
  | false => exact unexpected_proper (by decide) hplaced hsupplied

/-! ## Sequences -/

/-- The forms of the elements that a sequence keeps, by the forms of its members. -/
def keptForms : List (Member P) → List (Result.Form V) → List (Result.Form V)
  | m :: parts, form :: forms =>
    match m.mark with
    | .element => form :: keptForms parts forms
    | .skip => keptForms parts forms
  | _, _ => []

variable {run : P → ParseM (Result V)} {parts : List (Member P)} {forms : List (Result.Form V)}

/-- The region covered so far, extended by one of the input, is one of the input. -/
theorem extend_of {covered : Option Span} {next : Span} {ok : Span → Context → Prop} {input : Text}
    (hcovered : ∀ span ∈ covered, span.Of input) (hnext : next.Of input)
    (hok : ∀ span, span.Of input → ok span c) :
    (extend covered next).Ends c ok fun failure _ => failure.Proper input := by
  cases covered with
  | none => exact .pure (hok next hnext)
  | some span =>
    refine .trusting (fun cover hcover => hok cover ?_) fun fault => .fault fault
    exact (hcovered span rfl).cover hnext hcover

theorem members_make (hrun : List.Forall₂ (fun m form => (run m.parser).Makes t form) parts forms)
    {covered : Option Span} (hcovered : ∀ span ∈ covered, span.Of t.cursor.input)
    (hc : t.LeadsTo c.tokenizer) :
    (members run parts covered).Ends c
      (fun r d => t.LeadsTo d.tokenizer ∧
        List.Forall₂ Result.HasForm r.1 (keptForms parts forms) ∧
        ∀ span ∈ r.2, span.Of t.cursor.input)
      fun failure _ => failure.Proper t.cursor.input := by
  induction hrun generalizing covered c with
  | nil => exact .pure ⟨hc, .nil, hcovered⟩
  | @cons m form parts forms hfirst _ ih =>
    refine .bind (hfirst.andThen hc fun r d hd hr => .bind ?_)
    refine extend_of hcovered hr.region fun cover hcover => .bind ?_
    have hnext : ∀ span ∈ some cover, span.Of t.cursor.input := by
      rintro _ ⟨⟩
      exact hcover
    refine (ih hnext hd).imp fun rest e he => ?_
    obtain ⟨he, hforms, hrest⟩ := he
    unfold keptForms
    cases m.mark with
    | element => exact .pure ⟨he, .cons hr.form hforms, hrest⟩
    | skip => exact .pure ⟨he, hforms, hrest⟩

/-- The members of a sequence that begins at the cursor stand for a region of the input. -/
theorem members_make_region
    (hrun : List.Forall₂ (fun m form => (run m.parser).Makes t form) parts forms)
    (hplaced : t.cursor.Placed) (hc : t.LeadsTo c.tokenizer) :
    (members run parts none).Ends c
      (fun r d => t.LeadsTo d.tokenizer ∧
        List.Forall₂ Result.HasForm r.1 (keptForms parts forms) ∧
        (r.2.getD (.empty c.tokenizer.position)).Of t.cursor.input)
      fun failure _ => failure.Proper t.cursor.input := by
  have hnone : ∀ span ∈ (none : Option Span), span.Of t.cursor.input := fun _ h => nomatch h
  refine (members_make hrun hnone hc).imp fun r d hd => ⟨hd.1, hd.2.1, ?_⟩
  cases hcovered : r.2 with
  | none => exact .empty (hc.position_of hplaced)
  | some span => exact hd.2.2 span hcovered

/-- A sequence makes what its action gives for elements of the kept forms. -/
theorem sequence_makes (hrun : List.Forall₂ (fun m form => (run m.parser).Makes t form) parts forms)
    (hplaced : t.cursor.Placed) {action : TupleAction V} {holds : V → Prop}
    (haction : ∀ elements span, List.Forall₂ Result.HasForm elements (keptForms parts forms) →
      span.Of t.cursor.input → (action elements span).Meets t.cursor.input holds) :
    (sequence run parts (some action)).Makes t (.value holds) := by
  intro c hc
  refine .bind (.position (.bind ((members_make_region hrun hplaced hc).imp fun r d hd => ?_)))
  obtain ⟨hd, hforms, hspan⟩ := hd
  refine .bind ((haction _ _ hforms hspan).perform fun v hv => ?_)
  exact .pure ⟨hd, hspan, .value hv⟩

/-- A sequence without action makes a list. -/
theorem sequence_makes_list
    (hrun : List.Forall₂ (fun m form => (run m.parser).Makes t form) parts forms)
    (hplaced : t.cursor.Placed) : (sequence run parts none).Makes t .list := by
  intro c hc
  refine .bind (.position (.bind ((members_make_region hrun hplaced hc).imp fun r d hd => ?_)))
  exact .pure ⟨hd.1, hd.2.2, .list⟩

/-! ## Repetitions -/

variable {body : ParseM (Result V)}

/-- The rounds of a repetition stand for regions of the input, and the error in front of which they
stop is proper. -/
theorem repetitions_make (hbody : body.Makes t form) (hadvances : body.Advances) (n : Nat)
    (hc : t.LeadsTo c.tokenizer) :
    (repetitions body n).Ends c
      (fun r d => t.LeadsTo d.tokenizer ∧ (∀ item ∈ r.1, item.span.Of t.cursor.input) ∧
        ∀ e ∈ r.2, e.Proper t.cursor.input)
      fun failure _ => failure.Proper t.cursor.input := by
  induction n generalizing c with
  | zero => exact .throw .exhausted
  | succ n ih =>
    refine .bind (.position (.bind (.attempt ?_)))
    refine (hbody c hc).ran.mono (fun r d hd => ?_) fun failure d hfailure => ?_
    · obtain ⟨-, hd, hr⟩ := hd
      refine .bind (.position ?_)
      dsimp only
      split
      · exact .pure ⟨hd, List.forall_mem_singleton.2 hr.region, fun _ h => nomatch h⟩
      · refine .bind ((ih hd).imp fun rounds e he => ?_)
        exact .pure ⟨he.1, List.forall_mem_cons.2 ⟨hr.region, he.2.1⟩, he.2.2⟩
    · obtain ⟨hround, hproper⟩ := hfailure
      cases failure with
      | rejected error =>
        refine .bind (.position ?_)
        dsimp only
        split
        · refine .pure ⟨hc.trans (hadvances.leadsTo hround), List.forall_mem_nil _, ?_⟩
          rintro _ ⟨⟩
          exact hproper error rfl
        · exact .throw hproper
      | fault | exhausted => exact hproper

/-- A repetition makes a list. -/
theorem repetition_makes (hbody : body.Makes t form) (hadvances : body.Advances)
    (hplaced : t.cursor.Placed) (minimum : Nat) : (repetition body minimum).Makes t .list := by
  intro c hc
  refine .bind (.position (.bind (.unread (.bind ?_))))
  refine (repetitions_make hbody hadvances _ hc).imp fun rounds d hd => ?_
  obtain ⟨items, reason⟩ := rounds
  obtain ⟨hd, hitems, hreason⟩ := hd
  refine .bind (.note ?_)
  by_cases hfew : items.length < minimum
  · dsimp only
    rw [if_pos hfew]
    cases reason with
    | some e =>
      refine .reject (.rejected ⟨(hreason e rfl).region, ?_⟩)
      simp only [String.append_assoc]
      exact unconfused_few _
    | none =>
      refine .bind (.position (.reject (.rejected ⟨.empty (hd.position_of hplaced), ?_⟩)))
      simp only [String.append_assoc]
      exact unconfused_few _
  · dsimp only
    rw [if_neg hfew]
    refine .bind (.trusting (fun span hspan => ?_) fun fault => .fault fault)
    exact .pure ⟨hd, .coverAll (hc.position_of hplaced) hitems hspan, .list⟩

/-! ## Choices -/

/-- A choice makes what its alternatives do. -/
theorem choice_makes {g : Grammar V} {slot : Nat} {alternatives : List (Parser V)}
    {run : Parser V → ParseM (Result V)} (hplaced : t.cursor.Placed)
    (hrun : ∀ q ∈ alternatives, (run q).Makes t form) :
    (chooseAlternative g run slot alternatives).Makes t form := by
  intro c hc
  refine choice_ends (fun fault _ => .fault fault) (predict_ends fun _ => .fault _)
    (fun q hq event d _ hd => hrun q hq _ ?_) fun token d hpeek _ => ?_
  · show t.LeadsTo d.tokenizer
    rwa [hd]
  · have hsupplied : t.Supplies token := ⟨_, hc, hpeek⟩
    refine .rejected ⟨hsupplied.region hplaced, ?_⟩
    rw [String.append_assoc]
    exact unconfused_unselected _

end

end PredictiveParsing
