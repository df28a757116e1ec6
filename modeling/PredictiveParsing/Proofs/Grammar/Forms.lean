import PredictiveParsing.Proofs.Expression.Forms
import PredictiveParsing.Proofs.Grammar.Safety
import PredictiveParsing.Proofs.Grammar.Terminating

/-!
# Forms of grammars

`Parser.Makes` gives a parser the form of its results, by rules that follow the combinators and
under an assignment of forms to the names of rules. It takes from actions that they serve, and what
they give for arguments of the forms that the combinators hand them. If every rule makes what is
assigned to its name (`Grammar.Makes`), then a run makes what its parser does, at every depth
(`Parser.Makes.runWithin`), and all actions that are reached serve (`Parser.Makes.serve`).

So a valid grammar that moves on and whose parsers have forms answers every input: with a result of
the form of its entry, or with an error that stands for a region of the input and is no confusion of
an action (`Grammar.Makes.parseText`).
-/

namespace PredictiveParsing

open ParseM

variable {V : Type}

/-- The answer is no fault. -/
def Answer.Faultless {α : Type} (answer : Answer α) : Prop :=
  ∀ fault, answer ≠ .error (.fault fault)

namespace Answer.Faultless

variable {α β : Type}

theorem ok (a : α) : Answer.Faultless (.ok a) := fun _ => nofun

theorem reject (message : String) (span : Span) :
    (Answer.reject message span : Answer α).Faultless := fun _ => nofun

/-- What is demanded may be missing, but not by a fault. -/
theorem ofDemand (x : Except ParseError α) : (Answer.ofDemand x).Faultless := by
  cases x <;> exact fun _ => nofun

theorem bind {answer : Answer α} {f : α → Answer β} (h : answer.Faultless)
    (hf : ∀ a, (f a).Faultless) : (answer >>= f).Faultless := by
  intro fault heq
  rcases bind_eq_error heq with hfault | ⟨a, -, hfault⟩
  · exact h fault hfault
  · exact hf a fault hfault

end Answer.Faultless

/-- Where rules make results of the forms that are assigned to them, the parser makes results of the
form. -/
inductive Parser.Makes (t : Tokenizer) (rules : String → Result.Form V) :
    Parser V → Result.Form V → Prop
  | token {type : TokenType} (plain : PlainName type) : Makes t rules (.token type) .token
  | endOfInput : Makes t rules .endOfInput .token
  | tuple {members : List (Member (Parser V))} {action : TupleAction V} {holds : V → Prop}
      (forms : List (Result.Form V)) (length : members.length = forms.length)
      (parts : ∀ part ∈ members.zip forms, Makes t rules part.1.parser part.2)
      (serves : ∀ elements span, elements.length = keptCount members →
        (action elements span).Faultless)
      (meets : ∀ elements span, List.Forall₂ Result.HasForm elements (keptForms members forms) →
        span.Of t.cursor.input → (action elements span).Meets t.cursor.input holds) :
      Makes t rules (.tuple members (some action)) (.value holds)
  | list {members : List (Member (Parser V))} (forms : List (Result.Form V))
      (length : members.length = forms.length)
      (parts : ∀ part ∈ members.zip forms, Makes t rules part.1.parser part.2) :
      Makes t rules (.tuple members none) .list
  | choice {slot : Nat} {alternatives : List (Parser V)} {form : Result.Form V}
      (parts : ∀ q ∈ alternatives, Makes t rules q form) :
      Makes t rules (.choice slot alternatives) form
  | many {body : Parser V} {minimum : Nat} {form : Result.Form V}
      (round : Makes t rules body form) : Makes t rules (.many body minimum) .list
  | embed {body : Parser V} {form : Result.Form V} (part : Makes t rules body form) :
      Makes t rules (.embed body) form
  | expr {o : Operators V (Parser V)} {form : Result.Form V}
      (keep : ∀ entry ∈ o.roles, entry.2.Keeps)
      (roles : ∀ entry ∈ o.roles, entry.2.Makes t form entry.1)
      (embedded : ∀ key q, (key, Role.embed q) ∈ o.roles → Makes t rules q form) :
      Makes t rules (.expr o) form
  | ref (name : String) : Makes t rules (.ref name) (rules name)
  | widen {p : Parser V} {form form' : Result.Form V} (narrow : Makes t rules p form)
      (wider : ∀ r : Result V, r.HasForm form → r.HasForm form') : Makes t rules p form'

/-- Every rule makes results of the form that is assigned to it. -/
def Grammar.Makes (g : Grammar V) (t : Tokenizer) (rules : String → Result.Form V) : Prop :=
  ∀ rule ∈ g.rules, rule.2.Makes t rules (rules rule.1)

variable {g : Grammar V} {t : Tokenizer} {rules : String → Result.Form V} {p q : Parser V}
  {form : Result.Form V}

theorem Grammar.Makes.rule (hg : g.Makes t rules) {name : String} (h : g.rule? name = some p) :
    p.Makes t rules (rules name) :=
  hg (name, p) (mem_rules_of_rule? h)

theorem Grammar.Makes.empty : Grammar.empty.Makes t rules := List.forall_mem_nil _

/-- A rule that is registered makes results of the form that is assigned to its name. -/
theorem Grammar.Makes.register (hg : g.Makes t rules) {name : String}
    (hp : p.Makes t rules (rules name)) : (g.register name p).Makes t rules := by
  intro rule hmem
  rcases mem_setRule hmem with hmem | rfl
  · exact hg rule hmem
  · exact hp

theorem Grammar.Makes.withEntry (hg : g.Makes t rules) (entry : Parser V) :
    (g.withEntry entry).Makes t rules := hg

theorem length_keptForms {members : List (Member (Parser V))} {forms : List (Result.Form V)}
    (h : members.length = forms.length) : (keptForms members forms).length = keptCount members := by
  induction members generalizing forms with
  | nil => cases forms <;> rfl
  | cons m members ih =>
    cases forms with
    | nil => cases h
    | cons form forms =>
      have hrest := ih (Nat.succ.inj h)
      unfold keptForms
      cases hmark : m.mark with
      | element => simp [keptCount, hmark, hrest]
      | skip => simp [keptCount, hmark, hrest]

namespace Parser.Makes

variable {members : List (Member (Parser V))} {action : TupleAction V} {holds : V → Prop}

/-- A sequence whose action demands the value of its only element makes this value. -/
theorem single (forms : List (Result.Form V)) (hlength : members.length = forms.length)
    (hparts : ∀ part ∈ members.zip forms, Makes t rules part.1.parser part.2)
    (hkept : keptForms members forms = [.value holds])
    (haction : ∀ r span, action [r] span = r.demandValue) :
    Makes t rules (.tuple members (some action)) (.value holds) := by
  refine .tuple forms hlength hparts (fun elements span hcount => ?_)
    fun elements span helements _ => ?_
  · rw [← length_keptForms hlength, hkept] at hcount
    obtain ⟨r, rfl⟩ := List.length_eq_one_iff.1 hcount
    rw [haction]
    exact .ofDemand _
  · rw [hkept] at helements
    cases helements with
    | cons hvalue hrest =>
      cases hrest
      rw [haction]
      exact .demandValue hvalue fun _ h => h

/-- A sequence of two elements makes what its action gives for them. -/
theorem pair {form₁ form₂ : Result.Form V} (forms : List (Result.Form V))
    (hlength : members.length = forms.length)
    (hparts : ∀ part ∈ members.zip forms, Makes t rules part.1.parser part.2)
    (hkept : keptForms members forms = [form₁, form₂])
    (hserves : ∀ a b span, (action [a, b] span).Faultless)
    (hmeets : ∀ a b span, a.HasForm form₁ → b.HasForm form₂ →
      (action [a, b] span).Meets t.cursor.input holds) :
    Makes t rules (.tuple members (some action)) (.value holds) := by
  refine .tuple forms hlength hparts (fun elements span hcount => ?_)
    fun elements span helements _ => ?_
  · rw [← length_keptForms hlength, hkept] at hcount
    obtain ⟨a, b, rfl⟩ := List.length_eq_two.1 hcount
    exact hserves a b span
  · rw [hkept] at helements
    cases helements with
    | cons ha hrest =>
      cases hrest with
      | cons hb hnil =>
        cases hnil
        exact hmeets _ _ span ha hb

end Parser.Makes

/-! ## Runs -/

/-- Less can be claimed of what is made. -/
theorem ParseM.Makes.widen {x : ParseM (Result V)} {form' : Result.Form V} (hx : x.Makes t form)
    (hwider : ∀ r : Result V, r.HasForm form → r.HasForm form') : x.Makes t form' :=
  fun _ hc => hx.andThen hc fun r _ hd hr => ⟨hd, hr.region, hwider r hr.form⟩

/-- A combinator makes results of its form if what is below it does. -/
theorem Parser.Makes.top {run : Parser V → ParseM (Result V)} (hg : g.Makes t rules)
    (hplaced : t.cursor.Placed) (hadvances : ∀ q, (run q).Advances)
    (hrun : ∀ q form, q.Makes t rules form → (run q).Makes t form) (hp : p.Makes t rules form) :
    (p.top g run).Makes t form := by
  have parts_make {members : List (Member (Parser V))} {forms : List (Result.Form V)}
      (hlength : members.length = forms.length)
      (hparts : ∀ part ∈ members.zip forms, part.1.parser.Makes t rules part.2) :
      List.Forall₂ (fun m form => (run m.parser).Makes t form) members forms :=
    List.forall₂_iff_zip.2 ⟨hlength, fun hmem => hrun _ _ (hparts _ hmem)⟩
  induction hp with
  | token hplain => exact expectToken_makes hplain hplaced
  | endOfInput => exact expectEnd_makes hplaced
  | tuple forms hlength hparts _ hmeets _ =>
    exact sequence_makes (parts_make hlength hparts) hplaced hmeets
  | list forms hlength hparts _ => exact sequence_makes_list (parts_make hlength hparts) hplaced
  | choice hparts _ => exact choice_makes hplaced fun q hq => hrun q _ (hparts q hq)
  | many hround _ => exact repetition_makes (hrun _ _ hround) (hadvances _) hplaced _
  | embed hpart _ => exact hrun _ _ hpart
  | expr _ hroles hembedded _ =>
    refine Operators.expression_makes ⟨fun type role h => ?_, fun type q h => ?_⟩ hplaced
    · exact hroles _ (Operators.mem_of_role? h)
    · exact hrun q _ (hembedded type q (Operators.mem_of_role? h))
  | ref name =>
    intro c hc
    refine .bind (.trusting (fun r hr => ?_) fun fault => .fault fault)
    exact hrun r _ (hg.rule (Grammar.rule?_of_resolve hr)) c hc
  | widen _ hwider ih => exact ih.widen hwider

/-- At every depth a parser that makes results of a form is run so. -/
theorem Parser.Makes.runWithin (hg : g.Makes t rules) (hplaced : t.cursor.Placed) (depth : Nat)
    (hp : p.Makes t rules form) : (p.runWithin g depth).Makes t form := by
  induction depth generalizing p form with
  | zero => exact fun _ _ => .throw .exhausted
  | succ depth ih =>
    rw [runWithin_succ]
    exact hp.top hg hplaced (runWithin_advances g depth) fun _ _ => ih

/-- Parsing makes results of the form of the entry. -/
theorem Grammar.Makes.parse {entry : Parser V} (hg : g.Makes t rules) (hplaced : t.cursor.Placed)
    (hentry : g.entry? = some entry) (hmakes : entry.Makes t rules form) :
    g.parse.Makes t form := by
  intro c hc
  refine parse_ends hentry (.bind (.unread ?_)) (fun _ _ h => h) fun _ _ h => h
  exact hmakes.runWithin hg hplaced _ (entered entry c) hc

/-! ## Actions -/

/-- What is below a parser that has a form has one. -/
theorem Parser.Makes.child (hp : p.Makes t rules form) (hq : Parser.Child q p) :
    ∃ form', q.Makes t rules form' := by
  have member_makes {members : List (Member (Parser V))} {forms : List (Result.Form V)}
      {m : Member (Parser V)} (hlength : members.length = forms.length)
      (hparts : ∀ part ∈ members.zip forms, part.1.parser.Makes t rules part.2)
      (hm : m ∈ members) : ∃ form', m.parser.Makes t rules form' := by
    obtain ⟨i, hi, rfl⟩ := List.getElem_of_mem hm
    have hzip : i < (members.zip forms).length := by
      rwa [List.length_zip, ← hlength, Nat.min_self]
    have hpart := hparts _ (List.getElem_mem hzip)
    rw [List.getElem_zip] at hpart
    exact ⟨_, hpart⟩
  induction hp with
  | token | endOfInput | ref => cases hq
  | tuple _ hlength hparts _ _ _ | list _ hlength hparts _ =>
    cases hq with
    | member hm => exact member_makes hlength hparts hm
  | choice hparts _ =>
    cases hq with
    | alternative hmem => exact ⟨_, hparts _ hmem⟩
  | many hround _ =>
    cases hq
    exact ⟨_, hround⟩
  | embed hpart _ =>
    cases hq
    exact ⟨_, hpart⟩
  | expr _ _ hembedded _ =>
    cases hq with
    | role hmem => exact ⟨_, hembedded _ _ hmem⟩
  | widen _ _ ih => exact ih hq

theorem Parser.Makes.reaches (hg : g.Makes t rules) (hp : p.Makes t rules form)
    (hq : g.Reaches p q) : ∃ form', q.Makes t rules form' := by
  induction hq with
  | refl => exact ⟨form, hp⟩
  | child _ hpart ih =>
    obtain ⟨_, hmakes⟩ := ih
    exact hmakes.child hpart
  | rule _ hregistered _ => exact ⟨_, hg.rule hregistered⟩

/-- The actions below a parser that has a form serve. -/
theorem Parser.Makes.serve (hg : g.Makes t rules) (hp : p.Makes t rules form) :
    g.ActionsServe p := by
  refine ⟨fun members action hq => ?_, fun o hq => ?_⟩
  · obtain ⟨_, hmakes⟩ := hp.reaches hg hq
    generalize hsame : Parser.tuple members (some action) = q at hmakes
    induction hmakes with
    | tuple _ _ _ hserves _ _ =>
      cases hsame
      exact fun elements span fault hlength => hserves elements span hlength fault
    | widen _ _ ih => exact ih hsame
    | token | endOfInput | list | choice | many | embed | expr | ref => cases hsame
  · obtain ⟨_, hmakes⟩ := hp.reaches hg hq
    generalize hsame : Parser.expr o = q at hmakes
    induction hmakes with
    | expr hkeep _ _ _ =>
      cases hsame
      exact fun type role h => hkeep _ (Operators.mem_of_role? h)
    | widen _ _ ih => exact ih hsame
    | token | endOfInput | tuple | list | choice | many | embed | ref => cases hsame

/-! ## Grammars that answer -/

/-- A valid grammar that moves on and whose actions serve answers every input, with a result or with
an error. -/
theorem Grammar.parseText_answers {entry : Parser V} {input : Text} (hvalid : g.validate = .ok ())
    (hentry : g.entry? = some entry) (hmoves : g.MovesOn entry) (hactions : g.ActionsServe entry)
    (t : Tokenizer) (hinput : input.byteLength ≤ largestInput) :
    (∃ r, (g.parseText t input).1 = .ok r) ∨
      ∃ e, (g.parseText t input).1 = .error (.rejected e) := by
  obtain ⟨_, hentry', hchecked⟩ := checked_of_validate hvalid
  cases hentry.symm.trans hentry'
  have hsafe (depth : Nat) : Safe g entry input True (entry.runWithin g depth) :=
    Parser.runWithin_safe hchecked hactions depth .refl
  have hready : Ready g entry input ⟨t.withInput input, .forgetful⟩ := .start hinput .forgetful
  have hhalts : g.parse.Answers ⟨t.withInput input, .forgetful⟩ :=
    Grammar.parse_answers hentry hchecked hmoves .forgetful
  have hfaultless (fault : Fault) : (g.parseText t input).1 ≠ .error (.fault fault) :=
    (Grammar.parse_safe hentry hsafe hready).ne_error fun _ he => he fault rfl
  cases hparse : (g.parseText t input).1 with
  | ok r => exact .inl ⟨r, rfl⟩
  | error failure =>
    cases failure with
    | rejected e => exact .inr ⟨e, rfl⟩
    | fault fault => exact absurd hparse (hfaultless fault)
    | exhausted => exact absurd hparse hhalts

/-- A valid grammar that moves on and whose parsers have forms answers every input: with a result of
the form of its entry, or with a proper error. -/
theorem Grammar.Makes.parseText {entry : Parser V} {input : Text} (hvalid : g.validate = .ok ())
    (hentry : g.entry? = some entry) (hmoves : g.MovesOn entry)
    (hg : g.Makes (t.withInput input) rules) (hmakes : entry.Makes (t.withInput input) rules form)
    (hinput : input.byteLength ≤ largestInput) :
    (∃ r, (g.parseText t input).1 = .ok r ∧ r.Fits input form) ∨
      ∃ e, (g.parseText t input).1 = .error (.rejected e) ∧ e.Proper input := by
  have hanswers := g.parseText_answers hvalid hentry hmoves (hmakes.serve hg) t hinput
  have hends := hg.parse (.ofInput hinput) hentry hmakes ⟨t.withInput input, .forgetful⟩ (.refl _)
  rcases hends.cases with ⟨r, d, hparse, -, hr⟩ | ⟨failure, d, hparse, hproper⟩
  · exact .inl ⟨r, congrArg Prod.fst hparse, hr⟩
  · have hfailure : (g.parseText t input).1 = .error failure := congrArg Prod.fst hparse
    rcases hanswers with ⟨r, hr⟩ | ⟨e, he⟩
    · cases hfailure.symm.trans hr
    · cases hfailure.symm.trans he
      exact .inr ⟨e, hfailure, hproper e rfl⟩

end PredictiveParsing
