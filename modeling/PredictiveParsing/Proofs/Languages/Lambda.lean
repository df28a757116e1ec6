import PredictiveParsing.Languages.Lambda
import PredictiveParsing.Proofs.Grammar.Deciding

/-!
# The language of lambda terms

`Term.Derives` is the grammar of lambda terms over their tokens, without blanks: an expression is a
variable with its type, an application between parentheses or an abstraction. Of the same tokens at
most one beginning derives a term, and this term is known (`Derives.det`).

Each rule of `Lambda.grammar` decides what it is to read, by recursion on the number of tokens ahead
(`expr_decides`); what is read are the derivations of one form of terms. So `Lambda.parse` answers
the term that the tokens of its input derive, for the whole input, and it rejects an input whose
tokens derive none (`parse_iff_derives_term`).
-/

namespace PredictiveParsing.Lambda

open ParseM Stage

/-! ## Derivations -/

/-- The tokens, blanks left out, derive the term. -/
inductive Term.Derives : Term → List Token → Prop
  | var {name column type : Token} (name_is : name.is "identifier" = true)
      (column_is : column.is "column" = true) (type_is : type.is "identifier" = true) :
      Derives (.var name.text type.text) [name, column, type]
  | app {opening closing : Token} {f a : Term} {fs as : List Token}
      (opening_is : opening.is "lparen" = true) (function : Derives f fs) (argument : Derives a as)
      (closing_is : closing.is "rparen" = true) :
      Derives (.app f a) (opening :: (fs ++ (as ++ [closing])))
  | lam {lambda name column type dot : Token} {body : Term} {bs : List Token}
      (lambda_is : lambda.is "lambda" = true) (name_is : name.is "identifier" = true)
      (column_is : column.is "column" = true) (type_is : type.is "identifier" = true)
      (dot_is : dot.is "dot" = true) (rest : Derives body bs) :
      Derives (.lam name.text type.text body) (lambda :: name :: column :: type :: dot :: bs)

/-- The forms of terms. -/
inductive Term.Form
  | var
  | app
  | lam
deriving DecidableEq

namespace Term

/-- The form of a term. -/
def form : Term → Form
  | var .. => .var
  | app .. => .app
  | lam .. => .lam

/-- The type of the first token of a term of the form. -/
def Form.leading : Form → TokenType
  | var => "identifier"
  | app => "lparen"
  | lam => "lambda"

variable {t t' : Term} {ts ts' rest rest' : List Token}

/-- The first token of a term tells its form. -/
theorem Derives.begins (h : t.Derives ts) :
    ∃ token rest, ts = token :: rest ∧ token.is t.form.leading = true := by
  cases h with
  | var hname => exact ⟨_, _, rfl, hname⟩
  | app hopening => exact ⟨_, _, rfl, hopening⟩
  | lam hlambda => exact ⟨_, _, rfl, hlambda⟩

theorem Derives.form_det (h : t.Derives ts) (h' : t'.Derives ts')
    (hsame : ts ++ rest = ts' ++ rest') : t.form = t'.form := by
  obtain ⟨token, _, rfl, hr⟩ := h.begins
  obtain ⟨token', _, rfl, hr'⟩ := h'.begins
  obtain rfl : token = token' := (List.cons.inj hsame).1
  have hleading : t.form.leading = t'.form.leading :=
    (Token.type_of_is hr).symm.trans (Token.type_of_is hr')
  revert hleading
  cases t.form <;> cases t'.form <;> simp [Form.leading]

/-- Of the same tokens at most one beginning derives a term, and only one term. -/
theorem Derives.det (h : t.Derives ts) (h' : t'.Derives ts') (hsame : ts ++ rest = ts' ++ rest') :
    t = t' ∧ ts = ts' := by
  induction h generalizing t' ts' rest rest' with
  | var hname hcolumn htype =>
    have hform := (Derives.var hname hcolumn htype).form_det h' hsame
    cases h' with
    | var => cases hsame; exact ⟨rfl, rfl⟩
    | app | lam => cases hform
  | app hopening hf ha hclosing ihf iha =>
    have hform := (Derives.app hopening hf ha hclosing).form_det h' hsame
    cases h' with
    | app _ hf ha _ =>
      simp only [List.cons_append, List.append_assoc, List.cons.injEq] at hsame
      obtain ⟨rfl, hsame⟩ := hsame
      obtain ⟨rfl, rfl⟩ := ihf hf hsame
      obtain ⟨rfl, rfl⟩ := iha ha (List.append_cancel_left hsame)
      have hlast := List.append_cancel_left (List.append_cancel_left hsame)
      cases hlast
      exact ⟨rfl, rfl⟩
    | var | lam => cases hform
  | lam hlambda hname hcolumn htype hdot hbody ih =>
    have hform := (Derives.lam hlambda hname hcolumn htype hdot hbody).form_det h' hsame
    cases h' with
    | lam _ _ _ _ _ hbody =>
      simp only [List.cons_append, List.cons.injEq] at hsame
      obtain ⟨rfl, rfl, rfl, rfl, rfl, hsame⟩ := hsame
      obtain ⟨rfl, rfl⟩ := ih hbody hsame
      exact ⟨rfl, rfl⟩
    | var | app => cases hform

end Term

/-! ## Readings -/

/-- Reads a term of one of the forms. -/
def term (forms : Term.Form → Prop) : Reading (Result Term) :=
  fun front _ r => ∃ t span, r = .value t span ∧ forms t.form ∧ t.Derives front

/-- Reads a term. -/
def anyTerm : Reading (Result Term) := term fun _ => True

theorem definite_term (forms : Term.Form → Prop) : (term forms).Definite := by
  rintro _ _ _ _ _ _ ⟨t, _, rfl, -, ht⟩ ⟨t', _, rfl, -, ht'⟩ hsame
  exact (ht.det ht' hsame).2

/-- What a term in front of other parts reads. -/
theorem andThen_term {forms : Term.Form → Prop} {mark : Mark} {L : Reading (List (Result Term))}
    {front back : List Token} {results : List (Result Term)} :
    ((term forms).andThen mark L) front back results ↔
      ∃ t span first rest others, front = first ++ rest ∧ forms t.form ∧ t.Derives first ∧
        results = mark.keep (.value t span) others ∧ L rest back others := by
  constructor
  · rintro ⟨first, rest, _, others, hfront, ⟨t, span, rfl, hform, ht⟩, hresults, hL⟩
    exact ⟨t, span, first, rest, others, hfront, hform, ht, hresults, hL⟩
  · rintro ⟨t, span, first, rest, others, hfront, hform, ht, hresults, hL⟩
    exact ⟨first, rest, _, others, hfront, ⟨t, span, rfl, hform, ht⟩, hresults, hL⟩

/-! ## Rules -/

/-- The parser that `grammar` starts from. -/
def entry : Parser Term :=
  .tuple [.skip (.ref "spaces"), .element (.ref "expr"), .skip (.ref "spaces"), .skip .endOfInput]
    (some wholeTerm)

/-- The parser of expressions. -/
def alternatives : List (Parser Term) := [.ref "ref", .ref "app", .ref "lam"]

/-- Terms run over an input in which spaces are blanks. -/
def stage (input : Text) : Stage Term := ⟨grammar, entry, input, Operators.empty.skipping "space"⟩

variable {input : Text} {n depth : Nat}

theorem reaches_expr : grammar.Reaches entry (.choice 0 alternatives) :=
  .rule (.child .refl (.member (m := .element (.ref "expr")) (.tail _ (.head _)))) rfl

/-- One token of a type, by the rule of the same name. -/
theorem tokenRule_decides (name : TokenType)
    (hrule : grammar.resolve name = .ok (.token name)) :
    (stage input).Decides n (.token name) ((Parser.ref name).runWithin grammar (depth + 2)) :=
  decides_ref hrule (decides_token name)

/-- The blanks are the spaces. -/
theorem skips_eq (token : Token) : (stage input).table.skips token = token.is "space" :=
  (Operators.skips_eq_any _ token).trans (Bool.or_false _)

theorem spaces_clears :
    (stage input).Clears ((Parser.ref "spaces").runWithin grammar (depth + 3)) :=
  clears_ref (q := .many (.token "space") 0) rfl (Skims.clears (skims_token skips_eq))

/-- The rule of variables reads a name, a column and a type. -/
theorem ref_decides :
    (stage input).Decides (n + 1) (term (· = .var))
      ((Parser.ref "ref").runWithin grammar (depth + 5)) := by
  refine decides_ref rfl (decides_sequence (tokenRule_decides "identifier" rfl)
    (Reading.definite_token _) (fun _ _ h => by obtain ⟨_, h, -⟩ := h; cases h)
    (continues_cons spaces_clears rfl (tokenRule_decides "column" rfl) (Reading.definite_token _)
      (continues_cons spaces_clears rfl (tokenRule_decides "identifier" rfl)
        (Reading.definite_token _) continues_nil)) ?_ ?_)
  · simp only [Reading.andThen_token, Reading.nothing]
    rintro _ back _ span ⟨name, _, _, rfl, hname, rfl, column, _, _, rfl, hcolumn, rfl,
      type, _, _, rfl, htype, rfl, rfl, rfl⟩
    exact ⟨_, rfl, _, span, rfl, rfl, .var hname hcolumn htype⟩
  · rintro _ back _ ⟨t, span, rfl, hform, h⟩
    simp only [Reading.andThen_token, Reading.nothing]
    cases h with
    | var hname hcolumn htype =>
      exact ⟨_, _, _, _, rfl, hname, rfl, _, _, _, rfl, hcolumn, rfl, _, _, _, rfl, htype, rfl, rfl,
        rfl⟩
    | app | lam => cases hform

/-- The rule of applications reads two terms between parentheses. -/
theorem app_decides
    (hexpr : (stage input).Decides n anyTerm ((Parser.ref "expr").runWithin grammar (depth + 3))) :
    (stage input).Decides (n + 1) (term (· = .app))
      ((Parser.ref "app").runWithin grammar (depth + 5)) := by
  refine decides_ref rfl (decides_sequence (tokenRule_decides "lparen" rfl)
    (Reading.definite_token _) (fun _ _ h => by obtain ⟨_, h, -⟩ := h; cases h)
    (continues_cons spaces_clears rfl hexpr (definite_term _)
      (continues_cons spaces_clears rfl hexpr (definite_term _)
        (continues_cons spaces_clears rfl (tokenRule_decides "rparen" rfl)
          (Reading.definite_token _) continues_nil))) ?_ ?_)
  · simp only [Reading.andThen_token, andThen_term, anyTerm, Reading.nothing]
    rintro _ back _ span ⟨opening, _, _, rfl, hopening, rfl, f, _, fs, _, _, rfl, -, hf, rfl,
      a, _, as, _, _, rfl, -, ha, rfl, closing, _, _, rfl, hclosing, rfl, rfl, rfl⟩
    exact ⟨_, rfl, _, span, rfl, rfl, .app hopening hf ha hclosing⟩
  · rintro _ back _ ⟨t, span, rfl, hform, h⟩
    simp only [Reading.andThen_token, andThen_term, anyTerm, Reading.nothing]
    cases h with
    | app hopening hf ha hclosing =>
      exact ⟨_, _, _, _, rfl, hopening, rfl, _, span, _, _, _, rfl, trivial, hf, rfl, _, span, _, _,
        _, rfl, trivial, ha, rfl, _, _, _, rfl, hclosing, rfl, rfl, rfl⟩
    | var | lam => cases hform

/-- The rule of abstractions reads a variable with its type, and a body. -/
theorem lam_decides
    (hexpr : (stage input).Decides n anyTerm ((Parser.ref "expr").runWithin grammar (depth + 5))) :
    (stage input).Decides (n + 1) (term (· = .lam))
      ((Parser.ref "lam").runWithin grammar (depth + 7)) := by
  have hbinder : (stage input).Decides n (term (· = .var))
      ((Parser.ref "ref").runWithin grammar (depth + 5)) := by
    cases n with
    | zero => exact decides_zero
    | succ n => exact ref_decides
  refine decides_ref rfl (decides_sequence (tokenRule_decides "lambda" rfl)
    (Reading.definite_token _) (fun _ _ h => by obtain ⟨_, h, -⟩ := h; cases h)
    (continues_cons spaces_clears rfl hbinder (definite_term _)
      (continues_cons spaces_clears rfl (tokenRule_decides "dot" rfl) (Reading.definite_token _)
        (continues_cons spaces_clears rfl hexpr (definite_term _) continues_nil))) ?_ ?_)
  · simp only [Reading.andThen_token, andThen_term, anyTerm, Reading.nothing]
    rintro _ back _ span ⟨lambda, _, _, rfl, hlambda, rfl, binder, _, bs, _, _, rfl, hform, hbinder,
      rfl, dot, _, _, rfl, hdot, rfl, body, _, bs, _, _, rfl, -, hbody, rfl, rfl, rfl⟩
    cases hbinder with
    | var hname hcolumn htype =>
      rw [List.append_nil]
      exact ⟨_, rfl, _, span, rfl, rfl, .lam hlambda hname hcolumn htype hdot hbody⟩
    | app | lam => cases hform
  · rintro _ back _ ⟨t, span, rfl, hform, h⟩
    simp only [Reading.andThen_token, andThen_term, anyTerm, Reading.nothing]
    cases h with
    | lam hlambda hname hcolumn htype hdot hbody =>
      exact ⟨_, _, _, _, rfl, hlambda, rfl, _, span, _, _, _, rfl, rfl, .var hname hcolumn htype,
        rfl, _, _, _, rfl, hdot, rfl, _, span, _, _, _, (List.append_nil _).symm, trivial, hbody,
        rfl, rfl, rfl⟩
    | var | app => cases hform

/-- The alternatives of an expression, with the forms of terms that they read. -/
def options : List (Parser Term × Reading (Result Term)) :=
  [(.ref "ref", term (· = .var)), (.ref "app", term (· = .app)), (.ref "lam", term (· = .lam))]

theorem oneOf_options : Reading.oneOf options = anyTerm := by
  funext front back r
  refine propext ⟨?_, ?_⟩
  · rintro ⟨option, hoption, hread⟩
    simp only [options, List.mem_cons, List.not_mem_nil, or_false] at hoption
    rcases hoption with rfl | rfl | rfl
    all_goals
      obtain ⟨t, span, hr, -, ht⟩ := hread
      exact ⟨t, span, hr, trivial, ht⟩
  · rintro ⟨t, span, rfl, -, ht⟩
    cases hform : t.form with
    | var => exact ⟨_, .head _, t, span, rfl, hform, ht⟩
    | app => exact ⟨_, .tail _ (.head _), t, span, rfl, hform, ht⟩
    | lam => exact ⟨_, .tail _ (.tail _ (.head _)), t, span, rfl, hform, ht⟩

theorem first_alternatives :
    alternatives.mapM grammar.first =
      .ok [.single (.token "identifier"), .single (.token "lparen"), .single (.token "lambda")] :=
  rfl

/-- A term of one form begins with the token that leads it. -/
theorem begins_term (p : Parser Term) (form : Term.Form) :
    Begins (p, term (· = form)) (.single (.token form.leading)) := by
  refine ⟨rfl, ?_⟩
  rintro front back r ⟨t, span, rfl, rfl, ht⟩
  obtain ⟨token, rest, rfl, hr⟩ := ht.begins
  exact ⟨token, rest, rfl, by rw [FirstSet.accepts_single_token, hr]⟩

/-- The rule of expressions reads a term. Each level of terms takes a token, and nests four
parsers. -/
theorem expr_decides (hdepth : 4 * n + 5 ≤ depth) :
    (stage input).Decides n anyTerm ((Parser.ref "expr").runWithin grammar depth) := by
  induction n generalizing depth with
  | zero => exact decides_zero
  | succ n ih =>
    obtain ⟨depth, rfl⟩ : ∃ d, depth = d + 9 := ⟨depth - 9, by omega⟩
    have hexpr : (stage input).Decides n anyTerm
        ((Parser.ref "expr").runWithin grammar (depth + 5)) := ih (by omega)
    rw [← oneOf_options]
    refine decides_ref rfl (decides_choice reaches_expr first_alternatives ⟨by decide, by decide⟩
      (.cons (begins_term _ .var) (.cons (begins_term _ .app) (.cons (begins_term _ .lam) .nil)))
      fun option hoption => ?_)
    simp only [options, List.mem_cons, List.not_mem_nil, or_false] at hoption
    rcases hoption with rfl | rfl | rfl
    · exact ref_decides
    · exact app_decides hexpr
    · exact lam_decides hexpr

/-! ## Whole inputs -/

/-- The tokens without spaces. -/
def solid (tokens : List Token) : List Token := tokens.filter fun token => !token.is "space"

theorem filter_skips (tokens : List Token) :
    tokens.filter (fun token => !(stage input).table.skips token) = solid tokens :=
  List.filter_congr fun token _ => by rw [skips_eq]

/-- The result is a term that the tokens derive, for the whole input. -/
def Whole (input : Text) (tokens : List Token) (r : Result Term) : Prop :=
  ∃ t : Term, t.Derives tokens ∧ r = .value t ⟨.start, Position.start.after input⟩

/-- The entry reads one term over all tokens, from the start of the input to its end. -/
theorem entry_decides (c : Context) (tokens : List Token) (last : Token)
    (hc : c.tokenizer = tokenizer.withInput input)
    (hawaits : (stage input).Awaits c (tokens ++ [last]))
    (hothers : ∀ token ∈ tokens, token.isEndOfInput = false) (hlast : last.isEndOfInput = true) :
    (entry.run grammar).Ends c (fun r _ => Whole input tokens r)
      fun f _ => (∃ e, f = .rejected e) ∧ ∀ r, ¬ Whole input tokens r := by
  have hsize : 1 + 4 + 5 ≤ entry.size + grammar.size + 1 := by decide
  obtain ⟨depth, hdepth, henough⟩ : ∃ depth,
      entry.depthFor grammar c.tokenizer.cursor.rest.length = depth + 1 ∧
        4 * (tokens ++ [last]).length + 5 ≤ depth := hawaits.exists_depth hsize
  have hspaces : (stage input).Clears ((Parser.ref "spaces").runWithin grammar depth) := by
    obtain ⟨depth, rfl⟩ : ∃ d, depth = d + 3 := ⟨depth - 3, by omega⟩
    exact spaces_clears
  have hrun : Parser.endOfInput.runWithin grammar depth = expectEnd := by
    obtain ⟨depth, rfl⟩ : ∃ d, depth = d + 1 := ⟨depth - 1, by omega⟩
    rfl
  refine .bind (.unread ?_)
  rw [hdepth]
  refine .bind (.position (.bind (members_first ?_)))
  refine (hspaces c _ hawaits).mono (fun r d hd => members_cons ?_) fun _ _ h => h.elim
  obtain ⟨hd, hrstart, hwithin⟩ := hd
  have hbefore : r.span.start.offset ≤ d.tokenizer.position.offset :=
    Nat.le_trans hwithin.forward hwithin.high
  refine (expr_decides henough d _ hd (Nat.le_refl _)).mono (fun r' e he => ?_) fun f _ hf => ?_
  · have hforward : r.span.start.offset ≤ r'.span.stop.offset :=
      Nat.le_trans hbefore (Nat.le_trans he.within.low he.within.forward)
    have hbehind : r.span.start.offset ≤ e.tokenizer.position.offset :=
      Nat.le_trans hforward he.within.high
    refine ⟨hforward, ?_⟩
    refine (he.closes (definite_term _) hothers hlast hspaces rfl rfl hrun hbehind).mono
      (fun results e' he' => ?_) fun f _ hf => ⟨hf.1, ?_⟩
    · obtain ⟨rfl, t, span, rfl, -, ht⟩ := he'
      refine .bind (.pure (.pure ⟨t, ht, ?_⟩))
      rw [hrstart, hc]
      rfl
    · rintro _ ⟨t, ht, rfl⟩
      exact hf.2 _ ⟨t, .empty .start, rfl, trivial, ht⟩
  · refine ⟨hf.1, ?_⟩
    rintro _ ⟨t, ht, rfl⟩
    exact hf.2 _ _ _ rfl ⟨t, .empty .start, rfl, trivial, ht⟩

/-- Parsing answers the term that the tokens derive, for the whole input, or it rejects them and
they derive no term. -/
theorem parse_cases (hinput : input.byteLength ≤ largestInput) :
    ∃ tokens t', (tokenizer.withInput input).tokenize = .ok (tokens, t') ∧
      ((∃ r, Whole input (solid tokens) r ∧ parse input = .ok r) ∨
        (∀ r, ¬ Whole input (solid tokens) r) ∧ ∃ e, parse input = .error (.rejected e)) := by
  obtain ⟨tokens, t', hrun, hcases⟩ :=
    parseText_cases (S := stage input) rfl hinput entry_decides
  rw [filter_skips] at hcases
  exact ⟨tokens, t', hrun, hcases⟩

/-- What is part of a term is no error token. -/
theorem Term.Derives.ordinary {t : Term} {ts : List Token} (h : t.Derives ts) :
    ∀ token ∈ ts, token.kind = .ordinary := by
  induction h with
  | var hname hcolumn htype =>
    simp [Token.kind_of_is hname, Token.kind_of_is hcolumn, Token.kind_of_is htype]
  | app hopening _ _ hclosing ihf iha =>
    intro token hmem
    simp only [List.mem_cons, List.mem_append, List.not_mem_nil, or_false] at hmem
    rcases hmem with rfl | hmem | hmem | rfl
    · exact Token.kind_of_is hopening
    · exact ihf token hmem
    · exact iha token hmem
    · exact Token.kind_of_is hclosing
  | lam hlambda hname hcolumn htype hdot _ ih =>
    simp only [List.forall_mem_cons]
    exact ⟨Token.kind_of_is hlambda, Token.kind_of_is hname, Token.kind_of_is hcolumn,
      Token.kind_of_is htype, Token.kind_of_is hdot, ih⟩

/-- The parser of terms accepts the language of terms. It answers a result if and only if the input
has no error token and its tokens without spaces derive a term: the result is this term, for the
region from the start of the input to its end, and no other term is derived. All other inputs are
rejected. -/
theorem parse_iff_derives_term (hinput : input.byteLength ≤ largestInput) :
    ∃ tokens t', (tokenizer.withInput input).tokenize = .ok (tokens, t') ∧
      (∀ r, parse input = .ok r ↔ (∀ token ∈ tokens, token.kind ≠ .error) ∧
        ∃ t : Term, t.Derives (solid tokens) ∧
          r = .value t ⟨.start, Position.start.after input⟩) ∧
      (∀ t t' : Term, t.Derives (solid tokens) → t'.Derives (solid tokens) → t = t') ∧
      ((∀ r, parse input ≠ .ok r) → ∃ e, parse input = .error (.rejected e)) := by
  have hunique {ts : List Token} {t t' : Term} (h : t.Derives ts) (h' : t'.Derives ts) : t = t' :=
    (h.det h' (rfl : ts ++ [] = ts ++ [])).1
  obtain ⟨tokens, end_, hrun, hparse, hrejected⟩ :=
    parseText_iff (S := stage input) rfl hinput entry_decides
      (by rintro ts _ _ ⟨t, ht, rfl⟩ ⟨t', ht', rfl⟩; rw [hunique ht ht'])
      (by rintro ts _ ⟨t, ht, -⟩; exact ht.ordinary)
  rw [filter_skips] at hparse
  exact ⟨tokens, end_, hrun, hparse, fun t t' => hunique, hrejected⟩

/-- An abstraction applied to a variable, with blanks of all kinds. -/
def applied : Text := " ( \\x : T.x:T\ty':\n\rU)".toList

theorem applied_parse_iff_derives_term :
    applied.byteLength ≤ largestInput ∧
      ∃ tokens t', (tokenizer.withInput applied).tokenize = .ok (tokens, t') ∧
        (∀ r, parse applied = .ok r ↔ (∀ token ∈ tokens, token.kind ≠ .error) ∧
          ∃ t : Term, t.Derives (solid tokens) ∧
            r = .value t ⟨.start, Position.start.after applied⟩) ∧
        (∀ t t' : Term, t.Derives (solid tokens) → t'.Derives (solid tokens) → t = t') ∧
        ((∀ r, parse applied ≠ .ok r) → ∃ e, parse applied = .error (.rejected e)) :=
  have hinput : applied.byteLength ≤ largestInput := by decide
  ⟨hinput, parse_iff_derives_term hinput⟩

end PredictiveParsing.Lambda
