import PredictiveParsing.Languages.Pi
import PredictiveParsing.Proofs.Grammar.Deciding

/-!
# The language of processes

`Process.Derives` is the grammar of processes over their tokens, without blanks. A process is a
restriction of the process behind it, an operand, or an operand composed with the process behind it;
an operand is termination or a process between parentheses. So compositions group to the right, and
a restriction takes everything up to the parenthesis that closes around it. Of the same tokens at
most one beginning derives an operand, and at most one derives a process that ends in front of
something else than a composition (`Derives.det`).

The expression of `Pi.operators` reads processes, at each of its two priorities: it takes a
composition behind an operand and none behind a process (`above_decides`). So `Pi.parse` answers the
process that the tokens of its input derive, and it rejects an input whose tokens derive none
(`parse_iff_derives_process`).
-/

namespace PredictiveParsing.Pi

open ParseM Stage

/-! ## Derivations -/

/-- What tokens may derive. -/
inductive Category
  | process
  | operand
deriving DecidableEq

/-- The tokens, blanks left out, derive the process as a process or as an operand. -/
inductive Process.Derives : Category → Process → List Token → Prop
  | term {token : Token} (token_is : token.is "term" = true) : Derives .operand .term [token]
  | brackets {opening closing : Token} {p : Process} {ts : List Token}
      (opening_is : opening.is "lparen" = true) (inner : Derives .process p ts)
      (closing_is : closing.is "rparen" = true) :
      Derives .operand p (opening :: (ts ++ [closing]))
  | operand {p : Process} {ts : List Token} (alone : Derives .operand p ts) : Derives .process p ts
  | restriction {new opening name closing : Token} {p : Process} {ts : List Token}
      (new_is : new.is "new" = true) (opening_is : opening.is "lparen" = true)
      (name_is : name.is "name" = true) (closing_is : closing.is "rparen" = true)
      (body : Derives .process p ts) :
      Derives .process (.restriction name.text p) (new :: opening :: name :: closing :: ts)
  | parallel {op : Token} {p q : Process} {ps qs : List Token} (left : Derives .operand p ps)
      (op_is : op.is "parallel" = true) (right : Derives .process q qs) :
      Derives .process (.parallel p q) (ps ++ op :: qs)

/-- No composition begins the tokens. -/
def Ended (tokens : List Token) : Prop :=
  ∀ token ∈ tokens.head?, token.is "parallel" = false

/-- What may stand behind tokens of the category: a process ends in front of something else than a
composition. -/
def Category.Follows : Category → List Token → Prop
  | process, tokens => Ended tokens
  | operand, _ => True

theorem ended_cons {token : Token} {rest : List Token} {type : TokenType}
    (h : token.is type = true) (htype : type ≠ "parallel") : Ended (token :: rest) := by
  rintro _ ⟨⟩
  exact Bool.eq_false_iff.2 (Token.not_is h htype)

namespace Process

variable {k : Category} {p p' : Process} {ts ts' rest rest' : List Token}

/-- An operand begins with termination or a parenthesis. -/
theorem Derives.operand_begins (h : Derives .operand p ts) :
    ∃ token rest, ts = token :: rest ∧ (token.is "term" = true ∨ token.is "lparen" = true) := by
  cases h with
  | term htoken => exact ⟨_, _, rfl, .inl htoken⟩
  | brackets hopening => exact ⟨_, _, rfl, .inr hopening⟩

/-- An operand does not begin as a restriction does. -/
theorem Derives.operand_ne_new {new : Token} {more : List Token} (h : Derives .operand p ts)
    (hnew : new.is "new" = true) : ts ++ rest ≠ new :: more := by
  obtain ⟨token, _, rfl, htoken⟩ := h.operand_begins
  intro hsame
  obtain rfl : token = new := (List.cons.inj hsame).1
  rcases htoken with htoken | htoken
  · exact Token.not_is htoken (by decide) hnew
  · exact Token.not_is htoken (by decide) hnew

/-- Of the same tokens at most one beginning derives an operand, and at most one a process in front
of something else than a composition. -/
theorem Derives.det (h : Derives k p ts) (h' : Derives k p' ts') (hsame : ts ++ rest = ts' ++ rest')
    (hrest : k.Follows rest) (hrest' : k.Follows rest') : p = p' ∧ ts = ts' := by
  induction h generalizing p' ts' rest rest' with
  | term htoken =>
    cases h' with
    | term => cases hsame; exact ⟨rfl, rfl⟩
    | brackets hopening =>
      rw [(List.cons.inj hsame).1] at htoken
      exact absurd hopening (Token.not_is htoken (by decide))
  | brackets hopening hinner hclosing ih =>
    cases h' with
    | term htoken =>
      rw [(List.cons.inj hsame).1] at hopening
      exact absurd htoken (Token.not_is hopening (by decide))
    | brackets _ hinner' hclosing' =>
      simp only [List.cons_append, List.append_assoc, List.cons.injEq] at hsame
      obtain ⟨rfl, hsame⟩ := hsame
      obtain ⟨rfl, rfl⟩ := ih hinner' hsame (ended_cons hclosing (by decide))
        (ended_cons hclosing' (by decide))
      have hlast := List.append_cancel_left hsame
      cases hlast
      exact ⟨rfl, rfl⟩
  | operand halone ih =>
    cases h' with
    | operand halone' => exact ih halone' hsame trivial trivial
    | restriction hnew => exact absurd hsame (halone.operand_ne_new hnew)
    | parallel hleft hop _ =>
      rw [List.append_assoc] at hsame
      obtain ⟨-, rfl⟩ := ih hleft hsame trivial trivial
      rw [List.append_cancel_left hsame] at hrest
      rw [hrest _ rfl] at hop
      cases hop
  | restriction hnew _ _ _ _ ih =>
    cases h' with
    | operand halone' => exact absurd hsame.symm (halone'.operand_ne_new hnew)
    | restriction _ _ _ _ hbody' =>
      simp only [List.cons_append, List.cons.injEq] at hsame
      obtain ⟨rfl, rfl, rfl, rfl, hsame⟩ := hsame
      obtain ⟨rfl, rfl⟩ := ih hbody' hsame hrest hrest'
      exact ⟨rfl, rfl⟩
    | parallel hleft =>
      rw [List.append_assoc] at hsame
      exact absurd hsame.symm (hleft.operand_ne_new hnew)
  | parallel hleft hop _ ihleft ihright =>
    rw [List.append_assoc] at hsame
    cases h' with
    | operand halone' =>
      obtain ⟨-, rfl⟩ := ihleft halone' hsame trivial trivial
      rw [← List.append_cancel_left hsame] at hrest'
      rw [hrest' _ rfl] at hop
      cases hop
    | restriction hnew => exact absurd hsame (hleft.operand_ne_new hnew)
    | parallel hleft' _ hright' =>
      rw [List.append_assoc] at hsame
      obtain ⟨rfl, rfl⟩ := ihleft hleft' hsame trivial trivial
      have hright := List.append_cancel_left hsame
      simp only [List.cons_append, List.cons.injEq] at hright
      obtain ⟨rfl, hright⟩ := hright
      obtain ⟨rfl, rfl⟩ := ihright hright' hright hrest hrest'
      exact ⟨rfl, rfl⟩

end Process

/-! ## Readings -/

/-- Reads a process, up to the end of it. -/
def process : Reading (Result Process) :=
  fun front back r => ∃ p span, r = .value p span ∧ p.Derives .process front ∧ Ended back

/-- Reads an operand. -/
def operand : Reading (Result Process) :=
  fun front _ r => ∃ p span, r = .value p span ∧ p.Derives .operand front

/-- Reads a restriction, up to the end of the process that it restricts. -/
def restricted : Reading (Result Process) :=
  fun front back r => ∃ new opening name closing p ts span,
    front = new :: opening :: name :: closing :: ts ∧ new.is "new" = true ∧
      opening.is "lparen" = true ∧ name.is "name" = true ∧ closing.is "rparen" = true ∧
      p.Derives .process ts ∧ r = .value (.restriction name.text p) span ∧ Ended back

/-- Reads what a composition may begin with, or a restriction. -/
def leading : Reading (Result Process) :=
  fun front back r => operand front back r ∨ restricted front back r

/-- Reads what may stand behind the process `left`: nothing, or a composition with another one. -/
def following (left : Process) : Reading (Result Process) :=
  fun front back r => Ended back ∧
    ((front = [] ∧ ∃ span, r = .value left span) ∨
      ∃ op q qs span, front = op :: qs ∧ op.is "parallel" = true ∧ q.Derives .process qs ∧
        r = .value (.parallel left q) span)

theorem definite_process : process.Definite := by
  rintro _ _ _ _ _ _ ⟨p, _, rfl, hp, hback⟩ ⟨p', _, rfl, hp', hback'⟩ hsame
  exact (hp.det hp' hsame hback hback').2

/-! ## Rules -/

/-- The parser that `grammar` starts from. -/
def entry : Parser Process :=
  .tuple [.element (.ref "expr"), .skip (.ref "spaces"), .skip .endOfInput] (some wholeProcess)

/-- Processes run over an input in which spaces are blanks. -/
def stage (input : Text) : Stage Process := ⟨grammar, entry, input, operators⟩

variable {input : Text} {n depth : Nat}

/-- The blanks are the spaces. -/
theorem skips_eq (token : Token) : (stage input).table.skips token = token.is "space" :=
  (Operators.skips_eq_any _ token).trans (Bool.or_false _)

theorem spaces_clears :
    (stage input).Clears ((Parser.ref "spaces").runWithin grammar (depth + 3)) :=
  clears_ref (q := .many (.token "space") 0) rfl (Skims.clears (skims_token skips_eq))

/-- The role of a token, by its type. -/
theorem roleOf?_eq (token : Token) :
    operators.roleOf? token =
      if token.is "term" then some (.atom (some makeTerm))
      else if token.is "new" then some (.embedding restriction)
      else if token.is "parallel" then some (.infixOp 10 .right (some makeParallel))
      else if token.is "lparen" then some (.bracket "lparen" "rparen")
      else none := by
  by_cases hk : token.kind = .ordinary
  · simp only [Operators.roleOf?, Operators.role?, operators, Token.is, hk, List.lookup_cons,
      List.lookup_nil, if_pos, decide_true, Bool.true_and]
    cases token.type == "term" <;> cases token.type == "new" <;>
      cases token.type == "parallel" <;> cases token.type == "lparen" <;> rfl
  · simp [Operators.roleOf?, Token.is, hk]

/-- Behind an operand only a composition is an operator. -/
theorem infixRole?_eq (token : Token) :
    (operators.roleOf? token).bind Role.infixRole? =
      if token.is "parallel" then some (10, .right, some makeParallel) else none := by
  rw [roleOf?_eq]
  split
  · next h => rw [if_neg (Token.not_is h (by decide))]; rfl
  · split
    · next h => rw [if_neg (Token.not_is h (by decide))]; rfl
    · split
      · rfl
      · split <;> rfl

/-- The embedded parser of restrictions reads a restriction. -/
theorem restriction_decides
    (hexpr : (stage input).Decides n process ((Parser.ref "expr").runWithin grammar (depth + 3))) :
    (stage input).Decides (n + 1) restricted
      ((Parser.embed restriction).runWithin grammar (depth + 5)) := by
  have htoken (type : TokenType) : (stage input).Decides n (.token type)
      ((Parser.token type).runWithin grammar (depth + 3)) := decides_token type
  refine decides_sequence (decides_token "new") (Reading.definite_token _)
    (fun _ _ h => by obtain ⟨_, h, -⟩ := h; cases h)
    (continues_cons spaces_clears rfl (htoken "lparen") (Reading.definite_token _)
      (continues_cons spaces_clears rfl (htoken "name") (Reading.definite_token _)
        (continues_cons spaces_clears rfl (htoken "rparen") (Reading.definite_token _)
          (continues_cons spaces_clears rfl hexpr definite_process continues_nil)))) ?_ ?_
  · simp only [Reading.andThen_token]
    rintro _ back _ span ⟨new, _, _, rfl, hnew, rfl, opening, _, _, rfl, hopening, rfl,
      name, _, _, rfl, hname, rfl, closing, _, _, rfl, hclosing, rfl,
      ts, _, _, _, rfl, ⟨p, s, rfl, hp, hback⟩, rfl, rfl, rfl⟩
    rw [List.append_nil]
    exact ⟨_, rfl, new, opening, name, closing, p, ts, span, rfl, hnew, hopening, hname, hclosing,
      hp, rfl, hback⟩
  · rintro _ back _ ⟨new, opening, name, closing, p, ts, span, rfl, hnew, hopening, hname, hclosing,
      hp, rfl, hback⟩
    simp only [Reading.andThen_token]
    exact ⟨_, new, _, _, rfl, hnew, rfl, opening, _, _, rfl, hopening, rfl, name, _, _, rfl, hname,
      rfl, closing, _, _, rfl, hclosing, rfl, ts, [], _, _, (List.append_nil _).symm,
      ⟨p, span, rfl, hp, hback⟩, rfl, rfl, rfl⟩

/-! ## Expressions -/

variable {embedded : Parser Process → ParseM (Result Process)}
  {inner : Nat → ParseM (Result Process)} {c : Context} {tokens : List Token} {token : Token}

/-- An operand that is a process between parentheses. -/
theorem bracket_decides {rest : List Token}
    (hinner : ∀ d back, (stage input).Awaits d back → back.length ≤ n →
      (inner 0).Ends d (fun r e => (stage input).Took process d back r e)
        fun f _ => Refuses process back f)
    (hc : (stage input).Meets c (token :: rest)) (hn : (token :: rest).length ≤ n + 1)
    (hopening : token.is "lparen" = true)
    (hrole : operators.roleOf? token = some (.bracket "lparen" "rparen")) :
    (operators.operand embedded inner token).Ends c
      (fun r d => (stage input).Took operand c (token :: rest) r d)
      fun f _ => Refuses operand (token :: rest) f := by
  -- whatever operand begins with the parenthesis has a process behind it, and another parenthesis
  have inside {front back : List Token} {r : Result Process} (hread : operand front back r)
      (hsplit : token :: rest = front ++ back) :
      ∃ (p : Process) (ts : List Token) (closing : Token), closing.is "rparen" = true ∧
        p.Derives .process ts ∧ rest = ts ++ closing :: back := by
    obtain ⟨p, span, rfl, hp⟩ := hread
    cases hp with
    | term hterm =>
      cases hsplit
      exact absurd hterm (Token.not_is hopening (by decide))
    | brackets _ hp hclosing =>
      simp only [List.cons_append, List.append_assoc, List.cons.injEq] at hsplit
      exact ⟨p, _, _, hclosing, hp, hsplit.2⟩
  unfold Operators.operand
  rw [hrole]
  refine .bind (hc.commit (Token.kind_of_is hopening) fun d hd hm => .bind ?_)
  refine (hinner d rest hd (Nat.le_of_succ_le_succ hn)).mono (fun r e he => ?_) fun f _ hf => ?_
  · obtain ⟨-, hwithin, front, back, rfl, ⟨p, span, rfl, hp, hended⟩, he⟩ := he
    refine .bind (he.current.mono (fun last e' he' => ?_) fun _ _ h => h.elim)
    obtain ⟨hlast, hmeets, honward⟩ := he'
    obtain ⟨back, rfl⟩ := List.head?_eq_some_iff.1 hlast
    cases hclosing : last.is "rparen" with
    | true =>
      refine .bind (hmeets.commit (Token.kind_of_is hclosing) fun e'' he'' hm' => .bind ?_)
      obtain ⟨hcover, hcovers⟩ := hm.within.cover hm'.within
        (Nat.le_trans hwithin.low (Nat.le_trans hwithin.forward
          (Nat.le_trans hwithin.high honward.offset)))
      refine .trust hcover
        (.pure ⟨?_, hcovers, token :: (front ++ [last]), back, by simp, ?_, he''⟩)
      · rintro _ ⟨⟩
        rfl
      · exact ⟨p, _, rfl, .brackets hopening hp hclosing⟩
    | false =>
      refine .unexpected fun _ => ⟨⟨_, rfl⟩, fun front' back' r' hsplit hread => ?_⟩
      obtain ⟨p', ts, closing, hclosing', hp', hsame⟩ := inside hread hsplit
      obtain ⟨-, rfl⟩ := hp.det hp' hsame hended (ended_cons hclosing' (by decide))
      cases List.append_cancel_left hsame
      rw [hclosing] at hclosing'
      cases hclosing'
  · refine hf.mono fun hdeclines front back r hsplit hread => ?_
    obtain ⟨p, ts, closing, hclosing, hp, rfl⟩ := inside hread hsplit
    exact hdeclines ts (closing :: back) (.value p (.empty .start)) rfl
      ⟨p, _, rfl, hp, ended_cons hclosing (by decide)⟩

/-- What may stand at the beginning of a process is termination, a parenthesis or a restriction. -/
theorem leading_begins {front back : List Token} {r : Result Process}
    (h : leading front back r) :
    ∃ token rest, front = token :: rest ∧
      (token.is "term" = true ∨ token.is "lparen" = true ∨ token.is "new" = true) := by
  rcases h with ⟨p, span, rfl, hp⟩ | ⟨new, _, _, _, _, _, _, rfl, hnew, -⟩
  · obtain ⟨token, rest, rfl, htoken | htoken⟩ := hp.operand_begins
    · exact ⟨token, rest, rfl, .inl htoken⟩
    · exact ⟨token, rest, rfl, .inr (.inl htoken)⟩
  · exact ⟨new, _, rfl, .inr (.inr hnew)⟩

/-- Where an expression begins, an operand or a restriction is read. -/
theorem operand_decides
    (hembedded : (stage input).Decides (n + 1) restricted (embedded (.embed restriction)))
    (hinner : ∀ d back, (stage input).Awaits d back → back.length ≤ n →
      (inner 0).Ends d (fun r e => (stage input).Took process d back r e)
        fun f _ => Refuses process back f)
    (hc : (stage input).Meets c tokens) (hn : tokens.length ≤ n + 1)
    (hhead : tokens.head? = some token) :
    (operators.operand embedded inner token).Ends c
      (fun r d => (stage input).Took leading c tokens r d)
      fun f _ => Refuses leading tokens f := by
  obtain ⟨rest, rfl⟩ := List.head?_eq_some_iff.1 hhead
  have hrole := roleOf?_eq token
  by_cases hterm : token.is "term" = true
  · rw [if_pos hterm] at hrole
    unfold Operators.operand
    rw [hrole]
    refine .bind (hc.commit (Token.kind_of_is hterm) fun d hd hm => .bind (.note (.pure ?_)))
    refine ⟨?_, hm.within, [token], rest, rfl, .inl ⟨.term, _, rfl, .term hterm⟩,
      hd.of_same rfl (hd.ready.journal.note _)⟩
    rintro _ ⟨⟩
    rfl
  rw [if_neg hterm] at hrole
  by_cases hnew : token.is "new" = true
  · rw [if_pos hnew] at hrole
    unfold Operators.operand
    rw [hrole]
    have hnoted : (stage input).Meets (noted c (.embedded token)) (token :: rest) :=
      hc.of_same rfl (hc.ready.journal.note _)
    refine .bind (.note ((hembedded _ _ hnoted hn).mono (fun r d hd => ?_) fun f _ hf =>
      hf.mono ?_))
    · exact (hd.mono fun _ _ h => .inr h).of_same rfl
    rintro hdeclines front back r hsplit (⟨p, span, rfl, hp⟩ | hread)
    · exact hp.operand_ne_new hnew hsplit.symm
    · exact hdeclines front back r hsplit hread
  rw [if_neg hnew] at hrole
  by_cases hopening : token.is "lparen" = true
  · rw [if_neg (Token.not_is hopening (by decide)), if_pos hopening] at hrole
    refine (bracket_decides hinner hc hn hopening hrole).mono
      (fun r d hd => hd.mono fun _ _ => .inl) fun f _ hf => hf.mono ?_
    rintro hdeclines front back r hsplit (hread | ⟨_, _, _, _, _, _, _, rfl, hnew', -⟩)
    · exact hdeclines front back r hsplit hread
    · cases hsplit
      exact hnew hnew'
  · have hreject : operators.operand embedded inner token = unexpected "an expression" token := by
      rw [if_neg hopening] at hrole
      unfold Operators.operand
      rw [hrole]
      cases token.is "parallel" <;> rfl
    rw [hreject]
    refine .unexpected fun _ => ⟨⟨_, rfl⟩, fun front back r hsplit hread => ?_⟩
    obtain ⟨first, _, rfl, hfirst⟩ := leading_begins hread
    cases hsplit
    rcases hfirst with h | h | h
    · exact hterm h
    · exact hopening h
    · exact hnew h

/-- Behind a process that does not end, there is no operator. -/
theorem climb_stops {minimum bound : Nat} {left : Result Process}
    (hc : (stage input).Awaits c tokens) (hended : Ended tokens) :
    (operators.climb inner minimum (bound + 1) left).Ends c
      (fun r d => r = left ∧ (stage input).Awaits d tokens ∧ Onward c d) fun _ _ => False := by
  refine .bind (hc.current.mono (fun token d hd => ?_) fun _ _ h => h.elim)
  obtain ⟨hhead, hmeets, honward⟩ := hd
  rw [infixRole?_eq, if_neg (by rw [hended token hhead]; exact Bool.false_ne_true)]
  exact .pure ⟨rfl, hmeets.toAwaits, honward⟩

/-- A composition of values stands for the region from the first to the last. -/
theorem makeParallel_eq {p q : Process} {s t whole : Span} (h : s.cover t = .ok whole) :
    makeParallel (.value p s) token (.value q t) = .ok (.value (.parallel p q) whole) := by
  unfold makeParallel
  simp only [Result.span, h]
  rfl

/-- Behind an operand a composition with the process behind it is read, if there is one. -/
theorem climb_decides {minimum bound low : Nat} {left : Process} {span : Span}
    (hinner : ∀ d back, (stage input).Awaits d back → back.length ≤ n →
      (inner 10).Ends d (fun r e => (stage input).Took process d back r e)
        fun f _ => Refuses process back f)
    (hc : (stage input).Awaits c tokens) (hn : tokens.length ≤ n + 1) (hminimum : minimum ≤ 10)
    (hbound : c.tokenizer.cursor.rest.length < bound)
    (hspan : span.Within low c.tokenizer.position.offset) :
    (operators.climb inner minimum bound (.value left span)).Ends c
      (fun r d => r.span.start = span.start ∧ r.span.Within low d.tokenizer.position.offset ∧
        ∃ front back, tokens = front ++ back ∧ following left front back r ∧
          (stage input).Awaits d back)
      fun f _ => Refuses (following left) tokens f := by
  obtain ⟨bound, rfl⟩ : ∃ b, bound = b + 1 := ⟨bound - 1, by omega⟩
  by_cases hended : Ended tokens
  · refine (climb_stops hc hended).mono (fun r d hd => ?_) fun _ _ h => h.elim
    obtain ⟨rfl, hd, honward⟩ := hd
    exact ⟨rfl, hspan.mono (Nat.le_refl _) honward.offset, [], tokens, rfl,
      ⟨hended, .inl ⟨rfl, span, rfl⟩⟩, hd⟩
  refine .bind (hc.current.mono (fun token d hd => ?_) fun _ _ h => h.elim)
  obtain ⟨hhead, hmeets, honward⟩ := hd
  obtain ⟨rest, rfl⟩ := List.head?_eq_some_iff.1 hhead
  have hop : token.is "parallel" = true := by
    by_contra h
    refine hended ?_
    rintro _ ⟨⟩
    exact Bool.eq_false_iff.2 h
  rw [infixRole?_eq, if_pos hop]
  dsimp only
  rw [if_neg (Nat.not_lt.2 hminimum)]
  refine .bind (hmeets.commit (Token.kind_of_is hop) fun e he hm => .bind (.note (.bind ?_)))
  have he' := he.of_same (d := noted e (.infixOp token 10)) rfl (he.ready.journal.note _)
  refine (hinner _ rest he' (Nat.le_of_succ_le_succ hn)).mono (fun r c' hc' => .bind ?_)
    fun f _ hf => ?_
  · obtain ⟨-, hwithin, front, back, rfl, ⟨q, s, rfl, hq, hback⟩, hc'⟩ := hc'
    have hbehind : c.tokenizer.position.offset ≤ e.tokenizer.position.offset :=
      Nat.le_trans honward.offset (Onward.of_moves hm).offset
    obtain ⟨hcover, hcovers⟩ := hspan.cover hwithin hbehind
    have hless : e.tokenizer.cursor.rest.length < d.tokenizer.cursor.rest.length :=
      hm.rest_lt (by rw [Token.kind_of_is hop]; nofun)
    have hunread := honward.unread
    obtain ⟨bound, rfl⟩ : ∃ b, bound = b + 1 := ⟨bound - 1, by omega⟩
    have hresult :
        Operators.infixResult (some makeParallel) (.value left span) token (.value q s) c' =
          (.ok (.value (.parallel left q) ⟨span.start, s.stop⟩), c') := by
      show perform (makeParallel (.value left span) token (.value q s)) c' = _
      rw [makeParallel_eq (t := s) hcover]
      rfl
    refine .of_ok hresult ((climb_stops hc' hback).mono (fun r d' hd' => ?_) fun _ _ h => h.elim)
    obtain ⟨rfl, hd', honward'⟩ := hd'
    refine ⟨rfl, hcovers.mono (Nat.le_refl _) honward'.offset, token :: front, back, rfl, ?_, hd'⟩
    exact ⟨hback, .inr ⟨token, q, front, _, rfl, hop, hq, rfl⟩⟩
  · refine hf.mono fun hdeclines front back r hsplit hread => ?_
    obtain ⟨hback, ⟨rfl, -⟩ | ⟨op, q, qs, s, rfl, -, hq, rfl⟩⟩ := hread
    · cases hsplit
      exact hended hback
    · cases hsplit
      exact hdeclines qs back (.value q s) rfl ⟨q, s, rfl, hq, hback⟩

theorem process_of_restricted {front back : List Token} {r : Result Process}
    (h : restricted front back r) : process front back r := by
  obtain ⟨_, _, _, _, _, _, span, rfl, hnew, hopening, hname, hclosing, hp, rfl, hback⟩ := h
  exact ⟨_, span, rfl, .restriction hnew hopening hname hclosing hp, hback⟩

/-- An operand is a process together with what follows it. -/
theorem process_of_leading {front rest back : List Token} {left : Process}
    {r : Result Process} (hleft : left.Derives .operand front)
    (h : following left rest back r) : process (front ++ rest) back r := by
  obtain ⟨hback, ⟨rfl, span, rfl⟩ | ⟨op, q, qs, span, rfl, hop, hq, rfl⟩⟩ := h
  · rw [List.append_nil]
    exact ⟨left, span, rfl, .operand hleft, hback⟩
  · exact ⟨_, span, rfl, .parallel hleft hop hq, hback⟩

/-- A process begins with an operand, or it is a restriction. -/
theorem leading_of_process {front back : List Token} {r : Result Process}
    (h : process front back r) :
    restricted front back r ∨ ∃ left first rest, front = first ++ rest ∧
      left.Derives .operand first ∧ following left rest back r := by
  obtain ⟨p, span, rfl, hp, hback⟩ := h
  cases hp with
  | operand halone =>
    exact .inr ⟨p, front, [], (List.append_nil _).symm, halone, hback, .inl ⟨rfl, span, rfl⟩⟩
  | restriction hnew hopening hname hclosing hbody =>
    exact .inl ⟨_, _, _, _, _, _, span, rfl, hnew, hopening, hname, hclosing, hbody, rfl, hback⟩
  | parallel hleft hop hright =>
    exact .inr ⟨_, _, _, rfl, hleft, hback, .inr ⟨_, _, _, span, rfl, hop, hright, rfl⟩⟩

/-- The rule of expressions begins at the lowest priority. -/
theorem expr_apply (depth : Nat) (d : Context) :
    (Parser.ref "expr").runWithin grammar (depth + 2) d = operators.above
      (Parser.runWithin grammar depth) (d.tokenizer.cursor.rest.length + 1) 0 d := by
  rw [Parser.ref_expr_apply rfl, Operators.expressionAbove, bind_of_ok (unread_apply d)]

/-- An expression reads a process, at both priorities that there are. Each level of processes takes
a token, and nests four parsers. -/
theorem above_decides {nest minimum : Nat} (hdepth : 4 * tokens.length + 5 ≤ depth)
    (hnest : tokens.length ≤ nest) (hminimum : minimum ≤ 10)
    (hc : (stage input).Awaits c tokens) :
    (operators.above (Parser.runWithin grammar depth) nest minimum).Ends c
      (fun r d => (stage input).Took process c tokens r d)
      fun f _ => Refuses process tokens f := by
  induction hlength : tokens.length using Nat.strongRecOn
    generalizing depth nest minimum c tokens with
  | _ length ih =>
    obtain ⟨n, rfl⟩ : ∃ n, length = n + 1 :=
      Nat.exists_eq_add_one.2 (hlength ▸ List.length_pos_iff.2 hc.ne_nil)
    obtain ⟨nest, rfl⟩ : ∃ k, nest = k + 1 := ⟨nest - 1, by omega⟩
    obtain ⟨depth, rfl⟩ : ∃ d, depth = d + 5 := ⟨depth - 5, by omega⟩
    have hexpr : (stage input).Decides n process
        ((Parser.ref "expr").runWithin grammar (depth + 3)) := fun d back hd hback =>
      .of_eq (expr_apply (depth + 1) d) (ih back.length (by omega) (by omega) hd.length_le
        (Nat.zero_le _) hd.toAwaits rfl)
    have hinner (m : Nat) (hm : m ≤ 10) (d : Context) (back : List Token)
        (hd : (stage input).Awaits d back) (hback : back.length ≤ n) :
        (operators.above (Parser.runWithin grammar (depth + 5)) nest m).Ends d
          (fun r e => (stage input).Took process d back r e) fun f _ => Refuses process back f :=
      ih back.length (by omega) (by omega) (by omega) hm hd rfl
    refine .bind (hc.current.mono (fun token d hd => ?_) fun _ _ h => h.elim)
    obtain ⟨hhead, hmeets, honward⟩ := hd
    refine .bind ((operand_decides (restriction_decides hexpr) (hinner 0 (Nat.zero_le _)) hmeets
      (Nat.le_of_eq hlength) hhead).mono (fun r e he => .bind (.unread ?_)) fun f _ hf => ?_)
    · obtain ⟨hstart, hwithin, front, back, rfl, hread, he⟩ := he
      have hbehind := hwithin.mono honward.offset (Nat.le_refl _)
      rcases hread with ⟨p, span, rfl, hp⟩ | hread
      · have hback : back.length ≤ n + 1 := by
          rw [← hlength, List.length_append]
          omega
        refine (climb_decides (hinner 10 (Nat.le_refl _)) he hback hminimum (Nat.lt_succ_self _)
          hbehind).mono (fun r' e' he' => ?_) fun f _ hf => ?_
        · obtain ⟨hsame, hwithin', front', back', rfl, hfollowing, he'⟩ := he'
          exact ⟨fun token h => hsame.trans (hstart token h), hwithin', front ++ front', back',
            (List.append_assoc ..).symm, process_of_leading hp hfollowing, he'⟩
        · refine hf.mono fun hdeclines front' back' r' hsplit hread => ?_
          rcases leading_of_process hread with ⟨_, _, _, _, _, _, _, rfl, hnew, -⟩ |
            ⟨left, first, rest, rfl, hleft, hfollowing⟩
          · exact hp.operand_ne_new hnew hsplit
          · rw [List.append_assoc] at hsplit
            obtain ⟨rfl, rfl⟩ := hp.det hleft hsplit trivial trivial
            exact hdeclines rest back' r' (List.append_cancel_left hsplit) hfollowing
      · obtain ⟨_, _, _, _, _, _, _, -, -, -, -, -, -, -, hback⟩ := id hread
        refine (climb_stops he hback).mono (fun r' e' he' => ?_) fun _ _ h => h.elim
        obtain ⟨rfl, he', honward'⟩ := he'
        exact ⟨hstart, hbehind.mono (Nat.le_refl _) honward'.offset, front, back, rfl,
          process_of_restricted hread, he'⟩
    · refine hf.mono fun hdeclines front back r hsplit hread => ?_
      rcases leading_of_process hread with hread | ⟨left, first, rest, rfl, hleft, -⟩
      · exact hdeclines front back r hsplit (.inr hread)
      · rw [List.append_assoc] at hsplit
        exact hdeclines first (rest ++ back) _ hsplit (.inl ⟨left, .empty .start, rfl, hleft⟩)

/-! ## Whole inputs -/

/-- The tokens without spaces. -/
def solid (tokens : List Token) : List Token := tokens.filter fun token => !token.is "space"

theorem filter_skips (tokens : List Token) :
    tokens.filter (fun token => !(stage input).table.skips token) = solid tokens :=
  List.filter_congr fun token _ => by rw [skips_eq]

/-- The result is a process that the tokens derive, for the region from the first of them to the end
of the input. -/
def Whole (input : Text) (tokens : List Token) (r : Result Process) : Prop :=
  ∃ (p : Process) (first : Token), p.Derives .process tokens ∧ tokens.head? = some first ∧
    r = .value p ⟨first.span.start, Position.start.after input⟩

/-- There is a first token of what is derived. -/
theorem Process.Derives.exists_first {k : Category} {p : Process} {ts : List Token}
    (h : p.Derives k ts) : ∃ first rest, ts = first :: rest := by
  induction h with
  | term | brackets | restriction => exact ⟨_, _, rfl⟩
  | operand _ ih => exact ih
  | parallel _ _ _ ih =>
    obtain ⟨first, rest, rfl⟩ := ih
    exact ⟨first, _, rfl⟩

/-- The entry reads one process over all tokens, from the first of them to the end of the input. -/
theorem entry_decides (c : Context) (tokens : List Token) (last : Token)
    (hawaits : (stage input).Awaits c (tokens ++ [last]))
    (hothers : ∀ token ∈ tokens, token.isEndOfInput = false) (hlast : last.isEndOfInput = true) :
    (entry.run grammar).Ends c (fun r _ => Whole input tokens r)
      fun f _ => (∃ e, f = .rejected e) ∧ ∀ r, ¬ Whole input tokens r := by
  have hsize : 3 + 4 + 5 ≤ entry.size + grammar.size + 1 := by decide
  obtain ⟨depth, hdepth, henough⟩ : ∃ depth,
      entry.depthFor grammar c.tokenizer.cursor.rest.length = depth + 3 ∧
        4 * (tokens ++ [last]).length + 5 ≤ depth := hawaits.exists_depth hsize
  have hspaces : (stage input).Clears ((Parser.ref "spaces").runWithin grammar (depth + 2)) := by
    obtain ⟨depth, rfl⟩ : ∃ d, depth = d + 1 := ⟨depth - 1, by omega⟩
    exact spaces_clears
  have hended : Ended [last] := by
    rintro _ ⟨⟩
    refine Bool.eq_false_iff.2 fun h => ?_
    simp [Token.isEndOfInput, Token.kind_of_is h] at hlast
  refine .bind (.unread ?_)
  rw [hdepth]
  refine .bind (.position (.bind (members_first (.of_eq (expr_apply depth c) ?_))))
  refine (above_decides henough hawaits.length_le (Nat.zero_le _) hawaits).mono (fun r d hd => ?_)
    fun f _ hf => ?_
  · have hbehind : r.span.start.offset ≤ d.tokenizer.position.offset :=
      Nat.le_trans hd.within.forward hd.within.high
    refine (hd.closes definite_process hothers hlast hspaces rfl rfl rfl hbehind).mono
      (fun results e he => ?_) fun f _ hf => ⟨hf.1, ?_⟩
    · obtain ⟨rfl, p, span, rfl, hp, -⟩ := he
      obtain ⟨first, rest, rfl⟩ := hp.exists_first
      refine .bind (.pure (.pure ⟨p, first, hp, rfl, ?_⟩))
      rw [← hd.start first rfl]
      rfl
    · rintro _ ⟨p, first, hp, -, rfl⟩
      exact hf.2 _ ⟨p, .empty .start, rfl, hp, hended⟩
  · refine ⟨hf.1, ?_⟩
    rintro _ ⟨p, first, hp, -, rfl⟩
    exact hf.2 _ _ _ rfl ⟨p, .empty .start, rfl, hp, hended⟩

/-- What is part of a process is no error token. -/
theorem Process.Derives.ordinary {k : Category} {p : Process} {ts : List Token}
    (h : p.Derives k ts) : ∀ token ∈ ts, token.kind = .ordinary := by
  induction h with
  | term htoken => simp [Token.kind_of_is htoken]
  | brackets hopening _ hclosing ih =>
    intro token hmem
    simp only [List.mem_cons, List.mem_append, List.not_mem_nil, or_false] at hmem
    rcases hmem with rfl | hmem | rfl
    · exact Token.kind_of_is hopening
    · exact ih token hmem
    · exact Token.kind_of_is hclosing
  | operand _ ih => exact ih
  | restriction hnew hopening hname hclosing _ ih =>
    simp only [List.forall_mem_cons]
    exact ⟨Token.kind_of_is hnew, Token.kind_of_is hopening, Token.kind_of_is hname,
      Token.kind_of_is hclosing, ih⟩
  | parallel _ hop _ ihleft ihright =>
    intro token hmem
    simp only [List.mem_cons, List.mem_append] at hmem
    rcases hmem with hmem | rfl | hmem
    · exact ihleft token hmem
    · exact Token.kind_of_is hop
    · exact ihright token hmem

/-- The parser of processes accepts the language of processes. It answers a result if and only if
the input has no error token and its tokens without spaces derive a process: the result is this
process, for the region from the first of these tokens to the end of the input, and no other process
is derived. All other inputs are rejected. -/
theorem parse_iff_derives_process (hinput : input.byteLength ≤ largestInput) :
    ∃ tokens t', (tokenizer.withInput input).tokenize = .ok (tokens, t') ∧
      (∀ r, parse input = .ok r ↔ (∀ token ∈ tokens, token.kind ≠ .error) ∧
        ∃ (p : Process) (first : Token), p.Derives .process (solid tokens) ∧
          (solid tokens).head? = some first ∧
          r = .value p ⟨first.span.start, Position.start.after input⟩) ∧
      (∀ p p' : Process, p.Derives .process (solid tokens) → p'.Derives .process (solid tokens) →
        p = p') ∧
      ((∀ r, parse input ≠ .ok r) → ∃ e, parse input = .error (.rejected e)) := by
  have hunique {ts : List Token} {p p' : Process} (h : p.Derives .process ts)
      (h' : p'.Derives .process ts) : p = p' :=
    (h.det h' (rfl : ts ++ [] = ts ++ []) nofun nofun).1
  have hdecides (c : Context) (tokens : List Token) (last : Token)
      (_ : c.tokenizer = tokenizer.withInput input) := @entry_decides input c tokens last
  obtain ⟨tokens, end_, hrun, hparse, hrejected⟩ :=
    parseText_iff (S := stage input) rfl hinput hdecides
      (by
        rintro ts _ _ ⟨p, first, hp, hfirst, rfl⟩ ⟨p', first', hp', hfirst', rfl⟩
        cases hfirst.symm.trans hfirst'
        rw [hunique hp hp'])
      (by rintro ts _ ⟨p, _, hp, -⟩; exact hp.ordinary)
  rw [filter_skips] at hparse
  exact ⟨tokens, end_, hrun, hparse, fun p p' => hunique, hrejected⟩

/-- A restriction between operands of compositions, which takes what stands behind it. -/
def restrictedTail : Text := " 0||(nil || end)\t|| new ( a ) (0 || 0) || 0\n".toList

theorem restrictedTail_parse_iff_derives_process :
    restrictedTail.byteLength ≤ largestInput ∧
      ∃ tokens t', (tokenizer.withInput restrictedTail).tokenize = .ok (tokens, t') ∧
        (∀ r, parse restrictedTail = .ok r ↔ (∀ token ∈ tokens, token.kind ≠ .error) ∧
          ∃ (p : Process) (first : Token), p.Derives .process (solid tokens) ∧
            (solid tokens).head? = some first ∧
            r = .value p ⟨first.span.start, Position.start.after restrictedTail⟩) ∧
        (∀ p p' : Process, p.Derives .process (solid tokens) →
          p'.Derives .process (solid tokens) → p = p') ∧
        ((∀ r, parse restrictedTail ≠ .ok r) →
          ∃ e, parse restrictedTail = .error (.rejected e)) :=
  have hinput : restrictedTail.byteLength ≤ largestInput := by decide
  ⟨hinput, parse_iff_derives_process hinput⟩

end PredictiveParsing.Pi
