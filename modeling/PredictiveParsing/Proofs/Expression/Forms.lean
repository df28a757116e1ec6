import PredictiveParsing.Proofs.Expression.Nesting
import PredictiveParsing.Proofs.Forms

/-!
# Forms of expressions

An operator table makes results of one form if each of its roles does: an operand is of the form,
and from operands of the form an operator makes what is of the form again (`Role.Makes`). By
induction on the depth, and along the operators that are taken, so is the expression
(`Operators.expression_makes`).
-/

namespace PredictiveParsing

open ParseM

variable {V P : Type}

/-- A prefix operator makes results of the form of its operands. -/
def PrefixMakes (t : Tokenizer) (form : Result.Form V) : Option (PrefixAction V) → Prop
  | some f => ∀ op operand, t.Supplies op → operand.Fits t.cursor.input form →
    (f op operand).Meets t.cursor.input (Result.Fits t.cursor.input form)
  | none => form = .list

/-- An infix operator makes results of the form of its operands. -/
def InfixMakes (t : Tokenizer) (form : Result.Form V) : Option (InfixAction V) → Prop
  | some f => ∀ left op right, left.Fits t.cursor.input form → t.Supplies op →
    right.Fits t.cursor.input form →
    (f left op right).Meets t.cursor.input (Result.Fits t.cursor.input form)
  | none => form = .list

/-- The role that a token type has makes results of the form. -/
def Role.Makes (t : Tokenizer) (form : Result.Form V) (type : TokenType) : Role V P → Prop
  | atom (some f) => ∀ token, t.Supplies token → token.is type = true →
    (f token).Meets t.cursor.input (Result.Fits t.cursor.input form)
  | atom none => form = .token
  | prefixOp _ action => PrefixMakes t form action
  | infixOp _ _ action => InfixMakes t form action
  | mixfix _ _ _ onPrefix onInfix => PrefixMakes t form onPrefix ∧ InfixMakes t form onInfix
  | bracket _ closing => PlainName closing
  | embed _ => True

namespace Operators

variable {o : Operators V P} {t : Tokenizer} {form : Result.Form V} {c : Context} {token : Token}
  {embedded : P → ParseM (Result V)} {inner : Nat → ParseM (Result V)}

/-- The roles of the table make results of the form, and so do the parsers embedded in it. -/
structure Makes (t : Tokenizer) (form : Result.Form V) (o : Operators V P)
    (embedded : P → ParseM (Result V)) : Prop where
  roles : ∀ type role, o.role? type = some role → role.Makes t form type
  embedded : ∀ type parser, o.role? type = some (.embed parser) → (embedded parser).Makes t form

/-! ## Skipped tokens -/

/-- The next token that is not skipped is supplied. -/
theorem current_supplies {ok : Token → Context → Prop} (hc : t.LeadsTo c.tokenizer)
    (hok : ∀ token d, t.LeadsTo d.tokenizer → o.Faces d.tokenizer token → ok token d) :
    o.current.Ends c ok fun failure _ => failure.Proper t.cursor.input :=
  current_keeps (fun _ _ _ hd hs hm => hd.commit hm (kind_of_skips hs))
    (fun _ _ _ hfailure e he => absurd he (hfailure e)) hc hok

/-! ## Results of operators -/

theorem atomResult_makes {action : Option (AtomAction V)} {type : TokenType}
    {ok : Result V → Context → Prop} (haction : (Role.atom action : Role V P).Makes t form type)
    (hplaced : t.cursor.Placed) (htoken : t.Supplies token) (his : token.is type = true)
    (hok : ∀ r, r.Fits t.cursor.input form → ok r c) :
    (atomResult action token).Ends c ok fun failure _ => failure.Proper t.cursor.input := by
  cases action with
  | none =>
    obtain rfl : form = .token := haction
    exact .pure (hok _ ⟨htoken.region hplaced, .token⟩)
  | some f => exact (haction token htoken his).perform hok

theorem prefixResult_makes {action : Option (PrefixAction V)} {operand : Result V}
    {ok : Result V → Context → Prop} (haction : PrefixMakes t form action)
    (hplaced : t.cursor.Placed) (hop : t.Supplies token)
    (hoperand : operand.Fits t.cursor.input form)
    (hok : ∀ r, r.Fits t.cursor.input form → ok r c) :
    (prefixResult action token operand).Ends c ok
      fun failure _ => failure.Proper t.cursor.input := by
  cases action with
  | none =>
    obtain rfl : form = .list := haction
    refine .bind (.trusting (fun span hspan => ?_) fun fault => .fault fault)
    exact .pure (hok _ ⟨(hop.region hplaced).cover hoperand.region hspan, .list⟩)
  | some f => exact (haction token operand hop hoperand).perform hok

theorem infixResult_makes {action : Option (InfixAction V)} {left right : Result V}
    {ok : Result V → Context → Prop} (haction : InfixMakes t form action)
    (hleft : left.Fits t.cursor.input form) (hop : t.Supplies token)
    (hright : right.Fits t.cursor.input form) (hok : ∀ r, r.Fits t.cursor.input form → ok r c) :
    (infixResult action left token right).Ends c ok
      fun failure _ => failure.Proper t.cursor.input := by
  cases action with
  | none =>
    obtain rfl : form = .list := haction
    refine .bind (.trusting (fun span hspan => ?_) fun fault => .fault fault)
    exact .pure (hok _ ⟨hleft.region.cover hright.region hspan, .list⟩)
  | some f => exact (haction left token right hleft hop hright).perform hok

/-! ## Operands and climbs -/

/-- An operand is of the form if every expression inside of it is. -/
theorem operand_makes (ho : o.Makes t form embedded) (hplaced : t.cursor.Placed)
    (hinner : ∀ minimum, (inner minimum).Makes t form) (hc : t.LeadsTo c.tokenizer)
    (hf : o.Faces c.tokenizer token) :
    (o.operand embedded inner token).Ends c
      (fun r d => t.LeadsTo d.tokenizer ∧ r.Fits t.cursor.input form)
      fun failure _ => failure.Proper t.cursor.input := by
  have htoken : t.Supplies token := ⟨_, hc, hf.1⟩
  have hexpression : PlainName "an expression" := by decide
  unfold operand
  cases hrole : o.roleOf? token with
  | none => exact unexpected_proper hexpression hplaced htoken
  | some role =>
    obtain ⟨hk, hrole⟩ := role?_of_roleOf? hrole
    have his : token.is token.type = true := by simp [Token.is, hk]
    have hmakes := ho.roles _ _ hrole
    have prefixed {priority : Nat} {action : Option (PrefixAction V)}
        (haction : PrefixMakes t form action) :
        (do
          commit token
          note (.prefixOp token priority)
          let result ← inner priority
          prefixResult action token result).Ends c
          (fun r d => t.LeadsTo d.tokenizer ∧ r.Fits t.cursor.input form)
          fun failure _ => failure.Proper t.cursor.input := by
      refine .bind (.committing (fun tokenizer hm => .bind (.note (.bind ?_)))
        fun fault => .fault fault)
      refine (hinner priority).andThen (hc.commit hm hk) fun operand d hd hoperand => ?_
      exact prefixResult_makes haction hplaced htoken hoperand fun r hr => ⟨hd, hr⟩
    cases role with
    | infixOp => exact unexpected_proper hexpression hplaced htoken
    | atom action =>
      refine .bind (.committing (fun tokenizer hm => .bind (.note ?_)) fun fault => .fault fault)
      exact atomResult_makes hmakes hplaced htoken his fun r hr => ⟨hc.commit hm hk, hr⟩
    | prefixOp priority action => exact prefixed hmakes
    | mixfix priority _ _ action _ => exact prefixed hmakes.1
    | embed parser =>
      refine .bind (.note ?_)
      exact (ho.embedded _ _ hrole).andThen hc fun r d hd hr => ⟨hd, hr⟩
    | bracket opening closing =>
      refine .bind (.committing (fun tokenizer hm => .bind ?_) fun fault => .fault fault)
      refine (hinner 0).andThen (hc.commit hm hk) fun r d hd hr => .bind ?_
      refine current_supplies hd fun last e he hlast => ?_
      have hclosing : t.Supplies last := ⟨_, he, hlast.1⟩
      cases hcloses : last.is closing with
      | false =>
        refine .reject (.rejected ⟨hclosing.region hplaced, ?_⟩)
        exact unconfused_unbalanced hmakes _ last
      | true =>
        refine .bind (.committing (fun tokenizer hm => .bind ?_) fun fault => .fault fault)
        refine .trusting (fun span hspan => ?_) fun fault => .fault fault
        have hregion := (htoken.region hplaced).cover (hclosing.region hplaced) hspan
        exact .pure ⟨he.commit hm (Token.kind_of_is hcloses), hr.withSpan hregion⟩

/-- A climb behind a left operand of the form makes results of the form. -/
theorem climb_makes (ho : o.Makes t form embedded)
    (hinner : ∀ minimum, (inner minimum).Makes t form) {minimum n : Nat} {left : Result V}
    (hc : t.LeadsTo c.tokenizer) (hleft : left.Fits t.cursor.input form) :
    (o.climb inner minimum n left).Ends c
      (fun r d => t.LeadsTo d.tokenizer ∧ r.Fits t.cursor.input form)
      fun failure _ => failure.Proper t.cursor.input := by
  induction n generalizing c left with
  | zero => exact .throw .exhausted
  | succ n ih =>
    refine .bind (current_supplies hc fun token d hd hf => ?_)
    cases hinfix : (o.roleOf? token).bind Role.infixRole? with
    | none => exact .pure ⟨hd, hleft⟩
    | some operator =>
      obtain ⟨priority, associativity, action⟩ := operator
      obtain ⟨role, hrole, hinfix⟩ := Option.bind_eq_some_iff.1 hinfix
      obtain ⟨hk, hrole⟩ := role?_of_roleOf? hrole
      have haction : InfixMakes t form action := by
        have hmakes := ho.roles _ _ hrole
        cases role with
        | atom | prefixOp | bracket | embed => cases hinfix
        | infixOp => cases hinfix; exact hmakes
        | mixfix => cases hinfix; exact hmakes.2
      dsimp only
      split
      · exact .pure ⟨hd, hleft⟩
      · refine .bind (.committing (fun tokenizer hm => .bind (.note (.bind ?_)))
          fun fault => .fault fault)
        refine (hinner _).andThen (hd.commit hm hk) fun right e he hright => .bind ?_
        exact infixResult_makes haction hleft ⟨_, hd, hf.1⟩ hright fun r hr => ih he hr

/-- An expression makes results of the form, however deep it may be. -/
theorem above_makes (ho : o.Makes t form embedded) (hplaced : t.cursor.Placed)
    (depth minimum : Nat) : (o.above embedded depth minimum).Makes t form := by
  induction depth generalizing minimum with
  | zero => exact fun c _ => .throw .exhausted
  | succ depth ih =>
    intro c hc
    refine .bind (current_supplies hc fun token d hd hf => .bind ?_)
    refine (operand_makes ho hplaced ih hd hf).imp fun left e he => ?_
    exact .bind (.unread (climb_makes ho ih he.1 he.2))

theorem expression_makes (ho : o.Makes t form embedded) (hplaced : t.cursor.Placed) :
    (o.expression embedded).Makes t form :=
  fun c hc => .bind (.unread (above_makes ho hplaced _ 0 c hc))

end Operators

end PredictiveParsing
