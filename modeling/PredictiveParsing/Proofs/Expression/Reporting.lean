import PredictiveParsing.Proofs.Expression.Nesting
import PredictiveParsing.Proofs.Reporting

/-!
# Expressions report

What an expression rejects is the token that it faces, behind those that it steps over; and what an
action of its table refuses is the failure of the expression. So an expression reports
(`ParseM.Reports`) if the parsers embedded in its table do, whatever its actions are.
-/

namespace PredictiveParsing.Operators

open ParseM

variable {V P : Type} {o : Operators V P} {repeats : ParseM (Result V) → Nat → Prop}
  {b c : Context} {token : Token} {embedded : P → ParseM (Result V)}
  {inner : Nat → ParseM (Result V)}

/-- The embedded parsers of the table report. -/
def Reports (repeats : ParseM (Result V) → Nat → Prop) (o : Operators V P)
    (embedded : P → ParseM (Result V)) : Prop :=
  ∀ type parser, o.role? type = some (.embed parser) → (embedded parser).Reports repeats

/-- Up to the next token that is not skipped a run goes on. -/
theorem current_reports {ok : Token → Context → Prop} (hc : b.Running repeats c)
    (hok : ∀ token d, b.Running repeats d → o.Faces d.tokenizer token → ok token d) :
    o.current.Ends c ok (b.Stopped repeats) :=
  current_keeps (fun _ _ _ hd hs hm => hd.commit hm (kind_of_skips hs))
    (fun _ _ hd hfailure => hd.fails hfailure) hc hok

/-- An operator with its operands makes a list, or its action is performed. -/
theorem outcome_reports {answer : Option (Answer (Result V))} {arguments : List (Result V)}
    (start : Position) {ok : Result V → Context → Prop} (hc : b.Running repeats c)
    (hok : ∀ r, ok r c) : (outcome start answer arguments).Ends c ok (b.Stopped repeats) := by
  cases answer with
  | none => exact .bind (.trusting (fun _ _ => .pure (hok _)) fun _ => hc.fails nofun)
  | some a => exact hc.perform fun r _ => hok r

/-- An operand reports if every expression inside of it does. -/
theorem operand_reports (ho : o.Reports repeats embedded)
    (hinner : ∀ minimum, (inner minimum).Reports repeats) (hc : b.Running repeats c)
    (hf : o.Faces c.tokenizer token) :
    (o.operand embedded inner token).Ends c (fun _ d => b.Running repeats d)
      (b.Stopped repeats) := by
  unfold operand
  cases hrole : o.roleOf? token with
  | none => exact .unexpected fun _ => hc.unexpected hf.1
  | some role =>
    obtain ⟨hk, hrole⟩ := role?_of_roleOf? hrole
    have prefixed (priority : Nat) (action : Option (PrefixAction V)) :
        (do
          commit token
          note (.prefixOp token priority)
          let result ← inner priority
          prefixResult action token result).Ends c
          (fun _ d => b.Running repeats d) (b.Stopped repeats) := by
      refine .bind (.committing (fun tokenizer hm => .bind (.note (.bind ?_)))
        fun _ => hc.fails nofun)
      refine (hinner priority).behind ((hc.commit hm hk).note rfl) fun operand d hd => ?_
      rw [prefixResult_eq c.tokenizer.position]
      exact outcome_reports _ hd fun _ => hd
    cases role with
    | infixOp => exact .unexpected fun _ => hc.unexpected hf.1
    | atom action =>
      refine .bind (.committing (fun tokenizer hm => .bind (.note ?_)) fun _ => hc.fails nofun)
      have hd : b.Running repeats (noted (committed c token tokenizer) (.atom token)) :=
        (hc.commit hm hk).note rfl
      cases action with
      | none => exact .pure hd
      | some f => exact hd.perform fun _ _ => hd
    | prefixOp priority action => exact prefixed priority action
    | mixfix priority _ _ action => exact prefixed priority action
    | embed parser =>
      refine .bind (.note ?_)
      exact (ho _ _ hrole).behind (hc.note rfl) fun _ _ hd => hd
    | bracket opening closing =>
      refine .bind (.committing (fun tokenizer hm => .bind ?_) fun _ => hc.fails nofun)
      refine (hinner 0).behind (hc.commit hm hk) fun r d hd => .bind ?_
      refine current_reports hd fun last e he hlast => ?_
      cases hcloses : last.is closing with
      | false => exact .unexpected fun _ => he.unexpected hlast.1
      | true =>
        refine .bind (.committing (fun tokenizer hm => .bind ?_) fun _ => he.fails nofun)
        have hend := he.commit hm (Token.kind_of_is hcloses)
        exact .trusting (fun span _ => .pure hend) fun _ => hend.fails nofun

/-- A climb reports if every expression inside of it does. -/
theorem climb_reports (hinner : ∀ minimum, (inner minimum).Reports repeats) {minimum n : Nat}
    {left : Result V} (hc : b.Running repeats c) :
    (o.climb inner minimum n left).Ends c (fun _ d => b.Running repeats d)
      (b.Stopped repeats) := by
  induction n generalizing c left with
  | zero => exact .throw (hc.fails nofun)
  | succ n ih =>
    refine .bind (current_reports hc fun token d hd hf => ?_)
    cases hinfix : (o.roleOf? token).bind Role.infixRole? with
    | none => exact .pure hd
    | some operator =>
      obtain ⟨priority, associativity, action⟩ := operator
      obtain ⟨role, hrole, -⟩ := Option.bind_eq_some_iff.1 hinfix
      dsimp only
      split
      · exact .pure hd
      · refine .bind (.committing (fun tokenizer hm => .bind (.note (.bind ?_)))
          fun _ => hd.fails nofun)
        have hop := hd.commit hm (role?_of_roleOf? hrole).1
        refine (hinner _).behind (hop.note rfl) fun right e he => .bind ?_
        rw [infixResult_eq c.tokenizer.position]
        exact outcome_reports _ he fun _ => ih he

/-- An expression reports, however deep it may be. -/
theorem above_reports (ho : o.Reports repeats embedded) (depth minimum : Nat) :
    (o.above embedded depth minimum).Reports repeats := by
  induction depth generalizing minimum with
  | zero => exact fun c => .throw ((Context.Running.refl c).fails nofun)
  | succ depth ih =>
    intro c
    refine .bind (current_reports (.refl c) fun token d hd hf => .bind ?_)
    refine (operand_reports ho ih hd hf).imp fun left e he => ?_
    exact .bind (.unread (climb_reports ih he))

theorem expression_reports (ho : o.Reports repeats embedded) :
    (o.expression embedded).Reports repeats :=
  fun c => .bind (.unread (above_reports ho _ 0 c))

end PredictiveParsing.Operators
