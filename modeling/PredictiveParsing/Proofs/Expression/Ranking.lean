import Mathlib.Order.Bounds.Basic
import Mathlib.Order.Monotone.Basic
import PredictiveParsing.Proofs.Expression.Alike
import PredictiveParsing.Proofs.Expression.Evaluating
import PredictiveParsing.Proofs.Expression.Grouping

/-!
# The order of priorities

Of the priorities of an operator table only the order matters. If every priority is replaced by its
image under a map that is strictly increasing on those that the table uses, expressions read as
before (`Operators.expression_mapPriorities`). The least priorities that a climb is given are not
among those used: they begin with 0, and go on with successors. What they have in common with their
counterparts is that they admit the same operators (`Operators.Admits`).
-/

namespace PredictiveParsing

open ParseM

variable {V P : Type}

/-! ## Tables with other priorities -/

/-- The priorities of a role, those before an operand and those behind one. -/
def Role.priorities : Role V P → List Nat
  | prefixOp p _ => [p]
  | infixOp p _ _ => [p]
  | mixfix p i _ _ _ => [p, i]
  | atom _ | bracket _ _ | embed _ => []

/-- The role with other priorities. -/
def Role.mapPriorities (f : Nat → Nat) : Role V P → Role V P
  | prefixOp p action => prefixOp (f p) action
  | infixOp p associativity action => infixOp (f p) associativity action
  | mixfix p i associativity onPrefix onInfix => mixfix (f p) (f i) associativity onPrefix onInfix
  | role => role

namespace Operators

/-- The priorities that a table uses. -/
def priorities (o : Operators V P) : Set Nat :=
  { n | ∃ type role, o.role? type = some role ∧ n ∈ role.priorities }

/-- The table with other priorities. -/
def mapPriorities (f : Nat → Nat) (o : Operators V P) : Operators V P :=
  ⟨o.roles.map fun entry => (entry.1, entry.2.mapPriorities f), o.skip⟩

/-- Expressions of both tables have the same outcome and leave the same tokenizer. -/
def ReadsAs (o o' : Operators V P) : Prop :=
  ∀ (embedded : P → ParseM (Result V)) (c : Context),
    (o'.expression embedded c).1 = (o.expression embedded c).1 ∧
      (o'.expression embedded c).2.tokenizer = (o.expression embedded c).2.tokenizer

/-- The two least priorities admit the same operators, those of the first table and those with the
other priorities. -/
def Admits (o : Operators V P) (f : Nat → Nat) (minimum minimum' : Nat) : Prop :=
  ∀ priority ∈ o.priorities, priority < minimum ↔ f priority < minimum'

section

variable {o : Operators V P} {f : Nat → Nat} {token : Token}

theorem role?_mapPriorities (f : Nat → Nat) (o : Operators V P) (type : TokenType) :
    (o.mapPriorities f).role? type = (o.role? type).map (Role.mapPriorities f) := by
  obtain ⟨roles, skip⟩ := o
  unfold role? mapPriorities
  induction roles with
  | nil => rfl
  | cons entry roles ih =>
    obtain ⟨key, role⟩ := entry
    rw [List.map_cons, List.lookup_cons, List.lookup_cons]
    cases type == key with
    | true => rfl
    | false => exact ih

theorem roleOf?_mapPriorities (f : Nat → Nat) (o : Operators V P) (token : Token) :
    (o.mapPriorities f).roleOf? token = (o.roleOf? token).map (Role.mapPriorities f) := by
  unfold roleOf?
  split
  · exact role?_mapPriorities f o token.type
  · rfl

/-- Behind an operand, a role is the operator that it was, with another priority. -/
theorem infixRole?_mapPriorities (f : Nat → Nat) (role : Role V P) :
    (role.mapPriorities f).infixRole? =
      role.infixRole?.map fun operator => (f operator.1, operator.2) := by
  cases role <;> rfl

theorem current_mapPriorities (f : Nat → Nat) (o : Operators V P) :
    (o.mapPriorities f).current = o.current := by
  have hskipTo (n : Nat) : (o.mapPriorities f).skipTo n = o.skipTo n := by
    induction n with
    | zero => rfl
    | succ n ih =>
      unfold skipTo
      rw [ih]
      rfl
  unfold current
  funext c
  rw [bind_of_ok (unread_apply c), bind_of_ok (unread_apply c), hskipTo]

/-! ## Least priorities -/

theorem admits_zero (o : Operators V P) (f : Nat → Nat) : o.Admits f 0 0 :=
  fun _ _ => ⟨fun h => absurd h (Nat.not_lt_zero _), fun h => absurd h (Nat.not_lt_zero _)⟩

/-- A priority admits what its image does. -/
theorem admits_of_mem (hf : StrictMonoOn f o.priorities) {priority : Nat}
    (h : priority ∈ o.priorities) : o.Admits f priority (f priority) :=
  fun _ hother => (hf.lt_iff_lt hother h).symm

/-- The right operands of an operator admit what they did, although the successor of a priority need
not be mapped to the successor of its image. -/
theorem admits_rightMinimum (hf : StrictMonoOn f o.priorities) {priority : Nat}
    (h : priority ∈ o.priorities) (associativity : Associativity) :
    o.Admits f (associativity.rightMinimum priority) (associativity.rightMinimum (f priority)) := by
  cases associativity with
  | right => exact admits_of_mem hf h
  | left =>
    intro other hother
    show other < priority + 1 ↔ f other < f priority + 1
    rw [Nat.lt_succ_iff, Nat.lt_succ_iff, hf.le_iff_le hother h]

theorem mem_priorities {role : Role V P} (hrole : o.roleOf? token = some role) {priority : Nat}
    (h : priority ∈ role.priorities) : priority ∈ o.priorities :=
  ⟨token.type, role, (role?_of_roleOf? hrole).2, h⟩

/-- The priority of an infix operator is one that the table uses. -/
theorem mem_priorities_of_infixRole? {operator : Nat × Associativity × Option (InfixAction V)}
    (h : (o.roleOf? token).bind Role.infixRole? = some operator) : operator.1 ∈ o.priorities := by
  obtain ⟨role, hrole, hinfix⟩ := Option.bind_eq_some_iff.1 h
  refine mem_priorities hrole ?_
  cases role <;> cases hinfix <;> simp [Role.priorities]

end

end Operators

/-! ## Runs -/

/-- From the end of the input nothing is reached. -/
theorem Grammar.Reaches.eq_endOfInput {g : Grammar V} {q : Parser V}
    (h : g.Reaches .endOfInput q) : q = .endOfInput := by
  induction h with
  | refl => rfl
  | child _ hchild ih => subst ih; cases hchild
  | rule _ _ ih => cases ih

/-- All journals, which can be trusted where there is no choice. -/
def Journal.Kind.any : Journal.Kind (.empty : Grammar V) .endOfInput where
  Holds _ := True
  faithful _ := .inr
    ⟨fun _ _ _ h => (nomatch h.eq_endOfInput), fun _ _ _ h => nomatch h.eq_endOfInput⟩
  note _ _ := trivial
  keep _ _ _ := trivial

section

variable {g : Grammar V} {p : Parser V} {k k' : Journal.Kind g p} {t : Tokenizer}
  {limited : Prop}

/-- Runs that note different events do alike. -/
theorem Follows.noting (e e' : Event) :
    Follows limited t k k' (ParseM.note e) (ParseM.note e') :=
  fun c d hcd => .inr ⟨.ok (), noted c e, noted d e', rfl, rfl, hcd.tokenizer, hcd.behind,
    k.note e hcd.left, k'.note e' hcd.right⟩

namespace Operators

variable {o : Operators V P} {f : Nat → Nat} {embedded : P → ParseM (Result V)}
  {inner inner' : Nat → ParseM (Result V)}

/-- An operand is read alike if the expressions inside of it are, with least priorities that admit
the same operators. -/
theorem follows_operand_mapPriorities (ho : o.Closed) (hf : StrictMonoOn f o.priorities)
    (hinner : ∀ m m', o.Admits f m m' → Follows limited t k k' (inner m) (inner' m'))
    (token : Token) :
    Follows limited t k k' (o.operand embedded inner token)
      ((o.mapPriorities f).operand embedded inner' token) := by
  unfold operand
  rw [roleOf?_mapPriorities]
  cases hrole : o.roleOf? token with
  | none => exact .unexpected _ token
  | some role =>
    obtain ⟨hk, hrole'⟩ := role?_of_roleOf? hrole
    have prefixed {priority : Nat} (hmem : priority ∈ role.priorities)
        (action : Option (PrefixAction V)) :
        Follows limited t k k' (do
          commit token
          note (.prefixOp token priority)
          let result ← inner priority
          prefixResult action token result) (do
          commit token
          note (.prefixOp token (f priority))
          let result ← inner' (f priority)
          prefixResult action token result) :=
      .bind (.commit hk) fun _ => .bind (.noting _ _) fun _ =>
        .bind (hinner _ _ (admits_of_mem hf (mem_priorities hrole hmem))) fun _ =>
          follows_prefixResult _ _ _
    cases role with
    | atom action =>
      exact .bind (.commit hk) fun _ => .bind (.note _) fun _ => follows_atomResult action token
    | prefixOp priority action => exact prefixed (.head _) action
    | mixfix priority _ _ action _ => exact prefixed (.head _) action
    | infixOp => exact .unexpected _ token
    | embed parser => exact absurd hrole' (ho token.type parser)
    | bracket opening closing =>
      show Follows limited t k k' _ (commit token >>= fun _ => inner' 0 >>= fun result =>
        (o.mapPriorities f).current >>= _)
      rw [current_mapPriorities]
      refine .bind (.commit hk) fun _ => .bind (hinner 0 0 (admits_zero o f)) fun result => ?_
      refine .bind follows_current fun last => ?_
      cases hcloses : last.is closing with
      | true =>
        exact .bind (.commit (Token.kind_of_is hcloses)) fun _ => .bind (.trust _) fun _ => .pure _
      | false => exact .unexpected _ last

/-- A climb takes the same operators if its least priorities admit the same ones. -/
theorem follows_climb_mapPriorities (hf : StrictMonoOn f o.priorities)
    (hinner : ∀ m m', o.Admits f m m' → Follows limited t k k' (inner m) (inner' m'))
    {minimum minimum' : Nat} (hadmits : o.Admits f minimum minimum') (n : Nat) (left : Result V) :
    Follows limited t k k' (o.climb inner minimum n left)
      ((o.mapPriorities f).climb inner' minimum' n left) := by
  induction n generalizing left with
  | zero => exact .throw .exhausted
  | succ n ih =>
    unfold climb
    rw [current_mapPriorities]
    refine .bind follows_current fun token => ?_
    have hroles : ((o.mapPriorities f).roleOf? token).bind Role.infixRole? =
        ((o.roleOf? token).bind Role.infixRole?).map fun operator => (f operator.1, operator.2) := by
      rw [roleOf?_mapPriorities]
      cases o.roleOf? token with
      | none => rfl
      | some role => exact infixRole?_mapPriorities f role
    rw [hroles]
    cases hinfix : (o.roleOf? token).bind Role.infixRole? with
    | none => exact .pure left
    | some operator =>
      obtain ⟨priority, associativity, action⟩ := operator
      have hmem : priority ∈ o.priorities := mem_priorities_of_infixRole? hinfix
      obtain ⟨role, hrole, -⟩ := Option.bind_eq_some_iff.1 hinfix
      have hk := (role?_of_roleOf? hrole).1
      dsimp only [Option.map_some]
      by_cases hlow : priority < minimum
      · rw [if_pos hlow, if_pos ((hadmits priority hmem).1 hlow)]
        exact .pure left
      · rw [if_neg hlow, if_neg fun h => hlow ((hadmits priority hmem).2 h)]
        exact .bind (.commit hk) fun _ => .bind (.noting _ _) fun _ =>
          .bind (hinner _ _ (admits_rightMinimum hf hmem associativity)) fun right =>
            .bind (follows_infixResult action left token right) ih

/-- Expressions are read alike with least priorities that admit the same operators. -/
theorem follows_above_mapPriorities (ho : o.Closed) (hf : StrictMonoOn f o.priorities)
    (depth : Nat) {minimum minimum' : Nat} (hadmits : o.Admits f minimum minimum') :
    Follows limited t k k' (o.above embedded depth minimum)
      ((o.mapPriorities f).above embedded depth minimum') := by
  induction depth generalizing minimum minimum' with
  | zero => exact .throw .exhausted
  | succ depth ih =>
    unfold above
    rw [current_mapPriorities]
    refine .bind follows_current fun token => ?_
    refine .bind (follows_operand_mapPriorities ho hf (fun _ _ => ih) token) fun left => ?_
    exact .bind .unread fun _ => follows_climb_mapPriorities hf (fun _ _ => ih) hadmits _ left

end Operators

end

namespace Operators

variable {o : Operators V P} {f : Nat → Nat}

/-- Under a map that is strictly increasing on the priorities that are used, a table reads as
before. -/
theorem readsAs_mapPriorities (ho : o.Closed) (hf : StrictMonoOn f o.priorities) :
    o.ReadsAs (o.mapPriorities f) := by
  intro embedded c
  have halike : Alike c.tokenizer (.any : Journal.Kind (.empty : Grammar V) _) .any c c :=
    ⟨rfl, .refl _, trivial, trivial⟩
  have hfollows : Follows False c.tokenizer (.any : Journal.Kind (.empty : Grammar V) _) .any
      (o.expression embedded) ((o.mapPriorities f).expression embedded) :=
    .bind .unread fun _ => follows_above_mapPriorities ho hf _ (admits_zero o f)
  obtain ⟨outcome, c', d', hc, hd, hend⟩ := hfollows.ends_alike halike False.elim
  rw [hc, hd]
  exact ⟨rfl, hend.tokenizer⟩

/-- Raising the greatest priority is strictly increasing on those that are used. -/
theorem strictMonoOn_raise {s : Set Nat} {top limit : Nat} (htop : IsGreatest s top)
    (hlimit : top ≤ limit) : StrictMonoOn (Function.update id top limit) s := by
  intro a ha b hb hab
  have hb' := htop.2 hb
  rw [Function.update_of_ne (by omega)]
  by_cases h : b = top
  · rw [h, Function.update_self]
    exact Nat.lt_of_lt_of_le (h ▸ hab) hlimit
  · rw [Function.update_of_ne h]
    exact hab

/-- Lowering the least priority to 0 is strictly increasing on those that are used. -/
theorem strictMonoOn_lower {s : Set Nat} {bottom : Nat} (hbottom : IsLeast s bottom) :
    StrictMonoOn (Function.update id bottom 0) s := by
  intro a ha b hb hab
  have ha' := hbottom.2 ha
  rw [Function.update_of_ne (a := b) (by omega)]
  by_cases h : a = bottom
  · rw [h, Function.update_self]
    exact Nat.zero_lt_of_lt hab
  · rw [Function.update_of_ne h]
    exact hab

/-- The largest priority that an operator can be given. -/
def largestPriority : Nat := 4294967295

/-- Of the priorities of a table without embedded parsers only the order matters: replacing each by
its image under a map that is strictly increasing on those that are used changes no outcome and no
cursor, from wherever the expression is read. In particular the greatest one can be raised to the
largest priority that there is, and the least one lowered to 0. -/
theorem expression_mapPriorities (ho : o.Closed) :
    (∀ f, StrictMonoOn f o.priorities → o.ReadsAs (o.mapPriorities f)) ∧
    (∀ top, IsGreatest o.priorities top → top ≤ largestPriority →
      o.ReadsAs (o.mapPriorities (Function.update id top largestPriority))) ∧
    ∀ bottom, IsLeast o.priorities bottom →
      o.ReadsAs (o.mapPriorities (Function.update id bottom 0)) :=
  ⟨fun _ hf => readsAs_mapPriorities ho hf,
    fun _ htop hlimit => readsAs_mapPriorities ho (strictMonoOn_raise htop hlimit),
    fun _ hbottom => readsAs_mapPriorities ho (strictMonoOn_lower hbottom)⟩

theorem arithmetic_closed : (arithmetic V P).Closed :=
  fun type parser h => arithmetic_bare V P type (.embed parser) h

theorem arithmetic_priorities : (arithmetic V P).priorities = {1, 2, 3} := by
  ext n
  constructor
  · rintro ⟨type, role, hrole, hn⟩
    have hmem := mem_of_role? hrole
    simp only [arithmetic, List.mem_cons, Prod.mk.injEq, List.not_mem_nil, or_false] at hmem
    rcases hmem with ⟨-, rfl⟩ | ⟨-, rfl⟩ | ⟨-, rfl⟩ | ⟨-, rfl⟩ <;>
      simp [Role.priorities] at hn ⊢ <;> omega
  · rintro (rfl | rfl | rfl)
    · exact ⟨"-", _, rfl, .tail _ (.head _)⟩
    · exact ⟨"*", _, rfl, .head _⟩
    · exact ⟨"-", _, rfl, .head _⟩

/-- Arithmetic reads as before with priorities ten times as large, with negation at the largest
priority, and with differences at the least one. -/
theorem arithmetic_expression_mapPriorities :
    (arithmetic Unit Empty).ReadsAs ((arithmetic Unit Empty).mapPriorities (10 * ·)) ∧
      (arithmetic Unit Empty).ReadsAs
        ((arithmetic Unit Empty).mapPriorities (Function.update id 3 largestPriority)) ∧
      (arithmetic Unit Empty).ReadsAs
        ((arithmetic Unit Empty).mapPriorities (Function.update id 1 0)) := by
  obtain ⟨hmap, hraise, hlower⟩ := expression_mapPriorities (o := arithmetic Unit Empty)
    arithmetic_closed
  refine ⟨hmap _ fun a _ b _ hab => ?_, hraise 3 ?_ (by decide), hlower 1 ?_⟩
  · show 10 * a < 10 * b
    omega
  · rw [arithmetic_priorities]
    exact ⟨.inr (.inr rfl), by rintro n (rfl | rfl | rfl) <;> decide⟩
  · rw [arithmetic_priorities]
    exact ⟨.inl rfl, by rintro n (rfl | rfl | rfl) <;> decide⟩

end Operators

end PredictiveParsing
