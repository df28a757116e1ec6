import Mathlib.Data.List.Perm.Basic
import Mathlib.Logic.Relation
import PredictiveParsing.Proofs.Grammar.Unfolding

/-!
# The order of operator tables

The roles of an operator table are listed in some order, which means nothing. Parsers are
`Parser.Reordered` if they differ in the order of their tables only, and grammars are if their rules
and entries do. Such parsers have the same FIRST sets (`Grammar.Reordered.hasFirst`), and what they
reach differs in the order of tables only (`Grammar.Reordered.reaches`).
-/

namespace PredictiveParsing

open Relation

variable {V : Type}

/-! ## Lists of lookaheads -/

namespace Lookahead

variable {l m n : Lookahead}

theorem before_token {a b : TokenType} : (token a).before (token b) = true ↔ a < b :=
  decide_eq_true_iff

theorem before_trans (h : l.before m = true) (h' : m.before n = true) : l.before n = true := by
  cases l with
  | endOfInput => cases h
  | token a =>
    cases n with
    | endOfInput => rfl
    | token c =>
      cases m with
      | endOfInput => cases h'
      | token b =>
        exact before_token.2 (String.lt_trans (before_token.1 h) (before_token.1 h'))

theorem not_before_of_before (h : l.before m = true) : m.before l = false := by
  refine Bool.eq_false_iff.2 fun h' => ?_
  cases l with
  | endOfInput => cases h
  | token a =>
    cases m with
    | endOfInput => cases h'
    | token b => exact String.lt_asymm (before_token.1 h) (before_token.1 h')

theorem before_of_not_before (hne : l ≠ m) (h : l.before m = false) : m.before l = true := by
  cases l with
  | endOfInput =>
    cases m with
    | endOfInput => exact absurd rfl hne
    | token b => rfl
  | token a =>
    cases m with
    | endOfInput => cases h
    | token b =>
      have hle : b ≤ a := String.not_lt.1 fun hlt => Bool.eq_false_iff.1 h (before_token.2 hlt)
      refine before_token.2 (String.not_le.1 fun hle' => hne ?_)
      rw [String.le_antisymm hle' hle]

/-- Of two lookaheads it is of no importance which is added first. -/
theorem insert_comm (l m : Lookahead) (ms : List Lookahead) :
    insert l (insert m ms) = insert m (insert l ms) := by
  by_cases hlm : l = m
  · rw [hlm]
  · -- both end up in front of the first element that each of them is before
    induction ms with
    | nil => grind [insert, not_before_of_before, before_of_not_before]
    | cons n ns ih => grind [insert, before_trans, not_before_of_before, before_of_not_before]

/-- The order in which lookaheads are added is of no importance. -/
theorem union_perm {ls ls' : List Lookahead} (h : ls.Perm ls') (ms : List Lookahead) :
    union ls ms = union ls' ms := by
  have : LeftCommutative insert := ⟨insert_comm⟩
  exact h.foldr_eq ms

end Lookahead

/-! ## Reordered parsers -/

namespace Parser

/-- The parsers differ in the order of a single table. -/
inductive Reorders : Parser V → Parser V → Prop
  | roles {roles roles' : List (TokenType × Role V (Parser V))} {skip : List TokenType}
      (perm : roles.Perm roles') : Reorders (.expr ⟨roles, skip⟩) (.expr ⟨roles', skip⟩)
  | member {before after : List (Member (Parser V))} {mark : Mark} {p p' : Parser V}
      {action : Option (TupleAction V)} (h : Reorders p p') :
      Reorders (.tuple (before ++ ⟨mark, p⟩ :: after) action)
        (.tuple (before ++ ⟨mark, p'⟩ :: after) action)
  | alternative {slot : Nat} {before after : List (Parser V)} {p p' : Parser V}
      (h : Reorders p p') :
      Reorders (.choice slot (before ++ p :: after)) (.choice slot (before ++ p' :: after))
  | repeated {body body' : Parser V} {minimum : Nat} (h : Reorders body body') :
      Reorders (.many body minimum) (.many body' minimum)
  | embedded {body body' : Parser V} (h : Reorders body body') :
      Reorders (.embed body) (.embed body')
  | role {before after : List (TokenType × Role V (Parser V))} {key : TokenType}
      {p p' : Parser V} {skip : List TokenType} (h : Reorders p p') :
      Reorders (.expr ⟨before ++ (key, .embed p) :: after, skip⟩)
        (.expr ⟨before ++ (key, .embed p') :: after, skip⟩)

/-- The parsers differ in the order of their tables only. -/
def Reordered : Parser V → Parser V → Prop := ReflTransGen Reorders

variable {p p' q r : Parser V} {rule : String → Except GrammarError FirstSet} {f : FirstSet}

theorem Reorders.symm (h : Reorders p p') : Reorders p' p := by
  induction h with
  | roles perm => exact .roles perm.symm
  | member _ ih => exact .member ih
  | alternative _ ih => exact .alternative ih
  | repeated _ ih => exact .repeated ih
  | embedded _ ih => exact .embedded ih
  | role _ ih => exact .role ih

theorem Reordered.symm (h : Reordered p p') : Reordered p' p := by
  induction h with
  | refl => exact .refl
  | tail _ step ih => exact .head step.symm ih

/-! ## FIRST sets -/

theorem membersFirst_congr {before after : List (Member (Parser V))} {mark : Mark}
    (hp : ∀ f, p.first rule = .ok f → p'.first rule = .ok f) {f : FirstSet}
    (h : membersFirst rule (before ++ ⟨mark, p⟩ :: after) = .ok f) :
    membersFirst rule (before ++ ⟨mark, p'⟩ :: after) = .ok f := by
  induction before generalizing f with
  | nil =>
    obtain ⟨f₁, h₁, h⟩ := bind_eq_ok h
    show (p'.first rule >>= _) = _
    rw [hp f₁ h₁]
    exact h
  | cons m before ih =>
    obtain ⟨f₁, h₁, h⟩ := bind_eq_ok h
    show (m.parser.first rule >>= _) = _
    rw [h₁]
    change (if f₁.nullable then _ else _) = _ at h
    show (if f₁.nullable then _ else _) = _
    cases hn : f₁.nullable with
    | false =>
      rw [hn] at h
      exact h
    | true =>
      rw [hn] at h
      obtain ⟨f₂, h₂, h⟩ := bind_eq_ok h
      show (membersFirst rule (before ++ ⟨mark, p'⟩ :: after) >>= _) = _
      rw [ih h₂]
      exact h

theorem alternativesFirst_congr {before after : List (Parser V)}
    (hp : ∀ f, p.first rule = .ok f → p'.first rule = .ok f) {f : FirstSet}
    (h : alternativesFirst rule (before ++ p :: after) = .ok f) :
    alternativesFirst rule (before ++ p' :: after) = .ok f := by
  induction before generalizing f with
  | nil =>
    obtain ⟨f₁, h₁, h⟩ := bind_eq_ok h
    show (p'.first rule >>= _) = _
    rw [hp f₁ h₁]
    exact h
  | cons q before ih =>
    obtain ⟨f₁, h₁, h⟩ := bind_eq_ok h
    obtain ⟨f₂, h₂, h⟩ := bind_eq_ok h
    show (q.first rule >>= _) = _
    rw [h₁]
    show (alternativesFirst rule (before ++ p' :: after) >>= _) = _
    rw [ih h₂]
    exact h

/-- Roles that are listed in another order have the same leading types. -/
theorem leadingTypes_perm {roles roles' : List (TokenType × Role V (Parser V))}
    (h : roles.Perm roles') (skip : List TokenType) :
    (Operators.leadingTypes ⟨roles, skip⟩).Perm (Operators.leadingTypes ⟨roles', skip⟩) :=
  ((h.filter _).map _).append_right skip

theorem leadingTypes_role (before after : List (TokenType × Role V (Parser V))) (key : TokenType)
    (p p' : Parser V) (skip : List TokenType) :
    Operators.leadingTypes ⟨before ++ (key, .embed p) :: after, skip⟩ =
      Operators.leadingTypes ⟨before ++ (key, .embed p') :: after, skip⟩ := by
  simp [Operators.leadingTypes, List.filter_append, Role.startsOperand]

/-- The parsers of a table, of which one is another. -/
theorem mem_roles_of_role {before after : List (TokenType × Role V (Parser V))}
    {key key' : TokenType} (h : (key', Role.embed q) ∈ before ++ (key, .embed p') :: after) :
    (key' = key ∧ q = p') ∨ (key', Role.embed q) ∈ before ++ (key, .embed p) :: after := by
  rcases List.mem_append.1 h with h | h
  · exact .inr (List.mem_append_left _ h)
  · rcases List.mem_cons.1 h with h | h
    · cases h
      exact .inl ⟨rfl, rfl⟩
    · exact .inr (List.mem_append_right _ (.tail _ h))

/-- Another order of a table leaves FIRST sets as they are. -/
theorem Reorders.first (h : Reorders p p') {f : FirstSet} (hf : p.first rule = .ok f) :
    p'.first rule = .ok f := by
  induction h generalizing f with
  | roles perm =>
    obtain ⟨hroles, rfl⟩ := first_expr_eq_ok_iff.1 hf
    refine first_expr_eq_ok_iff.2 ⟨fun key q hq => hroles key q (perm.mem_iff.2 hq), ?_⟩
    rw [Lookahead.union_perm ((leadingTypes_perm perm _).map _)]
  | member _ ih => exact membersFirst_congr (fun _ => ih) hf
  | alternative _ ih => exact alternativesFirst_congr (fun _ => ih) hf
  | repeated _ ih =>
    obtain ⟨f₁, h₁, hf⟩ := bind_eq_ok hf
    show (_ >>= _) = _
    rw [ih h₁]
    exact hf
  | embedded _ ih => exact ih hf
  | @role before after key p p' skip _ ih =>
    obtain ⟨hroles, rfl⟩ := first_expr_eq_ok_iff.1 hf
    refine first_expr_eq_ok_iff.2 ⟨fun key' q hq => ?_, ?_⟩
    · rcases mem_roles_of_role hq with ⟨rfl, rfl⟩ | hq
      · obtain ⟨f, hf⟩ := hroles key' p (List.mem_append_right _ (.head _))
        exact ⟨f, ih hf⟩
      · exact hroles key' q hq
    · rw [leadingTypes_role]

theorem Reordered.first (h : Reordered p p') (hf : p.first rule = .ok f) :
    p'.first rule = .ok f := by
  induction h with
  | refl => exact hf
  | tail _ step ih => exact step.first ih

/-! ## Parts -/

/-- The parts differ in the order of their tables only. -/
theorem Reorders.child (h : Reorders p p') (hr : Child r p) :
    ∃ r', Child r' p' ∧ Reordered r r' := by
  cases h with
  | roles perm =>
    cases hr with
    | role mem => exact ⟨r, .role (perm.mem_iff.1 mem), .refl⟩
  | @member before after mark q q' action h =>
    cases hr with
    | @member _ _ m mem =>
      rcases List.mem_append.1 mem with mem | mem
      · exact ⟨_, .member (List.mem_append_left _ mem), .refl⟩
      · rcases List.mem_cons.1 mem with rfl | mem
        · exact ⟨q', .member (m := ⟨mark, q'⟩) (List.mem_append_right _ (.head _)), .single h⟩
        · exact ⟨_, .member (List.mem_append_right _ (.tail _ mem)), .refl⟩
  | @alternative slot before after q q' h =>
    cases hr with
    | alternative mem =>
      rcases List.mem_append.1 mem with mem | mem
      · exact ⟨_, .alternative (List.mem_append_left _ mem), .refl⟩
      · rcases List.mem_cons.1 mem with rfl | mem
        · exact ⟨q', .alternative (List.mem_append_right _ (.head _)), .single h⟩
        · exact ⟨_, .alternative (List.mem_append_right _ (.tail _ mem)), .refl⟩
  | repeated h =>
    cases hr with
    | repeated => exact ⟨_, .repeated, .single h⟩
  | embedded h =>
    cases hr with
    | embedded => exact ⟨_, .embedded, .single h⟩
  | @role before after key q q' skip h =>
    cases hr with
    | role mem =>
      rcases mem_roles_of_role mem with ⟨rfl, rfl⟩ | mem
      · exact ⟨q', .role (List.mem_append_right _ (.head _)), .single h⟩
      · exact ⟨r, .role mem, .refl⟩

theorem Reordered.child (h : Reordered p p') (hr : Child r p) :
    ∃ r', Child r' p' ∧ Reordered r r' := by
  induction h with
  | refl => exact ⟨r, hr, .refl⟩
  | tail _ step ih =>
    obtain ⟨r₁, hr₁, h₁⟩ := ih
    obtain ⟨r₂, hr₂, h₂⟩ := step.child hr₁
    exact ⟨r₂, hr₂, h₁.trans h₂⟩

/-- Only a reference differs from a reference in the order of tables. -/
theorem Reordered.ref {name : String} (h : Reordered (.ref name) p') : p' = .ref name := by
  induction h with
  | refl => rfl
  | tail _ step ih =>
    subst ih
    cases step

end Parser

/-! ## Reordered grammars -/

namespace Grammar

/-- The grammars differ in the order of their tables only. -/
structure Reordered (g g' : Grammar V) : Prop where
  rules : List.Forall₂ (fun rule rule' : String × Parser V =>
    rule.1 = rule'.1 ∧ Parser.Reordered rule.2 rule'.2) g.rules g'.rules
  entry : Option.Rel Parser.Reordered g.entry g'.entry

variable {g g' : Grammar V} {p p' q : Parser V} {name : String} {f : FirstSet}

theorem Reordered.symm (h : g.Reordered g') : g'.Reordered g := by
  refine ⟨h.rules.flip.imp fun _ _ ⟨hname, hrule⟩ => ⟨hname.symm, hrule.symm⟩, ?_⟩
  have hentry := h.entry
  generalize g.entry = entry at hentry ⊢
  generalize g'.entry = entry' at hentry ⊢
  cases hentry with
  | some h => exact .some h.symm
  | none => exact .none

/-- The rules of a name differ in the order of their tables only. -/
theorem Reordered.rule? (h : g.Reordered g') (hp : g.rule? name = some p) :
    ∃ p', g'.rule? name = some p' ∧ Parser.Reordered p p' := by
  have hrules := h.rules
  unfold Grammar.rule? at hp ⊢
  generalize g.rules = rules at hrules hp
  generalize g'.rules = rules' at hrules
  induction hrules with
  | nil => cases hp
  | @cons rule rule' _ _ hrule _ ih =>
    obtain ⟨name₁, p₁⟩ := rule
    obtain ⟨name₁', p₁'⟩ := rule'
    obtain ⟨hname, hp₁⟩ := hrule
    cases hname
    rw [List.lookup_cons] at hp ⊢
    cases hhere : name == name₁ with
    | true =>
      rw [hhere] at hp
      cases hp
      exact ⟨p₁', rfl, hp₁⟩
    | false =>
      rw [hhere] at hp
      exact ih hp

/-- The same names are registered, in the same order. -/
theorem Reordered.names (h : g.Reordered g') : g'.names = g.names := by
  have hrules := h.rules
  unfold Grammar.names
  generalize g.rules = rules at hrules ⊢
  generalize g'.rules = rules' at hrules ⊢
  induction hrules with
  | nil => rfl
  | cons hrule _ ih => rw [List.map_cons, List.map_cons, ih, hrule.1]

/-- The parsers to start from differ in the order of their tables only. -/
theorem Reordered.entry? (h : g.Reordered g') (hp : g.entry? = some p) :
    ∃ p', g'.entry? = some p' ∧ Parser.Reordered p p' := by
  have hentry := h.entry
  unfold Grammar.entry? at hp ⊢
  rw [h.names]
  generalize g.entry = entry at hentry hp
  generalize g'.entry = entry' at hentry ⊢
  cases hentry with
  | some h =>
    cases hp
    exact ⟨_, rfl, h⟩
  | none => exact ⟨p, hp, .refl⟩

theorem Reordered.firstWithin (h : g.Reordered g') {n : Nat} (hf : g.firstWithin n name = .ok f) :
    g'.firstWithin n name = .ok f := by
  induction n generalizing name f with
  | zero => cases hf
  | succ n ih =>
    obtain ⟨_, p, hk, hp, hf⟩ := firstWithin_eq_ok hf
    cases hk
    obtain ⟨p', hp', hreordered⟩ := h.rule? hp
    exact firstWithin_of_rule? hp' (hreordered.first (Parser.first_mono (fun _ _ => ih) p hf))

/-- Parsers that differ in the order of tables only have the same FIRST sets. -/
theorem Reordered.hasFirst (h : g.Reordered g') (hp : Parser.Reordered p p')
    (hf : g.HasFirst p f) : g'.HasFirst p' f := by
  obtain ⟨n, hf⟩ := hf
  exact ⟨n, hp.first (Parser.first_mono (fun _ _ => h.firstWithin) p hf)⟩

/-- What is reached differs in the order of tables only. -/
theorem Reordered.reaches (h : g.Reordered g') (hp : Parser.Reordered p p')
    (hq : g.Reaches p q) : ∃ q', g'.Reaches p' q' ∧ Parser.Reordered q q' := by
  induction hq with
  | refl => exact ⟨p', .refl, hp⟩
  | child _ part ih =>
    obtain ⟨q', hq', hreordered⟩ := ih
    obtain ⟨r', part', hreordered'⟩ := hreordered.child part
    exact ⟨r', hq'.child part', hreordered'⟩
  | rule _ registered ih =>
    obtain ⟨q', hq', hreordered⟩ := ih
    cases hreordered.ref
    obtain ⟨r', registered', hreordered'⟩ := h.rule? registered
    exact ⟨r', hq'.rule registered', hreordered'⟩

end Grammar

end PredictiveParsing
