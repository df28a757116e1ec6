import PredictiveParsing.Grammar.Basic

/-!
# What a parser reaches

A parser reaches its parts, and through references the rules of the grammar and their parts:
`Grammar.Reaches`. Going down from a parser to its parts makes it smaller (`Parser.Child.size_lt`),
and going from a reference to a rule that is not active yet makes the rules that are left smaller
(`Grammar.sizeWithout_cons`). Together they bound how deep parsers nest before a rule is met twice.
What is reached in all are the parts of the parser and of the rules (`Grammar.Reaches.mem_parts`), as
many as their sizes say.
-/

namespace PredictiveParsing

variable {V : Type}

namespace Parser

/-- The first parser is an immediate part of the second. -/
inductive Child : Parser V → Parser V → Prop
  | member {members : List (Member (Parser V))} {action : Option (TupleAction V)}
      {m : Member (Parser V)} (mem : m ∈ members) : Child m.parser (.tuple members action)
  | alternative {slot : Nat} {alternatives : List (Parser V)} {p : Parser V}
      (mem : p ∈ alternatives) : Child p (.choice slot alternatives)
  | repeated {body : Parser V} {minimum : Nat} : Child body (.many body minimum)
  | embedded {body : Parser V} : Child body (.embed body)
  | role {o : Operators V (Parser V)} {key : TokenType} {p : Parser V}
      (mem : (key, Role.embed p) ∈ o.roles) : Child p (.expr o)

theorem size_pos (p : Parser V) : 0 < p.size := by
  cases p with
  | token | endOfInput | ref => exact Nat.one_pos
  | tuple | choice | many | embed | expr => exact Nat.succ_pos _

theorem size_le_membersSize {m : Member (Parser V)} {members : List (Member (Parser V))}
    (h : m ∈ members) : m.parser.size ≤ membersSize members := by
  induction h with
  | head => exact Nat.le_add_right _ _
  | tail _ _ ih => exact Nat.le_trans ih (Nat.le_add_left _ _)

theorem size_le_alternativesSize {p : Parser V} {alternatives : List (Parser V)}
    (h : p ∈ alternatives) : p.size ≤ alternativesSize alternatives := by
  induction h with
  | head => exact Nat.le_add_right _ _
  | tail _ _ ih => exact Nat.le_trans ih (Nat.le_add_left _ _)

theorem size_le_rolesSize {key : TokenType} {p : Parser V}
    {roles : List (TokenType × Role V (Parser V))} (h : (key, Role.embed p) ∈ roles) :
    p.size ≤ rolesSize roles := by
  induction roles with
  | nil => cases h
  | cons entry roles ih =>
    obtain ⟨key', role⟩ := entry
    rcases List.mem_cons.1 h with h | h
    · cases h
      exact Nat.le_add_right _ _
    · have hle := ih h
      cases role with
      | embed q => exact Nat.le_trans hle (Nat.le_add_left _ _)
      | atom | prefixOp | infixOp | mixfix | bracket => exact hle

/-- A part is smaller than the whole. -/
theorem Child.size_lt {p q : Parser V} (h : Child p q) : p.size < q.size := by
  cases h with
  | member mem => exact Nat.lt_succ_of_le (size_le_membersSize mem)
  | alternative mem => exact Nat.lt_succ_of_le (size_le_alternativesSize mem)
  | repeated | embedded => exact Nat.lt_succ_self _
  | role mem => exact Nat.lt_succ_of_le (size_le_rolesSize mem)

/-! ## Parts -/

mutual

/-- The parser, its parts, and their parts. -/
def parts : Parser V → List (Parser V)
  | tuple members action => tuple members action :: membersParts members
  | choice slot alternatives => choice slot alternatives :: alternativesParts alternatives
  | many body minimum => many body minimum :: body.parts
  | embed body => embed body :: body.parts
  | expr ⟨roles, skip⟩ => expr ⟨roles, skip⟩ :: rolesParts roles
  | token type => [token type]
  | endOfInput => [endOfInput]
  | ref name => [ref name]

/-- The parts of the members of a sequence. -/
def membersParts : List (Member (Parser V)) → List (Parser V)
  | [] => []
  | ⟨_, p⟩ :: members => p.parts ++ membersParts members

/-- The parts of the alternatives of a choice. -/
def alternativesParts : List (Parser V) → List (Parser V)
  | [] => []
  | p :: alternatives => p.parts ++ alternativesParts alternatives

/-- The parts of the parsers embedded in a table. -/
def rolesParts : List (TokenType × Role V (Parser V)) → List (Parser V)
  | [] => []
  | (_, .embed p) :: roles => p.parts ++ rolesParts roles
  | _ :: roles => rolesParts roles

end

theorem self_mem_parts (p : Parser V) : p ∈ p.parts := by
  cases p with
  | token | endOfInput | ref => exact .head _
  | tuple | choice | many | embed | expr => exact .head _

mutual

/-- A parser has as many parts as its size says. -/
theorem length_parts (p : Parser V) : p.parts.length = p.size := by
  cases p with
  | token | endOfInput | ref => rfl
  | tuple members => exact congrArg (· + 1) (length_membersParts members)
  | choice slot alternatives => exact congrArg (· + 1) (length_alternativesParts alternatives)
  | many body | embed body => exact congrArg (· + 1) (length_parts body)
  | expr o => exact congrArg (· + 1) (length_rolesParts o.roles)

theorem length_membersParts (members : List (Member (Parser V))) :
    (membersParts members).length = membersSize members := by
  cases members with
  | nil => rfl
  | cons m members =>
    show (m.parser.parts ++ membersParts members).length = _
    rw [List.length_append, length_parts m.parser, length_membersParts members]
    rfl

theorem length_alternativesParts (alternatives : List (Parser V)) :
    (alternativesParts alternatives).length = alternativesSize alternatives := by
  cases alternatives with
  | nil => rfl
  | cons p alternatives =>
    show (p.parts ++ alternativesParts alternatives).length = _
    rw [List.length_append, length_parts p, length_alternativesParts alternatives]
    rfl

theorem length_rolesParts (roles : List (TokenType × Role V (Parser V))) :
    (rolesParts roles).length = rolesSize roles := by
  cases roles with
  | nil => rfl
  | cons entry roles =>
    obtain ⟨key, role⟩ := entry
    cases role with
    | embed p =>
      show (p.parts ++ rolesParts roles).length = _
      rw [List.length_append, length_parts p, length_rolesParts roles]
      rfl
    | atom | prefixOp | infixOp | mixfix | bracket => exact length_rolesParts roles

end

theorem membersParts_eq (members : List (Member (Parser V))) :
    membersParts members = members.flatMap fun m => m.parser.parts := by
  induction members with
  | nil => rfl
  | cons m members ih =>
    rw [List.flatMap_cons, ← ih]
    rfl

theorem alternativesParts_eq (alternatives : List (Parser V)) :
    alternativesParts alternatives = alternatives.flatMap parts := by
  induction alternatives with
  | nil => rfl
  | cons p alternatives ih =>
    rw [List.flatMap_cons, ← ih]
    rfl

theorem mem_rolesParts {q : Parser V} {roles : List (TokenType × Role V (Parser V))} :
    q ∈ rolesParts roles ↔ ∃ key p, (key, Role.embed p) ∈ roles ∧ q ∈ p.parts := by
  induction roles with
  | nil => simp [rolesParts]
  | cons entry roles ih =>
    obtain ⟨key, role⟩ := entry
    cases role with
    | embed p =>
      show q ∈ p.parts ++ rolesParts roles ↔ _
      rw [List.mem_append, ih]
      constructor
      · rintro (hq | ⟨key', p', hmem, hq⟩)
        · exact ⟨key, p, .head _, hq⟩
        · exact ⟨key', p', .tail _ hmem, hq⟩
      · rintro ⟨key', p', hmem, hq⟩
        rcases List.mem_cons.1 hmem with heq | hmem
        · cases heq
          exact .inl hq
        · exact .inr ⟨key', p', hmem, hq⟩
    | atom | prefixOp | infixOp | mixfix | bracket =>
      show q ∈ rolesParts roles ↔ _
      rw [ih]
      simp

/-- The parts of a part are among those of the whole. -/
theorem Child.mem_parts {q r s : Parser V} (h : Child r q) (hs : s ∈ r.parts) : s ∈ q.parts := by
  cases h with
  | member mem =>
    refine .tail _ ?_
    rw [membersParts_eq]
    exact List.mem_flatMap.2 ⟨_, mem, hs⟩
  | alternative mem =>
    refine .tail _ ?_
    rw [alternativesParts_eq]
    exact List.mem_flatMap.2 ⟨_, mem, hs⟩
  | repeated | embedded => exact .tail _ hs
  | role mem => exact .tail _ (mem_rolesParts.2 ⟨_, _, mem, hs⟩)

/-- What is among the parts is the whole, or among the parts of one. -/
theorem eq_or_mem_parts_child {p q : Parser V} (h : q ∈ p.parts) :
    q = p ∨ ∃ r, Child r p ∧ q ∈ r.parts := by
  cases p with
  | token | endOfInput | ref => exact .inl (List.mem_singleton.1 h)
  | tuple members action =>
    refine (List.mem_cons.1 h).imp_right fun h => ?_
    rw [membersParts_eq] at h
    obtain ⟨m, hm, hq⟩ := List.mem_flatMap.1 h
    exact ⟨m.parser, .member hm, hq⟩
  | choice slot alternatives =>
    refine (List.mem_cons.1 h).imp_right fun h => ?_
    rw [alternativesParts_eq] at h
    obtain ⟨r, hr, hq⟩ := List.mem_flatMap.1 h
    exact ⟨r, .alternative hr, hq⟩
  | many body minimum => exact (List.mem_cons.1 h).imp_right fun h => ⟨body, .repeated, h⟩
  | embed body => exact (List.mem_cons.1 h).imp_right fun h => ⟨body, .embedded, h⟩
  | expr o =>
    refine (List.mem_cons.1 h).imp_right fun h => ?_
    obtain ⟨key, r, hr, hq⟩ := mem_rolesParts.1 h
    exact ⟨r, .role hr, hq⟩

/-- What is among the parts of one of the parts is among the parts. -/
theorem mem_parts_trans {p q r : Parser V} (hq : q ∈ p.parts) (hr : r ∈ q.parts) :
    r ∈ p.parts := by
  rcases eq_or_mem_parts_child hq with rfl | ⟨c, hc, hq⟩
  · exact hr
  · exact hc.mem_parts (mem_parts_trans hq hr)
termination_by p.size
decreasing_by exact hc.size_lt

end Parser

namespace Grammar

variable {g : Grammar V} {p q : Parser V} {name : String} {active : List String}

/-- The second parser may run when the first one does. -/
inductive Reaches (g : Grammar V) (p : Parser V) : Parser V → Prop
  | refl : Reaches g p p
  | child {q r : Parser V} (reached : Reaches g p q) (part : Parser.Child r q) : Reaches g p r
  | rule {name : String} {q : Parser V} (reached : Reaches g p (.ref name))
      (registered : g.rule? name = some q) : Reaches g p q

/-- A parser reaches what those reach that it reaches. -/
theorem Reaches.trans {r : Parser V} (h : g.Reaches p q) (h' : g.Reaches q r) : g.Reaches p r := by
  induction h' with
  | refl => exact h
  | child _ part ih => exact ih.child part
  | rule _ registered ih => exact ih.rule registered

/-- No action of a sequence that `p` reaches is ever at fault. -/
def Faultless (g : Grammar V) (p : Parser V) : Prop :=
  ∀ members action, g.Reaches p (.tuple members (some action)) →
    ∀ elements span fault, action elements span ≠ .error (.fault fault)

/-- The number of combinators in the rules of a list that are not active. -/
def rulesSizeWithout (active : List String) : List (String × Parser V) → Nat
  | [] => 0
  | (name, p) :: rules =>
    (if name ∈ active then 0 else p.size) + rulesSizeWithout active rules

/-- The number of combinators in the rules that are not active. -/
def sizeWithout (g : Grammar V) (active : List String) : Nat :=
  rulesSizeWithout active g.rules

theorem rulesSizeWithout_nil (rules : List (String × Parser V)) :
    rulesSizeWithout [] rules = rulesSize rules := by
  induction rules with
  | nil => rfl
  | cons rule rules ih =>
    show (if rule.1 ∈ [] then 0 else rule.2.size) + _ = _
    rw [if_neg List.not_mem_nil, ih]
    rfl

theorem rulesSizeWithout_cons_le (rules : List (String × Parser V)) :
    rulesSizeWithout (name :: active) rules ≤ rulesSizeWithout active rules := by
  induction rules with
  | nil => exact Nat.le_refl _
  | cons rule rules ih =>
    unfold rulesSizeWithout
    by_cases hmem : rule.1 ∈ active
    · rw [if_pos hmem, if_pos (.tail _ hmem)]
      omega
    · rw [if_neg hmem]
      split <;> omega

/-- A rule that becomes active no longer counts. -/
theorem rulesSizeWithout_cons_lookup {rules : List (String × Parser V)}
    (h : rules.lookup name = some p) (ha : name ∉ active) :
    p.size + rulesSizeWithout (name :: active) rules ≤ rulesSizeWithout active rules := by
  induction rules with
  | nil => cases h
  | cons rule rules ih =>
    obtain ⟨name', q⟩ := rule
    have hfewer := @rulesSizeWithout_cons_le _ name active rules
    unfold rulesSizeWithout
    by_cases hname : name' = name
    · subst hname
      rw [List.lookup_cons_self] at h
      cases h
      rw [if_pos (.head _), if_neg ha]
      omega
    · have hrest : rules.lookup name = some p := by
        rwa [List.lookup_cons, beq_false_of_ne (Ne.symm hname)] at h
      have := ih hrest
      by_cases hmem : name' ∈ active
      · rw [if_pos hmem, if_pos (.tail _ hmem)]
        omega
      · have hmem' : name' ∉ name :: active := by simp [hname, hmem]
        rw [if_neg hmem, if_neg hmem']
        omega

/-- The rules that are not active count for less by the size of one that becomes active. -/
theorem sizeWithout_cons (h : g.rule? name = some p) (ha : name ∉ active) :
    p.size + g.sizeWithout (name :: active) ≤ g.sizeWithout active :=
  rulesSizeWithout_cons_lookup h ha

theorem sizeWithout_nil (g : Grammar V) : g.sizeWithout [] = g.size :=
  rulesSizeWithout_nil g.rules

/-! ## Everything that is reached -/

/-- The parts of all rules. -/
def parts (g : Grammar V) : List (Parser V) :=
  g.rules.flatMap fun rule => rule.2.parts

/-- A grammar has as many parts as its size says. -/
theorem length_parts (g : Grammar V) : g.parts.length = g.size := by
  have count (rules : List (String × Parser V)) :
      (rules.flatMap fun rule => rule.2.parts).length = rulesSize rules := by
    induction rules with
    | nil => rfl
    | cons rule rules ih =>
      rw [List.flatMap_cons, List.length_append, Parser.length_parts, ih]
      rfl
  exact count g.rules

theorem mem_rules_of_rule? (h : g.rule? name = some p) : (name, p) ∈ g.rules := by
  obtain ⟨before, after, hrules, -⟩ := List.lookup_eq_some_iff.1 h
  rw [hrules]
  simp

theorem mem_parts_of_rule? (h : g.rule? name = some p) (hq : q ∈ p.parts) : q ∈ g.parts :=
  List.mem_flatMap.2 ⟨(name, p), mem_rules_of_rule? h, hq⟩

/-- What stands among rules of which one has been set stood there before, but for this one. -/
theorem mem_setRule {rule : String × Parser V} {rules : List (String × Parser V)}
    (h : rule ∈ setRule name p rules) : rule ∈ rules ∨ rule = (name, p) := by
  induction rules with
  | nil => exact .inr (List.mem_singleton.1 h)
  | cons first rules ih =>
    unfold setRule at h
    split at h
    · rcases List.mem_cons.1 h with rfl | h
      · exact .inr rfl
      · exact .inl (.tail _ h)
    · rcases List.mem_cons.1 h with rfl | h
      · exact .inl (.head _)
      · exact (ih h).imp_left (.tail _)

/-- What a parser reaches are parts of it and of the rules. -/
theorem Reaches.mem_parts (h : g.Reaches p q) : q ∈ p.parts ++ g.parts := by
  induction h with
  | refl => exact List.mem_append_left _ (Parser.self_mem_parts p)
  | child _ part ih =>
    have hpart := part.mem_parts (Parser.self_mem_parts _)
    rcases List.mem_append.1 ih with ih | ih
    · exact List.mem_append_left _ (Parser.mem_parts_trans ih hpart)
    · obtain ⟨rule, hrule, hmem⟩ := List.mem_flatMap.1 ih
      refine List.mem_append_right _ (List.mem_flatMap.2 ⟨rule, hrule, ?_⟩)
      exact Parser.mem_parts_trans hmem hpart
  | rule _ registered _ =>
    exact List.mem_append_right _ (mem_parts_of_rule? registered (Parser.self_mem_parts _))

end Grammar

end PredictiveParsing
