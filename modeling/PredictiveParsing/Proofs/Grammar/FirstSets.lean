import PredictiveParsing.Grammar.FirstSets

/-!
# What FIRST sets accept

A FIRST set accepts a token if a FIRST set that it was made of does: `Parser.membersFirst_cons`,
`Parser.alternativesFirst_eq_ok` and `Parser.first_many` take FIRST sets apart, and
`FirstSet.accepts_andThen` and `FirstSet.accepts_orElse` say what becomes of the tokens.

The FIRST sets of rules are computed with some rules active. One that exists with more rules active
exists with fewer of them, and is the same (`Grammar.firstOfRule_mono`), so that what is computed
in the middle of another FIRST set can be compared with what a choice computes for itself.
-/

namespace PredictiveParsing

variable {V : Type}

/-! ## Tokens of FIRST sets -/

namespace FirstSet

variable {f g : FirstSet} {t : Token}

theorem accepts_eq (f : FirstSet) (t : Token) :
    f.accepts t = true ↔ ∃ l, Lookahead.ofToken? t = some l ∧ l ∈ f.tokens := by
  unfold accepts contains
  cases Lookahead.ofToken? t with
  | none => simp
  | some l => simp

theorem accepts_single_token (type : TokenType) (t : Token) :
    (single (.token type)).accepts t = t.is type := by
  unfold accepts single contains Lookahead.ofToken? Token.is
  cases t.kind with
  | ordinary => rw [Bool.eq_iff_iff]; simp
  | error | endOfInput => rfl

theorem accepts_single_endOfInput (t : Token) :
    (single .endOfInput).accepts t = t.isEndOfInput := by
  unfold accepts single contains Lookahead.ofToken? Token.isEndOfInput
  cases t.kind <;> simp

theorem accepts_andThen (f g : FirstSet) (t : Token) :
    (f.andThen g).accepts t = (f.accepts t || g.accepts t) := by
  rw [Bool.eq_iff_iff, Bool.or_eq_true, accepts_eq, accepts_eq, accepts_eq]
  simp only [andThen, Lookahead.mem_union, and_or_left, exists_or]

theorem accepts_orElse (f g : FirstSet) (t : Token) :
    (f.orElse g).accepts t = (f.accepts t || g.accepts t) :=
  accepts_andThen f g t

/-- The FIRST sets tell their parsers apart: no two have a lookahead in common, and no two belong to
parsers that can be empty. -/
structure TellApart (firsts : List FirstSet) : Prop where
  disjoint : firsts.Pairwise fun f f' => ∀ l ∈ f.tokens, l ∉ f'.tokens
  empty : firsts.Pairwise fun f f' => ¬(f.nullable = true ∧ f'.nullable = true)

/-- Of FIRST sets that tell their parsers apart, no two accept a token. -/
theorem TellApart.accepts {firsts : List FirstSet} (h : TellApart firsts) (t : Token) :
    firsts.Pairwise fun f f' => ¬(f.accepts t = true ∧ f'.accepts t = true) := by
  refine h.disjoint.imp fun hdisjoint ⟨hf, hf'⟩ => ?_
  obtain ⟨l, hl, hmem⟩ := (accepts_eq _ t).1 hf
  obtain ⟨l', hl', hmem'⟩ := (accepts_eq _ t).1 hf'
  rw [hl] at hl'
  cases hl'
  exact hdisjoint l hmem hmem'

end FirstSet

/-! ## FIRST sets of lists -/

section

variable {α β ε : Type} {f f' : α → Except ε β}

theorem mapM_cons_eq_ok {a : α} {as : List α} {bs : List β} (h : (a :: as).mapM f = .ok bs) :
    ∃ b bs', f a = .ok b ∧ as.mapM f = .ok bs' ∧ bs = b :: bs' := by
  rw [List.mapM_cons] at h
  obtain ⟨b, hb, h⟩ := bind_eq_ok h
  obtain ⟨bs', hbs, h⟩ := bind_eq_ok h
  cases h
  exact ⟨b, bs', hb, hbs, rfl⟩

theorem mapM_cons_of_ok {a : α} {as : List α} {b : β} {bs : List β} (ha : f a = .ok b)
    (has : as.mapM f = .ok bs) : (a :: as).mapM f = .ok (b :: bs) := by
  rw [List.mapM_cons, ha]
  show (as.mapM f >>= _) = _
  rw [has]
  rfl

theorem mapM_mono (hf : ∀ a b, f a = .ok b → f' a = .ok b) {as : List α} {bs : List β}
    (h : as.mapM f = .ok bs) : as.mapM f' = .ok bs := by
  induction as generalizing bs with
  | nil => exact h
  | cons a as ih =>
    obtain ⟨b, bs', ha, has, rfl⟩ := mapM_cons_eq_ok h
    exact mapM_cons_of_ok (hf a b ha) (ih has)

theorem length_of_mapM {as : List α} {bs : List β} (h : as.mapM f = .ok bs) :
    bs.length = as.length := by
  induction as generalizing bs with
  | nil => cases h; rfl
  | cons a as ih =>
    obtain ⟨b, bs', -, has, rfl⟩ := mapM_cons_eq_ok h
    rw [List.length_cons, List.length_cons, ih has]

/-- Every element of a list has an image if the list has one. -/
theorem exists_mapM_iff {as : List α} :
    (∃ bs, as.mapM f = .ok bs) ↔ ∀ a ∈ as, ∃ b, f a = .ok b := by
  induction as with
  | nil => exact ⟨fun _ => nofun, fun _ => ⟨[], rfl⟩⟩
  | cons a as ih =>
    rw [List.forall_mem_cons, ← ih]
    constructor
    · rintro ⟨bs, h⟩
      obtain ⟨b, bs', ha, has, -⟩ := mapM_cons_eq_ok h
      exact ⟨⟨b, ha⟩, bs', has⟩
    · rintro ⟨⟨b, ha⟩, bs, has⟩
      exact ⟨b :: bs, mapM_cons_of_ok ha has⟩

/-- What stands beside an element is its image. -/
theorem of_mem_zip_mapM {as : List α} {bs : List β} (h : as.mapM f = .ok bs) {a : α} {b : β}
    (hab : (a, b) ∈ as.zip bs) : f a = .ok b := by
  induction as generalizing bs with
  | nil => cases hab
  | cons a' as ih =>
    obtain ⟨b', bs', ha', has, rfl⟩ := mapM_cons_eq_ok h
    rw [List.zip_cons_cons] at hab
    rcases List.mem_cons.1 hab with hab | hab
    · cases hab
      exact ha'
    · exact ih has hab

/-- Beside an element stands its image. -/
theorem mem_zip_mapM {as : List α} {bs : List β} (h : as.mapM f = .ok bs) {a : α} {b : β}
    (ha : a ∈ as) (hab : f a = .ok b) : (a, b) ∈ as.zip bs := by
  induction as generalizing bs with
  | nil => cases ha
  | cons a' as ih =>
    obtain ⟨b', bs', ha', has, rfl⟩ := mapM_cons_eq_ok h
    rw [List.zip_cons_cons]
    rcases List.mem_cons.1 ha with rfl | ha
    · rw [hab] at ha'
      cases ha'
      exact .head _
    · exact .tail _ (ih has ha)

/-- If a property holds of no two elements of a list, it holds beside one element only. -/
theorem eq_of_mem_zip {property : β → Prop} {bs : List β}
    (h : bs.Pairwise fun b b' => ¬(property b ∧ property b')) {as : List α} {a a' : α} {b b' : β}
    (hab : (a, b) ∈ as.zip bs) (hab' : (a', b') ∈ as.zip bs) (hb : property b)
    (hb' : property b') : a = a' := by
  induction bs generalizing as with
  | nil => simp at hab
  | cons b₁ bs ih =>
    cases as with
    | nil => cases hab
    | cons a₁ as =>
      obtain ⟨hfirst, hrest⟩ := List.pairwise_cons.1 h
      rw [List.zip_cons_cons] at hab hab'
      rcases List.mem_cons.1 hab with here | hab₁ <;> rcases List.mem_cons.1 hab' with here' | hab₁'
      · cases here
        cases here'
        rfl
      · cases here
        exact absurd ⟨hb, hb'⟩ (hfirst b' (List.of_mem_zip hab₁').2)
      · cases here'
        exact absurd ⟨hb', hb⟩ (hfirst b (List.of_mem_zip hab₁).2)
      · exact ih hrest hab₁ hab₁'

end

namespace Parser

variable {rule rule' : String → Except GrammarError FirstSet} {f : FirstSet} {t : Token}

/-- The FIRST set of a sequence is that of its first member, and of the others too if that member
can be empty. -/
theorem membersFirst_cons {m : Member (Parser V)} {members : List (Member (Parser V))}
    (h : membersFirst rule (m :: members) = .ok f) :
    ∃ f₁, m.parser.first rule = .ok f₁ ∧ ((f₁.nullable = false ∧ f = f₁) ∨
      f₁.nullable = true ∧ ∃ f₂, membersFirst rule members = .ok f₂ ∧ f = f₁.andThen f₂) := by
  obtain ⟨f₁, h₁, h⟩ := bind_eq_ok h
  refine ⟨f₁, h₁, ?_⟩
  cases hn : f₁.nullable with
  | false =>
    rw [hn] at h
    cases h
    exact .inl ⟨rfl, rfl⟩
  | true =>
    rw [hn] at h
    obtain ⟨f₂, h₂, h⟩ := bind_eq_ok h
    cases h
    exact .inr ⟨rfl, f₂, h₂, rfl⟩

/-- Behind members that can be empty, a member has a FIRST set if the sequence has. -/
theorem membersFirst_of_before {before after : List (Member (Parser V))} {m : Member (Parser V)}
    (hf : membersFirst rule (before ++ m :: after) = .ok f)
    (hbefore : ∀ m' ∈ before, ∀ f', m'.parser.first rule = .ok f' → f'.nullable = true) :
    ∃ f₁, m.parser.first rule = .ok f₁ := by
  induction before generalizing f with
  | nil =>
    obtain ⟨f₁, h₁, -⟩ := membersFirst_cons hf
    exact ⟨f₁, h₁⟩
  | cons m' before ih =>
    obtain ⟨f', h', ⟨hnot, -⟩ | ⟨-, f₂, h₂, -⟩⟩ := membersFirst_cons hf
    · rw [hbefore m' (.head _) f' h'] at hnot
      cases hnot
    · exact ih h₂ fun m'' hm'' => hbefore m'' (.tail _ hm'')

/-- The FIRST set of a choice is made of those of its alternatives. -/
theorem alternativesFirst_eq_ok {alternatives : List (Parser V)}
    (h : alternativesFirst rule alternatives = .ok f) :
    ∃ firsts, alternatives.mapM (first rule) = .ok firsts ∧
      (∀ t, f.accepts t = firsts.any fun f' => f'.accepts t) ∧
      f.nullable = firsts.any FirstSet.nullable := by
  induction alternatives generalizing f with
  | nil =>
    cases h
    refine ⟨[], rfl, fun t => ?_, rfl⟩
    rw [Bool.eq_iff_iff, FirstSet.accepts_eq]
    simp
  | cons p alternatives ih =>
    obtain ⟨f₁, h₁, h⟩ := bind_eq_ok h
    obtain ⟨f₂, h₂, h⟩ := bind_eq_ok h
    cases h
    obtain ⟨firsts, hfirsts, haccepts, hnullable⟩ := ih h₂
    refine ⟨f₁ :: firsts, mapM_cons_of_ok h₁ hfirsts, fun t => ?_, ?_⟩
    · rw [FirstSet.accepts_orElse, haccepts, List.any_cons]
    · rw [List.any_cons, ← hnullable]
      rfl

/-- The FIRST set of a repetition accepts what that of its body does. -/
theorem first_many {body : Parser V} {minimum : Nat} (h : (many body minimum).first rule = .ok f) :
    ∃ f₁, body.first rule = .ok f₁ ∧ (∀ t, f.accepts t = f₁.accepts t) ∧
      f.nullable = (f₁.nullable || minimum == 0) := by
  obtain ⟨f₁, h₁, h⟩ := bind_eq_ok h
  cases h
  exact ⟨f₁, h₁, fun _ => rfl, rfl⟩

/-- Embedded parsers have to have FIRST sets, wherever they stand in the table. -/
theorem rolesFirst_eq_ok_iff {roles : List (TokenType × Role V (Parser V))} :
    rolesFirst rule roles = .ok () ↔
      ∀ key p, (key, Role.embed p) ∈ roles → ∃ f, p.first rule = .ok f := by
  induction roles with
  | nil => exact ⟨fun _ => nofun, fun _ => rfl⟩
  | cons entry roles ih =>
    obtain ⟨key, role⟩ := entry
    have others (hrole : ∀ p, role ≠ .embed p) :
        (∀ key' p, (key', Role.embed p) ∈ (key, role) :: roles → ∃ f, p.first rule = .ok f) ↔
          ∀ key' p, (key', Role.embed p) ∈ roles → ∃ f, p.first rule = .ok f := by
      refine ⟨fun h key' p hp => h key' p (.tail _ hp), fun h key' p hp => ?_⟩
      rcases List.mem_cons.1 hp with hp | hp
      · cases hp
        exact absurd rfl (hrole p)
      · exact h key' p hp
    cases role with
    | embed p =>
      constructor
      · intro h key' q hq
        obtain ⟨f, hf, h⟩ := bind_eq_ok h
        rcases List.mem_cons.1 hq with hq | hq
        · cases hq
          exact ⟨f, hf⟩
        · exact ih.1 h key' q hq
      · intro h
        obtain ⟨f, hf⟩ := h key p (.head _)
        show (p.first rule >>= _) = _
        rw [hf]
        exact ih.2 fun key' q hq => h key' q (.tail _ hq)
    | atom | prefixOp | infixOp | mixfix | bracket => exact ih.trans (others nofun).symm

/-- The FIRST set of a table needs FIRST sets of the embedded parsers, and is its leading types. -/
theorem first_expr_eq_ok_iff {o : Operators V (Parser V)} :
    (expr o).first rule = .ok f ↔
      (∀ key p, (key, Role.embed p) ∈ o.roles → ∃ f, p.first rule = .ok f) ∧
        f = ⟨Lookahead.union (o.leadingTypes.map .token) [], false⟩ := by
  rw [← rolesFirst_eq_ok_iff]
  constructor
  · intro h
    obtain ⟨⟨⟩, hroles, h⟩ := bind_eq_ok h
    cases h
    exact ⟨hroles, rfl⟩
  · rintro ⟨hroles, rfl⟩
    show (rolesFirst rule o.roles >>= _) = _
    rw [hroles]
    rfl

/-- The FIRST set of an expression accepts its leading types. -/
theorem accepts_of_first_expr {o : Operators V (Parser V)} (h : (expr o).first rule = .ok f)
    {t : Token} (ht : t.kind = .ordinary) : f.accepts t = o.leadingTypes.contains t.type := by
  obtain ⟨-, rfl⟩ := first_expr_eq_ok_iff.1 h
  rw [Bool.eq_iff_iff, FirstSet.accepts_eq]
  simp [Lookahead.ofToken?, ht]

/-! ## More rules with a FIRST set -/

mutual

/-- A FIRST set stays the same when more rules get one. -/
theorem first_mono (h : ∀ name f, rule name = .ok f → rule' name = .ok f) (p : Parser V)
    {f : FirstSet} (hf : p.first rule = .ok f) : p.first rule' = .ok f := by
  cases p with
  | token | endOfInput => exact hf
  | tuple members action => exact membersFirst_mono h members hf
  | choice slot alternatives => exact alternativesFirst_mono h alternatives hf
  | many body minimum =>
    obtain ⟨f₁, h₁, hf⟩ := bind_eq_ok hf
    show (body.first rule' >>= _) = _
    rw [first_mono h body h₁]
    exact hf
  | embed body => exact first_mono h body hf
  | expr o =>
    obtain ⟨roles, skip⟩ := o
    obtain ⟨_, h₁, hf⟩ := bind_eq_ok hf
    show (rolesFirst rule' roles >>= _) = _
    rw [rolesFirst_mono h roles h₁]
    exact hf
  | ref name => exact h name f hf

theorem membersFirst_mono (h : ∀ name f, rule name = .ok f → rule' name = .ok f)
    (members : List (Member (Parser V))) {f : FirstSet} (hf : membersFirst rule members = .ok f) :
    membersFirst rule' members = .ok f := by
  cases members with
  | nil => exact hf
  | cons m members =>
    obtain ⟨mark, p⟩ := m
    obtain ⟨f₁, h₁, hf⟩ := bind_eq_ok hf
    show (p.first rule' >>= _) = _
    rw [first_mono h p h₁]
    change (if f₁.nullable then _ else _) = _ at hf
    show (if f₁.nullable then _ else _) = _
    cases hn : f₁.nullable with
    | false =>
      rw [hn] at hf
      exact hf
    | true =>
      rw [hn] at hf
      obtain ⟨f₂, h₂, hf⟩ := bind_eq_ok hf
      show (membersFirst rule' members >>= _) = _
      rw [membersFirst_mono h members h₂]
      exact hf

theorem alternativesFirst_mono (h : ∀ name f, rule name = .ok f → rule' name = .ok f)
    (alternatives : List (Parser V)) {f : FirstSet}
    (hf : alternativesFirst rule alternatives = .ok f) :
    alternativesFirst rule' alternatives = .ok f := by
  cases alternatives with
  | nil => exact hf
  | cons p alternatives => 
    obtain ⟨f₁, h₁, hf⟩ := bind_eq_ok hf
    obtain ⟨f₂, h₂, hf⟩ := bind_eq_ok hf
    show (p.first rule' >>= _) = _
    rw [first_mono h p h₁]
    show (alternativesFirst rule' alternatives >>= _) = _
    rw [alternativesFirst_mono h alternatives h₂]
    exact hf

theorem rolesFirst_mono (h : ∀ name f, rule name = .ok f → rule' name = .ok f)
    (roles : List (TokenType × Role V (Parser V))) {u : Unit}
    (hf : rolesFirst rule roles = .ok u) : rolesFirst rule' roles = .ok u := by
  cases roles with
  | nil => exact hf
  | cons entry roles =>
    obtain ⟨key, role⟩ := entry
    cases role with
    | embed p =>
      obtain ⟨f₁, h₁, hf⟩ := bind_eq_ok hf
      show (p.first rule' >>= _) = _
      rw [first_mono h p h₁]
      exact rolesFirst_mono h roles hf
    | atom | prefixOp | infixOp | mixfix | bracket => exact rolesFirst_mono h roles hf

end

end Parser

namespace Grammar

variable {g : Grammar V} {active : List String} {name : String} {f : FirstSet}

/-- A rule with a FIRST set is registered, and was not active. -/
theorem firstOfRule_eq_ok {n : Nat} (h : g.firstOfRule n active name = .ok f) :
    ∃ m p, n = m + 1 ∧ name ∉ active ∧ g.rule? name = some p ∧
      p.first (g.firstOfRule m (name :: active)) = .ok f := by
  cases n with
  | zero => cases h
  | succ m =>
    unfold firstOfRule at h
    split at h
    · cases h
    · next hactive =>
      split at h
      · cases h
      · next p hp => exact ⟨m, p, rfl, by simpa using hactive, hp, h⟩

/-- What has a FIRST set while some rules are active has the same one while fewer are. -/
theorem firstOfRule_mono {n m : Nat} {active' : List String} (hn : n ≤ m)
    (hactive : ∀ name ∈ active', name ∈ active) (h : g.firstOfRule n active name = .ok f) :
    g.firstOfRule m active' name = .ok f := by
  induction n generalizing m active active' name f with
  | zero => cases h
  | succ n ih =>
    obtain ⟨_, p, hk, hname, hp, hf⟩ := firstOfRule_eq_ok h
    cases hk
    obtain ⟨m, rfl⟩ := Nat.exists_eq_add_one.2 (Nat.lt_of_lt_of_le (Nat.succ_pos n) hn)
    have hname' : name ∉ active' := fun hmem => hname (hactive name hmem)
    unfold firstOfRule
    rw [if_neg (by simpa using hname'), hp]
    refine Parser.first_mono (fun name₁ f₁ h₁ => ?_) p hf
    refine ih (Nat.le_of_succ_le_succ hn) (fun name₂ h₂ => ?_) h₁
    rcases List.mem_cons.1 h₂ with rfl | h₂
    · exact .head _
    · exact .tail _ (hactive name₂ h₂)

theorem firstOfRule_congr {g' : Grammar V} (h : g.rules = g'.rules) (n : Nat) :
    g.firstOfRule n = g'.firstOfRule n := by
  have hrule (name : String) : g.rule? name = g'.rule? name := by rw [rule?, rule?, h]
  induction n with
  | zero => rfl
  | succ n ih =>
    funext active name
    unfold firstOfRule
    rw [ih, hrule]

/-- Nothing but the rules of a grammar counts for FIRST sets. -/
theorem first_congr {g' : Grammar V} (h : g.rules = g'.rules) : g.first = g'.first := by
  funext p
  unfold first
  congr 1
  funext name
  rw [ruleFirst, ruleFirst, h, firstOfRule_congr h]

/-- A FIRST set that is computed while rules are active is the FIRST set of the parser. -/
theorem first_of_firstOfRule {n : Nat} {p : Parser V} (hn : n ≤ g.rules.length + 1)
    (h : p.first (g.firstOfRule n active) = .ok f) : g.first p = .ok f :=
  Parser.first_mono (fun _ _ h => firstOfRule_mono hn (fun _ hmem => by cases hmem) h) p h

end Grammar

end PredictiveParsing
