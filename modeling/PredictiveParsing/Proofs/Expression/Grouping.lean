import PredictiveParsing.Proofs.Expression.Reading
import PredictiveParsing.Proofs.Expression.Skipping

/-!
# Precedence climbing reads what is grouped

`Operators.above` and the relation `SyntaxTree.Reads` are the same climbing, once on a tokenizer
with skipped tokens and bounded depths, and once on a token sequence. `Operators.Finds` is the
relation on a stretch of the stream, with the rules of `SyntaxTree.Reads` as lemmas. For tables
without actions `Operators.above_eq_ok` finds the stretch and the tree that a successful run has
read. What the relation reads is grouped, so what a run answers is the content of a grouped tree
(`Operators.expressionAbove_grouped`).
-/

namespace PredictiveParsing

open ParseM

variable {V P : Type}

namespace Operators

variable {o : Operators V P} {token : Token}

/-! ## Tables without actions -/

section

variable {embedded : P → ParseM (Result V)} {inner : Nat → ParseM (Result V)}

theorem bindingOf?_eq_map (o : Operators V P) (token : Token) :
    o.bindingOf? token =
      ((o.roleOf? token).bind Role.infixRole?).map fun (p, a, _) => (p, a) := by
  unfold bindingOf?
  cases o.roleOf? token <;> rfl

/-- A token that opens something has a role without action. -/
theorem Bare.of_openingOf? (ho : o.Bare) {opening : Opening}
    (h : o.openingOf? token = some opening) :
    ∃ role, o.roleOf? token = some role ∧ role.Bare ∧ role.opening? = some opening := by
  obtain ⟨role, hrole, hopen⟩ := Option.bind_eq_some_iff.1 h
  exact ⟨role, hrole, ho _ _ (role?_of_roleOf? hrole).2, hopen⟩

/-- The operand that is a token. -/
theorem Bare.operand_atom (ho : o.Bare) (h : o.openingOf? token = some .atom) :
    o.operand embedded inner token = (do
      commit token
      note (.atom token)
      return .ofToken token) := by
  obtain ⟨role, hrole, hbare, hopen⟩ := ho.of_openingOf? h
  unfold operand
  rw [hrole]
  cases role with
  | atom action =>
    cases action with
    | none => rfl
    | some f => exact hbare.elim
  | prefixOp | mixfix | bracket | infixOp | embed => cases hopen

/-- The operand that a prefix operator begins. -/
theorem Bare.operand_prefixOp (ho : o.Bare) {p : Nat}
    (h : o.openingOf? token = some (.prefixOp p)) :
    o.operand embedded inner token = (do
      commit token
      note (.prefixOp token p)
      let result ← inner p
      let span ← trust (Span.cover token.span result.span)
      return .list [.ofToken token, result] span) := by
  obtain ⟨role, hrole, hbare, hopen⟩ := ho.of_openingOf? h
  unfold operand
  rw [hrole]
  cases role with
  | prefixOp _ action | mixfix _ _ _ action _ =>
    cases hopen
    cases action with
    | none => rfl
    | some f => exact hbare.elim
  | atom | bracket | infixOp | embed => cases hopen

/-- The operand in brackets. -/
theorem Bare.operand_bracket (ho : o.Bare) {closing : TokenType}
    (h : o.openingOf? token = some (.bracket closing)) :
    o.operand embedded inner token = (do
      commit token
      let result ← inner 0
      let last ← o.current
      if last.is closing then
        commit last
        let span ← trust (Span.cover token.span last.span)
        return result.withSpan span
      else
        unexpected
          (closing ++ " to balance the bracket at " ++ toString token.span.start) last) := by
  obtain ⟨role, hrole, hbare, hopen⟩ := ho.of_openingOf? h
  unfold operand
  rw [hrole]
  cases role with
  | bracket opening closing => cases hopen; rfl
  | atom | prefixOp | mixfix | infixOp | embed => cases hopen

/-- Where no operand begins, the token is unexpected. -/
theorem Bare.operand_none (ho : o.Bare) (h : o.openingOf? token = none) :
    o.operand embedded inner token = unexpected "an expression" token := by
  unfold operand
  cases hrole : o.roleOf? token with
  | none => rfl
  | some role =>
    have hbare := ho _ _ (role?_of_roleOf? hrole).2
    rw [openingOf?, hrole] at h
    cases role with
    | infixOp => rfl
    | embed => exact hbare.elim
    | atom | prefixOp | mixfix | bracket => cases h

theorem Bare.infixRole? (ho : o.Bare) {p : Nat} {a : Associativity}
    {action : Option (InfixAction V)}
    (h : (o.roleOf? token).bind Role.infixRole? = some (p, a, action)) : action = none := by
  obtain ⟨role, hrole, hinfix⟩ := Option.bind_eq_some_iff.1 h
  have hbare := ho _ _ (role?_of_roleOf? hrole).2
  cases role with
  | atom | prefixOp | bracket | embed => cases hinfix
  | infixOp =>
    cases hinfix
    cases action with
    | none => rfl
    | some f => exact hbare.elim
  | mixfix _ _ _ onPrefix =>
    cases hinfix
    cases action with
    | none => rfl
    | some f => cases onPrefix <;> exact hbare.elim

/-- One operator of a climb, or its end. -/
theorem Bare.climb_succ (ho : o.Bare) (minimum n : Nat) (left : Result V) :
    o.climb inner minimum (n + 1) left = (do
      let token ← o.current
      match o.bindingOf? token with
      | none => return left
      | some (p, a) =>
        if p < minimum then return left
        else do
          commit token
          note (.infixOp token p)
          let right ← inner (a.rightMinimum p)
          let result ← infixResult none left token right
          o.climb inner minimum n result) := by
  rw [climb]
  congr 1
  funext token
  rw [bindingOf?_eq_map]
  cases hinfix : (o.roleOf? token).bind Role.infixRole? with
  | none => rfl
  | some operator =>
    obtain ⟨p, a, action⟩ := operator
    obtain rfl := ho.infixRole? hinfix
    rfl

end

/-! ## Stretches of the stream -/

section

variable {t t₁ t₂ t₃ : Tokenizer} {minimum p : Nat} {a : Associativity}
  {left right tree : SyntaxTree}

/-- The task reads the tree off the stream from `t` to `t'`, in front of the token that is next. -/
def Finds (o : Operators V P) (task : SyntaxTree.Task) (t : Tokenizer) (tree : SyntaxTree)
    (t' : Tokenizer) : Prop :=
  ∃ ts, o.Passes t ts t' ∧ ∀ rest, o.Leads t' rest →
    SyntaxTree.Reads o task (ts ++ rest) tree rest

theorem Finds.behind_skipped {task : SyntaxTree.Task} (hskip : o.Passes t [] t₁)
    (h : o.Finds task t₁ tree t₂) : o.Finds task t tree t₂ := by
  obtain ⟨ts, hpass, hreads⟩ := h
  exact ⟨ts, hskip.append hpass, hreads⟩

theorem Finds.atom (hopen : o.openingOf? token = some .atom) (htaken : o.Passes t [token] t₁) :
    o.Finds .operand t (.atom token) t₁ :=
  ⟨[token], htaken, fun _ _ => .atom hopen⟩

theorem Finds.prefixed (hopen : o.openingOf? token = some (.prefixOp p))
    (htaken : o.Passes t [token] t₁) (hinner : o.Finds (.above p) t₁ tree t₂) :
    o.Finds .operand t (.prefixed p token tree) t₂ := by
  obtain ⟨ts, hpass, hreads⟩ := hinner
  exact ⟨token :: ts, htaken.append hpass, fun rest hrest => .prefixed hopen (hreads rest hrest)⟩

/-- What is between the brackets has been read in front of the closing one. -/
theorem Finds.bracketed {closing : TokenType} {last : Token}
    (hopen : o.openingOf? token = some (.bracket closing)) (htaken : o.Passes t [token] t₁)
    (hinner : o.Finds (.above 0) t₁ tree t₂) (hface : o.Faces t₂ last)
    (hcloses : last.is closing = true) (hlast : o.Passes t₂ [last] t₃) :
    o.Finds .operand t (.bracketed token tree last) t₃ := by
  obtain ⟨ts, hpass, hreads⟩ := hinner
  refine ⟨token :: (ts ++ [last]), htaken.append (hpass.append hlast), fun rest _ => ?_⟩
  have hbody : SyntaxTree.Reads o (.above 0) (ts ++ last :: rest) tree (last :: rest) :=
    hreads _ (hface.leads rest)
  simpa using SyntaxTree.Reads.bracketed hopen hbody hcloses

/-- A left operand is the whole tree where the next token is no operator that is strong enough. -/
theorem Finds.stop (hface : o.Faces t token) (hbelow : o.Below minimum token) :
    o.Finds (.climb minimum left) t left t := by
  refine ⟨[], .nil, fun rest hrest => ?_⟩
  obtain ⟨rest, rfl⟩ := hrest.of_faces hface
  exact .stop hbelow

theorem Finds.infixed (hbinding : o.bindingOf? token = some (p, a)) (hp : minimum ≤ p)
    (htaken : o.Passes t [token] t₁) (hright : o.Finds (.above (a.rightMinimum p)) t₁ right t₂)
    (hrest : o.Finds (.climb minimum (.infixed p a left token right)) t₂ tree t₃) :
    o.Finds (.climb minimum left) t tree t₃ := by
  obtain ⟨ts, hpass, hreads⟩ := hright
  obtain ⟨ts', hpass', hreads'⟩ := hrest
  refine ⟨token :: (ts ++ ts'), htaken.append (hpass.append hpass'), fun rest hrest => ?_⟩
  have hinner := hreads _ (hrest.of_passes hpass')
  rw [List.cons_append, List.append_assoc]
  exact .infixed hbinding hp hinner (hreads' rest hrest)

theorem Finds.above (hleft : o.Finds .operand t left t₁)
    (hclimb : o.Finds (.climb minimum left) t₁ tree t₂) : o.Finds (.above minimum) t tree t₂ := by
  obtain ⟨ts, hpass, hreads⟩ := hleft
  obtain ⟨ts', hpass', hreads'⟩ := hclimb
  refine ⟨ts ++ ts', hpass.append hpass', fun rest hrest => ?_⟩
  rw [List.append_assoc]
  exact .above (hreads _ (hrest.of_passes hpass')) (hreads' rest hrest)

end

/-! ## What a run has read -/

section

variable {embedded : P → ParseM (Result V)} {c c' : Context} {r : Result V}

/-- The region that a run has covered. -/
theorem cover_of_trust {first last span : Span}
    (h : trust (Span.cover first last) c = (.ok span, c')) :
    span = ⟨first.start, last.stop⟩ ∧ c' = c := by
  obtain ⟨hcover, rfl⟩ := trust_eq_ok h
  exact ⟨(Span.between_eq_ok.1 hcover).2, rfl⟩

variable {inner : Nat → ParseM (Result V)}
  (hinner : ∀ {m c c' r}, inner m c = (.ok r, c') → ∃ (tree : SyntaxTree) (next : Token),
    r = tree.erase ∧ o.Finds (.above m) c.tokenizer tree c'.tokenizer ∧ o.Faces c'.tokenizer next)

include hinner

/-- The operand that a successful run has read. -/
theorem operand_eq_ok (ho : o.Bare) (hf : o.Faces c.tokenizer token)
    (h : o.operand embedded inner token c = (.ok r, c')) :
    ∃ tree : SyntaxTree, r = tree.erase ∧ o.Finds .operand c.tokenizer tree c'.tokenizer := by
  cases hopen : o.openingOf? token with
  | none => rw [ho.operand_none hopen] at h; cases h
  | some opening =>
    cases opening with
    | atom =>
      rw [ho.operand_atom hopen] at h
      obtain ⟨_, c₁, hc, h₁⟩ := ok_of_bind h
      obtain ⟨_, c₂, hn, h₂⟩ := ok_of_bind h₁
      have htaken := passes_of_commit hf hc
      cases hn
      cases h₂
      exact ⟨.atom token, rfl, .atom hopen htaken⟩
    | prefixOp p =>
      rw [ho.operand_prefixOp hopen] at h
      obtain ⟨_, c₁, hc, h₁⟩ := ok_of_bind h
      obtain ⟨_, c₂, hn, h₂⟩ := ok_of_bind h₁
      obtain ⟨_, c₃, hb, h₃⟩ := ok_of_bind h₂
      obtain ⟨span, c₄, hspan, h₄⟩ := ok_of_bind h₃
      obtain ⟨tree, next, rfl, hfinds, hface⟩ := hinner hb
      obtain ⟨rfl, rfl⟩ := cover_of_trust hspan
      have htaken := passes_of_commit hf hc
      cases hn
      cases h₄
      refine ⟨.prefixed p token tree, ?_, .prefixed hopen htaken hfinds⟩
      rw [SyntaxTree.erase_prefixed]
    | bracket closing =>
      rw [ho.operand_bracket hopen] at h
      obtain ⟨_, c₁, hc, h₁⟩ := ok_of_bind h
      obtain ⟨_, c₂, hb, h₂⟩ := ok_of_bind h₁
      obtain ⟨last, c₃, hl, h₃⟩ := ok_of_bind h₂
      obtain ⟨tree, next, rfl, hfinds, hface⟩ := hinner hb
      rw [current_of_faces hface] at hl
      cases hl
      cases hcloses : last.is closing with
      | false => rw [hcloses] at h₃; cases h₃
      | true =>
        rw [hcloses] at h₃
        obtain ⟨_, c₄, hc', h₄⟩ := ok_of_bind h₃
        obtain ⟨span, c₅, hspan, h₅⟩ := ok_of_bind h₄
        obtain ⟨rfl, rfl⟩ := cover_of_trust hspan
        have htaken := passes_of_commit hf hc
        have hlast := passes_of_commit hface hc'
        cases h₅
        exact ⟨.bracketed token tree last, rfl, .bracketed hopen htaken hfinds hface hcloses hlast⟩

/-- The infix operators that a successful run has taken behind a left operand. -/
theorem climb_eq_ok (ho : o.Bare) {minimum n : Nat} {left : SyntaxTree}
    (h : o.climb inner minimum n left.erase c = (.ok r, c')) :
    ∃ (tree : SyntaxTree) (next : Token), r = tree.erase ∧
      o.Finds (.climb minimum left) c.tokenizer tree c'.tokenizer ∧ o.Faces c'.tokenizer next := by
  induction n generalizing c left with
  | zero => cases h
  | succ n ih =>
    rw [ho.climb_succ] at h
    obtain ⟨token, c₁, hcurrent, h₁⟩ := ok_of_bind h
    obtain ⟨hskip, hface⟩ := current_eq_ok hcurrent
    cases hbinding : o.bindingOf? token with
    | none =>
      rw [hbinding] at h₁
      cases h₁
      have hbelow : o.Below minimum token := fun p a hp => by rw [hbinding] at hp; cases hp
      exact ⟨left, token, rfl, (Finds.stop hface hbelow).behind_skipped hskip, hface⟩
    | some operator =>
      obtain ⟨p, a⟩ := operator
      rw [hbinding] at h₁
      dsimp only at h₁
      by_cases hp : p < minimum
      · rw [if_pos hp] at h₁
        cases h₁
        have hbelow : o.Below minimum token := by
          intro q b hq
          rw [hbinding] at hq
          cases hq
          exact hp
        exact ⟨left, token, rfl, (Finds.stop hface hbelow).behind_skipped hskip, hface⟩
      · rw [if_neg hp] at h₁
        obtain ⟨_, c₂, hc, h₂⟩ := ok_of_bind h₁
        obtain ⟨_, c₃, hn, h₃⟩ := ok_of_bind h₂
        obtain ⟨_, c₄, hb, h₄⟩ := ok_of_bind h₃
        obtain ⟨_, c₅, hresult, h₅⟩ := ok_of_bind h₄
        obtain ⟨span, c₆, hspan, h₆⟩ := ok_of_bind hresult
        obtain ⟨right, next, rfl, hright, -⟩ := hinner hb
        obtain ⟨rfl, rfl⟩ := cover_of_trust hspan
        cases h₆
        rw [← SyntaxTree.erase_infixed p a] at h₅
        obtain ⟨tree, last, rfl, hrest, hlast⟩ := ih h₅
        have htaken := passes_of_commit hface hc
        cases hn
        have hfinds := Finds.infixed hbinding (Nat.le_of_not_lt hp) htaken hright hrest
        exact ⟨tree, last, rfl, hfinds.behind_skipped hskip, hlast⟩

omit hinner

/-- The expression that a successful run has read, and the token behind it. -/
theorem above_eq_ok (ho : o.Bare) {depth minimum : Nat}
    (h : o.above embedded depth minimum c = (.ok r, c')) :
    ∃ (tree : SyntaxTree) (next : Token), r = tree.erase ∧
      o.Finds (.above minimum) c.tokenizer tree c'.tokenizer ∧ o.Faces c'.tokenizer next := by
  induction depth generalizing c minimum r c' with
  | zero => cases h
  | succ depth ih =>
    obtain ⟨token, c₁, hcurrent, h₁⟩ := ok_of_bind h
    obtain ⟨_, c₂, hoperand, h₂⟩ := ok_of_bind h₁
    obtain ⟨n, _, hn, h₃⟩ := ok_of_bind h₂
    cases hn
    obtain ⟨hskip, hface⟩ := current_eq_ok hcurrent
    obtain ⟨left, rfl, hleft⟩ := operand_eq_ok ih ho hface hoperand
    obtain ⟨tree, next, rfl, hclimb, hnext⟩ := climb_eq_ok ih ho h₃
    exact ⟨tree, next, rfl, (hleft.above hclimb).behind_skipped hskip, hnext⟩

/-- Whatever operators without actions read is the content of a tree that is grouped by priorities.
The tokens of the tree, brackets included, are the ones that have been committed, skipped ones
apart, and neither the tree nor an operand at its right end could have gone on behind them. -/
theorem expressionAbove_grouped (ho : o.Bare) {minimum : Nat}
    (h : o.expressionAbove embedded minimum c = (.ok r, c')) :
    ∃ (tree : SyntaxTree) (next : Token), r = tree.erase ∧
      o.Passes c.tokenizer tree.tokens c'.tokenizer ∧ tree.Over o ∧ tree.Grouped ∧
      (∀ p ∈ tree.leftPriorities, minimum ≤ p) ∧
      o.Faces c'.tokenizer next ∧ tree.Declines o next ∧ o.Below minimum next := by
  obtain ⟨n, _, hn, h₁⟩ := ok_of_bind h
  cases hn
  obtain ⟨tree, next, rfl, ⟨ts, hpass, hreads⟩, hnext⟩ := above_eq_ok ho h₁
  obtain ⟨htokens, hsettled, hleft, hbelow⟩ := (hreads _ (hnext.leads [])).grouped
  obtain rfl := List.append_cancel_right htokens
  exact ⟨tree, next, rfl, hpass, hsettled.roles, hsettled.grouped, hleft, hnext,
    hsettled.declines next rfl, hbelow next rfl⟩

end

/-- Differences and products of names, with negation and brackets, and blanks anywhere. -/
def arithmetic (V P : Type) : Operators V P :=
  ⟨[("n", .atom none), ("-", .mixfix 3 1 .left none none), ("*", .infixOp 2 .left none),
    ("(", .bracket "(" ")")], [" "]⟩

/-- The tokenizer of `arithmetic` at the start of an input. -/
def arithmeticTokens (input : Text) : Tokenizer :=
  ⟨[("n", .exactChar 'n'), ("-", .exactChar '-'), ("*", .exactChar '*'), ("(", .exactChar '('),
    (")", .exactChar ')'), (" ", .exactChar ' ')], .ofInput input⟩

/-- A run with the tokenizer of `arithmetic` begins at the start of an input. -/
def arithmeticStart (input : Text) : Context := ⟨arithmeticTokens input, .forgetful⟩

theorem arithmetic_bare (V P : Type) : (arithmetic V P).Bare := by
  intro type role h
  have hmem := mem_of_role? h
  simp only [arithmetic, List.mem_cons, Prod.mk.injEq, List.not_mem_nil, or_false] at hmem
  rcases hmem with ⟨-, rfl⟩ | ⟨-, rfl⟩ | ⟨-, rfl⟩ | ⟨-, rfl⟩ <;> trivial

/-- Brackets, products and negations are grouped in what is read off one line. -/
theorem arithmetic_expressionAbove_grouped :
    ∃ r c', (arithmetic Unit Empty).expressionAbove nofun 1
        ⟨arithmeticTokens "n - -n*(n - n)".toList, .forgetful⟩ = (.ok r, c') ∧
      ∃ (tree : SyntaxTree) (next : Token), r = tree.erase ∧
        (arithmetic Unit Empty).Passes (arithmeticTokens "n - -n*(n - n)".toList) tree.tokens
          c'.tokenizer ∧
        tree.Over (arithmetic Unit Empty) ∧ tree.Grouped ∧ (∀ p ∈ tree.leftPriorities, 1 ≤ p) ∧
        (arithmetic Unit Empty).Faces c'.tokenizer next ∧
        tree.Declines (arithmetic Unit Empty) next ∧ (arithmetic Unit Empty).Below 1 next := by
  obtain ⟨r, c', h⟩ := succeeds_iff.1 (by decide +kernel :
    succeeds ((arithmetic Unit Empty).expressionAbove nofun 1)
      ⟨arithmeticTokens "n - -n*(n - n)".toList, .forgetful⟩ = true)
  exact ⟨r, c', h, expressionAbove_grouped (arithmetic_bare Unit Empty) h⟩

end Operators

end PredictiveParsing
