import PredictiveParsing.Proofs.Expression.Grouping

/-!
# Grouped trees are read back

Where the tokens of a grouped tree lie ahead, skipped tokens in between, precedence climbing answers
the content of the tree. `SyntaxTree.Reads.performs` follows the decisions of `SyntaxTree.Reads`
along the stream: the depths and counts that bound a run are larger than the number of unread
scalars, which every committed token makes smaller, and the spans of a tree lie in the order of its
tokens, so each of them has a cover.
-/

namespace PredictiveParsing

open ParseM

variable {V P : Type}

namespace SyntaxTree

variable {o : Operators V P} {task : Task} {ts rest : List Token} {tree : SyntaxTree}

/-! ## Runs along the tokens -/

/-- The run of a task, given the runs of the expressions inside and a bound on the operators of a
climb. -/
def Task.run (o : Operators V P) (embedded : P → ParseM (Result V))
    (inner : Nat → ParseM (Result V)) (n : Nat) : Task → ParseM (Result V)
  | .operand => do
    let token ← o.current
    o.operand embedded inner token
  | .above minimum => do
    let token ← o.current
    let left ← o.operand embedded inner token
    o.climb inner minimum ((← unread) + 1) left
  | .climb minimum left => o.climb inner minimum n left.erase

/-- A task begins behind the offset, and a left operand lies between the offset and the cursor. -/
def Task.Fits (low : Nat) (c : Context) : Task → Prop
  | .operand | .above _ => low ≤ c.tokenizer.position.offset
  | .climb _ left => left.span.Within low c.tokenizer.position.offset

/-- The run answers the content of the tree, which it has passed: the rest lies ahead. -/
def Answered (o : Operators V P) (x : ParseM (Result V)) (c : Context) (low : Nat)
    (tree : SyntaxTree) (rest : List Token) (e : Tokenizer) : Prop :=
  ∃ c', x c = (.ok tree.erase, c') ∧ o.Ahead c'.tokenizer rest e ∧ Onward c c' ∧
    tree.span.Within low c'.tokenizer.position.offset

/-- Nothing is read off no tokens. -/
theorem Reads.ne_nil (h : Reads o task ts tree rest) : ts ≠ [] := by
  induction h with
  | atom | prefixed | bracketed | stop | infixed => nofun
  | above _ _ ih => exact ih

section

variable {embedded : P → ParseM (Result V)} {e : Tokenizer}

/-- From wherever the tokens lie ahead up to `e`, the run of the task answers the tree. -/
def Performs (o : Operators V P) (embedded : P → ParseM (Result V)) (e : Tokenizer) (task : Task)
    (ts : List Token) (tree : SyntaxTree) (rest : List Token) : Prop :=
  ∀ d n low c, c.tokenizer.cursor.rest.length ≤ d → c.tokenizer.cursor.rest.length < n →
    o.Ahead c.tokenizer ts e → task.Fits low c →
    Answered o (task.run o embedded (o.above embedded d) n) c low tree rest e

/-- Where the depth is larger than the number of unread scalars, an expression inside is
answered. -/
theorem Performs.inside {minimum d : Nat} {c : Context}
    (h : Performs o embedded e (.above minimum) ts tree rest)
    (hd : c.tokenizer.cursor.rest.length < d) (ha : o.Ahead c.tokenizer ts e) :
    Answered o (o.above embedded d minimum) c c.tokenizer.position.offset tree rest e := by
  cases d with
  | zero => omega
  | succ d => exact h d _ _ c (Nat.le_of_lt_succ hd) (Nat.lt_succ_self _) ha (Nat.le_refl _)

/-- The run of an operand answers the token that is one. -/
theorem performs_atom (ho : o.Bare) {t : Token} (role : o.openingOf? t = some .atom)
    (hrest : rest ≠ []) : Performs o embedded e .operand (t :: rest) (.atom t) rest := by
  intro d n low c hd hn ha hfits
  obtain ⟨c₁, hcurrent, hf, ha₁, h₁⟩ := ha.current
  obtain ⟨c₂, hcommit, ha₂, hm⟩ := ha₁.commit hf hrest
  refine ⟨noted c₂ (.atom t), ?_, ha₂, h₁.trans (.of_moves hm), ?_⟩
  · show (o.current >>= _) c = _
    rw [bind_of_ok hcurrent, ho.operand_atom role, bind_of_ok hcommit]
    rfl
  · exact hm.within.mono (Nat.le_trans hfits h₁.offset) (Nat.le_refl _)

/-- The run of an operand answers a prefix operator with the operand that is answered inside. -/
theorem performs_prefixed (ho : o.Bare) {op : Token} {p : Nat} {operand : SyntaxTree}
    (role : o.openingOf? op = some (.prefixOp p)) (hts : ts ≠ [])
    (hinside : Performs o embedded e (.above p) ts operand rest) :
    Performs o embedded e .operand (op :: ts) (.prefixed p op operand) rest := by
  intro d n low c hd hn ha hfits
  obtain ⟨c₁, hcurrent, hf, ha₁, h₁⟩ := ha.current
  obtain ⟨c₂, hcommit, ha₂, hm⟩ := ha₁.commit hf hts
  have hlt : c₂.tokenizer.cursor.rest.length < d :=
    Nat.lt_of_lt_of_le (hm.rest_lt (Operators.ordinary_of_openingOf? role))
      (Nat.le_trans h₁.unread hd)
  obtain ⟨c₃, hrun, ha₃, h₃, hw⟩ := hinside.inside (c := noted c₂ (.prefixOp op p)) hlt ha₂
  obtain ⟨hcover, hwithin⟩ := hm.within.cover hw (Nat.le_refl _)
  have hmoved : Onward c₁ (noted c₂ (.prefixOp op p)) := .of_moves hm
  refine ⟨c₃, ?_, ha₃, h₁.trans (hmoved.trans h₃), ?_⟩
  · show (o.current >>= _) c = _
    rw [bind_of_ok hcurrent, ho.operand_prefixOp role, bind_of_ok hcommit,
      bind_of_ok (note_apply _ _), bind_of_ok hrun, span_erase, bind_of_ok (trust_apply hcover _)]
    rfl
  · exact hwithin.mono (Nat.le_trans hfits h₁.offset) (Nat.le_refl _)

/-- The run of an operand answers the expression that is answered inside of brackets. -/
theorem performs_bracketed (ho : o.Bare) {first last : Token} {closing : TokenType}
    {body : SyntaxTree} (role : o.openingOf? first = some (.bracket closing)) (hts : ts ≠ [])
    (hinside : Performs o embedded e (.above 0) ts body (last :: rest))
    (closes : last.is closing = true) (hrest : rest ≠ []) :
    Performs o embedded e .operand (first :: ts) (.bracketed first body last) rest := by
  intro d n low c hd hn ha hfits
  obtain ⟨c₁, hcurrent, hf, ha₁, h₁⟩ := ha.current
  obtain ⟨c₂, hcommit, ha₂, hm⟩ := ha₁.commit hf hts
  have hlt : c₂.tokenizer.cursor.rest.length < d :=
    Nat.lt_of_lt_of_le (hm.rest_lt (Operators.ordinary_of_openingOf? role))
      (Nat.le_trans h₁.unread hd)
  obtain ⟨c₃, hrun, ha₃, h₃, hw⟩ := hinside.inside hlt ha₂
  obtain ⟨c₄, hcurrent', hf', ha₄, h₄⟩ := ha₃.current
  obtain ⟨c₅, hcommit', ha₅, hm'⟩ := ha₄.commit hf' hrest
  obtain ⟨hcover, hwithin⟩ := hm.within.cover hm'.within (h₃.trans h₄).offset
  refine ⟨c₅, ?_, ha₅, ?_, hwithin.mono (Nat.le_trans hfits h₁.offset) (Nat.le_refl _)⟩
  · show (o.current >>= _) c = _
    rw [bind_of_ok hcurrent, ho.operand_bracket role, bind_of_ok hcommit, bind_of_ok hrun,
      bind_of_ok hcurrent', if_pos closes, bind_of_ok hcommit', bind_of_ok (trust_apply hcover _)]
    rfl
  · exact h₁.trans (.trans (.of_moves hm) (.trans h₃ (.trans h₄ (.of_moves hm'))))

/-- The run of an expression answers what the climb answers behind the operand that is answered. -/
theorem performs_above {minimum : Nat} {left : SyntaxTree} {mid : List Token}
    (hoperand : Performs o embedded e .operand ts left mid)
    (hclimb : Performs o embedded e (.climb minimum left) mid tree rest) :
    Performs o embedded e (.above minimum) ts tree rest := by
  intro d n low c hd hn ha hfits
  obtain ⟨c₁, hrun, ha₁, h₁, hw⟩ := hoperand d n low c hd hn ha hfits
  obtain ⟨token, c₀, hcurrent, hrun⟩ := ok_of_bind hrun
  obtain ⟨c₂, hrun', ha₂, h₂, hw'⟩ :=
    hclimb d _ low c₁ (Nat.le_trans h₁.unread hd) (Nat.lt_succ_self _) ha₁ hw
  refine ⟨c₂, ?_, ha₂, h₁.trans h₂, hw'⟩
  show (o.current >>= _) c = _
  rw [bind_of_ok hcurrent, bind_of_ok hrun, bind_of_ok (unread_apply c₁)]
  exact hrun'

/-- The run of a climb answers its left operand in front of what is no operator for it. -/
theorem performs_stop (ho : o.Bare) {minimum : Nat} {left : SyntaxTree} {next : Token}
    (below : o.Below minimum next) :
    Performs o embedded e (.climb minimum left) (next :: ts) left (next :: ts) := by
  intro d n low c hd hn ha hfits
  obtain ⟨c₁, hcurrent, hf, ha₁, h₁⟩ := ha.current
  refine ⟨c₁, ?_, ha₁, h₁, hfits.mono (Nat.le_refl _) h₁.offset⟩
  obtain ⟨n, rfl⟩ := Nat.exists_eq_add_one.2 (Nat.zero_lt_of_lt hn)
  show o.climb _ minimum (n + 1) left.erase c = _
  rw [ho.climb_succ, bind_of_ok hcurrent]
  cases hbinding : o.bindingOf? next with
  | none => rfl
  | some operator => 
    obtain ⟨p, a⟩ := operator
    dsimp only
    rw [if_pos (below p a hbinding)]
    rfl

/-- The run of a climb goes on from the operator whose right operand is answered inside. -/
theorem performs_infixed (ho : o.Bare) {minimum p : Nat} {a : Associativity}
    {left right : SyntaxTree} {op : Token} {mid : List Token}
    (role : o.bindingOf? op = some (p, a)) (least : minimum ≤ p) (hts : ts ≠ [])
    (hinside : Performs o embedded e (.above (a.rightMinimum p)) ts right mid)
    (hclimb : Performs o embedded e (.climb minimum (.infixed p a left op right)) mid tree rest) :
    Performs o embedded e (.climb minimum left) (op :: ts) tree rest := by
  intro d n low c hd hn ha hfits
  obtain ⟨c₁, hcurrent, hf, ha₁, h₁⟩ := ha.current
  obtain ⟨c₂, hcommit, ha₂, hm⟩ := ha₁.commit hf hts
  have hlt : c₂.tokenizer.cursor.rest.length < c.tokenizer.cursor.rest.length :=
    Nat.lt_of_lt_of_le (hm.rest_lt (Operators.ordinary_of_bindingOf? role)) h₁.unread
  obtain ⟨n, rfl⟩ := Nat.exists_eq_add_one.2 (Nat.zero_lt_of_lt hn)
  obtain ⟨c₃, hrun, ha₃, h₃, hw⟩ :=
    hinside.inside (c := noted c₂ (.infixOp op p)) (Nat.lt_of_lt_of_le hlt hd) ha₂
  have hmoved : Onward c₁ (noted c₂ (.infixOp op p)) := .of_moves hm
  obtain ⟨hcover, hwithin⟩ := hfits.cover hw (h₁.trans hmoved).offset
  have hunread : c₃.tokenizer.cursor.rest.length < c.tokenizer.cursor.rest.length :=
    Nat.lt_of_le_of_lt h₃.unread hlt
  obtain ⟨c₄, hrun', ha₄, h₄, hw'⟩ :=
    hclimb d n low c₃ (Nat.le_trans (Nat.le_of_lt hunread) hd) (by omega) ha₃ hwithin
  have hresult : Operators.infixResult none left.erase op right.erase c₃ =
      (.ok ((SyntaxTree.infixed p a left op right).erase : Result V), c₃) := by
    show (trust _ >>= _) c₃ = _
    rw [span_erase, span_erase, bind_of_ok (trust_apply hcover _)]
    rfl
  refine ⟨c₄, ?_, ha₄, h₁.trans (hmoved.trans (h₃.trans h₄)), hw'⟩
  show o.climb _ minimum (n + 1) left.erase c = _
  rw [ho.climb_succ, bind_of_ok hcurrent, role]
  dsimp only
  rw [if_neg (Nat.not_lt.2 least), bind_of_ok hcommit, bind_of_ok (note_apply _ _),
    bind_of_ok hrun, bind_of_ok hresult]
  exact hrun'

/-- What the relation reads off the tokens ahead is what the run of the task answers. -/
theorem Reads.performs (ho : o.Bare) (h : Reads o task ts tree rest) (hrest : rest ≠ []) :
    Performs o embedded e task ts tree rest := by
  induction h with
  | atom role => exact performs_atom ho role hrest
  | prefixed role inner ih => exact performs_prefixed ho role inner.ne_nil (ih hrest)
  | bracketed role inner closes ih =>
    exact performs_bracketed ho role inner.ne_nil (ih (List.cons_ne_nil _ _)) closes hrest
  | above _ climb iho ihc => exact performs_above (iho climb.ne_nil) (ihc hrest)
  | stop below => exact performs_stop ho below
  | infixed role least inner climb ihi ihc =>
    exact performs_infixed ho role least inner.ne_nil (ihi climb.ne_nil) (ihc hrest)

end

end SyntaxTree

namespace Operators

variable {o : Operators V P}

/-- Where the tokens of a grouped tree are next, skipped ones in between, and no infix operator
comes behind them, reading an expression answers the content of the tree and stops at the token
behind it. No other grouped tree has the same tokens. -/
theorem expression_of_grouped (ho : o.Bare) (hclosings : o.ClosingsEnd)
    (embedded : P → ParseM (Result V)) {tree : SyntaxTree} (hover : tree.Over o)
    (hg : tree.Grouped) {c : Context} {t : Tokenizer} {next : Token}
    (hpass : o.Passes c.tokenizer tree.tokens t) (hnext : o.Faces t next)
    (hend : o.bindingOf? next = none) :
    (∃ journal, o.expression embedded c = (.ok tree.erase, ⟨t, journal⟩)) ∧
      ∀ tree' : SyntaxTree, tree'.Over o → tree'.Grouped → tree'.tokens = tree.tokens →
        tree' = tree := by
  constructor
  · have hbelow : o.Below 0 next := fun p a hp => by rw [hend] at hp; cases hp
    have hreads : SyntaxTree.Reads o (.above 0) (tree.tokens ++ [next]) tree [next] :=
      hg.reads hclosings hover (fun _ _ => Nat.zero_le _)
        (SyntaxTree.declines_of_bindingOf?_eq_none hend tree) (.stop hbelow)
    have hperforms : SyntaxTree.Performs o embedded t (.above 0) (tree.tokens ++ [next]) tree
        [next] :=
      hreads.performs ho (List.cons_ne_nil _ _)
    obtain ⟨c', hrun, hahead, -⟩ :=
      hperforms.inside (Nat.lt_succ_self _) (.of_passes hpass hnext)
    obtain ⟨tree', next', -, -, hface⟩ := above_eq_ok ho hrun
    obtain rfl := hahead.eq_of_faces hface
    refine ⟨c'.journal, ?_⟩
    show (unread >>= _) c = _
    rw [bind_of_ok (unread_apply c)]
    exact hrun
  · intro tree' hover' hg' htokens
    exact hg'.unique hclosings hg hover' hover htokens

theorem arithmetic_closingsEnd (V P : Type) : (arithmetic V P).ClosingsEnd := by
  intro type opening closing role h hrole
  have hmem := mem_of_role? h
  simp only [arithmetic, List.mem_cons, Prod.mk.injEq, reduceCtorEq, and_false, false_or,
    Role.bracket.injEq, List.not_mem_nil, or_false] at hmem
  obtain ⟨-, -, rfl⟩ := hmem
  cases hrole

/-- The tokenizer of `n -n`, behind the first scalars. -/
def differenceBehind (count : Nat) : Tokenizer :=
  { arithmeticTokens "n -n".toList with
    cursor := ⟨"n -n".toList, "n -n".toList.drop count, ⟨1, count + 1, count⟩⟩ }

/-- The token of one scalar of `n -n`. -/
def differenceToken (type : TokenType) (scalar : Char) (offset : Nat) : Token :=
  .ordinary type ⟨[scalar], offset⟩ ⟨⟨1, offset + 1, offset⟩, ⟨1, offset + 2, offset + 1⟩⟩

/-- A difference is read back, with a blank in between and the end of the input behind it. -/
theorem arithmetic_expression_of_grouped :
    (∃ journal, (arithmetic Unit Empty).expression nofun ⟨differenceBehind 0, .forgetful⟩ =
        (.ok (SyntaxTree.infixed 1 .left (.atom (differenceToken "n" 'n' 0))
          (differenceToken "-" '-' 2) (.atom (differenceToken "n" 'n' 3))).erase,
          ⟨differenceBehind 4, journal⟩)) ∧
      ∀ tree' : SyntaxTree, tree'.Over (arithmetic Unit Empty) → tree'.Grouped →
        tree'.tokens = [differenceToken "n" 'n' 0, differenceToken "-" '-' 2,
          differenceToken "n" 'n' 3] →
        tree' = .infixed 1 .left (.atom (differenceToken "n" 'n' 0))
          (differenceToken "-" '-' 2) (.atom (differenceToken "n" 'n' 3)) := by
  have hpass : (arithmetic Unit Empty).Passes (differenceBehind 0) [differenceToken "n" 'n' 0,
      differenceToken "-" '-' 2, differenceToken "n" 'n' 3] (differenceBehind 4) := by
    refine ⟨[differenceToken "n" 'n' 0, differenceToken " " ' ' 1, differenceToken "-" '-' 2,
      differenceToken "n" 'n' 3], ?_, by decide +kernel⟩
    have moves (token : Token) (count : Nat)
        (h : (differenceBehind count).forward token = .ok (differenceBehind (count + 1))) :
        (differenceBehind count).Moves token (differenceBehind (count + 1)) :=
      Tokenizer.forward_moves h
    exact .cons (moves _ 0 rfl) (.cons (moves _ 1 rfl) (.cons (moves _ 2 rfl)
      (.cons (moves _ 3 rfl) .nil)))
  have hnext : (arithmetic Unit Empty).Faces (differenceBehind 4) (.endOfInput ⟨[], 4⟩ ⟨1, 5, 4⟩) :=
    ⟨rfl, rfl⟩
  have hover : (SyntaxTree.infixed 1 .left (.atom (differenceToken "n" 'n' 0))
      (differenceToken "-" '-' 2) (.atom (differenceToken "n" 'n' 3))).Over
        (arithmetic Unit Empty) :=
    ⟨rfl, rfl, rfl⟩
  exact expression_of_grouped (arithmetic_bare _ _) (arithmetic_closingsEnd _ _) nofun hover
    ⟨nofun, nofun, trivial, trivial⟩ hpass hnext rfl

end Operators

end PredictiveParsing
