import PredictiveParsing.Proofs.Expression.Tree

/-!
# Reading a syntax tree off a token sequence

`SyntaxTree.Reads` is precedence climbing as a relation between token sequences and syntax trees: no
depth, no skipped tokens and no results, only the decisions that an operator table takes at each
token. It is deterministic (`SyntaxTree.Reads.det`).

What it reads is grouped by the table (`SyntaxTree.Reads.grouped`), and it reads every tree that is
(`SyntaxTree.Grouped.reads`). The second is an induction over trees whose operators lie on both
spines at once, so it is stated for a tree that the climbing goes on from: whatever is read behind
the tree as a left operand is read from in front of its tokens.
-/

namespace PredictiveParsing

namespace SyntaxTree

/-- What there is to read at a place of a token sequence. -/
inductive Task
  /-- An operand. -/
  | operand
  /-- An expression whose infix operators have at least the given priority. -/
  | above (minimum : Nat)
  /-- Infix operators of at least the given priority and what they take, behind a left operand. -/
  | climb (minimum : Nat) (left : SyntaxTree)

variable {V P : Type}

/-- The tree that a task reads off a sequence, and what it leaves of the sequence. -/
inductive Reads (o : Operators V P) : Task → List Token → SyntaxTree → List Token → Prop
  | atom {t : Token} {ts : List Token} (role : o.openingOf? t = some .atom) :
      Reads o .operand (t :: ts) (.atom t) ts
  | prefixed {op : Token} {p : Nat} {ts rest : List Token} {operand : SyntaxTree}
      (role : o.openingOf? op = some (.prefixOp p)) (inner : Reads o (.above p) ts operand rest) :
      Reads o .operand (op :: ts) (.prefixed p op operand) rest
  | bracketed {first last : Token} {closing : TokenType} {ts rest : List Token}
      {body : SyntaxTree} (role : o.openingOf? first = some (.bracket closing))
      (inner : Reads o (.above 0) ts body (last :: rest)) (closes : last.is closing = true) :
      Reads o .operand (first :: ts) (.bracketed first body last) rest
  | above {minimum : Nat} {ts mid rest : List Token} {left tree : SyntaxTree}
      (operand : Reads o .operand ts left mid)
      (climb : Reads o (.climb minimum left) mid tree rest) :
      Reads o (.above minimum) ts tree rest
  | stop {minimum : Nat} {left : SyntaxTree} {next : Token} {ts : List Token}
      (below : o.Below minimum next) :
      Reads o (.climb minimum left) (next :: ts) left (next :: ts)
  | infixed {minimum p : Nat} {a : Associativity} {left right tree : SyntaxTree} {op : Token}
      {ts mid rest : List Token} (role : o.bindingOf? op = some (p, a)) (least : minimum ≤ p)
      (inner : Reads o (.above (a.rightMinimum p)) ts right mid)
      (climb : Reads o (.climb minimum (.infixed p a left op right)) mid tree rest) :
      Reads o (.climb minimum left) (op :: ts) tree rest

variable {o : Operators V P} {task : Task} {ts rest : List Token} {tree : SyntaxTree}

/-- A task reads only one tree, and leaves only one rest. -/
theorem Reads.det (h : Reads o task ts tree rest) {tree' : SyntaxTree} {rest' : List Token}
    (h' : Reads o task ts tree' rest') : tree = tree' ∧ rest = rest' := by
  induction h generalizing tree' rest' with
  | atom role =>
    cases h' with
    | atom => exact ⟨rfl, rfl⟩
    | prefixed role' | bracketed role' => rw [role] at role'; cases role'
  | prefixed role inner ih =>
    cases h' with
    | prefixed role' inner' =>
      rw [role] at role'
      cases role'
      obtain ⟨rfl, rfl⟩ := ih inner'
      exact ⟨rfl, rfl⟩
    | atom role' | bracketed role' => rw [role] at role'; cases role'
  | bracketed role inner closes ih =>
    cases h' with
    | bracketed role' inner' closes' =>
      obtain ⟨rfl, hrest⟩ := ih inner'
      cases hrest
      exact ⟨rfl, rfl⟩
    | atom role' | prefixed role' => rw [role] at role'; cases role'
  | above operand climb iho ihc =>
    cases h' with
    | above operand' climb' =>
      obtain ⟨rfl, rfl⟩ := iho operand'
      exact ihc climb'
  | stop below =>
    cases h' with
    | stop => exact ⟨rfl, rfl⟩
    | infixed role' least' => exact absurd (below _ _ role') (by omega)
  | infixed role least inner climb ihi ihc =>
    cases h' with
    | stop below' => exact absurd (below' _ _ role) (by omega)
    | infixed role' least' inner' climb' =>
      rw [role] at role'
      cases role'
      obtain ⟨rfl, rfl⟩ := ihi inner'
      exact ihc climb'

/-! ## What is read is grouped -/

/-- The tree is over the table and grouped by it, and nothing on its right spine takes the first
token behind it. -/
structure Settled (o : Operators V P) (tree : SyntaxTree) (rest : List Token) : Prop where
  roles : tree.Over o
  grouped : tree.Grouped
  declines : ∀ next, rest.head? = some next → tree.Declines o next

/-- What a task promises of the tree it reads. A climb takes its promise from its left operand. -/
def Task.Promises (o : Operators V P) :
    Task → List Token → SyntaxTree → List Token → Prop
  | .operand, ts, tree, rest =>
    ts = tree.tokens ++ rest ∧ tree.Settled o rest ∧ tree.leftPriorities = []
  | .above minimum, ts, tree, rest =>
    ts = tree.tokens ++ rest ∧ tree.Settled o rest ∧ (∀ p ∈ tree.leftPriorities, minimum ≤ p) ∧
      ∀ next, rest.head? = some next → o.Below minimum next
  | .climb minimum left, ts, tree, rest =>
    left.Settled o ts → (∀ p ∈ left.leftPriorities, minimum ≤ p) →
      left.tokens ++ ts = tree.tokens ++ rest ∧ tree.Settled o rest ∧
        (∀ p ∈ tree.leftPriorities, minimum ≤ p) ∧
        ∀ next, rest.head? = some next → o.Below minimum next

/-- What is read is over the table and grouped by it, and has the tokens that it was read off. -/
theorem Reads.grouped (h : Reads o task ts tree rest) : task.Promises o ts tree rest := by
  induction h with
  | atom role => exact ⟨rfl, ⟨role, trivial, fun _ _ => nofun⟩, rfl⟩
  | prefixed role _ ih =>
    obtain ⟨rfl, hs, hleft, hbelow⟩ := ih
    refine ⟨rfl, ⟨⟨role, hs.roles⟩, ⟨hleft, hs.grouped⟩, fun next hn m hm => ?_⟩, rfl⟩
    rcases List.mem_cons.1 hm with rfl | hm
    · exact hbelow next hn
    · exact hs.declines next hn m hm
  | bracketed role _ closes ih =>
    obtain ⟨rfl, hs, -, -⟩ := ih
    exact ⟨by simp [tokens], ⟨⟨⟨_, role, closes⟩, hs.roles⟩, hs.grouped, fun _ _ => nofun⟩, rfl⟩
  | above _ _ iho ihc =>
    obtain ⟨rfl, hs, hleft⟩ := iho
    exact ihc hs (by simp [hleft])
  | stop below => exact fun hs hleft => ⟨rfl, hs, hleft, by rintro _ ⟨⟩; exact below⟩
  | @infixed minimum p a left right tree op ts mid rest role least _ _ ihi ihc =>
    intro hs hleft
    obtain ⟨rfl, hsr, hright, hbelow⟩ := ihi
    -- the operator joins the right spines of neither operand, so both stay as they were read
    have hsettled : (SyntaxTree.infixed p a left op right).Settled o mid := by
      refine ⟨⟨role, hs.roles, hsr.roles⟩, ⟨fun m hm => ?_, hright, hs.grouped, hsr.grouped⟩,
        fun next hn m hm => ?_⟩
      · exact hs.declines op rfl m hm p a role
      · rcases List.mem_cons.1 hm with rfl | hm
        · exact hbelow next hn
        · exact hsr.declines next hn m hm
    have hspine : ∀ q ∈ (SyntaxTree.infixed p a left op right).leftPriorities, minimum ≤ q := by
      intro q hq
      rcases List.mem_cons.1 hq with rfl | hq
      · exact least
      · exact hleft q hq
    obtain ⟨htokens, hrest⟩ := ihc hsettled hspine
    exact ⟨by simpa [tokens] using htokens, hrest⟩

/-! ## What is grouped is read -/

/-- A grouped tree is read off its tokens, in front of a token that its right spine declines: what a
climb goes on to behind the tree is what is read from in front of it. -/
theorem Grouped.reads (ho : o.ClosingsEnd) (hg : tree.Grouped) (hover : tree.Over o)
    {minimum : Nat} (hleft : ∀ p ∈ tree.leftPriorities, minimum ≤ p) {next : Token}
    (hd : tree.Declines o next) {whole : SyntaxTree}
    (h : Reads o (.climb minimum tree) (next :: ts) whole rest) :
    Reads o (.above minimum) (tree.tokens ++ next :: ts) whole rest := by
  induction tree generalizing minimum next ts whole rest with
  | atom t => exact .above (.atom hover) h
  | prefixed p op operand ih =>
    have hinner : Reads o (.above p) (operand.tokens ++ next :: ts) operand (next :: ts) :=
      ih hg.2 hover.2 hg.1 (fun m hm => hd m (.tail _ hm)) (.stop (hd p (.head _)))
    exact .above (.prefixed hover.1 hinner) h
  | bracketed first body last ih =>
    obtain ⟨⟨closing, hrole, hlast⟩, hbody⟩ := hover
    have hend := ho.bindingOf? hrole hlast
    have hstop : o.Below 0 last := fun p a hp => by rw [hend] at hp; cases hp
    have hinner : Reads o (.above 0) (body.tokens ++ last :: next :: ts) body
        (last :: next :: ts) :=
      ih hg hbody (fun _ _ => Nat.zero_le _) (declines_of_bindingOf?_eq_none hend body)
        (.stop hstop)
    have hoperand := Reads.bracketed hrole hinner hlast
    exact .above (by simpa [tokens] using hoperand) h
  | infixed p a left op right ihl ihr =>
    obtain ⟨hleftEnd, hrightStart, hgl, hgr⟩ := hg
    obtain ⟨hrole, hol, hor⟩ := hover
    have hright : Reads o (.above (a.rightMinimum p)) (right.tokens ++ next :: ts) right
        (next :: ts) :=
      ihr hgr hor hrightStart (fun m hm => hd m (.tail _ hm)) (.stop (hd _ (.head _)))
    have hop : left.Declines o op := by
      intro m hm q b hq
      rw [hrole] at hq
      cases hq
      exact hleftEnd m hm
    have hclimb := Reads.infixed hrole (hleft p (.head _)) hright h
    have := ihl hgl hol (fun q hq => hleft q (.tail _ hq)) hop hclimb
    simpa [tokens] using this

/-- There is one grouping of a token sequence at most. -/
theorem Grouped.unique (ho : o.ClosingsEnd) {tree tree' : SyntaxTree} (hg : tree.Grouped)
    (hg' : tree'.Grouped) (hover : tree.Over o) (hover' : tree'.Over o)
    (htokens : tree.tokens = tree'.tokens) : tree = tree' := by
  have hnone : o.bindingOf? (.endOfInput default default) = none := rfl
  have hstop : o.Below 0 (.endOfInput default default) := fun _ _ => nofun
  have reads {tree : SyntaxTree} (hg : tree.Grouped) (hover : tree.Over o) :
      Reads o (.above 0) (tree.tokens ++ [.endOfInput default default]) tree
        [.endOfInput default default] :=
    hg.reads ho hover (fun _ _ => Nat.zero_le _) (declines_of_bindingOf?_eq_none hnone tree)
      (.stop hstop)
  have h' := reads hg' hover'
  rw [← htokens] at h'
  exact ((reads hg hover).det h').1

end SyntaxTree

end PredictiveParsing
