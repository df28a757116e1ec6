import PredictiveParsing.Regex.Syntax

/-!
# Patterns in brackets

A text that is read into symbols is read into the same ones in front of a closing bracket, within
one more group, and then the bracket ends this group (`Symbol.readFrom?_closed`). To see this, each
reader of a part is stable (`Stable`): what it reads from a text it also reads in front of the
bracket. Readers that look ahead do not look for this bracket, so they find the same in front of
them, or nothing they look for (`Closed.head`, `Closed.pair`).

There is one exception. In a spaced mode, a comment at the end of the text takes the bracket, and
the group stays open. `Closed` therefore relates the texts that are left when both are used up, too.
-/

namespace PredictiveParsing.Regex

/-- The second text is the first one with a closing bracket behind it, unless both are used up: a
comment takes the bracket, too. -/
inductive Closed : Text → Text → Prop
  | bracket {t : Text} : Closed t (t ++ [')'])
  | usedUp : Closed [] []

/-- In front of a closing bracket the reader reads what it reads without it. -/
def Stable {α : Type} (read : Text → Option (α × Text)) : Prop :=
  ∀ ⦃t t' : Text⦄ ⦃a : α⦄ ⦃rest : Text⦄, Closed t t' → read t = some (a, rest) →
    ∃ rest', read t' = some (a, rest') ∧ Closed rest rest'

variable {t t' cs : Text} {c d : Char} {mode : Mode}

namespace Closed

/-- As long as something is left, the first scalar is the same. -/
theorem of_cons (h : Closed (c :: cs) t') : ∃ cs', t' = c :: cs' ∧ Closed cs cs' := by
  cases h with
  | bracket => exact ⟨cs ++ [')'], rfl, .bracket⟩

/-- Nothing but the bracket comes first in the second text alone. -/
theorem of_cons_right {cs' : Text} (h : Closed t (c :: cs')) (hc : c ≠ ')') :
    ∃ cs, t = c :: cs ∧ Closed cs cs' := by
  cases t with
  | nil =>
    generalize hs : c :: cs' = s at h
    cases h with
    | bracket => cases hs; exact absurd rfl hc
    | usedUp => cases hs
  | cons d cs =>
    obtain ⟨cs'', heq, hcs⟩ := h.of_cons
    cases heq
    exact ⟨cs, rfl, hcs⟩

theorem of_pair (h : Closed (c :: d :: cs) t') : ∃ cs', t' = c :: d :: cs' ∧ Closed cs cs' := by
  obtain ⟨behind, rfl, hbehind⟩ := h.of_cons
  obtain ⟨cs', rfl, hcs⟩ := hbehind.of_cons
  exact ⟨cs', rfl, hcs⟩

theorem nil_ne (h : Closed t t') (hne : t = [] → False) : t' = [] → False := by
  cases t with
  | nil => exact fun _ => hne rfl
  | cons c cs =>
    obtain ⟨cs', rfl, -⟩ := h.of_cons
    nofun

theorem head_ne (h : Closed t t') (hc : c ≠ ')') (hne : ∀ cs, t = c :: cs → False) :
    ∀ cs', t' = c :: cs' → False := by
  rintro cs' rfl
  obtain ⟨cs, rfl, -⟩ := h.of_cons_right hc
  exact hne cs rfl

theorem pair_ne (h : Closed t t') (hc : c ≠ ')') (hd : d ≠ ')')
    (hne : ∀ cs, t = c :: d :: cs → False) : ∀ cs', t' = c :: d :: cs' → False := by
  rintro cs' rfl
  obtain ⟨behind, rfl, hbehind⟩ := h.of_cons_right hc
  obtain ⟨cs, rfl, -⟩ := hbehind.of_cons_right hd
  exact hne cs rfl

/-- The texts begin with a scalar, or neither does. -/
theorem head (h : Closed t t') (hc : c ≠ ')') :
    (∃ cs cs', t = c :: cs ∧ t' = c :: cs' ∧ Closed cs cs') ∨
      (∀ cs, t = c :: cs → False) ∧ ∀ cs', t' = c :: cs' → False := by
  by_cases hhead : ∃ cs, t = c :: cs
  · obtain ⟨cs, rfl⟩ := hhead
    obtain ⟨cs', rfl, hcs⟩ := h.of_cons
    exact .inl ⟨cs, cs', rfl, rfl, hcs⟩
  · have hne : ∀ cs, t = c :: cs → False := fun cs hcs => hhead ⟨cs, hcs⟩
    exact .inr ⟨hne, h.head_ne hc hne⟩

/-- The texts begin with two scalars, or neither does. -/
theorem pair (h : Closed t t') (hc : c ≠ ')') (hd : d ≠ ')') :
    (∃ cs cs', t = c :: d :: cs ∧ t' = c :: d :: cs' ∧ Closed cs cs') ∨
      (∀ cs, t = c :: d :: cs → False) ∧ ∀ cs', t' = c :: d :: cs' → False := by
  by_cases hpair : ∃ cs, t = c :: d :: cs
  · obtain ⟨cs, rfl⟩ := hpair
    obtain ⟨cs', rfl, hcs⟩ := h.of_pair
    exact .inl ⟨cs, cs', rfl, rfl, hcs⟩
  · have hne : ∀ cs, t = c :: d :: cs → False := fun cs hcs => hpair ⟨cs, hcs⟩
    exact .inr ⟨hne, h.pair_ne hc hd hne⟩

/-- A caret comes first in both texts or in neither. -/
theorem caret (h : Closed t t') :
    (t'.head? == some '^') = (t.head? == some '^') ∧
      Closed (if t.head? == some '^' then t.drop 1 else t)
        (if t.head? == some '^' then t'.drop 1 else t') := by
  rcases h.head (show '^' ≠ ')' by decide) with ⟨cs, cs', rfl, rfl, hcs⟩ | ⟨hne, hne'⟩
  · exact ⟨rfl, hcs⟩
  · have not_first {t : Text} (hne : ∀ cs, t = '^' :: cs → False) :
        (t.head? == some '^') = false := by
      cases t with
      | nil => rfl
      | cons c cs => exact beq_false_of_ne fun hc => hne cs (by rw [Option.some.inj hc])
    rw [not_first hne, not_first hne']
    exact ⟨rfl, h⟩

theorem length_le (h : Closed t t') : t.length ≤ t'.length := by
  cases h with
  | bracket => simp
  | usedUp => exact Nat.le_refl _

theorem dropWhile (h : Closed t t') (p : Char → Bool) :
    Closed (t.dropWhile p) (t'.dropWhile p) := by
  cases h with
  | usedUp => exact .usedUp
  | bracket =>
    rw [List.dropWhile_append]
    split
    · next hnil =>
      rw [List.isEmpty_iff.1 hnil, List.dropWhile_cons]
      split
      · exact .usedUp
      · exact .bracket
    · exact .bracket

theorem takeWhile (h : Closed t t') {p : Char → Bool} (hp : t.dropWhile p ≠ []) :
    t'.takeWhile p = t.takeWhile p := by
  cases h with
  | usedUp => rfl
  | bracket =>
    induction t with
    | nil => exact absurd rfl hp
    | cons c cs ih =>
      rw [List.dropWhile_cons] at hp
      rw [List.cons_append, List.takeWhile_cons, List.takeWhile_cons]
      split
      · next hc => rw [ih (by rwa [if_pos hc] at hp)]
      · rfl

end Closed

/-! ## What is passed over -/

/-- In front of a closing bracket the same scalars are taken. The bound may differ if the text does
not reach it. -/
theorem Mode.take_closed (mode : Mode) (accept : Char → Bool) (h : Closed t t')
    (haccept : accept ')' = false) {most most' : Nat}
    (hmost : most' = most ∨ t.length ≤ most ∧ t.length ≤ most') (inComment : Bool) :
    ∃ rest', mode.take accept most' inComment t' =
        ((mode.take accept most inComment t).1, rest') ∧
      Closed (mode.take accept most inComment t).2 rest' := by
  have hblank : Text.isBlank ')' = false := by decide
  cases h with
  | usedUp => exact ⟨[], by simp [take], by simpa [take] using .usedUp⟩
  | bracket =>
    induction t generalizing most most' inComment with
    | nil =>
      cases inComment with
      | true => exact ⟨[], by simp [take], by simpa [take] using .usedUp⟩
      | false =>
        refine ⟨[')'], ?_, by simpa [take] using Closed.bracket (t := [])⟩
        cases most' <;> simp [take, hblank, haccept]
    | cons c cs ih =>
      rw [List.length_cons] at hmost
      cases inComment with
      | true => exact ih (hmost.imp_right fun h => by omega) _
      | false =>
        rw [List.cons_append]
        simp only [take]
        split
        · exact ih (hmost.imp_right fun h => by omega) _
        · split
          · exact ih (hmost.imp_right fun h => by omega) _
          · cases most with
            | zero =>
              obtain rfl : most' = 0 := by omega
              exact ⟨_, rfl, .bracket⟩
            | succ most =>
              obtain ⟨most', rfl⟩ : ∃ n, most' = n + 1 := ⟨most' - 1, by omega⟩
              dsimp only
              split
              · obtain ⟨rest', hrest', hclosed⟩ :=
                  @ih most most' (hmost.imp (by omega) fun h => by omega) false
                exact ⟨rest', by rw [hrest'], hclosed⟩
              · exact ⟨_, rfl, .bracket⟩

theorem Mode.takeAll_closed (mode : Mode) (accept : Char → Bool) (h : Closed t t')
    (haccept : accept ')' = false) :
    ∃ rest', mode.takeAll accept t' = ((mode.takeAll accept t).1, rest') ∧
      Closed (mode.takeAll accept t).2 rest' :=
  take_closed mode accept h haccept (.inr ⟨Nat.le_refl _, h.length_le⟩) false

theorem Mode.skip_nil (mode : Mode) : mode.skip [] = [] := by
  simp only [skip, take]

theorem Mode.skip_closed (mode : Mode) (h : Closed t t') :
    Closed (mode.skip t) (mode.skip t') := by
  obtain ⟨rest', hrest', hclosed⟩ :=
    take_closed mode (fun _ => false) h rfl (.inl (Eq.refl 0)) false
  unfold skip
  rw [hrest']
  exact hclosed

/-! ## Readers -/

namespace Stable

variable {α β : Type} {read : Text → Option (α × Text)}

theorem pure (a : α) : Stable fun t => some (a, t) := by
  intro t t' b rest h hread
  cases hread
  exact ⟨t', rfl, h⟩

theorem of_option (o : Option α) (f : α → β) : Stable fun t => o.map fun a => (f a, t) := by
  cases o with
  | none => exact fun _ _ _ _ _ h => nomatch h
  | some a => exact pure (f a)

theorem map (h : Stable read) (f : α → β) :
    Stable fun t => (read t).map fun (a, rest) => (f a, rest) := by
  intro t t' b rest hclosed hread
  obtain ⟨⟨a, _⟩, ha, hb⟩ := Option.map_eq_some_iff.1 hread
  cases hb
  obtain ⟨rest', ha', hrest⟩ := h hclosed ha
  exact ⟨rest', Option.map_eq_some_iff.2 ⟨_, ha', rfl⟩, hrest⟩

end Stable

/-! ### Escapes -/

theorem stable_hexScalar? (mode : Mode) (width : Nat) : Stable (hexScalar? mode width) := by
  intro t t' a rest h hread
  have hskip := mode.skip_closed h
  have hdigit : isHexDigit ')' = false := by decide
  rcases hskip.head (show '\x7b' ≠ ')' by decide) with ⟨cs, cs', hs, hs', hcs⟩ | ⟨hs, hs'⟩
  · obtain ⟨behind', htake, hbehind⟩ := mode.takeAll_closed isHexDigit hcs hdigit
    simp only [hexScalar?, hs, hs', htake] at hread ⊢
    split at hread
    · next d ds behind hdigits =>
      rw [hdigits] at hbehind ⊢
      obtain ⟨rest', rfl, hrest⟩ := hbehind.of_cons
      obtain ⟨c, hc, heq⟩ := Option.map_eq_some_iff.1 hread
      cases heq
      exact ⟨_, by simp only [hc, Option.map_some], mode.skip_closed hrest⟩
    · cases hread
  · obtain ⟨rest', htake, hrest⟩ :=
      mode.take_closed isHexDigit hskip hdigit (.inl (Eq.refl width)) false
    simp only [hexScalar?, htake] at hread ⊢
    split at hread
    · next hlength =>
      rw [if_pos hlength]
      obtain ⟨c, hc, hread⟩ := Option.bind_eq_some_iff.1 hread
      split at hread
      · cases hread
      · next hascii =>
        cases hread
        refine ⟨rest', ?_, hrest⟩
        simp only [hc, Option.bind_eq_bind, Option.bind_some, if_neg hascii]
    · cases hread

theorem stable_boundary? (mode : Mode) : Stable (boundary? mode) := by
  intro t t' a rest h hread
  rcases h.head (show '\x7b' ≠ ')' by decide) with ⟨cs, cs', rfl, rfl, hcs⟩ | ⟨hs, hs'⟩
  · have hskip := mode.skip_closed hcs
    cases hinner : mode.skip cs with
    | nil => simp [boundary?, hinner] at hread
    | cons c inner =>
      rw [hinner] at hskip
      obtain ⟨inner', hinner', -⟩ := hskip.of_cons
      obtain ⟨behind', htake, hbehind⟩ :=
        mode.takeAll_closed (fun c => c.isAlpha || c == '-') hcs (by decide)
      simp only [boundary?, hinner, hinner', htake] at hread ⊢
      split at hread
      · next hc =>
        rw [if_pos hc]
        split at hread
        · next name behind htaken =>
          rw [htaken] at hbehind ⊢
          obtain ⟨rest', rfl, hrest⟩ := hbehind.of_cons
          obtain ⟨edge, hedge, heq⟩ := Option.map_eq_some_iff.1 hread
          cases heq
          exact ⟨rest', by simp only [hedge, Option.map_some], hrest⟩
        · cases hread
      · next hc =>
        rw [if_neg hc]
        cases hread
        exact ⟨_, rfl, h⟩
  · simp only [boundary?] at hread ⊢
    cases hread
    exact ⟨t', rfl, h⟩

theorem stable_escape? (mode : Mode) : Stable (escape? mode) := by
  intro t t' a rest h hread
  cases t with
  | nil => cases hread
  | cons c cs =>
    obtain ⟨cs', rfl, hcs⟩ := h.of_cons
    unfold escape? at hread
    dsimp only at hread
    split at hread
    case h_1 | h_2 | h_3 | h_4 | h_5 | h_6 => exact Stable.of_option _ _ hcs hread
    case h_7 | h_8 | h_9 => exact Stable.map (stable_hexScalar? mode _) _ hcs hread
    case h_10 | h_11 | h_13 | h_14 | h_15 => exact Stable.pure _ hcs hread
    case h_12 => exact stable_boundary? mode hcs hread
    case h_16 =>
      simp only [escape?]
      exact Stable.of_option _ _ hcs hread

/-! ### Classes -/

theorem stable_classItem? (mode : Mode) : Stable (classItem? mode) := by
  intro t t' a rest h hread
  cases t with
  | nil => cases hread
  | cons c cs =>
    obtain ⟨cs', rfl, hcs⟩ := h.of_cons
    by_cases hc : c = '\\'
    · subst hc
      simp only [classItem?] at hread ⊢
      split at hread
      · next hescape =>
        cases hread
        obtain ⟨rest', hescape', hrest⟩ := stable_escape? mode hcs hescape
        exact ⟨rest', by simp only [hescape'], hrest⟩
      · next hescape =>
        cases hread
        obtain ⟨rest', hescape', hrest⟩ := stable_escape? mode hcs hescape
        exact ⟨rest', by simp only [hescape'], hrest⟩
      · cases hread
    · simp only [classItem?] at hread ⊢
      cases hread
      exact ⟨cs', rfl, hcs⟩

/-- An item that does not begin a range. -/
theorem stable_itemAlone (mode : Mode) (item : Char ⊕ ScalarSet) :
    Stable fun rest =>
      match item with
      | .inl c => (rangeSet? mode c c).map fun s => (s, rest)
      | .inr s => some (s, rest) := by
  cases item with
  | inl c => exact Stable.of_option _ _
  | inr s => exact Stable.pure s

theorem stable_classRange? (mode : Mode) : Stable (classRange? mode) := by
  intro t t' a rest h hread
  obtain ⟨⟨item, behind⟩, hitem, hread⟩ := Option.bind_eq_some_iff.1 hread
  obtain ⟨behind', hitem', hbehind⟩ := stable_classItem? mode h hitem
  have halone := stable_itemAlone mode item
  have hskip := mode.skip_closed hbehind
  simp only [classRange?, hitem', Option.bind_eq_bind, Option.bind_some]
  dsimp only at hread
  rcases hskip.head (show '-' ≠ ')' by decide) with ⟨cs, cs', hs, hs', hcs⟩ | ⟨hs, hs'⟩
  · have hbound := mode.skip_closed hcs
    simp only [hs, hs'] at hread ⊢
    rcases hbound.head (show ']' ≠ ')' by decide) with ⟨_, _, hb, hb', -⟩ | ⟨hb, hb'⟩
    · simp only [hb, hb'] at hread ⊢
      exact halone hbehind hread
    · rcases hbound.head (show '-' ≠ ')' by decide) with ⟨_, _, hd, hd', -⟩ | ⟨hd, hd'⟩
      · simp only [hd, hd'] at hread ⊢
        exact halone hbehind hread
      · simp only [] at hread ⊢
        obtain ⟨⟨last, _⟩, hlast, hread⟩ := Option.bind_eq_some_iff.1 hread
        obtain ⟨rest', hlast', hrest⟩ := stable_classItem? mode hbound hlast
        simp only [hlast', Option.bind_some]
        dsimp only at hread
        split at hread
        · exact Stable.of_option _ _ hrest hread
        · cases hread
  · simp only [] at hread ⊢
    exact halone hbehind hread

/-- In front of a closing bracket a class has a name if it has one without the bracket. -/
theorem namedClass?_closed (h : Closed t t') :
    (namedClass? t = none ∧ namedClass? t' = none) ∨
      ∃ s negated rest rest', namedClass? t = some (s, negated, rest) ∧
        namedClass? t' = some (s, negated, rest') ∧ Closed rest rest' := by
  rcases h.head (show ':' ≠ ')' by decide) with ⟨cs, cs', rfl, rfl, hcs⟩ | ⟨hs, hs'⟩
  · obtain ⟨hcaret, hname⟩ := hcs.caret
    simp only [namedClass?, hcaret]
    rcases (hname.dropWhile (· != ':')).pair (show ':' ≠ ')' by decide) (show ']' ≠ ')' by decide)
      with ⟨rest, rest', hrest, hrest', hclosed⟩ | ⟨hne, hne'⟩
    · rw [hname.takeWhile (by rw [hrest]; nofun)]
      simp only [hrest, hrest']
      generalize bracketClass? _ = named
      cases named with
      | none => exact .inl ⟨rfl, rfl⟩
      | some s => exact .inr ⟨s, _, rest, rest', rfl, rfl, hclosed⟩
    · exact .inl ⟨by simp only [], by simp only []⟩
  · exact .inl ⟨by simp only [namedClass?], by simp only [namedClass?]⟩

theorem openClass_closed (mode : Mode) (h : Closed t t') :
    ∃ rest', openClass mode t' = ((openClass mode t).1, rest') ∧
      Closed (openClass mode t).2 rest' := by
  obtain ⟨hcaret, hitems⟩ := (mode.skip_closed h).caret
  obtain ⟨behind', htake, hbehind⟩ := mode.takeAll_closed (· == '-') hitems (by decide)
  simp only [openClass, hcaret, htake]
  generalize mode.takeAll _ _ = taken at hbehind ⊢
  obtain ⟨hyphens, behind⟩ := taken
  dsimp only at hbehind ⊢
  cases hyphens with
  | cons => exact ⟨behind', rfl, hbehind⟩
  | nil =>
    rcases hbehind.head (show ']' ≠ ')' by decide) with ⟨cs, cs', rfl, rfl, hcs⟩ | ⟨hs, hs'⟩
    · exact ⟨_, rfl, mode.skip_closed hcs⟩
    · have hne : ∀ cs, ([] : Text) = [] → behind = ']' :: cs → False := fun cs _ => hs cs
      have hne' : ∀ cs, ([] : Text) = [] → behind' = ']' :: cs → False := fun cs _ => hs' cs
      simp only []
      exact ⟨behind', rfl, hbehind⟩

/-- A bound on the steps that is large enough for the text is large enough in front of a bracket. -/
theorem classRest?_closed (mode : Mode) {n n' : Nat} (hn : n ≤ n') {o : OpenClass}
    {outer : List OpenClass} {part : ClassPart} {rest : Text} (h : Closed t t')
    (hread : classRest? mode n o outer t = some (part, rest)) :
    ∃ rest', classRest? mode n' o outer t' = some (part, rest') ∧ Closed rest rest' := by
  induction n generalizing n' o outer t t' with
  | zero => cases hread
  | succ n ih =>
    obtain ⟨n', rfl⟩ : ∃ k, n' = k + 1 := ⟨n' - 1, by omega⟩
    replace ih := fun {o outer t t'} => @ih t t' n' (by omega) o outer
    have hskip := mode.skip_closed h
    unfold classRest? at hread
    split at hread
    · cases hread
    · next cs hs =>
      rw [hs] at hskip
      obtain ⟨cs', hs', hcs⟩ := hskip.of_cons
      simp only [classRest?, hs']
      rcases namedClass?_closed hcs with ⟨hnamed, hnamed'⟩ |
        ⟨s, negated, _, _, hnamed, hnamed', hbehind⟩
      · obtain ⟨behind', hopen, hbehind⟩ := openClass_closed mode hcs
        simp only [hnamed, hnamed', hopen] at hread ⊢
        exact ih hbehind hread
      · simp only [hnamed, hnamed'] at hread ⊢
        obtain ⟨set, hset, hread⟩ := Option.bind_eq_some_iff.1 hread
        simp only [hset, Option.bind_eq_bind, Option.bind_some]
        exact ih hbehind hread
    · next cs hs =>
      rw [hs] at hskip
      obtain ⟨cs', hs', hcs⟩ := hskip.of_cons
      simp only [classRest?, hs']
      obtain ⟨closed, hclose, hread⟩ := Option.bind_eq_some_iff.1 hread
      simp only [hclose, Option.bind_eq_bind, Option.bind_some]
      cases outer with
      | nil =>
        cases hread
        exact ⟨cs', rfl, hcs⟩
      | cons => exact ih hcs hread
    iterate 3
      · next cs hs =>
        rw [hs] at hskip
        obtain ⟨cs', hs', hcs⟩ := hskip.of_pair
        simp only [classRest?, hs']
        exact ih hcs hread
    · next hnil hopen hclose hand hminus htilde =>
      have hnil' := hskip.nil_ne hnil
      have hopen' := hskip.head_ne (by decide) hopen
      have hclose' := hskip.head_ne (by decide) hclose
      have hand' := hskip.pair_ne (by decide) (by decide) hand
      have hminus' := hskip.pair_ne (by decide) (by decide) hminus
      have htilde' := hskip.pair_ne (by decide) (by decide) htilde
      simp only [classRest?]
      obtain ⟨⟨set, _⟩, hrange, hread⟩ := Option.bind_eq_some_iff.1 hread
      obtain ⟨behind', hrange', hbehind⟩ := stable_classRange? mode hskip hrange
      simp only [hrange', Option.bind_eq_bind, Option.bind_some]
      exact ih hbehind hread

theorem stable_bracketedClass? (mode : Mode) : Stable (bracketedClass? mode) := by
  intro t t' part rest h hread
  obtain ⟨behind', hopen, hbehind⟩ := openClass_closed mode h
  simp only [bracketedClass?, hopen] at hread ⊢
  exact classRest?_closed mode (Nat.succ_le_succ hbehind.length_le) hbehind hread

/-! ### Counts -/

theorem stable_decimal? (mode : Mode) : Stable (decimal? mode) := by
  intro t t' n rest h hread
  obtain ⟨behind', htake, hbehind⟩ :=
    mode.takeAll_closed Char.isDigit (h.dropWhile Text.isBlank) (by decide)
  simp only [decimal?, htake] at hread ⊢
  split at hread
  · cases hread
  · next digits behind hne htaken =>
    rw [htaken] at hbehind ⊢
    simp only []
    split at hread
    · next hlt =>
      rw [if_pos hlt]
      cases hread
      exact ⟨_, rfl, mode.skip_closed (hbehind.dropWhile Text.isBlank)⟩
    · cases hread

theorem stable_bounds? (mode : Mode) : Stable (bounds? mode) := by
  intro t t' bounds rest h hread
  obtain ⟨⟨least, behind⟩, hleast, hread⟩ := Option.bind_eq_some_iff.1 hread
  obtain ⟨behind', hleast', hbehind⟩ := stable_decimal? mode (mode.skip_closed h) hleast
  simp only [bounds?, hleast', Option.bind_eq_bind, Option.bind_some]
  dsimp only at hread
  split at hread
  · next cs =>
    obtain ⟨cs', rfl, hcs⟩ := hbehind.of_cons
    cases hread
    exact ⟨cs', rfl, hcs⟩
  · next cs =>
    obtain ⟨cs', rfl, hcs⟩ := hbehind.of_cons
    have hskip := mode.skip_closed hcs
    simp only []
    rcases hskip.head (show '\x7d' ≠ ')' by decide) with ⟨rest, rest', hs, hs', hrest⟩ | ⟨hs, hs'⟩
    · simp only [hs, hs'] at hread ⊢
      cases hread
      exact ⟨rest', rfl, hrest⟩
    · simp only [] at hread ⊢
      obtain ⟨⟨most, last⟩, hmost, hread⟩ := Option.bind_eq_some_iff.1 hread
      obtain ⟨last', hmost', hlast⟩ := stable_decimal? mode hskip hmost
      simp only [hmost', Option.bind_some]
      dsimp only at hread
      split at hread
      · next rest =>
        obtain ⟨rest', rfl, hrest⟩ := hlast.of_cons
        split at hread
        · next hle =>
          cases hread
          exact ⟨rest', by simp only [if_pos hle], hrest⟩
        · cases hread
      · cases hread
  · cases hread

/-! ### Groups and flags -/

theorem stable_groupName? : Stable groupName? := by
  intro t t' name rest h hread
  have hbehind := h.dropWhile
    fun c => Text.isWordScalar c || c == '.' || c == '[' || c == ']'
  simp only [groupName?] at hread ⊢
  split at hread
  · next first others behind htake hdrop =>
    rw [hdrop] at hbehind
    obtain ⟨rest', hdrop', hrest⟩ := hbehind.of_cons
    rw [h.takeWhile (by rw [hdrop]; nofun), htake, hdrop']
    split at hread
    · next hfirst =>
      cases hread
      exact ⟨rest', by simp only [if_pos hfirst], hrest⟩
    · cases hread
  · cases hread

theorem readFlags?_closed {seen : List Char} {mode' : Mode} {hasColon : Bool} {rest : Text}
    (h : Closed t t') (hread : mode.readFlags? seen t = some (mode', hasColon, rest)) :
    ∃ rest', mode.readFlags? seen t' = some (mode', hasColon, rest') ∧ Closed rest rest' := by
  induction t generalizing t' mode seen with
  | nil => cases hread
  | cons c cs ih =>
    obtain ⟨cs', rfl, hcs⟩ := h.of_cons
    unfold Mode.readFlags? at hread
    split at hread
    · cases hread
    · next heq =>
      cases heq
      obtain ⟨hseen, hread⟩ := Option.ite_none_left_eq_some.1 hread
      cases hread
      exact ⟨cs', by simp only [Mode.readFlags?, if_neg hseen], hcs⟩
    · next heq =>
      cases heq
      obtain ⟨hseen, hread⟩ := Option.ite_none_left_eq_some.1 hread
      cases hread
      exact ⟨cs', by simp only [Mode.readFlags?, if_neg hseen], hcs⟩
    · next heq =>
      cases heq
      obtain ⟨hseen, hread⟩ := Option.ite_none_left_eq_some.1 hread
      obtain ⟨_, hflag, hread⟩ := Option.bind_eq_some_iff.1 hread
      simp only [Mode.readFlags?, if_neg hseen, hflag, Option.bind_some]
      exact ih hcs hread

/-! ## Symbols -/

/-- The same reading, within one more group that has begun in a mode without flags. -/
def Reading.enclosed (reading : Reading) : Reading :=
  { reading with outer := reading.outer ++ [.plain] }

/-- In front of the bracket that closes an enclosing group, the same symbol is read. -/
def StableSymbol (read : Reading → Text → Option (Symbol × Reading × Text)) : Prop :=
  ∀ ⦃reading reading' : Reading⦄ ⦃t t' : Text⦄ ⦃symbol : Symbol⦄ ⦃rest : Text⦄, Closed t t' →
    read reading t = some (symbol, reading', rest) →
      ∃ rest', read reading.enclosed t' = some (symbol, reading'.enclosed, rest') ∧
        Closed rest rest'

/-- The reading and the text behind stay as they are. -/
theorem StableSymbol.pure (symbol : Mode → Symbol) :
    StableSymbol fun reading t => some (symbol reading.mode, reading, t) := by
  intro reading reading' t t' s rest h hread
  cases hread
  exact ⟨t', rfl, h⟩

/-- What is read in a mode may be finished into a symbol. -/
theorem StableSymbol.of_part {α : Type} {read : Mode → Text → Option (α × Text)}
    (h : ∀ mode, Stable (read mode)) (finish : Reading → α → Text → Symbol × Reading × Text)
    (hfinish : ∀ a, StableSymbol fun reading t => some (finish reading a t)) :
    StableSymbol fun reading t =>
      (read reading.mode t).map fun (a, rest) => finish reading a rest := by
  intro reading reading' t t' symbol rest hclosed hread
  obtain ⟨⟨a, behind⟩, ha, heq⟩ := Option.map_eq_some_iff.1 hread
  obtain ⟨behind', ha', hbehind⟩ := h _ hclosed ha
  obtain ⟨rest', heq', hrest⟩ := hfinish a hbehind (congrArg some heq)
  exact ⟨rest', Option.map_eq_some_iff.2 ⟨_, ha', Option.some.inj heq'⟩, hrest⟩

namespace Symbol

theorem stable_ofBounds (least : Nat) (most : Option Nat) :
    StableSymbol fun reading t => some (ofBounds reading least most t) := by
  intro reading reading' t t' symbol rest h hread
  rcases h.head (show '?' ≠ ')' by decide) with ⟨cs, cs', rfl, rfl, hcs⟩ | ⟨hs, hs'⟩
  · cases hread
    exact ⟨cs', rfl, hcs⟩
  · simp only [ofBounds] at hread ⊢
    cases hread
    exact ⟨t', rfl, h⟩

theorem stable_ofNamedGroup? : StableSymbol ofNamedGroup? := by
  intro reading reading' t t' symbol rest h hread
  obtain ⟨⟨name, behind⟩, hname, hread⟩ := Option.bind_eq_some_iff.1 hread
  obtain ⟨behind', hname', hbehind⟩ := stable_groupName? h hname
  obtain ⟨hnew, hread⟩ := Option.ite_none_left_eq_some.1 hread
  cases hread
  simp only [ofNamedGroup?, hname', Option.bind_eq_bind, Option.bind_some]
  exact ⟨behind', if_neg hnew, hbehind⟩

theorem stable_ofBracket? : StableSymbol ofBracket? := by
  intro reading reading' t t' symbol rest h hread
  have hskip := reading.mode.skip_closed h
  have hskip' : reading.enclosed.mode.skip t' = reading.mode.skip t' := rfl
  unfold ofBracket? at hread
  split at hread
  iterate 4
    · -- There is no look ahead or behind.
      cases hread
  · next cs hs =>
    rw [hs] at hskip
    obtain ⟨_, hs', hbehind⟩ := hskip.of_pair
    obtain ⟨cs', rfl, hcs⟩ := hbehind.of_cons
    simp only [ofBracket?, hskip', hs']
    exact stable_ofNamedGroup? hcs hread
  · next cs hahead hnot hs =>
    rw [hs] at hskip
    obtain ⟨cs', hs', hcs⟩ := hskip.of_pair
    have hahead' := hcs.head_ne (by decide) hahead
    have hnot' := hcs.head_ne (by decide) hnot
    simp only [ofBracket?, hskip', hs']
    exact stable_ofNamedGroup? hcs hread
  · -- Flags, which a colon or another bracket ends: neither can be the enclosing one.
    next cs hahead hnot hbehind hbehindNot hnamed hangle hs =>
    rw [hs] at hskip
    obtain ⟨cs', hs', hcs⟩ := hskip.of_cons
    have hahead' := hcs.head_ne (by decide) hahead
    have hnot' := hcs.head_ne (by decide) hnot
    have hbehind' := hcs.pair_ne (by decide) (by decide) hbehind
    have hbehindNot' := hcs.pair_ne (by decide) (by decide) hbehindNot
    have hnamed' := hcs.pair_ne (by decide) (by decide) hnamed
    have hangle' := hcs.head_ne (by decide) hangle
    obtain ⟨⟨mode, hasColon, behind⟩, hflags, hread⟩ := Option.bind_eq_some_iff.1 hread
    obtain ⟨behind', hflags', hclosed⟩ := readFlags?_closed hcs hflags
    have hflags'' : reading.enclosed.mode.readFlags? [] cs' = some (mode, hasColon, behind') :=
      hflags'
    simp only [ofBracket?, hskip', hs', hflags'', Option.bind_eq_bind, Option.bind_some]
    cases hasColon with
    | true =>
      cases hread
      exact ⟨behind', rfl, hclosed⟩
    | false =>
      cases hread
      exact ⟨behind', rfl, hclosed⟩
  · -- Without a question mark behind the bracket, a numbered group begins.
    next hmark =>
    cases hread
    have hmark' := hskip.head_ne (by decide) hmark
    simp only [ofBracket?, hskip']
    split
    case h_8 => exact ⟨_, rfl, hskip⟩
    all_goals exact (hmark' _ ‹_›).elim

/-- The symbol of what a backslash escapes. -/
theorem stable_ofEscaped (escaped : Escaped) :
    StableSymbol fun reading t => some (
      match escaped with
      | .scalar c => (atom (reading.mode.literal c) 0, reading, t)
      | .set s => (atom (.one s) 0, reading, t)
      | .assertion a => (atom (.holds a) 0, reading, t)) := by
  cases escaped with
  | scalar c => exact .pure fun mode => atom (mode.literal c) 0
  | set s => exact .pure fun _ => atom (.one s) 0
  | assertion a => exact .pure fun _ => atom (.holds a) 0

theorem stable_next? (c : Char) : StableSymbol fun reading t => next? reading c t := by
  intro reading reading' t t' symbol rest h hread
  unfold next? at hread
  dsimp only at hread
  split at hread
  · exact stable_ofBracket? h hread
  · -- A bracket that ends a group ends one of its own, as there is one without the enclosing group.
    split at hread
    · cases hread
    · next mode outer houter =>
      cases hread
      exact ⟨t', by simp only [next?, Reading.enclosed, houter, List.cons_append], h⟩
  · exact StableSymbol.pure (fun _ => bar) h hread
  iterate 3
    · exact stable_ofBounds _ _ h hread
  · exact StableSymbol.of_part stable_bounds?
      (fun reading bounds t => ofBounds reading bounds.1 bounds.2 (reading.mode.skip t))
      (fun bounds _ _ _ _ _ _ hclosed hread =>
        stable_ofBounds bounds.1 bounds.2 (Mode.skip_closed _ hclosed) hread) h hread
  · exact StableSymbol.of_part stable_bracketedClass?
      (fun reading part t => (atom (.one part.set) part.depth, reading, t))
      (fun part => .pure fun _ => atom (.one part.set) part.depth) h hread
  · obtain ⟨dot, hdot, hread⟩ := Option.bind_eq_some_iff.1 hread
    cases hread
    have hdot' : reading.enclosed.mode.dot? = some dot := hdot
    exact ⟨t', by simp only [next?, hdot', Option.bind_some], h⟩
  · exact StableSymbol.pure (fun mode => atom (.holds mode.startAnchor) 0) h hread
  · exact StableSymbol.pure (fun mode => atom (.holds mode.endAnchor) 0) h hread
  · exact StableSymbol.of_part stable_escape? _ stable_ofEscaped h hread
  · simp only [next?]
    exact StableSymbol.pure (fun mode => atom (mode.literal c) 0) h hread

/-- Within one more group, a closing bracket always ends a group. -/
theorem next?_bracket (reading : Reading) (rest : Text) :
    ∃ reading', next? reading.enclosed ')' rest = some (closeGroup, reading', rest) := by
  cases houter : reading.outer <;> exact ⟨_, by simp only [next?, Reading.enclosed, houter]; rfl⟩

section
variable {n n' : Nat} {reading : Reading} {symbols : List Symbol}

theorem readFrom?_of_skip_nil (n : Nat) (hs : reading.mode.skip t = []) :
    readFrom? n reading t = some [] := by
  rw [readFrom?.eq_def]
  simp only [hs]

theorem readFrom?_succ_of_skip_cons (n : Nat) (hs : reading.mode.skip t = c :: cs) :
    readFrom? (n + 1) reading t =
      (next? reading c cs).bind fun (symbol, reading, rest) =>
        (readFrom? n reading rest).map (symbol :: ·) := by
  rw [readFrom?.eq_def]
  simp only [hs]
  rfl

theorem eq_nil_or_readFrom?_eq_some (hread : readFrom? n reading t = some symbols) :
    (reading.mode.skip t = [] ∧ symbols = []) ∨
      ∃ k c cs symbol reading' rest others, n = k + 1 ∧ reading.mode.skip t = c :: cs ∧
        next? reading c cs = some (symbol, reading', rest) ∧
        readFrom? k reading' rest = some others ∧ symbols = symbol :: others := by
  cases hs : reading.mode.skip t with
  | nil =>
    rw [readFrom?_of_skip_nil n hs] at hread
    exact .inl ⟨rfl, (Option.some.inj hread).symm⟩
  | cons c cs =>
    cases n with
    | zero =>
      rw [readFrom?.eq_def] at hread
      simp only [hs, reduceCtorEq] at hread
    | succ k =>
      rw [readFrom?_succ_of_skip_cons k hs] at hread
      obtain ⟨⟨symbol, reading', rest⟩, hnext, hread⟩ := Option.bind_eq_some_iff.1 hread
      obtain ⟨others, hothers, rfl⟩ := Option.map_eq_some_iff.1 hread
      exact .inr ⟨k, c, cs, symbol, reading', rest, others, rfl, rfl, hnext, hothers, rfl⟩

/-- In front of the bracket that closes an enclosing group, the same symbols are read, and then the
one for the bracket, unless a comment takes it. -/
theorem readFrom?_closed (hn : n < n') (h : Closed t t')
    (hread : readFrom? n reading t = some symbols) :
    ∃ tail, (tail = [] ∨ tail = [closeGroup]) ∧
      readFrom? n' reading.enclosed t' = some (symbols ++ tail) := by
  induction n using Nat.strongRecOn generalizing n' reading symbols t t' with
  | ind n ih =>
    obtain ⟨k', rfl⟩ : ∃ k, n' = k + 1 := ⟨n' - 1, by omega⟩
    have hskip : Closed (reading.mode.skip t) (reading.enclosed.mode.skip t') :=
      reading.mode.skip_closed h
    rcases eq_nil_or_readFrom?_eq_some hread with ⟨hs, rfl⟩ |
      ⟨k, c, cs, symbol, reading', rest, others, rfl, hs, hnext, hothers, rfl⟩
    · -- Nothing is left of the first text, and at most the bracket of the second one.
      rw [hs] at hskip
      generalize hs' : reading.enclosed.mode.skip t' = s at hskip
      cases hskip with
      | usedUp => exact ⟨[], .inl rfl, readFrom?_of_skip_nil _ hs'⟩
      | bracket =>
        refine ⟨[closeGroup], .inr rfl, ?_⟩
        obtain ⟨reading', hclose⟩ := next?_bracket reading []
        rw [readFrom?_succ_of_skip_cons k' hs', hclose]
        simp only [Option.bind_some, readFrom?_of_skip_nil k' (reading'.mode.skip_nil),
          Option.map_some, List.nil_append]
    · rw [hs] at hskip
      obtain ⟨cs', hs', hcs⟩ := hskip.of_cons
      obtain ⟨rest', hnext', hrest⟩ :
          ∃ rest', next? reading.enclosed c cs' = some (symbol, reading'.enclosed, rest') ∧
            Closed rest rest' := stable_next? c hcs hnext
      obtain ⟨tail, htail, hothers'⟩ :=
        ih k (Nat.lt_succ_self k) (Nat.lt_of_succ_lt_succ hn) hrest hothers
      refine ⟨tail, htail, ?_⟩
      rw [readFrom?_succ_of_skip_cons k' hs', hnext']
      simp only [Option.bind_some, hothers', Option.map_some, List.cons_append]

end

end Symbol

end PredictiveParsing.Regex
