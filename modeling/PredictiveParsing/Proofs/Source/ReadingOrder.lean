import PredictiveParsing.Proofs.Source.Places
import PredictiveParsing.Proofs.Tokens

/-!
# Reading order

Positions are compared by offset first, yet what a reader sees of them is line and column. A scalar
moves both forward: offsets grow by its bytes, and a column that goes back to one does so on a new
line (`Position.precedes_next`). So does a text, unless it is empty (`Position.precedes_after`).
Of two places of one text, one is reached from the other over the text between them, and the three
ways to compare their positions answer what the reader has come across first:
`Position.inReadingOrder_of_prefixes`.
-/

namespace PredictiveParsing.Position

variable {p q r : Position} {text passed passed' : Text}

/-! ## Comparing positions -/

/-- The order by line, then column, whatever the offsets. -/
def compareLineColumn : Position → Position → Ordering :=
  compareLex (compareOn line) (compareOn column)

instance : Std.TransCmp compareLineColumn :=
  inferInstanceAs (Std.TransCmp (compareLex (compareOn line) (compareOn column)))

instance : Std.TransOrd Position :=
  inferInstanceAs
    (Std.TransCmp (compareLex (compareOn offset) (compareLex (compareOn line) (compareOn column))))

theorem compareLineColumn_eq_lt :
    compareLineColumn p q = .lt ↔ p.line < q.line ∨ p.line = q.line ∧ p.column < q.column := by
  unfold compareLineColumn compareLex compareOn
  rw [Ordering.then_eq_lt, Nat.compare_eq_lt, Nat.compare_eq_eq, Nat.compare_eq_lt]

/-- Line and column decide only between positions of one offset. -/
theorem compare_of_offset_lt (h : p.offset < q.offset) : compare p q = .lt :=
  Ordering.then_eq_lt.2 (.inl (Nat.compare_eq_lt.2 h))

/-! ## Moving forward -/

/-- The first position comes before the second one by offset, and by line and column as well. -/
structure Precedes (p q : Position) : Prop where
  offset : p.offset < q.offset
  lineColumn : p.line < q.line ∨ p.line = q.line ∧ p.column < q.column

theorem Precedes.trans (h : p.Precedes q) (h' : q.Precedes r) : p.Precedes r := by
  obtain ⟨hoffset, hlineColumn⟩ := h
  obtain ⟨hoffset', hlineColumn'⟩ := h'
  exact ⟨by omega, by omega⟩

/-- A scalar leads to a later position: if the column goes back, the line has grown. -/
theorem precedes_next (p : Position) (c : Char) : p.Precedes (p.next c) := by
  have hsize := c.utf8Size_pos
  refine ⟨?_, ?_⟩
  · rw [next_offset]
    omega
  · unfold next
    split
    · exact .inl (Nat.lt_succ_self p.line)
    · exact .inr ⟨rfl, Nat.lt_succ_self p.column⟩

/-- A text leads to a later position, unless it is empty. -/
theorem precedes_after (p : Position) (hne : text ≠ []) : p.Precedes (p.after text) := by
  induction text generalizing p with
  | nil => exact absurd rfl hne
  | cons c cs ih =>
    rw [after_cons]
    by_cases hcs : cs = []
    · rw [hcs]
      exact precedes_next p c
    · exact (precedes_next p c).trans (ih (p.next c) hcs)

/-! ## Places of one text -/

/-- Two positions, behind what has been passed of a text, are ordered as the text is read. -/
structure InReadingOrder (passed passed' : Text) (p q : Position) : Prop where
  compare_offset : compare p q = compare p.offset q.offset
  compare_lineColumn : compare p q = compareLineColumn p q
  /-- What is longer has been passed later. -/
  compare_length : compare p q = compare passed.length passed'.length
  compare_eq_iff : compare p q = .eq ↔ passed = passed'
  eq_of_offset : p.offset = q.offset → p = q
  eq_of_lineColumn : p.line = q.line → p.column = q.column → p = q

namespace InReadingOrder

theorem refl (passed : Text) (p : Position) : InReadingOrder passed passed p p where
  compare_offset := by rw [Std.compare_self, Std.compare_self]
  compare_lineColumn := by
    rw [Std.compare_self]
    exact Std.ReflCmp.compare_self.symm
  compare_length := by rw [Std.compare_self, Std.compare_self]
  compare_eq_iff := iff_of_true Std.compare_self rfl
  eq_of_offset _ := rfl
  eq_of_lineColumn _ _ := rfl

theorem of_precedes (h : p.Precedes q) (hlength : passed.length < passed'.length) :
    InReadingOrder passed passed' p q := by
  have hcompare : compare p q = .lt := compare_of_offset_lt h.offset
  have hne : passed ≠ passed' := by
    rintro rfl
    exact Nat.lt_irrefl _ hlength
  exact {
    compare_offset := by rw [hcompare, Nat.compare_eq_lt.2 h.offset]
    compare_lineColumn := by rw [hcompare, compareLineColumn_eq_lt.2 h.lineColumn]
    compare_length := by rw [hcompare, Nat.compare_eq_lt.2 hlength]
    compare_eq_iff := by
      rw [hcompare]
      exact iff_of_false nofun hne
    eq_of_offset := fun hoffset => absurd hoffset (Nat.ne_of_lt h.offset)
    eq_of_lineColumn := fun hline hcolumn => by
      have hlineColumn := h.lineColumn
      omega }

theorem symm (h : InReadingOrder passed passed' p q) : InReadingOrder passed' passed q p where
  compare_offset := by
    rw [Std.OrientedOrd.eq_swap, h.compare_offset, ← Std.OrientedOrd.eq_swap]
  compare_lineColumn := by
    rw [Std.OrientedOrd.eq_swap, h.compare_lineColumn, ← Std.OrientedCmp.eq_swap]
  compare_length := by
    rw [Std.OrientedOrd.eq_swap, h.compare_length, ← Std.OrientedOrd.eq_swap]
  compare_eq_iff := Std.OrientedCmp.eq_comm.trans (h.compare_eq_iff.trans eq_comm)
  eq_of_offset hoffset := (h.eq_of_offset hoffset.symm).symm
  eq_of_lineColumn hline hcolumn := (h.eq_of_lineColumn hline.symm hcolumn.symm).symm

/-- From the place that is passed first, the text between the two leads on to the other one. -/
theorem append (passed between : Text) :
    InReadingOrder passed (passed ++ between) (start.after passed)
      (start.after (passed ++ between)) := by
  by_cases hbetween : between = []
  · rw [hbetween, List.append_nil]
    exact refl passed _
  · refine of_precedes ?_ ?_
    · rw [after_append]
      exact precedes_after _ hbetween
    · have hpos := List.length_pos_iff.2 hbetween
      rw [List.length_append]
      omega

end InReadingOrder

/-- Every place of a text has a position. -/
theorem advance_start (htext : text.byteLength ≤ largestInput) (h : passed <+: text) :
    start.advance passed = .ok (start.after passed) := by
  obtain ⟨rest, hrest⟩ := h
  exact (Cursor.Placed.ofInput htext).advance hrest.symm

/-- On the positions of one text, the order by offset and the order by line and column are the order
of reading. A position is known by its offset alone, and by its line and column alone. -/
theorem inReadingOrder_of_prefixes (htext : text.byteLength ≤ largestInput)
    (h : passed <+: text) (h' : passed' <+: text) :
    ∃ p q, start.advance passed = .ok p ∧ start.advance passed' = .ok q ∧
      InReadingOrder passed passed' p q := by
  refine ⟨_, _, advance_start htext h, advance_start htext h', ?_⟩
  rcases List.prefix_or_prefix_of_prefix h h' with ⟨between, rfl⟩ | ⟨between, rfl⟩
  · exact .append passed between
  · exact (InReadingOrder.append passed' between).symm

/-- Behind a line break the column has gone back, and the position is a later one. -/
theorem lineBreak_inReadingOrder :
    Text.byteLength ['a', 'λ', '\r', '\n', 'b'] ≤ largestInput ∧
    ['a', 'λ', '\r', '\n'] <+: ['a', 'λ', '\r', '\n', 'b'] ∧
    ['a', 'λ'] <+: ['a', 'λ', '\r', '\n', 'b'] ∧
    ∃ p q, start.advance ['a', 'λ', '\r', '\n'] = .ok p ∧ start.advance ['a', 'λ'] = .ok q ∧
      InReadingOrder ['a', 'λ', '\r', '\n'] ['a', 'λ'] p q := by
  have htext : Text.byteLength ['a', 'λ', '\r', '\n', 'b'] ≤ largestInput := by decide
  have h : ['a', 'λ', '\r', '\n'] <+: ['a', 'λ', '\r', '\n', 'b'] := by decide
  have h' : ['a', 'λ'] <+: ['a', 'λ', '\r', '\n', 'b'] := by decide
  exact ⟨htext, h, h', inReadingOrder_of_prefixes htext h h'⟩

/-- Positions of two texts may be ordered otherwise by line and column. -/
example : compare (start.after ['a', 'b', 'c']) (start.after ['\n']) = .gt ∧
    compareLineColumn (start.after ['a', 'b', 'c']) (start.after ['\n']) = .lt := by
  decide

end PredictiveParsing.Position
