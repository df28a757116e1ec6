import PredictiveParsing.Fault

/-!
# Stepping over a text

`Position.step` and `Position.advance` move a position over one scalar and over a text, as long as
line, column and offset stay words. Where they answer, the answer is `Position.after`
(`Position.advance_eq_after`).
-/

namespace PredictiveParsing.Position

/-- The place after one more scalar, unless a number leaves the words. -/
def step (p : Position) (c : Char) : Except Fault Position :=
  if c = '\n' then do
    let line ← checkedAdd p.line 1
    let offset ← checkedAdd p.offset c.utf8Size
    return ⟨line, 1, offset⟩
  else do
    let column ← checkedAdd p.column 1
    let offset ← checkedAdd p.offset c.utf8Size
    return ⟨p.line, column, offset⟩

/-- The place after a text, unless a number leaves the words on the way. -/
def advance (p : Position) : Text → Except Fault Position
  | [] => .ok p
  | c :: cs => do (← p.step c).advance cs

theorem step_eq_next {p q : Position} {c : Char} (h : p.step c = .ok q) : q = p.next c := by
  unfold step at h
  unfold next
  by_cases hc : c = '\n' <;> simp only [hc, if_true, if_false] at h ⊢
  all_goals
    obtain ⟨_, h₁, h⟩ := bind_eq_ok h
    obtain ⟨_, h₂, h⟩ := bind_eq_ok h
    rw [checkedAdd_eq_ok] at h₁ h₂
    obtain ⟨_, rfl⟩ := h₁
    obtain ⟨_, rfl⟩ := h₂
    cases h
    rfl

theorem advance_eq_after {p q : Position} {text : Text} (h : p.advance text = .ok q) :
    q = p.after text := by
  induction text generalizing p with
  | nil => cases h; rfl
  | cons c cs ih =>
    obtain ⟨r, hr, h⟩ := bind_eq_ok h
    rw [after_cons, ← step_eq_next hr]
    exact ih h

end PredictiveParsing.Position
