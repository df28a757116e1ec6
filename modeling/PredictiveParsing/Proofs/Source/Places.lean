import Mathlib.Data.List.Induction
import Mathlib.Data.List.TakeWhile
import PredictiveParsing.Source.Stepping

/-!
# Places of a text

A place of a text is known by the text in front of it. Its offset is the length of that text in
bytes, and the offsets of places are the boundaries of the text (`Text.IsBoundary`). Its line and
column are a matter of newlines: the line counts those in front, and the column counts what stands
behind the last of them (`Position.start_after`).
-/

namespace PredictiveParsing

namespace Text

variable {text line : Text} {c : Char} {n : Nat}

/-- The byte offset is that of a place of the text: it does not lie inside of a scalar, nor past the
end. -/
def IsBoundary (text : Text) (n : Nat) : Prop :=
  ∃ passed : Text, passed <+: text ∧ passed.byteLength = n

/-- Of two places of a text, the one with the smaller offset comes first. -/
theorem prefix_of_byteLength_le {passed passed' : Text} (h : passed <+: text)
    (h' : passed' <+: text) (hle : passed.byteLength ≤ passed'.byteLength) :
    passed <+: passed' := by
  rcases List.prefix_or_prefix_of_prefix h h' with hpre | ⟨more, rfl⟩
  · exact hpre
  · rw [byteLength_append] at hle
    have hmore : more = [] := byteLength_eq_zero.1 (by omega)
    exact ⟨[], by rw [hmore, List.append_nil, List.append_nil]⟩

/-- Between the offsets of two places stands the text between them. -/
theorem slice?_append (passed between rest : Text) :
    (passed ++ between ++ rest).slice? passed.byteLength (passed ++ between).byteLength =
      some between := by
  have hlength : (passed ++ between).byteLength - passed.byteLength = between.byteLength := by
    rw [byteLength_append]
    omega
  unfold slice?
  rw [if_pos (by rw [byteLength_append]; omega), List.append_assoc, cut_append, hlength]
  dsimp only
  rw [cut_append, Option.map_some]

/-- What stands behind the last newline of a text. -/
def lastLine (text : Text) : Text :=
  (text.reverse.takeWhile (· ≠ '\n')).reverse

@[simp] theorem lastLine_nil : lastLine [] = [] := rfl

theorem lastLine_append_newline : lastLine (text ++ ['\n']) = [] := by
  simp [lastLine]

theorem lastLine_append_singleton (hc : c ≠ '\n') :
    lastLine (text ++ [c]) = lastLine text ++ [c] := by
  simp [lastLine, hc]

/-- A text without newlines is one line. -/
theorem lastLine_of_not_mem (h : '\n' ∉ line) : lastLine line = line := by
  have hall : ∀ c ∈ line.reverse, decide (c ≠ '\n') = true := by
    intro c hc
    exact decide_eq_true fun hn => h (hn ▸ List.mem_reverse.1 hc)
  rw [lastLine, List.takeWhile_eq_self_iff.2 hall, List.reverse_reverse]

/-- What stands in front of a newline does not belong to the line behind it. -/
theorem lastLine_append_cons_newline (text line : Text) :
    lastLine (text ++ '\n' :: line) = lastLine line := by
  induction line using List.reverseRecOn with
  | nil => exact lastLine_append_newline
  | append_singleton line c ih =>
    have hassoc : text ++ '\n' :: (line ++ [c]) = (text ++ '\n' :: line) ++ [c] := by simp
    rw [hassoc]
    by_cases hc : c = '\n'
    · rw [hc, lastLine_append_newline, lastLine_append_newline]
    · rw [lastLine_append_singleton hc, lastLine_append_singleton hc, ih]

end Text

namespace Position

/-- The position behind a text: its line counts the newlines of the text, its column what stands
behind the last of them, and its offset the bytes. -/
theorem start_after (text : Text) :
    start.after text = ⟨1 + text.count '\n', 1 + text.lastLine.length, text.byteLength⟩ := by
  induction text using List.reverseRecOn with
  | nil => rfl
  | append_singleton text c ih =>
    rw [after_append, ih]
    by_cases hc : c = '\n'
    · simp [hc, next, Text.lastLine_append_newline, Nat.add_assoc]
    · simp [hc, next, Text.lastLine_append_singleton hc, Nat.add_assoc]

theorem offset_after_start (text : Text) : (start.after text).offset = text.byteLength := by
  rw [start_after]

end Position

end PredictiveParsing
