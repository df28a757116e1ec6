/-!
# Texts and their bytes

A text is a sequence of Unicode scalars. Offsets and lengths of the library count the bytes that
these scalars take in UTF-8, so a text is cut at byte offsets: `Text.cut` answers a cut only
between two scalars, and `Text.slice?` the piece between two such offsets. `Text.cut_eq_some_iff`
says that a cut loses nothing and has the asked number of bytes before it.
-/

namespace PredictiveParsing

/-- A sequence of Unicode scalars. -/
abbrev Text := List Char

namespace Text

/-- The number of bytes a text takes in UTF-8. -/
def byteLength : Text → Nat
  | [] => 0
  | c :: cs => c.utf8Size + byteLength cs

/-- The text before byte offset `n` and the text from there on. There is no cut inside a scalar
and none past the end. -/
def cut : Nat → Text → Option (Text × Text)
  | 0, cs => some ([], cs)
  | _ + 1, [] => none
  | n + 1, c :: cs =>
    if c.utf8Size ≤ n + 1 then
      match cut (n + 1 - c.utf8Size) cs with
      | some (before, after) => some (c :: before, after)
      | none => none
    else none

/-- The piece of a text between two byte offsets, each of which has to be a place of a cut. -/
def slice? (start stop : Nat) (text : Text) : Option Text :=
  if start ≤ stop then
    match cut start text with
    | some (_, after) => (cut (stop - start) after).map Prod.fst
    | none => none
  else none

/-- True if the text begins with `head`. -/
def startsWith (text head : Text) : Bool :=
  head.isPrefixOf text

@[simp] theorem byteLength_nil : byteLength [] = 0 := rfl

@[simp] theorem byteLength_cons (c : Char) (cs : Text) :
    byteLength (c :: cs) = c.utf8Size + byteLength cs := rfl

@[simp] theorem byteLength_append (a b : Text) :
    byteLength (a ++ b) = byteLength a + byteLength b := by
  induction a with
  | nil => simp
  | cons c cs ih => simp [ih, Nat.add_assoc]

theorem byteLength_eq_zero {a : Text} : byteLength a = 0 ↔ a = [] := by
  cases a with
  | nil => simp
  | cons c cs =>
    have := c.utf8Size_pos
    simp
    omega

/-- No text is longer in scalars than in bytes. -/
theorem length_le_byteLength (a : Text) : a.length ≤ byteLength a := by
  induction a with
  | nil => simp
  | cons c cs ih =>
    have := c.utf8Size_pos
    simp
    omega

/-- Cutting a concatenation at the length of its first part gives the two parts back. -/
theorem cut_append (a b : Text) : cut (byteLength a) (a ++ b) = some (a, b) := by
  induction a with
  | nil => simp [cut]
  | cons c cs ih =>
    obtain ⟨n, hn⟩ : ∃ n, byteLength (c :: cs) = n + 1 := by
      have := c.utf8Size_pos
      exact ⟨byteLength (c :: cs) - 1, by simp; omega⟩
    have hc : c.utf8Size ≤ n + 1 := by simp at hn; omega
    have hr : n + 1 - c.utf8Size = byteLength cs := by simp at hn; omega
    rw [hn, List.cons_append, cut, if_pos hc, hr, ih]

/-- A cut at `n` splits the text into two parts, the first of `n` bytes. -/
theorem cut_eq_some_iff {n : Nat} {text a b : Text} :
    cut n text = some (a, b) ↔ text = a ++ b ∧ byteLength a = n := by
  constructor
  · intro h
    induction text generalizing n a with
    | nil =>
      cases n with
      | zero => simp [cut] at h; simp [h]
      | succ n => simp [cut] at h
    | cons c cs ih =>
      cases n with
      | zero => simp [cut] at h; obtain ⟨rfl, rfl⟩ := h; simp
      | succ n =>
        rw [cut] at h
        split at h
        · split at h
          · rename_i _ before after hcut
            simp at h
            obtain ⟨rfl, rfl⟩ := h
            obtain ⟨rfl, hlen⟩ := ih hcut
            exact ⟨rfl, by simp; omega⟩
          · cases h
        · cases h
  · rintro ⟨rfl, rfl⟩
    exact cut_append a b

end Text

end PredictiveParsing
