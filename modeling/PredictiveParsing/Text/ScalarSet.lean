/-!
# Sets of scalars

A set of scalars is kept as the closed ranges of their codes, in ascending order and with a gap
between any two, so that a set has one form. The operations take sets of this form to sets of this
form.
-/

namespace PredictiveParsing

/-- A set of Unicode scalars. -/
structure ScalarSet where
  /-- The closed ranges of the codes, ascending and apart from each other. -/
  ranges : List (Nat × Nat)
deriving DecidableEq, Repr

namespace ScalarSet

/-- The largest code. -/
def maxCode : Nat := 0x10FFFF

/-- True if a code lies in one of some ascending ranges. -/
def inRanges (n : Nat) : List (Nat × Nat) → Bool
  | [] => false
  | (low, high) :: ranges => if n < low then false else n ≤ high || inRanges n ranges

/-- True if the scalar belongs to the set. -/
def contains (s : ScalarSet) (c : Char) : Bool :=
  inRanges c.toNat s.ranges

/-- The set without a scalar. -/
def none : ScalarSet := ⟨[]⟩

/-- Adds a range to ascending ranges. What overlaps or touches it becomes one range with it. -/
def insertRange (low high : Nat) : List (Nat × Nat) → List (Nat × Nat)
  | [] => [(low, high)]
  | (first, last) :: ranges =>
    if last + 1 < low then (first, last) :: insertRange low high ranges
    else if high + 1 < first then (low, high) :: (first, last) :: ranges
    else insertRange (min low first) (max high last) ranges

/-- Adds the scalars with the codes from `low` to `high`. -/
def insert (low high : Nat) (s : ScalarSet) : ScalarSet :=
  ⟨insertRange low high s.ranges⟩

/-- The scalars of either set. -/
def union (s t : ScalarSet) : ScalarSet :=
  s.ranges.foldr (fun (low, high) u => u.insert low high) t

/-- The gaps between ascending ranges, from a code on. -/
def gaps (start : Nat) : List (Nat × Nat) → List (Nat × Nat)
  | [] => if start ≤ maxCode then [(start, maxCode)] else []
  | (low, high) :: ranges =>
    if start < low then (start, low - 1) :: gaps (high + 1) ranges else gaps (high + 1) ranges

/-- The scalars that do not belong to the set. -/
def complement (s : ScalarSet) : ScalarSet :=
  ⟨gaps 0 s.ranges⟩

/-- The scalars of both sets. -/
def inter (s t : ScalarSet) : ScalarSet :=
  (s.complement.union t.complement).complement

/-- The scalars of the first set that do not belong to the second. -/
def diff (s t : ScalarSet) : ScalarSet :=
  s.inter t.complement

/-- The scalars of exactly one of the sets. -/
def symmDiff (s t : ScalarSet) : ScalarSet :=
  (s.diff t).union (t.diff s)

/-- The set of one scalar. -/
def single (c : Char) : ScalarSet := ⟨[(c.toNat, c.toNat)]⟩

/-- The scalars of some closed ranges. -/
def ofChars (bounds : List (Char × Char)) : ScalarSet :=
  bounds.foldr (fun (low, high) s => s.insert low.toNat high.toNat) none

/-- True if all scalars of the set are ASCII. -/
def isAscii (s : ScalarSet) : Bool :=
  s.ranges.all fun (_, high) => high < 0x80

@[simp] theorem contains_none (c : Char) : none.contains c = false := rfl

theorem contains_single (c d : Char) : (single c).contains d = decide (d = c) := by
  have h : d = c ↔ d.toNat = c.toNat :=
    ⟨fun h => h ▸ rfl, fun h => Char.ext (UInt32.toNat_inj.1 h)⟩
  simp only [contains, single, inRanges, h]
  grind

example :
    ((ofChars [('a', 'f'), ('0', '9'), ('g', 'z')]).diff (single 'c')).ranges =
      [(0x30, 0x39), (0x61, 0x62), (0x64, 0x7A)] := by
  decide

end ScalarSet

end PredictiveParsing
