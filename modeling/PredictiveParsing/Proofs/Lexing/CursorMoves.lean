import Mathlib.Algebra.GroupWithZero.Nat
import PredictiveParsing.Proofs.Source.Places
import PredictiveParsing.Proofs.Tokens

/-!
# Moves of a cursor

A cursor is told to move over so many bytes, again and again, and stays where it is if it cannot.
It can if and only if the bytes end at a boundary of the input (`Cursor.Placed.exists_advance_iff`).
The cursor remains in place (`Cursor.placed_attemptAll`), so its position is a matter of the offset
that is reached, whichever moves have led there: `Cursor.byOffset_attemptAll`.
-/

namespace PredictiveParsing.Cursor

variable {c c' : Cursor} {input : Text} {m n : Nat}

/-- The cursor after an attempt to move over `count` bytes. An attempt at fault leaves it as it
was. -/
def attempt (c : Cursor) (count : Nat) : Cursor :=
  match c.advance count with
  | .ok c' => c'
  | .error _ => c

/-- The cursor after several attempts. -/
def attemptAll (c : Cursor) (counts : List Nat) : Cursor :=
  counts.foldl attempt c

/-- The numbers of bytes that are moved over in several attempts. -/
def movedOver : Cursor → List Nat → List Nat
  | _, [] => []
  | c, count :: counts =>
    match c.advance count with
    | .ok c' => count :: c'.movedOver counts
    | .error _ => c.movedOver counts

/-! ## One attempt -/

/-- A move goes over the next piece of the unread text. -/
theorem advance_moves (h : c.advance n = .ok c') :
    ∃ lexeme, c.rest = lexeme ++ c'.rest ∧ lexeme.byteLength = n ∧ c'.input = c.input ∧
      c'.position = c.position.after lexeme := by
  obtain ⟨_, -, h⟩ := bind_eq_ok h
  split at h
  · next lexeme rest hcut =>
    obtain ⟨position, hposition, h⟩ := bind_eq_ok h
    cases h
    obtain ⟨hrest, hlength⟩ := Text.cut_eq_some_iff.1 hcut
    exact ⟨lexeme, hrest, hlength, rfl, Position.advance_eq_after hposition⟩
  · cases h

namespace Placed

theorem advance_eq (h : c.Placed) {lexeme rest : Text} (hrest : c.rest = lexeme ++ rest) :
    c.advance lexeme.byteLength = .ok ⟨c.input, rest, c.position.after lexeme⟩ := by
  unfold Cursor.advance
  rw [checkedAdd_eq_ok.2 ⟨(h.room hrest).2.2, rfl⟩, ok_bind, hrest, Text.cut_append]
  dsimp only
  rw [h.advance hrest]
  rfl

/-- Ahead of a cursor in place, the boundaries of the input are those of the unread text. -/
theorem isBoundary_iff (h : c.Placed) :
    c.input.IsBoundary (c.position.offset + n) ↔
      ∃ lexeme rest, c.rest = lexeme ++ rest ∧ lexeme.byteLength = n := by
  obtain ⟨passed, hinput, hposition⟩ := h.reached
  have hoffset : c.position.offset = passed.byteLength := by
    rw [hposition, Position.offset_after_start]
  rw [hoffset, hinput]
  constructor
  · rintro ⟨passed', hpre, hlength⟩
    obtain ⟨lexeme, rfl⟩ :=
      Text.prefix_of_byteLength_le (List.prefix_append passed c.rest) hpre (by omega)
    obtain ⟨rest, hrest⟩ := (List.prefix_append_right_inj passed).1 hpre
    rw [Text.byteLength_append] at hlength
    exact ⟨lexeme, rest, hrest.symm, by omega⟩
  · rintro ⟨lexeme, rest, hrest, rfl⟩
    refine ⟨passed ++ lexeme, ?_, Text.byteLength_append passed lexeme⟩
    rw [hrest, ← List.append_assoc]
    exact List.prefix_append _ _

/-- A cursor in place can move to the boundaries of the input ahead of it. All of them are words. -/
theorem exists_advance_iff (h : c.Placed) :
    (∃ c', c.advance n = .ok c') ↔
      c.position.offset + n < wordLimit ∧ c.input.IsBoundary (c.position.offset + n) := by
  rw [h.isBoundary_iff]
  constructor
  · rintro ⟨c', hadvance⟩
    obtain ⟨lexeme, hrest, rfl, -⟩ := advance_moves hadvance
    exact ⟨(h.room hrest).2.2, lexeme, c'.rest, hrest, rfl⟩
  · rintro ⟨-, lexeme, rest, hrest, rfl⟩
    exact ⟨_, h.advance_eq hrest⟩

theorem move (h : c.Placed) (hadvance : c.advance n = .ok c') : c'.Placed := by
  obtain ⟨lexeme, hrest, -, hinput, hposition⟩ := advance_moves hadvance
  exact h.behind hinput hrest hposition

/-- Two moves in a row make one, if the first one ends at a boundary. -/
theorem advance_add (h : c.Placed) (hmiddle : c.input.IsBoundary (c.position.offset + m))
    (hlast : c.input.IsBoundary (c.position.offset + m + n)) :
    ∃ c', c.advance (m + n) = .ok c' ∧ (c.advance m >>= fun d => d.advance n) = .ok c' := by
  obtain ⟨first, rest, hfirst, rfl⟩ := h.isBoundary_iff.1 hmiddle
  have hmove := h.advance_eq hfirst
  have hplaced := h.move hmove
  have hoffset : (c.position.after first).offset = c.position.offset + first.byteLength :=
    Position.after_offset ..
  obtain ⟨second, rest', hsecond, rfl⟩ := hplaced.isBoundary_iff.1 (hoffset.symm ▸ hlast)
  dsimp only at hsecond
  refine ⟨⟨c.input, rest', (c.position.after first).after second⟩, ?_, ?_⟩
  · rw [← Text.byteLength_append, ← Position.after_append]
    exact h.advance_eq (by rw [hfirst, hsecond, List.append_assoc])
  · rw [hmove, ok_bind]
    exact hplaced.advance_eq hsecond

/-- In one input, a cursor in place is known by its offset. -/
theorem eq_of_offset (h : c.Placed) (h' : c'.Placed) (hinput : c'.input = c.input)
    (hoffset : c'.position.offset = c.position.offset) : c' = c := by
  obtain ⟨passed, htext, hposition⟩ := h.reached
  obtain ⟨passed', htext', hposition'⟩ := h'.reached
  have hlength : passed'.byteLength = passed.byteLength := by
    rwa [hposition, hposition', Position.offset_after_start, Position.offset_after_start]
      at hoffset
  have hcut := Text.cut_append passed' c'.rest
  rw [← htext', hinput, htext, hlength, Text.cut_append] at hcut
  obtain ⟨hpassed, hrest⟩ := Prod.mk.inj (Option.some.inj hcut)
  obtain ⟨input, rest, position⟩ := c
  obtain ⟨input', rest', position'⟩ := c'
  dsimp only at *
  rw [hinput, hrest, hposition', hposition, hpassed]

end Placed

/-! ## Several attempts -/

/-- An attempt leaves the cursor in place, in the same input. -/
theorem placed_attempt (h : c.Placed) (n : Nat) :
    (c.attempt n).Placed ∧ (c.attempt n).input = c.input := by
  unfold attempt
  cases hadvance : c.advance n with
  | ok c' =>
    obtain ⟨-, -, -, hsame, -⟩ := advance_moves hadvance
    exact ⟨h.move hadvance, hsame⟩
  | error => exact ⟨h, rfl⟩

theorem placed_attemptAll (h : c.Placed) (counts : List Nat) :
    (c.attemptAll counts).Placed ∧ (c.attemptAll counts).input = c.input := by
  induction counts generalizing c with
  | nil => exact ⟨h, rfl⟩
  | cons n counts ih =>
    obtain ⟨hplaced, hsame⟩ := placed_attempt h n
    obtain ⟨hend, hsame'⟩ := ih hplaced
    exact ⟨hend, hsame'.trans hsame⟩

/-- The offset grows by the bytes that are moved over. -/
theorem offset_attemptAll (c : Cursor) (counts : List Nat) :
    (c.attemptAll counts).position.offset = c.position.offset + (c.movedOver counts).sum := by
  induction counts generalizing c with
  | nil => rfl
  | cons n counts ih =>
    show ((c.attempt n).attemptAll counts).position.offset = _
    rw [ih, attempt, movedOver]
    cases hadvance : c.advance n with
    | ok c' =>
      obtain ⟨lexeme, -, rfl, -, hmoved⟩ := advance_moves hadvance
      dsimp only
      rw [hmoved, Position.after_offset, List.sum_cons, Nat.add_assoc]
    | error => rfl

/-- The moves of a cursor and its position are a matter of the input and the offset. -/
structure ByOffset (c : Cursor) (input : Text) : Prop where
  /-- A move is made if and only if it ends at a boundary of the input. -/
  advance_iff : ∀ n, (∃ c', c.advance n = .ok c') ↔
    c.position.offset + n < wordLimit ∧ input.IsBoundary (c.position.offset + n)
  /-- Line and column count newlines and scalars in front of the offset. -/
  position : ∃ passed, input.cut c.position.offset = some (passed, c.rest) ∧
    c.position.line = 1 + passed.count '\n' ∧ c.position.column = 1 + passed.lastLine.length
  /-- Two moves in a row that end at boundaries make one. -/
  advance_add : ∀ m n, input.IsBoundary (c.position.offset + m) →
    input.IsBoundary (c.position.offset + m + n) →
      ∃ c', c.advance (m + n) = .ok c' ∧ (c.advance m >>= fun d => d.advance n) = .ok c'

theorem Placed.byOffset (h : c.Placed) : c.ByOffset c.input := by
  obtain ⟨passed, hinput, hposition⟩ := h.reached
  rw [Position.start_after] at hposition
  refine ⟨fun _ => h.exists_advance_iff, ⟨passed, ?_, ?_, ?_⟩, fun _ _ => h.advance_add⟩
  · rw [hinput, hposition]
    exact Text.cut_append passed c.rest
  · rw [hposition]
  · rw [hposition]

/-- Whatever moves are tried from the start of an input, the cursor is known by its offset, which is
the sum of the moves that were made. No other moves lead to another cursor at this offset. -/
theorem byOffset_attemptAll (hinput : input.byteLength ≤ largestInput) (counts : List Nat) :
    ((ofInput input).attemptAll counts).ByOffset input ∧
    ((ofInput input).attemptAll counts).position.offset = ((ofInput input).movedOver counts).sum ∧
    ∀ counts', ((ofInput input).movedOver counts').sum = ((ofInput input).movedOver counts).sum →
      (ofInput input).attemptAll counts' = (ofInput input).attemptAll counts := by
  have hstart : (ofInput input).Placed := .ofInput hinput
  have hsum (counts : List Nat) :
      ((ofInput input).attemptAll counts).position.offset =
        ((ofInput input).movedOver counts).sum :=
    (offset_attemptAll (ofInput input) counts).trans (Nat.zero_add _)
  obtain ⟨hplaced, hsame⟩ := placed_attemptAll hstart counts
  have hbyOffset := hplaced.byOffset
  rw [hsame] at hbyOffset
  refine ⟨hbyOffset, hsum counts, fun counts' hoffset => ?_⟩
  obtain ⟨hplaced', hsame'⟩ := placed_attemptAll hstart counts'
  rw [← hsum, ← hsum] at hoffset
  exact hplaced.eq_of_offset hplaced' (hsame'.trans hsame.symm) hoffset

/-- Moves over two lines, two of them in vain: one ends inside of a scalar and one past the end. -/
def strayMoves : List Nat := [1, 1, 2, 9, 0, 1, 1]

theorem strayMoves_byOffset :
    Text.byteLength ['a', 'λ', '\n', 'b'] ≤ largestInput ∧
    ((ofInput ['a', 'λ', '\n', 'b']).attemptAll strayMoves).position = ⟨2, 2, 5⟩ ∧
    ((ofInput ['a', 'λ', '\n', 'b']).attemptAll strayMoves).ByOffset ['a', 'λ', '\n', 'b'] ∧
    ((ofInput ['a', 'λ', '\n', 'b']).attemptAll strayMoves).position.offset =
      ((ofInput ['a', 'λ', '\n', 'b']).movedOver strayMoves).sum ∧
    ∀ counts', ((ofInput ['a', 'λ', '\n', 'b']).movedOver counts').sum =
        ((ofInput ['a', 'λ', '\n', 'b']).movedOver strayMoves).sum →
      (ofInput ['a', 'λ', '\n', 'b']).attemptAll counts' =
        (ofInput ['a', 'λ', '\n', 'b']).attemptAll strayMoves :=
  ⟨by decide, by decide, byOffset_attemptAll (by decide) strayMoves⟩

end PredictiveParsing.Cursor
