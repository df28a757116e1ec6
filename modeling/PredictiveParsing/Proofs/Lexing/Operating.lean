import PredictiveParsing.Proofs.Tokens

/-!
# Operating a tokenizer

A tokenizer can be made anew, given rules and inputs, peeked at and moved forward, in any order and
with tokens from wherever. After all of that the cursor is in place (`Tokenizer.placed_afterAll`),
since each operation keeps it there: an input begins at its start, a move goes over the token at the
cursor, and an operation at fault changes nothing.

So there is always a token at the cursor, and `Tokenizer.forward` moves over that token and over no
other (`Tokenizer.operable_afterAll`).
-/

namespace PredictiveParsing

/-- What can be done to a tokenizer. -/
inductive Tokenizer.Operation
  /-- Replaces it by one without rules or input. -/
  | new
  | addRule (type : TokenType) (rule : Rule)
  | withInput (input : Text)
  | peek
  | forward (token : Token)
  | next

namespace Tokenizer

variable {t t' : Tokenizer} {token : Token}

/-- What an operation makes of a tokenizer, unless it is at fault. -/
def operate (t : Tokenizer) : Operation → Except Fault Tokenizer
  | .new => .ok .empty
  | .addRule type rule => .ok (t.addRule type rule)
  | .withInput input => .ok (t.withInput input)
  | .peek => do
    let _ ← t.peek
    return t
  | .forward token => t.forward token
  | .next => do
    let (_, t) ← t.next
    return t

/-- The tokenizer after an operation. An operation at fault leaves it as it was. -/
def after (t : Tokenizer) (operation : Operation) : Tokenizer :=
  match t.operate operation with
  | .ok t' => t'
  | .error _ => t

/-- The tokenizer after several operations, from one without rules or input. -/
def afterAll (operations : List Operation) : Tokenizer :=
  operations.foldl after .empty

/-! ## One operation -/

/-- A token can be moved over if and only if it is the one at the cursor. -/
theorem exists_forward_iff : (∃ t', t.forward token = .ok t') ↔ t.peek = .ok token :=
  ⟨fun ⟨_, h⟩ => (forward_moves h).peeked, forward_of_peek⟩

/-- An operation with an input that is no larger than a text can be leaves the cursor in place. -/
theorem placed_after {operation : Operation} (h : t.cursor.Placed)
    (hbounded : ∀ input, operation = .withInput input → input.byteLength ≤ largestInput) :
    (t.after operation).cursor.Placed := by
  unfold after
  cases hoperate : t.operate operation with
  | error => exact h
  | ok t' =>
    cases operation with
    | new => cases hoperate; exact .ofInput (Nat.zero_le _)
    | addRule => cases hoperate; exact h
    | withInput input => cases hoperate; exact .ofInput (hbounded input rfl)
    | peek =>
      obtain ⟨_, -, hoperate⟩ := bind_eq_ok hoperate
      cases hoperate
      exact h
    | forward token => exact (forward_moves hoperate).placed h
    | next =>
      obtain ⟨⟨token, _⟩, hnext, hoperate⟩ := bind_eq_ok hoperate
      cases hoperate
      exact (next_eq_ok_iff.1 hnext).placed h

/-! ## Several operations -/

/-- Whatever is done to a tokenizer, its cursor is in place. -/
theorem placed_afterAll {operations : List Operation}
    (hbounded : ∀ input, .withInput input ∈ operations → input.byteLength ≤ largestInput) :
    (afterAll operations).cursor.Placed := by
  suffices from_here : ∀ t : Tokenizer, t.cursor.Placed → (operations.foldl after t).cursor.Placed
    from from_here .empty (.ofInput (Nat.zero_le _))
  induction operations with
  | nil => exact fun t h => h
  | cons operation operations ih =>
    intro t h
    refine ih (fun input hmem => hbounded input (.tail _ hmem)) _ (placed_after h ?_)
    rintro input rfl
    exact hbounded input (.head _)

/-- What can be relied on of a tokenizer. -/
structure Operable (t : Tokenizer) : Prop where
  /-- The cursor stands between two scalars of the input, and its position is the one that the input
  leads to there. -/
  placed : ∃ passed, t.cursor.input.cut t.position.offset = some (passed, t.cursor.rest) ∧
    t.position = Position.start.after passed
  /-- There is a token to peek and to read. -/
  readable : ∃ token t', t.peek = .ok token ∧ t.next = .ok (token, t')
  /-- Peeking changes nothing. -/
  peek_keeps : t.operate .peek = .ok t
  /-- The token that is peeked, and no other, can be moved over. -/
  forward_iff : ∀ token, (∃ t', t.operate (.forward token) = .ok t') ↔ t.peek = .ok token
  /-- A move ends where the span of its token ends, and keeps the rules and the input. -/
  forward_moves : ∀ token t', t.operate (.forward token) = .ok t' →
    t'.position = token.span.stop ∧ t'.cursor.input = t.cursor.input ∧ t'.rules = t.rules

/-- With its cursor in place, a tokenizer can be relied on. -/
theorem operable_of_placed (h : t.cursor.Placed) : t.Operable := by
  obtain ⟨passed, hinput, hposition⟩ := h.reached
  obtain ⟨token, hpeek⟩ := peek_of_placed h
  obtain ⟨t', hforward⟩ := forward_of_peek hpeek
  have hoffset : passed.byteLength = t.position.offset := by
    show _ = t.cursor.position.offset
    rw [hposition, Position.after_offset]
    exact (Nat.zero_add _).symm
  refine ⟨⟨passed, Text.cut_eq_some_iff.2 ⟨hinput, hoffset⟩, hposition⟩,
    ⟨token, t', hpeek, next_eq_ok_iff.2 (Tokenizer.forward_moves hforward)⟩, ?_,
    fun _ => exists_forward_iff, fun token t' hmove => ?_⟩
  · show (t.peek >>= _) = _
    rw [hpeek]
    rfl
  · have hm := Tokenizer.forward_moves hmove
    exact ⟨hm.position, hm.input, hm.rules⟩

/-- Whatever is done to a tokenizer, with inputs that are no larger than a text can be and with tokens
from wherever, it can be relied on afterwards. -/
theorem operable_afterAll (operations : List Operation)
    (hbounded : ∀ input, .withInput input ∈ operations → input.byteLength ≤ largestInput) :
    (afterAll operations).Operable :=
  operable_of_placed (placed_afterAll hbounded)

/-- A word is moved over once, in vain a second time, and the rule for the newline behind it comes
late. -/
def twoLines : List Operation :=
  let word : Token := .ordinary "word" ⟨['a', 'b'], 0⟩ ⟨.start, ⟨1, 3, 2⟩⟩
  [.addRule "word" (.literal ['a', 'b']), .withInput ['a', 'b', '\n', 'a', 'b'], .forward word,
    .forward word, .addRule "newline" (.exactChar '\n'), .peek, .next]

theorem twoLines_operable :
    (∀ input, .withInput input ∈ twoLines → input.byteLength ≤ largestInput) ∧
      (afterAll twoLines).position = ⟨2, 1, 3⟩ ∧ (afterAll twoLines).Operable := by
  have hbounded : ∀ input, .withInput input ∈ twoLines → input.byteLength ≤ largestInput := by
    intro input h
    simp only [twoLines, List.mem_cons, reduceCtorEq, false_or, Operation.withInput.injEq,
      List.not_mem_nil, or_false] at h
    rw [h]
    decide
  exact ⟨hbounded, by decide +kernel, operable_afterAll twoLines hbounded⟩

end Tokenizer

end PredictiveParsing
