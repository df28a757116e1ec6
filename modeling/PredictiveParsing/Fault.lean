import PredictiveParsing.Source.Position
import PredictiveParsing.Grammar.Error

/-!
# Faults

A fault is a broken promise of the caller, as opposed to a syntax error of the parsed text: numbers
beyond the word size, spans and slices that do not exist, tokens committed out of turn, grammars
used before they are complete. `checkedAdd` and `checkedSub` are the word-sized sums and
differences that answer a fault instead of wrapping.
-/

namespace PredictiveParsing

/-- A broken promise of the caller. -/
inductive Fault
  /-- A sum beyond the largest word. -/
  | addOverflow
  /-- A difference below zero. -/
  | subOverflow
  /-- A span whose end comes before its start. -/
  | reversedSpan (start stop : Position)
  /-- A piece of a text that does not lie between two scalars of it. -/
  | badSlice (start stop size : Nat)
  /-- A move past the end of a text or into a scalar. -/
  | badAdvance (count offset size : Nat)
  /-- A token committed at another place than its own. -/
  | notPeeked (token : String) (position : Position)
  /-- A token committed that is not the one the tokenizer reads at this place. -/
  | tokenDiffers
  /-- A grammar without an entry, or a rule that was never registered. -/
  | incompleteGrammar (error : GrammarError)
  /-- A choice whose alternatives have no FIRST sets. -/
  | unpredictable (error : GrammarError)
  /-- An action installed on a handler whose role never runs it. -/
  | wrongRole (action role : String)
  /-- A bracket registered under another type than the one it opens with. -/
  | misplacedBracket (opening key : String)
  /-- An action that was given another number of elements than its rule keeps. -/
  | unreachable (reason : String)
  /-- An action that takes the first of no elements. -/
  | emptyRemoval
deriving DecidableEq, Repr

namespace Fault

/-- The wording of a fault. -/
def message : Fault → String
  | addOverflow => "attempt to add with overflow"
  | subOverflow => "attempt to subtract with overflow"
  | reversedSpan start stop => "span end " ++ toString stop ++ " precedes start " ++ toString start
  | badSlice start stop size =>
    "invalid text slice " ++ toString start ++ ".." ++ toString stop ++ " of a " ++ toString size ++
      "-byte buffer"
  | badAdvance count offset size =>
    "cannot advance " ++ toString count ++ " bytes from offset " ++ toString offset ++ " in a " ++
      toString size ++ "-byte input"
  | notPeeked token position =>
    "forward: " ++ token ++ " was not peeked at the cursor position " ++ toString position
  | tokenDiffers => "assertion `left == right` failed: forward: token differs from peek()"
  | incompleteGrammar error => error.message
  | unpredictable error => "invalid grammar: " ++ error.message
  | wrongRole action role => action ++ " installed on a " ++ role ++ " handler"
  | misplacedBracket opening key =>
    "bracket opening with " ++ opening ++ " registered under " ++ key
  | unreachable reason => "internal error: entered unreachable code: " ++ reason
  | emptyRemoval => "removal index (is 0) should be < len (is 0)"

end Fault

/-- The number of words: all lines, columns, offsets and lengths lie below it. -/
def wordLimit : Nat := 18446744073709551616

/-- The sum of two words, if it is one. -/
def checkedAdd (a b : Nat) : Except Fault Nat :=
  if a + b < wordLimit then .ok (a + b) else .error .addOverflow

/-- The difference of two words, if it is one. -/
def checkedSub (a b : Nat) : Except Fault Nat :=
  if b ≤ a then .ok (a - b) else .error .subOverflow

theorem checkedAdd_eq_ok {a b c : Nat} :
    checkedAdd a b = .ok c ↔ a + b < wordLimit ∧ c = a + b := by
  unfold checkedAdd
  split
  · simp_all [eq_comm]
  · constructor
    · nofun
    · omega

theorem checkedSub_eq_ok {a b c : Nat} : checkedSub a b = .ok c ↔ b ≤ a ∧ c = a - b := by
  unfold checkedSub
  split
  · simp_all [eq_comm]
  · constructor
    · nofun
    · omega

theorem ok_bind {ε α β : Type} (a : α) (f : α → Except ε β) : (.ok a >>= f) = f a := rfl

/-- A computation in two parts succeeds only if both parts do. -/
theorem bind_eq_ok {ε α β : Type} {x : Except ε α} {f : α → Except ε β} {b : β}
    (h : x >>= f = .ok b) : ∃ a, x = .ok a ∧ f a = .ok b := by
  cases x with
  | error e => cases h
  | ok a => exact ⟨a, rfl, h⟩

/-- A computation in two parts fails in one of them. -/
theorem bind_eq_error {ε α β : Type} {x : Except ε α} {f : α → Except ε β} {e : ε}
    (h : x >>= f = .error e) : x = .error e ∨ ∃ a, x = .ok a ∧ f a = .error e := by
  cases x with
  | error e' => cases h; exact .inl rfl
  | ok a => exact .inr ⟨a, rfl, h⟩

/-- A computation in two parts succeeds if both parts do. -/
theorem exists_bind_ok {ε α β : Type} {x : Except ε α} {f : α → Except ε β} {a : α}
    (hx : x = .ok a) (hf : ∃ b, f a = .ok b) : ∃ b, x >>= f = .ok b := by
  rw [hx]
  exact hf

end PredictiveParsing
