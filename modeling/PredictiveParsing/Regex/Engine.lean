import PredictiveParsing.Text.Quoted

/-!
# Engines for regular expressions

The regular expression of a rule is compiled by an engine, which is a parameter. All that a rule
relies on is that a search cuts the searched text in front of the match and behind it
(`Regex.Search.whole`), and so do the tokenizers and grammars above.

An expression is written without an anchor. It is compiled between the anchor and the brackets of a
group, as text: a pattern that closes this group itself can leave the anchor.
-/

namespace PredictiveParsing

namespace Regex

/-- A match in a text, with what stands in front of it and behind it. -/
structure Match where
  before : Text
  lexeme : Text
  after : Text
deriving DecidableEq, Repr

namespace Match

/-- The searched text. -/
def text (m : Match) : Text := m.before ++ (m.lexeme ++ m.after)

/-- Bytes from the start of the searched text to the end of the match. -/
def stop (m : Match) : Nat := (m.before ++ m.lexeme).byteLength

end Match

/-- The search for the earliest match of a compiled expression. -/
structure Search where
  find? : Text → Option Match
  /-- A match is a piece of the searched text. -/
  whole : ∀ text found, find? text = some found → found.text = text

/-- An engine compiles the text of an expression to a search, or says why it does not. -/
structure Engine where
  compile : String → Except String Search

/-- The text that is compiled for a written pattern. -/
def anchor (written : String) : String :=
  "^(?:" ++ written ++ ")"

end Regex

/-- A compiled regular expression and the text it was compiled from. -/
structure Regex where
  /-- The text with the anchor. -/
  anchored : String
  search : Regex.Search

/-- A pattern that was refused, and why. -/
structure InvalidPattern where
  written : String
  reason : String
deriving DecidableEq, Repr

/-- The first line of the wording. -/
def InvalidPattern.message (e : InvalidPattern) : String :=
  "invalid regular expression " ++ quotedName e.written ++ ": " ++ e.reason

namespace Regex

/-- Compiles a written pattern behind an anchor. -/
def compile (engine : Engine) (written : String) : Except InvalidPattern Regex :=
  match engine.compile (anchor written) with
  | .ok search => .ok ⟨anchor written, search⟩
  | .error reason => .error ⟨written, reason⟩

/-- The byte offset at which the earliest match in a text ends. -/
def matchEnd? (r : Regex) (text : Text) : Option Nat :=
  (r.search.find? text).map Match.stop

/-- A match ends between two scalars of the text. -/
theorem matchEnd?_eq_some {r : Regex} {text : Text} {n : Nat} (h : r.matchEnd? text = some n) :
    ∃ passed rest, text = passed ++ rest ∧ passed.byteLength = n := by
  obtain ⟨found, hfound, rfl⟩ := Option.map_eq_some_iff.1 h
  refine ⟨found.before ++ found.lexeme, found.after, ?_, rfl⟩
  rw [← r.search.whole text found hfound, Match.text, List.append_assoc]

end Regex

end PredictiveParsing
