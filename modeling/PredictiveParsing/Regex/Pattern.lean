import PredictiveParsing.Text.Basic
import PredictiveParsing.Text.ScalarSet

/-!
# Patterns

A pattern is a regular expression as it is written, with its repetitions counted. Of several ways to
match, a pattern prefers the left branch of an alternative to the right one, and another round of a
greedy repetition to leaving it; a lazy repetition is left first.
-/

namespace PredictiveParsing.Regex

/-- A condition on the two scalars around a place, with respect to words. -/
inductive WordEdge
  /-- One of them is a word scalar. -/
  | boundary
  /-- Both of them are word scalars, or none is. -/
  | interior
  /-- Only the one behind is. -/
  | start
  /-- Only the one in front is. -/
  | stop
  /-- The one in front is none. -/
  | startHalf
  /-- The one behind is none. -/
  | stopHalf
deriving DecidableEq, Repr

/-- What can be asked of a place without consuming a scalar. -/
inductive Assertion
  /-- The start of the text. -/
  | textStart
  /-- The end of the text. -/
  | textEnd
  /-- The start of a line. With `crlf`, a carriage return, a newline and the two together end it. -/
  | lineStart (crlf : Bool)
  /-- The end of a line. -/
  | lineEnd (crlf : Bool)
  /-- A condition on words, which are made of ASCII scalars only if `ascii` is set. -/
  | word (edge : WordEdge) (ascii : Bool)
deriving DecidableEq, Repr

/-- A regular expression. -/
inductive Pattern
  | empty
  /-- One scalar of a class. -/
  | one (cls : ScalarSet)
  | holds (assertion : Assertion)
  /-- A group with a number or a name. -/
  | group (body : Pattern)
  | seq (first second : Pattern)
  | alt (left right : Pattern)
  /-- From `least` to `most` rounds, or any number from `least` on. -/
  | times (greedy : Bool) (least : Nat) (most : Option Nat) (body : Pattern)
deriving DecidableEq, Repr

namespace Pattern

/-- True if the pattern can match without consuming a scalar. -/
def isNullable : Pattern → Bool
  | empty | holds _ => true
  | one _ => false
  | group body => body.isNullable
  | seq first second => first.isNullable && second.isNullable
  | alt left right => left.isNullable || right.isNullable
  | times _ least _ body => least == 0 || body.isNullable

/-- True if the pattern never consumes a scalar. -/
def consumesNothing : Pattern → Bool
  | empty | holds _ => true
  | one _ => false
  | group body => body.consumesNothing
  | seq first second => first.consumesNothing && second.consumesNothing
  | alt left right => left.consumesNothing && right.consumesNothing
  | times _ _ _ body => body.consumesNothing

/-- One pattern after the other. -/
def andThen : Pattern → Pattern → Pattern
  | empty, q => q
  | p, empty => p
  | p, q => seq p q

/-- The patterns one after the other. -/
def sequence (ps : List Pattern) : Pattern :=
  ps.foldr andThen empty

/-- The class of one scalar that the patterns are branches of, if each of them is a class. -/
def commonClass? : List Pattern → Option ScalarSet
  | [one cls] => some cls
  | one cls :: ps => (commonClass? ps).map cls.union
  | _ => none

/-- The patterns as branches, earlier ones preferred. -/
def branches : List Pattern → Pattern
  | [] => empty
  | [p] => p
  | p :: ps => alt p (branches ps)

/-- One of the patterns, earlier ones preferred. Branches of one scalar make a class. -/
def choice (ps : List Pattern) : Pattern :=
  match commonClass? ps with
  | some cls => one cls
  | none => branches ps

/-- The pattern repeated. A second round of what consumes nothing changes nothing, so at most one
round is kept of it. -/
def repeated (greedy : Bool) (least : Nat) (most : Option Nat) (p : Pattern) : Pattern :=
  let (least, most) :=
    if p.consumesNothing then (min least 1, some (min (most.getD 1) 1)) else (least, most)
  match least, most with
  | 0, some 0 => empty
  | 1, some 1 => p
  | _, _ => times greedy least most p

/-- Any number of rounds. -/
def star (p : Pattern) : Pattern := p.repeated true 0 none

/-- One round or more. -/
def plus (p : Pattern) : Pattern := p.repeated true 1 none

/-- The pattern or nothing. -/
def optional (p : Pattern) : Pattern := p.repeated true 0 (some 1)

/-- One scalar of the given ranges. -/
def ranges (bounds : List (Char × Char)) : Pattern :=
  one (.ofChars bounds)

/-- A text, scalar by scalar. -/
def text (t : Text) : Pattern :=
  sequence (t.map fun c => one (.single c))

end Pattern

end PredictiveParsing.Regex
