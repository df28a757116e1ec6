import PredictiveParsing.Source.Stepping

/-!
# Spans

The region of a text between two positions. `Span.between` refuses an end before the start; a span
written down as a pair of positions is taken as it is, so a length may not exist.
-/

namespace PredictiveParsing

/-- The region from `start` up to and without `stop`. -/
structure Span where
  start : Position
  stop : Position
deriving DecidableEq, Repr, Inhabited

namespace Span

/-- The region between two positions, the first of which may not come after the second. -/
def between (start stop : Position) : Except Fault Span :=
  if start.offset ≤ stop.offset then .ok ⟨start, stop⟩ else .error (.reversedSpan start stop)

/-- The region without extent at a position. -/
def empty (p : Position) : Span := ⟨p, p⟩

/-- The region from the start of one span to the end of another. -/
def cover (first last : Span) : Except Fault Span :=
  between first.start last.stop

/-- The length in bytes. -/
def length (s : Span) : Except Fault Nat :=
  checkedSub s.stop.offset s.start.offset

/-- True if `other` lies within `s`. -/
def contains (s other : Span) : Bool :=
  s.start.offset ≤ other.start.offset && other.stop.offset ≤ s.stop.offset

/-- Both ends. -/
protected def toString (s : Span) : String :=
  toString s.start ++ "-" ++ toString s.stop

instance : ToString Span := ⟨Span.toString⟩

/-- Both ends with all their numbers. -/
def inspect (s : Span) : String :=
  "Span \x7b start: " ++ s.start.inspect ++ ", end: " ++ s.stop.inspect ++ " \x7d"

end Span

end PredictiveParsing
