import PredictiveParsing.Source.Span
import PredictiveParsing.Text.Quoted

/-!
# Text slices

A piece of a text together with the byte offset it was cut from. Two slices are equal if they hold
the same text at the same offset, whichever text they come from.
-/

namespace PredictiveParsing

/-- A piece of a text. -/
structure TextSlice where
  /-- The scalars of the piece. -/
  text : Text
  /-- The byte offset of its first scalar. -/
  start : Nat
deriving DecidableEq, Repr, Inhabited

namespace TextSlice

/-- The piece of `buffer` between two byte offsets. -/
def ofBuffer (buffer : Text) (start stop : Nat) : Except Fault TextSlice :=
  match buffer.slice? start stop with
  | some text => .ok ⟨text, start⟩
  | none => .error (.badSlice start stop buffer.byteLength)

/-- The empty piece at a byte offset of `buffer`. -/
def emptyAt (buffer : Text) (offset : Nat) : Except Fault TextSlice :=
  ofBuffer buffer offset offset

/-- The length in bytes. -/
def length (s : TextSlice) : Nat := s.text.byteLength

/-- The byte offset behind the last scalar. -/
def stop (s : TextSlice) : Nat := s.start + s.length

/-- The piece as a string. -/
protected def toString (s : TextSlice) : String := String.ofList s.text

instance : ToString TextSlice := ⟨TextSlice.toString⟩

/-- The quoted text with its range of byte offsets. -/
def inspect (s : TextSlice) : String :=
  s.text.quoted ++ "@" ++ toString s.start ++ ".." ++ toString s.stop

end TextSlice

end PredictiveParsing
