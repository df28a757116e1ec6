import PredictiveParsing.Regex.Pattern

/-!
# The size of a pattern

The size of a pattern is the room that an automaton for it takes, which reads the bytes of a text.
`Pattern.size` multiplies the counts of repetitions, so it tells whether a pattern is too large
before the repetitions are spelled out.
-/

namespace PredictiveParsing.Regex

/-- The room that a state takes. -/
def stateSize : Nat := 32

/-- The room that a branch takes within a state. -/
def branchSize : Nat := 4

/-- The ranges of bytes that follow each other in the encodings of scalars. -/
abbrev ByteRanges := List (Nat × Nat)

/-- Adds a range of bytes in front of sequences of ranges. -/
def underByte (range : Nat × Nat) (sequences : List ByteRanges) : List ByteRanges :=
  sequences.map fun s => range :: s

/-- The encodings of the numbers from `low` to `high` in `k` bytes of six binary digits behind a
first one. The numbers that begin with the same digits have a common beginning. -/
def encodings (lead : Nat) : (k low high : Nat) → List ByteRanges
  | 0, low, high => [[(lead + low, lead + high)]]
  | k + 1, low, high =>
    let block := Nat.pow 64 (k + 1)
    let first := low / block
    let last := high / block
    let tail (a b : Nat) := encodings 0x80 k a b
    let full (a b : Nat) := underByte (lead + a, lead + b) (tail 0 (block - 1))
    if first = last then underByte (lead + first, lead + first) (tail (low % block) (high % block))
    else
      let (opening, from') :=
        if low % block = 0 then ([], first)
        else (underByte (lead + first, lead + first) (tail (low % block) (block - 1)), first + 1)
      let (closing, until') :=
        if high % block = block - 1 then ([], last + 1)
        else (underByte (lead + last, lead + last) (tail 0 (high % block)), last)
      opening ++ (if from' < until' then full from' (until' - 1) else []) ++ closing

/-- The blocks of codes whose encodings have one length: the first and the last code, what is added
to the digits of the first byte, and the number of bytes behind it. -/
def encodingBlocks : List (Nat × Nat × Nat × Nat) :=
  [(0, 0x7F, 0, 0), (0x80, 0x7FF, 0xC0, 1), (0x800, 0xD7FF, 0xE0, 2), (0xE000, 0xFFFF, 0xE0, 2),
  (0x10000, 0x10FFFF, 0xF0, 3)]

/-- The encodings of the scalars of a set, in ascending order. -/
def encodingsOf (s : ScalarSet) : List ByteRanges :=
  s.ranges.flatMap fun (low, high) =>
    encodingBlocks.flatMap fun (first, last, lead, k) =>
      if max low first ≤ min high last then encodings lead k (max low first) (min high last) else []

/-- The number of ranges that a sequence does not share with the beginning of the one before. -/
def newRanges : ByteRanges → ByteRanges → Nat
  | r :: rs, s :: ss => if r = s then newRanges rs ss else ss.length + 1
  | _, ss => ss.length

/-- The room that a class takes. A class of one scalar is spelled out byte by byte. A class within
ASCII has its ranges in one state; for any other, each step of its encodings takes a state, and
encodings that follow each other share the steps that they have in common at their beginning. -/
def classSize (s : ScalarSet) : Nat :=
  match s.ranges with
  | [] => stateSize
  | (low, high) :: rest =>
    if rest.isEmpty && low == high then (Char.ofNat low).utf8Size * stateSize
    else if s.isAscii then 2 * stateSize + 2 * branchSize * s.ranges.length
    else
      let sequences := encodingsOf s
      let steps := (sequences.zipWith (fun after before => newRanges before after)
        ([] :: sequences)).foldl (· + ·) 0
      (2 + steps) * stateSize + branchSize * sequences.length

namespace Pattern

/-- The room that a pattern takes, as a branch of an alternative or by itself. -/
def sizeIn : (branch : Bool) → Pattern → Nat
  | branch, alt left right =>
    (if branch then 0 else 2 * stateSize) + left.sizeIn true + right.sizeIn true
  | branch, p =>
    (if branch then branchSize else 0) +
    match p with
    | empty | holds _ => stateSize
    | one cls => classSize cls
    | group body => body.sizeIn false + 2 * stateSize
    | seq first second => first.sizeIn false + second.sizeIn false
    | alt _ _ => 0
    | times _ least most body =>
      let round := body.sizeIn false
      let fork := stateSize + 2 * branchSize
      match least, most with
      | 0, none => if body.isNullable then round + 2 * fork + stateSize else round + fork
      | n + 1, none => (n + 1) * round + fork
      | 0, some 1 => fork + round + stateSize
      | least, some most =>
        if most ≤ least then max least 1 * round
        else max (least * round) stateSize + stateSize + (most - least) * (fork + round)

/-- The room that a whole pattern takes. -/
def size (p : Pattern) : Nat :=
  p.sizeIn false + 4 * stateSize

end Pattern

/-- The room that a pattern may take. -/
def sizeLimit : Nat := 10485760

end PredictiveParsing.Regex
