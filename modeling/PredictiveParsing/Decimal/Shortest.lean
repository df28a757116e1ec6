import PredictiveParsing.Decimal.Nearest

/-!
# Shortest decimals

A double is written with the fewest digits that read back as the same double, and never with an
exponent. The decimals that read back are those in the interval around the double up to half the way
to its neighbours, ends included if the significand is even. `shortest` looks for the coarsest power
of ten whose multiples meet the interval; of two multiples it takes the nearer one, and the greater
one if both are equally near.
-/

namespace PredictiveParsing.Decimal

/-- A positive double as a multiple of a power of two. -/
structure Binary where
  significand : Nat
  /-- The exponent of the power of two. -/
  exponent : Int
  /-- The neighbour below is at half the distance of the neighbour above. -/
  narrowBelow : Bool

/-- The positive finite double of given bits. -/
def Binary.ofBits (bits : Nat) : Binary :=
  let biased := bits / significands % 2048
  let fraction := bits % significands
  if biased = 0 then ⟨fraction, -1074, false⟩
  else ⟨fraction + significands, Int.ofNat biased - 1075, fraction = 0 && 1 < biased⟩

/-- The multiple of the power of ten with the given exponent that stands for a double, if one lies
in its interval. In quarters of the last binary place the interval reaches from two below, or one
where the neighbour is nearer, to two above. -/
def multiple? (x : Binary) (exponent : Int) : Option Nat :=
  let unit := Nat.pow 2 (x.exponent - 2).toNat * Nat.pow 10 (-exponent).toNat
  let step := Nat.pow 2 (2 - x.exponent).toNat * Nat.pow 10 exponent.toNat
  let value := 4 * x.significand * unit
  let low := (4 * x.significand - if x.narrowBelow then 1 else 2) * unit
  let high := (4 * x.significand + 2) * unit
  let readsBack := fun (n : Nat) =>
    if x.significand % 2 = 0 then low ≤ n * step && n * step ≤ high
    else low < n * step && n * step < high
  let below := value / step
  match readsBack below, readsBack (below + 1) with
  | true, true => some (if 2 * (value % step) < step then below else below + 1)
  | true, false => some below
  | false, true => some (below + 1)
  | false, false => none

/-- The shortest decimal for a double, as digits and exponent, with an exponent of at most
`n - 1075`. At the least of these exponents every double is a multiple. -/
def shortestFrom (x : Binary) : Nat → Nat × Int
  | 0 => (x.significand * Nat.pow 2 (x.exponent + 1075).toNat * Nat.pow 5 1075, -1075)
  | n + 1 =>
    let exponent := Int.ofNat (n + 1) - 1075
    match multiple? x exponent with
    | some digits => (digits, exponent)
    | none => shortestFrom x n

/-- The shortest decimal for a double, as digits and exponent. -/
def shortest (x : Binary) : Nat × Int :=
  shortestFrom x 1384

/-- Digits times a power of ten, written out. -/
def positional (digits : Nat) (exponent : Int) : String :=
  let written := (toString digits).toList
  if 0 ≤ exponent then String.ofList (written ++ List.replicate exponent.toNat '0')
  else
    let places := (-exponent).toNat
    let padded := List.replicate (places + 1 - written.length) '0' ++ written
    let whole := padded.length - places
    String.ofList (padded.take whole ++ '.' :: padded.drop whole)

/-- The written form of the double of given bits. -/
def writeBits (bits : Nat) : String :=
  let signBit := 2048 * significands
  let negative := bits / signBit % 2 = 1
  let magnitude := bits % signBit
  if infinityBits < magnitude then "NaN"
  else
    let text :=
      if magnitude = infinityBits then "inf"
      else if magnitude = 0 then "0"
      else
        let (digits, exponent) := shortest (.ofBits magnitude)
        positional digits exponent
    if negative then "-" ++ text else text

/-- The written form of a double. -/
def write (x : Float) : String :=
  writeBits x.toBits.toNat

end PredictiveParsing.Decimal
