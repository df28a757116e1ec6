import PredictiveParsing.Text.Basic

/-!
# Nearest doubles

A decimal number is read as the double nearest to it; of two equally near ones, as the one with the
even significand. Numbers beyond the largest double are read as infinity. `nearestBits` does this
for a quotient of natural numbers in exact arithmetic.
-/

namespace PredictiveParsing.Decimal

/-- The quotient rounded to the nearest natural number, a half to the even one. -/
def roundHalfEven (num den : Nat) : Nat :=
  let below := num / den
  let rest := num % den
  if 2 * rest < den then below
  else if den < 2 * rest then below + 1
  else if below % 2 = 0 then below else below + 1

/-- The number of values a significand takes at one exponent, 2 to the power of 52. -/
def significands : Nat := 4503599627370496

/-- The bits of positive infinity. -/
def infinityBits : Nat := 2047 * significands

/-- The quotient of `num` by `den` over the power of two with the given exponent, as numerator and
denominator. -/
def overPowerOfTwo (num den : Nat) (exponent : Int) : Nat × Nat :=
  (num * Nat.pow 2 (-exponent).toNat, den * Nat.pow 2 exponent.toNat)

/-- The exponent of the last place of the double that stands for a quotient: the significand has 53
binary digits, fewer only at the least exponent. -/
def lastPlace (num den : Nat) : Int :=
  let guess : Int := Int.ofNat num.log2 - Int.ofNat den.log2 - 53
  let (n, d) := overPowerOfTwo num den guess
  max (if n < d * (2 * significands) then guess else guess + 1) (-1074)

/-- The bits of the double nearest to a quotient. A significand that is rounded up to the next power
of two carries into the exponent. -/
def nearestBits (num den : Nat) : Nat :=
  if num = 0 then 0
  else
    let place := lastPlace num den
    let (n, d) := overPowerOfTwo num den place
    min ((place + 1074).toNat * significands + roundHalfEven n d) infinityBits

/-- The double nearest to `digits` times a power of ten. A number of `n + 1` binary digits has more
than `n / 4` decimal digits and at most `n / 3 + 1`; where these bounds decide the answer alone,
the power is not computed. -/
def nearest (digits : Nat) (exponent : Int) : Float :=
  let bits :=
    if digits = 0 then 0
    else if 400 < Int.ofNat (digits.log2 / 4) + exponent then infinityBits
    else if Int.ofNat (digits.log2 / 3) + exponent < -400 then 0
    else nearestBits (digits * Nat.pow 10 exponent.toNat) (Nat.pow 10 (-exponent).toNat)
  Float.ofBits bits.toUInt64

/-- The number that decimal digits write. -/
def ofDigits (digits : Text) : Nat :=
  digits.foldl (fun n d => 10 * n + (d.toNat - '0'.toNat)) 0

/-- Why a text writes no number. -/
inductive ReadError
  | empty
  | invalid
deriving DecidableEq, Repr

/-- The wording of an error. -/
def ReadError.message : ReadError → String
  | empty => "cannot parse float from empty string"
  | invalid => "invalid float literal"

/-- The sign in front of a text: true for a minus. -/
def sign : Text → Bool × Text
  | '-' :: cs => (true, cs)
  | '+' :: cs => (false, cs)
  | cs => (false, cs)

/-- The exponent that a text writes: nothing, or a letter, a sign and digits. -/
def exponent? : Text → Option Int
  | [] => some 0
  | c :: cs =>
    if c = 'e' ∨ c = 'E' then
      let (negative, digits) := sign cs
      if digits.isEmpty ∨ ¬ digits.all Char.isDigit then none
      else
        let n := Int.ofNat (ofDigits digits)
        some (if negative then -n else n)
    else none

/-- The number that a text without a sign writes: digits, at least one of them, with a point
anywhere between, and an exponent. The names of infinity and of what is no number may be in either
case. -/
def readUnsigned (text : Text) : Option Float :=
  let lower := text.map Char.toLower
  if lower = "inf".toList ∨ lower = "infinity".toList then some (Float.ofBits infinityBits.toUInt64)
  else if lower = "nan".toList then some (Float.ofBits (infinityBits + significands / 2).toUInt64)
  else
    let whole := text.takeWhile Char.isDigit
    let behind := text.dropWhile Char.isDigit
    let (fraction, rest) :=
      match behind with
      | '.' :: cs => (cs.takeWhile Char.isDigit, cs.dropWhile Char.isDigit)
      | cs => ([], cs)
    if whole.isEmpty ∧ fraction.isEmpty then none
    else (exponent? rest).map fun e =>
      nearest (ofDigits (whole ++ fraction)) (e - Int.ofNat fraction.length)

/-- The double that a text writes. -/
def read (text : Text) : Except ReadError Float :=
  if text.isEmpty then .error .empty
  else
    let (negative, rest) := sign text
    match readUnsigned rest with
    | some x => .ok (if negative then -x else x)
    | none => .error .invalid

end PredictiveParsing.Decimal
