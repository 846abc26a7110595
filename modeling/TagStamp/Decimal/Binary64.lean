namespace TagStamp.Decimal

/-- A double. A finite one is `significand * 2 ^ exponent`, with the significand below `2 ^ 53` and the
exponent as small as the format allows. -/
inductive Binary64
  | finite (negative : Bool) (significand : Nat) (exponent : Int)
  | infinite (negative : Bool)
  | nan
deriving DecidableEq, Repr

/-- Significands are below this number, because they have 53 bits. -/
def significandLimit : Nat := 0x20000000000000

/-- The exponent below which significands cannot be made longer. -/
def leastExponent : Int := -1074

/-- The greatest exponent of a finite number. -/
def greatestExponent : Int := 971

/-- The integer nearest to `numerator / denominator`; a half goes to the even neighbour. -/
def roundDiv (numerator denominator : Nat) : Nat :=
  let whole := numerator / denominator
  let twice := 2 * (numerator % denominator)
  if twice < denominator then whole
  else if denominator < twice then whole + 1
  else whole + whole % 2

/-- `numerator / denominator` as a multiple of `2 ^ exponent`, rounded to the nearest. -/
def scaledDiv (numerator denominator : Nat) (exponent : Int) : Nat :=
  if 0 ≤ exponent then roundDiv numerator (denominator * Nat.pow 2 exponent.toNat)
  else roundDiv (numerator * Nat.pow 2 (-exponent).toNat) denominator

namespace Binary64

def zero (negative : Bool) : Binary64 :=
  .finite negative 0 leastExponent

/-- The double nearest to a positive fraction. The exponent is chosen so that the rounded significand has
53 bits, or as many as are left above the least exponent. -/
def ofFraction (negative : Bool) (numerator denominator : Nat) : Binary64 :=
  let guess : Int := (numerator.log2 : Int) - denominator.log2 - 53
  let low := max guess leastExponent
  let exponent := if scaledDiv numerator denominator low < significandLimit then low else low + 1
  let significand := scaledDiv numerator denominator exponent
  let carried := significand = significandLimit
  let significand := if carried then significandLimit / 2 else significand
  let exponent := if carried then exponent + 1 else exponent
  if greatestExponent < exponent then .infinite negative else .finite negative significand exponent

/-- The double nearest to `digits * 10 ^ power`. Powers far outside the format are settled by the number
of digits alone. -/
def ofDecimal (negative : Bool) (digits : Nat) (power : Int) : Binary64 :=
  let magnitude := ((Nat.toDigits 10 digits).length : Int) + power
  if digits = 0 then zero negative
  else if 400 < magnitude then .infinite negative
  else if magnitude < -400 then zero negative
  else if 0 ≤ power then ofFraction negative (digits * Nat.pow 10 power.toNat) 1
  else ofFraction negative digits (Nat.pow 10 (-power).toNat)

def isZero : Binary64 → Bool
  | finite _ 0 _ => true
  | _ => false

/-- The value of a finite number that has no fraction. -/
def toInt? : Binary64 → Option Int
  | finite negative significand exponent =>
    let signed (n : Nat) : Int := if negative then -n else n
    if 0 ≤ exponent then some (signed (significand * Nat.pow 2 exponent.toNat))
    else
      let unit := Nat.pow 2 (-exponent).toNat
      if significand % unit = 0 then some (signed (significand / unit)) else none
  | _ => none

end Binary64

end TagStamp.Decimal
