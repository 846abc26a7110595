import TagStamp.Decimal.Binary64

namespace TagStamp.Decimal

/-- A positive decimal `digits * 10 ^ power`. -/
structure Shortest where
  digits : Nat
  power : Int
deriving DecidableEq, Repr

/-- A positive double as a fraction with the room around it: every real strictly between
`value - below` and `value + above` rounds to it, and the ends do when the significand is even. All four
are numerators over one denominator. -/
structure Room where
  value : Nat
  below : Nat
  above : Nat
  denominator : Nat
  closed : Bool

/-- The room of `significand * 2 ^ exponent`. Right above a power of two the next smaller number is only
half as far away as the next greater one. -/
def Room.of (significand : Nat) (exponent : Int) : Room :=
  let narrow := significand = significandLimit / 2 ∧ leastExponent < exponent
  let scale := if 0 ≤ exponent then Nat.pow 2 exponent.toNat else 1
  { value := 4 * significand * scale
    below := (if narrow then 1 else 2) * scale
    above := 2 * scale
    denominator := 4 * (if 0 ≤ exponent then 1 else Nat.pow 2 (-exponent).toNat)
    closed := significand % 2 = 0 }

/-- `digits * 10 ^ power` as a pair of numbers, the second one a denominator. -/
def fraction (digits : Nat) (power : Int) : Nat × Nat :=
  if 0 ≤ power then (digits * Nat.pow 10 power.toNat, 1) else (digits, Nat.pow 10 (-power).toNat)

/-- Distance of a decimal from the value, as a numerator over the product of both denominators. -/
def Room.distance (r : Room) (digits : Nat) (power : Int) : Nat :=
  let (n, d) := fraction digits power
  max (n * r.denominator) (r.value * d) - min (n * r.denominator) (r.value * d)

/-- Whether a decimal reads back as the double. -/
def Room.holds (r : Room) (digits : Nat) (power : Int) : Bool :=
  let (n, d) := fraction digits power
  let limit := (if n * r.denominator < r.value * d then r.below else r.above) * d
  r.distance digits power < limit || (r.closed && r.distance digits power == limit)

/-- Position of the leading digit: the greatest `k` with `10 ^ k` not above the value. -/
def Room.leading (r : Room) : Int :=
  let whole := r.value / r.denominator
  if 0 < whole then (Nat.toDigits 10 whole).length - 1
  else 0 - (((List.range 400).find? fun k => r.denominator ≤ r.value * Nat.pow 10 k).getD 400 : Int)

/-- The decimal of the given length that reads back, the nearer one of two, and the even one of two that
are equally near. -/
def Room.atLength? (r : Room) (length : Nat) : Option Shortest :=
  let power := r.leading - (length - 1 : Nat)
  let (n, d) := fraction 1 power
  let low := r.value * d / (r.denominator * n)
  let high := low + 1
  match r.holds low power, r.holds high power with
  | false, false => none
  | true, false => some ⟨low, power⟩
  | false, true => some ⟨high, power⟩
  | true, true =>
    if r.distance low power < r.distance high power then some ⟨low, power⟩
    else if r.distance high power < r.distance low power then some ⟨high, power⟩
    else if low % 2 = 0 then some ⟨low, power⟩ else some ⟨high, power⟩

/-- Seventeen digits always read back, so the search ends. -/
def shortest (significand : Nat) (exponent : Int) : Shortest :=
  let room := Room.of significand exponent
  ((List.range' 1 17).findSome? room.atLength?).getD ⟨significand, exponent⟩

end TagStamp.Decimal
