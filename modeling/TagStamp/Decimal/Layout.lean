import TagStamp.Decimal.Shortest
import TagStamp.Text.Basic

namespace TagStamp.Decimal

/-- The digits of a decimal without trailing zeros, and the place of the decimal point counted from the
first digit. -/
def Shortest.places (s : Shortest) : Text × Int :=
  let digits := Nat.toDigits 10 s.digits
  (((digits.reverse.dropWhile (· == '0')).reverse), (digits.length : Int) + s.power)

def zeros (n : Nat) : Text :=
  List.replicate n '0'

def positional (digits : Text) (point : Int) : Text :=
  if point ≤ 0 then '0' :: '.' :: zeros (-point).toNat ++ digits
  else
    let whole := digits.take point.toNat
    let rest := digits.drop point.toNat
    whole ++ zeros (point.toNat - whole.length) ++ '.' :: (if rest.isEmpty then ['0'] else rest)

def exponential (digits : Text) (exponent : Int) : Text :=
  let power := Nat.toDigits 10 exponent.natAbs
  let rest := digits.drop 1
  digits.take 1 ++ (if rest.isEmpty then [] else '.' :: rest) ++ 'e' ::
    (if exponent < 0 then '-' else '+') :: (zeros (2 - power.length) ++ power)

def render (significand : Nat) (exponent : Int) : Text :=
  if significand = 0 then ['0', '.', '0']
  else
    let (digits, point) := (shortest significand exponent).places
    if -4 ≤ point - 1 ∧ point - 1 < 16 then positional digits point
    else exponential digits (point - 1)

def Binary64.text : Binary64 → Text
  | finite negative significand exponent =>
    (if negative then ['-'] else []) ++ render significand exponent
  | infinite negative => (if negative then "-inf" else "inf").toList
  | nan => "nan".toList

end TagStamp.Decimal
