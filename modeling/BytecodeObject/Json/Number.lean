import BytecodeObject.Decimal.Shortest

set_option autoImplicit false

/-!
# Numbers in documents

Doubles are written with the fewest digits that tell them apart. From `10 ^ -5` up to but excluding
`10 ^ 16` they are written with a point and no exponent; beyond that with one digit before the point
and a signed exponent. What is not finite has no number and is written as `null`.
-/

namespace BytecodeObject.Json

def leastPlainExponent : Int := -5

def greatestPlainExponent : Int := 15

/-- Digits with a point behind the first `place` ones. There is always a digit on both sides. -/
def plainDigits (digits : List Char) (place : Int) : List Char :=
  if place ≤ 0 then
    '0' :: '.' :: (List.replicate (-place).toNat '0' ++ digits)
  else if digits.length ≤ place.toNat then
    digits ++ List.replicate (place.toNat - digits.length) '0' ++ ['.', '0']
  else
    digits.take place.toNat ++ '.' :: digits.drop place.toNat

/-- Digits with a point behind the first one, where there are more, and the exponent of the first.
-/
def scientificDigits (digits : List Char) (exponent : Int) : List Char :=
  let fraction := digits.drop 1
  digits.take 1 ++ (if fraction.isEmpty then [] else '.' :: fraction) ++
    'e' :: (if exponent < 0 then '-' else '+') :: Nat.toDigits 10 exponent.natAbs

def decimalChars (decimal : Decimal) : List Char :=
  let digits := Nat.toDigits 10 decimal.digits
  let exponent := decimal.exponent + digits.length - 1
  if leastPlainExponent ≤ exponent ∧ exponent ≤ greatestPlainExponent then
    plainDigits digits (exponent + 1)
  else
    scientificDigits digits exponent

def doubleChars (double : Double) : List Char :=
  if double.isFinite then
    let magnitude :=
      if double.isZero then ['0', '.', '0'] else decimalChars (Decimal.shortest double)
    if double.isNegative then '-' :: magnitude else magnitude
  else
    ['n', 'u', 'l', 'l']

end BytecodeObject.Json
