set_option autoImplicit false

/-!
# Doubles

A double is its 64 bits: the sign, eleven exponent bits and fifty-two fraction bits, most significant
first. Two doubles are the same when all bits agree, so the sign of zero and the payload of a NaN are
kept; `Double.agrees` is the coarser comparison of IEEE 754.
-/

namespace BytecodeObject

structure Double where
  bits : UInt64
  deriving DecidableEq, Repr

namespace Double

def isNegative (double : Double) : Bool :=
  double.bits.toNat.testBit 63

def fractionCount : Nat := 0x10000000000000

def exponentField (double : Double) : Nat :=
  double.bits.toNat / fractionCount % 2048

def fractionField (double : Double) : Nat :=
  double.bits.toNat % fractionCount

def isFinite (double : Double) : Bool :=
  double.exponentField != 2047

def isNaN (double : Double) : Bool :=
  double.exponentField == 2047 && double.fractionField != 0

def isZero (double : Double) : Bool :=
  double.exponentField == 0 && double.fractionField == 0

/-- The significand and the power of two of a finite double: its magnitude is
`significand * 2 ^ power`. Subnormal numbers have no leading one and share the smallest power. -/
def magnitude (double : Double) : Nat × Int :=
  if double.exponentField = 0 then
    (double.fractionField, -1074)
  else
    (fractionCount + double.fractionField, double.exponentField - 1075)

/-- Numerical equality: a NaN equals nothing, itself included, and the two zeros are equal. -/
def agrees (left right : Double) : Bool :=
  !left.isNaN && !right.isNaN && (left == right || left.isZero && right.isZero)

end Double

end BytecodeObject
