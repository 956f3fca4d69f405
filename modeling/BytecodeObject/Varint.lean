import BytecodeObject.Reader

set_option autoImplicit false

/-!
# Variable-length integers

An integer is written in groups of seven bits, least significant group first; the high bit of a
byte says that another group follows. A signed integer is its magnitude shifted past a sign bit,
so zero has a second form with the sign set.

A strict reader accepts the shortest form of a number in range and nothing else. A lenient one
accepts every form of up to five groups and reduces the number to 32 bits.
-/

namespace BytecodeObject.Varint

/-- The most groups an integer may have. Five hold 35 bits. -/
def maxGroups : Nat := 5

/-!
## Writing
-/

def encodeGroups : (limit : Nat) → Nat → List UInt8
  | 0, _ => []
  | limit + 1, number =>
      if number < 128 then
        [UInt8.ofNat number]
      else
        UInt8.ofNat (128 + number % 128) :: encodeGroups limit (number / 128)

/-- The shortest form of a number below `2 ^ 35`. -/
def encode (number : Nat) : List UInt8 :=
  encodeGroups maxGroups number

/-- The number that a signed integer is written as: twice its magnitude, plus one where it is
negative. The least integer needs 33 bits. -/
def signMagnitude (number : Int32) : Nat :=
  2 * number.toInt.natAbs + (if number < 0 then 1 else 0)

/-!
## Reading
-/

/-- Reads the groups of an integer that starts at `offset`, where at most `limit` are left. -/
def readGroups (strict : Bool) (offset : Nat) : (limit : Nat) → Reader Nat
  | 0 => Reader.fail (.unterminatedVarint offset)
  | limit + 1 => do
      let byte ← Reader.byte
      if byte.toNat < 128 then
        if strict && byte.toNat == 0 && limit + 1 != maxGroups then
          Reader.fail (.nonCanonicalVarint offset)
        else
          return byte.toNat
      else
        let higher ← readGroups strict offset limit
        return byte.toNat % 128 + 128 * higher

def read (strict : Bool) : Reader Nat := do
  readGroups strict (← Reader.position) maxGroups

def readUInt32 (strict : Bool) : Reader UInt32 := do
  let offset ← Reader.position
  let number ← read strict
  if strict && UInt32.size ≤ number then
    Reader.fail (.varintOverflow offset)
  else
    return UInt32.ofNat number

def ofSignMagnitude (number : Nat) : Int32 :=
  if number % 2 = 1 then Int32.ofInt (-(number / 2 : Nat)) else Int32.ofInt (number / 2 : Nat)

def magnitudeLimit (number : Nat) : Nat :=
  if number % 2 = 1 then 0x80000000 else 0x7FFFFFFF

def readInt32 (strict : Bool) : Reader Int32 := do
  let offset ← Reader.position
  let number ← read strict
  if strict && magnitudeLimit number < number / 2 then
    Reader.fail (.varintOverflow offset)
  else if strict && number == 1 then
    Reader.fail (.negativeZero offset)
  else
    return ofSignMagnitude number

end BytecodeObject.Varint
