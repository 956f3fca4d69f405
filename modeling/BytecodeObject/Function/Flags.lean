set_option autoImplicit false

/-!
# Function flags

The properties of a function are packed into sixteen bits. The word is kept as it is, so bits that
have no meaning here survive.
-/

namespace BytecodeObject

inductive FunctionKind where
  | normal
  | generator
  | async
  | asyncGenerator
  deriving DecidableEq, Repr

namespace FunctionKind

def ofCode (number : Nat) : FunctionKind :=
  match number % 4 with
  | 0 => .normal
  | 1 => .generator
  | 2 => .async
  | _ => .asyncGenerator

def code : FunctionKind → Nat
  | .normal => 0
  | .generator => 1
  | .async => 2
  | .asyncGenerator => 3

def name : FunctionKind → String
  | .normal => "Normal"
  | .generator => "Generator"
  | .async => "Async"
  | .asyncGenerator => "AsyncGenerator"

theorem ofCode_code (kind : FunctionKind) : ofCode kind.code = kind := by
  cases kind <;> rfl

end FunctionKind

structure FunctionFlags where
  bits : UInt16
  deriving DecidableEq, Repr

namespace FunctionFlags

def bit (flags : FunctionFlags) (index : Nat) : Bool :=
  flags.bits.toNat.testBit index

def hasPrototype (flags : FunctionFlags) : Bool := flags.bit 0

def hasSimpleParameterList (flags : FunctionFlags) : Bool := flags.bit 1

def isDerivedClassConstructor (flags : FunctionFlags) : Bool := flags.bit 2

def needsHomeObject (flags : FunctionFlags) : Bool := flags.bit 3

def kind (flags : FunctionFlags) : FunctionKind :=
  .ofCode (flags.bits.toNat / 16)

def allowsNewTarget (flags : FunctionFlags) : Bool := flags.bit 6

def allowsSuperCall (flags : FunctionFlags) : Bool := flags.bit 7

def allowsSuper (flags : FunctionFlags) : Bool := flags.bit 8

def allowsArguments (flags : FunctionFlags) : Bool := flags.bit 9

/-- A debug record follows the code. -/
def hasDebug (flags : FunctionFlags) : Bool := flags.bit 10

def isBacktraceBarrier (flags : FunctionFlags) : Bool := flags.bit 11

def debugMask : UInt16 := 1024

def withDebug (flags : FunctionFlags) (wanted : Bool) : FunctionFlags :=
  if wanted then ⟨flags.bits ||| debugMask⟩ else ⟨flags.bits &&& ~~~debugMask⟩

/-- Setting the debug bit leaves every other bit as it was, those without a meaning included. -/
theorem bit_withDebug (flags : FunctionFlags) (wanted : Bool) (index : Nat) :
    (flags.withDebug wanted).bit index = if index = 10 then wanted else flags.bit index := by
  cases wanted with
  | true =>
      have mask : UInt16.toNat 1024 = 2 ^ 10 := rfl
      simp only [withDebug, bit, debugMask, if_true, UInt16.toNat_or, Nat.testBit_or, mask,
        Nat.testBit_two_pow]
      by_cases isDebug : index = 10
      · simp [isDebug]
      · simp [isDebug, Ne.symm isDebug]
  | false =>
      have mask : UInt16.toNat (~~~1024) = 2 ^ 16 - (2 ^ 10 + 1) := rfl
      simp only [withDebug, bit, debugMask, Bool.false_eq_true, if_false, UInt16.toNat_and,
        Nat.testBit_and, mask]
      rw [Nat.testBit_two_pow_sub_succ (by decide), Nat.testBit_two_pow]
      by_cases isDebug : index = 10
      · simp [isDebug]
      · by_cases inWord : index < 16
        · simp [isDebug, Ne.symm isDebug, inWord]
        · have high : flags.bits.toNat < 2 ^ index :=
            Nat.lt_of_lt_of_le flags.bits.toNat_lt (Nat.pow_le_pow_right (by decide) (by omega))
          simp [isDebug, Nat.testBit_lt_two_pow high]

/-- The debug bit is as wanted afterwards, whatever it was. -/
theorem hasDebug_withDebug (flags : FunctionFlags) (wanted : Bool) :
    (flags.withDebug wanted).hasDebug = wanted := by
  simp [hasDebug, bit_withDebug]

end FunctionFlags

end BytecodeObject
