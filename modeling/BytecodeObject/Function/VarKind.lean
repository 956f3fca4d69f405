set_option autoImplicit false

/-!
# Kinds of variables

What a binding was declared as. A kind is stored in four bits, six of whose values have no meaning;
those are kept as reserved kinds. Of the number of a reserved kind no more than four bits are stored.
-/

namespace BytecodeObject

inductive VarKind where
  | normal
  | functionDecl
  | newFunctionDecl
  | catchParameter
  | functionName
  | privateField
  | privateMethod
  | privateGetter
  | privateSetter
  | privateGetterSetter
  | reserved (number : UInt8)
  deriving DecidableEq, Repr

namespace VarKind

/-- The kind in the four lowest bits of a number. -/
def ofCode (number : Nat) : VarKind :=
  match number % 16 with
  | 0 => .normal
  | 1 => .functionDecl
  | 2 => .newFunctionDecl
  | 3 => .catchParameter
  | 4 => .functionName
  | 5 => .privateField
  | 6 => .privateMethod
  | 7 => .privateGetter
  | 8 => .privateSetter
  | 9 => .privateGetterSetter
  | other => .reserved (UInt8.ofNat other)

def code : VarKind → Nat
  | .normal => 0
  | .functionDecl => 1
  | .newFunctionDecl => 2
  | .catchParameter => 3
  | .functionName => 4
  | .privateField => 5
  | .privateMethod => 6
  | .privateGetter => 7
  | .privateSetter => 8
  | .privateGetterSetter => 9
  | .reserved number => number.toNat % 16

def name? : VarKind → Option String
  | .normal => some "Normal"
  | .functionDecl => some "FunctionDecl"
  | .newFunctionDecl => some "NewFunctionDecl"
  | .catchParameter => some "Catch"
  | .functionName => some "FunctionName"
  | .privateField => some "PrivateField"
  | .privateMethod => some "PrivateMethod"
  | .privateGetter => some "PrivateGetter"
  | .privateSetter => some "PrivateSetter"
  | .privateGetterSetter => some "PrivateGetterSetter"
  | .reserved _ => none

theorem code_lt (kind : VarKind) : kind.code < 16 := by
  cases kind <;> simp only [code] <;> omega

/-- Storing a kind loses nothing but what a reserved number holds beside or above its meaning: the
four bits that come back are those that were stored. -/
theorem code_ofCode (number : Nat) : (ofCode number).code = number % 16 := by
  have bound : number % 16 < 16 := Nat.mod_lt _ (by decide)
  unfold ofCode
  generalize number % 16 = low at bound
  revert low
  decide

end VarKind

end BytecodeObject
