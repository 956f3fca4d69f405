set_option autoImplicit false

/-!
# Byte order of fixed-width fields

A fixed-width field is written least significant byte first or in the reverse of that order. The two
orders differ by `List.reverse` and by nothing else.
-/

namespace BytecodeObject

inductive ByteOrder where
  | little
  | big
  deriving DecidableEq, Repr

namespace ByteOrder

/-- The `width` low bytes of a number, least significant first. Higher bytes are dropped. -/
def bytesOf : (width : Nat) → Nat → List UInt8
  | 0, _ => []
  | width + 1, number => UInt8.ofNat number :: bytesOf width (number / 256)

def numberOf : List UInt8 → Nat
  | [] => 0
  | byte :: rest => byte.toNat + 256 * numberOf rest

def arrange : ByteOrder → List UInt8 → List UInt8
  | .little, bytes => bytes
  | .big, bytes => bytes.reverse

def encode (order : ByteOrder) (width number : Nat) : List UInt8 :=
  order.arrange (bytesOf width number)

def decode (order : ByteOrder) (bytes : List UInt8) : Nat :=
  numberOf (order.arrange bytes)

@[simp] theorem length_bytesOf (width number : Nat) : (bytesOf width number).length = width := by
  induction width generalizing number with
  | zero => rfl
  | succ width widthIH => simp [bytesOf, widthIH]

@[simp] theorem arrange_arrange (order : ByteOrder) (bytes : List UInt8) :
    order.arrange (order.arrange bytes) = bytes := by
  cases order <;> simp [arrange]

@[simp] theorem length_encode (order : ByteOrder) (width number : Nat) :
    (order.encode width number).length = width := by
  cases order <;> simp [encode, arrange]

end ByteOrder

end BytecodeObject
