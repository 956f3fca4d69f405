set_option autoImplicit false

/-!
# Byte strings of known length

A payload is a byte string that the codec carries through untouched. Its length is known before
any of its bytes is produced, so a payload that is too long to be written is refused by its length
alone.
-/

namespace BytecodeObject

/-- A byte string with its length beside it. The bytes may be produced late; the length may not. -/
structure Payload where
  size : Nat
  bytes : Thunk (List UInt8)
  size_eq : bytes.get.length = size

namespace Payload

def toList (payload : Payload) : List UInt8 :=
  payload.bytes.get

def ofList (bytes : List UInt8) : Payload where
  size := bytes.length
  bytes := Thunk.pure bytes
  size_eq := rfl

/-- A payload of zero bytes only. No byte is produced until the bytes are asked for. -/
def zeros (count : Nat) : Payload where
  size := count
  bytes := Thunk.mk fun _ => List.replicate count 0
  size_eq := List.length_replicate

@[simp] theorem toList_ofList (bytes : List UInt8) : (ofList bytes).toList = bytes := rfl

@[simp] theorem size_ofList (bytes : List UInt8) : (ofList bytes).size = bytes.length := rfl

@[simp] theorem length_toList (payload : Payload) : payload.toList.length = payload.size :=
  payload.size_eq

/-- Two payloads with the same bytes are the same payload, whenever those bytes are produced. -/
@[ext] theorem ext {left right : Payload} (same : left.toList = right.toList) : left = right := by
  obtain ⟨leftSize, leftBytes, leftEq⟩ := left
  obtain ⟨rightSize, rightBytes, rightEq⟩ := right
  have bytesEq : leftBytes = rightBytes := Thunk.ext same
  subst bytesEq
  have sizeEq : leftSize = rightSize := leftEq.symm.trans rightEq
  subst sizeEq
  rfl

@[simp] theorem ofList_toList (payload : Payload) : ofList payload.toList = payload :=
  ext rfl

/-- Lengths are compared first, so payloads of different lengths are told apart without their
bytes. -/
instance : DecidableEq Payload := fun left right =>
  if sizes : left.size = right.size then
    decidable_of_iff (left.toList = right.toList) ⟨ext, fun same => same ▸ rfl⟩
  else
    isFalse fun same => sizes (same ▸ rfl)

end Payload

end BytecodeObject
