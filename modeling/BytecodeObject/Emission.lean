import BytecodeObject.ByteOrder
import BytecodeObject.Double
import BytecodeObject.Fault
import BytecodeObject.Varint

set_option autoImplicit false

/-!
# Emissions

What a value contributes to a stream: a sequence of fields, and perhaps a fault that ends it.
Fields are laid out as bytes only at the end, so the byte order touches the fixed-width fields and
no others. Emissions are joined by `++`; whatever follows a fault is dropped, and whatever
precedes it stays.
-/

namespace BytecodeObject

/-- A piece of output: bytes that are the same in every byte order, or a field of a fixed width. -/
inductive Field where
  | bytes (content : List UInt8)
  | word16 (content : UInt16)
  | double (content : Double)
  deriving DecidableEq, Repr

def Field.render (order : ByteOrder) : Field → List UInt8
  | .bytes content => content
  | .word16 content => order.encode 2 content.toNat
  | .double content => order.encode 8 content.bits.toNat

/-- Output up to its end, or up to the fault that kept it from being complete. -/
structure Emission where
  fields : List Field
  fault? : Option Fault := none
  deriving DecidableEq, Repr

namespace Emission

/-!
## Joining
-/

def nothing : Emission where
  fields := []

def fail (fault : Fault) : Emission where
  fields := []
  fault? := some fault

def join (left right : Emission) : Emission :=
  match left.fault? with
  | some _ => left
  | none => ⟨left.fields ++ right.fields, right.fault?⟩

instance : Append Emission where
  append := join

def concat (emissions : List Emission) : Emission :=
  emissions.foldr (· ++ ·) nothing

theorem append_def (left right : Emission) : left ++ right = left.join right := rfl

@[simp] theorem nothing_append (emission : Emission) : nothing ++ emission = emission := rfl

@[simp] theorem append_nothing (emission : Emission) : emission ++ nothing = emission := by
  obtain ⟨fields, fault?⟩ := emission
  cases fault? <;> simp [append_def, join, nothing]

@[simp] theorem fail_append (fault : Fault) (emission : Emission) :
    fail fault ++ emission = fail fault := rfl

theorem append_assoc (first second third : Emission) :
    first ++ second ++ third = first ++ (second ++ third) := by
  obtain ⟨firstFields, firstFault?⟩ := first
  obtain ⟨secondFields, secondFault?⟩ := second
  cases firstFault? <;> cases secondFault? <;> simp [append_def, join]

@[simp] theorem concat_nil : concat [] = nothing := rfl

@[simp] theorem concat_cons (emission : Emission) (rest : List Emission) :
    concat (emission :: rest) = emission ++ concat rest := rfl

/-!
## Elementary output
-/

def bytes (bytes : List UInt8) : Emission where
  fields := [.bytes bytes]

def byte (byte : UInt8) : Emission :=
  bytes [byte]

def word16 (word : UInt16) : Emission where
  fields := [.word16 word]

def double (double : Double) : Emission where
  fields := [.double double]

def uint32 (number : UInt32) : Emission :=
  bytes (Varint.encode number.toNat)

def int32 (number : Int32) : Emission :=
  bytes (Varint.encode (Varint.signMagnitude number))

/-- The length of a list, refused where 32 bits cannot hold it. -/
def length (what : String) (length : Nat) : Emission :=
  if length < UInt32.size then uint32 (UInt32.ofNat length) else fail (.lengthOverflow what length)

/-!
## Layout
-/

/-- The bytes of all fields, those before a fault included. -/
def render (order : ByteOrder) (emission : Emission) : List UInt8 :=
  emission.fields.flatMap (Field.render order)

def result (order : ByteOrder) (emission : Emission) : Except Fault (List UInt8) :=
  match emission.fault? with
  | some fault => .error fault
  | none => .ok (emission.render order)

end Emission

end BytecodeObject
