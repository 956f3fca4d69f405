import Mathlib.Algebra.Group.Nat.Defs
import BytecodeObject.Proofs.Correspondence

/-!
# Bytes and fixed-width fields, read and written

A field of a fixed width holds every number of that width in one way, in either byte order.
-/

set_option autoImplicit false

namespace BytecodeObject

namespace ByteOrder

/-!
## Numbers and their bytes
-/

private theorem bytesOf_numberOf (bytes : List UInt8) :
    bytesOf bytes.length (numberOf bytes) = bytes := by
  induction bytes with
  | nil => rfl
  | cons byte bytes bytesIH =>
      have bound := byte.toNat_lt
      have low : UInt8.ofNat (byte.toNat + 256 * numberOf bytes) = byte := by
        apply UInt8.toNat_inj.mp
        rw [UInt8.toNat_ofNat']
        omega
      have high : (byte.toNat + 256 * numberOf bytes) / 256 = numberOf bytes := by omega
      rw [List.length_cons, numberOf, bytesOf, low, high, bytesIH]

private theorem numberOf_bytesOf {width number : Nat} (fits : number < 256 ^ width) :
    numberOf (bytesOf width number) = number := by
  induction width generalizing number with
  | zero =>
      have zero : number = 0 := by simpa using fits
      rw [zero]
      rfl
  | succ width widthIH =>
      have higherFits : number / 256 < 256 ^ width :=
        Nat.div_lt_of_lt_mul (by rwa [Nat.mul_comm, ← Nat.pow_succ])
      rw [bytesOf, numberOf, widthIH higherFits, UInt8.toNat_ofNat']
      exact Nat.mod_add_div number 256

private theorem numberOf_lt (bytes : List UInt8) : numberOf bytes < 256 ^ bytes.length := by
  induction bytes with
  | nil => exact Nat.one_pos
  | cons byte bytes bytesIH =>
      have bound := byte.toNat_lt
      rw [List.length_cons, numberOf, Nat.pow_succ]
      omega

@[simp] theorem length_arrange (order : ByteOrder) (bytes : List UInt8) :
    (order.arrange bytes).length = bytes.length := by
  cases order with
  | little => rfl
  | big => exact List.length_reverse

theorem encode_decode (order : ByteOrder) (bytes : List UInt8) :
    order.encode bytes.length (order.decode bytes) = bytes := by
  unfold encode decode
  rw [← length_arrange order bytes, bytesOf_numberOf, arrange_arrange]

theorem decode_encode (order : ByteOrder) {width number : Nat} (fits : number < 256 ^ width) :
    order.decode (order.encode width number) = number := by
  unfold encode decode
  rw [arrange_arrange, numberOf_bytesOf fits]

theorem decode_lt (order : ByteOrder) (bytes : List UInt8) :
    order.decode bytes < 256 ^ bytes.length := by
  rw [← length_arrange order bytes]
  exact numberOf_lt _

end ByteOrder

namespace Reader

/-!
## Bytes
-/

theorem byte_restores (order : ByteOrder) (content : UInt8) :
    byte.Restores order (.byte content) content := by
  intro _ offset rest
  rw [Emission.byte, Emission.render_bytes]
  rfl

theorem byte_retraced (order : ByteOrder) (strict : Bool) :
    byte.Retraced .byte order strict := by
  intro before result after run
  exact .of_advances (advances_of_run_byte_ok run) rfl (Emission.render_bytes _ order)

theorem take_restores (order : ByteOrder) (content : List UInt8) :
    (take content.length).Restores order (.bytes content) content := by
  intro _ offset rest
  rw [Emission.render_bytes]
  exact run_take_append offset content rest

theorem take_retraced (count : Nat) (order : ByteOrder) (strict : Bool) :
    (take count).Retraced .bytes order strict := by
  intro before result after run
  exact .of_advances (advances_of_run_take_ok run).1 rfl (Emission.render_bytes _ order)

/-!
## Fields
-/

private theorem render_word16 (order : ByteOrder) (word : UInt16) :
    (Emission.word16 word).render order = order.encode 2 word.toNat := by
  simp [Emission.word16, Emission.render, Field.render]

private theorem render_double (order : ByteOrder) (double : Double) :
    (Emission.double double).render order = order.encode 8 double.bits.toNat := by
  simp [Emission.double, Emission.render, Field.render]

/-- A field whose bytes hold a number is read as a view of that number. -/
private theorem field_restores {α : Type} {order : ByteOrder} {emission : Emission} {width number : Nat}
    (view : Nat → α) (fits : number < 256 ^ width)
    (rendered : emission.render order = order.encode width number) :
    (do return view (order.decode (← take width)) : Reader α).Restores order emission
      (view number) := by
  intro _ offset rest
  have taken := run_take_append offset (order.encode width number) rest
  rw [ByteOrder.length_encode] at taken
  rw [rendered, run_bind_of_ok taken, ByteOrder.decode_encode order fits, ByteOrder.length_encode]
  rfl

private theorem field_retraced {α : Type} {order : ByteOrder} {emit : α → Emission} {width : Nat}
    (view : Nat → α) (complete : ∀ content, (emit content).fault? = none)
    (rendered : ∀ number < 256 ^ width,
      (emit (view number)).render order = order.encode width number) (strict : Bool) :
    (do return view (order.decode (← take width)) : Reader α).Retraced emit order strict := by
  intro before result after run
  obtain ⟨taken, middle, takeRun, run⟩ := run_bind_ok run
  cases run
  obtain ⟨moved, length⟩ := advances_of_run_take_ok takeRun
  have bound := order.decode_lt taken
  have bytes := order.encode_decode taken
  rw [length] at bound bytes
  exact .of_advances moved (complete _) ((rendered _ bound).trans bytes)

theorem word16_restores (order : ByteOrder) (word : UInt16) :
    (word16 order).Restores order (.word16 word) word := by
  have fits : word.toNat < 256 ^ 2 := word.toNat_lt
  have restored := field_restores UInt16.ofNat fits (render_word16 order word)
  rwa [UInt16.ofNat_toNat] at restored

theorem word16_retraced (order : ByteOrder) (strict : Bool) :
    (word16 order).Retraced .word16 order strict := by
  apply field_retraced UInt16.ofNat
  · intro word
    rfl
  · intro number fits
    rw [render_word16, UInt16.toNat_ofNat_of_lt' fits]

theorem double_restores (order : ByteOrder) (double : Double) :
    (Reader.double order).Restores order (.double double) double := by
  have fits : double.bits.toNat < 256 ^ 8 := double.bits.toNat_lt
  have restored := field_restores (fun number => Double.mk (UInt64.ofNat number)) fits
    (render_double order double)
  rwa [UInt64.ofNat_toNat] at restored

theorem double_retraced (order : ByteOrder) (strict : Bool) :
    (Reader.double order).Retraced .double order strict := by
  apply field_retraced fun number => Double.mk (UInt64.ofNat number)
  · intro double
    rfl
  · intro number fits
    rw [render_double, UInt64.toNat_ofNat_of_lt' fits]

end Reader

end BytecodeObject
