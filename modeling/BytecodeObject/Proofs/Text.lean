import BytecodeObject.Proofs.FixedWidth
import BytecodeObject.Proofs.Varint
import BytecodeObject.Text

/-!
# Lengths and texts, read and written

A length that fits in 32 bits comes back as itself. A text keeps its bytes and its wide bit, and the
bytes need not be UTF-8.
-/

set_option autoImplicit false

namespace BytecodeObject

variable {order : ByteOrder} {strict : Bool}

/-!
## Lengths
-/

/-- What follows a length may be read with the length that was written. A length that does not fit
has no output, so nothing has to be shown of it. -/
theorem Reader.Restores.bind_length {β : Type} {next : UInt32 → Reader β} {what : String}
    {length : Nat} {right : Emission} {result : β}
    (continued : ∀ count : UInt32, count.toNat = length → (next count).Restores order right result) :
    (Varint.readUInt32 strict >>= next).Restores order (.length what length ++ right) result := by
  unfold Emission.length
  split
  · rename_i fits
    have same : (UInt32.ofNat length).toNat = length := UInt32.toNat_ofNat_of_lt' fits
    exact (Varint.readUInt32_restores strict order _).bind (continued _ same)
  · exact .fail _ order _ _

theorem Emission.Spans.length {before after : Cursor} {count : UInt32}
    (run : (Varint.readUInt32 strict).run before = .ok count after) (what : String) {length : Nat}
    (same : length = count.toNat) :
    (Emission.length what length).Spans order strict before after := by
  have fits := count.toNat_lt_size
  rw [Emission.length, same, if_pos fits, UInt32.ofNat_toNat]
  exact Varint.readUInt32_retraced strict order run

/-!
## Texts
-/

namespace Text

theorem length_bytes (text : Text) : text.bytes.length = text.payload.size :=
  text.payload.length_toList

/-- A text that was written is read back with its width and bytes. -/
theorem read_restores (strict : Bool) (order : ByteOrder) (text : Text) :
    (Text.read strict).Restores order text.emit text := by
  unfold Text.emit
  split
  · rename_i fits
    have wideBound : text.wide.toNat < 2 := text.wide.toNat_lt
    have lengthAndWide : (UInt32.ofNat (2 * text.payload.size + text.wide.toNat)).toNat =
        2 * text.payload.size + text.wide.toNat := by
      unfold maxSize at fits
      rw [UInt32.toNat_ofNat', Nat.mod_eq_of_lt (by omega)]
    have size : (2 * text.payload.size + text.wide.toNat) / 2 = text.bytes.length := by
      rw [length_bytes]
      omega
    have wide : ((2 * text.payload.size + text.wide.toNat) % 2 == 1) = text.wide := by
      rw [Nat.mul_add_mod]
      cases text.wide <;> rfl
    have whole : (⟨text.wide, .ofList text.bytes⟩ : Text) = text := by
      rw [Text.bytes, Payload.ofList_toList]
    refine (Varint.readUInt32_restores strict order _).bind ?_
    rw [lengthAndWide, size, wide]
    have taken := (Reader.take_restores order text.bytes).bind_pure
      (fun bytes => (⟨text.wide, .ofList bytes⟩ : Text))
    rwa [whole] at taken
  · exact .fail _ order _ _

theorem read_retraced (strict : Bool) (order : ByteOrder) :
    (Text.read strict).Retraced Text.emit order strict := by
  intro before result after run
  obtain ⟨lengthAndWide, middle, lengthRun, run⟩ := Reader.run_bind_ok run
  obtain ⟨bytes, last, takeRun, run⟩ := Reader.run_bind_ok run
  cases run
  have bound := lengthAndWide.toNat_lt
  have length := (Reader.advances_of_run_take_ok takeRun).2
  have fits : bytes.length ≤ maxSize := by
    unfold maxSize
    omega
  have wide : (lengthAndWide.toNat % 2 == 1).toNat = lengthAndWide.toNat % 2 := by
    rcases Nat.mod_two_eq_zero_or_one lengthAndWide.toNat with even | odd
    · rw [even]
      rfl
    · rw [odd]
      rfl
  have whole : 2 * bytes.length + lengthAndWide.toNat % 2 = lengthAndWide.toNat := by omega
  unfold Text.emit
  simp only [Payload.size_ofList, fits, if_true, wide, whole, UInt32.ofNat_toNat]
  exact (Varint.readUInt32_retraced strict order lengthRun).append
    (Reader.take_retraced _ order strict takeRun)

end Text

end BytecodeObject
