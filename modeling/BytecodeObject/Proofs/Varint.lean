import Mathlib.Algebra.Group.Nat.Defs
import BytecodeObject.Proofs.Correspondence

/-!
# Variable-length integers, read and written

The form that is written is the shortest one, and it is read back as its number. What is read is
covered by the form of the result: the groups that a lenient reader skips or cuts off make it longer
than the shortest form and never shorter, also where the sign of the result changes.
-/

set_option autoImplicit false

namespace BytecodeObject.Varint

/-!
## Shortest forms
-/

private theorem encodeGroups_of_lt {number : Nat} (limit : Nat) (small : number < 128) :
    encodeGroups (limit + 1) number = [UInt8.ofNat number] := by
  rw [encodeGroups, if_pos small]

private theorem encodeGroups_of_le {number : Nat} (limit : Nat) (large : 128 ≤ number) :
    encodeGroups (limit + 1) number =
      UInt8.ofNat (128 + number % 128) :: encodeGroups limit (number / 128) := by
  rw [encodeGroups, if_neg (by omega)]

theorem length_encodeGroups_le (limit number : Nat) :
    (encodeGroups limit number).length ≤ limit := by
  induction limit generalizing number with
  | zero => exact Nat.le_refl 0
  | succ limit limitIH =>
      by_cases small : number < 128
      · rw [encodeGroups_of_lt limit small, List.length_singleton]
        omega
      · have higher := limitIH (number / 128)
        rw [encodeGroups_of_le limit (by omega), List.length_cons]
        omega

private theorem length_encodeGroups_mono (limit : Nat) {small large : Nat} (ordered : small ≤ large) :
    (encodeGroups limit small).length ≤ (encodeGroups limit large).length := by
  induction limit generalizing small large with
  | zero => exact Nat.le_refl 0
  | succ limit limitIH =>
      by_cases largeShort : large < 128
      · rw [encodeGroups_of_lt limit (by omega), encodeGroups_of_lt limit largeShort]
        exact Nat.le_refl 1
      · have largeLong : 128 ≤ large := by omega
        rw [encodeGroups_of_le limit largeLong, List.length_cons]
        by_cases smallShort : small < 128
        · rw [encodeGroups_of_lt limit smallShort, List.length_singleton]
          omega
        · have smallLong : 128 ≤ small := by omega
          have higher := limitIH (Nat.div_le_div_right (c := 128) ordered)
          rw [encodeGroups_of_le limit smallLong, List.length_cons]
          omega

private theorem length_encode_eq_maxGroups {number : Nat} (large : 2 ^ 28 ≤ number) :
    (encode number).length = maxGroups := by
  have least : (encode (2 ^ 28)).length = maxGroups := rfl
  have mono := length_encodeGroups_mono maxGroups large
  have bound := length_encodeGroups_le maxGroups number
  unfold encode at least ⊢
  omega

/-!
## Forms
-/

/-- A form of a number: every group but the last one announces another. -/
inductive Terminated : List UInt8 → Prop where
  | last {group : UInt8} (ends : group.toNat < 128) : Terminated [group]
  | continued {group : UInt8} {groups : List UInt8} (announces : 128 ≤ group.toNat)
      (further : Terminated groups) : Terminated (group :: groups)

/-- The number that groups hold between them, padding included. -/
def payload : List UInt8 → Nat
  | [] => 0
  | group :: groups => group.toNat % 128 + 128 * payload groups

theorem Terminated.length_pos {groups : List UInt8} (terminated : Terminated groups) :
    0 < groups.length := by
  cases terminated <;> simp

/-- Groups hold seven bits each. -/
theorem payload_lt (groups : List UInt8) : payload groups < 128 ^ groups.length := by
  induction groups with
  | nil => simp [payload]
  | cons group groups groupsIH =>
      rw [payload, List.length_cons, Nat.pow_succ]
      omega

/-- Groups hold nothing that a shortest form would need more groups for. -/
theorem length_encodeGroups_payload_le {groups : List UInt8} (terminated : Terminated groups)
    (limit : Nat) : (encodeGroups limit (payload groups)).length ≤ groups.length := by
  induction terminated generalizing limit with
  | @last group ends =>
      cases limit with
      | zero => exact Nat.zero_le _
      | succ limit =>
          rw [payload, payload, encodeGroups_of_lt limit (by omega)]
          exact Nat.le_refl 1
  | @continued group groups announces further furtherIH =>
      cases limit with
      | zero => exact Nat.zero_le _
      | succ limit =>
          rw [payload]
          by_cases large : 128 ≤ group.toNat % 128 + 128 * payload groups
          · have quotient : (group.toNat % 128 + 128 * payload groups) / 128 = payload groups := by
              omega
            have higher := furtherIH limit
            rw [encodeGroups_of_le limit large, quotient, List.length_cons, List.length_cons]
            omega
          · rw [encodeGroups_of_lt limit (by omega), List.length_singleton, List.length_cons]
            omega

/-!
## Groups
-/

private theorem run_readGroups_encodeGroups (strict : Bool) (start : Nat) {limit number : Nat}
    (bounded : limit ≤ maxGroups) (fits : number < 128 ^ limit)
    (proper : limit ≠ maxGroups → number ≠ 0) (offset : Nat) (rest : List UInt8) :
    (readGroups strict start limit).run ⟨offset, encodeGroups limit number ++ rest⟩ =
      .ok number ⟨offset + (encodeGroups limit number).length, rest⟩ := by
  induction limit generalizing number offset with
  | zero =>
      have zero : number = 0 := by simpa using fits
      exact absurd zero (proper (by decide))
  | succ limit limitIH =>
      by_cases small : number < 128
      · have byteEq : (UInt8.ofNat number).toNat = number := by
          rw [UInt8.toNat_ofNat']
          omega
        have accepted : (strict && number == 0 && limit + 1 != maxGroups) = false := by
          by_cases last : limit + 1 = maxGroups
          · simp [last]
          · simp [proper last]
        rw [encodeGroups_of_lt limit small, readGroups, List.singleton_append,
          Reader.run_bind_of_ok (Reader.run_byte_cons offset _ rest), byteEq, if_pos small,
          accepted]
        rfl
      · have byteEq : (UInt8.ofNat (128 + number % 128)).toNat = 128 + number % 128 := by
          rw [UInt8.toNat_ofNat']
          omega
        have higherFits : number / 128 < 128 ^ limit :=
          Nat.div_lt_of_lt_mul (by rwa [Nat.mul_comm, ← Nat.pow_succ])
        have higher := limitIH (by omega) higherFits (fun _ => by omega) (offset + 1)
        rw [encodeGroups_of_le limit (by omega), readGroups, List.cons_append,
          Reader.run_bind_of_ok (Reader.run_byte_cons offset _ _), byteEq, if_neg (by omega),
          Reader.run_bind_of_ok higher, List.length_cons]
        have total : (128 + number % 128) % 128 + 128 * (number / 128) = number := by omega
        have place : offset + 1 + (encodeGroups limit (number / 128)).length =
            offset + ((encodeGroups limit (number / 128)).length + 1) := by omega
        rw [total, place]
        rfl

/-- What is read is a form. In a strict reader only the first group may be zero and the last one, so no
group is lost. -/
private theorem form_of_run_readGroups {strict : Bool} {start limit : Nat} (bounded : limit ≤ maxGroups)
    {before after : Cursor} {number : Nat}
    (run : (readGroups strict start limit).run before = .ok number after) :
    ∃ groups, before.Advances groups after ∧ Terminated groups ∧ groups.length ≤ limit ∧
      payload groups = number ∧
      (strict = true → encodeGroups limit number = groups ∧ (limit ≠ maxGroups → number ≠ 0)) := by
  induction limit generalizing before number with
  | zero => cases run
  | succ limit limitIH =>
      rw [readGroups] at run
      obtain ⟨byte, middle, byteRun, run⟩ := Reader.run_bind_ok run
      have moved := Reader.advances_of_run_byte_ok byteRun
      have byteBound := byte.toNat_lt
      split at run
      · rename_i small
        split at run
        · cases run
        · rename_i accepted
          cases run
          have form : encodeGroups (limit + 1) byte.toNat = [byte] := by
            rw [encodeGroups_of_lt limit small, UInt8.ofNat_toNat]
          refine ⟨[byte], moved, .last small, by simp, ?_, ?_⟩
          · simp [payload, Nat.mod_eq_of_lt small]
          · intro isStrict
            refine ⟨form, fun notFirst isZero => accepted ?_⟩
            simp [isStrict, isZero, notFirst]
      · rename_i large
        obtain ⟨higher, last, higherRun, run⟩ := Reader.run_bind_ok run
        cases run
        obtain ⟨groups, further, terminated, short, rfl, same⟩ := limitIH (by omega) higherRun
        refine ⟨byte :: groups, moved.trans further, .continued (Nat.le_of_not_lt large) terminated,
          Nat.succ_le_succ short, rfl, ?_⟩
        intro isStrict
        obtain ⟨form, proper⟩ := same isStrict
        have nonzero : payload groups ≠ 0 := proper (by omega)
        have quotient : (byte.toNat % 128 + 128 * payload groups) / 128 = payload groups := by omega
        have remainder : 128 + (byte.toNat % 128 + 128 * payload groups) % 128 = byte.toNat := by
          omega
        constructor
        · rw [encodeGroups_of_le limit (by omega), quotient, remainder, UInt8.ofNat_toNat, form]
        · omega

/-- An integer is read from a form of at most five groups that hold it. -/
theorem form_of_run_read {strict : Bool} {before after : Cursor} {number : Nat}
    (run : (read strict).run before = .ok number after) :
    ∃ groups, before.Advances groups after ∧ Terminated groups ∧ groups.length ≤ maxGroups ∧
      payload groups = number ∧ (strict = true → encode number = groups) := by
  rw [read] at run
  obtain ⟨start, middle, positionRun, run⟩ := Reader.run_bind_ok run
  cases positionRun
  obtain ⟨groups, moved, terminated, short, holds, same⟩ :=
    form_of_run_readGroups (Nat.le_refl _) run
  exact ⟨groups, moved, terminated, short, holds, fun isStrict => (same isStrict).1⟩

theorem covers_of_run_read {strict : Bool} {before after : Cursor} {number : Nat}
    (run : (read strict).run before = .ok number after) :
    ∃ consumed, before.Advances consumed after ∧ (encode number).length ≤ consumed.length ∧
      (strict = true → encode number = consumed) := by
  obtain ⟨groups, moved, terminated, _, rfl, same⟩ := form_of_run_read run
  exact ⟨groups, moved, length_encodeGroups_payload_le terminated maxGroups, same⟩

/-!
## Integers
-/

theorem run_read_encode (strict : Bool) {number : Nat} (fits : number < 2 ^ 35) (offset : Nat)
    (rest : List UInt8) :
    (read strict).run ⟨offset, encode number ++ rest⟩ =
      .ok number ⟨offset + (encode number).length, rest⟩ :=
  run_readGroups_encodeGroups strict offset (Nat.le_refl _) fits (fun notFirst => absurd rfl notFirst)
    offset rest

/-- An integer that was written is read back from its shortest form. -/
theorem readUInt32_restores (strict : Bool) (order : ByteOrder) (number : UInt32) :
    (readUInt32 strict).Restores order (.uint32 number) number := by
  have bound := number.toNat_lt
  intro _ offset rest
  rw [Emission.uint32, Emission.render_bytes, readUInt32,
    Reader.run_bind_of_ok (Reader.run_position _),
    Reader.run_bind_of_ok (run_read_encode strict (by omega) offset rest)]
  have inRange : (strict && decide (UInt32.size ≤ number.toNat)) = false := by
    rw [decide_eq_false (Nat.not_le.mpr number.toNat_lt_size), Bool.and_false]
  simp only [inRange, Bool.false_eq_true, if_false, UInt32.ofNat_toNat]
  rfl

theorem readUInt32_retraced (strict : Bool) (order : ByteOrder) :
    (readUInt32 strict).Retraced .uint32 order strict := by
  intro before result after run
  rw [readUInt32] at run
  obtain ⟨start, middle, positionRun, run⟩ := Reader.run_bind_ok run
  cases positionRun
  obtain ⟨number, last, numberRun, run⟩ := Reader.run_bind_ok run
  obtain ⟨consumed, moved, short, same⟩ := covers_of_run_read numberRun
  split at run
  · cases run
  · rename_i inRange
    cases run
    refine ⟨rfl, consumed, moved, ?_, ?_⟩
    · have smaller : (UInt32.ofNat number).toNat ≤ number := by
        rw [UInt32.toNat_ofNat']
        exact Nat.mod_le _ _
      rw [Emission.uint32, Emission.render_bytes]
      exact Nat.le_trans (length_encodeGroups_mono maxGroups smaller) short
    · intro isStrict
      have fits : number < UInt32.size := by simpa [isStrict] using inRange
      rw [Emission.uint32, Emission.render_bytes, UInt32.toNat_ofNat_of_lt' fits]
      exact same isStrict

/-!
## Signs
-/

theorem signMagnitude_eq (number : Int32) :
    signMagnitude number = 2 * number.toInt.natAbs + (if number.toInt < 0 then 1 else 0) := by
  simp only [signMagnitude, Int32.lt_iff_toInt_lt, Int32.toInt_zero]

theorem signMagnitude_lt (number : Int32) : signMagnitude number < 2 ^ 35 := by
  have low := number.le_toInt
  have high := number.toInt_lt
  rw [signMagnitude_eq]
  split <;> omega

/-- A magnitude within the limit of its sign is kept as it is. -/
theorem toInt_ofSignMagnitude {number : Nat} (inRange : number / 2 ≤ magnitudeLimit number) :
    (ofSignMagnitude number).toInt =
      if number % 2 = 1 then -((number / 2 : Nat) : Int) else (number / 2 : Nat) := by
  unfold magnitudeLimit at inRange
  unfold ofSignMagnitude
  split at inRange
  · rw [if_pos ‹_›, if_pos ‹_›]
    exact Int32.toInt_ofInt_of_le (by omega) (by omega)
  · rw [if_neg ‹_›, if_neg ‹_›]
    exact Int32.toInt_ofInt_of_le (by omega) (by omega)

private theorem signMagnitude_ofSignMagnitude {number : Nat}
    (inRange : number / 2 ≤ magnitudeLimit number) (proper : number ≠ 1) :
    signMagnitude (ofSignMagnitude number) = number := by
  rw [signMagnitude_eq, toInt_ofSignMagnitude inRange]
  split <;> split <;> omega

private theorem inRange_signMagnitude (number : Int32) :
    signMagnitude number / 2 ≤ magnitudeLimit (signMagnitude number) ∧
      signMagnitude number ≠ 1 := by
  have low := number.le_toInt
  have high := number.toInt_lt
  rw [signMagnitude_eq]
  unfold magnitudeLimit
  constructor
  · split <;> split <;> omega
  · split <;> omega

private theorem ofSignMagnitude_signMagnitude (number : Int32) :
    ofSignMagnitude (signMagnitude number) = number := by
  apply Int32.toInt_inj.mp
  rw [toInt_ofSignMagnitude (inRange_signMagnitude number).1, signMagnitude_eq]
  split <;> split at * <;> omega

/-- Cutting a magnitude to 32 bits may set its sign, but only where five groups were read. -/
private theorem length_encode_signMagnitude_le (number : Nat) :
    (encode (signMagnitude (ofSignMagnitude number))).length ≤ (encode number).length := by
  by_cases large : 2 ^ 28 ≤ number
  · rw [length_encode_eq_maxGroups large]
    exact length_encodeGroups_le maxGroups _
  · apply length_encodeGroups_mono
    by_cases negativeZero : number = 1
    · rw [negativeZero]
      decide
    · have inRange : number / 2 ≤ magnitudeLimit number := by
        unfold magnitudeLimit
        split <;> omega
      exact Nat.le_of_eq (signMagnitude_ofSignMagnitude inRange negativeZero)

theorem readInt32_restores (strict : Bool) (order : ByteOrder) (number : Int32) :
    (readInt32 strict).Restores order (.int32 number) number := by
  obtain ⟨inRange, proper⟩ := inRange_signMagnitude number
  intro _ offset rest
  rw [Emission.int32, Emission.render_bytes, readInt32,
    Reader.run_bind_of_ok (Reader.run_position _),
    Reader.run_bind_of_ok (run_read_encode strict (signMagnitude_lt number) offset rest)]
  simp only [Nat.not_lt.mpr inRange, proper, decide_false, Bool.and_false, beq_eq_false_iff_ne.mpr,
    ne_eq, not_false_eq_true, Bool.false_eq_true, if_false, ofSignMagnitude_signMagnitude]
  rfl

theorem readInt32_retraced (strict : Bool) (order : ByteOrder) :
    (readInt32 strict).Retraced .int32 order strict := by
  intro before result after run
  rw [readInt32] at run
  obtain ⟨start, middle, positionRun, run⟩ := Reader.run_bind_ok run
  cases positionRun
  obtain ⟨number, last, numberRun, run⟩ := Reader.run_bind_ok run
  obtain ⟨consumed, moved, short, same⟩ := covers_of_run_read numberRun
  split at run
  · cases run
  · rename_i inRange
    split at run
    · cases run
    · rename_i proper
      cases run
      refine ⟨rfl, consumed, moved, ?_, ?_⟩
      · rw [Emission.int32, Emission.render_bytes]
        exact Nat.le_trans (length_encode_signMagnitude_le number) short
      · intro isStrict
        simp only [isStrict, Bool.true_and, decide_eq_true_eq, Nat.not_lt] at inRange
        simp only [isStrict, Bool.true_and, beq_iff_eq] at proper
        rw [Emission.int32, Emission.render_bytes, signMagnitude_ofSignMagnitude inRange proper]
        exact same isStrict

end BytecodeObject.Varint
