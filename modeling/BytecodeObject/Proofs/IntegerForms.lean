import Mathlib.Algebra.Group.Nat.Defs
import Mathlib.Algebra.GroupWithZero.Nat
import Mathlib.Data.Int.ModEq
import BytecodeObject.Proofs.Varint

/-!
# Which bytes are an integer

A number has forms of every length from its shortest on. The shortest one is written, and a strict reader
takes no other. A lenient reader takes every form of up to five groups: what the groups hold is reduced to
32 bits, and a signed integer keeps its value up to multiples of `2 ^ 32`, though not always its sign.
-/

set_option autoImplicit false

namespace BytecodeObject.Varint

/-!
## Forms and what they hold
-/

/-- No form begins another one. -/
theorem Terminated.eq_of_prefix {first second : List UInt8} (ended : Terminated first)
    (other : Terminated second) (begins : first <+: second) : first = second := by
  induction ended generalizing second with
  | last ends =>
      cases other with
      | last => simpa using begins
      | continued announces further =>
          obtain ⟨rfl, _⟩ := List.cons_prefix_cons.mp begins
          omega
  | continued announces further furtherIH =>
      cases other with
      | last ends =>
          obtain ⟨rfl, _⟩ := List.cons_prefix_cons.mp begins
          omega
      | continued _ otherFurther =>
          obtain ⟨rfl, later⟩ := List.cons_prefix_cons.mp begins
          rw [furtherIH otherFurther later]

/-- At one place of an input there is at most one form. -/
theorem Terminated.unique {first second bytes : List UInt8} (ended : Terminated first)
    (other : Terminated second) (starts : first <+: bytes) (begins : second <+: bytes) :
    first = second := by
  rcases List.prefix_or_prefix_of_prefix starts begins with before | behind
  · exact ended.eq_of_prefix other before
  · exact (other.eq_of_prefix ended behind).symm

/-- Padding is the only choice that a form leaves, so forms of one length differ in what they hold. -/
theorem Terminated.eq_of_payload_eq {first second : List UInt8} (ended : Terminated first)
    (other : Terminated second) (length : first.length = second.length)
    (same : payload first = payload second) : first = second := by
  induction ended generalizing second with
  | @last group ends =>
      cases other with
      | @last otherGroup otherEnds =>
          simp only [payload] at same
          have equal : group = otherGroup := UInt8.toNat_inj.mp (by omega)
          rw [equal]
      | continued _ further =>
          have positive := further.length_pos
          simp only [List.length_cons, List.length_nil] at length
          omega
  | @continued group groups announces further furtherIH =>
      cases other with
      | last ends =>
          have positive := further.length_pos
          simp only [List.length_cons, List.length_nil] at length
          omega
      | @continued otherGroup otherGroups otherAnnounces otherFurther =>
          have bound := group.toNat_lt
          have otherBound := otherGroup.toNat_lt
          simp only [payload] at same
          have equal : group = otherGroup := UInt8.toNat_inj.mp (by omega)
          have later := furtherIH otherFurther (Nat.succ.inj length) (by omega)
          rw [equal, later]

/-- Every group counts 128 times as much as the one before. -/
private theorem sum_groups_eq (groups : List UInt8) (weight : Nat) :
    (groups.mapIdx fun index group => group.toNat % 128 * (weight * 128 ^ index)).sum =
      weight * payload groups := by
  induction groups generalizing weight with
  | nil => simp [payload]
  | cons group groups groupsIH =>
      have shift : ∀ index, weight * 128 ^ (index + 1) = weight * 128 * 128 ^ index := by
        intro index
        rw [Nat.pow_succ', Nat.mul_assoc]
      rw [List.mapIdx_cons, List.sum_cons, payload]
      simp only [shift, groupsIH]
      rw [Nat.pow_zero, Nat.mul_one, Nat.mul_add, Nat.mul_comm _ weight, Nat.mul_assoc]

private theorem payload_eq_sum (groups : List UInt8) :
    payload groups = (groups.mapIdx fun index group => group.toNat % 128 * 128 ^ index).sum := by
  simpa only [Nat.one_mul] using (sum_groups_eq groups 1).symm

/-!
## The shortest form
-/

/-- The shortest of all the forms that hold a number. -/
structure Shortest (number : Nat) (groups : List UInt8) : Prop where
  terminated : Terminated groups
  payload_eq : payload groups = number
  least : ∀ other, Terminated other → payload other = number → groups.length ≤ other.length

/-- A number has one shortest form. -/
theorem Shortest.unique {number : Nat} {first second : List UInt8} (one : Shortest number first)
    (other : Shortest number second) : first = second := by
  have length : first.length = second.length :=
    Nat.le_antisymm (one.least second other.terminated other.payload_eq)
      (other.least first one.terminated one.payload_eq)
  exact one.terminated.eq_of_payload_eq other.terminated length
    (one.payload_eq.trans other.payload_eq.symm)

/-- What is written for a number is its shortest form. -/
theorem shortest_encode {number : Nat} (fits : number < 2 ^ 35) : Shortest number (encode number) := by
  -- What is written is read as the number, and what is read is a form.
  obtain ⟨groups, moved, terminated, _, holds, _⟩ :=
    form_of_run_read (run_read_encode false fits 0 [])
  have same : encode number = groups := by simpa using moved.rest
  rw [← same] at terminated holds
  refine ⟨terminated, holds, ?_⟩
  rintro other ended rfl
  exact length_encodeGroups_payload_le ended maxGroups

theorem eq_encode_iff_shortest {number : Nat} {groups : List UInt8} (fits : number < 2 ^ 35) :
    groups = encode number ↔ Shortest number groups := by
  constructor
  · rintro rfl
    exact shortest_encode fits
  · intro shortest
    exact shortest.unique (shortest_encode fits)

theorem eq_render_uint32_iff (order : ByteOrder) (number : UInt32) (groups : List UInt8) :
    groups = (Emission.uint32 number).render order ↔ Shortest number.toNat groups := by
  have bound := number.toNat_lt
  rw [Emission.uint32, Emission.render_bytes]
  exact eq_encode_iff_shortest (by omega)

theorem eq_render_int32_iff (order : ByteOrder) (number : Int32) (groups : List UInt8) :
    groups = (Emission.int32 number).render order ↔ Shortest (signMagnitude number) groups := by
  rw [Emission.int32, Emission.render_bytes]
  exact eq_encode_iff_shortest (signMagnitude_lt number)

/-!
## Reading groups
-/

private theorem run_readGroups_of_terminated {groups : List UInt8} (terminated : Terminated groups)
    {limit : Nat} (short : groups.length ≤ limit) (start offset : Nat) (rest : List UInt8) :
    (readGroups false start limit).run ⟨offset, groups ++ rest⟩ =
      .ok (payload groups) ⟨offset + groups.length, rest⟩ := by
  induction terminated generalizing limit offset with
  | @last group ends =>
      obtain ⟨limit, rfl⟩ := Nat.exists_eq_add_one_of_ne_zero (Nat.ne_zero_of_lt short)
      rw [readGroups, List.singleton_append, Reader.run_bind_of_ok (Reader.run_byte_cons _ _ _),
        if_pos ends]
      simp [payload, Nat.mod_eq_of_lt ends, EStateM.run_pure]
  | @continued group groups announces further furtherIH =>
      obtain ⟨limit, rfl⟩ := Nat.exists_eq_add_one_of_ne_zero (Nat.ne_zero_of_lt short)
      have higher := furtherIH (Nat.le_of_succ_le_succ short) (offset + 1)
      rw [readGroups, List.cons_append, Reader.run_bind_of_ok (Reader.run_byte_cons _ _ _),
        if_neg (Nat.not_lt.mpr announces), Reader.run_bind_of_ok higher, payload, List.length_cons,
        Nat.add_assoc, Nat.add_comm 1]
      rfl

/-- Where all groups announce another, the limit ends the reading unless the input has ended before. -/
private theorem run_readGroups_of_endless (strict : Bool) (start : Nat) {limit : Nat} {rest : List UInt8}
    (endless : ∀ group ∈ rest.take limit, 128 ≤ group.toNat) (offset : Nat) :
    (readGroups strict start limit).run ⟨offset, rest⟩ =
      if limit ≤ rest.length then .error (.unterminatedVarint start) ⟨offset + limit, rest.drop limit⟩
      else .error (.unexpectedEnd (offset + rest.length) 1 0) ⟨offset + rest.length, []⟩ := by
  induction limit generalizing rest offset with
  | zero => rfl
  | succ limit limitIH =>
      cases rest with
      | nil => rfl
      | cons group rest =>
          rw [List.take_succ_cons, List.forall_mem_cons] at endless
          obtain ⟨announces, later⟩ := endless
          have higher := limitIH later (offset + 1)
          have atLimit : offset + (limit + 1) = offset + 1 + limit := by omega
          have atEnd : offset + (rest.length + 1) = offset + 1 + rest.length := by omega
          rw [readGroups, Reader.run_bind_of_ok (Reader.run_byte_cons _ _ _),
            if_neg (Nat.not_lt.mpr announces)]
          simp only [List.length_cons, Nat.succ_le_succ_iff, List.drop_succ_cons, atLimit, atEnd]
          by_cases enough : limit ≤ rest.length
          · rw [if_pos enough] at higher ⊢
            exact Reader.run_bind_of_error higher
          · rw [if_neg enough] at higher ⊢
            exact Reader.run_bind_of_error higher

private theorem run_read_of_endless (strict : Bool) (offset : Nat) {rest : List UInt8}
    (endless : ∀ group ∈ rest.take maxGroups, 128 ≤ group.toNat) :
    (read strict).run ⟨offset, rest⟩ =
      if maxGroups ≤ rest.length then
        .error (.unterminatedVarint offset) ⟨offset + maxGroups, rest.drop maxGroups⟩
      else
        .error (.unexpectedEnd (offset + rest.length) 1 0) ⟨offset + rest.length, []⟩ :=
  run_readGroups_of_endless strict offset endless offset

section Runs

variable {strict : Bool} {before after : Cursor} {fault : Fault}

private theorem run_readUInt32_of_error (failed : (read strict).run before = .error fault after) :
    (readUInt32 strict).run before = .error fault after := by
  rw [readUInt32, Reader.run_bind_of_ok (Reader.run_position _)]
  exact Reader.run_bind_of_error failed

private theorem run_readInt32_of_error (failed : (read strict).run before = .error fault after) :
    (readInt32 strict).run before = .error fault after := by
  rw [readInt32, Reader.run_bind_of_ok (Reader.run_position _)]
  exact Reader.run_bind_of_error failed

/-- A reader that takes one form for each result fails on every form besides these. -/
private theorem exists_error_of_terminated {α : Type} {reader : Reader α} {form : α → List UInt8}
    (accepts : ∀ {result after}, reader.run before = .ok result after →
      before.Advances (form result) after)
    (terminated : ∀ result, Terminated (form result)) {groups : List UInt8}
    (starts : groups <+: before.rest) (ended : Terminated groups)
    (foreign : ∀ result, form result ≠ groups) :
    ∃ fault after, reader.run before = .error fault after := by
  cases run : reader.run before with
  | error fault after => exact ⟨fault, after, rfl⟩
  | ok result after =>
      -- The result's own form stands here, and bytes start with one form at most.
      have begins : form result <+: before.rest := ⟨after.rest, (accepts run).rest.symm⟩
      exact absurd ((terminated result).unique ended begins starts) (foreign result)

end Runs

/-!
## Strict readers
-/

/-- A strict reader accepts exactly what a writer writes. -/
theorem run_readUInt32_eq_ok_iff {order : ByteOrder} {before after : Cursor} {number : UInt32} :
    (readUInt32 true).run before = .ok number after ↔
      before.Advances ((Emission.uint32 number).render order) after :=
  Reader.Retraced.run_eq_ok_iff (readUInt32_retraced true order) (readUInt32_restores true order)
    fun _ => rfl

theorem run_readInt32_eq_ok_iff {order : ByteOrder} {before after : Cursor} {number : Int32} :
    (readInt32 true).run before = .ok number after ↔
      before.Advances ((Emission.int32 number).render order) after :=
  Reader.Retraced.run_eq_ok_iff (readInt32_retraced true order) (readInt32_restores true order)
    fun _ => rfl

/-- An unsigned integer is read strictly from the bytes that are written for it and from no others,
whatever follows them. They are its shortest form. Longer forms, forms of numbers beyond 32 bits and bytes
in which no form ends are refused. -/
theorem run_readUInt32_strict_iff (order : ByteOrder) (before : Cursor) :
    (∀ number after, (readUInt32 true).run before = .ok number after ↔
      before.Advances ((Emission.uint32 number).render order) after) ∧
    (∀ number groups, groups = (Emission.uint32 number).render order ↔
      Shortest number.toNat groups) ∧
    (∀ number, 1 ≤ ((Emission.uint32 number).render order).length ∧
      ((Emission.uint32 number).render order).length ≤ maxGroups) ∧
    (∀ groups, groups <+: before.rest → Terminated groups →
      ¬ Shortest (payload groups) groups ∨ 2 ^ 32 ≤ payload groups →
        ∃ fault after, (readUInt32 true).run before = .error fault after) ∧
    ((∀ group ∈ before.rest.take maxGroups, 128 ≤ group.toNat) →
      ∃ fault after, (readUInt32 true).run before = .error fault after) := by
  have form : ∀ number, Shortest number.toNat ((Emission.uint32 number).render order) :=
    fun number => (eq_render_uint32_iff order number _).mp rfl
  refine ⟨fun number after => run_readUInt32_eq_ok_iff, eq_render_uint32_iff order,
    fun number => ⟨(form number).terminated.length_pos, ?_⟩, ?_, ?_⟩
  · rw [Emission.uint32, Emission.render_bytes]
    exact length_encodeGroups_le maxGroups _
  · intro groups starts ended refused
    apply exists_error_of_terminated run_readUInt32_eq_ok_iff.mp
      (fun number => (form number).terminated) starts ended
    rintro number rfl
    have holds := (form number).payload_eq
    rcases refused with longer | large
    · rw [holds] at longer
      exact longer (form number)
    · have bound := number.toNat_lt
      omega
  · intro endless
    have failed := run_read_of_endless true before.offset endless
    split at failed
    · exact ⟨_, _, run_readUInt32_of_error failed⟩
    · exact ⟨_, _, run_readUInt32_of_error failed⟩

/-- The greatest number in front of a group that is not its own, one in two groups, the number one past the
greatest, and five groups that all announce another. -/
theorem uint32_forms_at_limits :
    (readUInt32 true).run ⟨7, [0xFF, 0xFF, 0xFF, 0xFF, 0x0F, 0x80]⟩ =
      .ok 0xFFFFFFFF ⟨12, [0x80]⟩ ∧
    (Terminated [0x81, 0x00] ∧ ¬ Shortest (payload [0x81, 0x00]) [0x81, 0x00] ∧
      ∃ fault after, (readUInt32 true).run ⟨7, [0x81, 0x00, 0x80]⟩ = .error fault after) ∧
    (Terminated [0x80, 0x80, 0x80, 0x80, 0x10] ∧
      2 ^ 32 ≤ payload [0x80, 0x80, 0x80, 0x80, 0x10] ∧
      ∃ fault after, (readUInt32 true).run ⟨7, [0x80, 0x80, 0x80, 0x80, 0x10]⟩ =
        .error fault after) ∧
    ((∀ group ∈ [0x80, 0x80, 0x80, 0x80, 0x80, 0x00].take maxGroups, 128 ≤ (group : UInt8).toNat) ∧
      ∃ fault after, (readUInt32 true).run ⟨7, [0x80, 0x80, 0x80, 0x80, 0x80, 0x00]⟩ =
        .error fault after) := by
  have two : Terminated [0x81, 0x00] := .continued (by decide) (.last (by decide))
  have longer : ¬ Shortest (payload [0x81, 0x00]) [0x81, 0x00] := fun shortest =>
    absurd (shortest.least [0x01] (.last (by decide)) rfl) (by decide)
  have five : Terminated [0x80, 0x80, 0x80, 0x80, 0x10] :=
    .continued (by decide) (.continued (by decide) (.continued (by decide)
      (.continued (by decide) (.last (by decide)))))
  have large : 2 ^ 32 ≤ payload [0x80, 0x80, 0x80, 0x80, 0x10] := by decide
  have endless : ∀ group ∈ [0x80, 0x80, 0x80, 0x80, 0x80, 0x00].take maxGroups,
      128 ≤ (group : UInt8).toNat := by simp [maxGroups]
  refine ⟨?_, ⟨two, longer, ?_⟩, ⟨five, large, ?_⟩, endless, ?_⟩
  · exact ((run_readUInt32_strict_iff .big _).1 _ _).mpr ⟨rfl, rfl⟩
  · exact (run_readUInt32_strict_iff .big _).2.2.2.1 _ ⟨[0x80], rfl⟩ two (.inl longer)
  · exact (run_readUInt32_strict_iff .big _).2.2.2.1 _ ⟨[], rfl⟩ five (.inr large)
  · exact (run_readUInt32_strict_iff .big _).2.2.2.2 endless

/-- A signed integer is read strictly from the bytes that are written for it and from no others, whatever
follows them. They are the shortest form of its magnitude and its sign: the least integer takes 33 bits,
while zero with the sign set and all that is out of range by its sign are refused. -/
theorem run_readInt32_strict_iff (order : ByteOrder) (before : Cursor) :
    (∀ number after, (readInt32 true).run before = .ok number after ↔
      before.Advances ((Emission.int32 number).render order) after) ∧
    (∀ number groups, groups = (Emission.int32 number).render order ↔
      Shortest (signMagnitude number) groups) ∧
    signMagnitude Int32.minValue = 2 * 2 ^ 31 + 1 ∧
    (∀ groups, groups <+: before.rest → Terminated groups →
      payload groups = 2 * 0 + 1 ∨ payload groups = 2 * 2 ^ 31 ∨ 2 * 2 ^ 31 + 1 < payload groups →
        ∃ fault after, (readInt32 true).run before = .error fault after) := by
  have form : ∀ number, Shortest (signMagnitude number) ((Emission.int32 number).render order) :=
    fun number => (eq_render_int32_iff order number _).mp rfl
  refine ⟨fun number after => run_readInt32_eq_ok_iff, eq_render_int32_iff order, rfl, ?_⟩
  intro groups starts ended refused
  apply exists_error_of_terminated run_readInt32_eq_ok_iff.mp
    (fun number => (form number).terminated) starts ended
  rintro number rfl
  have low := number.le_toInt
  have high := number.toInt_lt
  have holds := (form number).payload_eq
  rw [holds, signMagnitude_eq] at refused
  split at refused <;> omega

/-- The least integer in front of a group that is not its own. The form of the same magnitude without the
sign, that of the next one with it, and zero with the sign set. -/
theorem int32_forms_at_limits :
    (readInt32 true).run ⟨7, [0x81, 0x80, 0x80, 0x80, 0x10, 0x80]⟩ =
      .ok Int32.minValue ⟨12, [0x80]⟩ ∧
    (Terminated [0x80, 0x80, 0x80, 0x80, 0x10] ∧
      payload [0x80, 0x80, 0x80, 0x80, 0x10] = 2 * 2 ^ 31 ∧
      ∃ fault after, (readInt32 true).run ⟨7, [0x80, 0x80, 0x80, 0x80, 0x10]⟩ =
        .error fault after) ∧
    (Terminated [0x83, 0x80, 0x80, 0x80, 0x10] ∧
      2 * 2 ^ 31 + 1 < payload [0x83, 0x80, 0x80, 0x80, 0x10] ∧
      ∃ fault after, (readInt32 true).run ⟨7, [0x83, 0x80, 0x80, 0x80, 0x10]⟩ =
        .error fault after) ∧
    Terminated [0x01] ∧ payload [0x01] = 2 * 0 + 1 ∧
      ∃ fault after, (readInt32 true).run ⟨7, [0x01, 0x80]⟩ = .error fault after := by
  have five : ∀ low : UInt8, 128 ≤ low.toNat → Terminated [low, 0x80, 0x80, 0x80, 0x10] :=
    fun low announces => .continued announces (.continued (by decide) (.continued (by decide)
      (.continued (by decide) (.last (by decide)))))
  have unsigned := five 0x80 (by decide)
  have signed := five 0x83 (by decide)
  have single : Terminated [0x01] := .last (by decide)
  have positive : payload [0x80, 0x80, 0x80, 0x80, 0x10] = 2 * 2 ^ 31 := by decide
  have beyond : 2 * 2 ^ 31 + 1 < payload [0x83, 0x80, 0x80, 0x80, 0x10] := by decide
  refine ⟨?_, ⟨unsigned, positive, ?_⟩, ⟨signed, beyond, ?_⟩, single, rfl, ?_⟩
  · exact ((run_readInt32_strict_iff .big _).1 _ _).mpr ⟨rfl, rfl⟩
  · exact (run_readInt32_strict_iff .big _).2.2.2 _ ⟨[], rfl⟩ unsigned (.inr (.inl positive))
  · exact (run_readInt32_strict_iff .big _).2.2.2 _ ⟨[], rfl⟩ signed (.inr (.inr beyond))
  · exact (run_readInt32_strict_iff .big _).2.2.2 _ ⟨[0x80], rfl⟩ single (.inl rfl)

/-!
## Lenient readers
-/

private theorem eq_of_toInt_modEq {first second : Int32} (same : first.toInt ≡ second.toInt [ZMOD 2 ^ 32]) :
    first = second := by
  have low := first.le_toInt
  have high := first.toInt_lt
  have otherLow := second.le_toInt
  have otherHigh := second.toInt_lt
  unfold Int.ModEq at same
  exact Int32.toInt_inj.mp (by omega)

private theorem toInt_ofSignMagnitude_modEq (number : Nat) :
    (ofSignMagnitude number).toInt ≡
      (if number % 2 = 0 then ((number / 2 : Nat) : Int) else -((number / 2 : Nat) : Int))
        [ZMOD 2 ^ 32] := by
  have wrapped : ∀ whole : Int, (Int32.ofInt whole).toInt ≡ whole [ZMOD 2 ^ 32] := by
    intro whole
    rw [Int32.toInt_ofInt]
    exact Int.bmod_emod
  unfold ofSignMagnitude
  rcases Nat.mod_two_eq_zero_or_one number with even | odd
  · rw [if_neg (by omega), if_pos even]
    exact wrapped _
  · rw [if_pos odd, if_neg (by omega)]
    exact wrapped _

private theorem terminated_take_of_findIdx? {bytes : List UInt8} {last : Nat}
    (found : bytes.findIdx? (· < 0x80) = some last) : Terminated (bytes.take (last + 1)) := by
  induction bytes generalizing last with
  | nil => cases found
  | cons byte bytes bytesIH =>
      rw [List.findIdx?_cons] at found
      split at found
      · rename_i ends
        cases found
        exact .last (UInt8.lt_iff_toNat_lt.mp (of_decide_eq_true ends))
      · rename_i announces
        obtain ⟨last, further, rfl⟩ := Option.map_eq_some_iff.mp found
        refine .continued ?_ (bytesIH further)
        rw [decide_eq_true_eq, UInt8.lt_iff_toNat_lt] at announces
        exact Nat.le_of_not_lt announces

private theorem endless_of_findIdx? {bytes : List UInt8} (missing : bytes.findIdx? (· < 0x80) = none) :
    ∀ group ∈ bytes, 128 ≤ group.toNat := by
  intro group member
  have announces := List.findIdx?_eq_none_iff.mp missing group member
  rw [decide_eq_false_iff_not, UInt8.lt_iff_toNat_lt] at announces
  exact Nat.le_of_not_lt announces

/-- What lies between two cursors is read by both lenient readers as `held`, reduced to 32 bits. In a
signed integer the last bit is the sign and those before it are the magnitude. -/
structure ReadModulo (held : Nat) (before after : Cursor) : Prop where
  unsigned : ∃ number, (readUInt32 false).run before = .ok number after ∧ number.toNat = held % 2 ^ 32
  signed : ∃ number, (readInt32 false).run before = .ok number after ∧
    ∀ other : Int32, other = number ↔
      other.toInt ≡ (if held % 2 = 0 then ((held / 2 : Nat) : Int) else -((held / 2 : Nat) : Int))
        [ZMOD 2 ^ 32]

structure RefusedWith (fault : Fault) (before after : Cursor) : Prop where
  unsigned : (readUInt32 false).run before = .error fault after
  signed : (readInt32 false).run before = .error fault after

private theorem readModulo_of_run_read {before after : Cursor} {held : Nat}
    (run : (read false).run before = .ok held after) : ReadModulo held before after where
  unsigned := by
    refine ⟨UInt32.ofNat held, ?_, UInt32.toNat_ofNat'⟩
    rw [readUInt32, Reader.run_bind_of_ok (Reader.run_position _), Reader.run_bind_of_ok run]
    rfl
  signed := by
    have congruent := toInt_ofSignMagnitude_modEq held
    refine ⟨ofSignMagnitude held, ?_, fun other => ⟨?_, fun same => ?_⟩⟩
    · rw [readInt32, Reader.run_bind_of_ok (Reader.run_position _), Reader.run_bind_of_ok run]
      rfl
    · rintro rfl
      exact congruent
    · exact eq_of_toInt_modEq (same.trans congruent.symm)

private theorem refusedWith_of_run_read {fault : Fault} {before after : Cursor}
    (failed : (read false).run before = .error fault after) : RefusedWith fault before after :=
  ⟨run_readUInt32_of_error failed, run_readInt32_of_error failed⟩

/-- Lenient readers go up to the first of five bytes that announces no other, and take what the bytes up
to it hold. Where none does, they name the place that they started from if all five are there, and the end
of the input if not. -/
theorem lenient_reads_modulo (offset : Nat) (rest : List UInt8) :
    (∀ last, (rest.take maxGroups).findIdx? (· < 0x80) = some last →
      ReadModulo ((rest.take (last + 1)).mapIdx fun index byte => byte.toNat % 128 * 128 ^ index).sum
        ⟨offset, rest⟩ ⟨offset + (last + 1), rest.drop (last + 1)⟩) ∧
    ((rest.take maxGroups).findIdx? (· < 0x80) = none →
      (maxGroups ≤ rest.length →
        RefusedWith (.unterminatedVarint offset) ⟨offset, rest⟩
          ⟨offset + maxGroups, rest.drop maxGroups⟩) ∧
      (rest.length < maxGroups →
        RefusedWith (.unexpectedEnd (offset + rest.length) 1 0) ⟨offset, rest⟩
          ⟨offset + rest.length, []⟩)) := by
  constructor
  · intro last found
    obtain ⟨inside, _⟩ := List.findIdx?_eq_some_iff_getElem.mp found
    rw [List.length_take] at inside
    have terminated := terminated_take_of_findIdx? found
    rw [List.take_take, Nat.min_eq_left (by omega)] at terminated
    have length : (rest.take (last + 1)).length = last + 1 := by
      rw [List.length_take]
      omega
    have short : (rest.take (last + 1)).length ≤ maxGroups := by omega
    have run := run_readGroups_of_terminated terminated short offset offset (rest.drop (last + 1))
    rw [List.take_append_drop, length] at run
    rw [← payload_eq_sum]
    exact readModulo_of_run_read run
  · intro missing
    have run := run_read_of_endless false offset (endless_of_findIdx? missing)
    constructor
    · intro enough
      rw [if_pos enough] at run
      exact refusedWith_of_run_read run
    · intro fewer
      rw [if_neg (Nat.not_le_of_lt fewer)] at run
      exact refusedWith_of_run_read run

/-- Five groups that hold 35 bits, five that announce a sixth, and two that announce a third where the
input has ended. -/
theorem wide_forms_read_modulo :
    ((([0x83, 0x80, 0x80, 0x80, 0x70, 0x01] : List UInt8).take maxGroups).findIdx? (· < 0x80) =
        some 4 ∧
      ReadModulo (7 * 2 ^ 32 + 3) ⟨9, [0x83, 0x80, 0x80, 0x80, 0x70, 0x01]⟩ ⟨14, [0x01]⟩) ∧
    ((([0x80, 0x80, 0x80, 0x80, 0x80, 0x00] : List UInt8).take maxGroups).findIdx? (· < 0x80) =
        none ∧
      RefusedWith (.unterminatedVarint 9) ⟨9, [0x80, 0x80, 0x80, 0x80, 0x80, 0x00]⟩ ⟨14, [0x00]⟩) ∧
    (([0x80, 0x80] : List UInt8).take maxGroups).findIdx? (· < 0x80) = none ∧
      RefusedWith (.unexpectedEnd 11 1 0) ⟨9, [0x80, 0x80]⟩ ⟨11, []⟩ := by
  refine ⟨⟨rfl, ?_⟩, ⟨rfl, ?_⟩, rfl, ?_⟩
  · exact (lenient_reads_modulo 9 [0x83, 0x80, 0x80, 0x80, 0x70, 0x01]).1 4 rfl
  · exact ((lenient_reads_modulo 9 [0x80, 0x80, 0x80, 0x80, 0x80, 0x00]).2 rfl).1 (by decide)
  · exact ((lenient_reads_modulo 9 [0x80, 0x80]).2 rfl).2 (by decide)

/-- A positive magnitude of `2 ^ 31` comes back negative. -/
example : (readInt32 false).run (.ofBytes [0x80, 0x80, 0x80, 0x80, 0x10]) =
    .ok Int32.minValue ⟨5, []⟩ := by
  rfl

end BytecodeObject.Varint
