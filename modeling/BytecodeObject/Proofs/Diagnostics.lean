import BytecodeObject.Proofs.Decoding

/-!
# What faults tell of an input

A fault of decoding is a statement about the bytes that were decoded: an offset in it is the place of
the bytes it complains of, and a number in it was counted or declared in the input. The faults that
only writing has do not occur.
-/

set_option autoImplicit false

namespace BytecodeObject

/-- What a fault that ends the decoding of an input says of its bytes. -/
def Fault.Describes (options : Options) (input : List UInt8) : Fault → Prop
  | .unsupportedVersion found expected =>
      input.head? = some found ∧ expected = formatVersion ∧ found ≠ expected
  | .unexpectedEnd offset needed remaining =>
      offset + remaining = input.length ∧ remaining < needed
  | .unterminatedVarint offset =>
      (input.extract offset (offset + 5)).length = 5 ∧
        ∀ group ∈ input.extract offset (offset + 5), 128 ≤ group.toNat
  | .nonCanonicalVarint offset => ∃ count, 1 ≤ count ∧ count ≤ 4 ∧
      (∀ group ∈ input.extract offset (offset + count), 128 ≤ group.toNat) ∧
      input[offset + count]? = some 0
  | .varintOverflow offset =>
      (input.extract offset (offset + 5)).length = 5 ∧
        Varint.Terminated (input.extract offset (offset + 5)) ∧
        2 ^ 32 ≤ Varint.payload (input.extract offset (offset + 5))
  | .negativeZero offset => input[offset]? = some 1
  | .invalidTag offset byte => input[offset]? = some byte ∧ (byte = 0 ∨ 21 < byte)
  | .unsupportedTag tag => tag.isSupported = false
  | .atomOutOfRange index count => count ≤ index.toNat ∧
      ∃ declared next, AtomTable.Declares options.strict input declared next ∧
        count = Atom.builtinCount + declared.toNat
  | .reservedBits offset _ => ∃ flags, input[offset]? = some flags ∧ 128 ≤ flags.toNat
  | .bytecodeNotAllowed => options.allowBytecode = false
  | .depthLimitExceeded limit => limit = options.maxDepth
  | .trailingBytes offset remaining =>
      0 < remaining ∧ offset + remaining = input.length ∧
        ∃ stream, ObjectStream.decode options (input.take offset) = .ok stream
  | .lengthOverflow _ length =>
      ∃ declared next, AtomTable.Declares options.strict input declared next ∧
        length = declared.toNat ∧ AtomTable.maxDynamic < length
  | .atomMismatch _ | .debugFlagMismatch => False

/-!
## Places
-/

private theorem extract_of_place {input consumed groups rest : List UInt8} {count : Nat}
    (place : input = consumed ++ groups ++ rest) (length : groups.length = count) :
    input.extract consumed.length (consumed.length + count) = groups := by
  simp [List.extract_eq_take_drop, place, ← length]

private theorem getElem?_of_place {input consumed rest : List UInt8} {byte : UInt8}
    (place : input = consumed ++ byte :: rest) : input[consumed.length]? = some byte := by
  simp [place]

private theorem Tag.outside_of_ofByte?_eq_none {byte : UInt8} (unknown : ofByte? byte = none) :
    byte = 0 ∨ 21 < byte := by
  have known : ∀ number < 22, number = 0 ∨ ofByte? (.ofNat number) ≠ none := by decide
  by_cases small : byte.toNat < 22
  · rcases known byte.toNat small with zero | named
    · exact .inl (UInt8.toNat_inj.mp zero)
    · rw [UInt8.ofNat_toNat] at named
      exact absurd unknown named
  · have large : 21 < byte.toNat := by omega
    exact .inr (UInt8.lt_iff_toNat_lt.mpr large)

/-- A number of more than 32 bits is read from all the groups that there may be. -/
private theorem Varint.overflow_of_run_read {strict : Bool} {offset number : Nat} {rest : List UInt8}
    {after : Cursor} (run : (read strict).run ⟨offset, rest⟩ = .ok number after)
    (large : UInt32.size ≤ number) :
    ∃ groups unread, rest = groups ++ unread ∧ groups.length = maxGroups ∧ Terminated groups ∧
      UInt32.size ≤ payload groups := by
  obtain ⟨groups, moved, terminated, short, rfl, _⟩ := form_of_run_read run
  refine ⟨groups, after.rest, moved.rest, ?_, terminated, large⟩
  apply Nat.le_antisymm short
  apply Classical.byContradiction
  intro fewer
  have few : groups.length ≤ 4 := by
    unfold maxGroups at fewer
    omega
  have small : payload groups < UInt32.size :=
    calc payload groups < 128 ^ groups.length := payload_lt groups
      _ ≤ 128 ^ 4 := Nat.pow_le_pow_right (by decide) few
      _ ≤ UInt32.size := by decide
  exact Nat.not_le_of_lt small large

/-!
## Faults of the parts
-/

namespace Fault

variable {options : Options} {table : AtomTable} {input : List UInt8} {fault : Fault}

/-- The evidence for a fault is what the fault says of the input. -/
theorem OfField.describes (arisen : OfField options.strict input fault) :
    fault.Describes options input := by
  cases arisen with
  | unexpectedEnd place short => exact ⟨place, short⟩
  | @unterminatedVarint consumed groups rest place count continued =>
      have five : groups.length = 5 := count
      constructor
      · rw [extract_of_place place five, five]
      · rw [extract_of_place place five]
        exact continued
  | @nonCanonicalVarint consumed groups rest isStrict place padded count continued =>
      have ended := getElem?_of_place place
      rw [List.length_append] at ended
      refine ⟨groups.length, List.length_pos_iff.mpr padded, Nat.le_of_lt_succ count, ?_, ended⟩
      rw [extract_of_place place rfl]
      exact continued
  | varintOverflow isStrict place read large =>
      obtain ⟨groups, unread, rfl, count, terminated, exceeds⟩ :=
        Varint.overflow_of_run_read read large
      rw [← List.append_assoc] at place
      have five : groups.length = 5 := count
      refine ⟨?_, ?_, ?_⟩
      · rw [extract_of_place place five, five]
      · rw [extract_of_place place five]
        exact terminated
      · rw [extract_of_place place five]
        exact exceeds
  | negativeZero isStrict place => exact getElem?_of_place place

theorem OfHeader.describes (arisen : OfHeader options.strict input fault) :
    fault.Describes options input := by
  cases arisen with
  | field arisen => exact arisen.describes
  | unsupportedVersion place unknown =>
      rw [place]
      exact ⟨rfl, rfl, unknown⟩
  | @tooManyAtoms count overstated =>
      obtain ⟨rest, next, place, countRun, large⟩ := overstated
      exact ⟨count, next, ⟨rest, place, countRun⟩, rfl, large⟩

theorem OfValue.describes {after : Cursor}
    (listed : (AtomTable.read options.strict).run (.ofBytes input) = .ok table after)
    (arisen : OfValue options table input fault) : fault.Describes options input := by
  cases arisen with
  | field arisen => exact arisen.describes
  | reservedBits isStrict place high => exact ⟨_, getElem?_of_place place, high⟩
  | atomOutOfRange outside =>
      obtain ⟨count, next, declared, dynamicRun⟩ := AtomTable.declares_of_run_read_ok listed
      refine ⟨outside, count, next, declared, ?_⟩
      rw [AtomTable.size, Reader.length_of_run_times_ok dynamicRun]
  | invalidTag place unknown =>
      exact ⟨getElem?_of_place place, Tag.outside_of_ofByte?_eq_none unknown⟩
  | unsupportedTag unread => exact unread
  | bytecodeNotAllowed forbidden => exact forbidden
  | depthLimitExceeded => exact rfl

end Fault

/-!
## Faults of decoding
-/

namespace ObjectStream

variable {options : Options} {bytes : List UInt8} {stream : ObjectStream} {fault : Fault}

/-- What strict reading took of an input is a stream of its own. -/
private theorem decode_take_of_run_read_ok {after : Cursor} (strict : options.strict = true)
    (run : (read options).run (.ofBytes bytes) = .ok stream after) :
    decode options (bytes.take after.offset) = .ok stream := by
  -- The bytes that were read are those that would be written, and these are read by themselves.
  obtain ⟨inline, normal⟩ := normal_of_run_read_ok run
  obtain ⟨consumed, output, moved, encoded, _, same⟩ := encode_of_run_read_ok run
  have taken : bytes.take after.offset = output := by
    have whole : bytes = consumed ++ after.rest := moved.rest
    rw [whole, moved.offset_eq_length, List.take_left, same strict]
  rw [taken, decode_of_encode_ok inline encoded, normal]

/-- A fault of decoding describes the input: the bytes at its offset are those it complains of, and
what it counts was counted there. -/
theorem describes_of_decode_error (failed : decode options bytes = .error fault) :
    fault.Describes options bytes := by
  cases fault_of_decode_error failed with
  | header arisen => exact arisen.describes
  | value listed arisen => exact arisen.describes listed
  | @trailingBytes stream after isStrict run left =>
      obtain ⟨consumed, _, moved, _⟩ := encode_of_run_read_ok run
      have whole := congrArg List.length moved.rest
      rw [List.length_append, ← moved.offset_eq_length] at whole
      exact ⟨List.length_pos_iff.mpr left, whole.symm, stream, decode_take_of_run_read_ok isStrict run⟩

/-- A number of 33 bits inside a function inside a function, an atom one past the last of a table of
one, and bytes behind a nested stream. -/
theorem enclosed_faults_described :
    (decode {} (enclosed [5, 0x80, 0x80, 0x80, 0x80, 0x10]) = .error (.varintOverflow 29) ∧
      Varint.Terminated [0x80, 0x80, 0x80, 0x80, 0x10] ∧
      2 ^ 32 ≤ Varint.payload [0x80, 0x80, 0x80, 0x80, 0x10]) ∧
    (decode {} [1, 1, 2, 65, 14, 0, 0, 0, 0xA6, 0x03] = .error (.atomOutOfRange 211 211) ∧
      ∃ declared next, AtomTable.Declares true [1, 1, 2, 65, 14, 0, 0, 0, 0xA6, 0x03] declared next ∧
        211 = Atom.builtinCount + declared.toNat) ∧
    decode {} (nestedBytes ++ [9, 9]) = .error (.trailingBytes 66 2) ∧
      ∃ stream, decode {} ((nestedBytes ++ [9, 9]).take 66) = .ok stream := by
  have overflow : decode {} (enclosed [5, 0x80, 0x80, 0x80, 0x80, 0x10]) =
      .error (.varintOverflow 29) := rfl
  have outside : decode {} [1, 1, 2, 65, 14, 0, 0, 0, 0xA6, 0x03] =
      .error (.atomOutOfRange 211 211) := rfl
  have trailing : decode {} (nestedBytes ++ [9, 9]) = .error (.trailingBytes 66 2) :=
    decode_of_run_read_ok (run_read_nestedBytes true [9, 9])
  exact ⟨⟨overflow, (describes_of_decode_error overflow).2⟩,
    ⟨outside, (describes_of_decode_error outside).2⟩,
    trailing, (describes_of_decode_error trailing).2.2⟩

end ObjectStream

end BytecodeObject
