import BytecodeObject.Proofs.Stream

/-!
# Faults of reading

Which faults can end the reading of a stream, and what each of them says of the input. A fault that
names an offset tells the truth about the bytes there; one that comes from a strict check arises in
strict reading only. The header alone can end in a fault that writing has too: where it declares more
atoms than a table may list.
-/

set_option autoImplicit false

namespace BytecodeObject

/-!
## Places in an input
-/

def Cursor.Within (cursor : Cursor) (input : List UInt8) : Prop :=
  ∃ consumed, (ofBytes input).Advances consumed cursor

namespace Cursor.Within

variable {input : List UInt8} {before after : Cursor}

theorem start (input : List UInt8) : (ofBytes input).Within input :=
  ⟨[], .refl _⟩

theorem advance {consumed : List UInt8} (within : before.Within input)
    (moved : before.Advances consumed after) : after.Within input := by
  obtain ⟨earlier, reached⟩ := within
  exact ⟨earlier ++ consumed, reached.trans moved⟩

theorem split (within : before.Within input) :
    ∃ consumed, input = consumed ++ before.rest ∧ before.offset = consumed.length := by
  obtain ⟨consumed, reached⟩ := within
  exact ⟨consumed, reached.rest, reached.offset_eq_length⟩

end Cursor.Within

/-!
## What a fault says
-/

namespace Fault

/-- The faults of reading integers, texts and fields. Offsets are given by the bytes before them. -/
inductive OfField (strict : Bool) (input : List UInt8) : Fault → Prop where
  | unexpectedEnd {offset needed remaining : Nat} (place : offset + remaining = input.length)
      (short : remaining < needed) :
      OfField strict input (.unexpectedEnd offset needed remaining)
  | unterminatedVarint {consumed groups rest : List UInt8}
      (place : input = consumed ++ groups ++ rest) (count : groups.length = Varint.maxGroups)
      (continued : ∀ group ∈ groups, 128 ≤ group.toNat) :
      OfField strict input (.unterminatedVarint consumed.length)
  | nonCanonicalVarint {consumed groups rest : List UInt8} (isStrict : strict = true)
      (place : input = consumed ++ groups ++ 0 :: rest) (padded : groups ≠ [])
      (count : groups.length < Varint.maxGroups)
      (continued : ∀ group ∈ groups, 128 ≤ group.toNat) :
      OfField strict input (.nonCanonicalVarint consumed.length)
  | varintOverflow {consumed rest : List UInt8} {number : Nat} {after : Cursor}
      (isStrict : strict = true) (place : input = consumed ++ rest)
      (read : (Varint.read strict).run ⟨consumed.length, rest⟩ = .ok number after)
      (large : UInt32.size ≤ number) :
      OfField strict input (.varintOverflow consumed.length)
  | negativeZero {consumed rest : List UInt8} (isStrict : strict = true)
      (place : input = consumed ++ 1 :: rest) :
      OfField strict input (.negativeZero consumed.length)

inductive OfValue (options : Options) (table : AtomTable) (input : List UInt8) : Fault → Prop where
  | field {fault : Fault} (arisen : OfField options.strict input fault) :
      OfValue options table input fault
  | reservedBits {consumed rest : List UInt8} {flags : UInt8} (isStrict : options.strict = true)
      (place : input = consumed ++ flags :: rest) (high : 128 ≤ flags.toNat) :
      OfValue options table input (.reservedBits consumed.length "var def")
  | atomOutOfRange {index : UInt32} (outside : table.size ≤ index.toNat) :
      OfValue options table input (.atomOutOfRange index table.size)
  | invalidTag {consumed rest : List UInt8} {byte : UInt8}
      (place : input = consumed ++ byte :: rest) (unknown : Tag.ofByte? byte = none) :
      OfValue options table input (.invalidTag consumed.length byte)
  | unsupportedTag {tag : Tag} (unread : tag.isSupported = false) :
      OfValue options table input (.unsupportedTag tag)
  | bytecodeNotAllowed (forbidden : options.allowBytecode = false) :
      OfValue options table input .bytecodeNotAllowed
  | depthLimitExceeded : OfValue options table input (.depthLimitExceeded options.maxDepth)

end Fault

/-- An input starts with a header that declares more atoms than a table may list. -/
def AtomTable.Overstates (strict : Bool) (input : List UInt8) (count : UInt32) : Prop :=
  ∃ rest after, input = formatVersion :: rest ∧
    (Varint.readUInt32 strict).run ⟨1, rest⟩ = .ok count after ∧ maxDynamic < count.toNat

namespace Fault

inductive OfHeader (strict : Bool) (input : List UInt8) : Fault → Prop where
  | field {fault : Fault} (arisen : OfField strict input fault) : OfHeader strict input fault
  | unsupportedVersion {version : UInt8} {rest : List UInt8} (place : input = version :: rest)
      (unknown : version ≠ formatVersion) :
      OfHeader strict input (.unsupportedVersion version formatVersion)
  | tooManyAtoms {count : UInt32} (overstated : AtomTable.Overstates strict input count) :
      OfHeader strict input (.lengthOverflow "atom table" count.toNat)

inductive OfStream (options : Options) (input : List UInt8) : Fault → Prop where
  | header {fault : Fault} (arisen : OfHeader options.strict input fault) :
      OfStream options input fault
  | value {fault : Fault} {table : AtomTable} {after : Cursor}
      (listed : (AtomTable.read options.strict).run (.ofBytes input) = .ok table after)
      (arisen : OfValue options table input fault) : OfStream options input fault
  | trailingBytes {stream : ObjectStream} {after : Cursor} (isStrict : options.strict = true)
      (read : (ObjectStream.read options).run (.ofBytes input) = .ok stream after)
      (left : after.rest ≠ []) :
      OfStream options input (.trailingBytes after.offset after.rest.length)

end Fault

/-!
## Readers that end in certain faults
-/

namespace Reader

/-- From every place of an input a reader ends at a place of the same input, or in one of the given
faults. -/
structure EndsIn {α : Type} (reader : Reader α) (input : List UInt8) (faults : Fault → Prop) :
    Prop where
  stays : ∀ ⦃before after result⦄, before.Within input → reader.run before = .ok result after →
    after.Within input
  fault : ∀ ⦃before after fault⦄, before.Within input → reader.run before = .error fault after →
    faults fault

variable {α β : Type} {input : List UInt8} {faults : Fault → Prop}

namespace EndsIn

theorem mono {reader : Reader α} {others : Fault → Prop} (ends : reader.EndsIn input faults)
    (included : ∀ {fault}, faults fault → others fault) : reader.EndsIn input others where
  stays := ends.stays
  fault := fun _ _ _ within run => included (ends.fault within run)

theorem pure (result : α) : (Pure.pure result : Reader α).EndsIn input faults where
  stays := by
    intro before after value within run
    cases run
    exact within
  fault := by
    intro before after fault _ run
    cases run

theorem fail {fault : Fault} (given : faults fault) :
    (Reader.fail fault : Reader α).EndsIn input faults where
  stays := by
    intro before after result _ run
    cases run
  fault := by
    intro before after ended _ run
    cases run
    exact given

/-- A reader that goes on ends in the faults of both parts. -/
theorem bind {first : Reader α} {next : α → Reader β} (start : first.EndsIn input faults)
    (continued : ∀ value, (next value).EndsIn input faults) :
    (first >>= next).EndsIn input faults where
  stays := by
    intro before after result within run
    obtain ⟨value, middle, ran, run⟩ := run_bind_ok run
    exact (continued value).stays (start.stays within ran) run
  fault := by
    intro before after fault within run
    rcases run_bind_error run with failed | ⟨value, middle, ran, failed⟩
    · exact start.fault within failed
    · exact (continued value).fault (start.stays within ran) failed

theorem map {reader : Reader α} (view : α → β) (ends : reader.EndsIn input faults) :
    (view <$> reader).EndsIn input faults := by
  rw [map_eq_pure_bind]
  exact ends.bind fun value => .pure (view value)

theorem times {reader : Reader α} (ends : reader.EndsIn input faults) (count : Nat) :
    (Reader.times count reader).EndsIn input faults := by
  induction count with
  | zero => exact .pure []
  | succ count countIH =>
      rw [times_succ]
      exact ends.bind fun first => countIH.bind fun later => .pure (first :: later)

/-- What is read next may name the place in the input at which the first part begins. -/
theorem bind_at {first : Reader α} {next : Nat → α → Reader β} (start : first.EndsIn input faults)
    (continued : ∀ {consumed rest value middle}, input = consumed ++ rest →
      first.run ⟨consumed.length, rest⟩ = .ok value middle →
      (next consumed.length value).EndsIn input faults) :
    (position >>= fun offset => first >>= next offset).EndsIn input faults where
  stays := by
    intro before after result within run
    obtain ⟨consumed, place, offset⟩ := within.split
    obtain ⟨place', rest⟩ := before
    cases offset
    rw [run_bind_of_ok (run_position _)] at run
    obtain ⟨value, middle, ran, run⟩ := run_bind_ok run
    exact (continued place ran).stays (start.stays within ran) run
  fault := by
    intro before after fault within run
    -- Cut where the value is read, the input gives the place that what is read next may name.
    obtain ⟨consumed, place, offset⟩ := within.split
    obtain ⟨place', rest⟩ := before
    cases offset
    rw [run_bind_of_ok (run_position _)] at run
    rcases run_bind_error run with failed | ⟨value, middle, ran, failed⟩
    · exact start.fault within failed
    · exact (continued place ran).fault (start.stays within ran) failed

end EndsIn

variable {strict : Bool}

theorem byte_endsIn : byte.EndsIn input (Fault.OfField strict input) where
  stays := by
    intro before after result within run
    exact within.advance (advances_of_run_byte_ok run)
  fault := by
    intro before after fault within run
    obtain ⟨consumed, place, offset⟩ := within.split
    obtain ⟨start, rest⟩ := before
    cases rest with
    | nil =>
        cases run
        refine .unexpectedEnd ?_ (by decide)
        rw [place, offset, List.length_append, List.length_nil]
    | cons first rest => cases run

theorem take_endsIn (count : Nat) : (take count).EndsIn input (Fault.OfField strict input) where
  stays := by
    intro before after result within run
    exact within.advance (advances_of_run_take_ok run).1
  fault := by
    intro before after fault within run
    obtain ⟨consumed, place, offset⟩ := within.split
    obtain ⟨start, rest⟩ := before
    rw [run_take] at run
    split at run
    · rename_i fewer
      cases run
      dsimp only at place offset
      refine .unexpectedEnd ?_ fewer
      rw [place, offset, List.length_append]
    · cases run

theorem word16_endsIn (order : ByteOrder) :
    (word16 order).EndsIn input (Fault.OfField strict input) :=
  (take_endsIn 2).bind fun _ => .pure _

theorem double_endsIn (order : ByteOrder) :
    (Reader.double order).EndsIn input (Fault.OfField strict input) :=
  (take_endsIn 8).bind fun _ => .pure _

end Reader

/-!
## Integers
-/

namespace Varint

variable {strict : Bool} {input : List UInt8}

private theorem fault_of_run_readGroups_error {limit : Nat} {consumed seen rest : List UInt8}
    {fault : Fault} {after : Cursor} (place : input = consumed ++ seen ++ rest)
    (count : seen.length + limit = maxGroups) (continued : ∀ group ∈ seen, 128 ≤ group.toNat)
    (run : (readGroups strict consumed.length limit).run
      ⟨consumed.length + seen.length, rest⟩ = .error fault after) :
    Fault.OfField strict input fault := by
  -- Induction on the number of groups that may still come. What a fault says is about the groups
  -- before as well: they are `seen`, and all of them announce another one.
  induction limit generalizing seen rest with
  | zero =>
      cases run
      exact .unterminatedVarint place count continued
  | succ limit limitIH =>
      rw [readGroups] at run
      cases rest with
      | nil =>
          rw [Reader.run_bind_of_error (Reader.run_byte_nil _)] at run
          cases run
          refine .unexpectedEnd ?_ (by decide)
          rw [place, List.length_append, List.length_append, List.length_nil]
      | cons byte rest =>
          rw [Reader.run_bind_of_ok (Reader.run_byte_cons _ byte rest)] at run
          split at run
          · split at run
            · rename_i refused
              cases run
              simp only [Bool.and_eq_true, beq_iff_eq, bne_iff_ne] at refused
              obtain ⟨⟨isStrict, isZero⟩, notFirst⟩ := refused
              have zero : byte = 0 := UInt8.toNat_inj.mp isZero
              rw [zero] at place
              refine .nonCanonicalVarint isStrict place ?_ (by omega) continued
              rintro rfl
              rw [List.length_nil, Nat.zero_add] at count
              exact notFirst count
            · cases run
          · rename_i large
            rcases Reader.run_bind_error run with failed | ⟨higher, middle, _, finished⟩
            · have longer : ∀ group ∈ seen ++ [byte], 128 ≤ group.toNat := by
                intro group member
                rcases List.mem_append.mp member with earlier | last
                · exact continued group earlier
                · rw [List.mem_singleton.mp last]
                  omega
              have further : input = consumed ++ (seen ++ [byte]) ++ rest := by
                rw [place]
                simp
              have length : (seen ++ [byte]).length = seen.length + 1 := by
                rw [List.length_append, List.length_singleton]
              have total : (seen ++ [byte]).length + limit = maxGroups := by omega
              rw [Nat.add_assoc, ← length] at failed
              exact limitIH further total longer failed
            · cases finished

theorem read_endsIn : (read strict).EndsIn input (Fault.OfField strict input) where
  stays := by
    intro before after number within run
    obtain ⟨consumed, moved, _⟩ := covers_of_run_read run
    exact within.advance moved
  fault := by
    intro before after fault within run
    obtain ⟨consumed, place, offset⟩ := within.split
    obtain ⟨start, rest⟩ := before
    rw [read, Reader.run_bind_of_ok (Reader.run_position _)] at run
    dsimp only at place offset run
    rw [offset] at run
    rw [← List.append_nil consumed] at place
    exact fault_of_run_readGroups_error place rfl (List.forall_mem_nil _) run

theorem readUInt32_endsIn : (readUInt32 strict).EndsIn input (Fault.OfField strict input) := by
  refine .bind_at read_endsIn fun {consumed rest number middle} place run => ?_
  split
  · rename_i refused
    simp only [Bool.and_eq_true, decide_eq_true_eq] at refused
    exact .fail (.varintOverflow refused.1 place run refused.2)
  · exact .pure _

private theorem size_le_of_magnitudeLimit_lt {number : Nat} (large : magnitudeLimit number < number / 2) :
    UInt32.size ≤ number := by
  unfold magnitudeLimit at large
  unfold UInt32.size
  split at large <;> omega

private theorem rest_eq_of_run_read_one {offset : Nat} {rest : List UInt8} {after : Cursor}
    (run : (read true).run ⟨offset, rest⟩ = .ok 1 after) : rest = 1 :: after.rest := by
  -- One form of each number is read strictly, and that of one is a single byte.
  obtain ⟨groups, moved, _, canonical⟩ := covers_of_run_read run
  have single : groups = [1] := (canonical rfl).symm
  rw [single] at moved
  exact moved.rest

theorem readInt32_endsIn : (readInt32 strict).EndsIn input (Fault.OfField strict input) := by
  refine .bind_at read_endsIn fun {consumed rest number middle} place run => ?_
  split
  · rename_i refused
    simp only [Bool.and_eq_true, decide_eq_true_eq] at refused
    exact .fail (.varintOverflow refused.1 place run (size_le_of_magnitudeLimit_lt refused.2))
  · split
    · rename_i refused
      simp only [Bool.and_eq_true, beq_iff_eq] at refused
      obtain ⟨isStrict, isOne⟩ := refused
      rw [isStrict, isOne] at run
      rw [rest_eq_of_run_read_one run] at place
      exact .fail (.negativeZero isStrict place)
    · exact .pure _

end Varint

/-!
## Texts and headers
-/

theorem Text.read_endsIn {strict : Bool} {input : List UInt8} :
    (Text.read strict).EndsIn input (Fault.OfField strict input) :=
  Varint.readUInt32_endsIn.bind fun _ => (Reader.take_endsIn _).bind fun _ => .pure _

namespace AtomTable

variable {strict : Bool} {input : List UInt8}

private theorem fault_of_run_read_error {fault : Fault} {after : Cursor}
    (run : (AtomTable.read strict).run (.ofBytes input) = .error fault after) :
    Fault.OfHeader strict input fault := by
  have start := Cursor.Within.start input
  rcases Reader.run_bind_error run with failed | ⟨version, afterVersion, versionRun, run⟩
  · exact .field (Reader.byte_endsIn.fault start failed)
  · have moved := Reader.advances_of_run_byte_ok versionRun
    split at run
    · rename_i isVersion
      rcases Reader.run_bind_error run with failed | ⟨count, afterCount, countRun, run⟩
      · exact .field (Varint.readUInt32_endsIn.fault (start.advance moved) failed)
      · have reached := Varint.readUInt32_endsIn.stays (start.advance moved) countRun
        split at run
        · rcases Reader.run_bind_error run with failed | ⟨dynamic, last, _, finished⟩
          · exact .field ((Text.read_endsIn.times _).fault reached failed)
          · cases finished
        · rename_i tooMany
          cases run
          obtain ⟨offset, rest⟩ := afterVersion
          cases moved.offset
          rw [isVersion] at moved
          exact .tooManyAtoms ⟨rest, _, moved.rest, countRun, Nat.lt_of_not_le tooMany⟩
    · rename_i unknown
      cases run
      exact .unsupportedVersion moved.rest unknown

/-- A header that declares too many atoms is refused before its first text. -/
theorem run_read_of_overstates {count : UInt32} (overstated : Overstates strict input count) :
    ∃ after, (AtomTable.read strict).run (.ofBytes input) =
      .error (.lengthOverflow "atom table" count.toNat) after := by
  obtain ⟨rest, after, rfl, countRun, large⟩ := overstated
  have versionRun : Reader.byte.run (.ofBytes (formatVersion :: rest)) =
      .ok formatVersion ⟨1, rest⟩ := rfl
  refine ⟨after, ?_⟩
  rw [AtomTable.read, Reader.run_bind_of_ok versionRun, if_pos rfl, Reader.run_bind_of_ok countRun,
    if_neg (Nat.not_le_of_lt large)]
  rfl

end AtomTable

/-!
## Values
-/

section Values

variable {options : Options} {table : AtomTable} {input : List UInt8}

theorem Atom.read_endsIn :
    (Atom.read options.strict table).EndsIn input (Fault.OfValue options table input) := by
  refine (Varint.readUInt32_endsIn.mono .field).bind fun reference => ?_
  split
  · exact .pure _
  · cases found : table.text? (reference / 2) with
    | some text =>
        rw [AtomTable.resolve_eq_ok_iff.mpr found]
        exact .pure _
    | none =>
        rw [AtomTable.resolve, found]
        exact .fail (.atomOutOfRange (AtomTable.size_le_of_text?_eq_none found))

theorem VarDef.readFlagByte_endsIn :
    (VarDef.readFlagByte options.strict).EndsIn input (Fault.OfValue options table input) := by
  refine .bind_at (Reader.byte_endsIn.mono .field) fun {consumed rest flags middle} place run => ?_
  split
  · rename_i refused
    simp only [Bool.and_eq_true] at refused
    have unread : rest = flags :: middle.rest := (Reader.advances_of_run_byte_ok run).rest
    rw [unread] at place
    exact .fail (.reservedBits refused.1 place (Nat.ge_two_pow_of_testBit refused.2))
  · exact .pure _

private theorem Varint.readUInt32_endsIn_value :
    (Varint.readUInt32 options.strict).EndsIn input (Fault.OfValue options table input) :=
  Varint.readUInt32_endsIn.mono .field

theorem VarDef.read_endsIn :
    (VarDef.read options.strict table).EndsIn input (Fault.OfValue options table input) := by
  refine Atom.read_endsIn.bind fun name => ?_
  refine Varint.readUInt32_endsIn_value.bind fun scopeLevel => ?_
  refine (Varint.readUInt32_endsIn_value.bind fun link => .pure _).bind fun scopeNext? => ?_
  exact readFlagByte_endsIn.bind fun flags => .pure _

theorem ClosureVar.read_endsIn :
    (ClosureVar.read options.strict table).EndsIn input (Fault.OfValue options table input) := by
  refine Atom.read_endsIn.bind fun name => ?_
  refine Varint.readUInt32_endsIn_value.bind fun index => ?_
  exact (Reader.byte_endsIn.mono .field).bind fun flags => .pure _

theorem DebugInfo.readIf_endsIn (announced : Bool) :
    (DebugInfo.readIf announced options.strict table).EndsIn input
      (Fault.OfValue options table input) := by
  unfold readIf
  split
  · refine .map some (Atom.read_endsIn.bind fun fileName => ?_)
    refine Varint.readUInt32_endsIn_value.bind fun lineNumber => ?_
    refine Varint.readUInt32_endsIn_value.bind fun length => ?_
    exact ((Reader.take_endsIn _).mono .field).bind fun lineTable => .pure _
  · exact .pure none

theorem Frame.read_endsIn :
    (Frame.read options table).EndsIn input (Fault.OfValue options table input) := by
  refine .bind (.map _ ((Reader.word16_endsIn options.order).mono .field)) fun flags => ?_
  refine (Reader.byte_endsIn.mono .field).bind fun mode => ?_
  refine Atom.read_endsIn.bind fun name => ?_
  refine Varint.readUInt32_endsIn_value.bind fun argCount => ?_
  refine Varint.readUInt32_endsIn_value.bind fun varCount => ?_
  refine Varint.readUInt32_endsIn_value.bind fun definedArgCount => ?_
  refine Varint.readUInt32_endsIn_value.bind fun stackSize => ?_
  refine Varint.readUInt32_endsIn_value.bind fun closureVarCount => ?_
  refine Varint.readUInt32_endsIn_value.bind fun constantCount => ?_
  refine Varint.readUInt32_endsIn_value.bind fun codeLength => ?_
  refine Varint.readUInt32_endsIn_value.bind fun localCount => ?_
  refine (VarDef.read_endsIn.times _).bind fun locals => ?_
  refine (ClosureVar.read_endsIn.times _).bind fun closureVars => ?_
  refine ((Reader.take_endsIn _).mono .field).bind fun code => ?_
  exact (DebugInfo.readIf_endsIn _).bind fun debug? => .pure _

theorem Function.read_endsIn {κ : Type} {constant : Reader κ}
    (each : constant.EndsIn input (Fault.OfValue options table input)) :
    (Function.read options table constant).EndsIn input (Fault.OfValue options table input) :=
  Frame.read_endsIn.bind fun _ => (each.times _).bind fun _ => .pure _

namespace Value

theorem readTagged_endsIn {body : Reader (Function Value)}
    (bodyEnds : body.EndsIn input (Fault.OfValue options table input)) :
    (readTagged options body).EndsIn input (Fault.OfValue options table input) := by
  refine .bind_at (Reader.byte_endsIn.mono .field) fun {consumed rest byte middle} place run => ?_
  cases found : Tag.ofByte? byte with
  | none =>
      have unread : rest = byte :: middle.rest := (Reader.advances_of_run_byte_ok run).rest
      rw [unread] at place
      exact .fail (.invalidTag place found)
  | some tag =>
      cases tag with
      | null => exact .pure _
      | undefined => exact .pure _
      | boolFalse => exact .pure _
      | boolTrue => exact .pure _
      | int32 => exact .map _ (Varint.readInt32_endsIn.mono .field)
      | float64 => exact .map _ ((Reader.double_endsIn options.order).mono .field)
      | string => exact .map _ (Text.read_endsIn.mono .field)
      | functionBytecode =>
          dsimp only
          split
          · exact .map _ bodyEnds
          · rename_i forbidden
            exact .fail (.bytecodeNotAllowed (Bool.eq_false_iff.mpr forbidden))
      | _ => exact .fail (.unsupportedTag rfl)

/-- Reading a value ends in a fault of one of its parts, however deep that stands. -/
theorem read_endsIn (budget : Nat) :
    (Value.read options table budget).EndsIn input (Fault.OfValue options table input) := by
  induction budget with
  | zero => exact readTagged_endsIn (.fail .depthLimitExceeded)
  | succ budget budgetIH => exact readTagged_endsIn (Function.read_endsIn budgetIH)

end Value

end Values

/-!
## Streams
-/

namespace ObjectStream

variable {options : Options} {bytes : List UInt8} {fault : Fault}

/-- Every fault of decoding comes with what in the input has caused it. -/
theorem fault_of_decode_error (failed : decode options bytes = .error fault) :
    Fault.OfStream options bytes fault := by
  have start := Cursor.Within.start bytes
  cases ran : (read options).run (.ofBytes bytes) with
  | error earlier after =>
      rw [decode, ran] at failed
      cases failed
      rcases Reader.run_bind_error ran with refused | ⟨table, middle, tableRun, refused⟩
      · exact .header (AtomTable.fault_of_run_read_error refused)
      · obtain ⟨consumed, moved, _⟩ :=
          (AtomTable.read_retraced options.strict options.order tableRun).covers
        have reached := start.advance moved
        rcases Reader.run_bind_error refused with refused | ⟨value, last, _, finished⟩
        · exact .value tableRun ((Value.read_endsIn _).fault reached refused)
        · cases finished
  | ok stream after =>
      rw [decode_of_run_read_ok ran] at failed
      split at failed
      · rename_i leftOver
        cases failed
        exact .trailingBytes leftOver.1 ran leftOver.2
      · cases failed

private theorem decode_of_overstates {count : UInt32}
    (overstated : AtomTable.Overstates options.strict bytes count) :
    decode options bytes = .error (.lengthOverflow "atom table" count.toNat) := by
  obtain ⟨after, tableRun⟩ := AtomTable.run_read_of_overstates overstated
  have run : (read options).run (.ofBytes bytes) =
      .error (.lengthOverflow "atom table" count.toNat) after :=
    Reader.run_bind_of_error tableRun
  rw [decode, run]

end ObjectStream

/-!
## Kinds of faults
-/

namespace Fault

variable {strict : Bool} {options : Options} {table : AtomTable} {input : List UInt8}
  {fault : Fault}

/-- The faults of the checks that only strict reading makes. -/
def isStrictOnly : Fault → Bool
  | .nonCanonicalVarint _ | .varintOverflow _ | .negativeZero _ | .reservedBits _ _
  | .trailingBytes _ _ => true
  | _ => false

theorem OfField.kind_eq (arisen : OfField strict input fault) : fault.kind = .format := by
  cases arisen <;> rfl

theorem OfValue.kind_eq (arisen : OfValue options table input fault) :
    fault.kind = .format ∨ ∃ tag, fault = .unsupportedTag tag := by
  cases arisen with
  | field arisen => exact .inl arisen.kind_eq
  | unsupportedTag unread => exact .inr ⟨_, rfl⟩
  | _ => exact .inl rfl

theorem OfHeader.kind_eq (arisen : OfHeader strict input fault) :
    fault.kind = .format ∨ ∃ count, AtomTable.Overstates strict input count := by
  cases arisen with
  | field arisen => exact .inl arisen.kind_eq
  | unsupportedVersion place unknown => exact .inl rfl
  | tooManyAtoms overstated => exact .inr ⟨_, overstated⟩

theorem OfStream.kind_eq (arisen : OfStream options input fault) :
    fault.kind = .format ∨ (∃ tag, fault = .unsupportedTag tag) ∨
      ∃ count, AtomTable.Overstates options.strict input count := by
  cases arisen with
  | header arisen => exact arisen.kind_eq.imp_right .inr
  | value listed arisen => exact arisen.kind_eq.imp_right .inl
  | trailingBytes isStrict read left => exact .inl rfl

theorem OfField.strict_of_isStrictOnly (arisen : OfField strict input fault)
    (checked : fault.isStrictOnly = true) : strict = true := by
  cases arisen with
  | nonCanonicalVarint isStrict place padded count continued => exact isStrict
  | varintOverflow isStrict place read large => exact isStrict
  | negativeZero isStrict place => exact isStrict
  | _ => cases checked

/-- The faults of strict checks arise in strict reading alone. -/
theorem OfStream.strict_of_isStrictOnly (arisen : OfStream options input fault)
    (checked : fault.isStrictOnly = true) : options.strict = true := by
  cases arisen with
  | header arisen =>
      cases arisen with
      | field arisen => exact arisen.strict_of_isStrictOnly checked
      | _ => cases checked
  | value listed arisen =>
      cases arisen with
      | field arisen => exact arisen.strict_of_isStrictOnly checked
      | reservedBits isStrict place high => exact isStrict
      | _ => cases checked
  | trailingBytes isStrict read left => exact isStrict

end Fault

namespace ObjectStream

variable {options : Options} {bytes : List UInt8} {fault : Fault}

/-- A fault of decoding says that the bytes are no stream, or that they use a tag that is not read,
unless the header declares too many atoms. What is said of that is what a writer says of a table that
it cannot write. -/
theorem kind_of_decode_error (failed : decode options bytes = .error fault) :
    ((∀ count, ¬AtomTable.Overstates options.strict bytes count) ↔
      (fault.kind = .format ∨ fault.kind = .unsupportedTag) ∧
        (fault.isFormat = true ∨ ∃ tag, fault = .unsupportedTag tag)) ∧
    ∀ count, AtomTable.Overstates options.strict bytes count →
      fault = .lengthOverflow "atom table" count.toNat := by
  have overflow : ∀ count, AtomTable.Overstates options.strict bytes count →
      fault = .lengthOverflow "atom table" count.toNat := by
    intro count overstated
    rw [decode_of_overstates overstated] at failed
    exact (Except.error.inj failed).symm
  refine ⟨⟨fun stated => ?_, fun ⟨classified, _⟩ count overstated => ?_⟩, overflow⟩
  · rcases (fault_of_decode_error failed).kind_eq with format | ⟨tag, rfl⟩ | ⟨count, overstated⟩
    · exact ⟨.inl format, .inl (beq_iff_eq.mpr format)⟩
    · exact ⟨.inr rfl, .inr ⟨tag, rfl⟩⟩
    · exact absurd overstated (stated count)
  · rw [overflow count overstated] at classified
    rcases classified with format | unsupported
    · cases format
    · cases unsupported

/-- A header that declares one atom more than a table may list. -/
def overstatedBytes : List UInt8 :=
  [1, 0xAE, 0xFE, 0xFF, 0xFF, 0x07]

theorem overstatedBytes_kind :
    ∃ fault, decode {} overstatedBytes = .error fault ∧
      fault.kind = .encode ∧ fault.isFormat = false ∧ ∀ tag, fault ≠ .unsupportedTag tag :=
  ⟨.lengthOverflow "atom table" 2147483438, rfl, rfl, rfl, fun _ same => nomatch same⟩

/-- That header beside one of another version, which declares nothing, and a stream with a tag that is not
read. -/
theorem overstatedBytes_declares :
    (decode {} overstatedBytes = .error (.lengthOverflow "atom table" 2147483438) ∧
      AtomTable.Overstates true overstatedBytes 2147483438 ∧
      ∀ count, AtomTable.Overstates true overstatedBytes count →
        Fault.lengthOverflow "atom table" 2147483438 = .lengthOverflow "atom table" count.toNat) ∧
    (decode {} [2] = .error (.unsupportedVersion 2 1) ∧
      (∀ count, ¬AtomTable.Overstates true [2] count) ∧
      ((Fault.unsupportedVersion 2 1).kind = .format ∨
        (Fault.unsupportedVersion 2 1).kind = .unsupportedTag)) ∧
    decode {} [1, 0, 9] = .error (.unsupportedTag .array) ∧
      ∀ count, ¬AtomTable.Overstates true [1, 0, 9] count := by
  have failed : decode {} overstatedBytes = .error (.lengthOverflow "atom table" 2147483438) := rfl
  have foreign : decode {} [2] = .error (.unsupportedVersion 2 1) := rfl
  have unread : decode {} [1, 0, 9] = .error (.unsupportedTag .array) := rfl
  have nothing : ∀ count, ¬AtomTable.Overstates true [2] count := by
    rintro count ⟨rest, after, place, _⟩
    exact absurd (List.head_eq_of_cons_eq place) (by decide)
  refine ⟨⟨failed, ⟨_, _, rfl, rfl, by decide⟩, (kind_of_decode_error failed).2⟩,
    ⟨foreign, nothing, ?_⟩, unread, ?_⟩
  · exact ((kind_of_decode_error foreign).1.mp nothing).1
  · exact (kind_of_decode_error unread).1.mpr ⟨.inr rfl, .inr ⟨.array, rfl⟩⟩

end ObjectStream

end BytecodeObject
