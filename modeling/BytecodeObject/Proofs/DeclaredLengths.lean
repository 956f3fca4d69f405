import BytecodeObject.Proofs.Decoding
import BytecodeObject.Proofs.Footprint

/-!
# Lengths that an input declares

A stream declares how many atoms, variables, constants and bytes follow. The places at which reading
comes to such a number are described from the front of the input, by the runs of the readers before it,
so they are there whether or not the rest of the input can be read. Where reading ends well each number
was paid for in bytes behind it, and the loops over all of them went round as often as the result tells.
-/

set_option autoImplicit false

namespace BytecodeObject

/-!
## Places of declared lengths
-/

def Frame.readOpening (options : Options) (table : AtomTable) : Reader Frame := do
  let flags ← FunctionFlags.mk <$> Reader.word16 options.order
  let mode ← Reader.byte
  let name ← Atom.read options.strict table
  let argCount ← Varint.readUInt32 options.strict
  let varCount ← Varint.readUInt32 options.strict
  let definedArgCount ← Varint.readUInt32 options.strict
  let stackSize ← Varint.readUInt32 options.strict
  return { flags, mode, name, argCount, varCount, definedArgCount, stackSize }

def Frame.readLists (options : Options) (table : AtomTable) (opening : Frame)
    (closureVarCount codeLength localCount : UInt32) : Reader Frame := do
  let locals ← Reader.times localCount.toNat (VarDef.read options.strict table)
  let closureVars ← Reader.times closureVarCount.toNat (ClosureVar.read options.strict table)
  let code ← Reader.take codeLength.toNat
  return { opening with locals, closureVars, code }

def DebugInfo.readOpening (strict : Bool) (table : AtomTable) : Reader DebugInfo := do
  let fileName ← Atom.read strict table
  let lineNumber ← Varint.readUInt32 strict
  return { fileName, lineNumber }

/-- Reading a function body from `start` comes to a number that says how much of something follows, and
goes on at `next`: to one of the lengths that stand together, or to that of the table in the debug
record. -/
inductive Function.Declares (options : Options) (table : AtomTable) (start : Cursor) :
    (declared : Nat) → (next : Cursor) → Prop where
  | length {opening : Frame} {earlier : List UInt32} {number : UInt32} {counted place next : Cursor} :
      (Frame.readOpening options table).run start = .ok opening counted →
      (Reader.times earlier.length (Varint.readUInt32 options.strict)).run counted =
        .ok earlier place → earlier.length < 4 →
      (Varint.readUInt32 options.strict).run place = .ok number next →
      Declares options table start number.toNat next
  | lineTable {opening frame : Frame} {debug : DebugInfo}
      {closureVarCount constantCount codeLength localCount number : UInt32}
      {counted listed behind place next : Cursor} :
      (Frame.readOpening options table).run start = .ok opening counted →
      (Reader.times 4 (Varint.readUInt32 options.strict)).run counted =
        .ok [closureVarCount, constantCount, codeLength, localCount] listed →
      (Frame.readLists options table opening closureVarCount codeLength localCount).run listed =
        .ok frame behind → frame.flags.hasDebug = true →
      (DebugInfo.readOpening options.strict table).run behind = .ok debug place →
      (Varint.readUInt32 options.strict).run place = .ok number next →
      Declares options table start number.toNat next

inductive Value.Declares (options : Options) (table : AtomTable) :
    (budget : Nat) → (start : Cursor) → (declared : Nat) → (next : Cursor) → Prop where
  | text {budget : Nat} {start place next : Cursor} {number : UInt32} :
      Reader.byte.run start = .ok Tag.string.toByte place →
      (Varint.readUInt32 options.strict).run place = .ok number next →
      Declares options table budget start (number.toNat / 2) next
  | function {budget declared : Nat} {start place next : Cursor} :
      options.allowBytecode = true → Reader.byte.run start = .ok Tag.functionBytecode.toByte place →
      Function.Declares options table place declared next →
      Declares options table (budget + 1) start declared next
  | constant {budget count declared : Nat} {start place begun reached next : Cursor} {frame : Frame}
      {earlier : List Value} :
      options.allowBytecode = true → Reader.byte.run start = .ok Tag.functionBytecode.toByte place →
      (Frame.read options table).run place = .ok (frame, count) begun →
      (Reader.times earlier.length (Value.read options table budget)).run begun =
        .ok earlier reached → earlier.length < count →
      Declares options table budget reached declared next →
      Declares options table (budget + 1) start declared next

inductive ObjectStream.Declares (options : Options) (input : List UInt8) :
    (declared : Nat) → (next : Cursor) → Prop where
  | atoms {count : UInt32} {next : Cursor} :
      AtomTable.Declares options.strict input count next → Declares options input count.toNat next
  | atomText {count number : UInt32} {begun place next : Cursor} {earlier : List Text} :
      AtomTable.Declares options.strict input count begun →
      (Reader.times earlier.length (Text.read options.strict)).run begun = .ok earlier place →
      earlier.length < count.toNat →
      (Varint.readUInt32 options.strict).run place = .ok number next →
      Declares options input (number.toNat / 2) next
  | value {table : AtomTable} {declared : Nat} {start next : Cursor} :
      (AtomTable.read options.strict).run (.ofBytes input) = .ok table start →
      Value.Declares options table options.maxDepth start declared next →
      Declares options input declared next

/-!
## Functions
-/

section Functions

variable {options : Options} {table : AtomTable}

/-- A frame is read part by part, the lists behind the numbers that declare them. -/
theorem Frame.read_eq (options : Options) (table : AtomTable) :
    Frame.read options table = do
      let opening ← readOpening options table
      let closureVarCount ← Varint.readUInt32 options.strict
      let constantCount ← Varint.readUInt32 options.strict
      let codeLength ← Varint.readUInt32 options.strict
      let localCount ← Varint.readUInt32 options.strict
      let frame ← readLists options table opening closureVarCount codeLength localCount
      let debug? ← DebugInfo.readIf frame.flags.hasDebug options.strict table
      return ({ frame with debug? }, constantCount.toNat) := by
  simp [Frame.read, readOpening, readLists]

theorem DebugInfo.read_eq (strict : Bool) (table : AtomTable) :
    DebugInfo.read strict table = do
      let opening ← readOpening strict table
      let length ← Varint.readUInt32 strict
      let lineTable ← Reader.take length.toNat
      return { opening with lineTable } := by
  simp [DebugInfo.read, readOpening]

private theorem Frame.run_read_ok_parts {start after : Cursor} {frame : Frame} {count : Nat}
    (run : (Frame.read options table).run start = .ok (frame, count) after) :
    ∃ opening listed closureVarCount constantCount codeLength localCount counted begun behind debug?,
      (Frame.readOpening options table).run start = .ok opening counted ∧
      (Reader.times 4 (Varint.readUInt32 options.strict)).run counted =
        .ok [closureVarCount, constantCount, codeLength, localCount] begun ∧
      (Frame.readLists options table opening closureVarCount codeLength localCount).run begun =
        .ok listed behind ∧
      (DebugInfo.readIf listed.flags.hasDebug options.strict table).run behind = .ok debug? after ∧
      frame = { listed with debug? } ∧ count = constantCount.toNat := by
  rw [Frame.read_eq] at run
  obtain ⟨opening, counted, openingRun, run⟩ := Reader.run_bind_ok run
  obtain ⟨closureVarCount, second, closureVarRun, run⟩ := Reader.run_bind_ok run
  obtain ⟨constantCount, third, constantRun, run⟩ := Reader.run_bind_ok run
  obtain ⟨codeLength, fourth, codeRun, run⟩ := Reader.run_bind_ok run
  obtain ⟨localCount, begun, localRun, run⟩ := Reader.run_bind_ok run
  obtain ⟨listed, behind, listsRun, run⟩ := Reader.run_bind_ok run
  obtain ⟨debug?, last, debugRun, run⟩ := Reader.run_bind_ok run
  cases run
  refine ⟨opening, listed, closureVarCount, constantCount, codeLength, localCount, counted, begun,
    behind, debug?, openingRun, ?_, listsRun, debugRun, rfl, rfl⟩
  simp only [Reader.times_succ, Reader.times_zero, EStateM.run_bind, closureVarRun, constantRun,
    codeRun, localRun]
  rfl

private theorem Frame.readLists_costs (options : Options) (table : AtomTable) (opening : Frame)
    (closureVarCount codeLength localCount : UInt32) :
    (Frame.readLists options table opening closureVarCount codeLength localCount).Costs 0 fun _ =>
      4 * localCount.toNat + 3 * closureVarCount.toNat + codeLength.toNat := by
  refine ((VarDef.read_costs table _).times_count _).bind fun locals => ?_
  refine ((ClosureVar.read_costs table _).times_count _).bind fun closureVars => ?_
  exact (Reader.take_costs_count _).bind fun code => .pure (by simp)

variable {κ : Type} {constant : Reader κ} {cost : κ → Nat}

/-- A function body that is read to its end has paid for every length declared in it. -/
theorem Function.declared_le_rest (each : constant.Costs 0 cost) (positive : ∀ value, 0 < cost value)
    {start next after : Cursor} {declared : Nat} {function : Function κ}
    (run : (Function.read options table constant).run start = .ok function after)
    (declares : Function.Declares options table start declared next) :
    declared ≤ next.rest.length := by
  obtain ⟨⟨frame, count⟩, middle, frameRun, run⟩ := Reader.run_bind_ok run
  obtain ⟨constants, last, constantsRun, run⟩ := Reader.run_bind_ok run
  cases run
  obtain ⟨opening, listed, closureVarCount, constantCount, codeLength, localCount, counted, begun,
    behind, debug?, openingRun, lengthsRun, listsRun, debugRun, _, rfl⟩ :=
      Frame.run_read_ok_parts frameRun
  -- A run has one outcome, so the runs in front of the number are those of the whole body.
  cases declares with
  | @length _ earlier number _ _ _ openingAgain earlierRun fewer numberRun =>
      cases openingRun.symm.trans openingAgain
      obtain ⟨_, later, _, ran, laterRun, lengths⟩ :=
        Reader.run_times_split lengthsRun earlierRun fewer
      cases numberRun.symm.trans ran
      have others := Reader.Costs.le_rest ((Varint.readUInt32_costs _).times_count _) laterRun
      have lists := (Frame.readLists_costs options table _ _ _ _).le_rest listsRun
      have debug := (DebugInfo.readIf_costs table _ _).le_rest debugRun
      have constants := (each.times_length positive _).le_rest constantsRun
      have among : number ∈ [closureVarCount, constantCount, codeLength, localCount] := by
        simp [lengths]
      simp only [List.mem_cons, List.not_mem_nil, or_false] at among
      rcases among with rfl | rfl | rfl | rfl <;> omega
  | lineTable openingAgain lengthsAgain listsAgain announced debugOpening numberRun =>
      cases openingRun.symm.trans openingAgain
      cases lengthsRun.symm.trans lengthsAgain
      cases listsRun.symm.trans listsAgain
      rw [announced] at debugRun
      obtain ⟨debug, recordRun, _⟩ := Reader.run_map_ok debugRun
      rw [DebugInfo.read_eq, Reader.run_bind_of_ok debugOpening,
        Reader.run_bind_of_ok numberRun] at recordRun
      obtain ⟨lineTable, last, tableRun, _⟩ := Reader.run_bind_ok recordRun
      have table := (Reader.take_costs_count _).le_rest tableRun
      omega

end Functions

/-!
## Values
-/

variable {options : Options} {table : AtomTable}

theorem Text.declared_le_rest {strict : Bool} {start next after : Cursor} {number : UInt32}
    {text : Text} (run : (Text.read strict).run start = .ok text after)
    (numberRun : (Varint.readUInt32 strict).run start = .ok number next) :
    number.toNat / 2 ≤ next.rest.length := by
  rw [Text.read, Reader.run_bind_of_ok numberRun] at run
  obtain ⟨taken, last, takeRun, _⟩ := Reader.run_bind_ok run
  have paid := (Reader.take_costs_count _).le_rest takeRun
  omega

namespace Value

variable {start place next after : Cursor} {value : Value}

private theorem payloadRead_of_run_byte {body : Reader (Function Value)} {tag : Tag}
    (run : (readTagged options body).run start = .ok value after)
    (tagRun : Reader.byte.run start = .ok tag.toByte place) :
    value.tag = tag ∧ value.PayloadRead options body place after := by
  obtain ⟨middle, moved, payload⟩ := run_readTagged_ok run
  obtain ⟨sameTag, rfl⟩ := moved.same_byte (Reader.advances_of_run_byte_ok tagRun)
  refine ⟨?_, payload⟩
  apply Option.some.inj
  rw [← Tag.ofByte?_toByte, ← Tag.ofByte?_toByte, sameTag]

/-- A value under the tag of a text is a text. -/
private theorem text_of_run_read {budget : Nat}
    (run : (read options table budget).run start = .ok value after)
    (tagRun : Reader.byte.run start = .ok Tag.string.toByte place) :
    ∃ text, (Text.read options.strict).run place = .ok text after := by
  have tagged : ∃ body, read options table budget = readTagged options body := by
    cases budget <;> exact ⟨_, rfl⟩
  obtain ⟨body, same⟩ := tagged
  rw [same] at run
  obtain ⟨tag, payload⟩ := payloadRead_of_run_byte run tagRun
  cases value with
  | string text => exact ⟨text, payload⟩
  | bool value => cases value <;> cases tag
  | _ => cases tag

private theorem function_of_run_read {budget : Nat}
    (run : (read options table (budget + 1)).run start = .ok value after)
    (tagRun : Reader.byte.run start = .ok Tag.functionBytecode.toByte place) :
    ∃ function, (Function.read options table (read options table budget)).run place =
      .ok function after := by
  obtain ⟨tag, payload⟩ := payloadRead_of_run_byte run tagRun
  cases value with
  | function compiled => exact ⟨compiled, payload.2⟩
  | bool value => cases value <;> cases tag
  | _ => cases tag

theorem declared_le_rest {budget declared : Nat}
    (run : (read options table budget).run start = .ok value after)
    (declares : Declares options table budget start declared next) :
    declared ≤ next.rest.length := by
  induction declares generalizing after value with
  | text tagRun numberRun =>
      obtain ⟨text, textRun⟩ := text_of_run_read run tagRun
      exact Text.declared_le_rest textRun numberRun
  | function _ tagRun declares =>
      obtain ⟨function, bodyRun⟩ := function_of_run_read run tagRun
      exact Function.declared_le_rest (read_costs options table _)
        (fun value => Nat.zero_lt_of_lt value.iterations_lt_footprint) bodyRun declares
  | constant _ tagRun frameRun earlierRun more _ constantIH =>
      obtain ⟨function, bodyRun⟩ := function_of_run_read run tagRun
      obtain ⟨_, _, frameAgain, bodyRun⟩ := Reader.run_bind_ok bodyRun
      cases frameRun.symm.trans frameAgain
      obtain ⟨constants, last, constantsRun, _⟩ := Reader.run_bind_ok bodyRun
      obtain ⟨constant, later, middle, ran, _⟩ :=
        Reader.run_times_split constantsRun earlierRun more
      exact constantIH ran

end Value

/-!
## Loops over declared numbers
-/

/-- Reading a frame from `start` runs a loop for the number of locals and one for the number of captured
variables that the frame declares, and goes on at `next` with a number of constants. -/
inductive Frame.Loops (options : Options) (table : AtomTable) (start : Cursor) :
    (localCount closureVarCount constantCount : Nat) → (next : Cursor) → Prop where
  | mk {opening frame : Frame} {closureVarCount constantCount codeLength localCount : UInt32}
      {locals : List VarDef} {closureVars : List ClosureVar}
      {counted listed captured coded next : Cursor} :
      (Frame.readOpening options table).run start = .ok opening counted →
      (Reader.times 4 (Varint.readUInt32 options.strict)).run counted =
        .ok [closureVarCount, constantCount, codeLength, localCount] listed →
      (Reader.times localCount.toNat (VarDef.read options.strict table)).run listed =
        .ok locals captured →
      (Reader.times closureVarCount.toNat (ClosureVar.read options.strict table)).run captured =
        .ok closureVars coded →
      (Frame.read options table).run start = .ok (frame, constantCount.toNat) next →
      Loops options table start localCount.toNat closureVarCount.toNat constantCount.toNat next

/-- The lists of a frame that was read have the lengths that their loops were run with. -/
theorem Frame.loops_of_run_read_ok {frame : Frame} {count : Nat} {start next : Cursor}
    (run : (Frame.read options table).run start = .ok (frame, count) next) :
    Frame.Loops options table start frame.locals.length frame.closureVars.length count next := by
  obtain ⟨opening, listed, closureVarCount, constantCount, codeLength, localCount, counted, begun,
    behind, debug?, openingRun, lengthsRun, listsRun, _, rfl, rfl⟩ := run_read_ok_parts run
  obtain ⟨locals, captured, localsRun, listsRun⟩ := Reader.run_bind_ok listsRun
  obtain ⟨closureVars, coded, closureVarsRun, listsRun⟩ := Reader.run_bind_ok listsRun
  obtain ⟨code, last, codeRun, listsRun⟩ := Reader.run_bind_ok listsRun
  cases listsRun
  dsimp only
  rw [Reader.length_of_run_times_ok localsRun, Reader.length_of_run_times_ok closureVarsRun]
  exact .mk openingRun lengthsRun localsRun closureVarsRun run

namespace Value

mutual

/-- Reading a value from `start` to `next` runs its loops over declared numbers with `counts`. -/
inductive Loops (options : Options) (table : AtomTable) :
    (budget : Nat) → (start next : Cursor) → (counts : List Nat) → Prop where
  | plain {budget : Nat} {start next : Cursor} {value : Value} (plain : value.function? = none)
      (run : (read options table budget).run start = .ok value next) :
      Loops options table budget start next []
  | function {budget localCount closureVarCount constantCount : Nat}
      {start place begun next : Cursor} {inner : List Nat}
      (tag : start.Advances [Tag.functionBytecode.toByte] place)
      (frame : Frame.Loops options table place localCount closureVarCount constantCount begun)
      (constants : AllLoops options table budget constantCount begun next inner) :
      Loops options table (budget + 1) start next
        (localCount :: closureVarCount :: constantCount :: inner)

inductive AllLoops (options : Options) (table : AtomTable) :
    (budget count : Nat) → (start next : Cursor) → (counts : List Nat) → Prop where
  | nil {budget : Nat} {start : Cursor} : AllLoops options table budget 0 start start []
  | cons {budget count : Nat} {start middle next : Cursor} {first later : List Nat}
      (head : Loops options table budget start middle first)
      (tail : AllLoops options table budget count middle next later) :
      AllLoops options table budget (count + 1) start next (first ++ later)

end

private theorem allLoops_of_run_times_ok {budget count : Nat} {values : List Value} {start next : Cursor}
    (each : ∀ {start next value}, (read options table budget).run start = .ok value next →
      ∃ counts, Loops options table budget start next counts ∧ value.iterations = counts.sum)
    (run : (Reader.times count (read options table budget)).run start = .ok values next) :
    ∃ counts, AllLoops options table budget count start next counts ∧
      iterationsAll values = counts.sum := by
  induction count generalizing start values with
  | zero =>
      cases run
      exact ⟨[], .nil, rfl⟩
  | succ count countIH =>
      rw [Reader.times_succ] at run
      obtain ⟨value, middle, valueRun, run⟩ := Reader.run_bind_ok run
      obtain ⟨rest, last, restRun, run⟩ := Reader.run_bind_ok run
      cases run
      obtain ⟨first, head, firstSum⟩ := each valueRun
      obtain ⟨later, tail, laterSum⟩ := countIH restRun
      refine ⟨first ++ later, .cons head tail, ?_⟩
      rw [iterationsAll, firstSum, laterSum, List.sum_append]

/-- The iterations of a value that was read are those of the loops that reading it has run, added up. -/
theorem loops_of_run_read_ok {budget : Nat} {value : Value} {start next : Cursor}
    (run : (read options table budget).run start = .ok value next) :
    ∃ counts, Loops options table budget start next counts ∧ value.iterations = counts.sum := by
  induction budget generalizing start next value with
  | zero =>
      cases value with
      | function compiled =>
          obtain ⟨_, _, _, bodyRun⟩ := run_readTagged_ok run
          cases bodyRun
      | _ => exact ⟨[], .plain rfl run, rfl⟩
  | succ budget budgetIH =>
      cases value with
      | function compiled =>
          obtain ⟨place, tag, _, bodyRun⟩ := run_readTagged_ok run
          obtain ⟨⟨frame, count⟩, begun, frameRun, bodyRun⟩ := Reader.run_bind_ok bodyRun
          obtain ⟨constants, last, constantsRun, bodyRun⟩ := Reader.run_bind_ok bodyRun
          cases bodyRun
          obtain ⟨inner, all, innerSum⟩ := allLoops_of_run_times_ok budgetIH constantsRun
          refine ⟨_, .function tag (Frame.loops_of_run_read_ok frameRun) all, ?_⟩
          have length := Reader.length_of_run_times_ok constantsRun
          simp only [iterations, List.sum_cons, innerSum, length]
          omega
      | _ => exact ⟨[], .plain rfl run, rfl⟩

end Value

namespace ObjectStream

/-- Reading an input up to `next` runs its loops over declared numbers with `counts`. -/
inductive Loops (options : Options) (input : List UInt8) (next : Cursor) :
    (counts : List Nat) → Prop where
  | mk {count : UInt32} {dynamic : List Text} {begun start : Cursor} {inner : List Nat}
      (declared : AtomTable.Declares options.strict input count begun)
      (listed : (Reader.times count.toNat (Text.read options.strict)).run begun = .ok dynamic start)
      (value : Value.Loops options ⟨dynamic⟩ options.maxDepth start next inner) :
      Loops options input next (count.toNat :: inner)

/-- The iterations of a stream that was read are those of all the loops that reading it has run. -/
theorem loops_of_run_read_ok {input : List UInt8} {stream : ObjectStream} {next : Cursor}
    (run : (read options).run (.ofBytes input) = .ok stream next) :
    ∃ counts, Loops options input next counts ∧ stream.iterations = counts.sum := by
  obtain ⟨atoms, start, atomsRun, run⟩ := Reader.run_bind_ok run
  obtain ⟨value, last, valueRun, run⟩ := Reader.run_bind_ok run
  cases run
  obtain ⟨count, begun, declared, listed⟩ := AtomTable.declares_of_run_read_ok atomsRun
  obtain ⟨inner, loops, innerSum⟩ := Value.loops_of_run_read_ok valueRun
  refine ⟨_, .mk declared listed loops, ?_⟩
  rw [iterations, innerSum, List.sum_cons, Reader.length_of_run_times_ok listed]

/-!
## What an input can declare
-/

/-- A stream that is read to its end has paid for every length declared in it. -/
theorem declared_le_rest {input : List UInt8} {declared : Nat} {next after : Cursor}
    {stream : ObjectStream} (run : (read options).run (.ofBytes input) = .ok stream after)
    (declares : Declares options input declared next) : declared ≤ next.rest.length := by
  obtain ⟨atoms, start, atomsRun, run⟩ := Reader.run_bind_ok run
  obtain ⟨value, last, valueRun, _⟩ := Reader.run_bind_ok run
  obtain ⟨count, begun, declared, textsRun⟩ := AtomTable.declares_of_run_read_ok atomsRun
  cases declares with
  | atoms again =>
      obtain ⟨rfl, rfl⟩ := declared.unique again
      have paid := Reader.Costs.le_rest (Reader.Costs.times_length (Text.read_costs _)
        (fun text => Nat.add_pos_left Nat.one_pos _) _) textsRun
      omega
  | atomText again earlierRun more numberRun =>
      obtain ⟨rfl, rfl⟩ := declared.unique again
      obtain ⟨text, later, middle, ran, _⟩ := Reader.run_times_split textsRun earlierRun more
      exact Text.declared_le_rest ran numberRun
  | value tableRun declares =>
      cases atomsRun.symm.trans tableRun
      exact Value.declared_le_rest valueRun declares

/-- What is read from an input is no larger than the bytes it was read from, and its loops over
declared numbers go round no more often than there are bytes. A number that declares more than the
bytes behind it ends reading in a fault, wherever it stands. -/
theorem sized_by_input (options : Options) (input : List UInt8) :
    (∀ stream after, (read options).run (.ofBytes input) = .ok stream after →
      stream.footprint ≤ after.offset ∧ after.offset ≤ input.length ∧
        stream.iterations ≤ input.length) ∧
    ∀ declared next, Declares options input declared next → next.remaining < declared →
      ∃ fault after, (read options).run (.ofBytes input) = .error fault after ∧
        decode options input = .error fault := by
  refine ⟨fun stream after run => ?_, fun declared next declares short => ?_⟩
  · obtain ⟨consumed, moved, covered⟩ := read_costs options run
    have offset := moved.offset_eq_length
    have whole := moved.length_le
    have rounds := stream.iterations_le_footprint
    refine ⟨?_, ?_, ?_⟩ <;> omega
  · cases ran : (read options).run (.ofBytes input) with
    | ok stream after =>
        exact absurd (declared_le_rest ran declares) (Nat.not_le_of_lt short)
    | error fault after => exact ⟨fault, after, rfl, by rw [decode, ran]⟩

/-- A function inside a function, and in place of its constant a text of ten bytes of which one is
there. -/
theorem nested_sized_by_input :
    ((read {}).run (.ofBytes nestedBytes) = .ok (nested 12) ⟨66, []⟩ ∧
      (nested 12).footprint ≤ 66 ∧ 66 ≤ nestedBytes.length ∧
        (nested 12).iterations ≤ nestedBytes.length) ∧
    Declares {} (enclosed [7, 20, 65]) 10 ⟨30, [65]⟩ ∧
      (⟨30, [65]⟩ : Cursor).remaining < 10 ∧
      ∃ fault after, (read {}).run (.ofBytes (enclosed [7, 20, 65])) = .error fault after ∧
        decode {} (enclosed [7, 20, 65]) = .error fault := by
  have run : (read {}).run (.ofBytes nestedBytes) = .ok (nested 12) ⟨66, []⟩ :=
    run_read_nestedBytes true []
  have declares : Declares {} (enclosed [7, 20, 65]) 10 ⟨30, [65]⟩ := by
    change Declares {} _ ((20 : UInt32).toNat / 2) _
    refine .value rfl ?_
    iterate 2
      refine @Value.Declares.constant _ _ _ _ _ _ _ _ _ _ _ [] rfl rfl rfl rfl (by decide) ?_
    exact .text rfl rfl
  exact ⟨⟨run, (sized_by_input {} nestedBytes).1 _ _ run⟩, declares, by decide,
    (sized_by_input {} (enclosed [7, 20, 65])).2 10 _ declares (by decide)⟩

end ObjectStream

end BytecodeObject
