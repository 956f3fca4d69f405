import Mathlib.Algebra.BigOperators.Group.List.Basic
import Mathlib.Algebra.GroupWithZero.Nat
import BytecodeObject.Proofs.Stream

/-!
# The bytes that a stream takes

Every part of a stream takes a least number of bytes, so what is read is no larger than the input it is
read from, whatever lengths the input declares. A reader is charged for its result part by part; a
length that exceeds the bytes behind it cannot be paid for, and ends decoding in a fault.
-/

set_option autoImplicit false

namespace BytecodeObject

/-!
## Least sizes
-/

def Frame.footprint (frame : Frame) : Nat :=
  12 + 4 * frame.locals.length + 3 * frame.closureVars.length + frame.code.length +
    frame.debug?.elim 0 fun debug => 3 + debug.lineTable.length

namespace Value

mutual

/-- The fewest bytes that a value is read from. -/
def footprint : Value → Nat
  | .null | .undefined | .bool _ => 1
  | .int32 _ => 2
  | .float64 _ => 9
  | .string text => 2 + text.bytes.length
  | .function ⟨frame, constants⟩ => 1 + frame.footprint + footprintAll constants
termination_by structural value => value

def footprintAll : List Value → Nat
  | [] => 0
  | value :: rest => footprint value + footprintAll rest
termination_by structural values => values

end

private theorem footprintAll_eq_sum (values : List Value) :
    footprintAll values = (values.map footprint).sum := by
  induction values with
  | nil => rfl
  | cons value rest restIH => rw [footprintAll, restIH, List.map_cons, List.sum_cons]

mutual

/-- How often the loops over declared numbers go round while a value is read: once for each local,
captured variable and constant of each function in it. -/
def iterations : Value → Nat
  | .function ⟨frame, constants⟩ =>
      frame.locals.length + frame.closureVars.length + constants.length + iterationsAll constants
  | _ => 0
termination_by structural value => value

def iterationsAll : List Value → Nat
  | [] => 0
  | value :: rest => iterations value + iterationsAll rest
termination_by structural values => values

end

mutual

/-- Each time a loop goes round it reads a byte, and there is a tag besides. -/
theorem iterations_lt_footprint : (value : Value) → value.iterations < value.footprint
  | .null | .undefined | .bool _ | .int32 _ | .float64 _ => by simp [iterations, footprint]
  | .string text => by
      simp only [iterations, footprint]
      omega
  | .function ⟨frame, constants⟩ => by
      have each := length_add_iterationsAll_le constants
      simp only [iterations, footprint, Frame.footprint]
      omega

private theorem length_add_iterationsAll_le : (values : List Value) →
    values.length + iterationsAll values ≤ footprintAll values
  | [] => by simp [iterationsAll, footprintAll]
  | value :: rest => by
      have first := iterations_lt_footprint value
      have later := length_add_iterationsAll_le rest
      simp only [iterationsAll, footprintAll, List.length_cons]
      omega

end

end Value

namespace ObjectStream

def footprint (stream : ObjectStream) : Nat :=
  2 + (stream.atoms.dynamic.map fun text => 1 + text.bytes.length).sum + stream.value.footprint

def iterations (stream : ObjectStream) : Nat :=
  stream.atoms.dynamic.length + stream.value.iterations

end ObjectStream

/-!
## Readers and what they are charged
-/

namespace Reader

variable {α β : Type} {paid : Nat}

/-- With `paid` bytes read before, a reader has read enough for the cost of each of its results. -/
def Costs (reader : Reader α) (paid : Nat) (cost : α → Nat) : Prop :=
  ∀ ⦃before after result⦄, reader.run before = .ok result after →
    ∃ consumed, before.Advances consumed after ∧ cost result ≤ paid + consumed.length

namespace Costs

theorem pure {result : α} {cost : α → Nat} (covered : cost result ≤ paid) :
    (Pure.pure result : Reader α).Costs paid cost := by
  intro before after value run
  cases run
  exact ⟨[], .refl _, covered⟩

theorem fail {fault : Fault} {cost : α → Nat} : (Reader.fail fault).Costs paid cost := by
  intro before after result run
  cases run

/-- What the first reader has read pays for what the result still costs. -/
theorem bind {first : Reader α} {next : α → Reader β} {own : α → Nat} {cost : β → Nat}
    (start : first.Costs 0 own) (continued : ∀ value, (next value).Costs (paid + own value) cost) :
    (first >>= next).Costs paid cost := by
  intro before after result run
  obtain ⟨value, middle, ran, run⟩ := run_bind_ok run
  obtain ⟨left, moved, covered⟩ := start ran
  obtain ⟨right, further, total⟩ := continued value run
  refine ⟨left ++ right, moved.trans further, ?_⟩
  rw [List.length_append]
  omega

theorem map {reader : Reader α} {own : α → Nat} {cost : β → Nat} (view : α → β)
    (costs : reader.Costs 0 own) (covered : ∀ value, cost (view value) ≤ paid + own value) :
    (view <$> reader).Costs paid cost := by
  rw [map_eq_pure_bind]
  exact costs.bind fun value => .pure (covered value)

/-- A list costs what its elements cost together. -/
theorem times {reader : Reader α} {cost : α → Nat} (each : reader.Costs 0 cost) (count : Nat) :
    (Reader.times count reader).Costs 0 fun results => (results.map cost).sum := by
  induction count with
  | zero => exact .pure (Nat.le_refl 0)
  | succ count countIH =>
      rw [times_succ]
      refine each.bind fun first => countIH.bind fun later => .pure ?_
      simp

theorem weaken {reader : Reader α} {own cost : α → Nat} (costs : reader.Costs paid own)
    (covered : ∀ {before after result}, reader.run before = .ok result after →
      cost result ≤ own result) : reader.Costs paid cost := by
  intro before after result run
  obtain ⟨consumed, moved, enough⟩ := costs run
  exact ⟨consumed, moved, Nat.le_trans (covered run) enough⟩

theorem times_const {reader : Reader α} {price : Nat} (each : reader.Costs 0 fun _ => price)
    (count : Nat) : (Reader.times count reader).Costs 0 fun results => price * results.length :=
  (each.times count).weaken fun _ => by simp [Nat.mul_comm]

theorem times_count {reader : Reader α} {price : Nat} (each : reader.Costs 0 fun _ => price)
    (count : Nat) : (Reader.times count reader).Costs 0 fun _ => price * count :=
  (each.times_const count).weaken fun run => by simp [length_of_run_times_ok run]

/-- A reader that costs something is repeated no more often than there are bytes. -/
theorem times_length {reader : Reader α} {cost : α → Nat} (each : reader.Costs 0 cost)
    (positive : ∀ result, 0 < cost result) (count : Nat) :
    (Reader.times count reader).Costs 0 fun _ => count := by
  have single : reader.Costs 0 fun _ => 1 := each.weaken fun _ => positive _
  simpa using single.times_count count

/-- What a result costs was taken from the bytes that were left. -/
theorem le_rest {reader : Reader α} {cost : α → Nat} (costs : reader.Costs 0 cost)
    {before after : Cursor} {result : α} (run : reader.run before = .ok result after) :
    cost result + after.rest.length ≤ before.rest.length := by
  obtain ⟨consumed, moved, covered⟩ := costs run
  rw [moved.rest, List.length_append]
  omega

end Costs

theorem position_costs : position.Costs 0 fun _ => 0 := by
  intro before after offset run
  cases run
  exact ⟨[], .refl _, Nat.le_refl 0⟩

theorem byte_costs : byte.Costs 0 fun _ => 1 := by
  intro before after result run
  exact ⟨[result], advances_of_run_byte_ok run, Nat.le_refl 1⟩

theorem take_costs (count : Nat) : (take count).Costs 0 List.length := by
  intro before after taken run
  exact ⟨taken, (advances_of_run_take_ok run).1, Nat.le_add_left _ _⟩

theorem take_costs_count (count : Nat) : (take count).Costs 0 fun _ => count :=
  (take_costs count).weaken fun run => Nat.le_of_eq (advances_of_run_take_ok run).2.symm

private theorem field_costs {width : Nat} (view : List UInt8 → α) :
    (do return view (← take width) : Reader α).Costs 0 fun _ => width :=
  (take_costs_count width).bind fun _ => .pure (by simp)

end Reader

theorem Varint.read_costs (strict : Bool) : (Varint.read strict).Costs 0 fun _ => 1 := by
  intro before after number run
  obtain ⟨groups, moved, terminated, _⟩ := form_of_run_read run
  refine ⟨groups, moved, ?_⟩
  rw [Nat.zero_add]
  exact terminated.length_pos

theorem Varint.readUInt32_costs (strict : Bool) : (readUInt32 strict).Costs 0 fun _ => 1 := by
  refine Reader.position_costs.bind fun offset => (read_costs strict).bind fun number => ?_
  split
  · exact .fail
  · exact .pure (Nat.le_refl 1)

theorem Varint.readInt32_costs (strict : Bool) : (readInt32 strict).Costs 0 fun _ => 1 := by
  refine Reader.position_costs.bind fun offset => (read_costs strict).bind fun number => ?_
  split
  · exact .fail
  · split
    · exact .fail
    · exact .pure (Nat.le_refl 1)

theorem Text.read_costs (strict : Bool) :
    (Text.read strict).Costs 0 fun text => 1 + text.bytes.length :=
  (Varint.readUInt32_costs strict).bind fun _ => (Reader.take_costs _).bind fun taken =>
    .pure (by simp [Text.bytes])

/-!
## Functions
-/

section Functions

variable (options : Options) (table : AtomTable)

theorem Atom.read_costs (strict : Bool) : (Atom.read strict table).Costs 0 fun _ => 1 := by
  refine (Varint.readUInt32_costs strict).bind fun reference => ?_
  split
  · exact .pure (Nat.le_refl 1)
  · split
    · exact .pure (Nat.le_refl 1)
    · exact .fail

theorem VarDef.read_costs (strict : Bool) : (VarDef.read strict table).Costs 0 fun _ => 4 := by
  have scopeNext : (VarDef.readScopeNext strict).Costs 0 fun _ => 1 :=
    (Varint.readUInt32_costs strict).bind fun _ => .pure (Nat.le_refl 1)
  have flagByte : (VarDef.readFlagByte strict).Costs 0 fun _ => 1 := by
    refine Reader.position_costs.bind fun offset => Reader.byte_costs.bind fun flags => ?_
    split
    · exact .fail
    · exact .pure (Nat.le_refl 1)
  exact (Atom.read_costs table strict).bind fun _ => (Varint.readUInt32_costs strict).bind fun _ =>
    scopeNext.bind fun _ => flagByte.bind fun _ => .pure (Nat.le_refl 4)

theorem ClosureVar.read_costs (strict : Bool) :
    (ClosureVar.read strict table).Costs 0 fun _ => 3 :=
  (Atom.read_costs table strict).bind fun _ => (Varint.readUInt32_costs strict).bind fun _ =>
    Reader.byte_costs.bind fun _ => .pure (Nat.le_refl 3)

theorem DebugInfo.readIf_costs (announced strict : Bool) :
    (DebugInfo.readIf announced strict table).Costs 0 fun debug? =>
      debug?.elim 0 fun debug => 3 + debug.lineTable.length := by
  cases announced with
  | false => exact .pure (Nat.le_refl 0)
  | true =>
      have record : (DebugInfo.read strict table).Costs 0 fun debug => 3 + debug.lineTable.length :=
        (Atom.read_costs table strict).bind fun _ => (Varint.readUInt32_costs strict).bind fun _ =>
          (Varint.readUInt32_costs strict).bind fun _ => (Reader.take_costs _).bind fun _ =>
            .pure (Nat.le_refl _)
      exact record.map some fun debug => Nat.le_add_left _ _

theorem Frame.read_costs :
    (Frame.read options table).Costs 0 fun (frame, _) => frame.footprint := by
  have flags : (FunctionFlags.mk <$> Reader.word16 options.order).Costs 0 fun _ => 2 :=
    (Reader.field_costs _).map FunctionFlags.mk fun _ => Nat.le_refl 2
  refine flags.bind fun flags => ?_
  refine Reader.byte_costs.bind fun mode => (Atom.read_costs table _).bind fun name => ?_
  iterate 8 refine (Varint.readUInt32_costs _).bind fun _ => ?_
  refine ((VarDef.read_costs table _).times_const _).bind fun locals => ?_
  refine ((ClosureVar.read_costs table _).times_const _).bind fun closureVars => ?_
  refine (Reader.take_costs _).bind fun code => (DebugInfo.readIf_costs table _ _).bind fun debug? => ?_
  apply Reader.Costs.pure
  simp only [Frame.footprint]
  omega

variable {κ : Type} {constant : Reader κ} {cost : κ → Nat}

theorem Function.read_costs (each : constant.Costs 0 cost) :
    (Function.read options table constant).Costs 0 fun function =>
      function.toFrame.footprint + (function.constants.map cost).sum :=
  (Frame.read_costs options table).bind fun (_, count) => (each.times count).bind fun _ =>
    .pure (by simp)

end Functions

/-!
## Values and streams
-/

namespace Value

theorem readTagged_costs (options : Options) {body : Reader (Function Value)}
    (charged : body.Costs 0 fun function =>
      function.toFrame.footprint + (function.constants.map footprint).sum) :
    (readTagged options body).Costs 0 footprint := by
  refine Reader.position_costs.bind fun offset => Reader.byte_costs.bind fun byte => ?_
  split
  · exact .fail
  · exact .pure (Nat.le_refl 1)
  · exact .pure (Nat.le_refl 1)
  · exact .pure (Nat.le_refl 1)
  · exact .pure (Nat.le_refl 1)
  · exact (Varint.readInt32_costs options.strict).map int32 fun _ => Nat.le_refl 2
  · exact (Reader.field_costs _).map float64 fun _ => Nat.le_refl 9
  · refine (Text.read_costs options.strict).map string fun text => ?_
    simp only [footprint]
    omega
  · split
    · refine charged.map function fun ⟨frame, constants⟩ => ?_
      simp only [footprint, footprintAll_eq_sum]
      omega
    · exact .fail
  · exact .fail

/-- A value is read from no fewer bytes than its footprint. -/
theorem read_costs (options : Options) (table : AtomTable) (budget : Nat) :
    (read options table budget).Costs 0 footprint := by
  induction budget with
  | zero => exact readTagged_costs options .fail
  | succ budget budgetIH => exact readTagged_costs options (Function.read_costs options table budgetIH)

end Value

theorem AtomTable.read_costs (strict : Bool) : (AtomTable.read strict).Costs 0 fun table =>
    2 + (table.dynamic.map fun text => 1 + text.bytes.length).sum := by
  refine Reader.byte_costs.bind fun version => ?_
  split
  · refine (Varint.readUInt32_costs strict).bind fun count => ?_
    split
    · exact ((Text.read_costs strict).times _).bind fun dynamic => .pure (by simp)
    · exact .fail
  · exact .fail

namespace ObjectStream

theorem read_costs (options : Options) : (read options).Costs 0 footprint :=
  (AtomTable.read_costs options.strict).bind fun atoms =>
    (Value.read_costs options atoms options.maxDepth).bind fun value => .pure (by simp [footprint])

theorem iterations_le_footprint (stream : ObjectStream) : stream.iterations ≤ stream.footprint := by
  have atoms := List.length_le_sum_of_one_le
    (stream.atoms.dynamic.map fun text => 1 + text.bytes.length) (by simp)
  rw [List.length_map] at atoms
  have value := stream.value.iterations_lt_footprint
  simp only [iterations, footprint]
  omega

end ObjectStream

end BytecodeObject
