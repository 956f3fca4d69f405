import BytecodeObject.Proofs.Faults

/-!
# Where readers stop

A run that ends in a fault leaves the cursor where the fault arose, behind all that was read before.
However a run ends, the cursor has moved over bytes of the input. A fault that says the input has ended
says so of the place where the cursor has come to stand, and reading can go on from there.
-/

set_option autoImplicit false

namespace BytecodeObject

/-!
## How a run ends
-/

/-- A run from `before` ends in `after`: in the given fault, or with some result where none is given. -/
inductive Ends {σ α : Type} (program : EStateM Fault σ α) (before : σ) : Option Fault → σ → Prop where
  | result {value : α} {after : σ} (run : program.run before = .ok value after) :
      Ends program before none after
  | fault {fault : Fault} {after : σ} (run : program.run before = .error fault after) :
      Ends program before (some fault) after

namespace Ends

variable {σ α β : Type} {before after : σ} {fault? : Option Fault}

/-- Every run ends, in a fault or with a result. -/
theorem total (program : EStateM Fault σ α) (before : σ) :
    ∃ fault? after, Ends program before fault? after := by
  cases run : program.run before with
  | ok value after => exact ⟨none, after, .result run⟩
  | error fault after => exact ⟨some fault, after, .fault run⟩

/-- A sequence ends in a fault of its first part, or as its second part ends behind the first. -/
theorem bind_cases {first : EStateM Fault σ α} {next : α → EStateM Fault σ β}
    (ended : Ends (first >>= next) before fault? after) :
    (fault?.isSome = true ∧ Ends first before fault? after) ∨
      ∃ value middle, first.run before = .ok value middle ∧ Ends (next value) middle fault? after := by
  cases ended with
  | result run =>
      obtain ⟨value, middle, ran, run⟩ := Reader.run_bind_ok run
      exact .inr ⟨value, middle, ran, .result run⟩
  | fault run =>
      rcases Reader.run_bind_error run with failed | ⟨value, middle, ran, run⟩
      · exact .inl ⟨rfl, .fault failed⟩
      · exact .inr ⟨value, middle, ran, .fault run⟩

end Ends

/-- What is known of all runs of a kind: of the state that one starts from, how it ends and the state that
it ends in. What is known has to compose, since only a run without a fault is continued. -/
structure Conduct (σ : Type) where
  holds : σ → Option Fault → σ → Prop
  refl : ∀ state, holds state none state
  trans : ∀ {before middle after fault?}, holds before none middle → holds middle fault? after →
    holds before fault? after

namespace Conduct

variable {σ α β : Type}

def Governs (conduct : Conduct σ) (program : EStateM Fault σ α) : Prop :=
  ∀ ⦃before fault? after⦄, Ends program before fault? after → conduct.holds before fault? after

namespace Governs

variable {conduct : Conduct σ}

theorem pure (result : α) : conduct.Governs (Pure.pure result : EStateM Fault σ α) := by
  intro before fault? after ended
  cases ended with
  | result run =>
      cases run
      exact conduct.refl before
  | fault run => cases run

/-- What both parts of a run keep to is kept by the run. -/
theorem bind {first : EStateM Fault σ α} {next : α → EStateM Fault σ β}
    (start : conduct.Governs first) (continued : ∀ value, conduct.Governs (next value)) :
    conduct.Governs (first >>= next) := by
  intro before fault? after ended
  rcases ended.bind_cases with ⟨_, stopped⟩ | ⟨value, middle, ran, ended⟩
  · exact start stopped
  · exact conduct.trans (start (.result ran)) (continued value ended)

theorem map {program : EStateM Fault σ α} (view : α → β) (governed : conduct.Governs program) :
    conduct.Governs (view <$> program) := by
  rw [map_eq_pure_bind]
  exact governed.bind fun value => .pure (view value)

theorem times {program : EStateM Fault σ α} (governed : conduct.Governs program) (count : Nat) :
    conduct.Governs (Reader.times count program) := by
  induction count with
  | zero => exact .pure []
  | succ count countIH =>
      rw [Reader.times_succ]
      exact governed.bind fun first => countIH.bind fun later => .pure (first :: later)

end Governs

end Conduct

/-!
## Cursors that only advance
-/

def Fault.FitsAt (cursor : Cursor) : Fault → Prop
  | .unexpectedEnd offset needed remaining =>
      cursor.offset = offset ∧ cursor.remaining = remaining ∧ remaining < needed
  | _ => True

theorem Fault.none_fitsAt {cursor : Cursor} : ∀ fault ∈ (none : Option Fault), fault.FitsAt cursor :=
  nofun

/-- The cursor moves over bytes of the input, and a fault fits the place where it stops. -/
def Cursor.steady : Conduct Cursor where
  holds before fault? after :=
    (∃ consumed, before.Advances consumed after) ∧ ∀ fault ∈ fault?, fault.FitsAt after
  refl cursor := ⟨⟨[], .refl cursor⟩, Fault.none_fitsAt⟩
  trans first second := by
    obtain ⟨⟨earlier, firstMoved⟩, _⟩ := first
    obtain ⟨⟨later, secondMoved⟩, fits⟩ := second
    exact ⟨⟨earlier ++ later, firstMoved.trans secondMoved⟩, fits⟩

abbrev Reader.Steady {α : Type} (reader : Reader α) : Prop :=
  Cursor.steady.Governs reader

namespace Reader

variable {α β : Type}

theorem fail_steady {fault : Fault} (silent : ∀ cursor, fault.FitsAt cursor) :
    (fail fault : Reader α).Steady := by
  intro before fault? after ended
  cases ended with
  | result run => cases run
  | fault run =>
      cases run
      refine ⟨⟨[], .refl before⟩, fun given same => ?_⟩
      cases same
      exact silent before

theorem position_steady : position.Steady := by
  intro before fault? after ended
  cases ended with
  | result run =>
      cases run
      exact Cursor.steady.refl before
  | fault run => cases run

theorem byte_steady : byte.Steady := by
  intro before fault? after ended
  cases ended with
  | result run => exact ⟨⟨_, advances_of_run_byte_ok run⟩, Fault.none_fitsAt⟩
  | fault run =>
      obtain ⟨offset, rest⟩ := before
      cases rest with
      | nil =>
          cases run
          refine ⟨⟨[], .refl _⟩, fun fault same => ?_⟩
          cases same
          exact ⟨rfl, rfl, Nat.one_pos⟩
      | cons first rest => cases run

theorem take_steady (count : Nat) : (take count).Steady := by
  intro before fault? after ended
  cases ended with
  | result run => exact ⟨⟨_, (advances_of_run_take_ok run).1⟩, Fault.none_fitsAt⟩
  | fault run =>
      obtain ⟨offset, rest⟩ := before
      rw [run_take] at run
      split at run
      · rename_i fewer
        cases run
        refine ⟨⟨[], .refl _⟩, fun fault same => ?_⟩
        cases same
        exact ⟨rfl, rfl, fewer⟩
      · cases run

theorem word16_steady (order : ByteOrder) : (word16 order).Steady :=
  (take_steady 2).bind fun _ => .pure _

theorem double_steady (order : ByteOrder) : (Reader.double order).Steady :=
  (take_steady 8).bind fun _ => .pure _

/-!
## Fields that fail in their place
-/

/-- A fault of the reader leaves the cursor where it was. -/
def FailsInPlace (reader : Reader α) : Prop :=
  ∀ ⦃before fault after⦄, reader.run before = .error fault after → after = before

theorem byte_failsInPlace : byte.FailsInPlace := by
  intro before fault after run
  obtain ⟨offset, rest⟩ := before
  cases rest with
  | nil =>
      cases run
      rfl
  | cons first rest => cases run

theorem take_failsInPlace (count : Nat) : (take count).FailsInPlace := by
  intro before fault after run
  obtain ⟨offset, rest⟩ := before
  rw [run_take] at run
  split at run
  · cases run
    rfl
  · cases run

theorem FailsInPlace.map {reader : Reader α} (failsInPlace : reader.FailsInPlace) (view : α → β) :
    (view <$> reader).FailsInPlace := by
  intro before fault after run
  rw [map_eq_pure_bind] at run
  rcases run_bind_error run with failed | ⟨value, middle, _, finished⟩
  · exact failsInPlace failed
  · cases finished

theorem word16_failsInPlace (order : ByteOrder) : (word16 order).FailsInPlace := by
  rw [word16, bind_pure_comp]
  exact (take_failsInPlace 2).map _

theorem double_failsInPlace (order : ByteOrder) : (Reader.double order).FailsInPlace := by
  rw [Reader.double, bind_pure_comp]
  exact (take_failsInPlace 8).map _

/-!
## Readers of a bounded number of bytes
-/

def ReadsAtMost (reader : Reader α) (limit : Nat) : Prop :=
  ∀ ⦃before fault? after⦄, Ends reader before fault? after → after.offset ≤ before.offset + limit

namespace ReadsAtMost

theorem pure (result : α) (limit : Nat) : ReadsAtMost (Pure.pure result) limit := by
  intro before fault? after ended
  cases ended with
  | result run =>
      cases run
      exact Nat.le_add_right _ _
  | fault run => cases run

theorem fail (fault : Fault) (limit : Nat) : ReadsAtMost (Reader.fail fault : Reader α) limit := by
  intro before fault? after ended
  cases ended with
  | result run => cases run
  | fault run =>
      cases run
      exact Nat.le_add_right _ _

theorem bind {first : Reader α} {next : α → Reader β} {start limit : Nat}
    (begun : first.ReadsAtMost start) (continued : ∀ value, (next value).ReadsAtMost limit) :
    (first >>= next).ReadsAtMost (limit + start) := by
  intro before fault? after ended
  rcases ended.bind_cases with ⟨_, stopped⟩ | ⟨value, middle, ran, ended⟩
  · have reached := begun stopped
    omega
  · have reached := begun (.result ran)
    have further := continued value ended
    omega

/-- A check of what was read reads nothing. -/
theorem checked {first : Reader α} {next : α → Reader β} {limit : Nat}
    (begun : first.ReadsAtMost limit) (check : ∀ value, (next value).ReadsAtMost 0) :
    (first >>= next).ReadsAtMost limit := by
  rw [← Nat.zero_add limit]
  exact begun.bind check

theorem map {reader : Reader α} {limit : Nat} (reads : reader.ReadsAtMost limit) (view : α → β) :
    (view <$> reader).ReadsAtMost limit := by
  rw [map_eq_pure_bind]
  exact reads.checked fun value => .pure (view value) 0

theorem bind_at {next : Nat → Reader β} {limit : Nat}
    (continued : ∀ offset, (next offset).ReadsAtMost limit) :
    (position >>= next).ReadsAtMost limit := by
  intro before fault? after ended
  rcases ended.bind_cases with ⟨isSome, stopped⟩ | ⟨offset, middle, ran, ended⟩
  · cases stopped with
    | result run => cases isSome
    | fault run => cases run
  · cases ran
    exact continued _ ended

end ReadsAtMost

theorem byte_readsAtMost : byte.ReadsAtMost 1 := by
  intro before fault? after ended
  cases ended with
  | result run => exact Nat.le_of_eq (advances_of_run_byte_ok run).offset
  | fault run =>
      rw [byte_failsInPlace run]
      exact Nat.le_add_right _ _

end Reader

/-!
## Integers
-/

namespace Varint

variable {strict : Bool}

private theorem readGroups_steady (offset limit : Nat) : (readGroups strict offset limit).Steady := by
  induction limit with
  | zero => exact Reader.fail_steady fun _ => trivial
  | succ limit limitIH =>
      refine Reader.byte_steady.bind fun byte => ?_
      split
      · split
        · exact Reader.fail_steady fun _ => trivial
        · exact .pure _
      · exact limitIH.bind fun higher => .pure _

theorem read_steady : (read strict).Steady :=
  Reader.position_steady.bind fun offset => readGroups_steady offset maxGroups

theorem readUInt32_steady : (readUInt32 strict).Steady := by
  refine Reader.position_steady.bind fun offset => read_steady.bind fun number => ?_
  split
  · exact Reader.fail_steady fun _ => trivial
  · exact .pure _

theorem readInt32_steady : (readInt32 strict).Steady := by
  refine Reader.position_steady.bind fun offset => read_steady.bind fun number => ?_
  split
  · exact Reader.fail_steady fun _ => trivial
  · split
    · exact Reader.fail_steady fun _ => trivial
    · exact .pure _

private theorem readGroups_readsAtMost (offset limit : Nat) :
    (readGroups strict offset limit).ReadsAtMost limit := by
  induction limit with
  | zero => exact .fail _ _
  | succ limit limitIH =>
      refine Reader.byte_readsAtMost.bind fun byte => ?_
      split
      · split
        · exact .fail _ _
        · exact .pure _ _
      · exact limitIH.checked fun higher => .pure _ 0

theorem read_readsAtMost : (read strict).ReadsAtMost maxGroups :=
  .bind_at fun offset => readGroups_readsAtMost offset maxGroups

theorem readUInt32_readsAtMost : (readUInt32 strict).ReadsAtMost maxGroups := by
  refine .bind_at fun offset => read_readsAtMost.checked fun number => ?_
  split
  · exact .fail _ _
  · exact .pure _ _

theorem readInt32_readsAtMost : (readInt32 strict).ReadsAtMost maxGroups := by
  refine .bind_at fun offset => read_readsAtMost.checked fun number => ?_
  split
  · exact .fail _ _
  · split
    · exact .fail _ _
    · exact .pure _ _

end Varint

/-!
## Records
-/

theorem Text.read_steady {strict : Bool} : (Text.read strict).Steady :=
  Varint.readUInt32_steady.bind fun _ => (Reader.take_steady _).bind fun _ => .pure _

theorem AtomTable.read_steady {strict : Bool} : (AtomTable.read strict).Steady := by
  refine Reader.byte_steady.bind fun version => ?_
  split
  · refine Varint.readUInt32_steady.bind fun count => ?_
    split
    · exact (Text.read_steady.times _).bind fun _ => .pure _
    · exact Reader.fail_steady fun _ => trivial
  · exact Reader.fail_steady fun _ => trivial

variable {strict : Bool} {table : AtomTable}

private theorem AtomTable.fitsAt_of_resolve_error {index : UInt32} {fault : Fault}
    (unresolved : table.resolve index = .error fault) (cursor : Cursor) : fault.FitsAt cursor := by
  unfold resolve at unresolved
  split at unresolved
  · cases unresolved
  · cases unresolved
    trivial

theorem Atom.read_steady : (Atom.read strict table).Steady := by
  refine Varint.readUInt32_steady.bind fun reference => ?_
  split
  · exact .pure _
  · split
    · exact .pure _
    · exact Reader.fail_steady (AtomTable.fitsAt_of_resolve_error ‹_›)

theorem VarDef.readFlagByte_steady : (readFlagByte strict).Steady := by
  refine Reader.position_steady.bind fun offset => Reader.byte_steady.bind fun flags => ?_
  split
  · exact Reader.fail_steady fun _ => trivial
  · exact .pure _

theorem VarDef.read_steady : (VarDef.read strict table).Steady :=
  Atom.read_steady.bind fun _ => Varint.readUInt32_steady.bind fun _ =>
    (Varint.readUInt32_steady.bind fun _ => .pure _).bind fun _ =>
      readFlagByte_steady.bind fun _ => .pure _

theorem ClosureVar.read_steady : (ClosureVar.read strict table).Steady :=
  Atom.read_steady.bind fun _ => Varint.readUInt32_steady.bind fun _ =>
    Reader.byte_steady.bind fun _ => .pure _

theorem DebugInfo.read_steady : (DebugInfo.read strict table).Steady :=
  Atom.read_steady.bind fun _ => Varint.readUInt32_steady.bind fun _ =>
    Varint.readUInt32_steady.bind fun _ => (Reader.take_steady _).bind fun _ => .pure _

theorem DebugInfo.readIf_steady (announced : Bool) :
    (DebugInfo.readIf announced strict table).Steady := by
  unfold readIf
  split
  · exact read_steady.map some
  · exact .pure none

theorem Frame.read_steady (options : Options) : (Frame.read options table).Steady :=
  ((Reader.word16_steady _).map _).bind fun _ => Reader.byte_steady.bind fun _ =>
    Atom.read_steady.bind fun _ =>
      Varint.readUInt32_steady.bind fun _ => Varint.readUInt32_steady.bind fun _ =>
      Varint.readUInt32_steady.bind fun _ => Varint.readUInt32_steady.bind fun _ =>
      Varint.readUInt32_steady.bind fun _ => Varint.readUInt32_steady.bind fun _ =>
      Varint.readUInt32_steady.bind fun _ => Varint.readUInt32_steady.bind fun _ =>
        (VarDef.read_steady.times _).bind fun _ => (ClosureVar.read_steady.times _).bind fun _ =>
          (Reader.take_steady _).bind fun _ => (DebugInfo.readIf_steady _).bind fun _ => .pure _

end BytecodeObject
