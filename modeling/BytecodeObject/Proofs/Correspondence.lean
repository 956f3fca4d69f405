import BytecodeObject.Emission
import BytecodeObject.Proofs.Reader

/-!
# Readers and emissions

Two relations tie what is read to what is written. A reader is retraced by an emission when the
emission of each result covers the bytes that were read for it; a reader restores a result from an
emission when it reads those bytes, and nothing of what follows them, as that result. Both hold of a
sequence where they hold of its parts, so no record has to be taken apart byte by byte.
-/

set_option autoImplicit false

namespace BytecodeObject

namespace Emission

/-!
## Complete emissions
-/

theorem fault?_append (left right : Emission) :
    (left ++ right).fault? = left.fault?.or right.fault? := by
  obtain ⟨fields, fault?⟩ := left
  cases fault? <;> rfl

theorem fault?_append_eq_none {left right : Emission} :
    (left ++ right).fault? = none ↔ left.fault? = none ∧ right.fault? = none := by
  rw [fault?_append, Option.or_eq_none_iff]

/-- The bytes of a complete emission stand in front of those of what follows it. -/
theorem render_append {left : Emission} (right : Emission) (order : ByteOrder)
    (complete : left.fault? = none) :
    (left ++ right).render order = left.render order ++ right.render order := by
  obtain ⟨fields, fault?⟩ := left
  cases complete
  simp [append_def, join, render]

@[simp] theorem render_bytes (content : List UInt8) (order : ByteOrder) :
    (bytes content).render order = content := by
  simp [bytes, render, Field.render]

/-- An output is complete exactly where there is no fault, and is then the bytes of all fields. -/
theorem result_eq_ok_iff {emission : Emission} {order : ByteOrder} {output : List UInt8} :
    emission.result order = .ok output ↔
      emission.fault? = none ∧ emission.render order = output := by
  unfold result
  cases emission.fault? <;> simp

theorem result_eq_error_iff {emission : Emission} {order : ByteOrder} {fault : Fault} :
    emission.result order = .error fault ↔ emission.fault? = some fault := by
  unfold result
  cases emission.fault? <;> simp

/-!
## Covering what was read
-/

/-- An emission that stands for the bytes between two cursors. It is complete and no longer than
they are; where `strict` is set it is those bytes. -/
structure Spans (emission : Emission) (order : ByteOrder) (strict : Bool)
    (before after : Cursor) : Prop where
  complete : emission.fault? = none
  covers : ∃ consumed, before.Advances consumed after ∧
    (emission.render order).length ≤ consumed.length ∧
    (strict = true → emission.render order = consumed)

theorem Spans.of_advances {emission : Emission} {order : ByteOrder} {strict : Bool}
    {before after : Cursor} {consumed : List UInt8} (moved : before.Advances consumed after)
    (complete : emission.fault? = none) (rendered : emission.render order = consumed) :
    emission.Spans order strict before after :=
  ⟨complete, consumed, moved, Nat.le_of_eq (congrArg List.length rendered), fun _ => rendered⟩

theorem Spans.nothing (order : ByteOrder) (strict : Bool) (cursor : Cursor) :
    nothing.Spans order strict cursor cursor :=
  .of_advances (.refl cursor) rfl rfl

/-- Emissions for neighbouring stretches of an input stand for both together. -/
theorem Spans.append {left right : Emission} {order : ByteOrder} {strict : Bool}
    {before middle after : Cursor} (first : left.Spans order strict before middle)
    (second : right.Spans order strict middle after) :
    (left ++ right).Spans order strict before after := by
  obtain ⟨leftComplete, leftConsumed, leftMoved, leftShort, leftExact⟩ := first
  obtain ⟨rightComplete, rightConsumed, rightMoved, rightShort, rightExact⟩ := second
  refine ⟨fault?_append_eq_none.mpr ⟨leftComplete, rightComplete⟩,
    leftConsumed ++ rightConsumed, leftMoved.trans rightMoved, ?_, ?_⟩
  · rw [render_append right order leftComplete, List.length_append, List.length_append]
    exact Nat.add_le_add leftShort rightShort
  · intro isStrict
    rw [render_append right order leftComplete, leftExact isStrict, rightExact isStrict]

end Emission

namespace Reader

variable {α β : Type} {order : ByteOrder} {strict : Bool}

/-- The emission of each result of a reader stands for the bytes that were read for it. -/
def Retraced (reader : Reader α) (emit : α → Emission) (order : ByteOrder) (strict : Bool) : Prop :=
  ∀ ⦃before result after⦄, reader.run before = .ok result after →
    (emit result).Spans order strict before after

theorem Retraced.times {reader : Reader α} {emit : α → Emission}
    (each : reader.Retraced emit order strict) (count : Nat) :
    (Reader.times count reader).Retraced (fun results => .concat (results.map emit))
      order strict := by
  intro before results after run
  induction count generalizing before results with
  | zero =>
      cases run
      exact .nothing order strict after
  | succ count countIH =>
      rw [times_succ] at run
      obtain ⟨first, middle, firstRun, run⟩ := run_bind_ok run
      obtain ⟨later, last, laterRun, run⟩ := run_bind_ok run
      cases run
      exact (each firstRun).append (countIH laterRun)

/-!
## Reading what was written
-/

/-- Where the emission is complete, its bytes are read as the result, whatever follows them. -/
def Restores (reader : Reader α) (order : ByteOrder) (emission : Emission) (result : α) : Prop :=
  emission.fault? = none → ∀ offset rest,
    reader.run ⟨offset, emission.render order ++ rest⟩ =
      .ok result ⟨offset + (emission.render order).length, rest⟩

theorem Restores.pure (order : ByteOrder) (result : α) :
    (Pure.pure result : Reader α).Restores order .nothing result := by
  intro _ offset rest
  rfl

/-- Of an emission that ends in a fault nothing is to be read back. -/
theorem Restores.fail (reader : Reader α) (order : ByteOrder) (fault : Fault) (result : α) :
    reader.Restores order (.fail fault) result := by
  intro complete
  cases complete

/-- What is written of two parts is read by a reader of the first that goes on with the second. -/
theorem Restores.bind {first : Reader α} {next : α → Reader β} {left right : Emission}
    {value : α} {result : β} (restored : first.Restores order left value)
    (continued : (next value).Restores order right result) :
    (first >>= next).Restores order (left ++ right) result := by
  intro complete offset rest
  obtain ⟨leftComplete, rightComplete⟩ := Emission.fault?_append_eq_none.mp complete
  rw [Emission.render_append right order leftComplete, List.append_assoc,
    run_bind_of_ok (restored leftComplete offset _), continued rightComplete, List.length_append,
    Nat.add_assoc]

/-- What reads nothing further only puts the result into another shape. -/
theorem Restores.bind_eq_pure {first : Reader α} {next : α → Reader β} {emission : Emission}
    {value : α} {result : β} (restored : first.Restores order emission value)
    (finished : next value = Pure.pure result) :
    (first >>= next).Restores order emission result := by
  have continued : (next value).Restores order .nothing result := by
    rw [finished]
    exact .pure order result
  have joined := restored.bind continued
  rwa [Emission.append_nothing] at joined

theorem Restores.bind_pure {first : Reader α} {emission : Emission} {value : α}
    (restored : first.Restores order emission value) (view : α → β) :
    (first >>= fun read => Pure.pure (view read)).Restores order emission (view value) :=
  restored.bind_eq_pure rfl

theorem Restores.map {reader : Reader α} {emission : Emission} {value : α} (view : α → β)
    (restored : reader.Restores order emission value) :
    (view <$> reader).Restores order emission (view value) := by
  rw [map_eq_pure_bind]
  exact restored.bind_pure view

/-- A list is read back element by element. -/
theorem Restores.times {γ : Type} {reader : Reader β} {emit : γ → Emission} {view : γ → β}
    {values : List γ}
    (each : ∀ value ∈ values, reader.Restores order (emit value) (view value)) :
    (Reader.times values.length reader).Restores order (.concat (values.map emit))
      (values.map view) := by
  induction values with
  | nil => exact .pure order []
  | cons value values valuesIH =>
      have first := each value List.mem_cons_self
      have later := valuesIH fun other member => each other (List.mem_cons_of_mem value member)
      rw [List.length_cons, times_succ]
      exact first.bind (later.bind_pure (view value :: ·))

/-- A strict reader whose results are written as complete emissions reads these emissions and no other
bytes. -/
theorem Retraced.run_eq_ok_iff {reader : Reader α} {emit : α → Emission}
    (retraced : reader.Retraced emit order true)
    (restores : ∀ result, reader.Restores order (emit result) result)
    (complete : ∀ result, (emit result).fault? = none) {before after : Cursor} {result : α} :
    reader.run before = .ok result after ↔ before.Advances ((emit result).render order) after := by
  constructor
  · intro run
    obtain ⟨_, consumed, moved, _, same⟩ := retraced run
    rwa [same rfl]
  · intro moved
    obtain ⟨offset, bytes⟩ := before
    obtain ⟨place, rest⟩ := after
    obtain ⟨split, reached⟩ := moved
    dsimp only at split reached
    rw [split, reached]
    exact restores result (complete result) offset rest

end Reader

end BytecodeObject
