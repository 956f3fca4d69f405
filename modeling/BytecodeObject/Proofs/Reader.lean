import BytecodeObject.Reader

/-!
# Runs of readers

What a run says about its parts: which runs it was put together from, whether it ended with a result
or with a fault, and which bytes lie between the cursors that a result was read from and to.
-/

set_option autoImplicit false

namespace BytecodeObject

/-- The bytes `consumed` lie between two cursors over the same input. -/
structure Cursor.Advances (before : Cursor) (consumed : List UInt8) (after : Cursor) : Prop where
  rest : before.rest = consumed ++ after.rest
  offset : after.offset = before.offset + consumed.length

namespace Cursor.Advances

theorem refl (cursor : Cursor) : cursor.Advances [] cursor :=
  ⟨rfl, rfl⟩

theorem trans {before middle after : Cursor} {first second : List UInt8}
    (left : before.Advances first middle) (right : middle.Advances second after) :
    before.Advances (first ++ second) after := by
  constructor
  · rw [left.rest, right.rest, List.append_assoc]
  · rw [right.offset, left.offset, List.length_append, Nat.add_assoc]

/-- From the front of an input the offset counts the bytes that were read. -/
theorem offset_eq_length {bytes consumed : List UInt8} {after : Cursor}
    (moved : (ofBytes bytes).Advances consumed after) : after.offset = consumed.length := by
  rw [moved.offset, ofBytes, Nat.zero_add]

theorem length_le {bytes consumed : List UInt8} {after : Cursor}
    (moved : (ofBytes bytes).Advances consumed after) : consumed.length ≤ bytes.length := by
  have whole : bytes.length = (consumed ++ after.rest).length := congrArg List.length moved.rest
  rw [List.length_append] at whole
  omega

/-- An input of which nothing is left was read whole. -/
theorem eq_of_rest_eq_nil {bytes consumed : List UInt8} {after : Cursor}
    (moved : (ofBytes bytes).Advances consumed after) (finished : after.rest = []) :
    consumed = bytes := by
  have whole := moved.rest
  rw [finished, List.append_nil] at whole
  exact whole.symm

theorem same_byte {before left right : Cursor} {first second : UInt8}
    (one : before.Advances [first] left) (other : before.Advances [second] right) :
    first = second ∧ left = right := by
  obtain ⟨leftOffset, leftRest⟩ := left
  obtain ⟨rightOffset, rightRest⟩ := right
  cases one.offset.trans other.offset.symm
  cases one.rest.symm.trans other.rest
  exact ⟨rfl, rfl⟩

end Cursor.Advances

namespace Reader

/-!
## Sequencing
-/

section Sequencing

variable {σ α β : Type} {first : EStateM Fault σ α} {next : α → EStateM Fault σ β}
  {before middle after : σ} {value : α} {result : β} {fault : Fault}

/-- A sequence that ends well has run both of its parts. -/
theorem run_bind_ok (run : (first >>= next).run before = .ok result after) :
    ∃ value middle, first.run before = .ok value middle ∧
      (next value).run middle = .ok result after := by
  rw [EStateM.run_bind] at run
  cases ran : first.run before with
  | error fault middle =>
      rw [ran] at run
      cases run
  | ok value middle =>
      rw [ran] at run
      exact ⟨value, middle, rfl, run⟩

theorem run_bind_of_ok (ran : first.run before = .ok value middle) :
    (first >>= next).run before = (next value).run middle := by
  rw [EStateM.run_bind, ran]

/-- A sequence that fails has failed in its first part, or behind it in its second. -/
theorem run_bind_error (run : (first >>= next).run before = .error fault after) :
    first.run before = .error fault after ∨
      ∃ value middle, first.run before = .ok value middle ∧
        (next value).run middle = .error fault after := by
  rw [EStateM.run_bind] at run
  cases ran : first.run before with
  | error earlier middle =>
      rw [ran] at run
      cases run
      exact .inl rfl
  | ok value middle =>
      rw [ran] at run
      exact .inr ⟨value, middle, rfl, run⟩

theorem run_bind_of_error (ran : first.run before = .error fault after) :
    (first >>= next).run before = .error fault after := by
  rw [EStateM.run_bind, ran]

end Sequencing

theorem run_map_ok {α β : Type} {reader : Reader α} {view : α → β}
    {before after : Cursor} {result : β} (run : (view <$> reader).run before = .ok result after) :
    ∃ value, reader.run before = .ok value after ∧ view value = result := by
  rw [map_eq_pure_bind] at run
  obtain ⟨value, middle, ran, run⟩ := run_bind_ok run
  cases run
  exact ⟨value, ran, rfl⟩

/-- A repetition that ends well has run as often as it was asked to. -/
theorem length_of_run_times_ok {α : Type} {reader : Reader α} {count : Nat}
    {before after : Cursor} {results : List α}
    (run : (times count reader).run before = .ok results after) : results.length = count := by
  induction count generalizing before results with
  | zero =>
      cases run
      rfl
  | succ count countIH =>
      rw [times_succ] at run
      obtain ⟨result, middle, _, run⟩ := run_bind_ok run
      obtain ⟨later, last, laterRun, run⟩ := run_bind_ok run
      cases run
      rw [List.length_cons, countIH laterRun]

/-- A repetition that ends well has run its reader behind the results that it had before. -/
theorem run_times_split {α : Type} {reader : Reader α} {count : Nat}
    {before place after : Cursor} {earlier results : List α}
    (run : (times count reader).run before = .ok results after)
    (begun : (times earlier.length reader).run before = .ok earlier place)
    (more : earlier.length < count) :
    ∃ result later middle, reader.run place = .ok result middle ∧
      (times (count - earlier.length - 1) reader).run middle = .ok later after ∧
      results = earlier ++ result :: later := by
  induction earlier generalizing count before results with
  | nil =>
      cases begun
      obtain ⟨count, rfl⟩ := Nat.exists_eq_add_one_of_ne_zero (Nat.ne_of_gt more)
      rw [times_succ] at run
      obtain ⟨result, middle, ran, run⟩ := run_bind_ok run
      obtain ⟨later, last, laterRun, run⟩ := run_bind_ok run
      cases run
      exact ⟨result, later, middle, ran, laterRun, rfl⟩
  | cons first earlier earlierIH =>
      obtain ⟨count, rfl⟩ := Nat.exists_eq_add_one_of_ne_zero (Nat.ne_zero_of_lt more)
      rw [List.length_cons, times_succ] at begun
      obtain ⟨head, middle, headRun, begun⟩ := run_bind_ok begun
      obtain ⟨tail, last, tailRun, begun⟩ := run_bind_ok begun
      cases begun
      rw [times_succ, run_bind_of_ok headRun] at run
      obtain ⟨others, last, othersRun, run⟩ := run_bind_ok run
      cases run
      obtain ⟨result, later, reached, ran, laterRun, rfl⟩ :=
        earlierIH othersRun tailRun (Nat.lt_of_succ_lt_succ more)
      refine ⟨result, later, reached, ran, ?_, rfl⟩
      rwa [List.length_cons, Nat.add_sub_add_right]

/-- A change that leaves every result of a reader as it is does so in its repetition. -/
theorem map_eq_of_run_times_ok {α : Type} {reader : Reader α} {view : α → α}
    (each : ∀ {before result after}, reader.run before = .ok result after → view result = result)
    {count : Nat} {before after : Cursor} {results : List α}
    (run : (times count reader).run before = .ok results after) : results.map view = results := by
  induction count generalizing before results with
  | zero =>
      cases run
      rfl
  | succ count countIH =>
      rw [times_succ] at run
      obtain ⟨first, middle, firstRun, run⟩ := run_bind_ok run
      obtain ⟨later, last, laterRun, run⟩ := run_bind_ok run
      cases run
      rw [List.map_cons, each firstRun, countIH laterRun]

/-!
## Elementary readers
-/

theorem advances_of_run_byte_ok {before after : Cursor} {first : UInt8}
    (run : byte.run before = .ok first after) : before.Advances [first] after := by
  obtain ⟨offset, rest⟩ := before
  cases rest with
  | nil => cases run
  | cons head rest =>
      cases run
      exact ⟨rfl, rfl⟩

theorem advances_of_run_take_ok {count : Nat} {before after : Cursor} {taken : List UInt8}
    (run : (take count).run before = .ok taken after) :
    before.Advances taken after ∧ taken.length = count := by
  obtain ⟨offset, rest⟩ := before
  rw [run_take] at run
  split at run
  · cases run
  · rename_i enough
    cases run
    have length : (rest.take count).length = count := by
      rw [List.length_take]
      omega
    exact ⟨⟨(List.take_append_drop count rest).symm, by rw [length]⟩, length⟩

end Reader

end BytecodeObject
