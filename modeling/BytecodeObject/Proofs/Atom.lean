import BytecodeObject.Atom.Table
import BytecodeObject.Proofs.Text

/-!
# Atoms, read and written

A table with no more atoms than a header may list is read back from its header, and its ids stay
below the bit that marks inline numbers. An atom that is read is always one that its table holds, so
it can be written again.
-/

set_option autoImplicit false

namespace BytecodeObject

/-!
## Tables
-/

namespace AtomTable

theorem resolve_eq_ok_iff {table : AtomTable} {index : UInt32} {text : String} :
    table.resolve index = .ok text ↔ table.text? index = some text := by
  unfold resolve
  cases table.text? index <;> simp

/-- Only ids in range have a text. -/
theorem lt_size_of_text?_eq_some {table : AtomTable} {index : UInt32} {text : String}
    (found : table.text? index = some text) : index.toNat < table.size := by
  unfold text? at found
  unfold size
  split at found
  · rename_i builtin
    obtain ⟨bound, _⟩ := List.getElem?_eq_some_iff.mp builtin
    rw [Atom.length_builtin] at bound
    omega
  · obtain ⟨entry, dynamic, _⟩ := Option.map_eq_some_iff.mp found
    obtain ⟨bound, _⟩ := List.getElem?_eq_some_iff.mp dynamic
    omega

theorem size_le_of_text?_eq_none {table : AtomTable} {index : UInt32}
    (missing : table.text? index = none) : table.size ≤ index.toNat := by
  unfold text? at missing
  unfold size
  split at missing
  · cases missing
  · rename_i beyond
    have builtin := List.getElem?_eq_none_iff.mp beyond
    have dynamic := List.getElem?_eq_none_iff.mp (Option.map_eq_none_iff.mp missing)
    rw [Atom.length_builtin] at builtin
    omega

/-- A header that was written is read back as its table, if its ids stay inline. -/
theorem read_restores (strict : Bool) (order : ByteOrder) {table : AtomTable}
    (inline : table.dynamic.length ≤ maxDynamic) :
    (AtomTable.read strict).Restores order table.emit table := by
  rw [AtomTable.emit, Emission.append_assoc]
  refine (Reader.byte_restores order formatVersion).bind ?_
  rw [if_pos rfl]
  refine Reader.Restores.bind_length fun count same => ?_
  rw [same, if_pos inline]
  have listed : (Reader.times table.dynamic.length (Text.read strict)).Restores order
      (.concat (table.dynamic.map Text.emit)) (table.dynamic.map id) :=
    .times fun text _ => Text.read_restores strict order text
  rw [List.map_id] at listed
  exact listed.bind_pure AtomTable.mk

/-- A header that was read is written in the bytes it was read from, or in fewer where reading was
lenient. -/
theorem read_retraced (strict : Bool) (order : ByteOrder) :
    (AtomTable.read strict).Retraced AtomTable.emit order strict := by
  intro before result after run
  obtain ⟨version, afterVersion, versionRun, run⟩ := Reader.run_bind_ok run
  split at run
  · rename_i isVersion
    obtain ⟨count, afterCount, countRun, run⟩ := Reader.run_bind_ok run
    split at run
    · obtain ⟨dynamic, last, dynamicRun, run⟩ := Reader.run_bind_ok run
      cases run
      have length := Reader.length_of_run_times_ok dynamicRun
      have head := Reader.byte_retraced order strict versionRun
      rw [isVersion] at head
      exact (head.append (.length countRun "atom table" length)).append
        ((Text.read_retraced strict order).times _ dynamicRun)
    · cases run
  · cases run

theorem length_dynamic_of_run_read_ok {strict : Bool} {before after : Cursor} {table : AtomTable}
    (run : (AtomTable.read strict).run before = .ok table after) :
    table.dynamic.length ≤ maxDynamic := by
  obtain ⟨version, afterVersion, _, run⟩ := Reader.run_bind_ok run
  split at run
  · obtain ⟨count, afterCount, _, run⟩ := Reader.run_bind_ok run
    split at run
    · rename_i inline
      obtain ⟨dynamic, last, dynamicRun, run⟩ := Reader.run_bind_ok run
      cases run
      rw [Reader.length_of_run_times_ok dynamicRun]
      exact inline
    · cases run
  · cases run

/-- The header of an input declares a number of atoms, and the texts of these start at `next`. -/
def Declares (strict : Bool) (input : List UInt8) (count : UInt32) (next : Cursor) : Prop :=
  ∃ rest, input = formatVersion :: rest ∧
    (Varint.readUInt32 strict).run ⟨1, rest⟩ = .ok count next

theorem Declares.unique {strict : Bool} {input : List UInt8} {one other : UInt32}
    {next after : Cursor} (first : Declares strict input one next)
    (second : Declares strict input other after) : one = other ∧ next = after := by
  obtain ⟨rest, place, run⟩ := first
  obtain ⟨again, same, runAgain⟩ := second
  cases place.symm.trans same
  cases run.symm.trans runAgain
  exact ⟨rfl, rfl⟩

/-- A header that was read declares the number of the texts behind it. -/
theorem declares_of_run_read_ok {strict : Bool} {input : List UInt8} {after : Cursor}
    {table : AtomTable}
    (run : (AtomTable.read strict).run (.ofBytes input) = .ok table after) :
    ∃ count next, Declares strict input count next ∧
      (Reader.times count.toNat (Text.read strict)).run next = .ok table.dynamic after := by
  obtain ⟨version, ⟨offset, rest⟩, versionRun, run⟩ := Reader.run_bind_ok run
  have moved := Reader.advances_of_run_byte_ok versionRun
  cases moved.offset
  split at run
  · rename_i isVersion
    rw [isVersion] at moved
    obtain ⟨count, next, countRun, run⟩ := Reader.run_bind_ok run
    split at run
    · obtain ⟨dynamic, last, dynamicRun, run⟩ := Reader.run_bind_ok run
      cases run
      exact ⟨count, next, ⟨rest, moved.rest, countRun⟩, dynamicRun⟩
    · cases run
  · cases run

end AtomTable

/-!
## References
-/

namespace Atom

/-- Doubling loses nothing of a number that stays inline. -/
private theorem toNat_two_mul {number : UInt32} (inline : number.toNat ≤ maxInline) :
    (2 * number).toNat = 2 * number.toNat := by
  unfold maxInline at inline
  simp only [UInt32.toNat_mul, UInt32.reduceToNat]
  omega

private theorem inline_reference {number : UInt32} (inline : number.toNat ≤ maxInline) :
    (2 * number + 1) % 2 = 1 ∧ (2 * number + 1) / 2 = number := by
  have doubled := toNat_two_mul inline
  unfold maxInline at inline
  constructor
  · apply UInt32.toNat_inj.mp
    simp only [UInt32.toNat_mod, UInt32.toNat_add, doubled, UInt32.reduceToNat]
    omega
  · apply UInt32.toNat_inj.mp
    simp only [UInt32.toNat_div, UInt32.toNat_add, doubled, UInt32.reduceToNat]
    omega

private theorem table_reference {index : UInt32} (inline : index.toNat ≤ maxInline) :
    2 * index % 2 ≠ 1 ∧ 2 * index / 2 = index := by
  have doubled := toNat_two_mul inline
  constructor
  · intro odd
    have remainder := congrArg UInt32.toNat odd
    simp only [UInt32.toNat_mod, doubled, UInt32.reduceToNat] at remainder
    omega
  · apply UInt32.toNat_inj.mp
    simp only [UInt32.toNat_div, doubled, UInt32.reduceToNat]
    omega

private theorem half_le_maxInline (reference : UInt32) : (reference / 2).toNat ≤ maxInline := by
  have bound := reference.toNat_lt
  unfold maxInline
  simp only [UInt32.toNat_div, UInt32.reduceToNat]
  omega

private theorem reference_of_odd {reference : UInt32} (odd : reference % 2 = 1) :
    2 * (reference / 2) + 1 = reference := by
  have doubled := toNat_two_mul (half_le_maxInline reference)
  have bound := reference.toNat_lt
  have remainder := congrArg UInt32.toNat odd
  apply UInt32.toNat_inj.mp
  simp only [UInt32.toNat_mod, UInt32.reduceToNat] at remainder
  simp only [UInt32.toNat_add, doubled, UInt32.toNat_div, UInt32.reduceToNat]
  omega

private theorem reference_of_even {reference : UInt32} (even : ¬reference % 2 = 1) :
    2 * (reference / 2) = reference := by
  have doubled := toNat_two_mul (half_le_maxInline reference)
  have remainder : reference.toNat % 2 ≠ 1 := fun odd => even (UInt32.toNat_inj.mp odd)
  apply UInt32.toNat_inj.mp
  simp only [doubled, UInt32.toNat_div, UInt32.reduceToNat]
  omega

theorem read_restores_int (strict : Bool) (order : ByteOrder) (table : AtomTable)
    (number : UInt32) :
    (Atom.read strict table).Restores order ((Atom.int number).emit table) (.int number) := by
  unfold Atom.emit
  dsimp only
  split
  · rename_i fits
    obtain ⟨odd, half⟩ := inline_reference fits
    apply (Varint.readUInt32_restores strict order _).bind_eq_pure
    rw [if_pos odd, half]
  · exact .fail _ order _ _

theorem read_restores_string (strict : Bool) (order : ByteOrder) {table : AtomTable}
    {index : UInt32} (inline : index.toNat ≤ maxInline) (text : String) :
    (Atom.read strict table).Restores order ((Atom.string index text).emit table)
      (.string index text) := by
  unfold Atom.emit
  dsimp only
  split
  · rename_i found
    obtain ⟨even, half⟩ := table_reference inline
    apply (Varint.readUInt32_restores strict order _).bind_eq_pure
    rw [if_neg even, half, AtomTable.resolve_eq_ok_iff.mpr found]
  · exact .fail _ order _ _

/-- A reference that was written is read back as its atom. The ids of a table that can be read are
small enough to be doubled. -/
theorem read_restores (strict : Bool) (order : ByteOrder) {table : AtomTable}
    (inline : table.dynamic.length ≤ AtomTable.maxDynamic) (atom : Atom) :
    (Atom.read strict table).Restores order (atom.emit table) atom := by
  cases atom with
  | int number => exact read_restores_int strict order table number
  | string index text =>
      by_cases found : table.text? index = some text
      · -- The bound on the table keeps the top bit of the id clear, so doubling does not lose it.
        have bound := AtomTable.lt_size_of_text?_eq_some found
        have fits : index.toNat ≤ maxInline := by
          unfold AtomTable.maxDynamic Atom.maxInline at inline
          unfold AtomTable.size at bound
          unfold maxInline
          unfold builtinCount at inline bound
          omega
        exact read_restores_string strict order fits text
      · rw [Atom.emit, if_neg found]
        exact .fail _ order _ _

theorem read_retraced (strict : Bool) (order : ByteOrder) (table : AtomTable) :
    (Atom.read strict table).Retraced (Atom.emit table) order strict := by
  intro before result after run
  obtain ⟨reference, middle, referenceRun, run⟩ := Reader.run_bind_ok run
  have spans := Varint.readUInt32_retraced strict order referenceRun
  have fits := half_le_maxInline reference
  split at run
  · rename_i odd
    cases run
    rwa [Atom.emit, if_pos fits, reference_of_odd odd]
  · rename_i even
    cases resolved : table.resolve (reference / 2) with
    | error fault =>
        rw [resolved] at run
        cases run
    | ok text =>
        rw [resolved] at run
        cases run
        rwa [Atom.emit, if_pos (AtomTable.resolve_eq_ok_iff.mp resolved), reference_of_even even]

end Atom

end BytecodeObject
