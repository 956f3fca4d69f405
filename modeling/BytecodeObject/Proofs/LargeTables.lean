import BytecodeObject.Proofs.Faults
import BytecodeObject.Proofs.Writable

/-!
# Tables beyond the inline limit

A table may hold more atoms than a header may list when it is read. Such a table is still written: its
header is then refused, and the ids whose highest bit is set lose that bit in the references to them.
Up to the limit both are read back as they were.
-/

set_option autoImplicit false

namespace BytecodeObject

/-- What is refused by a check that stands in front of it leaves no bytes. -/
private theorem Emission.render_of_guard_failed {condition : Prop} [Decidable condition]
    {emission : Emission} {fault found : Fault} (complete : emission.fault? = none)
    (failed : (if condition then emission else fail fault).fault? = some found)
    (order : ByteOrder) : (if condition then emission else fail fault).render order = [] := by
  by_cases kept : condition
  · rw [if_pos kept, complete] at failed
    cases failed
  · rw [if_neg kept]
    rfl

namespace AtomTable

/-- A table of equal atoms, which are narrow and have no bytes. -/
def blank (count : Nat) : AtomTable where
  dynamic := List.replicate count ⟨false, .ofList []⟩

@[simp] theorem length_dynamic_blank (count : Nat) : (blank count).dynamic.length = count :=
  List.length_replicate

private theorem emit_blank_complete {count : Nat} (fits : count < UInt32.size) :
    (blank count).emit.fault? = none := by
  rw [(blank count).emit_refusedFor.complete_iff]
  rintro fault (⟨large, _⟩ | ⟨text, listed, long, _⟩)
  · rw [length_dynamic_blank] at large
    exact Nat.not_le_of_lt fits large
  · rw [List.eq_of_mem_replicate listed] at long
    exact absurd long (by decide)

private theorem result_emit_blank {count : Nat} (fits : count < UInt32.size) (order : ByteOrder) :
    (blank count).emit.result order = .ok ((blank count).emit.render order) :=
  Emission.result_eq_ok_iff.mpr ⟨emit_blank_complete fits, rfl⟩

private theorem text?_blank {count : Nat} {index : UInt32} (dynamic : Atom.builtinCount ≤ index.toNat)
    (listed : index.toNat < (blank count).size) : (blank count).text? index = some "" := by
  have beyond : Atom.builtin[index.toNat]? = none :=
    List.getElem?_eq_none_iff.mpr (Atom.length_builtin ▸ dynamic)
  have place : index.toNat - Atom.builtinCount < count := by
    rw [size, length_dynamic_blank] at listed
    omega
  simp only [text?, beyond, blank, List.getElem?_replicate, place, if_true]
  rfl

/-!
## Headers
-/

/-- A header beyond the limit of readers can be written, and is refused by its count. -/
theorem run_read_of_emit_large {table : AtomTable} (order : ByteOrder)
    (complete : table.emit.fault? = none) (large : maxDynamic < table.dynamic.length)
    (strict : Bool) (suffix : List UInt8) :
    ∃ cursor, (AtomTable.read strict).run (.ofBytes (table.emit.render order ++ suffix)) =
      .error (.lengthOverflow "atom table" table.dynamic.length) cursor := by
  have fits : table.dynamic.length < UInt32.size :=
    Nat.lt_of_not_le fun wide => table.emit_refusedFor.flawless complete _ (.inl ⟨wide, rfl⟩)
  have same : (UInt32.ofNat table.dynamic.length).toNat = table.dynamic.length :=
    UInt32.toNat_ofNat_of_lt' fits
  have split : table.emit.render order ++ suffix = formatVersion ::
      ((Emission.uint32 (UInt32.ofNat table.dynamic.length)).render order ++
        ((Emission.concat (table.dynamic.map Text.emit)).render order ++ suffix)) := by
    rw [AtomTable.emit, Emission.length, if_pos fits, Emission.append_assoc,
      Emission.render_append _ _ rfl, Emission.render_append _ _ rfl, Emission.byte,
      Emission.render_bytes, List.append_assoc, List.append_assoc]
    rfl
  have count := Varint.readUInt32_restores strict order (UInt32.ofNat table.dynamic.length) rfl 1
  have overstated : Overstates strict (table.emit.render order ++ suffix)
      (UInt32.ofNat table.dynamic.length) :=
    ⟨_, _, split, count _, Nat.lt_of_lt_of_eq large same.symm⟩
  have refused := run_read_of_overstates overstated
  rwa [same] at refused

/-- A header is read back, whatever follows it, where it lists no more atoms than a reader takes. A
header that lists more can be written, and is refused. -/
theorem run_read_of_emit {table : AtomTable} {order : ByteOrder} {header : List UInt8}
    (written : table.emit.result order = .ok header) (strict : Bool) (suffix : List UInt8) :
    (table.dynamic.length ≤ maxDynamic →
      (AtomTable.read strict).run (.ofBytes (header ++ suffix)) =
        .ok table ⟨header.length, suffix⟩) ∧
    (maxDynamic < table.dynamic.length → ∃ cursor,
      (AtomTable.read strict).run (.ofBytes (header ++ suffix)) =
        .error (.lengthOverflow "atom table" table.dynamic.length) cursor) := by
  obtain ⟨complete, rendered⟩ := Emission.result_eq_ok_iff.mp written
  refine ⟨fun inline => ?_, fun large => ?_⟩
  · have run := read_restores strict order inline complete 0 suffix
    rwa [rendered, Nat.zero_add] at run
  · rw [← rendered]
    exact run_read_of_emit_large order complete large strict suffix

private theorem length_dynamic_blank_large : maxDynamic < (blank 2147483438).dynamic.length := by
  rw [length_dynamic_blank]
  decide

/-- A header is written of a table with one atom more than a reader takes, and refused whatever
follows it. -/
theorem blank_header_refused :
    ∃ header, (blank 2147483438).emit.result .little = .ok header ∧ ∀ strict suffix,
      ∃ fault cursor, (AtomTable.read strict).run (.ofBytes (header ++ suffix)) =
        .error fault cursor := by
  have complete : (blank 2147483438).emit.fault? = none := emit_blank_complete (by decide)
  exact ⟨_, result_emit_blank (by decide) .little, fun strict suffix =>
    ⟨_, run_read_of_emit_large .little complete length_dynamic_blank_large strict suffix⟩⟩

theorem blank_headers_read :
    ((blank 2).emit.result .little = .ok [1, 2, 0, 0] ∧ (blank 2).dynamic.length ≤ maxDynamic ∧
      (AtomTable.read true).run (.ofBytes [1, 2, 0, 0, 9]) = .ok (blank 2) ⟨4, [9]⟩) ∧
    ∃ header, (blank 2147483438).emit.result .little = .ok header ∧
      maxDynamic < (blank 2147483438).dynamic.length ∧ ∃ cursor,
        (AtomTable.read true).run (.ofBytes (header ++ [9])) =
          .error (.lengthOverflow "atom table" (blank 2147483438).dynamic.length) cursor := by
  have short : (blank 2).emit.result .little = .ok [1, 2, 0, 0] := rfl
  have inline : (blank 2).dynamic.length ≤ maxDynamic := by decide
  have long := result_emit_blank (show 2147483438 < UInt32.size by decide) .little
  exact ⟨⟨short, inline, (run_read_of_emit short true [9]).1 inline⟩, _, long,
    length_dynamic_blank_large, (run_read_of_emit long true [9]).2 length_dynamic_blank_large⟩

end AtomTable

/-!
## References
-/

namespace Atom

private theorem text?_of_le {table : AtomTable} {index lower : UInt32} {text : String}
    (found : table.text? index = some text) (le : lower.toNat ≤ index.toNat) :
    ∃ other, table.text? lower = some other := by
  cases missing : table.text? lower with
  | some other => exact ⟨other, rfl⟩
  | none =>
      have beyond := AtomTable.size_le_of_text?_eq_none missing
      have listed := AtomTable.lt_size_of_text?_eq_some found
      omega

/-- An id whose highest bit is set is written as the id without it, which the table holds as well. -/
private theorem emit_eq_of_large {table : AtomTable} {index : UInt32} {text : String}
    (found : table.text? index = some text) (large : maxInline < index.toNat) :
    ∃ lower other, lower.toNat + (maxInline + 1) = index.toNat ∧
      (Atom.string index text).emit table = (Atom.string lower other).emit table := by
  have bound := index.toNat_lt
  have lower : (index - 0x80000000).toNat + (maxInline + 1) = index.toNat := by
    unfold maxInline at large ⊢
    have high : (0x80000000 : UInt32) ≤ index := UInt32.le_iff_toNat_le.mpr large
    rw [UInt32.toNat_sub_of_le _ _ high]
    simp only [UInt32.reduceToNat]
    omega
  have doubled : 2 * (index - 0x80000000) = 2 * index := by
    apply UInt32.toNat_inj.mp
    unfold maxInline at lower
    simp only [UInt32.toNat_mul, UInt32.reduceToNat]
    omega
  obtain ⟨other, held⟩ := text?_of_le found (Nat.le_of_add_right_le (Nat.le_of_eq lower))
  refine ⟨index - 0x80000000, other, lower, ?_⟩
  rw [Atom.emit, Atom.emit, if_pos found, if_pos held, doubled]

/-- A written reference is read without a fault and to its end, but only a number that stays inline is
read as it was. Of any other the highest bit is lost. -/
private theorem exists_read_restores {table : AtomTable} {atom : Atom}
    (complete : (atom.emit table).fault? = none) (strict : Bool) (order : ByteOrder) :
    ∃ result, (Atom.read strict table).Restores order (atom.emit table) result ∧
      result.number.toNat = atom.number.toNat % (maxInline + 1) ∧
      (result = atom ↔ atom.number.toNat ≤ maxInline) := by
  have writable : atom.Writable table :=
    Classical.byContradiction fun foreign =>
      (atom.emit_refusedFor table).flawless complete _ ⟨foreign, rfl⟩
  by_cases inline : atom.number.toNat ≤ maxInline
  · have restored : (Atom.read strict table).Restores order (atom.emit table) atom := by
      cases atom with
      | int number => exact read_restores_int strict order table number
      | string index text => exact read_restores_string strict order inline text
    exact ⟨atom, restored, (Nat.mod_eq_of_lt (Nat.lt_succ_of_le inline)).symm,
      iff_of_true rfl inline⟩
  · cases atom with
    | int number => exact absurd writable inline
    | string index text =>
        have found := AtomTable.resolve_eq_ok_iff.mp writable
        obtain ⟨lower, other, cleared, same⟩ := emit_eq_of_large found (Nat.lt_of_not_le inline)
        have bound := index.toNat_lt
        rw [same]
        refine ⟨.string lower other, read_restores_string strict order ?_ other, ?_, ?_⟩
        · unfold maxInline at cleared ⊢
          omega
        · unfold maxInline at cleared ⊢
          change lower.toNat = index.toNat % _
          omega
        · refine iff_of_false (fun whole => ?_) inline
          cases whole
          omega

private theorem render_of_emit_failed {table : AtomTable} {atom : Atom} {fault : Fault}
    (failed : (atom.emit table).fault? = some fault) (order : ByteOrder) :
    (atom.emit table).render order = [] := by
  cases atom with
  | int number => exact Emission.render_of_guard_failed rfl failed order
  | string index text => exact Emission.render_of_guard_failed rfl failed order

/-- A reference that is not written leaves no bytes behind. A written one is read back without a fault
and to its end, and as the atom that was written exactly where the number of this stays inline. -/
theorem run_read_of_emit_iff {before : Emission} (earlier : before.fault? = none)
    (table : AtomTable) (atom : Atom) (order : ByteOrder) :
    (∀ fault, (before ++ atom.emit table).fault? = some fault →
      (before ++ atom.emit table).render order = before.render order) ∧
    ((before ++ atom.emit table).fault? = none → ∃ bytes,
      (before ++ atom.emit table).render order = before.render order ++ bytes ∧
      ∀ strict offset suffix, ∃ result,
        (Atom.read strict table).run ⟨offset, bytes ++ suffix⟩ =
          .ok result ⟨offset + bytes.length, suffix⟩ ∧
        result.number.toNat = atom.number.toNat % (maxInline + 1) ∧
        (result = atom ↔ atom.number.toNat ≤ maxInline)) := by
  rw [Emission.render_append _ _ earlier]
  refine ⟨fun fault failed => ?_, fun complete => ?_⟩
  · rcases Emission.fault?_append_eq_some failed with ended | ended
    · rw [earlier] at ended
      cases ended
    · rw [render_of_emit_failed ended, List.append_nil]
  · have complete := (Emission.fault?_append_eq_none.mp complete).2
    refine ⟨_, rfl, fun strict offset suffix => ?_⟩
    obtain ⟨result, restored, cleared, same⟩ := exists_read_restores complete strict order
    exact ⟨result, restored complete offset suffix, cleared, same⟩

private theorem emit_blank_highest : (Atom.string 0x80000000 "").emit (.blank 2147483439) = .bytes [0] := by
  have found : (AtomTable.blank 2147483439).text? 0x80000000 = some "" := by
    apply AtomTable.text?_blank (by decide)
    rw [AtomTable.size, AtomTable.length_dynamic_blank]
    decide
  rw [Atom.emit, if_pos found]
  rfl

/-- The reference zero is to the first atom, whatever a table lists. -/
private theorem run_read_zero (strict : Bool) (table : AtomTable) (suffix : List UInt8) :
    (Atom.read strict table).run (.ofBytes (0 :: suffix)) = .ok (.string 0 "") ⟨1, suffix⟩ := by
  cases strict <;> rfl

/-- The first id with the highest bit set is written as the least id, and read back as that. -/
theorem blank_reference_misread :
    ((Atom.string 0x80000000 "").emit (.blank 2147483439)).result .little = .ok [0] ∧
      ∀ strict suffix, ∃ result cursor,
        (Atom.read strict (.blank 2147483439)).run (.ofBytes ([0] ++ suffix)) =
          .ok result cursor ∧
        result ≠ .string 0x80000000 "" := by
  rw [emit_blank_highest]
  exact ⟨rfl, fun strict suffix => ⟨.string 0 "", _, run_read_zero strict _ suffix, by decide⟩⟩

theorem blank_references_read :
    (Emission.byte 7).fault? = none ∧
      (Emission.byte 7 ++ (Atom.string 5 "if").emit .empty).fault? = some (.atomMismatch 5) ∧
      (Emission.byte 7 ++ (Atom.string 5 "if").emit .empty).render .big = [7] ∧
      (Emission.byte 7 ++ (Atom.string 0x80000000 "").emit (.blank 2147483439)).fault? = none ∧
      ∃ bytes, (Emission.byte 7 ++
          (Atom.string 0x80000000 "").emit (.blank 2147483439)).render .big = [7] ++ bytes ∧
        ∀ strict offset suffix, ∃ result,
          (Atom.read strict (.blank 2147483439)).run ⟨offset, bytes ++ suffix⟩ =
            .ok result ⟨offset + bytes.length, suffix⟩ ∧
          result.number.toNat = (Atom.string 0x80000000 "").number.toNat % (maxInline + 1) ∧
          (result = .string 0x80000000 "" ↔
            (Atom.string 0x80000000 "").number.toNat ≤ maxInline) := by
  have mismatched : (Emission.byte 7 ++ (Atom.string 5 "if").emit .empty).fault? =
      some (.atomMismatch 5) := rfl
  have complete : (Emission.byte 7 ++
      (Atom.string 0x80000000 "").emit (.blank 2147483439)).fault? = none := by
    rw [emit_blank_highest]
    rfl
  exact ⟨rfl, mismatched,
    (@run_read_of_emit_iff (.byte 7) rfl .empty (.string 5 "if") .big).1 _ mismatched, complete,
    (run_read_of_emit_iff rfl (.blank 2147483439) (.string 0x80000000 "") .big).2 complete⟩

end Atom

end BytecodeObject
