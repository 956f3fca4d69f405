import BytecodeObject.Proofs.Atom
import BytecodeObject.Proofs.Utf8

/-!
# Looking up texts

Looking up a text in the builtin index and then in that of the header is the same as searching the
builtin atoms and the atoms of the header from the first id on for one that is exactly this text. An
atom that is not UTF-8 is no text, though it resolves to one.
-/

set_option autoImplicit false

namespace BytecodeObject.AtomTable

/-- The atom under an id is exactly a text: it is that builtin text, or an atom of the header with the
bytes of the text in UTF-8, wide or not. -/
inductive Holds (table : AtomTable) : (id : Nat) → (text : String) → Prop where
  | builtin {id : Nat} {text : String} : Atom.builtin[id]? = some text → Holds table id text
  | dynamic {offset : Nat} {entry : Text} {text : String} :
      table.dynamic[offset]? = some entry → entry.bytes.toByteArray = text.toUTF8 →
      Holds table (Atom.builtinCount + offset) text

def searchable (table : AtomTable) : List (Option String) :=
  Atom.builtin.map some ++ table.dynamic.map Text.string?

/-!
## Indexes
-/

/-- What is found after a list was entered was there before or is the first place of the text in it. -/
private theorem getElem?_enterAll (first : Nat) (texts : List (Option String))
    (index : Std.HashMap String UInt32) (text : String) :
    (enterAll first texts index)[text]? = index[text]?.or
      ((texts.idxOf? (some text)).map fun offset => UInt32.ofNat (first + offset)) := by
  induction texts generalizing first index with
  | nil => simp [enterAll]
  | cons entry rest restIH =>
      have shifted (offset : Nat) : first + 1 + offset = first + (offset + 1) := by omega
      cases entry with
      | none => simp [enterAll, restIH, List.idxOf?_cons, Function.comp_def, shifted]
      | some entered =>
          rw [enterAll, restIH, Std.HashMap.getElem?_insertIfNew, List.idxOf?_cons]
          by_cases same : entered = text
          · subst same
            -- An id that was there before stays, whatever the rest of the list holds.
            cases found : index[entered]? with
            | none =>
                have fresh : entered ∉ index := by
                  rw [Std.HashMap.mem_iff_isSome_getElem?, found]
                  exact Bool.false_ne_true
                simp [fresh]
            | some id =>
                have held : entered ∈ index := by
                  rw [Std.HashMap.mem_iff_isSome_getElem?, found]
                  rfl
                simp [held]
          · simp [same, Function.comp_def, shifted]

private theorem getElem?_enterAll_empty (first : Nat) (texts : List (Option String)) (text : String) :
    (enterAll first texts ∅)[text]? =
      (texts.idxOf? (some text)).map fun offset => UInt32.ofNat (first + offset) := by
  rw [getElem?_enterAll, Std.HashMap.getElem?_empty, Option.none_or]

/-- Where ids go on from one list to another, looking in the index of the second one after that of the
first one is scanning both. -/
private theorem getElem?_two_indexes (front back : List (Option String)) (text : String) :
    ((enterAll 0 front ∅)[text]?).or (enterAll front.length back ∅)[text]? =
      ((front ++ back).idxOf? (some text)).map UInt32.ofNat := by
  have joined : (front ++ back).idxOf? (some text) =
      (front.idxOf? (some text)).or ((back.idxOf? (some text)).map (· + front.length)) :=
    List.findIdx?_append
  rw [joined, getElem?_enterAll_empty, getElem?_enterAll_empty]
  cases front.idxOf? (some text) with
  | none => simp [Function.comp_def, Nat.add_comm]
  | some id => simp

/-- Looking up a text in both indexes is scanning all atoms for it. -/
theorem indexOf?_eq_scan (table : AtomTable) (text : String) :
    table.indexOf? text = (table.searchable.idxOf? (some text)).map UInt32.ofNat := by
  have scanned := getElem?_two_indexes (Atom.builtin.map some) (table.dynamic.map Text.string?) text
  rw [List.length_map, Atom.length_builtin] at scanned
  rw [searchable, ← scanned, indexOf?, Option.orElse_eq_orElse, Option.orElse_eq_or]
  rfl

/-!
## Least ids
-/

variable {table : AtomTable} {text : String} {index : UInt32}

private theorem length_searchable (table : AtomTable) : table.searchable.length = table.size := by
  rw [searchable, List.length_append, List.length_map, List.length_map, Atom.length_builtin, size]

private theorem getElem?_searchable_eq_some_iff {id : Nat} :
    table.searchable[id]? = some (some text) ↔ table.Holds id text := by
  rw [searchable, List.getElem?_append, List.length_map, Atom.length_builtin]
  constructor
  · intro found
    split at found
    · rw [List.getElem?_map, Option.map_eq_some_iff] at found
      obtain ⟨held, named, same⟩ := found
      exact .builtin (Option.some.inj same ▸ named)
    · rename_i large
      rw [List.getElem?_map, Option.map_eq_some_iff] at found
      obtain ⟨entry, listed, decoded⟩ := found
      have bytes := Utf8.eq_encode_iff.mp (Utf8.decode?_eq_some_iff.mp decoded)
      have held := Holds.dynamic listed bytes
      rwa [Nat.add_sub_cancel' (Nat.le_of_not_lt large)] at held
  · intro held
    cases held with
    | builtin named =>
        have small := (List.getElem?_eq_some_iff.mp named).1
        rw [Atom.length_builtin] at small
        rw [if_pos small, List.getElem?_map, named, Option.map_some]
    | @dynamic offset entry _ listed bytes =>
        have decoded : entry.string? = some text :=
          Utf8.decode?_eq_some_iff.mpr (Utf8.eq_encode_iff.mpr bytes)
        rw [if_neg (Nat.not_lt_of_le (Nat.le_add_right _ _)), Nat.add_sub_cancel_left,
          List.getElem?_map, listed, Option.map_some, decoded]

theorem Holds.lt_size {id : Nat} (held : table.Holds id text) : id < table.size := by
  have found := getElem?_searchable_eq_some_iff.mpr held
  rw [← length_searchable]
  exact (List.getElem?_eq_some_iff.mp found).1

/-- An atom that is exactly a text resolves to it. -/
theorem text?_of_holds (held : table.Holds index.toNat text) : table.text? index = some text := by
  unfold text?
  generalize index.toNat = id at held ⊢
  cases held with
  | builtin named => rw [named]
  | @dynamic offset entry _ listed bytes =>
      have beyond : Atom.builtin[Atom.builtinCount + offset]? = none := by
        rw [List.getElem?_eq_none_iff, Atom.length_builtin]
        exact Nat.le_add_right _ _
      rw [beyond, Nat.add_sub_cancel_left, listed]
      simp [Text.lossy, Utf8.eq_encode_iff.mpr bytes]

theorem indexOf?_eq_none_iff : table.indexOf? text = none ↔ ∀ id, ¬table.Holds id text := by
  rw [indexOf?_eq_scan, Option.map_eq_none_iff, List.idxOf?_eq_none_iff]
  simp only [List.mem_iff_getElem?, getElem?_searchable_eq_some_iff, not_exists]

private theorem idxOf?_searchable_eq_some_iff {id : Nat} :
    table.searchable.idxOf? (some text) = some id ↔
      table.Holds id text ∧ ∀ smaller < id, ¬table.Holds smaller text := by
  simp only [← getElem?_searchable_eq_some_iff, List.idxOf?_eq_some_iff]
  constructor
  · rintro ⟨inside, found, first⟩
    refine ⟨List.getElem?_eq_some_iff.mpr ⟨inside, found⟩, fun smaller less earlier => ?_⟩
    exact first smaller less (List.getElem?_eq_some_iff.mp earlier).2
  · rintro ⟨found, first⟩
    obtain ⟨inside, found⟩ := List.getElem?_eq_some_iff.mp found
    refine ⟨inside, found, fun smaller less earlier => first smaller less ?_⟩
    exact List.getElem?_eq_some_iff.mpr ⟨Nat.lt_trans less inside, earlier⟩

theorem indexOf?_eq_some_iff (addressed : table.size ≤ UInt32.size) :
    table.indexOf? text = some index ↔
      table.Holds index.toNat text ∧ ∀ smaller < index.toNat, ¬table.Holds smaller text := by
  rw [indexOf?_eq_scan, ← idxOf?_searchable_eq_some_iff, Option.map_eq_some_iff]
  constructor
  · rintro ⟨id, found, rfl⟩
    have inside := (idxOf?_searchable_eq_some_iff.mp found).1.lt_size
    rwa [UInt32.toNat_ofNat_of_lt' (Nat.lt_of_lt_of_le inside addressed)]
  · intro found
    exact ⟨index.toNat, found, UInt32.ofNat_toNat⟩

/-- An id is found again from what it resolves to exactly where it holds a text that no smaller id holds. -/
theorem indexOf?_text?_eq_some_iff (addressed : table.size ≤ UInt32.size) {resolved : String}
    (found : table.text? index = some resolved) :
    table.indexOf? resolved = some index ↔ ∃ own, table.Holds index.toNat own ∧
      ∀ smaller < index.toNat, ¬table.Holds smaller own := by
  rw [indexOf?_eq_some_iff addressed]
  constructor
  · exact fun least => ⟨resolved, least⟩
  · rintro ⟨own, held, first⟩
    cases found.symm.trans (text?_of_holds held)
    exact ⟨held, first⟩

/-- Shadowed are the ids in range that hold no text, or one that a smaller id holds. -/
theorem mem_shadowed_iff (addressed : table.size ≤ UInt32.size) :
    index ∈ table.shadowed ↔ index.toNat < table.size ∧
      ¬∃ own, table.Holds index.toNat own ∧ ∀ smaller < index.toNat, ¬table.Holds smaller own := by
  have inside : (∃ id < table.size, UInt32.ofNat id = index) ↔ index.toNat < table.size := by
    constructor
    · rintro ⟨id, small, rfl⟩
      rwa [UInt32.toNat_ofNat_of_lt' (Nat.lt_of_lt_of_le small addressed)]
    · exact fun small => ⟨index.toNat, small, UInt32.ofNat_toNat⟩
  rw [shadowed, List.mem_filter, List.mem_map]
  simp only [List.mem_range, inside, bne_iff_ne]
  refine and_congr_right fun small => not_congr ?_
  cases found : table.text? index with
  | none => exact absurd small (Nat.not_lt_of_le (size_le_of_text?_eq_none found))
  | some resolved => exact indexOf?_text?_eq_some_iff addressed found

/-- A text is found under the least id that holds exactly this text, and under none if there is no such
id. What is found resolves to the text and can be written as an atom. An id is found again from what it
resolves to unless it holds no text or a smaller id holds the same. -/
theorem indexOf?_finds_least (table : AtomTable)
    (addressed : table.dynamic.length ≤ 2 ^ 32 - Atom.builtinCount) (text : String) :
    (∀ index, table.indexOf? text = some index ↔
      table.Holds index.toNat text ∧ ∀ smaller < index.toNat, ¬table.Holds smaller text) ∧
    (table.indexOf? text = none ↔ ∀ id < table.size, ¬table.Holds id text) ∧
    (∀ index, table.indexOf? text = some index → table.resolve index = .ok text ∧
      table.atom? text = some (.string index text) ∧
        ((Atom.string index text).emit table).fault? = none) ∧
    ∀ index : UInt32, index.toNat < table.size → ∃ resolved, table.resolve index = .ok resolved ∧
      (table.indexOf? resolved = some index ↔ ∃ own, table.Holds index.toNat own ∧
        ∀ smaller < index.toNat, ¬table.Holds smaller own) := by
  have fits : table.size ≤ UInt32.size := by
    unfold size UInt32.size
    unfold Atom.builtinCount at addressed ⊢
    omega
  refine ⟨fun index => indexOf?_eq_some_iff fits, ?_, fun index found => ?_, fun index inside => ?_⟩
  · rw [indexOf?_eq_none_iff]
    exact ⟨fun absent id _ => absent id, fun absent id held => absent id held.lt_size held⟩
  · obtain ⟨held, _⟩ := (indexOf?_eq_some_iff fits).mp found
    have resolved := text?_of_holds held
    refine ⟨?_, ?_, ?_⟩
    · exact resolve_eq_ok_iff.mpr resolved
    · rw [atom?, found, Option.map_some]
    · rw [Atom.emit, if_pos resolved]
      rfl
  · cases found : table.text? index with
    | none => exact absurd inside (Nat.not_lt_of_le (size_le_of_text?_eq_none found))
    | some resolved =>
        exact ⟨resolved, resolve_eq_ok_iff.mpr found, indexOf?_text?_eq_some_iff fits found⟩

/-- An atom that is not UTF-8 and resolves to the replacement character, and behind it two atoms that are
this character. -/
def replaced : AtomTable where
  dynamic := [⟨false, .ofList [0xFF]⟩, ⟨true, .ofList [0xEF, 0xBF, 0xBD]⟩,
    ⟨false, .ofList [0xEF, 0xBF, 0xBD]⟩]

theorem replaced_finds_least :
    replaced.dynamic.length ≤ 2 ^ 32 - Atom.builtinCount ∧
    replaced.indexOf? "\ufffd" = some 211 ∧
    (replaced.Holds 211 "\ufffd" ∧ ∀ smaller < 211, ¬replaced.Holds smaller "\ufffd") ∧
    (replaced.resolve 211 = .ok "\ufffd" ∧ replaced.atom? "\ufffd" = some (.string 211 "\ufffd") ∧
      ((Atom.string 211 "\ufffd").emit replaced).fault? = none) ∧
    ∀ index : UInt32, index ∈ [210, 212] →
      replaced.resolve index = .ok "\ufffd" ∧ ¬∃ own, replaced.Holds index.toNat own ∧
        ∀ smaller < index.toNat, ¬replaced.Holds smaller own := by
  have addressed : replaced.dynamic.length ≤ 2 ^ 32 - Atom.builtinCount := by decide
  have found : replaced.indexOf? "\ufffd" = some 211 := by
    rw [indexOf?_eq_scan]
    decide +kernel
  obtain ⟨least, _, written, again⟩ := indexOf?_finds_least replaced addressed "\ufffd"
  refine ⟨addressed, found, (least 211).mp found, written 211 found, fun index listed => ?_⟩
  have inside : index.toNat < replaced.size ∧ replaced.resolve index = .ok "\ufffd" ∧
      index ≠ 211 := by
    simp only [List.mem_cons, List.not_mem_nil, or_false] at listed
    rcases listed with rfl | rfl <;>
      exact ⟨by decide, resolve_eq_ok_iff.mpr (by decide +kernel), by decide⟩
  obtain ⟨inside, resolves, other⟩ := inside
  obtain ⟨resolved, same, unfound⟩ := again index inside
  cases resolves.symm.trans same
  rw [← unfound, found]
  exact ⟨resolves, fun equal => other (Option.some.inj equal).symm⟩

end BytecodeObject.AtomTable
