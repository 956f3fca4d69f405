import BytecodeObject.Proofs.RoundTrip

/-!
# Byte order

The byte order of the options is that of the flags of functions and of doubles. Output in one order
has the fields of output in the other, at the same places; each of those two has its bytes reversed and
nothing else changes. What was written in an order is read in that order.
-/

set_option autoImplicit false

namespace BytecodeObject

/-!
## Fields of a fixed width
-/

namespace Field

def isFixedWidth : Field → Bool
  | .bytes _ => false
  | .word16 _ | .double _ => true

/-- The bytes of a field with the most significant one first, where it is one of a fixed width. -/
def turned (field : Field) : List UInt8 :=
  if field.isFixedWidth then (field.render .little).reverse else field.render .little

theorem render_big (field : Field) : field.render .big = field.turned := by
  cases field <;> rfl

private theorem length_turned (field : Field) : field.turned.length = (field.render .little).length := by
  unfold turned
  split
  · exact List.length_reverse
  · rfl

end Field

namespace Emission

/-- In the other order a field has the bytes of its turned form. -/
theorem render_big (emission : Emission) :
    emission.render .big = emission.fields.flatMap Field.turned := by
  rw [render, funext Field.render_big]

private theorem length_render_big (emission : Emission) :
    (emission.render .big).length = (emission.render .little).length := by
  rw [render_big, render, List.length_flatMap, List.length_flatMap]
  simp only [Field.length_turned]

def fixedFields (emission : Emission) : List Field :=
  emission.fields.filter Field.isFixedWidth

@[simp] theorem fixedFields_fail (fault : Fault) : (fail fault).fixedFields = [] := by
  simp [fixedFields, fail]

@[simp] theorem fixedFields_nothing : nothing.fixedFields = [] := by
  simp [fixedFields, nothing]

@[simp] theorem fixedFields_bytes (content : List UInt8) : (bytes content).fixedFields = [] := by
  simp [fixedFields, bytes, Field.isFixedWidth]

@[simp] theorem fixedFields_byte (content : UInt8) : (byte content).fixedFields = [] :=
  fixedFields_bytes _

@[simp] theorem fixedFields_uint32 (number : UInt32) : (uint32 number).fixedFields = [] :=
  fixedFields_bytes _

@[simp] theorem fixedFields_word16 (content : UInt16) :
    (word16 content).fixedFields = [.word16 content] := by
  simp [fixedFields, word16, Field.isFixedWidth]

@[simp] theorem fixedFields_length (what : String) (number : Nat) :
    (length what number).fixedFields = [] := by
  unfold length
  split <;> simp

/-- The fixed fields of a complete emission stand in front of those of what follows it. -/
theorem fixedFields_append {left : Emission} (right : Emission) (complete : left.fault? = none) :
    (left ++ right).fixedFields = left.fixedFields ++ right.fixedFields := by
  obtain ⟨fields, fault?⟩ := left
  cases complete
  simp [append_def, join, fixedFields]

@[simp] theorem fixedFields_append_plain (left : Emission) {right : Emission}
    (plain : right.fixedFields = []) : (left ++ right).fixedFields = left.fixedFields := by
  cases ended : left.fault? with
  | none => rw [fixedFields_append right ended, plain, List.append_nil]
  | some fault => simp [append_def, join, ended]

@[simp] theorem fixedFields_concat_plain {emissions : List Emission}
    (plain : ∀ emission ∈ emissions, emission.fixedFields = []) :
    (concat emissions).fixedFields = [] := by
  induction emissions with
  | nil => rfl
  | cons emission rest restIH =>
      obtain ⟨first, later⟩ := List.forall_mem_cons.mp plain
      rw [concat_cons, fixedFields_append_plain emission (restIH later), first]

end Emission

section Parts

variable (table : AtomTable)

@[simp] theorem Text.fixedFields_emit (text : Text) : text.emit.fixedFields = [] := by
  unfold emit
  split <;> simp

@[simp] theorem Atom.fixedFields_emit (atom : Atom) : (atom.emit table).fixedFields = [] := by
  cases atom with
  | int number =>
      rw [emit]
      split <;> simp
  | string index text =>
      rw [emit]
      split <;> simp

@[simp] theorem VarDef.fixedFields_emit (varDef : VarDef) :
    (varDef.emit table).fixedFields = [] := by
  have scopeNext : (emitScopeNext varDef.scopeNext?).fixedFields = [] := by
    cases varDef.scopeNext? with
    | none => exact Emission.fixedFields_uint32 0
    | some next =>
        rw [emitScopeNext]
        split <;> simp
  simp [emit, scopeNext]

@[simp] theorem ClosureVar.fixedFields_emit (capture : ClosureVar) :
    (capture.emit table).fixedFields = [] := by
  simp [emit]

@[simp] theorem DebugInfo.fixedFields_emitIf (debug? : Option DebugInfo) :
    (DebugInfo.emitIf table debug?).fixedFields = [] := by
  cases debug? <;> simp [DebugInfo.emitIf, emit]

@[simp] theorem AtomTable.fixedFields_emit : table.emit.fixedFields = [] := by
  simp [emit]

/-- Of a frame that can be written the flags are the one field of a fixed width. -/
theorem Frame.fixedFields_emit {frame : Frame} {constantCount : Nat}
    (complete : (frame.emit table constantCount).fault? = none) :
    (frame.emit table constantCount).fixedFields = [.word16 frame.flags.bits] := by
  unfold emit at complete ⊢
  split at complete
  · simp_all
  · cases complete

end Parts

/-!
## Fields of values and streams
-/

namespace Value

mutual

/-- The fields of a fixed width that a value is written with: the flags of each function, before what
its constants have, and each double. -/
def fixedFields : Value → List Field
  | .float64 double => [.double double]
  | .function ⟨frame, constants⟩ => .word16 frame.flags.bits :: fixedFieldsAll constants
  | _ => []
termination_by structural value => value

def fixedFieldsAll : List Value → List Field
  | [] => []
  | value :: rest => fixedFields value ++ fixedFieldsAll rest
termination_by structural values => values

end

variable (options : Options) (table : AtomTable)

mutual

/-- A value is written with its flags and doubles, and nothing else, as fields of a fixed width. -/
theorem fixedFields_emit (budget : Nat) : (value : Value) →
    (emit options table budget value).fault? = none →
    (emit options table budget value).fixedFields = value.fixedFields
  | .null, _ | .undefined, _ | .bool false, _ | .bool true, _ => rfl
  | .int32 _, _ | .float64 _, _ => rfl
  | .string text, _ => by simp [emit, fixedFields]
  | .function ⟨frame, constants⟩, complete => by
      obtain ⟨allowed, budget, rfl⟩ := emit_function_of_complete complete
      rw [emit, if_pos allowed] at complete ⊢
      obtain ⟨_, bodyComplete⟩ := Emission.fault?_append_eq_none.mp complete
      obtain ⟨frameComplete, constantsComplete⟩ := Emission.fault?_append_eq_none.mp bodyComplete
      rw [Emission.fixedFields_append _ rfl, Emission.fixedFields_byte, List.nil_append,
        Emission.fixedFields_append _ frameComplete, Frame.fixedFields_emit table frameComplete,
        fixedFields_emitAll budget constants constantsComplete, fixedFields, List.singleton_append]

private theorem fixedFields_emitAll (budget : Nat) : (values : List Value) →
    (emitAll options table budget values).fault? = none →
    (emitAll options table budget values).fixedFields = fixedFieldsAll values
  | [], _ => rfl
  | value :: rest, complete => by
      rw [emitAll] at complete ⊢
      obtain ⟨first, later⟩ := Emission.fault?_append_eq_none.mp complete
      rw [Emission.fixedFields_append _ first, fixedFields_emit budget value first,
        fixedFields_emitAll budget rest later, fixedFieldsAll]

end

end Value

namespace ObjectStream

theorem fixedFields_emit {options : Options} {stream : ObjectStream}
    (complete : (stream.emit options).fault? = none) :
    (stream.emit options).fixedFields = stream.value.fixedFields := by
  obtain ⟨header, content⟩ := Emission.fault?_append_eq_none.mp complete
  rw [emit, Emission.fixedFields_append _ header, AtomTable.fixedFields_emit, List.nil_append,
    Value.fixedFields_emit options stream.atoms options.maxDepth stream.value content]

/-- A stream is refused in both byte orders, with one fault, or in none. Output in either order has the
same fields at the same places, and those whose bytes are turned are the flags of the functions and the
doubles, in the order of the tree. Each output is read in its own order, as the same stream. -/
theorem encoded_in_both_orders (options : Options) (stream : ObjectStream) :
    (∀ fault, stream.encode { options with order := .little } = .error fault ↔
      stream.encode { options with order := .big } = .error fault) ∧
    ∀ little, stream.encode { options with order := .little } = .ok little → ∃ big,
      stream.encode { options with order := .big } = .ok big ∧ big.length = little.length ∧
      little = (stream.emit options).fields.flatMap (Field.render .little) ∧
      big = (stream.emit options).fields.flatMap Field.turned ∧
      (stream.emit options).fields.filter Field.isFixedWidth = stream.value.fixedFields ∧
      (stream.atoms.dynamic.length ≤ AtomTable.maxDynamic →
        decode { options with order := .little } little = .ok stream.normalized ∧
        decode { options with order := .big } big = .ok stream.normalized) := by
  -- The order matters only where the fields are laid out, so both outputs have the same fields.
  have laidOut (order : ByteOrder) :
      stream.encode { options with order } = (stream.emit options).result order := by
    have same : stream.emit { options with order } = stream.emit options := by
      apply emit_congr <;> rfl
    rw [encode, same]
  refine ⟨fun fault => ?_, fun little encoded => ?_⟩
  · rw [laidOut, laidOut, Emission.result_eq_error_iff, Emission.result_eq_error_iff]
  · have plain := laidOut .little ▸ encoded
    obtain ⟨complete, rendered⟩ := Emission.result_eq_ok_iff.mp plain
    have turned : stream.encode { options with order := .big } =
        .ok ((stream.emit options).render .big) :=
      (laidOut .big).trans (Emission.result_eq_ok_iff.mpr ⟨complete, rfl⟩)
    refine ⟨(stream.emit options).render .big, turned, ?_, rendered.symm, Emission.render_big _,
      fixedFields_emit complete, fun inline => ?_⟩
    · rw [Emission.length_render_big, rendered]
    · exact ⟨decode_of_encode_ok inline encoded, decode_of_encode_ok inline turned⟩

/-- Two functions, the inner one behind a double. -/
theorem nested_in_both_orders :
    (nested 12).encode { ({} : Options) with order := .little } = .ok nestedBytes ∧
    (nested 12).atoms.dynamic.length ≤ AtomTable.maxDynamic ∧
    (nested 12).value.fixedFields =
      [.word16 0x9400, .double ⟨0x7FF0000000000001⟩, .word16 0x8000] ∧ ∃ big,
      (nested 12).encode { ({} : Options) with order := .big } = .ok big ∧
      big.length = nestedBytes.length ∧ big ≠ nestedBytes ∧
      decode { ({} : Options) with order := .little } nestedBytes = .ok (nested 12).normalized ∧
      decode { ({} : Options) with order := .big } big = .ok (nested 12).normalized := by
  have encoded : (nested 12).encode { ({} : Options) with order := .little } = .ok nestedBytes := rfl
  have inline : (nested 12).atoms.dynamic.length ≤ AtomTable.maxDynamic := by decide
  obtain ⟨big, turned, length, _, _, _, decoded⟩ :=
    (encoded_in_both_orders {} (nested 12)).2 nestedBytes encoded
  refine ⟨encoded, inline, rfl, big, turned, length, ?_, decoded inline⟩
  rintro rfl
  exact absurd (Except.ok.inj (turned.symm.trans rfl)) (by decide : nestedBytes ≠ _)

end ObjectStream

end BytecodeObject
