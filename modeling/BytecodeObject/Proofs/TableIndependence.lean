import BytecodeObject.Proofs.RoundTrip
import BytecodeObject.Proofs.Utf8

/-!
# Values under different tables

An atom table decides whether a value can be written and never how. Two tables that can write a value
write it alike behind their headers, and two that resolve every id alike cannot be told apart by a value.
The second law covers a table that was made anew from the texts of another one.
-/

set_option autoImplicit false

namespace BytecodeObject

/-!
## Emissions that agree
-/

namespace Emission

/-- Where both emissions are complete they have the same fields. -/
def Agrees (left right : Emission) : Prop :=
  left.fault? = none → right.fault? = none → left.fields = right.fields

namespace Agrees

variable {left left' right right' : Emission}

theorem refl (emission : Emission) : emission.Agrees emission :=
  fun _ _ => rfl

theorem append (first : left.Agrees left') (second : right.Agrees right') :
    (left ++ right).Agrees (left' ++ right') := by
  intro complete complete'
  obtain ⟨leftComplete, rightComplete⟩ := fault?_append_eq_none.mp complete
  obtain ⟨leftComplete', rightComplete'⟩ := fault?_append_eq_none.mp complete'
  simp only [append_def, join, leftComplete, leftComplete', first leftComplete leftComplete',
    second rightComplete rightComplete']

theorem before (first : left.Agrees left') (last : Emission) :
    (left ++ last).Agrees (left' ++ last) :=
  first.append (.refl last)

theorem concat {α : Type} {emit emit' : α → Emission} (values : List α)
    (each : ∀ value, (emit value).Agrees (emit' value)) :
    (Emission.concat (values.map emit)).Agrees (Emission.concat (values.map emit')) := by
  induction values with
  | nil => exact .refl nothing
  | cons value rest restIH => exact (each value).append restIH

theorem guard {condition condition' : Prop} [Decidable condition] [Decidable condition']
    (emission : Emission) (fault : Fault) :
    (if condition then emission else fail fault).Agrees
      (if condition' then emission else fail fault) := by
  intro complete complete'
  split at complete
  · split at complete'
    · rw [if_pos ‹_›, if_pos ‹_›]
    · cases complete'
  · cases complete

end Agrees

end Emission

/-!
## Values that both tables can write
-/

section Agreement

variable (left right : AtomTable)

theorem Atom.emit_agrees (atom : Atom) : (atom.emit left).Agrees (atom.emit right) := by
  cases atom with
  | int number => exact .refl _
  | string index text => exact .guard _ _

theorem VarDef.emit_agrees (varDef : VarDef) : (varDef.emit left).Agrees (varDef.emit right) :=
  (((varDef.name.emit_agrees left right).before _).before _).before _

theorem ClosureVar.emit_agrees (capture : ClosureVar) :
    (capture.emit left).Agrees (capture.emit right) :=
  ((capture.name.emit_agrees left right).before _).before _

theorem DebugInfo.emitIf_agrees (debug? : Option DebugInfo) :
    (DebugInfo.emitIf left debug?).Agrees (DebugInfo.emitIf right debug?) := by
  cases debug? with
  | none => exact .refl _
  | some debug => exact (((debug.fileName.emit_agrees left right).before _).before _).before _

theorem Frame.emit_agrees (frame : Frame) (constantCount : Nat) :
    (frame.emit left constantCount).Agrees (frame.emit right constantCount) := by
  have name := frame.name.emit_agrees left right
  have locals := Emission.Agrees.concat frame.locals (VarDef.emit_agrees left right)
  have captures := Emission.Agrees.concat frame.closureVars (ClosureVar.emit_agrees left right)
  unfold emit
  split
  · refine .append (.before (.append (.append ?_ locals) captures) _)
      (DebugInfo.emitIf_agrees left right _)
    iterate 8 refine .before ?_ _
    exact .append (.refl _) name
  · exact .refl _

/-- Under two tables a value is written in the same bytes, where both can write it. -/
theorem Value.emit_agrees (options : Options) (budget : Nat) (value : Value) :
    (value.emit options left budget).Agrees (value.emit options right budget) := by
  induction budget generalizing value with
  | zero =>
      cases value with
      | function body =>
          obtain ⟨frame, constants⟩ := body
          rw [emit, emit]
          exact .refl _
      | bool value => cases value <;> exact .refl _
      | _ => exact .refl _
  | succ budget budgetIH =>
      cases value with
      | function body =>
          obtain ⟨frame, constants⟩ := body
          have pool := Emission.Agrees.concat constants budgetIH
          rw [emit, emit, emitAll_eq_concat, emitAll_eq_concat]
          split
          · exact .append (.refl _) ((frame.emit_agrees left right constants.length).append pool)
          · exact .refl _
      | bool value => cases value <;> exact .refl _
      | _ => exact .refl _

end Agreement

/-!
## Tables that resolve alike
-/

section Congruence

variable {left right : AtomTable} (alike : left.text? = right.text?)

include alike

theorem Atom.emit_congr : Atom.emit left = Atom.emit right := by
  funext atom
  cases atom with
  | int number => rfl
  | string index text => rw [emit, emit, alike]

/-- Tables that resolve alike write frames alike, faults included. -/
theorem Frame.emit_congr (frame : Frame) (constantCount : Nat) :
    frame.emit left constantCount = frame.emit right constantCount := by
  have atoms := Atom.emit_congr alike
  have locals : VarDef.emit left = VarDef.emit right := by
    funext varDef
    rw [VarDef.emit, VarDef.emit, atoms]
  have captures : ClosureVar.emit left = ClosureVar.emit right := by
    funext capture
    rw [ClosureVar.emit, ClosureVar.emit, atoms]
  have debug : DebugInfo.emitIf left = DebugInfo.emitIf right := by
    funext debug?
    cases debug? with
    | none => rfl
    | some debug => rw [DebugInfo.emitIf, DebugInfo.emitIf, DebugInfo.emit, DebugInfo.emit, atoms]
  rw [emit, emit, atoms, locals, captures, debug]

private theorem Value.emit_eq_of_alike (options : Options) (budget : Nat) (value : Value) :
    value.emit options left budget = value.emit options right budget := by
  induction budget generalizing value with
  | zero =>
      cases value with
      | function body =>
          obtain ⟨frame, constants⟩ := body
          rw [emit, emit]
      | bool value => cases value <;> rfl
      | _ => rfl
  | succ budget budgetIH =>
      cases value with
      | function body =>
          obtain ⟨frame, constants⟩ := body
          rw [emit, emit, emitAll_eq_concat, emitAll_eq_concat, funext budgetIH,
            frame.emit_congr alike]
      | bool value => cases value <;> rfl
      | _ => rfl

end Congruence

namespace AtomTable

theorem text?_ofStrings_lossy (table : AtomTable) :
    (ofStrings (table.dynamic.map Text.lossy)).text? = table.text? := by
  have same (entry : Text) : (Text.ofString entry.lossy).lossy = entry.lossy :=
    Utf8.lossy_encode entry.lossy
  funext index
  simp [text?, ofStrings, same, Function.comp_def]

private theorem text?_eq_of_resolve {left right : AtomTable}
    (alike : ∀ index text, left.resolve index = .ok text ↔ right.resolve index = .ok text) :
    left.text? = right.text? := by
  funext index
  apply Option.ext
  intro text
  rw [← resolve_eq_ok_iff, ← resolve_eq_ok_iff]
  exact alike index text

end AtomTable

/-!
## Values behind their headers
-/

namespace Value

/-- The bytes of a value behind its header, or the fault that keeps it from being written. -/
def encode (options : Options) (table : AtomTable) (value : Value) : Except Fault (List UInt8) :=
  (value.emit options table options.maxDepth).result options.order

variable {narrow wide : Options} {table : AtomTable}

mutual

/-- What limits admit is written alike under wider ones. -/
private theorem emit_of_wider (functions : narrow.allowBytecode = true → wide.allowBytecode = true)
    {budget budget' : Nat} (wider : budget ≤ budget') : (value : Value) →
    (value.emit narrow table budget).fault? = none →
    value.emit wide table budget' = value.emit narrow table budget
  | .null, _ | .undefined, _ | .bool false, _ | .bool true, _ => rfl
  | .int32 _, _ | .float64 _, _ | .string _, _ => rfl
  | .function ⟨frame, constants⟩, complete => by
      obtain ⟨allowed, budget, rfl⟩ := emit_function_of_complete complete
      obtain ⟨budget', rfl⟩ := Nat.exists_eq_add_one_of_ne_zero (Nat.ne_zero_of_lt wider)
      rw [emit, if_pos allowed] at complete
      obtain ⟨_, bodyComplete⟩ := Emission.fault?_append_eq_none.mp complete
      obtain ⟨_, constantsComplete⟩ := Emission.fault?_append_eq_none.mp bodyComplete
      rw [emit, emit, if_pos allowed, if_pos (functions allowed),
        emitAll_of_wider functions (Nat.le_of_succ_le_succ wider) constants constantsComplete]

private theorem emitAll_of_wider (functions : narrow.allowBytecode = true → wide.allowBytecode = true)
    {budget budget' : Nat} (wider : budget ≤ budget') :
    (values : List Value) → (emitAll narrow table budget values).fault? = none →
    emitAll wide table budget' values = emitAll narrow table budget values
  | [], _ => rfl
  | value :: rest, complete => by
      rw [emitAll] at complete ⊢
      obtain ⟨first, later⟩ := Emission.fault?_append_eq_none.mp complete
      rw [emitAll, emit_of_wider functions wider value first,
        emitAll_of_wider functions wider rest later]

end

end Value

namespace ObjectStream

variable {options : Options} {stream : ObjectStream} {bytes output : List UInt8}

/-- An encoded stream is its header and then its value, each written for itself. -/
private theorem encode_eq_ok_iff_append :
    stream.encode options = .ok output ↔
      ∃ header content, stream.atoms.emit.result options.order = .ok header ∧
        stream.value.encode options stream.atoms = .ok content ∧ output = header ++ content := by
  rw [encode, emit, Emission.result_eq_ok_iff, Emission.fault?_append_eq_none]
  simp only [Value.encode, Emission.result_eq_ok_iff]
  constructor
  · rintro ⟨⟨header, content⟩, rendered⟩
    rw [Emission.render_append _ _ header] at rendered
    exact ⟨_, _, ⟨header, rfl⟩, ⟨content, rfl⟩, rendered.symm⟩
  · rintro ⟨_, _, ⟨header, rfl⟩, ⟨content, rfl⟩, rfl⟩
    exact ⟨⟨header, content⟩, Emission.render_append _ _ header⟩

/-- A decoded value can be written against its own table, under all limits that are no narrower. -/
private theorem exists_encode_value_of_decode {wide : Options}
    (decoded : decode options bytes = .ok stream)
    (functions : options.allowBytecode = true → wide.allowBytecode = true)
    (deeper : options.maxDepth ≤ wide.maxDepth) :
    ∃ content, stream.value.encode wide stream.atoms = .ok content := by
  obtain ⟨after, run, _⟩ := decode_eq_ok_iff.mp decoded
  obtain ⟨_, output, _, encoded, _⟩ := encode_of_run_read_ok run
  obtain ⟨_, content, _, written, _⟩ := encode_eq_ok_iff_append.mp encoded
  obtain ⟨complete, _⟩ := Emission.result_eq_ok_iff.mp written
  have same := Value.emit_of_wider functions deeper stream.value complete
  exact ⟨_, Emission.result_eq_ok_iff.mpr ⟨same ▸ complete, rfl⟩⟩

/-- Two tables that can both write a value write the same bytes behind their headers. Tables that
resolve every id to one text, or neither to any, write it alike or refuse it with one fault. So a
decoded value is written against the legible texts of its table as against the table itself. -/
theorem content_independent_of_table (options : Options) (value : Value) :
    (∀ left right leftOutput rightOutput, encode options ⟨left, value⟩ = .ok leftOutput →
      encode options ⟨right, value⟩ = .ok rightOutput →
      ∃ leftHeader rightHeader content,
        left.emit.result options.order = .ok leftHeader ∧
        right.emit.result options.order = .ok rightHeader ∧
        value.encode options left = .ok content ∧ value.encode options right = .ok content ∧
        leftOutput = leftHeader ++ content ∧ rightOutput = rightHeader ++ content) ∧
    (∀ left right : AtomTable,
      (∀ index text, left.resolve index = .ok text ↔ right.resolve index = .ok text) →
      value.encode options left = value.encode options right) ∧
    ∀ reading bytes atoms, decode reading bytes = .ok ⟨atoms, value⟩ →
      (reading.allowBytecode = true → options.allowBytecode = true) →
      reading.maxDepth ≤ options.maxDepth →
      ∃ content, value.encode options atoms = .ok content ∧
        value.encode options (.ofStrings (atoms.dynamic.map Text.lossy)) = .ok content := by
  refine ⟨fun left right leftOutput rightOutput leftEncoded rightEncoded => ?_,
    fun left right alike => ?_, fun reading bytes atoms decoded functions deeper => ?_⟩
  · obtain ⟨leftHeader, content, leftWritten, written, leftWhole⟩ :=
      encode_eq_ok_iff_append.mp leftEncoded
    obtain ⟨rightHeader, other, rightWritten, writtenToo, rightWhole⟩ :=
      encode_eq_ok_iff_append.mp rightEncoded
    have same : content = other := by
      obtain ⟨complete, rendered⟩ := Emission.result_eq_ok_iff.mp written
      obtain ⟨completeToo, renderedToo⟩ := Emission.result_eq_ok_iff.mp writtenToo
      rw [← rendered, ← renderedToo, Emission.render, Emission.render,
        value.emit_agrees left right options options.maxDepth complete completeToo]
    subst same
    exact ⟨leftHeader, rightHeader, content, leftWritten, rightWritten, written, writtenToo,
      leftWhole, rightWhole⟩
  · rw [Value.encode, Value.encode,
      value.emit_eq_of_alike (AtomTable.text?_eq_of_resolve alike)]
  · obtain ⟨content, written⟩ := exists_encode_value_of_decode decoded functions deeper
    refine ⟨content, written, ?_⟩
    rw [Value.encode] at written ⊢
    rwa [value.emit_eq_of_alike (AtomTable.text?_ofStrings_lossy atoms)]

/-- The texts of the nested stream, narrow and in UTF-8, and one more text behind them. -/
def extended : AtomTable :=
  .ofStrings ["\ufffd", "A\x00", "more"]

/-- The tables of the three laws: one with a text that the other lacks, and one with other bytes for the
same texts. -/
theorem nested_under_other_tables :
    encode {} (nested 12) = .ok nestedBytes ∧
    (∃ longer, encode {} ⟨extended, (nested 12).value⟩ = .ok longer ∧
      ∃ header longerHeader content, (nested 12).atoms.emit.result .little = .ok header ∧
        extended.emit.result .little = .ok longerHeader ∧
        nestedBytes = header ++ content ∧ longer = longerHeader ++ content) ∧
    (∀ index text, (nested 12).atoms.resolve index = .ok text ↔
      (AtomTable.ofStrings ["\ufffd", "A\x00"]).resolve index = .ok text) ∧
    (nested 12).value.encode { ({} : Options) with maxDepth := 1 } (nested 12).atoms =
      (nested 12).value.encode { ({} : Options) with maxDepth := 1 }
        (.ofStrings ["\ufffd", "A\x00"]) ∧
    decode { ({} : Options) with maxDepth := 2 } nestedBytes = .ok (nested 12) ∧
    ∃ content, (nested 12).value.encode {} (nested 12).atoms = .ok content ∧
      (nested 12).value.encode {}
        (.ofStrings ((nested 12).atoms.dynamic.map Text.lossy)) = .ok content := by
  have encoded : encode {} (nested 12) = .ok nestedBytes := rfl
  have inline : (nested 12).atoms.dynamic.length ≤ AtomTable.maxDynamic := by decide
  have shallowly : (nested 12).encode { ({} : Options) with maxDepth := 2 } = .ok nestedBytes := rfl
  have decoded : decode { ({} : Options) with maxDepth := 2 } nestedBytes = .ok (nested 12) :=
    decode_of_encode_ok inline shallowly
  have longer : ∃ longer, encode {} ⟨extended, (nested 12).value⟩ = .ok longer := ⟨_, rfl⟩
  obtain ⟨output, encodedToo⟩ := longer
  obtain ⟨agree, _, again⟩ := content_independent_of_table {} (nested 12).value
  obtain ⟨header, longerHeader, content, written, writtenToo, _, _, whole, wholeToo⟩ :=
    agree _ _ _ _ encoded encodedToo
  have texts : (nested 12).atoms.dynamic.map Text.lossy = ["\ufffd", "A\x00"] := by decide
  have alike (index : UInt32) (text : String) : (nested 12).atoms.resolve index = .ok text ↔
      (AtomTable.ofStrings ["\ufffd", "A\x00"]).resolve index = .ok text := by
    rw [← texts, AtomTable.resolve_eq_ok_iff, AtomTable.resolve_eq_ok_iff,
      AtomTable.text?_ofStrings_lossy]
  have refused := (content_independent_of_table { ({} : Options) with maxDepth := 1 }
    (nested 12).value).2.1 _ _ alike
  exact ⟨encoded, ⟨output, encodedToo, header, longerHeader, content, written, writtenToo, whole,
    wholeToo⟩, alike, refused, decoded, again _ _ _ decoded (fun _ => rfl) (by decide)⟩

end ObjectStream

end BytecodeObject
