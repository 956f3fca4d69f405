import BytecodeObject.Proofs.RoundTrip

/-!
# Places of tags

Every value that stands somewhere in a written stream has its tag at a place given by what is written
in front of it. A reader comes to that place without a fault and without a byte too many or too few, so
a byte there that is no tag, or a tag that is not read, ends it with a fault that names just this,
whatever follows.
-/

set_option autoImplicit false

namespace BytecodeObject

namespace Emission

/-- Emissions one after the other, around the one at a place. -/
private theorem concat_map_eq_around {α : Type} {emit : α → Emission} {values : List α} {place : Nat}
    {value : α} (held : values[place]? = some value) :
    concat (values.map emit) =
      concat ((values.take place).map emit) ++
        (emit value ++ concat ((values.drop (place + 1)).map emit)) := by
  induction values generalizing place with
  | nil => cases held
  | cons first values valuesIH =>
      cases place with
      | zero =>
          cases held
          rfl
      | succ place =>
          rw [List.map_cons, concat_cons, valuesIH held, ← append_assoc]
          rfl

end Emission

namespace Tag

private theorem toByte_bounds (tag : Tag) : 0 < tag.toByte ∧ tag.toByte ≤ 21 := by
  cases tag <;> decide

private theorem ofByte?_eq_none {byte : UInt8} (outside : byte = 0 ∨ 21 < byte) :
    ofByte? byte = none := by
  cases found : ofByte? byte with
  | none => rfl
  | some tag =>
      obtain ⟨positive, small⟩ := tag.toByte_bounds
      rw [toByte_of_ofByte? found] at positive small
      rcases outside with rfl | large
      · exact absurd positive (UInt8.lt_irrefl 0)
      · exact absurd small (UInt8.not_le.mpr large)

end Tag

/-!
## Readers that come to a place
-/

namespace Reader

variable {α β : Type} {order : ByteOrder} {tail : List UInt8} {fault : Nat → Fault}

/-- Behind the bytes of a complete emission the reader is ended by `tail`, in the fault that goes with
the offset of `tail`. -/
def HaltsBehind (reader : Reader α) (order : ByteOrder) (before : Emission) (tail : List UInt8)
    (fault : Nat → Fault) : Prop :=
  before.fault? = none → ∀ offset, ∃ after,
    reader.run ⟨offset, before.render order ++ tail⟩ =
      .error (fault (offset + (before.render order).length)) after

namespace HaltsBehind

theorem start {first : Reader α} {before : Emission} (next : α → Reader β)
    (halts : first.HaltsBehind order before tail fault) :
    (first >>= next).HaltsBehind order before tail fault := by
  intro complete offset
  obtain ⟨after, failed⟩ := halts complete offset
  exact ⟨after, run_bind_of_error failed⟩

/-- A reader that goes on halts behind what its first part has read. -/
theorem bind {first : Reader α} {next : α → Reader β} {left right : Emission} {value : α}
    (restored : first.Restores order left value)
    (halts : (next value).HaltsBehind order right tail fault) :
    (first >>= next).HaltsBehind order (left ++ right) tail fault := by
  intro complete offset
  obtain ⟨leftComplete, rightComplete⟩ := Emission.fault?_append_eq_none.mp complete
  obtain ⟨after, failed⟩ := halts rightComplete (offset + (left.render order).length)
  refine ⟨after, ?_⟩
  rw [Emission.render_append right order leftComplete, List.append_assoc,
    run_bind_of_ok (restored leftComplete offset _), failed, List.length_append, Nat.add_assoc]

theorem bind_position {next : Nat → Reader β} {before : Emission}
    (halts : ∀ offset, (next offset).HaltsBehind order before tail fault) :
    (position >>= next).HaltsBehind order before tail fault := by
  intro complete offset
  rw [run_bind_of_ok (run_position _)]
  exact halts offset complete offset

theorem map {reader : Reader α} {before : Emission} (view : α → β)
    (halts : reader.HaltsBehind order before tail fault) :
    (view <$> reader).HaltsBehind order before tail fault := by
  rw [map_eq_pure_bind]
  exact halts.start _

/-- A repetition goes through what was written in front of the place, and is ended there by its
reader. -/
theorem times {γ : Type} {reader : Reader β} {emit : γ → Emission} {view : γ → β}
    {values : List γ} {place : Nat} {value : γ} {before : Emission}
    (each : ∀ value, reader.Restores order (emit value) (view value))
    (held : values[place]? = some value)
    (halts : reader.HaltsBehind order before tail fault) :
    (Reader.times values.length reader).HaltsBehind order
      (.concat ((values.take place).map emit) ++ before) tail fault := by
  induction values generalizing place with
  | nil => cases held
  | cons first values valuesIH =>
      rw [List.length_cons, times_succ]
      cases place with
      | zero => exact halts.start _
      | succ place =>
          rw [List.take_succ_cons, List.map_cons, Emission.concat_cons, Emission.append_assoc]
          exact bind (each first) ((valuesIH held).start _)

end HaltsBehind

end Reader

/-!
## Places in a value
-/

namespace Value

/-- The value at a path. A path names the place of a constant in each function on the way. -/
def node? : List Nat → Value → Option Value
  | [], value => some value
  | place :: path, .function body => body.constants[place]?.bind (node? path)
  | _ :: _, _ => none

/-- What is written in front of the tag of the value at a path: the tags and frames of the functions
on the way, and the constants of each that come earlier. -/
def lead (options : Options) (table : AtomTable) : (budget : Nat) → List Nat → Value → Emission
  | budget + 1, place :: path, .function body =>
      .byte Tag.functionBytecode.toByte ++
        (body.toFrame.emit table body.constants.length ++
          (.concat ((body.constants.take place).map (emit options table budget)) ++
            body.constants[place]?.elim .nothing (lead options table budget path)))
  | _, _, _ => .nothing

variable {options : Options} {table : AtomTable} {budget : Nat}

/-- The output of a function around one of its constants. -/
private theorem emit_function_around {body : Function Value} {constant : Value} {place : Nat}
    (allowed : options.allowBytecode = true) (held : body.constants[place]? = some constant) :
    emit options table (budget + 1) (.function body) =
      .byte Tag.functionBytecode.toByte ++
        (body.toFrame.emit table body.constants.length ++
          (.concat ((body.constants.take place).map (emit options table budget)) ++
            (emit options table budget constant ++
              .concat ((body.constants.drop (place + 1)).map (emit options table budget))))) := by
  rw [emit_function _ _ _ _ allowed, Function.emit, Emission.concat_map_eq_around held]

private theorem lead_function {body : Function Value} {constant : Value} {place : Nat}
    (held : body.constants[place]? = some constant) (path : List Nat) :
    lead options table (budget + 1) (place :: path) (.function body) =
      .byte Tag.functionBytecode.toByte ++
        (body.toFrame.emit table body.constants.length ++
          (.concat ((body.constants.take place).map (emit options table budget)) ++
            lead options table budget path constant)) := by
  rw [lead, held, Option.elim_some]

private theorem emit_eq_tag_append {value : Value}
    (complete : (emit options table budget value).fault? = none) :
    ∃ payload, emit options table budget value = .byte value.tag.toByte ++ payload := by
  cases value with
  | null => exact ⟨.nothing, rfl⟩
  | undefined => exact ⟨.nothing, rfl⟩
  | bool value => cases value <;> exact ⟨.nothing, rfl⟩
  | int32 number => exact ⟨.int32 number, rfl⟩
  | float64 double => exact ⟨.double double, rfl⟩
  | string text => exact ⟨text.emit, rfl⟩
  | function body =>
      obtain ⟨allowed, budget, rfl⟩ := emit_function_of_complete complete
      exact ⟨_, emit_function options table budget body allowed⟩

/-- The output of a value goes through that of the value at a path. -/
theorem emit_eq_lead_append {path : List Nat} {value node : Value}
    (found : node? path value = some node)
    (complete : (emit options table budget value).fault? = none) :
    ∃ inner trail, emit options table budget value =
      lead options table budget path value ++ (emit options table inner node ++ trail) := by
  induction path generalizing budget value with
  | nil =>
      cases found
      refine ⟨budget, .nothing, ?_⟩
      rw [Emission.append_nothing]
      cases budget <;> rfl
  | cons place path pathIH =>
      cases value with
      | function body =>
          obtain ⟨constant, held, found⟩ := Option.bind_eq_some_iff.mp found
          obtain ⟨allowed, budget, rfl⟩ := emit_function_of_complete complete
          rw [emit_function_around allowed held] at complete ⊢
          simp only [Emission.fault?_append_eq_none] at complete
          obtain ⟨inner, trail, same⟩ := pathIH found complete.2.2.2.1
          rw [lead_function held, same]
          simp only [Emission.append_assoc]
          exact ⟨inner, _, rfl⟩
      | _ => cases found

/-!
## Bytes at a tag's place
-/

private theorem readTagged_halts_of_unknown {byte : UInt8} (unknown : Tag.ofByte? byte = none)
    (body : Reader (Function Value)) (suffix : List UInt8) :
    (readTagged options body).HaltsBehind options.order .nothing (byte :: suffix)
      fun offset => .invalidTag offset byte := by
  intro _ offset
  refine ⟨⟨offset + 1, suffix⟩, ?_⟩
  change (readTagged options body).run ⟨offset, byte :: suffix⟩ = _
  rw [readTagged, Reader.run_bind_of_ok (Reader.run_position _),
    Reader.run_bind_of_ok (Reader.run_byte_cons _ _ _), unknown]
  rfl

private theorem readTagged_halts_of_unsupported {tag : Tag} (unread : tag.isSupported = false)
    (body : Reader (Function Value)) (suffix : List UInt8) :
    (readTagged options body).HaltsBehind options.order .nothing (tag.toByte :: suffix)
      fun _ => .unsupportedTag tag := by
  intro _ offset
  refine ⟨⟨offset + 1, suffix⟩, ?_⟩
  change (readTagged options body).run ⟨offset, tag.toByte :: suffix⟩ = _
  rw [readTagged, Reader.run_bind_of_ok (Reader.run_position _),
    Reader.run_bind_of_ok (Reader.run_byte_cons _ _ _), Tag.ofByte?_toByte]
  cases tag <;> first | rfl | cases unread

private theorem readTagged_haltsBehind_function {body : Reader (Function Value)} {before : Emission}
    {tail : List UInt8} {fault : Nat → Fault} (allowed : options.allowBytecode = true)
    (halts : body.HaltsBehind options.order before tail fault) :
    (readTagged options body).HaltsBehind options.order
      (.byte Tag.functionBytecode.toByte ++ before) tail fault := by
  refine .bind_position fun offset => ?_
  refine .bind (Reader.byte_restores options.order Tag.functionBytecode.toByte) ?_
  change (if options.allowBytecode = true then Value.function <$> body
    else Reader.fail .bytecodeNotAllowed).HaltsBehind options.order before tail fault
  rw [if_pos allowed]
  exact halts.map Value.function

/-- What ends the reader of a value at a path ends the reader of the whole value there. -/
theorem read_haltsBehind {tail : List UInt8} {fault : Nat → Fault} {path : List Nat}
    {value node : Value} (inline : table.dynamic.length ≤ AtomTable.maxDynamic)
    (found : node? path value = some node)
    (complete : (emit options table budget value).fault? = none)
    (halts : ∀ body, (readTagged options body).HaltsBehind options.order .nothing tail fault) :
    (read options table budget).HaltsBehind options.order (lead options table budget path value)
      tail fault := by
  -- Induction on the path. What stands in front of a constant is read back as it was written, so that
  -- the reader of the constant starts where the rest of the path starts.
  induction path generalizing budget value with
  | nil => cases budget <;> exact halts _
  | cons place path pathIH =>
      cases value with
      | function body =>
          obtain ⟨constant, held, found⟩ := Option.bind_eq_some_iff.mp found
          obtain ⟨allowed, budget, rfl⟩ := emit_function_of_complete complete
          rw [emit_function_around allowed held] at complete
          simp only [Emission.fault?_append_eq_none] at complete
          have constants := (pathIH found complete.2.2.2.1).times
            (fun earlier => read_restores options inline budget earlier) held
          rw [lead_function held]
          refine readTagged_haltsBehind_function allowed ?_
          exact .bind (Frame.read_restores options inline body.toFrame _) (constants.start _)
      | _ => cases found

end Value

/-!
## Places in a stream
-/

namespace ObjectStream

variable {options : Options} {stream : ObjectStream} {path : List Nat} {node : Value}

def lead (options : Options) (stream : ObjectStream) (path : List Nat) : Emission :=
  stream.atoms.emit ++ stream.value.lead options stream.atoms options.maxDepth path

def tagOffset (options : Options) (stream : ObjectStream) (path : List Nat) : Nat :=
  ((stream.lead options path).render options.order).length

private theorem lead_of_encode {output : List UInt8} (encoded : stream.encode options = .ok output)
    (found : stream.value.node? path = some node) :
    (stream.lead options path).fault? = none ∧
      ∃ rest, output = (stream.lead options path).render options.order ++ node.tag.toByte :: rest := by
  obtain ⟨complete, rendered⟩ := Emission.result_eq_ok_iff.mp encoded
  have valueComplete := (Emission.fault?_append_eq_none.mp complete).2
  obtain ⟨inner, trail, same⟩ := Value.emit_eq_lead_append found valueComplete
  rw [same] at valueComplete
  simp only [Emission.fault?_append_eq_none] at valueComplete
  obtain ⟨payload, tagged⟩ := Value.emit_eq_tag_append valueComplete.2.1
  have parts : stream.emit options =
      stream.lead options path ++ (.byte node.tag.toByte ++ (payload ++ trail)) := by
    rw [emit, lead, same, tagged]
    simp only [Emission.append_assoc]
  rw [parts] at complete rendered
  have leadComplete := (Emission.fault?_append_eq_none.mp complete).1
  rw [Emission.render_append _ _ leadComplete, Emission.render_append _ _ rfl, Emission.byte,
    Emission.render_bytes] at rendered
  exact ⟨leadComplete, _, rendered.symm⟩

theorem read_haltsBehind {tail : List UInt8} {fault : Nat → Fault} {output : List UInt8}
    (inline : stream.atoms.dynamic.length ≤ AtomTable.maxDynamic)
    (encoded : stream.encode options = .ok output)
    (found : stream.value.node? path = some node)
    (halts : ∀ body, (Value.readTagged options body).HaltsBehind options.order .nothing tail fault) :
    (read options).HaltsBehind options.order (stream.lead options path) tail fault := by
  obtain ⟨complete, _⟩ := Emission.result_eq_ok_iff.mp encoded
  have valueComplete := (Emission.fault?_append_eq_none.mp complete).2
  have value := Value.read_haltsBehind inline found valueComplete halts
  exact .bind (AtomTable.read_restores options.strict options.order inline) (value.start _)

private theorem decode_of_haltsBehind {tail : List UInt8} {fault : Nat → Fault} {before : Emission}
    (complete : before.fault? = none)
    (halts : (read options).HaltsBehind options.order before tail fault) :
    decode options (before.render options.order ++ tail) =
      .error (fault (before.render options.order).length) := by
  obtain ⟨after, failed⟩ := halts complete 0
  rw [Nat.zero_add] at failed
  rw [decode, Cursor.ofBytes, failed]

/-- Where a written stream has the tag of any of its values, a byte that is no tag is reported with
its offset, and a tag that is not read by its name, whatever follows. -/
theorem decode_replaced_tag {output : List UInt8}
    (inline : stream.atoms.dynamic.length ≤ AtomTable.maxDynamic)
    (encoded : stream.encode options = .ok output)
    (found : stream.value.node? path = some node) (suffix : List UInt8) :
    output[stream.tagOffset options path]? = some node.tag.toByte ∧
      (∀ tag : Tag, tag.isSupported = false →
        decode options (output.take (stream.tagOffset options path) ++ tag.toByte :: suffix) =
          .error (.unsupportedTag tag)) ∧
      ∀ byte : UInt8, byte = 0 ∨ 21 < byte →
        decode options (output.take (stream.tagOffset options path) ++ byte :: suffix) =
          .error (.invalidTag (stream.tagOffset options path) byte) := by
  obtain ⟨complete, rest, split⟩ := lead_of_encode encoded found
  have front : output.take (stream.tagOffset options path) =
      (stream.lead options path).render options.order := by
    rw [split, tagOffset, List.take_left]
  rw [front]
  refine ⟨?_, fun tag unread => ?_, fun byte outside => ?_⟩
  · rw [split, tagOffset, List.getElem?_append_right (Nat.le_refl _), Nat.sub_self]
    rfl
  · exact decode_of_haltsBehind complete (read_haltsBehind inline encoded found fun body =>
      Value.readTagged_halts_of_unsupported unread body suffix)
  · exact decode_of_haltsBehind complete (read_haltsBehind inline encoded found fun body =>
      Value.readTagged_halts_of_unknown (Tag.ofByte?_eq_none outside) body suffix)

/-- The tag of a number in the constants of the inner function, replaced by that of an array and by a
byte that is no tag. -/
theorem nested_replaced_tag :
    (nested 28).atoms.dynamic.length ≤ AtomTable.maxDynamic ∧
      (nested 28).encode {} = .ok nestedBytes ∧
      (nested 28).value.node? [2, 0] = some (.int32 (-1)) ∧
      nestedBytes[63]? = some Tag.int32.toByte ∧ Tag.array.isSupported = false ∧
      decode {} (nestedBytes.take 63 ++ 9 :: [4]) = .error (.unsupportedTag .array) ∧
      decode {} (nestedBytes.take 63 ++ 22 :: [4]) = .error (.invalidTag 63 22) := by
  have inline : (nested 28).atoms.dynamic.length ≤ AtomTable.maxDynamic := by decide
  have encoded : (nested 28).encode {} = .ok nestedBytes := rfl
  have found : (nested 28).value.node? [2, 0] = some (.int32 (-1)) := rfl
  have offset : (nested 28).tagOffset {} [2, 0] = 63 := rfl
  obtain ⟨tag, unsupported, invalid⟩ := decode_replaced_tag inline encoded found [4]
  rw [offset] at tag unsupported invalid
  exact ⟨inline, encoded, found, tag, rfl, unsupported .array rfl, invalid 22 (.inr (by decide))⟩

end ObjectStream

end BytecodeObject
