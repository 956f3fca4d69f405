import BytecodeObject.Proofs.Value
import BytecodeObject.Stream.Basic

/-!
# Streams, read and written

A stream whose header is within the limit is read back as its normal form, and one that was read is
normal, within the limit and covered by its output. What strict decoding adds to reading is the end
of the input.
-/

set_option autoImplicit false

namespace BytecodeObject

namespace ObjectStream

variable {options : Options} {stream : ObjectStream} {bytes : List UInt8}

/-!
## Normal streams
-/

def normalized (stream : ObjectStream) : ObjectStream where
  atoms := stream.atoms
  value := stream.value.normalized

theorem encode_normalized (options : Options) (stream : ObjectStream) :
    stream.normalized.encode options = stream.encode options := by
  unfold encode emit normalized
  rw [Value.emit_normalized]

theorem emit_congr {left right : Options} (functions : left.allowBytecode = right.allowBytecode)
    (depth : left.maxDepth = right.maxDepth) (stream : ObjectStream) :
    stream.emit left = stream.emit right := by
  rw [emit, emit, depth, Value.emit_congr functions depth]

/-- Writing does not depend on how strictly is read. -/
theorem encode_strict (options : Options) (strict : Bool) (stream : ObjectStream) :
    stream.encode { options with strict } = stream.encode options := by
  have same : stream.emit { options with strict } = stream.emit options := by
    apply emit_congr <;> rfl
  rw [encode, encode, same]

/-!
## Decoding
-/

/-- Decoding yields what was read, unless it is strict and bytes are left. -/
theorem decode_of_run_read_ok {after : Cursor}
    (run : (read options).run (.ofBytes bytes) = .ok stream after) :
    decode options bytes =
      if options.strict = true ∧ after.rest ≠ [] then
        .error (.trailingBytes after.offset after.rest.length)
      else
        .ok stream := by
  unfold decode
  rw [run]
  cases options.strict <;> simp [Cursor.isAtEnd, Cursor.remaining]

theorem decode_eq_ok_iff :
    decode options bytes = .ok stream ↔
      ∃ after, (read options).run (.ofBytes bytes) = .ok stream after ∧
        (options.strict = true → after.rest = []) := by
  constructor
  · intro decoded
    cases ran : (read options).run (.ofBytes bytes) with
    | error fault cursor =>
        rw [decode, ran] at decoded
        cases decoded
    | ok result after =>
        rw [decode_of_run_read_ok ran] at decoded
        split at decoded
        · cases decoded
        · rename_i ended
          cases decoded
          exact ⟨after, rfl, fun strict => Classical.byContradiction fun left => ended ⟨strict, left⟩⟩
  · rintro ⟨after, run, finished⟩
    rw [decode_of_run_read_ok run, if_neg]
    rintro ⟨strict, left⟩
    exact left (finished strict)

/-!
## Reading what was written
-/

theorem read_restores (options : Options)
    (inline : stream.atoms.dynamic.length ≤ AtomTable.maxDynamic) :
    (read options).Restores options.order (stream.emit options) stream.normalized := by
  apply (AtomTable.read_restores options.strict options.order inline).bind
  exact (Value.read_restores options inline options.maxDepth stream.value).bind_pure _

/-- An encoded stream is read back in its normal form, whatever follows it. -/
theorem run_read_of_encode_ok {output : List UInt8}
    (inline : stream.atoms.dynamic.length ≤ AtomTable.maxDynamic)
    (encoded : stream.encode options = .ok output) (suffix : List UInt8) :
    (read options).run (.ofBytes (output ++ suffix)) =
      .ok stream.normalized ⟨output.length, suffix⟩ := by
  obtain ⟨complete, rendered⟩ := Emission.result_eq_ok_iff.mp encoded
  have run := read_restores options inline complete 0 suffix
  rw [rendered, Nat.zero_add] at run
  exact run

theorem decode_of_encode_ok {output : List UInt8}
    (inline : stream.atoms.dynamic.length ≤ AtomTable.maxDynamic)
    (encoded : stream.encode options = .ok output) :
    decode options output = .ok stream.normalized := by
  have run := run_read_of_encode_ok inline encoded []
  rw [List.append_nil] at run
  exact decode_eq_ok_iff.mpr ⟨_, run, fun _ => rfl⟩

/-!
## Writing what was read
-/

/-- What reading yields is restored by reading what is written of it. -/
theorem normal_of_run_read_ok {before after : Cursor}
    (run : (read options).run before = .ok stream after) :
    stream.atoms.dynamic.length ≤ AtomTable.maxDynamic ∧ stream.normalized = stream := by
  obtain ⟨atoms, middle, atomsRun, run⟩ := Reader.run_bind_ok run
  obtain ⟨value, last, valueRun, run⟩ := Reader.run_bind_ok run
  cases run
  refine ⟨AtomTable.length_dynamic_of_run_read_ok atomsRun, ?_⟩
  rw [normalized, (Value.run_read_ok valueRun).1]

/-- What was read can be written, in no more bytes than were read. Strict reading leaves nothing
that would be written in another way. -/
theorem encode_of_run_read_ok {before after : Cursor}
    (run : (read options).run before = .ok stream after) :
    ∃ consumed output, before.Advances consumed after ∧ stream.encode options = .ok output ∧
      output.length ≤ consumed.length ∧ (options.strict = true → output = consumed) := by
  obtain ⟨atoms, middle, atomsRun, run⟩ := Reader.run_bind_ok run
  obtain ⟨value, last, valueRun, run⟩ := Reader.run_bind_ok run
  cases run
  have header := AtomTable.read_retraced options.strict options.order atomsRun
  obtain ⟨complete, consumed, moved, short, same⟩ := header.append (Value.run_read_ok valueRun).2
  exact ⟨consumed, _, moved, Emission.result_eq_ok_iff.mpr ⟨complete, rfl⟩, short, same⟩

/-- A stream is accepted strictly where it is accepted at all and is written as it was. -/
theorem decode_strict_eq_ok_iff (options : Options) :
    decode { options with strict := true } bytes = .ok stream ↔
      decode { options with strict := false } bytes = .ok stream ∧
        stream.encode options = .ok bytes := by
  constructor
  · intro decoded
    obtain ⟨after, run, finished⟩ := decode_eq_ok_iff.mp decoded
    obtain ⟨inline, normal⟩ := normal_of_run_read_ok run
    obtain ⟨consumed, output, moved, encoded, _, same⟩ := encode_of_run_read_ok run
    rw [same rfl, moved.eq_of_rest_eq_nil (finished rfl), encode_strict] at encoded
    have leniently : stream.encode { options with strict := false } = .ok bytes :=
      (encode_strict options false stream).trans encoded
    refine ⟨?_, encoded⟩
    rw [decode_of_encode_ok inline leniently, normal]
  · rintro ⟨decoded, encoded⟩
    obtain ⟨after, run, _⟩ := decode_eq_ok_iff.mp decoded
    obtain ⟨inline, normal⟩ := normal_of_run_read_ok run
    have strictly : stream.encode { options with strict := true } = .ok bytes :=
      (encode_strict options true stream).trans encoded
    rw [decode_of_encode_ok inline strictly, normal]

end ObjectStream

end BytecodeObject
