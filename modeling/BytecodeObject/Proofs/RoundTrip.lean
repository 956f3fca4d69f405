import BytecodeObject.Proofs.Stream

/-!
# Round trips

Writing undoes strict reading byte for byte, and reading undoes writing up to the kinds of variables
that have one stored form. What strict reading refuses is exactly what would be written in another
way, and what lenient reading accepts beyond that is brought into the one form that strict reading
accepts too.
-/

set_option autoImplicit false

namespace BytecodeObject.ObjectStream

variable {options : Options} {stream : ObjectStream} {bytes output : List UInt8}

/-!
## A nested stream
-/

/-- A function inside a function, with atoms that are not UTF-8 or wide, a debug record, flag bits
that have no meaning, a signalling NaN, and variables of a reserved kind. -/
def nested (kind : UInt8) : ObjectStream where
  atoms := ⟨[⟨false, .ofList [0xFF]⟩, ⟨true, .ofList [0x41, 0]⟩]⟩
  value := .function {
    flags := ⟨0x9400⟩
    mode := 1
    name := .string 210 "\ufffd"
    argCount := 1
    locals := [{
      name := .string 211 "A\x00", scopeNext? := some 200, kind := .reserved kind
      isCaptured := true }]
    closureVars := [{ name := .int 1, kind := .reserved kind }]
    code := [0x29]
    debug? := some { fileName := .int 0, lineNumber := 300, lineTable := [1, 2] }
    constants := [
      .float64 ⟨0x7FF0000000000001⟩,
      .string ⟨true, .ofList [0x41, 0]⟩,
      .function { flags := ⟨0x8000⟩, name := .int 7, constants := [.int32 (-1), .bool true] }] }

def nestedBytes : List UInt8 :=
  [1, 2, 2, 255, 5, 65, 0, 14, 0, 148, 1, 164, 3, 1, 0, 0, 0, 1, 3, 1, 1, 166, 3, 0, 201, 1, 76,
    3, 0, 192, 41, 1, 172, 2, 2, 1, 2, 6, 1, 0, 0, 0, 0, 0, 240, 127, 7, 5, 65, 0, 14, 0, 128, 0,
    15, 0, 0, 0, 0, 0, 2, 0, 0, 5, 3, 4]

/-- The same stream as a lenient reader may find it: integers in more groups than they need, one of
them with bits above the highest, the unused bit of a variable set, and bytes left over. -/
def paddedBytes : List UInt8 :=
  [1, 130, 0, 2, 255, 5, 65, 0, 14, 0, 148, 1, 164, 3, 1, 0, 0, 0, 1, 3, 1, 1, 166, 3, 0, 201, 1,
    204, 3, 0, 192, 41, 1, 172, 130, 128, 128, 112, 2, 1, 2, 6, 1, 0, 0, 0, 0, 0, 240, 127, 7, 5,
    65, 0, 14, 0, 128, 0, 15, 0, 0, 0, 0, 0, 2, 0, 0, 5, 131, 0, 4, 9, 9]

/-- The nested stream is read strictly and leniently, whatever follows it. -/
theorem run_read_nestedBytes (strict : Bool) (suffix : List UInt8) :
    (read { ({} : Options) with strict }).run (.ofBytes (nestedBytes ++ suffix)) =
      .ok (nested 12) ⟨66, suffix⟩ := by
  have encoded : (nested 12).encode { ({} : Options) with strict } = .ok nestedBytes := rfl
  exact run_read_of_encode_ok (by decide) encoded suffix

theorem decode_nestedBytes (strict : Bool) :
    decode { ({} : Options) with strict } nestedBytes = .ok (nested 12) :=
  decode_eq_ok_iff.mpr ⟨_, run_read_nestedBytes strict [], fun _ => rfl⟩

theorem decode_paddedBytes : decode .lenient paddedBytes = .ok (nested 12) := rfl

/-!
## Strict reading
-/

/-- A stream that was decoded strictly is encoded as the bytes it was decoded from. -/
theorem encode_of_decode_strict (strict : options.strict = true)
    (decoded : decode options bytes = .ok stream) : stream.encode options = .ok bytes := by
  obtain ⟨after, run, finished⟩ := decode_eq_ok_iff.mp decoded
  obtain ⟨consumed, output, moved, encoded, _, same⟩ := encode_of_run_read_ok run
  rw [encoded, same strict, moved.eq_of_rest_eq_nil (finished strict)]

theorem nestedBytes_written_back :
    ({} : Options).strict = true ∧ decode {} nestedBytes = .ok (nested 12) ∧
      (nested 12).encode {} = .ok nestedBytes := by
  have decoded : decode {} nestedBytes = .ok (nested 12) := decode_nestedBytes true
  exact ⟨rfl, decoded, encode_of_decode_strict rfl decoded⟩

/-- Strict decoding accepts the bytes that lenient decoding accepts and that are encoded again as
they were, and no others. -/
theorem exists_decode_strict_iff (options : Options) (bytes : List UInt8) :
    (∃ stream, decode { options with strict := true } bytes = .ok stream) ↔
      ∃ stream, decode { options with strict := false } bytes = .ok stream ∧
        stream.encode options = .ok bytes :=
  exists_congr fun _ => decode_strict_eq_ok_iff options

/-- Of two forms of one stream, strict decoding accepts the one that is written and refuses the padded
one, which lenient decoding accepts. -/
theorem nestedBytes_decoded_strict_only :
    (∃ stream, decode { ({} : Options) with strict := true } nestedBytes = .ok stream) ∧
      decode { ({} : Options) with strict := false } paddedBytes = .ok (nested 12) ∧
      (nested 12).encode {} ≠ .ok paddedBytes ∧
      ¬∃ stream, decode { ({} : Options) with strict := true } paddedBytes = .ok stream := by
  have encoded : (nested 12).encode {} = .ok nestedBytes := rfl
  have other : (nested 12).encode {} ≠ .ok paddedBytes := by
    rw [encoded]
    exact fun same => absurd (Except.ok.inj same) (by decide)
  refine ⟨?_, decode_paddedBytes, other, fun accepted => ?_⟩
  · exact (exists_decode_strict_iff {} nestedBytes).mpr
      ⟨nested 12, decode_nestedBytes false, encoded⟩
  · obtain ⟨stream, decoded, again⟩ := (exists_decode_strict_iff {} paddedBytes).mp accepted
    cases decode_paddedBytes.symm.trans decoded
    exact other again

/-!
## Reading what was written
-/

/-- Decoding an encoded stream reads exactly its bytes and yields its normal form, which has the
same encoding. Bytes after it are left to a lenient reader and refused by a strict one. -/
theorem decode_append_of_encode (inline : stream.atoms.dynamic.length ≤ AtomTable.maxDynamic)
    (encoded : stream.encode options = .ok output) (suffix : List UInt8) :
    (read options).run (.ofBytes (output ++ suffix)) =
        .ok stream.normalized ⟨output.length, suffix⟩ ∧
      decode options (output ++ suffix) =
        (if options.strict = true ∧ suffix ≠ [] then
          .error (.trailingBytes output.length suffix.length)
        else
          .ok stream.normalized) ∧
      stream.normalized.encode options = .ok output := by
  have run := run_read_of_encode_ok inline encoded suffix
  refine ⟨run, decode_of_run_read_ok run, ?_⟩
  rw [encode_normalized, encoded]

/-- A reserved kind of 28 is stored as 12, and comes back as that. -/
theorem nested_decoded_before_suffix :
    (nested 28).atoms.dynamic.length ≤ AtomTable.maxDynamic ∧
      (nested 28).encode {} = .ok nestedBytes ∧
      (read {}).run (.ofBytes (nestedBytes ++ [9, 9])) = .ok (nested 12) ⟨66, [9, 9]⟩ ∧
      decode {} (nestedBytes ++ [9, 9]) = .error (.trailingBytes 66 2) ∧
      (nested 12).encode {} = .ok nestedBytes := by
  have inline : (nested 28).atoms.dynamic.length ≤ AtomTable.maxDynamic := by decide
  have encoded : (nested 28).encode {} = .ok nestedBytes := rfl
  exact ⟨inline, encoded, decode_append_of_encode inline encoded [9, 9]⟩

/-!
## Normalizing
-/

/-- A decoded stream is encoded in no more bytes than were read for it, and every reader that has the
same limits decodes these as the same stream. -/
theorem normalizes_of_decode (decoded : decode options bytes = .ok stream) :
    ∃ cursor output, (read options).run (.ofBytes bytes) = .ok stream cursor ∧
      stream.encode options = .ok output ∧
      output.length ≤ cursor.offset ∧ cursor.offset ≤ bytes.length ∧
      decode options output = .ok stream ∧
      decode { options with strict := true } output = .ok stream := by
  obtain ⟨after, run, _⟩ := decode_eq_ok_iff.mp decoded
  obtain ⟨inline, normal⟩ := normal_of_run_read_ok run
  obtain ⟨consumed, output, moved, encoded, short, _⟩ := encode_of_run_read_ok run
  have strictly : stream.encode { options with strict := true } = .ok output :=
    (encode_strict options true stream).trans encoded
  refine ⟨after, output, run, encoded, ?_, ?_, ?_, ?_⟩
  · rw [moved.offset_eq_length]
    exact short
  · rw [moved.offset_eq_length]
    exact moved.length_le
  · rw [decode_of_encode_ok inline encoded, normal]
  · rw [decode_of_encode_ok inline strictly, normal]

theorem paddedBytes_normalized :
    decode .lenient paddedBytes = .ok (nested 12) ∧
      ∃ cursor output, (read .lenient).run (.ofBytes paddedBytes) = .ok (nested 12) cursor ∧
        (nested 12).encode .lenient = .ok output ∧
        output.length ≤ cursor.offset ∧ cursor.offset ≤ paddedBytes.length ∧
        decode .lenient output = .ok (nested 12) ∧
        decode { Options.lenient with strict := true } output = .ok (nested 12) :=
  ⟨decode_paddedBytes, normalizes_of_decode decode_paddedBytes⟩

end BytecodeObject.ObjectStream
