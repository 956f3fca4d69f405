import BytecodeObject.Proofs.Relaxation
import BytecodeObject.Proofs.RoundTrip

/-!
# Decoding beside decoding

Strict decoding differs from lenient decoding in its own checks alone: until one of them fails, both
see the same stream and report the same fault. Bytes behind those that were read change nothing, so no
stream that is accepted is the beginning of another one.
-/

set_option autoImplicit false

namespace BytecodeObject

/-!
## Relaxations
-/

/-- Lenient reading relaxes strict reading, with the faults of strict checks excused. -/
theorem Options.relaxes_lenient (options : Options) :
    Relaxes (fun fault => fault.isStrictOnly = true) [] { options with strict := true }
      { options with strict := false } where
  ending := .inl rfl
  order := rfl
  strict := .inr ⟨rfl, fun _ strictOnly => strictOnly⟩
  functions := .inl rfl
  depth := .inl rfl

/-- Bytes behind an input relax the reading of it, with its end excused. -/
theorem Options.relaxes_suffix (options : Options) (suffix : List UInt8) :
    Relaxes (fun fault => ∃ offset needed remaining, fault = .unexpectedEnd offset needed remaining)
      suffix options options where
  ending := .inr fun offset needed remaining => ⟨offset, needed, remaining, rfl⟩
  order := rfl
  strict := .inl rfl
  functions := .inl rfl
  depth := .inl rfl

namespace ObjectStream

variable {options : Options} {bytes suffix : List UInt8} {stream : ObjectStream}

private theorem run_read_lenient {before after : Cursor}
    (run : (read { options with strict := true }).run before = .ok stream after) :
    (read { options with strict := false }).run before = .ok stream after := by
  have followed := (read_followed options.relaxes_lenient).ok run
  rwa [Cursor.extended_nil, Cursor.extended_nil] at followed

private theorem run_read_of_decode_strict
    (decoded : decode { options with strict := true } bytes = .ok stream) (strict : Bool) :
    ∃ after, (read { options with strict }).run (.ofBytes bytes) = .ok stream after ∧
      after.rest = [] := by
  obtain ⟨after, run, finished⟩ := decode_eq_ok_iff.mp decoded
  cases strict with
  | true => exact ⟨after, run, finished rfl⟩
  | false => exact ⟨after, run_read_lenient run, finished rfl⟩

private theorem decode_eq_unexpectedEnd_of_run_read {after : Cursor}
    (run : (read options).run (.ofBytes (bytes ++ suffix)) = .ok stream after)
    (finished : after.rest = []) (proper : suffix ≠ []) :
    ∃ offset needed remaining,
      decode options bytes = .error (.unexpectedEnd offset needed remaining) := by
  have followed := read_followed (options.relaxes_suffix suffix)
  cases ran : (read options).run (.ofBytes bytes) with
  | ok earlier middle =>
      -- Reading the whole input would leave the suffix behind.
      have whole := (followed.ok ran).symm.trans run
      injection whole with _ cursors
      have unread : middle.rest ++ suffix = [] := (congrArg Cursor.rest cursors).trans finished
      exact absurd (List.append_eq_nil_iff.mp unread).2 proper
  | error fault middle =>
      rcases followed.error ran with ⟨offset, needed, remaining, rfl⟩ | whole
      · refine ⟨offset, needed, remaining, ?_⟩
        rw [decode, ran]
      · have impossible := whole.symm.trans run
        cases impossible

/-!
## Strict and lenient decoding
-/

/-- A function whose one constant is a function, up to the one constant of that. -/
def enclosed (constant : List UInt8) : List UInt8 :=
  1 :: 0 :: 14 :: 0 :: 0 :: 0 :: 1 :: 0 :: 0 :: 0 :: 0 :: 0 :: 1 :: 0 :: 0 ::
    14 :: 0 :: 0 :: 0 :: 1 :: 0 :: 0 :: 0 :: 0 :: 0 :: 1 :: 0 :: 0 :: constant

/-- Lenient decoding makes no strict check. Where strict decoding yields a stream, or a fault of none
of its own checks, lenient decoding yields the same. -/
theorem decode_lenient_of_decode_strict (options : Options) (bytes : List UInt8) :
    (∀ fault, decode { options with strict := false } bytes = .error fault →
      fault.isStrictOnly = false) ∧
    (∀ stream, decode { options with strict := true } bytes = .ok stream →
      decode { options with strict := false } bytes = .ok stream) ∧
    ∀ fault, decode { options with strict := true } bytes = .error fault →
      fault.isStrictOnly = false → decode { options with strict := false } bytes = .error fault := by
  refine ⟨fun fault failed => ?_, fun stream decoded => ?_, fun fault failed unchecked => ?_⟩
  · apply Bool.eq_false_iff.mpr
    intro checked
    cases (fault_of_decode_error failed).strict_of_isStrictOnly checked
  · obtain ⟨after, run, _⟩ := run_read_of_decode_strict decoded false
    exact decode_eq_ok_iff.mpr ⟨after, run, fun isStrict => nomatch isStrict⟩
  · cases ran : (read { options with strict := true }).run (.ofBytes bytes) with
    | ok stream after =>
        -- Only trailing bytes are left to refuse, and that is a strict check.
        rw [decode_of_run_read_ok ran] at failed
        split at failed
        · cases failed
          cases unchecked
        · cases failed
    | error earlier after =>
        rw [decode, ran] at failed
        cases failed
        rcases (read_followed options.relaxes_lenient).error ran with checked | same
        · exact absurd checked (Bool.eq_false_iff.mp unchecked)
        · rw [Cursor.extended_nil] at same
          rw [decode, same]

theorem enclosed_decoded_alike :
    decode { ({} : Options) with strict := false } (enclosed []) = .error (.unexpectedEnd 28 1 0) ∧
      (Fault.unexpectedEnd 28 1 0).isStrictOnly = false ∧
      decode { ({} : Options) with strict := true } nestedBytes = .ok (nested 12) ∧
      decode { ({} : Options) with strict := false } nestedBytes = .ok (nested 12) ∧
      decode { ({} : Options) with strict := true } (enclosed [9]) =
        .error (.unsupportedTag .array) ∧
      decode { ({} : Options) with strict := false } (enclosed [9]) =
        .error (.unsupportedTag .array) := by
  have cut : decode { ({} : Options) with strict := false } (enclosed []) =
      .error (.unexpectedEnd 28 1 0) := rfl
  have whole := decode_nestedBytes true
  have refused : decode { ({} : Options) with strict := true } (enclosed [9]) =
      .error (.unsupportedTag .array) := rfl
  exact ⟨cut, (decode_lenient_of_decode_strict {} (enclosed [])).1 _ cut, whole,
    (decode_lenient_of_decode_strict {} nestedBytes).2.1 _ whole, refused,
    (decode_lenient_of_decode_strict {} (enclosed [9])).2.2 _ refused rfl⟩

/-!
## Bytes behind a stream
-/

/-- Reading depends only on the bytes it reads: more bytes behind an input change its result, or a
fault other than the end of the input, in nothing. What strict decoding accepts is accepted by no
decoding without its last bytes. -/
theorem run_read_append (options : Options) (bytes suffix : List UInt8) :
    (∀ stream cursor, (read options).run (.ofBytes bytes) = .ok stream cursor →
      (read options).run (.ofBytes (bytes ++ suffix)) =
        .ok stream ⟨cursor.offset, cursor.rest ++ suffix⟩) ∧
    (∀ fault cursor, (read options).run (.ofBytes bytes) = .error fault cursor →
      (∀ offset needed remaining, fault ≠ .unexpectedEnd offset needed remaining) →
      (read options).run (.ofBytes (bytes ++ suffix)) =
        .error fault ⟨cursor.offset, cursor.rest ++ suffix⟩) ∧
    ∀ stream, decode { options with strict := true } (bytes ++ suffix) = .ok stream →
      suffix ≠ [] → ∀ strict, ∃ offset needed remaining,
        decode { options with strict } bytes = .error (.unexpectedEnd offset needed remaining) := by
  have followed := read_followed (options.relaxes_suffix suffix)
  refine ⟨fun stream cursor run => followed.ok run, fun fault cursor run other => ?_,
    fun stream decoded proper strict => ?_⟩
  · rcases followed.error run with ⟨offset, needed, remaining, ended⟩ | same
    · exact absurd ended (other offset needed remaining)
    · exact same
  · obtain ⟨after, run, finished⟩ := run_read_of_decode_strict decoded strict
    exact decode_eq_unexpectedEnd_of_run_read run finished proper

theorem enclosed_read_before_more :
    (read {}).run (.ofBytes nestedBytes) = .ok (nested 12) ⟨66, []⟩ ∧
      (read {}).run (.ofBytes (nestedBytes ++ [9, 9])) = .ok (nested 12) ⟨66, [9, 9]⟩ ∧
      (read {}).run (.ofBytes (enclosed [0])) = .error (.invalidTag 28 0) ⟨29, []⟩ ∧
      (read {}).run (.ofBytes (enclosed [0] ++ [4])) = .error (.invalidTag 28 0) ⟨29, [4]⟩ ∧
      (∃ stream, decode { ({} : Options) with strict := true } (enclosed [] ++ [4]) = .ok stream) ∧
      ∃ offset needed remaining, decode { ({} : Options) with strict := false } (enclosed []) =
        .error (.unexpectedEnd offset needed remaining) := by
  have whole : (read {}).run (.ofBytes nestedBytes) = .ok (nested 12) ⟨66, []⟩ :=
    run_read_nestedBytes true []
  have refused : (read {}).run (.ofBytes (enclosed [0])) =
      .error (.invalidTag 28 0) ⟨29, []⟩ := rfl
  have decoded : ∃ stream, decode { ({} : Options) with strict := true } (enclosed [] ++ [4]) =
      .ok stream := ⟨_, rfl⟩
  obtain ⟨stream, accepted⟩ := decoded
  exact ⟨whole, (run_read_append {} nestedBytes [9, 9]).1 _ _ whole, refused,
    (run_read_append {} (enclosed [0]) [4]).2.1 _ _ refused (fun _ _ _ same => nomatch same),
    ⟨stream, accepted⟩,
    (run_read_append {} (enclosed []) [4]).2.2 stream accepted (List.cons_ne_nil 4 []) false⟩

end ObjectStream

end BytecodeObject
