import BytecodeObject.Proofs.RoundTrip

/-!
# Limits as filters

The depth limit and the permission of functions decide which streams are read and written, and nothing
else. A run under the narrower options is compared with one under the wider: it has the same outcome
where the narrower options admit what the wider run yields, and is refused for them where they do not.
-/

set_option autoImplicit false

namespace BytecodeObject

/-!
## The depth of a value
-/

namespace Value

mutual

/-- How many functions of a value enclose one another, at most. -/
def depth : Value → Nat
  | .function ⟨_, constants⟩ => depthAll constants + 1
  | _ => 0
termination_by structural value => value

def depthAll : List Value → Nat
  | [] => 0
  | value :: rest => max (depth value) (depthAll rest)
termination_by structural values => values

end

private theorem depthAll_le_iff {values : List Value} {limit : Nat} :
    depthAll values ≤ limit ↔ ∀ value ∈ values, value.depth ≤ limit := by
  induction values with
  | nil => simp [depthAll]
  | cons value rest restIH => rw [depthAll, Nat.max_le, restIH, List.forall_mem_cons]

private theorem depth_function_le_succ_iff {body : Function Value} {limit : Nat} :
    (Value.function body).depth ≤ limit + 1 ↔
      ∀ constant ∈ body.constants, constant.depth ≤ limit := by
  rw [depth, Nat.add_le_add_iff_right, depthAll_le_iff]

private theorem not_depth_function_le_zero (body : Function Value) :
    ¬(Value.function body).depth ≤ 0 := by
  simp [depth]

private theorem depth_of_plain {value : Value} (plain : value.function? = none) : value.depth = 0 := by
  cases value with
  | function body => cases plain
  | _ => rfl

end Value

/-!
## Filtered outcomes
-/

/-- The narrow outcome is the wide one where that is admitted or no result. A result that is not
admitted is refused. -/
structure Filtered {α : Type} (narrow wide : Except Fault α) (admits : α → Prop)
    (refusal : Fault) : Prop where
  ok_iff : ∀ result, narrow = .ok result ↔ wide = .ok result ∧ admits result
  refused : ∀ result, wide = .ok result → ¬admits result → narrow = .error refusal

/-!
## Filtered readers
-/

namespace Reader

variable {α β : Type} {refusal : Fault}

/-- The narrow reader reads what the wide one reads and is admitted, to the same place. Where the
wide reader yields something else the narrow one ends in the refusal, and where it ends in a fault
the narrow one ends in some fault too. -/
structure Filters (narrow wide : Reader α) (admits : α → Prop) (refusal : Fault) : Prop where
  admitted : ∀ ⦃before after result⦄, wide.run before = .ok result after → admits result →
    narrow.run before = .ok result after
  refused : ∀ ⦃before after result⦄, wide.run before = .ok result after → ¬admits result →
    ∃ stopped, narrow.run before = .error refusal stopped
  failed : ∀ ⦃before after fault⦄, wide.run before = .error fault after →
    ∃ earlier stopped, narrow.run before = .error earlier stopped

namespace Filters

theorem of_admitted (reader : Reader α) {admits : α → Prop}
    (all : ∀ result, admits result) : reader.Filters reader admits refusal where
  admitted := fun _ _ _ run _ => run
  refused := fun _ _ result _ excluded => absurd (all result) excluded
  failed := fun _ after fault run => ⟨fault, after, run⟩

theorem fail (fault : Fault) {admits : α → Prop} :
    (Reader.fail fault : Reader α).Filters (Reader.fail fault) admits refusal where
  admitted := by
    intro before after result run
    cases run
  refused := by
    intro before after result run
    cases run
  failed := fun _ after fault run => ⟨fault, after, run⟩

theorem of_refused {wide : Reader α} {admits : α → Prop}
    (outside : ∀ ⦃before after result⦄, wide.run before = .ok result after → ¬admits result) :
    (Reader.fail refusal).Filters wide admits refusal where
  admitted := fun _ _ _ run given => absurd given (outside run)
  refused := fun before _ _ _ _ => ⟨before, rfl⟩
  failed := fun before _ _ _ => ⟨refusal, before, rfl⟩

/-- No result may be admitted behind a first part that is not. -/
theorem bind {first first' : Reader α} {next next' : α → Reader β} {admits : α → Prop}
    {admitsAll : β → Prop} (start : first.Filters first' admits refusal)
    (continued : ∀ value, admits value → (next value).Filters (next' value) admitsAll refusal)
    (excluded : ∀ ⦃value⦄, ¬admits value → ∀ ⦃before after result⦄,
      (next' value).run before = .ok result after → ¬admitsAll result) :
    (first >>= next).Filters (first' >>= next') admitsAll refusal where
  admitted := by
    intro before after result run given
    obtain ⟨value, middle, ran, run⟩ := run_bind_ok run
    have admitted : admits value :=
      Classical.byContradiction fun outside => excluded outside run given
    rw [run_bind_of_ok (start.admitted ran admitted)]
    exact (continued value admitted).admitted run given
  refused := by
    intro before after result run outside
    obtain ⟨value, middle, ran, run⟩ := run_bind_ok run
    by_cases admitted : admits value
    · rw [run_bind_of_ok (start.admitted ran admitted)]
      exact (continued value admitted).refused run outside
    · obtain ⟨stopped, failed⟩ := start.refused ran admitted
      exact ⟨stopped, run_bind_of_error failed⟩
  failed := by
    intro before after fault run
    rcases run_bind_error run with failed | ⟨value, middle, ran, failed⟩
    · obtain ⟨earlier, stopped, failed⟩ := start.failed failed
      exact ⟨earlier, stopped, run_bind_of_error failed⟩
    · by_cases admitted : admits value
      · rw [run_bind_of_ok (start.admitted ran admitted)]
        exact (continued value admitted).failed failed
      · obtain ⟨stopped, failed⟩ := start.refused ran admitted
        exact ⟨refusal, stopped, run_bind_of_error failed⟩

theorem bind_same {first : Reader α} {next next' : α → Reader β} {admits : β → Prop}
    (continued : ∀ value, (next value).Filters (next' value) admits refusal) :
    (first >>= next).Filters (first >>= next') admits refusal :=
  (of_admitted first fun _ => trivial).bind (fun value _ => continued value)
    fun _ outside => absurd trivial outside

theorem pure {result : α} {admits : α → Prop} (given : admits result) :
    (Pure.pure result : Reader α).Filters (Pure.pure result) admits refusal where
  admitted := fun _ _ _ run _ => run
  refused := by
    intro before after value run outside
    cases run
    exact absurd given outside
  failed := by
    intro before after fault run
    cases run

theorem bind_pure {narrow wide : Reader α} (view : α → β) {admits : β → Prop}
    (filtered : narrow.Filters wide (fun value => admits (view value)) refusal) :
    (narrow >>= fun value => Pure.pure (view value)).Filters
      (wide >>= fun value => Pure.pure (view value)) admits refusal := by
  refine filtered.bind (fun value given => .pure given) ?_
  intro value outside before after result run
  cases run
  exact outside

theorem map {narrow wide : Reader α} (view : α → β) {admits : β → Prop}
    (filtered : narrow.Filters wide (fun value => admits (view value)) refusal) :
    (view <$> narrow).Filters (view <$> wide) admits refusal := by
  rw [map_eq_pure_bind, map_eq_pure_bind]
  exact filtered.bind_pure view

/-- A list is admitted where every element is. -/
theorem times {narrow wide : Reader α} {admits : α → Prop}
    (each : narrow.Filters wide admits refusal) (count : Nat) :
    (Reader.times count narrow).Filters (Reader.times count wide)
      (fun results => ∀ result ∈ results, admits result) refusal := by
  induction count with
  | zero => exact .pure (List.forall_mem_nil admits)
  | succ count countIH =>
      rw [times_succ, times_succ]
      refine each.bind (fun first given => ?_) ?_
      · apply bind_pure (first :: ·)
        simpa only [List.forall_mem_cons, given, true_and] using countIH
      · intro first outside before after results run all
        obtain ⟨later, last, _, run⟩ := run_bind_ok run
        cases run
        exact outside (all first List.mem_cons_self)

theorem of_run_ok {narrow wide : Reader α} {admits : α → Prop}
    (filtered : narrow.Filters wide admits refusal) {before after : Cursor} {result : α}
    (run : narrow.run before = .ok result after) :
    wide.run before = .ok result after ∧ admits result := by
  cases ran : wide.run before with
  | error fault stopped =>
      obtain ⟨earlier, last, failed⟩ := filtered.failed ran
      rw [failed] at run
      cases run
  | ok other last =>
      by_cases given : admits other
      · rw [filtered.admitted ran given] at run
        cases run
        exact ⟨rfl, given⟩
      · obtain ⟨stopped, failed⟩ := filtered.refused ran given
        rw [failed] at run
        cases run

end Filters

end Reader

/-!
## Filtered emissions
-/

namespace Emission

/-- The narrow emission is the wide one where that is admitted. Elsewhere it ends in a fault, and in
the refusal unless the wide one ends in a fault too. -/
structure Filters (narrow wide : Emission) (admits : Prop) (refusal : Fault) : Prop where
  admitted : admits → narrow = wide
  refused : ¬admits → ∃ fault, narrow.fault? = some fault ∧ (wide.fault? = none → fault = refusal)

namespace Filters

variable {refusal : Fault}

theorem of_admitted (emission : Emission) {admits : Prop} (given : admits) :
    emission.Filters emission admits refusal :=
  ⟨fun _ => rfl, fun outside => absurd given outside⟩

theorem of_refused (wide : Emission) {admits : Prop} (outside : ¬admits) :
    (Emission.fail refusal).Filters wide admits refusal :=
  ⟨fun given => absurd given outside, fun _ => ⟨refusal, rfl, fun _ => rfl⟩⟩

theorem append {left left' right right' : Emission} {first second : Prop}
    (start : left.Filters left' first refusal) (onward : right.Filters right' second refusal) :
    (left ++ right).Filters (left' ++ right') (first ∧ second) refusal where
  admitted := fun ⟨given, later⟩ => by rw [start.admitted given, onward.admitted later]
  refused := by
    intro outside
    simp only [fault?_append, Option.or_eq_none_iff]
    by_cases given : first
    · obtain ⟨fault, failed, named⟩ := onward.refused fun later => outside ⟨given, later⟩
      rw [start.admitted given, failed]
      cases ended : left'.fault? with
      | none => exact ⟨fault, rfl, fun complete => named complete.2⟩
      | some earlier => exact ⟨earlier, rfl, fun complete => nomatch complete.1⟩
    · obtain ⟨fault, failed, named⟩ := start.refused given
      rw [failed]
      exact ⟨fault, rfl, fun complete => named complete.1⟩

theorem behind {right right' : Emission} {admits : Prop} (left : Emission)
    (filtered : right.Filters right' admits refusal) :
    (left ++ right).Filters (left ++ right') admits refusal := by
  simpa only [true_and] using (of_admitted left trivial).append filtered

theorem concat {κ : Type} {emit emit' : κ → Emission} {admits : κ → Prop} (values : List κ)
    (each : ∀ value, (emit value).Filters (emit' value) (admits value) refusal) :
    (Emission.concat (values.map emit)).Filters (Emission.concat (values.map emit'))
      (∀ value ∈ values, admits value) refusal := by
  induction values with
  | nil => exact of_admitted nothing (List.forall_mem_nil admits)
  | cons value values valuesIH =>
      simp only [List.map_cons, concat_cons, List.forall_mem_cons]
      exact (each value).append valuesIH

theorem result_filtered {narrow wide : Emission} {admits : Prop}
    (filtered : narrow.Filters wide admits refusal) (order : ByteOrder) :
    Filtered (narrow.result order) (wide.result order) (fun _ => admits) refusal where
  ok_iff := by
    intro output
    by_cases given : admits
    · rw [filtered.admitted given, and_iff_left given]
    · obtain ⟨fault, failed, _⟩ := filtered.refused given
      simp [result_eq_ok_iff, failed, given]
  refused := by
    intro output produced outside
    obtain ⟨fault, failed, named⟩ := filtered.refused outside
    rw [result, failed, named (result_eq_ok_iff.mp produced).1]

end Filters

end Emission

/-!
## Reading within limits
-/

theorem Function.read_filters {κ : Type} {narrow wide : Options} {table : AtomTable}
    {constant constant' : Reader κ} {admits : κ → Prop} {refusal : Fault}
    (frames : Frame.read narrow table = Frame.read wide table)
    (each : constant.Filters constant' admits refusal) :
    (Function.read narrow table constant).Filters (Function.read wide table constant')
      (fun body => ∀ value ∈ body.constants, admits value) refusal := by
  rw [Function.read, Function.read, frames]
  exact .bind_same fun _ => (each.times _).bind_pure _

namespace Value

theorem readTagged_filters {narrow wide : Options} {body body' : Reader (Function Value)}
    {admits : Value → Prop} {refusal : Fault} (strict : narrow.strict = wide.strict)
    (order : narrow.order = wide.order) (plain : ∀ value, value.function? = none → admits value)
    (functions : Reader.Filters
      (if narrow.allowBytecode then Value.function <$> body else Reader.fail .bytecodeNotAllowed)
      (if wide.allowBytecode then Value.function <$> body' else Reader.fail .bytecodeNotAllowed)
      admits refusal) :
    (readTagged narrow body).Filters (readTagged wide body') admits refusal := by
  refine .bind_same fun offset => .bind_same fun byte => ?_
  cases Tag.ofByte? byte with
  | none => exact .fail _
  | some tag =>
      cases tag with
      | null => exact .pure (plain _ rfl)
      | undefined => exact .pure (plain _ rfl)
      | boolFalse => exact .pure (plain _ rfl)
      | boolTrue => exact .pure (plain _ rfl)
      | int32 =>
          dsimp only
          rw [strict]
          exact .map _ (.of_admitted _ fun _ => plain _ rfl)
      | float64 =>
          dsimp only
          rw [order]
          exact .map _ (.of_admitted _ fun _ => plain _ rfl)
      | string =>
          dsimp only
          rw [strict]
          exact .map _ (.of_admitted _ fun _ => plain _ rfl)
      | functionBytecode => exact functions
      | _ => exact .fail _

/-- Under a smaller limit the same values are read, as far as their functions fit it. -/
theorem read_filters_depth (options : Options) (table : AtomTable) (limit wider : Nat)
    {budget budget' : Nat} (narrower : budget ≤ budget') :
    (read { options with allowBytecode := true, maxDepth := limit } table budget).Filters
      (read { options with allowBytecode := true, maxDepth := wider } table budget')
      (fun value => value.depth ≤ budget) (.depthLimitExceeded limit) := by
  -- Induction on the narrower budget. Used up, it admits plain values alone; before that, a function
  -- is admitted where the rest of the budget admits each of its constants.
  induction budget generalizing budget' with
  | zero =>
      have functions : ∀ wide : Reader (Function Value),
          (Value.function <$> Reader.fail (.depthLimitExceeded limit)).Filters
            (Value.function <$> wide) (fun value => value.depth ≤ 0) (.depthLimitExceeded limit) :=
        fun wide => .map _ (.of_refused fun _ _ body _ => not_depth_function_le_zero body)
      cases budget' <;>
        exact readTagged_filters rfl rfl (fun _ plain => Nat.le_of_eq (depth_of_plain plain))
          (functions _)
  | succ budget budgetIH =>
      cases budget' with
      | zero => exact absurd narrower (Nat.not_succ_le_zero budget)
      | succ budget' =>
          apply readTagged_filters rfl rfl
          · intro value plain
            rw [depth_of_plain plain]
            exact Nat.zero_le _
          · apply Reader.Filters.map
            simp only [depth_function_le_succ_iff]
            exact Function.read_filters rfl (budgetIH (Nat.le_of_succ_le_succ narrower))

theorem read_filters_functions (options : Options) (table : AtomTable) (budget : Nat) :
    (read { options with allowBytecode := false } table budget).Filters
      (read { options with allowBytecode := true } table budget)
      (fun value => value.function? = none) .bytecodeNotAllowed := by
  have functions : ∀ wide : Reader (Function Value),
      (Reader.fail .bytecodeNotAllowed).Filters (Value.function <$> wide)
        (fun value => value.function? = none) .bytecodeNotAllowed := by
    refine fun wide => .of_refused ?_
    intro before after result run plain
    obtain ⟨body, _, rfl⟩ := Reader.run_map_ok run
    cases plain
  cases budget <;> exact readTagged_filters rfl rfl (fun _ plain => plain) (functions _)

end Value

/-!
## Writing within limits
-/

namespace Value

private theorem emit_filters_plain {narrow wide : Options} {table : AtomTable} {budget budget' : Nat}
    {value : Value} {admits : Prop} {refusal : Fault} (plain : value.function? = none)
    (given : admits) :
    (emit narrow table budget value).Filters (emit wide table budget' value) admits refusal := by
  have same : emit narrow table budget value = emit wide table budget' value := by
    cases value with
    | bool value => cases value <;> rfl
    | function body => cases plain
    | _ => rfl
  rw [same]
  exact .of_admitted _ given

theorem emit_filters_depth (options : Options) (table : AtomTable) (limit wider : Nat)
    {budget budget' : Nat} (narrower : budget ≤ budget') (value : Value) :
    (emit { options with allowBytecode := true, maxDepth := limit } table budget value).Filters
      (emit { options with allowBytecode := true, maxDepth := wider } table budget' value)
      (value.depth ≤ budget) (.depthLimitExceeded limit) := by
  induction budget generalizing budget' value with
  | zero =>
      cases value with
      | function body =>
          rw [emit, if_pos rfl]
          exact .of_refused _ (not_depth_function_le_zero body)
      | _ => exact emit_filters_plain rfl (Nat.zero_le _)
  | succ budget budgetIH =>
      cases value with
      | function body =>
          cases budget' with
          | zero => exact absurd narrower (Nat.not_succ_le_zero budget)
          | succ budget' =>
              rw [emit_function _ _ _ _ rfl, emit_function _ _ _ _ rfl,
                depth_function_le_succ_iff]
              exact .behind _ (.behind _ (.concat body.constants fun constant =>
                budgetIH (Nat.le_of_succ_le_succ narrower) constant))
      | _ => exact emit_filters_plain rfl (Nat.zero_le _)

theorem emit_filters_functions (options : Options) (table : AtomTable) (budget : Nat)
    (value : Value) :
    (emit { options with allowBytecode := false } table budget value).Filters
      (emit { options with allowBytecode := true } table budget value)
      (value.function? = none) .bytecodeNotAllowed := by
  cases value with
  | function body =>
      obtain ⟨frame, constants⟩ := body
      cases budget <;>
        · rw [emit, if_neg Bool.false_ne_true]
          exact .of_refused _ (Option.some_ne_none _)
  | _ => exact emit_filters_plain rfl rfl

end Value

/-!
## Streams within limits
-/

namespace ObjectStream

theorem read_filters {narrow wide : Options} {admits : Value → Prop} {refusal : Fault}
    (values : ∀ table, (Value.read narrow table narrow.maxDepth).Filters
      (Value.read wide table wide.maxDepth) admits refusal)
    (strict : narrow.strict = wide.strict) :
    (read narrow).Filters (read wide) (fun stream => admits stream.value) refusal := by
  rw [read, read, strict]
  exact .bind_same fun table => (values table).bind_pure (ObjectStream.mk table)

/-- What filters the reading of streams filters the decoding of inputs. -/
theorem decode_filtered {narrow wide : Options} {admits : ObjectStream → Prop} {refusal : Fault}
    (filtered : (read narrow).Filters (read wide) admits refusal)
    (strict : narrow.strict = wide.strict) (bytes : List UInt8) :
    Filtered (decode narrow bytes) (decode wide bytes) admits refusal where
  ok_iff := by
    intro stream
    simp only [decode_eq_ok_iff, strict]
    constructor
    · rintro ⟨after, run, finished⟩
      obtain ⟨ran, given⟩ := filtered.of_run_ok run
      exact ⟨⟨after, ran, finished⟩, given⟩
    · rintro ⟨⟨after, run, finished⟩, given⟩
      exact ⟨after, filtered.admitted run given, finished⟩
  refused := by
    intro stream decoded outside
    obtain ⟨after, run, _⟩ := decode_eq_ok_iff.mp decoded
    obtain ⟨stopped, failed⟩ := filtered.refused run outside
    rw [decode, failed]

theorem encode_filtered {narrow wide : Options} {stream : ObjectStream} {admits : Prop}
    {refusal : Fault}
    (filtered : (stream.value.emit narrow stream.atoms narrow.maxDepth).Filters
      (stream.value.emit wide stream.atoms wide.maxDepth) admits refusal)
    (order : narrow.order = wide.order) :
    Filtered (stream.encode narrow) (stream.encode wide) (fun _ => admits) refusal := by
  rw [encode, encode, order]
  exact (filtered.behind stream.atoms.emit).result_filtered wide.order

/-- A depth limit admits the streams whose value is no deeper, whatever wider limit they are read or
written with, and a refusal of functions admits those whose value is no function. Streams that are not
admitted are refused for that and for nothing else. -/
theorem filtered_by_limits (options : Options) {limit wider : Nat} (narrower : limit ≤ wider)
    (bytes : List UInt8) (stream : ObjectStream) :
    Filtered (decode { options with allowBytecode := true, maxDepth := limit } bytes)
        (decode { options with allowBytecode := true, maxDepth := wider } bytes)
        (fun decoded => decoded.value.depth ≤ limit) (.depthLimitExceeded limit) ∧
      Filtered (stream.encode { options with allowBytecode := true, maxDepth := limit })
        (stream.encode { options with allowBytecode := true, maxDepth := wider })
        (fun _ => stream.value.depth ≤ limit) (.depthLimitExceeded limit) ∧
      Filtered (decode { options with allowBytecode := false } bytes)
        (decode { options with allowBytecode := true } bytes)
        (fun decoded => decoded.value.function? = none) .bytecodeNotAllowed ∧
      Filtered (stream.encode { options with allowBytecode := false })
        (stream.encode { options with allowBytecode := true })
        (fun _ => stream.value.function? = none) .bytecodeNotAllowed := by
  have depths := read_filters (fun table =>
    Value.read_filters_depth options table limit wider narrower) rfl
  have functions := read_filters (fun table =>
    Value.read_filters_functions options table options.maxDepth) rfl
  refine ⟨decode_filtered depths rfl bytes, ?_, decode_filtered functions rfl bytes, ?_⟩
  · exact encode_filtered
      (Value.emit_filters_depth options stream.atoms limit wider narrower stream.value) rfl
  · exact encode_filtered
      (Value.emit_filters_functions options stream.atoms options.maxDepth stream.value) rfl

/-- A function inside a function passes a limit of two, and neither a limit of one nor a refusal of
functions. -/
theorem nestedBytes_filtered :
    1 ≤ 2 ∧ decode { ({} : Options) with maxDepth := 2 } nestedBytes = .ok (nested 12) ∧
      decode { ({} : Options) with maxDepth := 1 } nestedBytes =
        .error (.depthLimitExceeded 1) ∧
      (nested 12).encode { ({} : Options) with maxDepth := 1 } =
        .error (.depthLimitExceeded 1) ∧
      decode { ({} : Options) with allowBytecode := false } nestedBytes =
        .error .bytecodeNotAllowed ∧
      (nested 12).encode { ({} : Options) with allowBytecode := false } =
        .error .bytecodeNotAllowed := by
  have encoded : (nested 12).encode { ({} : Options) with maxDepth := 2 } = .ok nestedBytes := rfl
  have inline : (nested 12).atoms.dynamic.length ≤ AtomTable.maxDynamic := by decide
  have decoded : decode { ({} : Options) with maxDepth := 2 } nestedBytes = .ok (nested 12) :=
    decode_of_encode_ok inline encoded
  have deep : ¬(nested 12).value.depth ≤ 1 := by decide
  have function : ¬(nested 12).value.function? = none := Option.some_ne_none _
  obtain ⟨readDepth, writtenDepth, read, written⟩ :=
    filtered_by_limits {} (Nat.le_succ 1) nestedBytes (nested 12)
  -- A limit of two admits the value, so what passes it passes the limit of the default options.
  obtain ⟨readWider, writtenWider, _⟩ :=
    filtered_by_limits {} (show 2 ≤ 256 by decide) nestedBytes (nested 12)
  obtain ⟨decodedWider, _⟩ := (readWider.ok_iff _).mp decoded
  obtain ⟨encodedWider, _⟩ := (writtenWider.ok_iff _).mp encoded
  exact ⟨Nat.le_succ 1, decoded, readDepth.refused _ decoded deep,
    writtenDepth.refused _ encoded deep, read.refused _ decodedWider function,
    written.refused _ encodedWider function⟩

end ObjectStream

end BytecodeObject
