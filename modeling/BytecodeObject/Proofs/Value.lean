import BytecodeObject.Proofs.Function.Body

/-!
# Values, read and written

A value is read back as its normal form wherever its functions fit the depth and the options, and a
value that was read is normal and covered by its output. Both go down the budget of functions that
may still enclose one another, which reading and writing use up alike.
-/

set_option autoImplicit false

namespace BytecodeObject

theorem Reader.Restores.bind_position {β : Type} {order : ByteOrder} {next : Nat → Reader β}
    {emission : Emission} {result : β}
    (continued : ∀ offset, (next offset).Restores order emission result) :
    (Reader.position >>= next).Restores order emission result := by
  intro complete offset rest
  rw [Reader.run_bind_of_ok (Reader.run_position _)]
  exact continued offset complete offset rest

namespace Value

variable {options : Options} {table : AtomTable} {body : Reader (Function Value)}

/-!
## Tags
-/

/-- What follows the tag of a value was read as what the value holds. -/
def PayloadRead (options : Options) (body : Reader (Function Value)) (middle after : Cursor) :
    Value → Prop
  | .null | .undefined | .bool _ => after = middle
  | .int32 number => (Varint.readInt32 options.strict).run middle = .ok number after
  | .float64 double => (Reader.double options.order).run middle = .ok double after
  | .string text => (Text.read options.strict).run middle = .ok text after
  | .function compiled => options.allowBytecode = true ∧ body.run middle = .ok compiled after

/-- A value that was read stands behind its own tag. -/
theorem run_readTagged_ok {before after : Cursor} {value : Value}
    (run : (readTagged options body).run before = .ok value after) :
    ∃ middle, before.Advances [value.tag.toByte] middle ∧
      value.PayloadRead options body middle after := by
  obtain ⟨offset, start, positionRun, run⟩ := Reader.run_bind_ok run
  cases positionRun
  obtain ⟨byte, middle, byteRun, run⟩ := Reader.run_bind_ok run
  have moved := Reader.advances_of_run_byte_ok byteRun
  refine ⟨middle, ?_⟩
  cases found : Tag.ofByte? byte with
  | none =>
      rw [found] at run
      cases run
  | some tag =>
      rw [found] at run
      rw [← Tag.toByte_of_ofByte? found] at moved
      cases tag with
      | null =>
          cases run
          exact ⟨moved, rfl⟩
      | undefined =>
          cases run
          exact ⟨moved, rfl⟩
      | boolFalse =>
          cases run
          exact ⟨moved, rfl⟩
      | boolTrue =>
          cases run
          exact ⟨moved, rfl⟩
      | int32 =>
          obtain ⟨number, numberRun, rfl⟩ := Reader.run_map_ok run
          exact ⟨moved, numberRun⟩
      | float64 =>
          obtain ⟨double, doubleRun, rfl⟩ := Reader.run_map_ok run
          exact ⟨moved, doubleRun⟩
      | string =>
          obtain ⟨text, textRun, rfl⟩ := Reader.run_map_ok run
          exact ⟨moved, textRun⟩
      | functionBytecode =>
          dsimp only at run
          split at run
          · rename_i allowed
            obtain ⟨compiled, functionRun, rfl⟩ := Reader.run_map_ok run
            exact ⟨moved, allowed, functionRun⟩
          · cases run
      | _ => cases run

/-!
## Reading what was written
-/

private theorem readTagged_restores_plain (budget : Nat) {value : Value} (plain : value.function? = none) :
    (readTagged options body).Restores options.order (emit options table budget value) value := by
  refine .bind_position fun offset => ?_
  cases value with
  | null => exact (Reader.byte_restores options.order Tag.null.toByte).bind_eq_pure rfl
  | undefined => exact (Reader.byte_restores options.order Tag.undefined.toByte).bind_eq_pure rfl
  | bool value =>
      cases value with
      | false => exact (Reader.byte_restores options.order Tag.boolFalse.toByte).bind_eq_pure rfl
      | true => exact (Reader.byte_restores options.order Tag.boolTrue.toByte).bind_eq_pure rfl
  | int32 number =>
      refine (Reader.byte_restores options.order Tag.int32.toByte).bind ?_
      exact (Varint.readInt32_restores options.strict options.order number).map Value.int32
  | float64 double =>
      refine (Reader.byte_restores options.order Tag.float64.toByte).bind ?_
      exact (Reader.double_restores options.order double).map Value.float64
  | string text =>
      refine (Reader.byte_restores options.order Tag.string.toByte).bind ?_
      exact (Text.read_restores options.strict options.order text).map Value.string
  | function compiled => cases plain

private theorem readTagged_restores_function (allowed : options.allowBytecode = true) {emission : Emission}
    {compiled : Function Value} (restored : body.Restores options.order emission compiled) :
    (readTagged options body).Restores options.order
      (.byte Tag.functionBytecode.toByte ++ emission) (.function compiled) := by
  refine .bind_position fun offset => ?_
  refine (Reader.byte_restores options.order Tag.functionBytecode.toByte).bind ?_
  change (if options.allowBytecode = true then Value.function <$> body
    else Reader.fail .bytecodeNotAllowed).Restores options.order emission (.function compiled)
  rw [if_pos allowed]
  exact restored.map Value.function

/-- A value is read back in its normal form with the budget it was written with. -/
theorem read_restores (options : Options) {table : AtomTable}
    (inline : table.dynamic.length ≤ AtomTable.maxDynamic) (budget : Nat) (value : Value) :
    (read options table budget).Restores options.order (emit options table budget value)
      value.normalized := by
  induction budget generalizing value with
  | zero =>
      cases value with
      | function compiled =>
          obtain ⟨frame, constants⟩ := compiled
          rw [emit]
          split <;> exact .fail _ _ _ _
      | _ => exact readTagged_restores_plain 0 rfl
  | succ budget budgetIH =>
      cases value with
      | function compiled =>
          by_cases allowed : options.allowBytecode = true
          · rw [emit_function options table budget compiled allowed, normalized_function]
            apply readTagged_restores_function allowed
            exact Function.read_restores inline compiled fun value _ => budgetIH value
          · obtain ⟨frame, constants⟩ := compiled
            rw [emit, if_neg allowed]
            exact .fail _ _ _ _
      | _ => exact readTagged_restores_plain (budget + 1) rfl

/-!
## Writing what was read
-/

/-- Output depends on the options only through whether functions are permitted and how deep. -/
theorem emit_congr {left right : Options} (functions : left.allowBytecode = right.allowBytecode)
    (depth : left.maxDepth = right.maxDepth) (table : AtomTable) (budget : Nat) (value : Value) :
    emit left table budget value = emit right table budget value := by
  induction budget generalizing value with
  | zero =>
      cases value with
      | function compiled =>
          obtain ⟨frame, constants⟩ := compiled
          rw [emit, emit, functions, depth]
      | bool value => cases value <;> rfl
      | _ => rfl
  | succ budget budgetIH =>
      cases value with
      | function compiled =>
          obtain ⟨frame, constants⟩ := compiled
          have same : constants.map (emit left table budget) =
              constants.map (emit right table budget) :=
            List.map_congr_left fun value _ => budgetIH value
          simp only [emit, emitAll_eq_concat, same, functions]
      | bool value => cases value <;> rfl
      | _ => rfl

theorem emit_function_of_complete {budget : Nat} {body : Function Value}
    (complete : (emit options table budget (.function body)).fault? = none) :
    options.allowBytecode = true ∧ ∃ smaller, budget = smaller + 1 := by
  obtain ⟨frame, constants⟩ := body
  cases budget with
  | zero =>
      rw [emit] at complete
      split at complete <;> cases complete
  | succ budget =>
      rw [emit] at complete
      split at complete
      · rename_i allowed
        exact ⟨allowed, budget, rfl⟩
      · cases complete

private theorem spans_of_run_readTagged_plain {before after : Cursor} {value : Value} (budget : Nat)
    (run : (readTagged options body).run before = .ok value after)
    (plain : value.function? = none) :
    (emit options table budget value).Spans options.order options.strict before after := by
  obtain ⟨middle, moved, payload⟩ := run_readTagged_ok run
  have tag : (Emission.byte value.tag.toByte).Spans options.order options.strict before middle :=
    .of_advances moved rfl (Emission.render_bytes _ options.order)
  cases value with
  | null => exact payload ▸ tag
  | undefined => exact payload ▸ tag
  | bool value => cases value <;> exact payload ▸ tag
  | int32 number => exact tag.append (Varint.readInt32_retraced _ options.order payload)
  | float64 double => exact tag.append (Reader.double_retraced options.order _ payload)
  | string text => exact tag.append (Text.read_retraced _ options.order payload)
  | function compiled => cases plain

theorem run_read_ok {budget : Nat} {before after : Cursor} {value : Value}
    (run : (read options table budget).run before = .ok value after) :
    value.normalized = value ∧
      (emit options table budget value).Spans options.order options.strict before after := by
  induction budget generalizing before after value with
  | zero =>
      cases value with
      | function compiled =>
          obtain ⟨middle, _, _, bodyRun⟩ := run_readTagged_ok run
          cases bodyRun
      | _ => exact ⟨rfl, spans_of_run_readTagged_plain 0 run rfl⟩
  | succ budget budgetIH =>
      cases value with
      | function compiled =>
          obtain ⟨middle, moved, allowed, bodyRun⟩ := run_readTagged_ok run
          have tag : (Emission.byte Tag.functionBytecode.toByte).Spans options.order
              options.strict before middle :=
            .of_advances moved rfl (Emission.render_bytes _ options.order)
          obtain ⟨normal, spans⟩ := Function.run_read_ok budgetIH bodyRun
          rw [normalized_function, normal, emit_function options table budget compiled allowed]
          exact ⟨rfl, tag.append spans⟩
      | _ => exact ⟨rfl, spans_of_run_readTagged_plain (budget + 1) run rfl⟩

end Value

end BytecodeObject
