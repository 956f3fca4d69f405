import BytecodeObject.Function.Body
import BytecodeObject.Proofs.Function.Records

/-!
# Function bodies, read and written

A body is followed field by field, with any reader and any output of its constants that fit each
other. The four lengths stand in another order than the lists they belong to, and the debug record
is there exactly when the flags that were read or written announce it.
-/

set_option autoImplicit false

namespace BytecodeObject

/-!
## Debug records that may be missing
-/

theorem DebugInfo.readIf_restores (strict : Bool) (order : ByteOrder) {table : AtomTable}
    (inline : table.dynamic.length ≤ AtomTable.maxDynamic) (debug? : Option DebugInfo) :
    (readIf debug?.isSome strict table).Restores order (emitIf table debug?) debug? := by
  cases debug? with
  | none => exact .pure order none
  | some debug => exact (read_restores strict order inline debug).map some

theorem DebugInfo.run_readIf_ok {announced strict : Bool} {table : AtomTable}
    {before after : Cursor} {debug? : Option DebugInfo}
    (run : (readIf announced strict table).run before = .ok debug? after) (order : ByteOrder) :
    debug?.isSome = announced ∧ (emitIf table debug?).Spans order strict before after := by
  cases announced with
  | false =>
      cases run
      exact ⟨rfl, .nothing order strict _⟩
  | true =>
      obtain ⟨debug, debugRun, rfl⟩ := Reader.run_map_ok run
      exact ⟨rfl, read_retraced strict order table debugRun⟩

/-!
## Frames
-/

namespace Frame

/-- A frame that was written is read back with normal kinds, and with the number of constants that
was written. -/
theorem read_restores (options : Options) {table : AtomTable}
    (inline : table.dynamic.length ≤ AtomTable.maxDynamic) (frame : Frame) (constantCount : Nat) :
    (Frame.read options table).Restores options.order (frame.emit table constantCount)
      (frame.normalized, constantCount) := by
  unfold Frame.emit
  split
  · rename_i announces
    have announced : frame.flags.hasDebug = frame.debug?.isSome := beq_iff_eq.mp announces
    have locals : (Reader.times frame.locals.length (VarDef.read options.strict table)).Restores
        options.order (.concat (frame.locals.map (VarDef.emit table)))
        (frame.locals.map VarDef.normalized) :=
      .times fun varDef _ => VarDef.read_restores options.strict options.order inline varDef
    have captures : (Reader.times frame.closureVars.length
        (ClosureVar.read options.strict table)).Restores options.order
        (.concat (frame.closureVars.map (ClosureVar.emit table)))
        (frame.closureVars.map ClosureVar.normalized) :=
      .times fun capture _ => ClosureVar.read_restores options.strict options.order inline capture
    simp only [Emission.append_assoc]
    refine ((Reader.word16_restores options.order frame.flags.bits).map FunctionFlags.mk).bind ?_
    refine (Reader.byte_restores options.order frame.mode).bind ?_
    refine (Atom.read_restores options.strict options.order inline frame.name).bind ?_
    refine (Varint.readUInt32_restores options.strict options.order frame.argCount).bind ?_
    refine (Varint.readUInt32_restores options.strict options.order frame.varCount).bind ?_
    refine (Varint.readUInt32_restores options.strict options.order frame.definedArgCount).bind ?_
    refine (Varint.readUInt32_restores options.strict options.order frame.stackSize).bind ?_
    refine Reader.Restores.bind_length fun closureVarCount closureVarsEq => ?_
    refine Reader.Restores.bind_length fun constants constantsEq => ?_
    refine Reader.Restores.bind_length fun codeLength codeEq => ?_
    refine Reader.Restores.bind_length fun localCount localsEq => ?_
    rw [localsEq, closureVarsEq, codeEq, constantsEq]
    refine locals.bind (captures.bind ?_)
    refine (Reader.take_restores options.order frame.code).bind ?_
    have debug := DebugInfo.readIf_restores options.strict options.order inline frame.debug?
    rw [← announced] at debug
    exact debug.bind_eq_pure rfl
  · exact .fail _ _ _ _

/-- A frame that was read has normal kinds and is covered by its output, with the number of
constants that was read. -/
theorem run_read_ok {options : Options} {table : AtomTable} {before after : Cursor}
    {frame : Frame} {constantCount : Nat}
    (run : (Frame.read options table).run before = .ok (frame, constantCount) after) :
    frame.normalized = frame ∧
      (frame.emit table constantCount).Spans options.order options.strict before after := by
  obtain ⟨flags, afterFlags, flagsRun, run⟩ := Reader.run_bind_ok run
  obtain ⟨mode, afterMode, modeRun, run⟩ := Reader.run_bind_ok run
  obtain ⟨name, afterName, nameRun, run⟩ := Reader.run_bind_ok run
  obtain ⟨argCount, afterArgs, argsRun, run⟩ := Reader.run_bind_ok run
  obtain ⟨varCount, afterVars, varsRun, run⟩ := Reader.run_bind_ok run
  obtain ⟨definedArgCount, afterDefined, definedRun, run⟩ := Reader.run_bind_ok run
  obtain ⟨stackSize, afterStack, stackRun, run⟩ := Reader.run_bind_ok run
  obtain ⟨closureVarCount, afterClosureVarCount, closureVarCountRun, run⟩ := Reader.run_bind_ok run
  obtain ⟨constants, afterConstants, constantsRun, run⟩ := Reader.run_bind_ok run
  obtain ⟨codeLength, afterCodeLength, codeLengthRun, run⟩ := Reader.run_bind_ok run
  obtain ⟨localCount, afterLocalCount, localCountRun, run⟩ := Reader.run_bind_ok run
  obtain ⟨locals, afterLocals, localsRun, run⟩ := Reader.run_bind_ok run
  obtain ⟨closureVars, afterClosureVars, closureVarsRun, run⟩ := Reader.run_bind_ok run
  obtain ⟨code, afterCode, codeRun, run⟩ := Reader.run_bind_ok run
  obtain ⟨debug?, last, debugRun, run⟩ := Reader.run_bind_ok run
  cases run
  obtain ⟨bits, bitsRun, rfl⟩ := Reader.run_map_ok flagsRun
  obtain ⟨announced, debug⟩ := DebugInfo.run_readIf_ok debugRun options.order
  have localsEq := Reader.length_of_run_times_ok localsRun
  have closureVarsEq := Reader.length_of_run_times_ok closureVarsRun
  have codeEq := (Reader.advances_of_run_take_ok codeRun).2
  have uint32 := Varint.readUInt32_retraced options.strict options.order
  constructor
  · rw [Frame.normalized, Reader.map_eq_of_run_times_ok VarDef.normalized_of_run_read_ok localsRun,
      Reader.map_eq_of_run_times_ok ClosureVar.normalized_of_run_read_ok closureVarsRun]
  · rw [Frame.emit, if_pos]
    · refine .append ?_ debug
      refine .append ?_ (Reader.take_retraced _ options.order options.strict codeRun)
      refine .append ?_ ((ClosureVar.read_retraced _ options.order table).times _ closureVarsRun)
      refine .append ?_ ((VarDef.read_retraced _ options.order table).times _ localsRun)
      refine .append ?_ (.length localCountRun "locals" localsEq)
      refine .append ?_ (.length codeLengthRun "bytecode" codeEq)
      refine .append ?_ (.length constantsRun "constant pool" rfl)
      refine .append ?_ (.length closureVarCountRun "closure vars" closureVarsEq)
      refine .append ?_ (uint32 stackRun)
      refine .append ?_ (uint32 definedRun)
      refine .append ?_ (uint32 varsRun)
      refine .append ?_ (uint32 argsRun)
      refine .append ?_ (Atom.read_retraced _ options.order table nameRun)
      refine .append ?_ (Reader.byte_retraced options.order options.strict modeRun)
      exact Reader.word16_retraced options.order options.strict bitsRun
    · exact beq_iff_eq.mpr announced.symm

end Frame

/-!
## Bodies
-/

namespace Function

variable {κ : Type} {options : Options} {table : AtomTable} {constant : Reader κ}
  {emit : κ → Emission}

/-- A body is read back with the constants that its constants are read back as. -/
theorem read_restores {view : κ → κ} (inline : table.dynamic.length ≤ AtomTable.maxDynamic)
    (function : Function κ) (each : ∀ value ∈ function.constants,
      constant.Restores options.order (emit value) (view value)) :
    (Function.read options table constant).Restores options.order (function.emit table emit)
      { function.toFrame.normalized with constants := function.constants.map view } := by
  obtain ⟨frame, constants⟩ := function
  refine (Frame.read_restores options inline frame constants.length).bind ?_
  exact (Reader.Restores.times each).bind_pure _

/-- A body that was read is what it is read back as, and is covered by its output, where both hold
of its constants. -/
theorem run_read_ok {view : κ → κ} {before after : Cursor} {function : Function κ}
    (each : ∀ {before result after}, constant.run before = .ok result after →
      view result = result ∧ (emit result).Spans options.order options.strict before after)
    (run : (Function.read options table constant).run before = .ok function after) :
    { function.toFrame.normalized with constants := function.constants.map view } = function ∧
      (function.emit table emit).Spans options.order options.strict before after := by
  obtain ⟨⟨frame, constantCount⟩, middle, frameRun, run⟩ := Reader.run_bind_ok run
  obtain ⟨constants, last, constantsRun, run⟩ := Reader.run_bind_ok run
  cases run
  obtain ⟨normal, spans⟩ := Frame.run_read_ok frameRun
  have retraced : constant.Retraced emit options.order options.strict :=
    fun _ _ _ resultRun => (each resultRun).2
  constructor
  · dsimp only
    rw [normal, Reader.map_eq_of_run_times_ok (fun resultRun => (each resultRun).1) constantsRun]
  · rw [Function.emit, Reader.length_of_run_times_ok constantsRun]
    exact spans.append (retraced.times _ constantsRun)

end Function

end BytecodeObject
