import BytecodeObject.Proofs.Atom
import BytecodeObject.Proofs.Normalization

/-!
# Records of a function, read and written

Local variables, captured variables and debug records are read back from their output with normal
kinds, and are covered by their output when they were read. Of a flag byte every bit is accounted
for, except the one that strict reading refuses.
-/

set_option autoImplicit false

namespace BytecodeObject

/-!
## Flag bytes
-/

private theorem testBit_eq_of_div_mod {number index : Nat} {bit : Bool}
    (digit : number / 2 ^ index % 2 = bit.toNat) : number.testBit index = bit := by
  rw [Nat.testBit_eq_decide_div_mod_eq, digit]
  cases bit <;> rfl

namespace VarKind

private theorem ofCode_add_mul (kind : VarKind) (high : Nat) :
    ofCode (kind.code + 16 * high) = kind.normalized := by
  unfold normalized ofCode
  rw [Nat.add_mul_mod_self_left]

end VarKind

namespace VarDef

private theorem toNat_flagByte (varDef : VarDef) :
    varDef.flagByte.toNat = varDef.kind.code + 16 * varDef.isConst.toNat +
      32 * varDef.isLexical.toNat + 64 * varDef.isCaptured.toNat := by
  have kind := varDef.kind.code_lt
  have const := varDef.isConst.toNat_lt
  have lexical := varDef.isLexical.toNat_lt
  have captured := varDef.isCaptured.toNat_lt
  rw [flagByte, UInt8.toNat_ofNat', Nat.mod_eq_of_lt (by omega)]

private theorem parts_flagByte (varDef : VarDef) :
    VarKind.ofCode varDef.flagByte.toNat = varDef.kind.normalized ∧
      varDef.flagByte.toNat.testBit 4 = varDef.isConst ∧
      varDef.flagByte.toNat.testBit 5 = varDef.isLexical ∧
      varDef.flagByte.toNat.testBit 6 = varDef.isCaptured ∧
      varDef.flagByte.toNat.testBit 7 = false := by
  have kind := varDef.kind.code_lt
  have const := varDef.isConst.toNat_lt
  have lexical := varDef.isLexical.toNat_lt
  have captured := varDef.isCaptured.toNat_lt
  have whole : varDef.flagByte.toNat = varDef.kind.code +
      16 * (varDef.isConst.toNat + 2 * varDef.isLexical.toNat + 4 * varDef.isCaptured.toNat) := by
    rw [toNat_flagByte]
    omega
  rw [whole]
  refine ⟨varDef.kind.ofCode_add_mul _, ?_, ?_, ?_, ?_⟩
  · exact testBit_eq_of_div_mod (by omega)
  · exact testBit_eq_of_div_mod (by omega)
  · exact testBit_eq_of_div_mod (by omega)
  · exact testBit_eq_of_div_mod (by rw [Bool.toNat_false]; omega)

/-- The parts of a byte with a clear reserved bit make up that byte. -/
private theorem flagByte_eq {varDef : VarDef} {flags : UInt8} (clear : flags.toNat.testBit 7 = false)
    (kind : varDef.kind = .ofCode flags.toNat) (const : varDef.isConst = flags.toNat.testBit 4)
    (lexical : varDef.isLexical = flags.toNat.testBit 5)
    (captured : varDef.isCaptured = flags.toNat.testBit 6) : varDef.flagByte = flags := by
  have bound := flags.toNat_lt
  have high := Nat.toNat_testBit flags.toNat 7
  rw [clear, Bool.toNat_false] at high
  apply UInt8.toNat_inj.mp
  rw [toNat_flagByte, kind, const, lexical, captured, VarKind.code_ofCode, Nat.toNat_testBit,
    Nat.toNat_testBit, Nat.toNat_testBit]
  omega

end VarDef

namespace ClosureVar

private theorem toNat_flagByte (capture : ClosureVar) :
    capture.flagByte.toNat = capture.isLocal.toNat + 2 * capture.isArgument.toNat +
      4 * capture.isConst.toNat + 8 * capture.isLexical.toNat + 16 * capture.kind.code := by
  have kind := capture.kind.code_lt
  have isLocal := capture.isLocal.toNat_lt
  have argument := capture.isArgument.toNat_lt
  have const := capture.isConst.toNat_lt
  have lexical := capture.isLexical.toNat_lt
  rw [flagByte, UInt8.toNat_ofNat', Nat.mod_eq_of_lt (by omega)]

private theorem parts_flagByte (capture : ClosureVar) :
    capture.flagByte.toNat.testBit 0 = capture.isLocal ∧
      capture.flagByte.toNat.testBit 1 = capture.isArgument ∧
      capture.flagByte.toNat.testBit 2 = capture.isConst ∧
      capture.flagByte.toNat.testBit 3 = capture.isLexical ∧
      VarKind.ofCode (capture.flagByte.toNat / 16) = capture.kind.normalized := by
  have isLocal := capture.isLocal.toNat_lt
  have argument := capture.isArgument.toNat_lt
  have const := capture.isConst.toNat_lt
  have lexical := capture.isLexical.toNat_lt
  have kind : capture.flagByte.toNat / 16 = capture.kind.code := by
    rw [toNat_flagByte]
    omega
  rw [kind, toNat_flagByte]
  refine ⟨?_, ?_, ?_, ?_, rfl⟩
  · exact testBit_eq_of_div_mod (by omega)
  · exact testBit_eq_of_div_mod (by omega)
  · exact testBit_eq_of_div_mod (by omega)
  · exact testBit_eq_of_div_mod (by omega)

private theorem flagByte_eq {capture : ClosureVar} {flags : UInt8}
    (isLocal : capture.isLocal = flags.toNat.testBit 0)
    (argument : capture.isArgument = flags.toNat.testBit 1)
    (const : capture.isConst = flags.toNat.testBit 2)
    (lexical : capture.isLexical = flags.toNat.testBit 3)
    (kind : capture.kind = .ofCode (flags.toNat / 16)) : capture.flagByte = flags := by
  have bound := flags.toNat_lt
  apply UInt8.toNat_inj.mp
  rw [toNat_flagByte, isLocal, argument, const, lexical, kind, VarKind.code_ofCode,
    Nat.toNat_testBit, Nat.toNat_testBit, Nat.toNat_testBit, Nat.toNat_testBit]
  omega

end ClosureVar

/-!
## Local variables
-/

namespace VarDef

/-- The link is stored one higher, so that zero stays free for no link. -/
theorem readScopeNext_restores (strict : Bool) (order : ByteOrder) (next? : Option UInt32) :
    (readScopeNext strict).Restores order (emitScopeNext next?) next? := by
  cases next? with
  | none => exact (Varint.readUInt32_restores strict order 0).bind_eq_pure rfl
  | some next =>
      unfold emitScopeNext
      dsimp only
      split
      · rename_i fits
        have raised : (next + 1).toNat = next.toNat + 1 := by
          rw [UInt32.toNat_add]
          exact Nat.mod_eq_of_lt fits
        have nonzero : next + 1 ≠ 0 := by
          intro zero
          rw [zero] at raised
          exact Nat.succ_ne_zero _ raised.symm
        apply (Varint.readUInt32_restores strict order (next + 1)).bind_eq_pure
        rw [if_neg nonzero, UInt32.add_sub_cancel]
      · exact .fail _ order _ _

theorem readScopeNext_retraced (strict : Bool) (order : ByteOrder) :
    (readScopeNext strict).Retraced emitScopeNext order strict := by
  intro before result after run
  obtain ⟨link, middle, linkRun, run⟩ := Reader.run_bind_ok run
  have spans := Varint.readUInt32_retraced strict order linkRun
  cases run
  by_cases zero : link = 0
  · rw [if_pos zero]
    rwa [zero] at spans
  · have positive : link.toNat ≠ 0 := fun none => zero (UInt32.toNat_inj.mp none)
    have atLeastOne : (1 : UInt32) ≤ link := UInt32.le_iff_toNat_le.mpr (Nat.pos_of_ne_zero positive)
    have lowered : (link - 1).toNat = link.toNat - 1 := UInt32.toNat_sub_of_le link 1 atLeastOne
    have fits : (link - 1).toNat + 1 < UInt32.size := by
      have bound := link.toNat_lt_size
      omega
    rwa [if_neg zero, emitScopeNext, if_pos fits, UInt32.sub_add_cancel]

theorem readFlagByte_restores (strict : Bool) (order : ByteOrder) {flags : UInt8}
    (clear : flags.toNat.testBit 7 = false) :
    (readFlagByte strict).Restores order (.byte flags) flags := by
  intro complete offset rest
  rw [readFlagByte, Reader.run_bind_of_ok (Reader.run_position _),
    Reader.run_bind_of_ok (Reader.byte_restores order flags complete offset rest), clear,
    Bool.and_false]
  rfl

theorem run_readFlagByte_ok {strict : Bool} {before after : Cursor} {flags : UInt8}
    (run : (readFlagByte strict).run before = .ok flags after) :
    before.Advances [flags] after ∧ (strict = true → flags.toNat.testBit 7 = false) := by
  obtain ⟨offset, middle, positionRun, run⟩ := Reader.run_bind_ok run
  cases positionRun
  obtain ⟨byte, last, byteRun, run⟩ := Reader.run_bind_ok run
  split at run
  · cases run
  · rename_i accepted
    cases run
    refine ⟨Reader.advances_of_run_byte_ok byteRun, fun isStrict => ?_⟩
    simpa [isStrict] using accepted

/-- A variable that was written is read back with its normal kind. -/
theorem read_restores (strict : Bool) (order : ByteOrder) {table : AtomTable}
    (inline : table.dynamic.length ≤ AtomTable.maxDynamic) (varDef : VarDef) :
    (VarDef.read strict table).Restores order (varDef.emit table) varDef.normalized := by
  obtain ⟨kind, const, lexical, captured, clear⟩ := varDef.parts_flagByte
  rw [VarDef.emit, Emission.append_assoc, Emission.append_assoc]
  refine (Atom.read_restores strict order inline varDef.name).bind ?_
  refine (Varint.readUInt32_restores strict order varDef.scopeLevel).bind ?_
  refine (readScopeNext_restores strict order varDef.scopeNext?).bind ?_
  apply (readFlagByte_restores strict order clear).bind_eq_pure
  rw [kind, const, lexical, captured]
  rfl

theorem read_retraced (strict : Bool) (order : ByteOrder) (table : AtomTable) :
    (VarDef.read strict table).Retraced (VarDef.emit table) order strict := by
  intro before result after run
  obtain ⟨name, afterName, nameRun, run⟩ := Reader.run_bind_ok run
  obtain ⟨scopeLevel, afterLevel, levelRun, run⟩ := Reader.run_bind_ok run
  obtain ⟨scopeNext?, afterNext, nextRun, run⟩ := Reader.run_bind_ok run
  obtain ⟨flags, last, flagsRun, run⟩ := Reader.run_bind_ok run
  cases run
  obtain ⟨moved, clear⟩ := run_readFlagByte_ok flagsRun
  have name := Atom.read_retraced strict order table nameRun
  have level := Varint.readUInt32_retraced strict order levelRun
  have next := readScopeNext_retraced strict order nextRun
  refine ((name.append level).append next).append ⟨rfl, [flags], moved, ?_, fun isStrict => ?_⟩
  · rw [Emission.byte, Emission.render_bytes]
    exact Nat.le_refl 1
  · rw [Emission.byte, Emission.render_bytes, flagByte_eq (clear isStrict) rfl rfl rfl rfl]

/-- A variable that was read has a normal kind. -/
theorem normalized_of_run_read_ok {strict : Bool} {table : AtomTable} {before after : Cursor}
    {varDef : VarDef} (run : (VarDef.read strict table).run before = .ok varDef after) :
    varDef.normalized = varDef := by
  obtain ⟨name, afterName, _, run⟩ := Reader.run_bind_ok run
  obtain ⟨scopeLevel, afterLevel, _, run⟩ := Reader.run_bind_ok run
  obtain ⟨scopeNext?, afterNext, _, run⟩ := Reader.run_bind_ok run
  obtain ⟨flags, last, _, run⟩ := Reader.run_bind_ok run
  cases run
  rw [normalized, VarKind.normalized_ofCode]

end VarDef

/-!
## Captured variables
-/

namespace ClosureVar

theorem read_restores (strict : Bool) (order : ByteOrder) {table : AtomTable}
    (inline : table.dynamic.length ≤ AtomTable.maxDynamic) (capture : ClosureVar) :
    (ClosureVar.read strict table).Restores order (capture.emit table) capture.normalized := by
  obtain ⟨isLocal, argument, const, lexical, kind⟩ := capture.parts_flagByte
  rw [ClosureVar.emit, Emission.append_assoc]
  refine (Atom.read_restores strict order inline capture.name).bind ?_
  refine (Varint.readUInt32_restores strict order capture.index).bind ?_
  apply (Reader.byte_restores order capture.flagByte).bind_eq_pure
  rw [isLocal, argument, const, lexical, kind]
  rfl

theorem read_retraced (strict : Bool) (order : ByteOrder) (table : AtomTable) :
    (ClosureVar.read strict table).Retraced (ClosureVar.emit table) order strict := by
  intro before result after run
  obtain ⟨name, afterName, nameRun, run⟩ := Reader.run_bind_ok run
  obtain ⟨index, afterIndex, indexRun, run⟩ := Reader.run_bind_ok run
  obtain ⟨flags, last, flagsRun, run⟩ := Reader.run_bind_ok run
  cases run
  have name := Atom.read_retraced strict order table nameRun
  have index := Varint.readUInt32_retraced strict order indexRun
  have flags := Reader.byte_retraced order strict flagsRun
  refine (name.append index).append ?_
  rwa [flagByte_eq rfl rfl rfl rfl rfl]

theorem normalized_of_run_read_ok {strict : Bool} {table : AtomTable} {before after : Cursor}
    {capture : ClosureVar} (run : (ClosureVar.read strict table).run before = .ok capture after) :
    capture.normalized = capture := by
  obtain ⟨name, afterName, _, run⟩ := Reader.run_bind_ok run
  obtain ⟨index, afterIndex, _, run⟩ := Reader.run_bind_ok run
  obtain ⟨flags, last, _, run⟩ := Reader.run_bind_ok run
  cases run
  rw [normalized, VarKind.normalized_ofCode]

end ClosureVar

/-!
## Debug records
-/

namespace DebugInfo

theorem read_restores (strict : Bool) (order : ByteOrder) {table : AtomTable}
    (inline : table.dynamic.length ≤ AtomTable.maxDynamic) (debug : DebugInfo) :
    (DebugInfo.read strict table).Restores order (debug.emit table) debug := by
  rw [DebugInfo.emit, Emission.append_assoc, Emission.append_assoc]
  refine (Atom.read_restores strict order inline debug.fileName).bind ?_
  refine (Varint.readUInt32_restores strict order debug.lineNumber).bind ?_
  refine Reader.Restores.bind_length fun length same => ?_
  rw [same]
  exact (Reader.take_restores order debug.lineTable).bind_pure _

theorem read_retraced (strict : Bool) (order : ByteOrder) (table : AtomTable) :
    (DebugInfo.read strict table).Retraced (DebugInfo.emit table) order strict := by
  intro before result after run
  obtain ⟨fileName, afterName, nameRun, run⟩ := Reader.run_bind_ok run
  obtain ⟨lineNumber, afterLine, lineRun, run⟩ := Reader.run_bind_ok run
  obtain ⟨length, afterLength, lengthRun, run⟩ := Reader.run_bind_ok run
  obtain ⟨lineTable, last, takeRun, run⟩ := Reader.run_bind_ok run
  cases run
  have same := (Reader.advances_of_run_take_ok takeRun).2
  have name := Atom.read_retraced strict order table nameRun
  have line := Varint.readUInt32_retraced strict order lineRun
  exact ((name.append line).append (.length lengthRun "pc2line" same)).append
    (Reader.take_retraced _ order strict takeRun)

end DebugInfo

end BytecodeObject
