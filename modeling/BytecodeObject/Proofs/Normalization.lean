import BytecodeObject.Value.Wire

/-!
# Normal values

A reserved kind may hold a number that is not stored, so two values can have one output. The
normal one among them has in every variable the kind that its four stored bits mean. It has the same
output as the others, and it is the one that reading yields.
-/

set_option autoImplicit false

namespace BytecodeObject

/-!
## Kinds
-/

namespace VarKind

/-- The kind that the stored bits of a kind mean. -/
def normalized (kind : VarKind) : VarKind :=
  .ofCode kind.code

private theorem code_normalized (kind : VarKind) : kind.normalized.code = kind.code := by
  rw [normalized, code_ofCode, Nat.mod_eq_of_lt kind.code_lt]

theorem normalized_ofCode (number : Nat) : (ofCode number).normalized = ofCode number := by
  unfold normalized
  rw [code_ofCode]
  unfold ofCode
  rw [Nat.mod_mod]

end VarKind

/-!
## Records
-/

def VarDef.normalized (varDef : VarDef) : VarDef :=
  { varDef with kind := varDef.kind.normalized }

def ClosureVar.normalized (capture : ClosureVar) : ClosureVar :=
  { capture with kind := capture.kind.normalized }

def Frame.normalized (frame : Frame) : Frame :=
  { frame with
    locals := frame.locals.map VarDef.normalized
    closureVars := frame.closureVars.map ClosureVar.normalized }

/-- A kind and its normal form are written alike, and so is everything that holds them. -/
theorem VarDef.emit_normalized (table : AtomTable) (varDef : VarDef) :
    varDef.normalized.emit table = varDef.emit table := by
  simp only [VarDef.emit, VarDef.flagByte, VarDef.normalized, VarKind.code_normalized]

theorem ClosureVar.emit_normalized (table : AtomTable) (capture : ClosureVar) :
    capture.normalized.emit table = capture.emit table := by
  simp only [ClosureVar.emit, ClosureVar.flagByte, ClosureVar.normalized, VarKind.code_normalized]

theorem Frame.emit_normalized (table : AtomTable) (frame : Frame) (constantCount : Nat) :
    frame.normalized.emit table constantCount = frame.emit table constantCount := by
  have locals : (frame.locals.map VarDef.normalized).map (VarDef.emit table) =
      frame.locals.map (VarDef.emit table) := by
    rw [List.map_map]
    exact List.map_congr_left fun varDef _ => varDef.emit_normalized table
  have captures : (frame.closureVars.map ClosureVar.normalized).map (ClosureVar.emit table) =
      frame.closureVars.map (ClosureVar.emit table) := by
    rw [List.map_map]
    exact List.map_congr_left fun capture _ => capture.emit_normalized table
  have announces : frame.normalized.announcesDebug = frame.announcesDebug := rfl
  rw [Frame.emit, Frame.emit, announces]
  simp only [Frame.normalized, List.length_map, locals, captures]

/-!
## Values
-/

namespace Value

mutual

def normalized : Value → Value
  | .function ⟨frame, constants⟩ => .function ⟨frame.normalized, normalizedAll constants⟩
  | value => value
termination_by structural value => value

def normalizedAll : List Value → List Value
  | [] => []
  | value :: rest => normalized value :: normalizedAll rest
termination_by structural values => values

end

private theorem normalizedAll_eq_map (values : List Value) :
    normalizedAll values = values.map normalized := by
  induction values with
  | nil => rfl
  | cons value rest restIH => rw [normalizedAll, restIH, List.map_cons]

theorem normalized_function (compiled : Function Value) :
    (Value.function compiled).normalized =
      .function { compiled.toFrame.normalized with
        constants := compiled.constants.map normalized } := by
  obtain ⟨frame, constants⟩ := compiled
  rw [normalized, normalizedAll_eq_map]

theorem emit_normalized (options : Options) (table : AtomTable) (budget : Nat) (value : Value) :
    emit options table budget value.normalized = emit options table budget value := by
  induction budget generalizing value with
  | zero =>
      cases value with
      | function body =>
          obtain ⟨frame, constants⟩ := body
          rw [normalized, emit, emit]
      | _ => rfl
  | succ budget budgetIH =>
      cases value with
      | function body =>
          obtain ⟨frame, constants⟩ := body
          have same : (constants.map normalized).map (emit options table budget) =
              constants.map (emit options table budget) := by
            rw [List.map_map]
            exact List.map_congr_left fun value _ => budgetIH value
          simp only [normalized, normalizedAll_eq_map, emit, emitAll_eq_concat, List.length_map,
            Frame.emit_normalized, same]
      | _ => rfl

end Value

end BytecodeObject
