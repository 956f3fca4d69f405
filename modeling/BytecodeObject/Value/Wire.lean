import BytecodeObject.Function.Body
import BytecodeObject.Value.Basic

set_option autoImplicit false

/-!
# Values on the wire

A value is its tag and what the tag announces. Reading and writing go down with a budget: the
number of functions that may still enclose one another. The budget starts at the depth limit of
the options and decreases by one inside each function.
-/

namespace BytecodeObject.Value

/-- Reads a tag and what it announces, where `body` reads what follows the tag of a function. -/
def readTagged (options : Options) (body : Reader (Function Value)) : Reader Value := do
  let offset ← Reader.position
  let byte ← Reader.byte
  match Tag.ofByte? byte with
  | none => Reader.fail (.invalidTag offset byte)
  | some .null => return .null
  | some .undefined => return .undefined
  | some .boolFalse => return .bool false
  | some .boolTrue => return .bool true
  | some .int32 => .int32 <$> Varint.readInt32 options.strict
  | some .float64 => .float64 <$> Reader.double options.order
  | some .string => .string <$> Text.read options.strict
  | some .functionBytecode =>
      if options.allowBytecode then .function <$> body else Reader.fail .bytecodeNotAllowed
  | some tag => Reader.fail (.unsupportedTag tag)

/-- Reads a value in which at most `budget` functions enclose one another. -/
def read (options : Options) (table : AtomTable) : (budget : Nat) → Reader Value
  | 0 => readTagged options (Reader.fail (.depthLimitExceeded options.maxDepth))
  | budget + 1 => readTagged options (Function.read options table (read options table budget))

mutual

/-- The output of a value in which at most `budget` functions enclose one another. A function that
is refused is refused before its tag. -/
def emit (options : Options) (table : AtomTable) : (budget : Nat) → Value → Emission
  | _, .null => .byte Tag.null.toByte
  | _, .undefined => .byte Tag.undefined.toByte
  | _, .bool false => .byte Tag.boolFalse.toByte
  | _, .bool true => .byte Tag.boolTrue.toByte
  | _, .int32 number => .byte Tag.int32.toByte ++ .int32 number
  | _, .float64 double => .byte Tag.float64.toByte ++ .double double
  | _, .string text => .byte Tag.string.toByte ++ text.emit
  | budget, .function ⟨frame, constants⟩ =>
      if options.allowBytecode then
        match budget with
        | 0 => .fail (.depthLimitExceeded options.maxDepth)
        | budget + 1 =>
            .byte Tag.functionBytecode.toByte ++
              (frame.emit table constants.length ++ emitAll options table budget constants)
      else
        .fail .bytecodeNotAllowed
termination_by structural _ value => value

def emitAll (options : Options) (table : AtomTable) : (budget : Nat) → List Value → Emission
  | _, [] => .nothing
  | budget, value :: rest => emit options table budget value ++ emitAll options table budget rest
termination_by structural _ values => values

end

theorem emitAll_eq_concat (options : Options) (table : AtomTable) (budget : Nat)
    (values : List Value) :
    emitAll options table budget values = .concat (values.map (emit options table budget)) := by
  induction values with
  | nil => rfl
  | cons value rest restIH =>
      rw [emitAll, restIH]
      rfl

/-- The output of a permitted function is its tag and its body, whose constants have one level
less. -/
theorem emit_function (options : Options) (table : AtomTable) (budget : Nat)
    (function : Function Value) (allowed : options.allowBytecode = true) :
    emit options table (budget + 1) (.function function) =
      .byte Tag.functionBytecode.toByte ++
        function.emit table (emit options table budget) := by
  obtain ⟨frame, constants⟩ := function
  simp only [emit, allowed, if_true, emitAll_eq_concat, Function.emit]

end BytecodeObject.Value
