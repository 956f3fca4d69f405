import BytecodeObject.Json.Render
import BytecodeObject.Stream.Basic

set_option autoImplicit false

/-!
# Dumps

A stream as a document, for inspection. Every field is kept; of a text only its characters are, with
replacements where its bytes are not UTF-8.
-/

namespace BytecodeObject

open Json (Document)

def Text.dump (text : Text) : Document :=
  .string text.lossy

def Atom.dump : Atom → Document
  | .int number => .variant "Int" (.nat number.toNat)
  | .string index text =>
      .variant "String" (.record [("index", .nat index.toNat), ("value", .string text)])

def AtomTable.dump (table : AtomTable) : Document :=
  .record [("dynamic", .list (table.dynamic.map Text.dump))]

/-- A kind with a meaning is its name; a reserved one is its whole number. -/
def VarKind.dump : VarKind → Document
  | .reserved number => .variant "Reserved" (.nat number.toNat)
  | kind => .string (kind.name?.getD "")

def VarDef.dump (varDef : VarDef) : Document :=
  .record [
    ("var_name", varDef.name.dump),
    ("scope_level", .nat varDef.scopeLevel.toNat),
    ("scope_next", .option (fun next => .nat next.toNat) varDef.scopeNext?),
    ("var_kind", varDef.kind.dump),
    ("is_const", .bool varDef.isConst),
    ("is_lexical", .bool varDef.isLexical),
    ("is_captured", .bool varDef.isCaptured)]

def ClosureVar.dump (capture : ClosureVar) : Document :=
  .record [
    ("var_name", capture.name.dump),
    ("var_index", .nat capture.index.toNat),
    ("is_local", .bool capture.isLocal),
    ("is_arg", .bool capture.isArgument),
    ("is_const", .bool capture.isConst),
    ("is_lexical", .bool capture.isLexical),
    ("var_kind", capture.kind.dump)]

def DebugInfo.dump (debug : DebugInfo) : Document :=
  .record [
    ("file_name", debug.fileName.dump),
    ("line_number", .nat debug.lineNumber.toNat),
    ("pc2line", .bytes debug.lineTable)]

def Frame.dump (frame : Frame) (constants : List Document) : Document :=
  .record [
    ("flags", .nat frame.flags.bits.toNat),
    ("js_mode", .nat frame.mode.toNat),
    ("func_name", frame.name.dump),
    ("arg_count", .nat frame.argCount.toNat),
    ("var_count", .nat frame.varCount.toNat),
    ("defined_arg_count", .nat frame.definedArgCount.toNat),
    ("stack_size", .nat frame.stackSize.toNat),
    ("locals", .list (frame.locals.map VarDef.dump)),
    ("closure_vars", .list (frame.closureVars.map ClosureVar.dump)),
    ("bytecode", .bytes frame.code),
    ("constant_pool", .list constants),
    ("debug", .option DebugInfo.dump frame.debug?)]

mutual

def Value.dump : Value → Document
  | .null => .string "Null"
  | .undefined => .string "Undefined"
  | .bool value => .variant "Bool" (.bool value)
  | .int32 number => .variant "Int32" (.integer number.toInt)
  | .float64 double => .variant "Float64" (.double double)
  | .string text => .variant "String" text.dump
  | .function ⟨frame, constants⟩ =>
      .variant "FunctionBytecode" (frame.dump (Value.dumpAll constants))
termination_by structural value => value

def Value.dumpAll : List Value → List Document
  | [] => []
  | value :: rest => value.dump :: Value.dumpAll rest
termination_by structural values => values

end

def Tag.dump (tag : Tag) : Document :=
  .string tag.name

def ObjectStream.dump (stream : ObjectStream) : Document :=
  .record [("atoms", stream.atoms.dump), ("value", stream.value.dump)]

end BytecodeObject
