import BytecodeObject.Function.Basic
import BytecodeObject.Options

set_option autoImplicit false

/-!
# Function bodies

The body of a function is what follows its tag: fixed properties, eight integers among which the
four lengths stand together, the lists in an order of their own, and the constants at the very
end.
-/

namespace BytecodeObject

/-!
## Reading
-/

def DebugInfo.readIf (announced : Bool) (strict : Bool) (table : AtomTable) :
    Reader (Option DebugInfo) :=
  if announced then some <$> DebugInfo.read strict table else pure none

/-- Reads a frame and the number of constants that follow it. -/
def Frame.read (options : Options) (table : AtomTable) : Reader (Frame × Nat) := do
  let flags ← FunctionFlags.mk <$> Reader.word16 options.order
  let mode ← Reader.byte
  let name ← Atom.read options.strict table
  let argCount ← Varint.readUInt32 options.strict
  let varCount ← Varint.readUInt32 options.strict
  let definedArgCount ← Varint.readUInt32 options.strict
  let stackSize ← Varint.readUInt32 options.strict
  let closureVarCount ← Varint.readUInt32 options.strict
  let constantCount ← Varint.readUInt32 options.strict
  let codeLength ← Varint.readUInt32 options.strict
  let localCount ← Varint.readUInt32 options.strict
  let locals ← Reader.times localCount.toNat (VarDef.read options.strict table)
  let closureVars ← Reader.times closureVarCount.toNat (ClosureVar.read options.strict table)
  let code ← Reader.take codeLength.toNat
  let debug? ← DebugInfo.readIf flags.hasDebug options.strict table
  let frame : Frame := {
    flags, mode, name, argCount, varCount, definedArgCount, stackSize, locals, closureVars, code
    debug? }
  return (frame, constantCount.toNat)

/-- Reads a function body. Each constant is read by `constant`, after everything else. What reads the
constants may have effects besides reading, such as a state of its own. -/
@[specialize]
def Function.read {μ : Type → Type} [Monad μ] [MonadLiftT Reader μ] {κ : Type} (options : Options)
    (table : AtomTable) (constant : μ κ) : μ (Function κ) := do
  let (frame, constantCount) ← Frame.read options table
  let constants ← Reader.times constantCount constant
  return { frame with constants }

/-!
## Writing
-/

def DebugInfo.emitIf (table : AtomTable) : Option DebugInfo → Emission
  | none => .nothing
  | some debug => debug.emit table

/-- The output of a frame that is followed by the given number of constants. A frame whose flags
do not agree with its debug record has none. -/
def Frame.emit (table : AtomTable) (frame : Frame) (constantCount : Nat) : Emission :=
  if frame.announcesDebug then
    .word16 frame.flags.bits ++ .byte frame.mode ++ frame.name.emit table ++
      .uint32 frame.argCount ++ .uint32 frame.varCount ++ .uint32 frame.definedArgCount ++
      .uint32 frame.stackSize ++
      .length "closure vars" frame.closureVars.length ++
      .length "constant pool" constantCount ++
      .length "bytecode" frame.code.length ++
      .length "locals" frame.locals.length ++
      .concat (frame.locals.map (VarDef.emit table)) ++
      .concat (frame.closureVars.map (ClosureVar.emit table)) ++
      .bytes frame.code ++
      DebugInfo.emitIf table frame.debug?
  else
    .fail .debugFlagMismatch

def Function.emit {κ : Type} (table : AtomTable) (constant : κ → Emission) (function : Function κ) :
    Emission :=
  function.toFrame.emit table function.constants.length ++
    .concat (function.constants.map constant)

end BytecodeObject
