import BytecodeObject.Function.ClosureVar
import BytecodeObject.Function.DebugInfo
import BytecodeObject.Function.Flags
import BytecodeObject.Function.VarDef

set_option autoImplicit false

/-!
# Functions

A compiled function is a frame, which no value occurs in, and a pool of constants. What the
constants are is left open here, so that reading and writing a function go by the reader and the
output of a constant alone.
-/

namespace BytecodeObject

/-- Everything that a compiled function holds besides its constants. The locals are the arguments and then
the others, the defined arguments those before the first one that has a default or takes the rest. The
code is carried through untouched. -/
structure Frame where
  flags : FunctionFlags := ⟨0⟩
  mode : UInt8 := 0
  name : Atom
  argCount : UInt32 := 0
  varCount : UInt32 := 0
  definedArgCount : UInt32 := 0
  stackSize : UInt32 := 0
  locals : List VarDef := []
  closureVars : List ClosureVar := []
  code : List UInt8 := []
  debug? : Option DebugInfo := none
  deriving DecidableEq, Repr

structure Function (κ : Type) extends Frame where
  constants : List κ := []

namespace Frame

def nameText? (frame : Frame) : Option String :=
  frame.name.text?

def setDebug (frame : Frame) (debug? : Option DebugInfo) : Frame :=
  { frame with flags := frame.flags.withDebug debug?.isSome, debug? }

def announcesDebug (frame : Frame) : Bool :=
  frame.flags.hasDebug == frame.debug?.isSome

/-- A debug record that is set is announced, and one that is removed is not. -/
theorem announcesDebug_setDebug (frame : Frame) (debug? : Option DebugInfo) :
    (frame.setDebug debug?).announcesDebug = true := by
  simp [announcesDebug, setDebug, FunctionFlags.hasDebug_withDebug]

end Frame

end BytecodeObject
