import BytecodeObject.Atom.Table
import BytecodeObject.Function.VarKind

set_option autoImplicit false

/-!
# Captured variables

The record of a variable that a function captures from the function around it.
-/

namespace BytecodeObject

/-- A variable captured from the enclosing function: from its locals, or from what that captures itself.
The index is the place among these. -/
structure ClosureVar where
  name : Atom
  index : UInt32 := 0
  isLocal : Bool := false
  isArgument : Bool := false
  isConst : Bool := false
  isLexical : Bool := false
  kind : VarKind := .normal
  deriving DecidableEq, Repr

namespace ClosureVar

def flagByte (capture : ClosureVar) : UInt8 :=
  UInt8.ofNat (capture.isLocal.toNat + 2 * capture.isArgument.toNat + 4 * capture.isConst.toNat +
    8 * capture.isLexical.toNat + 16 * capture.kind.code)

def read (strict : Bool) (table : AtomTable) : Reader ClosureVar := do
  let name ← Atom.read strict table
  let index ← Varint.readUInt32 strict
  let flags ← Reader.byte
  return {
    name, index
    isLocal := flags.toNat.testBit 0
    isArgument := flags.toNat.testBit 1
    isConst := flags.toNat.testBit 2
    isLexical := flags.toNat.testBit 3
    kind := .ofCode (flags.toNat / 16) }

def emit (table : AtomTable) (capture : ClosureVar) : Emission :=
  capture.name.emit table ++ .uint32 capture.index ++ .byte capture.flagByte

end ClosureVar

end BytecodeObject
