import BytecodeObject.Atom.Table

set_option autoImplicit false

/-!
# Debug records

Where a function comes from in its source. The table of lines is carried through untouched.
-/

namespace BytecodeObject

structure DebugInfo where
  fileName : Atom
  lineNumber : UInt32 := 0
  lineTable : List UInt8 := []
  deriving DecidableEq, Repr

namespace DebugInfo

def read (strict : Bool) (table : AtomTable) : Reader DebugInfo := do
  let fileName ← Atom.read strict table
  let lineNumber ← Varint.readUInt32 strict
  let length ← Varint.readUInt32 strict
  let lineTable ← Reader.take length.toNat
  return { fileName, lineNumber, lineTable }

def emit (table : AtomTable) (debug : DebugInfo) : Emission :=
  debug.fileName.emit table ++ .uint32 debug.lineNumber ++
    .length "pc2line" debug.lineTable.length ++ .bytes debug.lineTable

end DebugInfo

end BytecodeObject
