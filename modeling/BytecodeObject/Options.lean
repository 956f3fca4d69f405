import BytecodeObject.ByteOrder

set_option autoImplicit false

/-!
# Options

What a reader accepts and how fixed-width fields are laid out.
-/

namespace BytecodeObject

/-- The options of reading and writing. At most `maxDepth` functions may enclose one another, and a strict
reader refuses forms that are not written back byte for byte. The defaults accept functions, canonical
forms only. -/
structure Options where
  allowBytecode : Bool := true
  maxDepth : Nat := 256
  strict : Bool := true
  order : ByteOrder := .little
  deriving DecidableEq, Repr

namespace Options

def lenient : Options where
  strict := false

end Options

end BytecodeObject
