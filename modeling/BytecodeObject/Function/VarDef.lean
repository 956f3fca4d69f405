import BytecodeObject.Atom.Table
import BytecodeObject.Function.VarKind

set_option autoImplicit false

/-!
# Local variables

The record of an argument or a local variable, which leads to the next one in the same chain of scopes.
The highest bit of its flag byte has no meaning, and a strict reader refuses it.
-/

namespace BytecodeObject

structure VarDef where
  name : Atom
  scopeLevel : UInt32 := 0
  scopeNext? : Option UInt32 := none
  kind : VarKind := .normal
  isConst : Bool := false
  isLexical : Bool := false
  isCaptured : Bool := false
  deriving DecidableEq, Repr

namespace VarDef

def flagByte (varDef : VarDef) : UInt8 :=
  UInt8.ofNat (varDef.kind.code + 16 * varDef.isConst.toNat +
    32 * varDef.isLexical.toNat + 64 * varDef.isCaptured.toNat)

def readScopeNext (strict : Bool) : Reader (Option UInt32) := do
  let link ← Varint.readUInt32 strict
  return if link = 0 then none else some (link - 1)

def readFlagByte (strict : Bool) : Reader UInt8 := do
  let offset ← Reader.position
  let flags ← Reader.byte
  if strict && flags.toNat.testBit 7 then
    Reader.fail (.reservedBits offset "var def")
  else
    return flags

def read (strict : Bool) (table : AtomTable) : Reader VarDef := do
  let name ← Atom.read strict table
  let scopeLevel ← Varint.readUInt32 strict
  let scopeNext? ← readScopeNext strict
  let flags ← readFlagByte strict
  return {
    name, scopeLevel, scopeNext?
    kind := .ofCode flags.toNat
    isConst := flags.toNat.testBit 4
    isLexical := flags.toNat.testBit 5
    isCaptured := flags.toNat.testBit 6 }

/-- The link to the next variable, stored one higher so that zero means none. -/
def emitScopeNext : Option UInt32 → Emission
  | none => .uint32 0
  | some next =>
      if next.toNat + 1 < UInt32.size then .uint32 (next + 1)
      else .fail (.lengthOverflow "scope next" next.toNat)

def emit (table : AtomTable) (varDef : VarDef) : Emission :=
  varDef.name.emit table ++ .uint32 varDef.scopeLevel ++ emitScopeNext varDef.scopeNext? ++
    .byte varDef.flagByte

end VarDef

end BytecodeObject
