import BytecodeObject.Tag

set_option autoImplicit false

/-!
# Faults

Everything that can go wrong while a stream is read or written. A fault states its cause; its
wording is `Fault.message`, and `Fault.kind` says which side it lies on.
-/

namespace BytecodeObject

/-- Why a stream was not read, or a value not written. Offsets count bytes from the start; that of an
integer is where it begins. What was asked for and what was left of the input are counted in bytes. -/
inductive Fault where
  | unsupportedVersion (found expected : UInt8)
  | unexpectedEnd (offset needed remaining : Nat)
  | unterminatedVarint (offset : Nat)
  | varintOverflow (offset : Nat)
  | nonCanonicalVarint (offset : Nat)
  | negativeZero (offset : Nat)
  | invalidTag (offset : Nat) (byte : UInt8)
  | unsupportedTag (tag : Tag)
  | atomOutOfRange (index : UInt32) (count : Nat)
  | reservedBits (offset : Nat) (what : String)
  | bytecodeNotAllowed
  | depthLimitExceeded (limit : Nat)
  | trailingBytes (offset remaining : Nat)
  | atomMismatch (index : UInt32)
  | debugFlagMismatch
  | lengthOverflow (what : String) (length : Nat)
  deriving DecidableEq, Repr

/-- What a fault says: that the bytes are no stream of this format, that they use a tag that is not read,
or that the value handed in cannot be written. -/
inductive FaultKind where
  | format
  | unsupportedTag
  | encode
  deriving DecidableEq, Repr

namespace Fault

/-- The kind of a fault. It goes by the cause alone, not by whether the fault arose in reading or in
writing. -/
def kind : Fault → FaultKind
  | .unsupportedTag _ => .unsupportedTag
  | .atomMismatch _ | .debugFlagMismatch | .lengthOverflow _ _ => .encode
  | _ => .format

def isFormat (fault : Fault) : Bool :=
  fault.kind == .format

def message : Fault → String
  | .unsupportedVersion found expected =>
      "Unsupported version: " ++ found.toNat.repr ++ " (expected " ++ expected.toNat.repr ++ ")"
  | .unexpectedEnd offset needed remaining =>
      "Unexpected end of bytecode at offset " ++ offset.repr ++ ": need " ++ needed.repr ++
        " bytes, " ++ remaining.repr ++ " remaining"
  | .unterminatedVarint offset => "Unterminated varint at offset " ++ offset.repr
  | .varintOverflow offset => "Varint overflow at offset " ++ offset.repr
  | .nonCanonicalVarint offset => "Non-canonical varint at offset " ++ offset.repr
  | .negativeZero offset => "Negative zero signed varint at offset " ++ offset.repr
  | .invalidTag offset byte =>
      "Invalid tag " ++ byte.toNat.repr ++ " at offset " ++ offset.repr
  | .unsupportedTag tag => "Unsupported tag: " ++ tag.name
  | .atomOutOfRange index count =>
      "Atom index " ++ index.toNat.repr ++ " out of range (table has " ++ count.repr ++ " atoms)"
  | .reservedBits offset what =>
      "Reserved bits set in " ++ what ++ " at offset " ++ offset.repr
  | .bytecodeNotAllowed => "Function bytecode not allowed"
  | .depthLimitExceeded limit => "Function nesting exceeds depth limit " ++ limit.repr
  | .trailingBytes offset remaining =>
      remaining.repr ++ " trailing bytes at offset " ++ offset.repr
  | .atomMismatch index =>
      "Atom " ++ index.toNat.repr ++ " does not match the encoder's atom table"
  | .debugFlagMismatch => "Function flags and debug info disagree"
  | .lengthOverflow what length => what ++ " length " ++ length.repr ++ " exceeds u32 range"

end Fault

end BytecodeObject
