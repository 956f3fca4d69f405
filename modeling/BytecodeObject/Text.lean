import BytecodeObject.Emission
import BytecodeObject.Payload
import BytecodeObject.Utf8

set_option autoImplicit false

/-!
# Texts

A string as the format stores it: bytes and a bit that marks wide characters. The bytes are kept as
they are, whatever the bit says and whether or not they are UTF-8.
-/

namespace BytecodeObject

structure Text where
  wide : Bool
  payload : Payload
  deriving DecidableEq

namespace Text

/-- The longest payload whose length fits beside the wide bit. -/
def maxSize : Nat := 0x7FFFFFFF

def ofString (text : String) : Text where
  wide := false
  payload := .ofList (Utf8.encode text)

def bytes (text : Text) : List UInt8 :=
  text.payload.toList

def string? (text : Text) : Option String :=
  Utf8.decode? text.bytes

def lossy (text : Text) : String :=
  Utf8.lossy text.bytes

/-- Reads the length with the wide bit below it, and then the bytes. -/
def read (strict : Bool) : Reader Text := do
  let lengthAndWide ← Varint.readUInt32 strict
  let bytes ← Reader.take (lengthAndWide.toNat / 2)
  return ⟨lengthAndWide.toNat % 2 == 1, .ofList bytes⟩

/-- The output of a text. One that is too long is refused before anything of it is written. -/
def emit (text : Text) : Emission :=
  if text.payload.size ≤ maxSize then
    .uint32 (UInt32.ofNat (2 * text.payload.size + text.wide.toNat)) ++ .bytes text.bytes
  else
    .fail (.lengthOverflow "string" text.payload.size)

end Text

end BytecodeObject
