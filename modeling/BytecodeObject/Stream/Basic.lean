import BytecodeObject.Value.Wire

set_option autoImplicit false

/-!
# Object streams

A stream is a header that lists its atoms and one value. Strict decoding takes the whole input;
lenient decoding stops after the value.
-/

namespace BytecodeObject

structure ObjectStream where
  atoms : AtomTable
  value : Value

namespace ObjectStream

def read (options : Options) : Reader ObjectStream := do
  let atoms ← AtomTable.read options.strict
  let value ← Value.read options atoms options.maxDepth
  return ⟨atoms, value⟩

def decode (options : Options) (bytes : List UInt8) : Except Fault ObjectStream :=
  match (read options).run (.ofBytes bytes) with
  | .error fault _ => .error fault
  | .ok stream cursor =>
      if options.strict && !cursor.isAtEnd then
        .error (.trailingBytes cursor.offset cursor.remaining)
      else
        .ok stream

def emit (options : Options) (stream : ObjectStream) : Emission :=
  stream.atoms.emit ++ stream.value.emit options stream.atoms options.maxDepth

def encode (options : Options) (stream : ObjectStream) : Except Fault (List UInt8) :=
  (stream.emit options).result options.order

def agrees (left right : ObjectStream) : Bool :=
  left.atoms == right.atoms && left.value.agrees right.value

end ObjectStream

end BytecodeObject
