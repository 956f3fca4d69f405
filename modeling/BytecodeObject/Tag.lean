set_option autoImplicit false

/-!
# Tags

One tag byte precedes every value. The format knows twenty-one tags; this library reads and writes
eight of them, and names the others when it refuses them.
-/

namespace BytecodeObject

inductive Tag where
  | null
  | undefined
  | boolFalse
  | boolTrue
  | int32
  | float64
  | string
  | object
  | array
  | bigInt
  | bigFloat
  | bigDecimal
  | templateObject
  | functionBytecode
  | module
  | typedArray
  | arrayBuffer
  | sharedArrayBuffer
  | date
  | objectValue
  | objectReference
  deriving DecidableEq, Repr

namespace Tag

def toByte : Tag → UInt8
  | .null => 1
  | .undefined => 2
  | .boolFalse => 3
  | .boolTrue => 4
  | .int32 => 5
  | .float64 => 6
  | .string => 7
  | .object => 8
  | .array => 9
  | .bigInt => 10
  | .bigFloat => 11
  | .bigDecimal => 12
  | .templateObject => 13
  | .functionBytecode => 14
  | .module => 15
  | .typedArray => 16
  | .arrayBuffer => 17
  | .sharedArrayBuffer => 18
  | .date => 19
  | .objectValue => 20
  | .objectReference => 21

def all : List Tag :=
  [.null, .undefined, .boolFalse, .boolTrue, .int32, .float64, .string, .object, .array, .bigInt,
    .bigFloat, .bigDecimal, .templateObject, .functionBytecode, .module, .typedArray, .arrayBuffer,
    .sharedArrayBuffer, .date, .objectValue, .objectReference]

def ofByte? (byte : UInt8) : Option Tag :=
  all.find? (·.toByte == byte)

def name : Tag → String
  | .null => "Null"
  | .undefined => "Undefined"
  | .boolFalse => "BoolFalse"
  | .boolTrue => "BoolTrue"
  | .int32 => "Int32"
  | .float64 => "Float64"
  | .string => "String"
  | .object => "Object"
  | .array => "Array"
  | .bigInt => "BigInt"
  | .bigFloat => "BigFloat"
  | .bigDecimal => "BigDecimal"
  | .templateObject => "TemplateObject"
  | .functionBytecode => "FunctionBytecode"
  | .module => "Module"
  | .typedArray => "TypedArray"
  | .arrayBuffer => "ArrayBuffer"
  | .sharedArrayBuffer => "SharedArrayBuffer"
  | .date => "Date"
  | .objectValue => "ObjectValue"
  | .objectReference => "ObjectReference"

def isSupported : Tag → Bool
  | .null | .undefined | .boolFalse | .boolTrue | .int32 | .float64 | .string
  | .functionBytecode => true
  | _ => false

/-- Every tag is found under its byte. -/
theorem ofByte?_toByte (tag : Tag) : ofByte? tag.toByte = some tag := by
  cases tag <;> rfl

theorem toByte_of_ofByte? {byte : UInt8} {tag : Tag} (found : ofByte? byte = some tag) :
    tag.toByte = byte := by
  simpa using List.find?_some found

end Tag

end BytecodeObject
