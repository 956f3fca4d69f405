import BytecodeObject.Function.Basic

set_option autoImplicit false

/-!
# Values

The values that a stream can hold. The constants of a function are values again.
-/

namespace BytecodeObject

inductive Value where
  | null
  | undefined
  | bool (value : Bool)
  | int32 (number : Int32)
  | float64 (double : Double)
  | string (text : Text)
  | function (body : Function Value)

namespace Value

def tag : Value → Tag
  | .null => .null
  | .undefined => .undefined
  | .bool false => .boolFalse
  | .bool true => .boolTrue
  | .int32 _ => .int32
  | .float64 _ => .float64
  | .string _ => .string
  | .function _ => .functionBytecode

def typeName : Value → String
  | .null => "null"
  | .undefined => "undefined"
  | .bool _ => "boolean"
  | .int32 _ | .float64 _ => "number"
  | .string _ => "string"
  | .function _ => "function"

def function? : Value → Option (Function Value)
  | .function body => some body
  | _ => none

def text? : Value → Option Text
  | .string text => some text
  | _ => none

/-!
## Comparison
-/

mutual

/-- Equality with doubles compared as numbers: zeros of both signs are equal, and a value with a NaN
in it does not even agree with itself. -/
def agrees : Value → Value → Bool
  | .null, .null => true
  | .undefined, .undefined => true
  | .bool left, .bool right => left == right
  | .int32 left, .int32 right => left == right
  | .float64 left, .float64 right => left.agrees right
  | .string left, .string right => left == right
  | .function ⟨frame, constants⟩, .function other =>
      frame == other.toFrame && allAgree constants other.constants
  | _, _ => false
termination_by structural value => value

def allAgree : List Value → List Value → Bool
  | [], [] => true
  | left :: lefts, right :: rights => agrees left right && allAgree lefts rights
  | _, _ => false
termination_by structural values => values

end

end Value

end BytecodeObject
