import BytecodeObject.Double

set_option autoImplicit false

/-!
# Documents

The documents that a dump is written as. Fields keep the order in which they are given, and numbers
are integers or doubles.
-/

namespace BytecodeObject.Json

inductive Document where
  | null
  | bool (value : Bool)
  | integer (number : Int)
  | double (double : Double)
  | string (text : String)
  | list (items : List Document)
  | record (fields : List (String × Document))

namespace Document

def nat (number : Nat) : Document :=
  .integer number

def bytes (bytes : List UInt8) : Document :=
  .list (bytes.map fun byte => .nat byte.toNat)

def option {α : Type} (document : α → Document) : Option α → Document
  | none => .null
  | some value => document value

/-- A record of one field, which names the alternative that its content belongs to. -/
def variant (name : String) (content : Document) : Document :=
  .record [(name, content)]

end Document

end BytecodeObject.Json
