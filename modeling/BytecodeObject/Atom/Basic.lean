set_option autoImplicit false

/-!
# Atoms

An atom names a thing: either by a small number that it carries itself, or by a text that the atom
table holds under an id.
-/

namespace BytecodeObject

/-- A name. A number is carried inline and looked up in no table; the text of an interned atom is kept
beside its id, as it was when the atom was made. -/
inductive Atom where
  | int (number : UInt32)
  | string (index : UInt32) (text : String)
  deriving DecidableEq, Repr

namespace Atom

/-- The largest number that fits beside the bit that marks inline numbers. -/
def maxInline : Nat := 0x7FFFFFFF

def text? : Atom → Option String
  | .int _ => none
  | .string _ text => some text

def index? : Atom → Option UInt32
  | .int _ => none
  | .string index _ => some index

def isInt : Atom → Bool
  | .int _ => true
  | .string _ _ => false

def display : Atom → String
  | .int number => number.toNat.repr
  | .string _ text => text

end Atom

end BytecodeObject
