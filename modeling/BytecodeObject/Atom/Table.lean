import Std.Data.HashMap
import BytecodeObject.Atom.Basic
import BytecodeObject.Atom.Builtin
import BytecodeObject.Text

set_option autoImplicit false

/-!
# Atom tables

The atoms of one stream: the builtin ones, and behind them those that the header of the stream
lists. An id resolves to a text; a text is found under the least id that holds exactly that text.
Atoms that are not UTF-8 resolve to a text with replacements and are found under no text.
-/

namespace BytecodeObject

def formatVersion : UInt8 := 1

structure AtomTable where
  dynamic : List Text
  deriving DecidableEq

namespace AtomTable

def empty : AtomTable where
  dynamic := []

def ofStrings (texts : List String) : AtomTable where
  dynamic := texts.map Text.ofString

/-!
## Looking up
-/

def size (table : AtomTable) : Nat :=
  Atom.builtinCount + table.dynamic.length

def text? (table : AtomTable) (index : UInt32) : Option String :=
  match Atom.builtin[index.toNat]? with
  | some text => some text
  | none => (table.dynamic[index.toNat - Atom.builtinCount]?).map Text.lossy

def resolve (table : AtomTable) (index : UInt32) : Except Fault String :=
  match table.text? index with
  | some text => .ok text
  | none => .error (.atomOutOfRange index table.size)

/-- Enters texts under ids that count up from `first`. A text that is there already keeps its id; where
there is no text, an id is passed over. -/
def enterAll : (first : Nat) → List (Option String) → Std.HashMap String UInt32 →
    Std.HashMap String UInt32
  | _, [], index => index
  | first, none :: rest, index => enterAll (first + 1) rest index
  | first, some text :: rest, index =>
      enterAll (first + 1) rest (index.insertIfNew text (UInt32.ofNat first))

def builtinIndex : Std.HashMap String UInt32 :=
  enterAll 0 (Atom.builtin.map some) ∅

def dynamicIndex (table : AtomTable) : Std.HashMap String UInt32 :=
  enterAll Atom.builtinCount (table.dynamic.map Text.string?) ∅

def indexOf? (table : AtomTable) (text : String) : Option UInt32 :=
  builtinIndex[text]? <|> table.dynamicIndex[text]?

def atom? (table : AtomTable) (text : String) : Option Atom :=
  (table.indexOf? text).map fun index => .string index text

/-- The ids in range that their own text is not found under: a smaller id holds the same text, or
the atom is not UTF-8. -/
def shadowed (table : AtomTable) : List UInt32 :=
  ((List.range table.size).map UInt32.ofNat).filter fun index =>
    (table.text? index).bind table.indexOf? != some index

/-!
## Stream headers
-/

/-- The most atoms that a header may list when it is read: their ids have to stay inline. -/
def maxDynamic : Nat := Atom.maxInline - Atom.builtinCount

def read (strict : Bool) : Reader AtomTable := do
  let version ← Reader.byte
  if version = formatVersion then
    let count ← Varint.readUInt32 strict
    if count.toNat ≤ maxDynamic then
      let dynamic ← Reader.times count.toNat (Text.read strict)
      return ⟨dynamic⟩
    else
      Reader.fail (.lengthOverflow "atom table" count.toNat)
  else
    Reader.fail (.unsupportedVersion version formatVersion)

def emit (table : AtomTable) : Emission :=
  .byte formatVersion ++ .length "atom table" table.dynamic.length ++
    .concat (table.dynamic.map Text.emit)

end AtomTable

/-!
## Atom references
-/

namespace Atom

/-- Reads a reference to an atom. The lowest bit marks a number carried inline. -/
def read (strict : Bool) (table : AtomTable) : Reader Atom := do
  let reference ← Varint.readUInt32 strict
  if reference % 2 = 1 then
    return .int (reference / 2)
  else
    match table.resolve (reference / 2) with
    | .ok text => return .string (reference / 2) text
    | .error fault => Reader.fail fault

/-- The reference to an atom. An interned atom has to be the one that the table holds under its id.
Ids are doubled in 32 bits. -/
def emit (table : AtomTable) : Atom → Emission
  | .int number =>
      if number.toNat ≤ maxInline then .uint32 (2 * number + 1) else .fail (.atomMismatch number)
  | .string index text =>
      if table.text? index = some text then .uint32 (2 * index) else .fail (.atomMismatch index)

end Atom

end BytecodeObject
