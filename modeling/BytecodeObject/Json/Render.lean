import BytecodeObject.Json.Document
import BytecodeObject.Json.Number

set_option autoImplicit false

/-!
# Documents as text

A document is written in one of two layouts, which differ in line breaks and blanks alone. Every
function here puts its output in front of the text that follows it.
-/

namespace BytecodeObject.Json

/-!
## Strings
-/

/-- A character inside quotes. Quotes, backslashes and control characters are escaped, and
everything else stands for itself. -/
def escape (character : Char) : List Char :=
  if character = '"' then ['\\', '"']
  else if character = '\\' then ['\\', '\\']
  else if character = '\x08' then ['\\', 'b']
  else if character = '\x0c' then ['\\', 'f']
  else if character = '\n' then ['\\', 'n']
  else if character = '\r' then ['\\', 'r']
  else if character = '\t' then ['\\', 't']
  else if character.toNat < 0x20 then
    ['\\', 'u', '0', '0', Nat.digitChar (character.toNat / 16),
      Nat.digitChar (character.toNat % 16)]
  else [character]

def quoted (text : String) (following : List Char) : List Char :=
  '"' :: (text.toList.flatMap escape ++ '"' :: following)

/-!
## Layouts
-/

/-- What stands in front of an element at each nesting, and what separates a key from its content. -/
structure Layout where
  lineBreak : Nat → List Char
  afterKey : List Char

def Layout.compact : Layout where
  lineBreak := fun _ => []
  afterKey := [':']

def Layout.pretty : Layout where
  lineBreak := fun nesting => '\n' :: List.replicate (2 * nesting) ' '
  afterKey := [':', ' ']

/-!
## Documents
-/

/-- What closes a list or a record at the given nesting. Nothing separates the brackets of an empty
one. -/
def closing (layout : Layout) (nesting : Nat) (isEmpty : Bool) (bracket : Char)
    (following : List Char) : List Char :=
  if isEmpty then bracket :: following else layout.lineBreak nesting ++ bracket :: following

mutual

def Document.renderOnto (layout : Layout) (nesting : Nat) :
    Document → (following : List Char) → List Char
  | .null, following => 'n' :: 'u' :: 'l' :: 'l' :: following
  | .bool true, following => 't' :: 'r' :: 'u' :: 'e' :: following
  | .bool false, following => 'f' :: 'a' :: 'l' :: 's' :: 'e' :: following
  | .integer number, following => number.repr.toList ++ following
  | .double double, following => doubleChars double ++ following
  | .string text, following => quoted text following
  | .list items, following =>
      '[' :: itemsOnto layout (nesting + 1) [] items
        (closing layout nesting items.isEmpty ']' following)
  | .record fields, following =>
      '\x7b' :: fieldsOnto layout (nesting + 1) [] fields
        (closing layout nesting fields.isEmpty '\x7d' following)
termination_by structural document => document

/-- The items of a list, with `separator` before the first one and commas before the others. -/
def itemsOnto (layout : Layout) (nesting : Nat) (separator : List Char) :
    List Document → (following : List Char) → List Char
  | [], following => following
  | item :: rest, following =>
      separator ++ layout.lineBreak nesting ++
        item.renderOnto layout nesting (itemsOnto layout nesting [','] rest following)
termination_by structural items => items

def fieldsOnto (layout : Layout) (nesting : Nat) (separator : List Char) :
    List (String × Document) → (following : List Char) → List Char
  | [], following => following
  | (key, content) :: rest, following =>
      separator ++ layout.lineBreak nesting ++
        quoted key (layout.afterKey ++
          content.renderOnto layout nesting (fieldsOnto layout nesting [','] rest following))
termination_by structural fields => fields

end

def Document.compact (document : Document) : String :=
  String.ofList (document.renderOnto .compact 0 [])

def Document.pretty (document : Document) : String :=
  String.ofList (document.renderOnto .pretty 0 [])

end BytecodeObject.Json
