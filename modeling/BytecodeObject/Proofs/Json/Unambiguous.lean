import Std.Data.String.ToInt
import BytecodeObject.Json.Render

/-!
# Texts that stand for one document

A document without doubles is known from its text in any layout that puts nothing but blanks between
elements, and so is where the text ends, whatever follows: a string ends at the first quote that is not
escaped, a number where no digit follows, and a list or a record where its bracket is closed.
-/

set_option autoImplicit false

namespace BytecodeObject.Json

/-!
## Strings
-/

def unmark : Char → Char
  | 'b' => '\x08'
  | 'f' => '\x0c'
  | 'n' => '\n'
  | 'r' => '\r'
  | 't' => '\t'
  | mark => mark

def hexValue (digit : Char) : Nat :=
  if digit.isDigit then digit.toNat - 48 else digit.toNat - 87

/-- The first character of the text inside quotes, and what is left. There is none before a quote. -/
def unescape : List Char → Option (Char × List Char)
  | [] => none
  | '\\' :: 'u' :: '0' :: '0' :: high :: low :: rest =>
      some (Char.ofNat (16 * hexValue high + hexValue low), rest)
  | '\\' :: mark :: rest => some (unmark mark, rest)
  | character :: rest => if character = '"' then none else some (character, rest)

private theorem hexValue_digitChar : ∀ code < 32,
    16 * hexValue (Nat.digitChar (code / 16)) + hexValue (Nat.digitChar (code % 16)) = code := by
  decide

private theorem unescape_escape (character : Char) (rest : List Char) :
    unescape (escape character ++ rest) = some (character, rest) := by
  unfold escape
  -- Seven characters have a mark of their own, the other control characters a number.
  iterate 7
    split
    · subst character
      rfl
  split
  · rename_i control
    have code := hexValue_digitChar character.toNat control
    simp only [List.cons_append, List.nil_append, unescape, code, Char.ofNat_toNat]
  · rename_i noQuote noBackslash _ _ _ _ _ _
    simp [unescape, noQuote, noBackslash]

private theorem flatMap_escape_inj {characters others following after : List Char}
    (same : characters.flatMap escape ++ '"' :: following = others.flatMap escape ++ '"' :: after) :
    characters = others ∧ following = after := by
  induction characters generalizing others with
  | nil =>
      cases others with
      | nil =>
          cases same
          exact ⟨rfl, rfl⟩
      | cons other others =>
          have ended := congrArg unescape same
          rw [List.flatMap_cons, List.append_assoc, unescape_escape] at ended
          cases ended
  | cons character characters charactersIH =>
      cases others with
      | nil =>
          have ended := congrArg unescape same
          rw [List.flatMap_cons, List.append_assoc, unescape_escape] at ended
          cases ended
      | cons other others =>
          have heads := congrArg unescape same
          simp only [List.flatMap_cons, List.append_assoc, unescape_escape, Option.some.injEq,
            Prod.mk.injEq] at heads
          obtain ⟨rfl, tails⟩ := heads
          obtain ⟨rfl, rest⟩ := charactersIH tails
          exact ⟨rfl, rest⟩

/-- A string ends at the first quote that is not escaped. -/
theorem quoted_inj {text other : String} {following after : List Char}
    (same : quoted text following = quoted other after) : text = other ∧ following = after := by
  obtain ⟨characters, rest⟩ := flatMap_escape_inj (List.tail_eq_of_cons_eq same)
  exact ⟨String.toList_inj.mp characters, rest⟩

/-!
## Numbers
-/

def isNumeral (character : Char) : Bool :=
  character.isDigit || character == '-'

/-- A text that does not lengthen an integer in front of it. -/
def Settled (following : List Char) : Prop :=
  ∀ character ∈ following.head?, isNumeral character = false

private theorem isNumeral_of_mem_natRepr {number : Nat} {character : Char}
    (member : character ∈ number.repr.toList) : isNumeral character = true := by
  rw [Nat.repr_eq_ofList_toDigits, String.toList_ofList] at member
  have digit := Nat.isDigit_of_mem_toDigits (by decide) (by decide) member
  rw [isNumeral, digit, Bool.true_or]

private theorem isNumeral_of_mem_repr {number : Int} {character : Char}
    (member : character ∈ number.repr.toList) : isNumeral character = true := by
  cases number with
  | ofNat magnitude => exact isNumeral_of_mem_natRepr member
  | negSucc magnitude =>
      change character ∈ ("-" ++ (magnitude + 1).repr).toList at member
      rw [String.toList_append] at member
      rcases List.mem_append.mp member with sign | digits
      · cases List.mem_singleton.mp sign
        rfl
      · exact isNumeral_of_mem_natRepr digits

private theorem repr_ne_nil (number : Int) : number.repr.toList ≠ [] := by
  intro empty
  cases number with
  | ofNat magnitude => exact Nat.repr_ne_empty (String.toList_eq_nil_iff.mp empty)
  | negSucc magnitude =>
      change ("-" ++ (magnitude + 1).repr).toList = [] at empty
      rw [String.toList_append] at empty
      cases empty

private theorem takeWhile_isNumeral {number : Int} {following : List Char} (settled : Settled following) :
    (number.repr.toList ++ following).takeWhile isNumeral = number.repr.toList := by
  have stopped : following.takeWhile isNumeral = [] := by
    cases following with
    | nil => rfl
    | cons first rest => rw [List.takeWhile_cons, settled first rfl]; rfl
  rw [List.takeWhile_append_of_pos fun _ member => isNumeral_of_mem_repr member, stopped,
    List.append_nil]

/-- An integer ends where no numeral follows. -/
theorem repr_append_inj {number other : Int} {following after : List Char}
    (settled : Settled following) (otherSettled : Settled after)
    (same : number.repr.toList ++ following = other.repr.toList ++ after) :
    number = other ∧ following = after := by
  have digits := congrArg (List.takeWhile isNumeral) same
  rw [takeWhile_isNumeral settled, takeWhile_isNumeral otherSettled] at digits
  rw [digits] at same
  exact ⟨Int.repr_inj.mp (String.toList_inj.mp digits), List.append_cancel_left same⟩

/-!
## Documents
-/

mutual

/-- A document in which no double occurs. -/
def Document.Exact : Document → Prop
  | .null | .bool _ | .integer _ | .string _ => True
  | .double _ => False
  | .list items => Document.AllExact items
  | .record fields => Document.FieldsExact fields
termination_by structural document => document

def Document.AllExact : List Document → Prop
  | [] => True
  | item :: rest => item.Exact ∧ Document.AllExact rest
termination_by structural items => items

def Document.FieldsExact : List (String × Document) → Prop
  | [] => True
  | (_, content) :: rest => content.Exact ∧ Document.FieldsExact rest
termination_by structural fields => fields

end

inductive Shape where
  | null
  | bool (value : Bool)
  | numeral
  | string
  | list
  | record

def Shape.ofChar? : Char → Option Shape
  | 'n' => some .null
  | 't' => some (.bool true)
  | 'f' => some (.bool false)
  | '"' => some .string
  | '[' => some .list
  | '\x7b' => some .record
  | character => if isNumeral character then some .numeral else none

namespace Document

def shape : Document → Shape
  | .null => .null
  | .bool value => .bool value
  | .integer _ | .double _ => .numeral
  | .string _ => .string
  | .list _ => .list
  | .record _ => .record

private theorem ofChar?_of_isNumeral {character : Char} (numeral : isNumeral character = true) :
    Shape.ofChar? character = some .numeral := by
  unfold Shape.ofChar?
  split
  iterate 6
    · cases numeral
  · rw [if_pos numeral]

private theorem ofChar?_renderOnto {document : Document} (exact : document.Exact) (layout : Layout)
    (nesting : Nat) (following : List Char) :
    (document.renderOnto layout nesting following).head?.bind Shape.ofChar? =
      some document.shape := by
  cases document with
  | null => rfl
  | bool value => cases value <;> rfl
  | integer number =>
      obtain ⟨first, rest, digits⟩ := List.exists_cons_of_ne_nil (repr_ne_nil number)
      have numeral : isNumeral first = true :=
        isNumeral_of_mem_repr (digits ▸ List.mem_cons_self)
      rw [renderOnto, digits]
      exact ofChar?_of_isNumeral numeral
  | double double => cases exact
  | string text => rfl
  | list items => rfl
  | record fields => rfl

private theorem shape_eq_of_renderOnto_eq {document other : Document} (exact : document.Exact)
    (otherExact : other.Exact) {layout : Layout} {nesting : Nat} {following after : List Char}
    (same : document.renderOnto layout nesting following =
      other.renderOnto layout nesting after) : document.shape = other.shape := by
  have shapes := congrArg (fun text => text.head?.bind Shape.ofChar?) same
  rw [ofChar?_renderOnto exact, ofChar?_renderOnto otherExact] at shapes
  exact Option.some.inj shapes

end Document

/-!
## Elements between brackets
-/

/-- A layout that puts nothing but blanks in front of elements. -/
def Layout.Blank (layout : Layout) : Prop :=
  ∀ nesting, ∀ character ∈ layout.lineBreak nesting, character = '\n' ∨ character = ' '

theorem Layout.blank_compact : Layout.compact.Blank := by
  intro nesting character member
  cases member

theorem Layout.blank_pretty : Layout.pretty.Blank := by
  intro nesting character member
  rcases List.mem_cons.mp member with newline | space
  · exact .inl newline
  · exact .inr (List.eq_of_mem_replicate space)

/-- A text behind a line break starts with a blank, or as it would without one. -/
theorem Layout.Blank.head?_append {layout : Layout} (blank : layout.Blank) {allowed : Char → Prop}
    (newline : allowed '\n') (space : allowed ' ') {text : List Char}
    (own : ∀ character ∈ text.head?, allowed character) (nesting : Nat) :
    ∀ character ∈ (layout.lineBreak nesting ++ text).head?, allowed character := by
  intro character first
  have blanks := blank nesting
  cases broken : layout.lineBreak nesting with
  | nil =>
      rw [broken] at first
      exact own character first
  | cons head rest =>
      rw [broken] at first blanks
      cases first
      rcases blanks character List.mem_cons_self with rfl | rfl
      · exact newline
      · exact space

/-- A text behind the last of several elements. -/
def Closed (following : List Char) : Prop :=
  ∀ character ∈ following.head?, isNumeral character = false ∧ character ≠ ','

theorem Closed.ne_comma {following rest : List Char} (closed : Closed following) :
    following ≠ ',' :: rest := by
  rintro rfl
  exact (closed ',' rfl).2 rfl

theorem Layout.Blank.closing_closed {layout : Layout} (blank : layout.Blank) (bracket : Char)
    (visible : isNumeral bracket = false ∧ bracket ≠ ',') (nesting : Nat) (isEmpty : Bool)
    (following : List Char) : Closed (closing layout nesting isEmpty bracket following) := by
  have own : Closed (bracket :: following) := by
    intro character first
    cases first
    exact visible
  cases isEmpty with
  | true => exact own
  | false => exact blank.head?_append (by decide) (by decide) own nesting

private theorem closing_inj {layout : Layout} {nesting : Nat} {isEmpty : Bool} {bracket : Char}
    {following after : List Char} (same : closing layout nesting isEmpty bracket following =
      closing layout nesting isEmpty bracket after) : following = after := by
  cases isEmpty with
  | true => exact List.tail_eq_of_cons_eq same
  | false => exact List.tail_eq_of_cons_eq (List.append_cancel_left same)

/-- Elements with commas between them, none of which begins with the bracket that closes them. -/
structure Separated {ε : Type} (admitted : ε → Prop) (bracket : Char)
    (body : List Char → List ε → List Char → List Char) : Prop where
  empty : ∀ separator following, body separator [] following = following
  comma : ∀ element rest following,
    body [','] (element :: rest) following = ',' :: body [] (element :: rest) following
  begins : ∀ element rest following, admitted element →
    ∀ character ∈ (body [] (element :: rest) following).head?, character ≠ bracket

namespace Separated

variable {ε : Type} {admitted : ε → Prop} {bracket : Char}
  {body : List Char → List ε → List Char → List Char}

theorem settled (separated : Separated admitted bracket body) (elements : List ε)
    {following : List Char} (closed : Closed following) :
    Settled (body [','] elements following) := by
  intro character first
  cases elements with
  | nil =>
      rw [separated.empty] at first
      exact (closed character first).1
  | cons element rest =>
      rw [separated.comma] at first
      cases first
      rfl

theorem ne_bracket (separated : Separated admitted bracket body) {element : ε}
    (admits : admitted element) {rest : List ε} {following text : List Char} :
    body [] (element :: rest) following ≠ bracket :: text := by
  intro same
  exact separated.begins element rest following admits bracket (same ▸ rfl) rfl

/-- Between brackets the first element has no comma before it. With one it is an element like the
others. -/
theorem commas_of_eq (separated : Separated admitted bracket body) {layout : Layout} {nesting : Nat}
    {elements others : List ε} (first : ∀ element ∈ elements.head?, admitted element)
    (otherFirst : ∀ element ∈ others.head?, admitted element) {following after : List Char}
    (same : body [] elements (closing layout nesting elements.isEmpty bracket following) =
      body [] others (closing layout nesting others.isEmpty bracket after)) :
    body [','] elements (closing layout nesting elements.isEmpty bracket following) =
      body [','] others (closing layout nesting others.isEmpty bracket after) := by
  cases elements with
  | nil =>
      cases others with
      | nil => rwa [separated.empty, separated.empty] at same ⊢
      | cons other others =>
          rw [separated.empty] at same
          exact absurd same.symm (separated.ne_bracket (otherFirst other rfl))
  | cons element rest =>
      cases others with
      | nil =>
          rw [separated.empty] at same
          exact absurd same (separated.ne_bracket (first element rfl))
      | cons other others =>
          rw [separated.comma, separated.comma, same]

end Separated

namespace Document

variable {layout : Layout}

private theorem AllExact.head {items : List Document} (exact : AllExact items) :
    ∀ item ∈ items.head?, item.Exact := by
  intro item first
  cases items with
  | nil => cases first
  | cons head rest =>
      cases first
      exact exact.1

theorem itemsOnto_separated (blank : layout.Blank) (nesting : Nat) :
    Separated Exact ']' (itemsOnto layout nesting) where
  empty := fun _ _ => rfl
  comma := fun _ _ _ => rfl
  begins := by
    intro item rest following exact
    refine blank.head?_append (by decide) (by decide) ?_ nesting
    intro character first equal
    have shape := ofChar?_renderOnto exact layout nesting (itemsOnto layout nesting [','] rest following)
    rw [Option.mem_def.mp first, equal] at shape
    cases shape

theorem fieldsOnto_separated (blank : layout.Blank) (nesting : Nat) :
    Separated (fun _ => True) '\x7d' (fieldsOnto layout nesting) where
  empty := fun _ _ => rfl
  comma := fun _ _ _ => rfl
  begins := by
    intro field rest following _
    refine blank.head?_append (by decide) (by decide) ?_ nesting
    intro character first
    cases first
    decide

/-!
## Texts of documents
-/

mutual

/-- Texts that go on in different ways may start with documents, and do so with one document only. -/
theorem renderOnto_inj (blank : layout.Blank) {nesting : Nat} {following after : List Char} :
    (document other : Document) → document.Exact → other.Exact →
    Settled following → Settled after →
    document.renderOnto layout nesting following = other.renderOnto layout nesting after →
    document = other ∧ following = after
  | .null, other, exact, otherExact, _, _, same => by
      -- The first characters settle the constructor of the other document.
      have shapes := shape_eq_of_renderOnto_eq exact otherExact same
      cases other with
      | null =>
          cases same
          exact ⟨rfl, rfl⟩
      | double double => cases otherExact
      | _ => cases shapes
  | .bool value, other, exact, otherExact, _, _, same => by
      have shapes := shape_eq_of_renderOnto_eq exact otherExact same
      cases other with
      | bool another =>
          cases shapes
          cases value <;> cases same <;> exact ⟨rfl, rfl⟩
      | double double => cases otherExact
      | _ => cases shapes
  | .integer number, other, exact, otherExact, settled, otherSettled, same => by
      have shapes := shape_eq_of_renderOnto_eq exact otherExact same
      cases other with
      | integer another =>
          obtain ⟨rfl, rest⟩ := repr_append_inj settled otherSettled same
          exact ⟨rfl, rest⟩
      | double double => cases otherExact
      | _ => cases shapes
  | .double _, _, exact, _, _, _, _ => by cases exact
  | .string text, other, exact, otherExact, _, _, same => by
      have shapes := shape_eq_of_renderOnto_eq exact otherExact same
      cases other with
      | string another =>
          obtain ⟨rfl, rest⟩ := quoted_inj same
          exact ⟨rfl, rest⟩
      | double double => cases otherExact
      | _ => cases shapes
  | .list items, other, exact, otherExact, _, _, same => by
      have shapes := shape_eq_of_renderOnto_eq exact otherExact same
      cases other with
      | list others =>
          have commas := (itemsOnto_separated blank _).commas_of_eq (AllExact.head exact)
            (AllExact.head otherExact) (List.tail_eq_of_cons_eq same)
          have closed := blank.closing_closed ']' (by decide) nesting
          obtain ⟨rfl, ended⟩ :=
            itemsOnto_inj blank items others exact otherExact (closed _ _) (closed _ _) commas
          exact ⟨rfl, closing_inj ended⟩
      | double double => cases otherExact
      | _ => cases shapes
  | .record fields, other, exact, otherExact, _, _, same => by
      have shapes := shape_eq_of_renderOnto_eq exact otherExact same
      cases other with
      | record others =>
          have commas := (fieldsOnto_separated blank _).commas_of_eq (fun _ _ => trivial)
            (fun _ _ => trivial) (List.tail_eq_of_cons_eq same)
          have closed := blank.closing_closed '\x7d' (by decide) nesting
          obtain ⟨rfl, ended⟩ :=
            fieldsOnto_inj blank fields others exact otherExact (closed _ _) (closed _ _) commas
          exact ⟨rfl, closing_inj ended⟩
      | double double => cases otherExact
      | _ => cases shapes

theorem itemsOnto_inj (blank : layout.Blank) {nesting : Nat} {following after : List Char} :
    (items others : List Document) → AllExact items → AllExact others →
    Closed following → Closed after →
    itemsOnto layout nesting [','] items following = itemsOnto layout nesting [','] others after →
    items = others ∧ following = after
  | [], [], _, _, _, _, same => ⟨rfl, same⟩
  | [], other :: others, _, _, closed, _, same => absurd same closed.ne_comma
  | item :: rest, [], _, _, _, closed, same => absurd same.symm closed.ne_comma
  | item :: rest, other :: others, ⟨exact, restExact⟩, ⟨otherExact, othersExact⟩, closed,
      otherClosed, same => by
      obtain ⟨rfl, tails⟩ := item.renderOnto_inj blank other exact otherExact
        ((itemsOnto_separated blank _).settled rest closed)
        ((itemsOnto_separated blank _).settled others otherClosed) (List.append_cancel_left same)
      obtain ⟨rfl, ended⟩ :=
        itemsOnto_inj blank rest others restExact othersExact closed otherClosed tails
      exact ⟨rfl, ended⟩

theorem fieldsOnto_inj (blank : layout.Blank) {nesting : Nat} {following after : List Char} :
    (fields others : List (String × Document)) → FieldsExact fields → FieldsExact others →
    Closed following → Closed after →
    fieldsOnto layout nesting [','] fields following =
      fieldsOnto layout nesting [','] others after →
    fields = others ∧ following = after
  | [], [], _, _, _, _, same => ⟨rfl, same⟩
  | [], other :: others, _, _, closed, _, same => absurd same closed.ne_comma
  | field :: rest, [], _, _, _, closed, same => absurd same.symm closed.ne_comma
  | (key, content) :: rest, (otherKey, otherContent) :: others, ⟨exact, restExact⟩,
      ⟨otherExact, othersExact⟩, closed, otherClosed, same => by
      obtain ⟨rfl, contents⟩ := quoted_inj (List.append_cancel_left same)
      obtain ⟨rfl, tails⟩ := content.renderOnto_inj blank otherContent exact otherExact
        ((fieldsOnto_separated blank _).settled rest closed)
        ((fieldsOnto_separated blank _).settled others otherClosed)
        (List.append_cancel_left contents)
      obtain ⟨rfl, ended⟩ :=
        fieldsOnto_inj blank rest others restExact othersExact closed otherClosed tails
      exact ⟨rfl, ended⟩

end

private theorem ofList_renderOnto_inj (blank : layout.Blank) {document other : Document}
    (exact : document.Exact) (otherExact : other.Exact)
    (same : String.ofList (document.renderOnto layout 0 []) =
      String.ofList (other.renderOnto layout 0 [])) : document = other := by
  have settled : Settled [] := fun _ none => by cases none
  exact (document.renderOnto_inj blank other exact otherExact settled settled
    (String.ofList_inj.mp same)).1

/-- A document without doubles is known from its text. -/
theorem pretty_inj {document other : Document} (exact : document.Exact)
    (otherExact : other.Exact) (same : document.pretty = other.pretty) : document = other :=
  ofList_renderOnto_inj Layout.blank_pretty exact otherExact same

/-- On one line a document without doubles is known from its text, too. -/
theorem compact_inj {document other : Document} (exact : document.Exact)
    (otherExact : other.Exact) (same : document.compact = other.compact) : document = other :=
  ofList_renderOnto_inj Layout.blank_compact exact otherExact same

end Document

end BytecodeObject.Json
