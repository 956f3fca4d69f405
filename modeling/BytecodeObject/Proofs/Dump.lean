import BytecodeObject.Proofs.Json.Unambiguous
import BytecodeObject.Proofs.Utf8
import BytecodeObject.Proofs.Writable
import BytecodeObject.Stream.Dump

/-!
# What a dump tells

The dump of a stream leaves out nothing but what the bytes of a text hold beyond its characters. Two
streams without doubles have one dump exactly where they are the same with every text replaced by its
characters.
-/

set_option autoImplicit false

namespace BytecodeObject

open Json (Document)

/-!
## Streams as far as they can be seen
-/

def Text.legible (text : Text) : Text :=
  .ofString text.lossy

def AtomTable.legible (table : AtomTable) : AtomTable :=
  .ofStrings (table.dynamic.map Text.lossy)

mutual

def Value.legible : Value → Value
  | .string text => .string text.legible
  | .function ⟨frame, constants⟩ => .function ⟨frame, Value.allLegible constants⟩
  | .null => .null
  | .undefined => .undefined
  | .bool value => .bool value
  | .int32 number => .int32 number
  | .float64 double => .float64 double
termination_by structural value => value

def Value.allLegible : List Value → List Value
  | [] => []
  | value :: rest => value.legible :: Value.allLegible rest
termination_by structural values => values

end

/-- The stream with every text replaced by its characters. -/
def ObjectStream.legible (stream : ObjectStream) : ObjectStream where
  atoms := stream.atoms.legible
  value := stream.value.legible

theorem Text.lossy_legible (text : Text) : text.legible.lossy = text.lossy :=
  Utf8.lossy_encode text.lossy

theorem Text.dump_legible (text : Text) : text.legible.dump = text.dump := by
  rw [dump, lossy_legible, dump]

theorem AtomTable.dump_legible (table : AtomTable) : table.legible.dump = table.dump := by
  have texts : table.legible.dynamic.map Text.dump = table.dynamic.map Text.dump := by
    simp only [legible, ofStrings, List.map_map]
    exact List.map_congr_left fun text _ => text.dump_legible
  rw [dump, texts, dump]

mutual

theorem Value.dump_legible : (value : Value) → value.legible.dump = value.dump
  | .string text => by rw [Value.legible, Value.dump, text.dump_legible, Value.dump]
  | .function ⟨frame, constants⟩ => by
      rw [Value.legible, Value.dump, Value.dumpAll_legible constants, Value.dump]
  | .null | .undefined | .bool _ | .int32 _ | .float64 _ => rfl

private theorem Value.dumpAll_legible : (values : List Value) →
    Value.dumpAll (Value.allLegible values) = Value.dumpAll values
  | [] => rfl
  | value :: rest => by
      rw [Value.allLegible, Value.dumpAll, value.dump_legible, Value.dumpAll_legible rest,
        Value.dumpAll]

end

/-- A dump shows no more of a stream than its characters. -/
theorem ObjectStream.dump_legible (stream : ObjectStream) : stream.legible.dump = stream.dump := by
  rw [dump, legible, AtomTable.dump_legible, Value.dump_legible, dump]

/-!
## Documents that tell their origin
-/

namespace Json.Document

variable {α : Type}

private theorem nat_inj {left right : Nat} (same : nat left = nat right) : left = right :=
  Int.ofNat.inj (integer.inj same)

private theorem variant_inj {name other : String} {content another : Document}
    (same : variant name content = variant other another) : name = other ∧ content = another := by
  cases same
  exact ⟨rfl, rfl⟩

private theorem bytes_inj {left right : List UInt8} (same : bytes left = bytes right) : left = right :=
  (List.map_inj_right fun _ _ equal => UInt8.toNat_inj.mp (nat_inj equal)).mp (list.inj same)

private theorem word_inj {left right : UInt32} (same : nat left.toNat = nat right.toNat) : left = right :=
  UInt32.toNat_inj.mp (nat_inj same)

private theorem option_inj {document : α → Document} {left right : Option α}
    (same : option document left = option document right)
    (present : ∀ value, document value ≠ .null)
    (tells : ∀ {left right}, document left = document right → left = right) : left = right := by
  cases left with
  | none =>
      cases right with
      | none => rfl
      | some value => exact absurd same.symm (present value)
  | some value =>
      cases right with
      | none => exact absurd same (present value)
      | some other => rw [tells same]

private theorem list_map_inj {document : α → Document} {left right : List α}
    (same : list (left.map document) = list (right.map document))
    (tells : ∀ {left right}, document left = document right → left = right) : left = right :=
  (List.map_inj_right fun _ _ equal => tells equal).mp (list.inj same)

end Json.Document

open Json.Document

theorem Atom.dump_inj {left right : Atom} (same : left.dump = right.dump) : left = right := by
  cases left with
  | int number =>
      cases right with
      | int other =>
          obtain ⟨_, content⟩ := variant_inj same
          rw [word_inj content]
      | string index text => exact absurd (variant_inj same).1 (by decide)
  | string index text =>
      cases right with
      | int other => exact absurd (variant_inj same).1 (by decide)
      | string other another =>
          obtain ⟨_, content⟩ := variant_inj same
          simp only [Document.record.injEq, List.cons.injEq, Prod.mk.injEq, true_and, and_true,
            Document.string.injEq] at content
          rw [word_inj content.1, content.2]

def VarKind.ofDump? : Document → Option VarKind
  | .string "Normal" => some .normal
  | .string "FunctionDecl" => some .functionDecl
  | .string "NewFunctionDecl" => some .newFunctionDecl
  | .string "Catch" => some .catchParameter
  | .string "FunctionName" => some .functionName
  | .string "PrivateField" => some .privateField
  | .string "PrivateMethod" => some .privateMethod
  | .string "PrivateGetter" => some .privateGetter
  | .string "PrivateSetter" => some .privateSetter
  | .string "PrivateGetterSetter" => some .privateGetterSetter
  | .record [(_, .integer number)] => some (.reserved (UInt8.ofNat number.toNat))
  | _ => none

private theorem VarKind.ofDump?_dump (kind : VarKind) : ofDump? kind.dump = some kind := by
  cases kind with
  | reserved number =>
      change some (reserved (UInt8.ofNat number.toNat)) = _
      rw [UInt8.ofNat_toNat]
  | _ => rfl

/-- Reserved kinds are told apart by their whole number. -/
theorem VarKind.dump_inj {left right : VarKind} (same : left.dump = right.dump) : left = right := by
  have kinds := congrArg ofDump? same
  rw [ofDump?_dump, ofDump?_dump] at kinds
  exact Option.some.inj kinds

theorem VarDef.dump_inj {left right : VarDef} (same : left.dump = right.dump) : left = right := by
  simp only [dump, Document.record.injEq, List.cons.injEq, Prod.mk.injEq, true_and, and_true,
    Document.bool.injEq] at same
  obtain ⟨name, level, next, kind, flags⟩ := same
  cases left
  cases right
  rw [VarDef.mk.injEq]
  exact ⟨Atom.dump_inj name, word_inj level, option_inj next (fun _ => nofun) word_inj,
    VarKind.dump_inj kind, flags⟩

theorem ClosureVar.dump_inj {left right : ClosureVar} (same : left.dump = right.dump) :
    left = right := by
  simp only [dump, Document.record.injEq, List.cons.injEq, Prod.mk.injEq, true_and, and_true,
    Document.bool.injEq] at same
  obtain ⟨name, index, isLocal, isArgument, isConst, isLexical, kind⟩ := same
  cases left
  cases right
  rw [ClosureVar.mk.injEq]
  exact ⟨Atom.dump_inj name, word_inj index, isLocal, isArgument, isConst, isLexical,
    VarKind.dump_inj kind⟩

theorem DebugInfo.dump_inj {left right : DebugInfo} (same : left.dump = right.dump) :
    left = right := by
  simp only [dump, Document.record.injEq, List.cons.injEq, Prod.mk.injEq, true_and,
    and_true] at same
  obtain ⟨file, line, lines⟩ := same
  cases left
  cases right
  rw [DebugInfo.mk.injEq]
  exact ⟨Atom.dump_inj file, word_inj line, bytes_inj lines⟩

/-- A frame and the documents of its constants are known from its dump. -/
theorem Frame.dump_inj {left right : Frame} {constants others : List Document}
    (same : left.dump constants = right.dump others) : left = right ∧ constants = others := by
  simp only [dump, Document.record.injEq, List.cons.injEq, Prod.mk.injEq, true_and,
    and_true] at same
  obtain ⟨flags, mode, name, argCount, varCount, definedArgCount, stackSize, locals, closureVars,
    code, pool, debug⟩ := same
  refine ⟨?_, list.inj pool⟩
  cases left
  cases right
  rw [Frame.mk.injEq, FunctionFlags.mk.injEq]
  exact ⟨UInt16.toNat_inj.mp (nat_inj flags), UInt8.toNat_inj.mp (nat_inj mode),
    Atom.dump_inj name, word_inj argCount, word_inj varCount, word_inj definedArgCount,
    word_inj stackSize, list_map_inj locals VarDef.dump_inj,
    list_map_inj closureVars ClosureVar.dump_inj, bytes_inj code,
    option_inj debug (fun _ => nofun) DebugInfo.dump_inj⟩

theorem Text.legible_eq_of_dump_eq {left right : Text} (same : left.dump = right.dump) :
    left.legible = right.legible := by
  rw [legible, legible, string.inj same]

theorem AtomTable.legible_eq_of_dump_eq {left right : AtomTable} (same : left.dump = right.dump) :
    left.legible = right.legible := by
  simp only [dump, Document.record.injEq, List.cons.injEq, Prod.mk.injEq, true_and, and_true,
    Document.list.injEq] at same
  have texts (table : AtomTable) :
      table.dynamic.map Text.dump = (table.dynamic.map Text.lossy).map Document.string := by
    rw [List.map_map]
    rfl
  rw [texts, texts, List.map_inj_right fun _ _ => string.inj] at same
  rw [legible, legible, same]

def Value.label : Value → String
  | .null => "Null"
  | .undefined => "Undefined"
  | .bool _ => "Bool"
  | .int32 _ => "Int32"
  | .float64 _ => "Float64"
  | .string _ => "String"
  | .function _ => "FunctionBytecode"

def Json.Document.label? : Document → Option String
  | .string name | .record ((name, _) :: _) => some name
  | _ => none

private theorem Value.label?_dump (value : Value) : value.dump.label? = some value.label := by
  cases value <;> rfl

private theorem Value.label_eq_of_dump_eq {left right : Value} (same : left.dump = right.dump) :
    left.label = right.label := by
  have labels := congrArg Document.label? same
  rw [label?_dump, label?_dump] at labels
  exact Option.some.inj labels

mutual

/-- Values with one dump agree in all but the bytes of their texts. -/
theorem Value.legible_eq_of_dump_eq : (left right : Value) → left.dump = right.dump →
    left.legible = right.legible
  | .null, right, same => by
      -- The label settles the alternative of the other value, so that one case is left for each.
      have labels := label_eq_of_dump_eq same
      cases right with
      | null => rfl
      | _ => simp [Value.label] at labels
  | .undefined, right, same => by
      have labels := label_eq_of_dump_eq same
      cases right with
      | undefined => rfl
      | _ => simp [Value.label] at labels
  | .bool value, right, same => by
      have labels := label_eq_of_dump_eq same
      cases right with
      | bool other =>
          cases same
          rfl
      | _ => simp [Value.label] at labels
  | .int32 number, right, same => by
      have labels := label_eq_of_dump_eq same
      cases right with
      | int32 other =>
          rw [Int32.toInt_inj.mp (integer.inj (variant_inj same).2)]
      | _ => simp [Value.label] at labels
  | .float64 number, right, same => by
      have labels := label_eq_of_dump_eq same
      cases right with
      | float64 other =>
          cases same
          rfl
      | _ => simp [Value.label] at labels
  | .string text, right, same => by
      have labels := label_eq_of_dump_eq same
      cases right with
      | string other =>
          rw [Value.legible, Value.legible, Text.legible_eq_of_dump_eq (variant_inj same).2]
      | _ => simp [Value.label] at labels
  | .function ⟨frame, constants⟩, right, same => by
      have labels := label_eq_of_dump_eq same
      cases right with
      | function body =>
          obtain ⟨other, others⟩ := body
          obtain ⟨rfl, pools⟩ := Frame.dump_inj (variant_inj same).2
          rw [Value.legible, Value.legible, Value.allLegible_eq_of_dumpAll_eq constants others pools]
      | _ => simp [Value.label] at labels

private theorem Value.allLegible_eq_of_dumpAll_eq : (left right : List Value) →
    Value.dumpAll left = Value.dumpAll right → Value.allLegible left = Value.allLegible right
  | [], [], _ => rfl
  | [], right :: rights, same => by cases same
  | left :: lefts, [], same => by cases same
  | left :: lefts, right :: rights, same => by
      obtain ⟨head, tail⟩ := List.cons.inj same
      rw [Value.allLegible, Value.allLegible, left.legible_eq_of_dump_eq right head,
        Value.allLegible_eq_of_dumpAll_eq lefts rights tail]

end

/-!
## Dumps without doubles
-/

namespace Json.Document

variable {α : Type} {document : α → Document}

private theorem allExact_map (each : ∀ value, (document value).Exact) (values : List α) :
    AllExact (values.map document) := by
  induction values with
  | nil => exact trivial
  | cons value rest restIH => exact ⟨each value, restIH⟩

private theorem nat_exact (number : Nat) : (nat number).Exact :=
  trivial

private theorem bytes_exact (values : List UInt8) : (bytes values).Exact :=
  allExact_map (fun byte : UInt8 => nat_exact byte.toNat) values

private theorem option_exact (each : ∀ value, (document value).Exact) (value? : Option α) :
    (option document value?).Exact := by
  cases value? with
  | none => exact trivial
  | some value => exact each value

end Json.Document

theorem Text.dump_exact (text : Text) : text.dump.Exact :=
  trivial

theorem Atom.dump_exact (atom : Atom) : atom.dump.Exact := by
  cases atom <;> simp [dump, variant, nat, Document.Exact, FieldsExact]

theorem VarKind.dump_exact (kind : VarKind) : kind.dump.Exact := by
  cases kind <;> simp [dump, variant, nat, Document.Exact, FieldsExact]

theorem VarDef.dump_exact (varDef : VarDef) : varDef.dump.Exact :=
  ⟨varDef.name.dump_exact, trivial, option_exact (fun next : UInt32 => nat_exact next.toNat) _,
    varDef.kind.dump_exact, trivial, trivial, trivial, trivial⟩

theorem ClosureVar.dump_exact (capture : ClosureVar) : capture.dump.Exact :=
  ⟨capture.name.dump_exact, trivial, trivial, trivial, trivial, trivial, capture.kind.dump_exact,
    trivial⟩

theorem DebugInfo.dump_exact (debug : DebugInfo) : debug.dump.Exact :=
  ⟨debug.fileName.dump_exact, trivial, bytes_exact debug.lineTable, trivial⟩

theorem Frame.dump_exact (frame : Frame) {constants : List Document} (exact : AllExact constants) :
    (frame.dump constants).Exact :=
  ⟨trivial, trivial, frame.name.dump_exact, trivial, trivial, trivial, trivial,
    allExact_map VarDef.dump_exact _, allExact_map ClosureVar.dump_exact _, bytes_exact frame.code,
    exact, option_exact DebugInfo.dump_exact _, trivial⟩

mutual

theorem Value.dump_exact : (value : Value) →
    (∀ depth number, ¬value.Holds depth (.float64 number)) → value.dump.Exact
  | .null, _ | .undefined, _ => trivial
  | .bool _, _ | .int32 _, _ | .string _, _ => ⟨trivial, trivial⟩
  | .float64 number, exact => absurd (.self _) (exact 0 number)
  | .function ⟨frame, constants⟩, exact =>
      have pool := Value.dumpAll_exact constants fun _ member depth number held =>
        exact (depth + 1) number (.constant member held)
      ⟨frame.dump_exact pool, trivial⟩

private theorem Value.dumpAll_exact : (values : List Value) →
    (∀ value ∈ values, ∀ depth number, ¬value.Holds depth (.float64 number)) →
    AllExact (Value.dumpAll values)
  | [], _ => trivial
  | value :: rest, exact =>
      ⟨value.dump_exact (exact value List.mem_cons_self),
        Value.dumpAll_exact rest fun other member => exact other (List.mem_cons_of_mem value member)⟩

end

namespace ObjectStream

/-- A stream without doubles has none in its dump. -/
theorem dump_exact {stream : ObjectStream}
    (exact : ∀ depth number, ¬stream.value.Holds depth (.float64 number)) : stream.dump.Exact :=
  ⟨⟨allExact_map Text.dump_exact _, trivial⟩, stream.value.dump_exact exact, trivial⟩

/-- Streams have one document exactly where they agree as far as they can be seen. -/
theorem dump_eq_iff {left right : ObjectStream} :
    left.dump = right.dump ↔ left.legible = right.legible := by
  constructor
  · intro same
    simp only [dump, Document.record.injEq, List.cons.injEq, Prod.mk.injEq, true_and,
      and_true] at same
    obtain ⟨atoms, value⟩ := same
    rw [legible, legible, AtomTable.legible_eq_of_dump_eq atoms,
      left.value.legible_eq_of_dump_eq right.value value]
  · intro same
    rw [← left.dump_legible, same, right.dump_legible]

/-- Without doubles, streams have one dump exactly where they agree in all but the bytes of texts that have
the same characters. -/
theorem pretty_dump_eq_iff {left right : ObjectStream}
    (leftExact : ∀ depth number, ¬left.value.Holds depth (.float64 number))
    (rightExact : ∀ depth number, ¬right.value.Holds depth (.float64 number)) :
    left.dump.pretty = right.dump.pretty ↔ left.legible = right.legible := by
  rw [← dump_eq_iff]
  exact ⟨pretty_inj (dump_exact leftExact) (dump_exact rightExact), congrArg Document.pretty⟩

def shown (text : Text) (kind : VarKind) : ObjectStream where
  atoms := ⟨[text]⟩
  value := .function {
    name := .int 7, locals := [{ name := .string 54 "name", kind }], constants := [.string text] }

private theorem shown_exact (text : Text) (kind : VarKind) (depth : Nat) (number : Double) :
    ¬(shown text kind).value.Holds depth (.float64 number) := by
  intro held
  cases held with
  | constant member held =>
      cases List.mem_singleton.mp member
      cases held

/-- A byte that is not UTF-8 cannot be told from a replacement character, but other characters can, and so
can a kind from a reserved one that is stored alike. -/
theorem shown_dumps :
    let broken : Text := ⟨true, .ofList [0xFF]⟩
    let replaced : Text := .ofString "\uFFFD"
    broken ≠ replaced ∧ (VarKind.reserved 16).code = VarKind.normal.code ∧
      (shown broken .normal).dump.pretty = (shown replaced .normal).dump.pretty ∧
      (shown broken .normal).dump.pretty ≠ (shown broken (.reserved 16)).dump.pretty ∧
      (shown (.ofString "a") .normal).dump.pretty ≠ (shown (.ofString "b") .normal).dump.pretty := by
  intro broken replaced
  have same : (shown broken .normal).legible = (shown replaced .normal).legible := by
    change shown broken.legible .normal = shown replaced.legible .normal
    have characters : broken.lossy = replaced.lossy := by decide
    rw [Text.legible, Text.legible, characters]
  have different : (shown broken .normal).legible ≠ (shown broken (.reserved 16)).legible := by
    intro equal
    cases equal
  have apart : (shown (.ofString "a") .normal).legible ≠ (shown (.ofString "b") .normal).legible := by
    intro equal
    have listed := congrArg (fun stream => stream.atoms.dynamic.map Text.lossy) equal
    change [Utf8.lossy (Utf8.encode (Text.ofString "a").lossy)] =
      [Utf8.lossy (Utf8.encode (Text.ofString "b").lossy)] at listed
    rw [Utf8.lossy_encode, Utf8.lossy_encode] at listed
    exact absurd (List.head_eq_of_cons_eq listed) (by decide)
  refine ⟨by decide, rfl, ?_, ?_, ?_⟩
  · exact (pretty_dump_eq_iff (shown_exact broken .normal) (shown_exact replaced .normal)).mpr same
  · exact fun equal => different
      ((pretty_dump_eq_iff (shown_exact broken .normal) (shown_exact broken _)).mp equal)
  · exact fun equal => apart ((pretty_dump_eq_iff (shown_exact _ _) (shown_exact _ _)).mp equal)

end ObjectStream

end BytecodeObject
