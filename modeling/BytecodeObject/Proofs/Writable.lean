import BytecodeObject.Proofs.RoundTrip

/-!
# What can be written

A stream is encoded exactly where the options, its own atoms and the widths of the format allow all of
it, however deep its parts stand. Where it is refused, the fault names something in it that they do not
allow.
-/

set_option autoImplicit false

namespace BytecodeObject

/-!
## Emissions and their flaws
-/

namespace Emission

theorem fault?_append_eq_some {left right : Emission} {fault : Fault}
    (ended : (left ++ right).fault? = some fault) :
    left.fault? = some fault ∨ right.fault? = some fault := by
  rw [fault?_append, Option.or_eq_some_iff] at ended
  exact ended.imp_right And.right

/-- An emission is complete where there is no flaw, and otherwise ends in the fault of one. -/
structure RefusedFor (emission : Emission) (flaws : Fault → Prop) : Prop where
  flawless : emission.fault? = none → ∀ fault, ¬flaws fault
  flawed : ∀ fault, emission.fault? = some fault → flaws fault

namespace RefusedFor

variable {emission left right : Emission} {flaws leftFlaws rightFlaws : Fault → Prop}

theorem complete_iff (refused : emission.RefusedFor flaws) :
    emission.fault? = none ↔ ∀ fault, ¬flaws fault := by
  constructor
  · exact refused.flawless
  · intro flawless
    cases ended : emission.fault? with
    | none => rfl
    | some fault => exact absurd (refused.flawed fault ended) (flawless fault)

theorem congr {others : Fault → Prop} (refused : emission.RefusedFor flaws)
    (same : ∀ fault, flaws fault ↔ others fault) : emission.RefusedFor others where
  flawless := fun complete fault flaw => refused.flawless complete fault ((same fault).mpr flaw)
  flawed := fun fault ended => (same fault).mp (refused.flawed fault ended)

theorem of_complete (complete : emission.fault? = none) (flawless : ∀ fault, ¬flaws fault) :
    emission.RefusedFor flaws where
  flawless := fun _ => flawless
  flawed := by
    intro fault ended
    rw [complete] at ended
    cases ended

theorem of_fail {fault : Fault} (flaw : flaws fault) : (fail fault).RefusedFor flaws where
  flawless := by
    intro complete
    cases complete
  flawed := by
    intro found ended
    cases ended
    exact flaw

theorem check {condition : Prop} [Decidable condition] {fault : Fault}
    (refused : emission.RefusedFor flaws) :
    (if condition then emission else fail fault).RefusedFor
      fun found => ¬condition ∧ found = fault ∨ flaws found := by
  by_cases kept : condition
  · rw [if_pos kept]
    exact refused.congr fun found => (or_iff_right fun broken => broken.1 kept).symm
  · rw [if_neg kept]
    exact .of_fail (.inl ⟨kept, rfl⟩)

theorem guard {condition : Prop} [Decidable condition] {fault : Fault}
    (complete : emission.fault? = none) :
    (if condition then emission else fail fault).RefusedFor
      fun found => ¬condition ∧ found = fault :=
  have plain : emission.RefusedFor fun _ => False := .of_complete complete fun _ => id
  plain.check.congr fun _ => .of_eq (or_false _)

/-- The first fault of two parts is that of the first, or else of the second. -/
theorem append (first : left.RefusedFor leftFlaws) (second : right.RefusedFor rightFlaws) :
    (left ++ right).RefusedFor fun fault => leftFlaws fault ∨ rightFlaws fault where
  flawless := by
    intro complete fault flaw
    obtain ⟨leftComplete, rightComplete⟩ := fault?_append_eq_none.mp complete
    rcases flaw with flaw | flaw
    · exact first.flawless leftComplete fault flaw
    · exact second.flawless rightComplete fault flaw
  flawed := by
    intro fault ended
    exact (fault?_append_eq_some ended).imp (first.flawed fault) (second.flawed fault)

theorem append_complete (first : left.RefusedFor flaws) (complete : right.fault? = none) :
    (left ++ right).RefusedFor flaws :=
  (first.append (.of_complete complete fun _ => id)).congr fun _ => .of_eq (or_false _)

theorem complete_append (complete : left.fault? = none) (second : right.RefusedFor flaws) :
    (left ++ right).RefusedFor flaws :=
  (append (.of_complete complete fun _ => id) second).congr fun _ => .of_eq (false_or _)

theorem concat {α : Type} {emit : α → Emission} {flaws : α → Fault → Prop} {values : List α}
    (each : ∀ value ∈ values, (emit value).RefusedFor (flaws value)) :
    (Emission.concat (values.map emit)).RefusedFor
      fun fault => ∃ value ∈ values, flaws value fault := by
  induction values with
  | nil => exact .of_complete rfl fun _ ⟨_, member, _⟩ => nomatch member
  | cons value values valuesIH =>
      have first := each value List.mem_cons_self
      have later := valuesIH fun other member => each other (List.mem_cons_of_mem value member)
      refine (first.append later).congr fun fault => ?_
      simp only [List.mem_cons, exists_eq_or_imp]

end RefusedFor

end Emission

/-!
## What a stream must satisfy
-/

/-- An atom that can be written: a number that stays inline, or a text that the table holds under the
same id. -/
def Atom.Writable (table : AtomTable) : Atom → Prop
  | .int number => number.toNat ≤ maxInline
  | .string index text => table.resolve index = .ok text

def Atom.number : Atom → UInt32
  | .int number => number
  | .string index _ => index

namespace Frame

def atoms (frame : Frame) : List Atom :=
  frame.name :: (frame.locals.map VarDef.name ++ frame.closureVars.map ClosureVar.name ++
    (frame.debug?.map DebugInfo.fileName).toList)

def lengths (frame : Frame) (constantCount : Nat) : List (String × Nat) :=
  ("closure vars", frame.closureVars.length) :: ("constant pool", constantCount) ::
    ("bytecode", frame.code.length) :: ("locals", frame.locals.length) ::
    (frame.debug?.map fun debug => ("pc2line", debug.lineTable.length)).toList

structure Writable (table : AtomTable) (frame : Frame) (constantCount : Nat) : Prop where
  debug : frame.flags.hasDebug = frame.debug?.isSome
  atoms : ∀ atom ∈ frame.atoms, atom.Writable table
  scopes : ∀ varDef ∈ frame.locals, varDef.scopeNext? ≠ some 0xFFFFFFFF
  lengths : ∀ what length, (what, length) ∈ frame.lengths constantCount → length < UInt32.size

/-- What keeps a frame from being written, and the fault that says so. -/
inductive Flaw (table : AtomTable) (frame : Frame) (constantCount : Nat) : Fault → Prop where
  | debug (disagrees : frame.flags.hasDebug ≠ frame.debug?.isSome) :
      Flaw table frame constantCount .debugFlagMismatch
  | atom {atom : Atom} (named : atom ∈ frame.atoms) (foreign : ¬atom.Writable table) :
      Flaw table frame constantCount (.atomMismatch atom.number)
  | scope {varDef : VarDef} (declared : varDef ∈ frame.locals)
      (last : varDef.scopeNext? = some 0xFFFFFFFF) :
      Flaw table frame constantCount (.lengthOverflow "scope next" 0xFFFFFFFF)
  | length {what : String} {length : Nat} (counted : (what, length) ∈ frame.lengths constantCount)
      (large : UInt32.size ≤ length) :
      Flaw table frame constantCount (.lengthOverflow what length)

end Frame

namespace Value

/-- A value holds itself, enclosed by no function, and what its constants hold, enclosed by one
function more. -/
inductive Holds : Value → Nat → Value → Prop where
  | self (value : Value) : Holds value 0 value
  | constant {function : Function Value} {constant node : Value} {depth : Nat}
      (member : constant ∈ function.constants) (held : Holds constant depth node) :
      Holds (.function function) (depth + 1) node

inductive Flaw (options : Options) (table : AtomTable) (depth : Nat) : Value → Fault → Prop where
  | long {text : Text} (long : Text.maxSize < text.payload.size) :
      Flaw options table depth (.string text) (.lengthOverflow "string" text.payload.size)
  | forbidden {function : Function Value} (forbidden : options.allowBytecode = false) :
      Flaw options table depth (.function function) .bytecodeNotAllowed
  | deep {function : Function Value} (deep : options.maxDepth ≤ depth) :
      Flaw options table depth (.function function) (.depthLimitExceeded options.maxDepth)
  | frame {function : Function Value} {fault : Fault}
      (flaw : function.toFrame.Flaw table function.constants.length fault) :
      Flaw options table depth (.function function) fault

end Value

namespace ObjectStream

structure Writable (options : Options) (stream : ObjectStream) : Prop where
  atomCount : stream.atoms.dynamic.length < UInt32.size
  atomSizes : ∀ text ∈ stream.atoms.dynamic, text.payload.size ≤ Text.maxSize
  strings : ∀ depth text, stream.value.Holds depth (.string text) →
    text.payload.size ≤ Text.maxSize
  functions : ∀ depth function, stream.value.Holds depth (.function function) →
    options.allowBytecode = true ∧ depth < options.maxDepth ∧
      function.toFrame.Writable stream.atoms function.constants.length

inductive Flaw (options : Options) (stream : ObjectStream) : Fault → Prop where
  | atomCount (large : UInt32.size ≤ stream.atoms.dynamic.length) :
      Flaw options stream (.lengthOverflow "atom table" stream.atoms.dynamic.length)
  | atomSize {text : Text} (listed : text ∈ stream.atoms.dynamic)
      (long : Text.maxSize < text.payload.size) :
      Flaw options stream (.lengthOverflow "string" text.payload.size)
  | value {depth : Nat} {node : Value} {fault : Fault} (held : stream.value.Holds depth node)
      (flaw : node.Flaw options stream.atoms depth fault) : Flaw options stream fault

end ObjectStream

/-!
## Where there is no flaw
-/

private theorem Frame.mem_atoms {frame : Frame} {atom : Atom} :
    atom ∈ frame.atoms ↔ atom = frame.name ∨ (∃ varDef ∈ frame.locals, varDef.name = atom) ∨
      (∃ capture ∈ frame.closureVars, capture.name = atom) ∨
      ∃ debug, frame.debug? = some debug ∧ debug.fileName = atom := by
  simp only [atoms, List.mem_cons, List.mem_append, List.mem_map, Option.mem_toList,
    Option.map_eq_some_iff, or_assoc]

private theorem Frame.mem_lengths {frame : Frame} {constantCount length : Nat} {what : String} :
    (what, length) ∈ frame.lengths constantCount ↔
      (what = "closure vars" ∧ length = frame.closureVars.length) ∨
      (what = "constant pool" ∧ length = constantCount) ∨
      (what = "bytecode" ∧ length = frame.code.length) ∨
      (what = "locals" ∧ length = frame.locals.length) ∨
      ∃ debug, frame.debug? = some debug ∧ "pc2line" = what ∧ debug.lineTable.length = length := by
  simp only [lengths, List.mem_cons, Option.mem_toList, Option.map_eq_some_iff,
    Prod.mk.injEq]

/-- A frame can be written exactly where it has no flaw. -/
theorem Frame.writable_iff {table : AtomTable} {frame : Frame} {constantCount : Nat} :
    frame.Writable table constantCount ↔ ∀ fault, ¬frame.Flaw table constantCount fault := by
  constructor
  · intro writable fault flaw
    cases flaw with
    | debug disagrees => exact disagrees writable.debug
    | atom named foreign => exact foreign (writable.atoms _ named)
    | scope declared last => exact writable.scopes _ declared last
    | length counted large => exact Nat.not_le_of_lt (writable.lengths _ _ counted) large
  · intro flawless
    constructor
    · exact Classical.byContradiction fun disagrees => flawless _ (.debug disagrees)
    · exact fun atom named => Classical.byContradiction fun foreign =>
        flawless _ (.atom named foreign)
    · exact fun varDef declared last => flawless _ (.scope declared last)
    · exact fun what length counted => Nat.lt_of_not_le fun large =>
        flawless _ (.length counted large)

theorem ObjectStream.writable_iff {options : Options} {stream : ObjectStream} :
    stream.Writable options ↔ ∀ fault, ¬stream.Flaw options fault := by
  constructor
  · intro writable fault flaw
    cases flaw with
    | atomCount large => exact Nat.not_le_of_lt writable.atomCount large
    | atomSize listed long => exact Nat.not_le_of_lt long (writable.atomSizes _ listed)
    | value held flaw =>
        cases flaw with
        | long long => exact Nat.not_le_of_lt long (writable.strings _ _ held)
        | forbidden forbidden =>
            rw [(writable.functions _ _ held).1] at forbidden
            cases forbidden
        | deep deep => exact Nat.not_le_of_lt (writable.functions _ _ held).2.1 deep
        | frame flaw => exact Frame.writable_iff.mp (writable.functions _ _ held).2.2 _ flaw
  · intro flawless
    constructor
    · exact Nat.lt_of_not_le fun large => flawless _ (.atomCount large)
    · exact fun text listed => Nat.le_of_not_lt fun long => flawless _ (.atomSize listed long)
    · exact fun depth text held => Nat.le_of_not_lt fun long =>
        flawless _ (.value held (.long long))
    · intro depth function held
      refine ⟨?_, ?_, ?_⟩
      · exact Bool.of_not_eq_false fun forbidden =>
          flawless _ (.value held (.forbidden forbidden))
      · exact Nat.lt_of_not_le fun deep => flawless _ (.value held (.deep deep))
      · exact Frame.writable_iff.mpr fun fault flaw => flawless fault (.value held (.frame flaw))

/-!
## Flaws of emissions
-/

theorem Text.emit_refusedFor (text : Text) :
    text.emit.RefusedFor fun fault =>
      Text.maxSize < text.payload.size ∧ fault = .lengthOverflow "string" text.payload.size :=
  (Emission.RefusedFor.guard rfl).congr fun _ => and_congr_left fun _ => Nat.not_le

private theorem Emission.length_refusedFor (what : String) (length : Nat) :
    (Emission.length what length).RefusedFor fun fault =>
      UInt32.size ≤ length ∧ fault = .lengthOverflow what length :=
  (Emission.RefusedFor.guard rfl).congr fun _ => and_congr_left fun _ => Nat.not_lt

theorem Atom.emit_refusedFor (table : AtomTable) (atom : Atom) :
    (atom.emit table).RefusedFor fun fault =>
      ¬atom.Writable table ∧ fault = .atomMismatch atom.number := by
  cases atom with
  | int number => exact .guard rfl
  | string index text =>
      refine (Emission.RefusedFor.guard rfl).congr fun fault => ?_
      rw [Writable, AtomTable.resolve_eq_ok_iff, number]

private theorem VarDef.emitScopeNext_refusedFor (next? : Option UInt32) :
    (VarDef.emitScopeNext next?).RefusedFor fun fault =>
      next? = some 0xFFFFFFFF ∧ fault = .lengthOverflow "scope next" 0xFFFFFFFF := by
  cases next? with
  | none => exact .of_complete rfl fun fault flaw => nomatch flaw.1
  | some next =>
      refine (Emission.RefusedFor.guard rfl).congr fun fault => ?_
      constructor
      · rintro ⟨large, named⟩
        have bound := next.toNat_lt_size
        have greatest : next = 0xFFFFFFFF := by
          apply UInt32.toNat_inj.mp
          change next.toNat = 4294967295
          unfold UInt32.size at large bound
          omega
        rw [greatest] at named
        exact ⟨congrArg some greatest, named⟩
      · rintro ⟨last, named⟩
        cases last
        exact ⟨by decide, named⟩

theorem VarDef.emit_refusedFor (table : AtomTable) (varDef : VarDef) :
    (varDef.emit table).RefusedFor fun fault =>
      (¬varDef.name.Writable table ∧ fault = .atomMismatch varDef.name.number) ∨
        (varDef.scopeNext? = some 0xFFFFFFFF ∧ fault = .lengthOverflow "scope next" 0xFFFFFFFF) := by
  have name := varDef.name.emit_refusedFor table
  have scope := VarDef.emitScopeNext_refusedFor varDef.scopeNext?
  exact ((name.append_complete rfl).append scope).append_complete rfl

theorem ClosureVar.emit_refusedFor (table : AtomTable) (capture : ClosureVar) :
    (capture.emit table).RefusedFor fun fault =>
      ¬capture.name.Writable table ∧ fault = .atomMismatch capture.name.number :=
  ((capture.name.emit_refusedFor table).append_complete rfl).append_complete rfl

theorem DebugInfo.emitIf_refusedFor (table : AtomTable) (debug? : Option DebugInfo) :
    (DebugInfo.emitIf table debug?).RefusedFor fun fault =>
      ∃ debug, debug? = some debug ∧
        ((¬debug.fileName.Writable table ∧ fault = .atomMismatch debug.fileName.number) ∨
          (UInt32.size ≤ debug.lineTable.length ∧
            fault = .lengthOverflow "pc2line" debug.lineTable.length)) := by
  cases debug? with
  | none => exact .of_complete rfl fun fault ⟨debug, same, _⟩ => nomatch same
  | some debug =>
      have file := debug.fileName.emit_refusedFor table
      have counted := Emission.length_refusedFor "pc2line" debug.lineTable.length
      refine (((file.append_complete rfl).append counted).append_complete rfl).congr fun fault => ?_
      simp only [Option.some.injEq, exists_eq_left']

/-- A frame is refused for its own flaws and for nothing else. -/
theorem Frame.emit_refusedFor (table : AtomTable) (frame : Frame) (constantCount : Nat) :
    (frame.emit table constantCount).RefusedFor (frame.Flaw table constantCount) := by
  have name := frame.name.emit_refusedFor table
  have closureVarCount := Emission.length_refusedFor "closure vars" frame.closureVars.length
  have constants := Emission.length_refusedFor "constant pool" constantCount
  have codeLength := Emission.length_refusedFor "bytecode" frame.code.length
  have localCount := Emission.length_refusedFor "locals" frame.locals.length
  have locals := Emission.RefusedFor.concat fun varDef (_ : varDef ∈ frame.locals) =>
    varDef.emit_refusedFor table
  have captures := Emission.RefusedFor.concat fun capture (_ : capture ∈ frame.closureVars) =>
    capture.emit_refusedFor table
  have debug := DebugInfo.emitIf_refusedFor table frame.debug?
  unfold Frame.emit
  simp only [Emission.append_assoc]
  apply Emission.RefusedFor.congr
  · apply Emission.RefusedFor.check
    -- Part by part. Fixed fields, plain integers and the code are never refused.
    iterate 2 apply Emission.RefusedFor.complete_append rfl
    apply name.append
    iterate 4 apply Emission.RefusedFor.complete_append rfl
    apply closureVarCount.append
    apply constants.append
    apply codeLength.append
    apply localCount.append
    apply locals.append
    apply captures.append
    apply Emission.RefusedFor.complete_append rfl
    exact debug
  intro fault
  constructor
  · rintro (⟨disagrees, rfl⟩ | ⟨foreign, rfl⟩ | ⟨large, rfl⟩ | ⟨large, rfl⟩ | ⟨large, rfl⟩ |
      ⟨large, rfl⟩ | ⟨varDef, declared, (⟨foreign, rfl⟩ | ⟨last, rfl⟩)⟩ |
      ⟨capture, captured, foreign, rfl⟩ | ⟨debug, present, (⟨foreign, rfl⟩ | ⟨large, rfl⟩)⟩)
    · exact .debug fun agrees => disagrees (beq_iff_eq.mpr agrees)
    · exact .atom (mem_atoms.mpr (.inl rfl)) foreign
    · exact .length (mem_lengths.mpr (.inl ⟨rfl, rfl⟩)) large
    · exact .length (mem_lengths.mpr (.inr (.inl ⟨rfl, rfl⟩))) large
    · exact .length (mem_lengths.mpr (.inr (.inr (.inl ⟨rfl, rfl⟩)))) large
    · exact .length (mem_lengths.mpr (.inr (.inr (.inr (.inl ⟨rfl, rfl⟩))))) large
    · exact .atom (mem_atoms.mpr (.inr (.inl ⟨varDef, declared, rfl⟩))) foreign
    · exact .scope declared last
    · exact .atom (mem_atoms.mpr (.inr (.inr (.inl ⟨capture, captured, rfl⟩)))) foreign
    · exact .atom (mem_atoms.mpr (.inr (.inr (.inr ⟨debug, present, rfl⟩)))) foreign
    · exact .length (mem_lengths.mpr (.inr (.inr (.inr (.inr ⟨debug, present, rfl, rfl⟩))))) large
  · -- The emission goes part by part, a flaw by the kind of what is wrong: in whatever part of the
    -- frame that is, the fault of this part is the one named.
    intro flaw
    cases flaw with
    | debug disagrees => exact .inl ⟨fun agrees => disagrees (beq_iff_eq.mp agrees), rfl⟩
    | atom named foreign =>
        rcases mem_atoms.mp named with rfl | ⟨varDef, declared, rfl⟩ | ⟨capture, captured, rfl⟩ |
          ⟨debug, present, rfl⟩ <;> grind
    | scope declared last => grind
    | length counted large =>
        rcases mem_lengths.mp counted with ⟨rfl, rfl⟩ | ⟨rfl, rfl⟩ | ⟨rfl, rfl⟩ | ⟨rfl, rfl⟩ |
          ⟨debug, present, rfl, rfl⟩ <;> grind

/-!
## Values and streams
-/

namespace Value

variable {options : Options} {table : AtomTable} {budget depth : Nat}

private theorem Holds.of_plain {value node : Value} (plain : value.function? = none)
    (held : value.Holds depth node) : depth = 0 ∧ node = value := by
  cases held with
  | self => exact ⟨rfl, rfl⟩
  | constant member held => cases plain

private theorem emit_refusedFor_plain {value : Value} (plain : value.function? = none) :
    (emit options table budget value).RefusedFor fun fault =>
      ∃ inner node, value.Holds inner node ∧ node.Flaw options table (depth + inner) fault := by
  -- Such a value holds nothing but itself, and only a text among them can be refused.
  have own : (emit options table budget value).RefusedFor (value.Flaw options table depth) := by
    cases value with
    | null => exact .of_complete rfl fun fault flaw => nomatch flaw
    | undefined => exact .of_complete rfl fun fault flaw => nomatch flaw
    | bool value => cases value <;> exact .of_complete rfl fun fault flaw => nomatch flaw
    | int32 number => exact .of_complete rfl fun fault flaw => nomatch flaw
    | float64 double => exact .of_complete rfl fun fault flaw => nomatch flaw
    | string text =>
        refine (Emission.RefusedFor.complete_append rfl text.emit_refusedFor).congr fun fault => ?_
        constructor
        · rintro ⟨long, rfl⟩
          exact .long long
        · intro flaw
          cases flaw with
          | long long => exact ⟨long, rfl⟩
    | function compiled => cases plain
  refine own.congr fun fault => ⟨fun flaw => ⟨0, value, .self value, flaw⟩, ?_⟩
  rintro ⟨inner, node, held, flaw⟩
  obtain ⟨rfl, rfl⟩ := held.of_plain plain
  exact flaw

/-- A value is refused for a flaw of something that it holds, at whatever depth. -/
theorem emit_refusedFor (value : Value) (limit : depth + budget = options.maxDepth) :
    (emit options table budget value).RefusedFor fun fault =>
      ∃ inner node, value.Holds inner node ∧ node.Flaw options table (depth + inner) fault := by
  -- Induction on the budget. Budget and depth add up to the limit, so the budget is used up exactly
  -- where a function stands too deep.
  induction budget generalizing depth value with
  | zero =>
      cases value with
      | function compiled =>
          obtain ⟨frame, constants⟩ := compiled
          rw [emit]
          split
          · exact .of_fail ⟨0, _, .self _, .deep (Nat.le_of_eq limit.symm)⟩
          · rename_i forbidden
            exact .of_fail ⟨0, _, .self _, .forbidden (Bool.eq_false_iff.mpr forbidden)⟩
      | _ => exact emit_refusedFor_plain rfl
  | succ budget budgetIH =>
      cases value with
      | function compiled =>
          by_cases allowed : options.allowBytecode = true
          · have deeper : depth + 1 + budget = options.maxDepth := by omega
            have constants := Emission.RefusedFor.concat
              fun constant (_ : constant ∈ compiled.constants) => budgetIH constant deeper
            rw [emit_function options table budget compiled allowed, Function.emit]
            refine .congr (.complete_append rfl
              ((Frame.emit_refusedFor table _ _).append constants)) fun fault => ?_
            constructor
            · rintro (flaw | ⟨constant, member, inner, node, held, flaw⟩)
              · exact ⟨0, _, .self _, .frame flaw⟩
              · refine ⟨inner + 1, node, .constant member held, ?_⟩
                rwa [Nat.add_right_comm] at flaw
            · rintro ⟨inner, node, held, flaw⟩
              cases held with
              | self =>
                  cases flaw with
                  | forbidden forbidden => exact absurd allowed (Bool.eq_false_iff.mp forbidden)
                  | deep deep => omega
                  | frame flaw => exact .inl flaw
              | @constant _ constant _ inner member held =>
                  refine .inr ⟨constant, member, inner, node, held, ?_⟩
                  rwa [Nat.add_right_comm]
          · obtain ⟨frame, constants⟩ := compiled
            rw [emit, if_neg allowed]
            exact .of_fail ⟨0, _, .self _, .forbidden (Bool.eq_false_iff.mpr allowed)⟩
      | _ => exact emit_refusedFor_plain rfl

end Value

theorem AtomTable.emit_refusedFor (table : AtomTable) :
    table.emit.RefusedFor fun fault =>
      (UInt32.size ≤ table.dynamic.length ∧
        fault = .lengthOverflow "atom table" table.dynamic.length) ∨
      ∃ text ∈ table.dynamic, Text.maxSize < text.payload.size ∧
        fault = .lengthOverflow "string" text.payload.size := by
  have count := Emission.length_refusedFor "atom table" table.dynamic.length
  have texts := Emission.RefusedFor.concat fun text (_ : text ∈ table.dynamic) =>
    text.emit_refusedFor
  exact (Emission.RefusedFor.complete_append rfl count).append texts

namespace ObjectStream

theorem emit_refusedFor (options : Options) (stream : ObjectStream) :
    (stream.emit options).RefusedFor (stream.Flaw options) := by
  have value : (stream.value.emit options stream.atoms options.maxDepth).RefusedFor _ :=
    stream.value.emit_refusedFor (Nat.zero_add options.maxDepth)
  refine (stream.atoms.emit_refusedFor.append value).congr fun fault => ?_
  constructor
  · rintro ((⟨large, rfl⟩ | ⟨text, listed, long, rfl⟩) | ⟨depth, node, held, flaw⟩)
    · exact .atomCount large
    · exact .atomSize listed long
    · rw [Nat.zero_add] at flaw
      exact .value held flaw
  · intro flaw
    cases flaw with
    | atomCount large => exact .inl (.inl ⟨large, rfl⟩)
    | atomSize listed long => exact .inl (.inr ⟨_, listed, long, rfl⟩)
    | @value depth node _ held flaw =>
        refine .inr ⟨depth, node, held, ?_⟩
        rwa [Nat.zero_add]

theorem encode_eq_error_iff {options : Options} {stream : ObjectStream} {fault : Fault} :
    stream.encode options = .error fault ↔ (stream.emit options).fault? = some fault :=
  Emission.result_eq_error_iff

/-- Encoding succeeds exactly for the streams that can be written, and where it does not, its fault
names a flaw of the stream. -/
theorem encode_eq_ok_iff_writable (options : Options) (stream : ObjectStream) :
    ((∃ output, stream.encode options = .ok output) ↔ stream.Writable options) ∧
      ∀ fault, stream.encode options = .error fault → stream.Flaw options fault := by
  have refused := stream.emit_refusedFor options
  constructor
  · rw [writable_iff, ← refused.complete_iff]
    constructor
    · rintro ⟨output, encoded⟩
      exact (Emission.result_eq_ok_iff.mp encoded).1
    · intro complete
      exact ⟨_, Emission.result_eq_ok_iff.mpr ⟨complete, rfl⟩⟩
  · intro fault failed
    exact refused.flawed fault (encode_eq_error_iff.mp failed)

/-- A function inside a function, with a source file that the table does not list. -/
def misfiled : ObjectStream where
  atoms := .empty
  value := .function {
    name := .int 1
    constants := [.null, .function {
      flags := ⟨1024⟩, name := .string 54 "name"
      debug? := some { fileName := .string 210 "index" } }] }

/-- A text that is one byte too long, of which no byte is produced before it is asked for. -/
def oversized : ObjectStream where
  atoms := .empty
  value := .string ⟨false, .zeros 2147483648⟩

theorem misfiled_refused :
    (∃ output, (nested 28).encode {} = .ok output) ∧ (nested 28).Writable {} ∧
      misfiled.encode {} = .error (.atomMismatch 210) ∧ misfiled.Flaw {} (.atomMismatch 210) ∧
      oversized.encode {} = .error (.lengthOverflow "string" 2147483648) ∧
      oversized.Flaw {} (.lengthOverflow "string" 2147483648) := by
  have encoded : ∃ output, (nested 28).encode {} = .ok output := ⟨nestedBytes, rfl⟩
  have refused : misfiled.encode {} = .error (.atomMismatch 210) := rfl
  have long : oversized.encode {} = .error (.lengthOverflow "string" 2147483648) := rfl
  exact ⟨encoded, (encode_eq_ok_iff_writable {} (nested 28)).1.mp encoded, refused,
    (encode_eq_ok_iff_writable {} misfiled).2 _ refused, long,
    (encode_eq_ok_iff_writable {} oversized).2 _ long⟩

end ObjectStream

end BytecodeObject
