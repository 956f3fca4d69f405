import BytecodeObject.Proofs.Faults

/-!
# Reading more than before

Two readings are compared: one of an input alone, and one of the same input followed by a suffix,
under options that may accept more. They go through the same places and yield the same results and the
same faults, until the first reading ends in a fault that the suffix or the options may turn into
something else. From this follows what strict and lenient decoding have in common, and that decoding
depends on no byte behind those it reads.
-/

set_option autoImplicit false

namespace BytecodeObject

def Cursor.extended (cursor : Cursor) (suffix : List UInt8) : Cursor where
  offset := cursor.offset
  rest := cursor.rest ++ suffix

@[simp] theorem Cursor.extended_nil (cursor : Cursor) : cursor.extended [] = cursor := by
  rw [extended, List.append_nil]

/-- Reading an input with `loose`, followed by `suffix`, may differ from reading it with `tight` only
where the latter ends in an excused fault. -/
structure Options.Relaxes (excused : Fault → Prop) (suffix : List UInt8) (tight loose : Options) :
    Prop where
  ending : suffix = [] ∨ ∀ offset needed remaining, excused (.unexpectedEnd offset needed remaining)
  order : loose.order = tight.order
  strict : loose.strict = tight.strict ∨
    loose.strict = false ∧ ∀ fault : Fault, fault.isStrictOnly = true → excused fault
  functions : loose.allowBytecode = tight.allowBytecode ∨
    loose.allowBytecode = true ∧ excused .bytecodeNotAllowed
  depth : loose.maxDepth = tight.maxDepth ∨
    tight.maxDepth ≤ loose.maxDepth ∧ excused (.depthLimitExceeded tight.maxDepth)

namespace Reader

/-- The second reader ends as the first one does, with a suffix behind its input, unless the first
one ends in an excused fault. -/
structure FollowedBy {α : Type} (first second : Reader α) (excused : Fault → Prop)
    (suffix : List UInt8) : Prop where
  ok : ∀ ⦃before after result⦄, first.run before = .ok result after →
    second.run (before.extended suffix) = .ok result (after.extended suffix)
  error : ∀ ⦃before after fault⦄, first.run before = .error fault after →
    excused fault ∨ second.run (before.extended suffix) = .error fault (after.extended suffix)

variable {α β : Type} {excused : Fault → Prop} {suffix : List UInt8}

namespace FollowedBy

theorem pure (result : α) :
    (Pure.pure result : Reader α).FollowedBy (Pure.pure result) excused suffix where
  ok := by
    intro before after value run
    cases run
    rfl
  error := by
    intro before after fault run
    cases run

theorem fail (fault : Fault) :
    (Reader.fail fault : Reader α).FollowedBy (Reader.fail fault) excused suffix where
  ok := by
    intro before after result run
    cases run
  error := by
    intro before after ended run
    cases run
    exact .inr rfl

theorem of_excused {fault : Fault} (forgiven : excused fault) (second : Reader α) :
    (Reader.fail fault).FollowedBy second excused suffix where
  ok := by
    intro before after result run
    cases run
  error := by
    intro before after ended run
    cases run
    exact .inl forgiven

theorem bind {first first' : Reader α} {next next' : α → Reader β}
    (start : first.FollowedBy first' excused suffix)
    (continued : ∀ value, (next value).FollowedBy (next' value) excused suffix) :
    (first >>= next).FollowedBy (first' >>= next') excused suffix where
  ok := by
    intro before after result run
    obtain ⟨value, middle, ran, run⟩ := run_bind_ok run
    rw [run_bind_of_ok (start.ok ran)]
    exact (continued value).ok run
  error := by
    intro before after fault run
    rcases run_bind_error run with failed | ⟨value, middle, ran, failed⟩
    · exact (start.error failed).imp_right run_bind_of_error
    · rw [run_bind_of_ok (start.ok ran)]
      exact (continued value).error failed

theorem map {reader reader' : Reader α} (view : α → β)
    (followed : reader.FollowedBy reader' excused suffix) :
    (view <$> reader).FollowedBy (view <$> reader') excused suffix := by
  rw [map_eq_pure_bind, map_eq_pure_bind]
  exact followed.bind fun value => .pure (view value)

theorem times {reader reader' : Reader α} (followed : reader.FollowedBy reader' excused suffix)
    (count : Nat) :
    (Reader.times count reader).FollowedBy (Reader.times count reader') excused suffix := by
  induction count with
  | zero => exact .pure []
  | succ count countIH =>
      rw [times_succ, times_succ]
      exact followed.bind fun first => countIH.bind fun later => .pure (first :: later)

end FollowedBy

/-!
## Elementary readers
-/

theorem position_followed : position.FollowedBy position excused suffix where
  ok := by
    intro before after offset run
    cases run
    rfl
  error := by
    intro before after fault run
    cases run

variable {tight loose : Options} (relaxed : Options.Relaxes excused suffix tight loose)

include relaxed

theorem byte_followed : byte.FollowedBy byte excused suffix where
  ok := by
    intro before after first run
    obtain ⟨offset, rest⟩ := before
    cases rest with
    | nil => cases run
    | cons head rest =>
        cases run
        rfl
  error := by
    intro before after fault run
    rcases relaxed.ending with rfl | forgiven
    · simp only [Cursor.extended_nil]
      exact .inr run
    · obtain ⟨offset, rest⟩ := before
      cases rest with
      | nil =>
          cases run
          exact .inl (forgiven _ _ _)
      | cons head rest => cases run

theorem take_followed (count : Nat) : (take count).FollowedBy (take count) excused suffix where
  ok := by
    intro before after taken run
    obtain ⟨moved, length⟩ := advances_of_run_take_ok run
    have onward := run_take_append before.offset taken (after.rest ++ suffix)
    rw [length, ← List.append_assoc, ← moved.rest, ← length, ← moved.offset, length] at onward
    exact onward
  error := by
    intro before after fault run
    rcases relaxed.ending with rfl | forgiven
    · simp only [Cursor.extended_nil]
      exact .inr run
    · obtain ⟨offset, rest⟩ := before
      rw [run_take] at run
      split at run
      · cases run
        exact .inl (forgiven _ _ _)
      · cases run

theorem word16_followed : (word16 tight.order).FollowedBy (word16 loose.order) excused suffix := by
  rw [relaxed.order]
  exact (take_followed relaxed 2).bind fun _ => .pure _

theorem double_followed :
    (Reader.double tight.order).FollowedBy (Reader.double loose.order) excused suffix := by
  rw [relaxed.order]
  exact (take_followed relaxed 8).bind fun _ => .pure _

/-- A strict check is made by both readers, or by the first one alone and excused. -/
theorem FollowedBy.check {fault : Fault} (strictOnly : fault.isStrictOnly = true) (broken : Bool)
    {next next' : Reader α} (accepted : next.FollowedBy next' excused suffix) :
    (if (tight.strict && broken) = true then Reader.fail fault else next).FollowedBy
      (if (loose.strict && broken) = true then Reader.fail fault else next') excused suffix := by
  -- Either both readings make the check, or the second one does not and its fault is excused.
  rcases relaxed.strict with same | ⟨lenient, forgiven⟩
  · rw [same]
    split
    · exact .fail fault
    · exact accepted
  · rw [lenient, Bool.false_and, if_neg Bool.false_ne_true]
    split
    · exact .of_excused (forgiven fault strictOnly) next'
    · exact accepted

end Reader

variable {excused : Fault → Prop} {suffix : List UInt8} {tight loose : Options}
  {table : AtomTable} (relaxed : Options.Relaxes excused suffix tight loose)

include relaxed

/-!
## Integers and texts
-/

namespace Varint

private theorem readGroups_followed (offset limit : Nat) :
    (readGroups tight.strict offset limit).FollowedBy (readGroups loose.strict offset limit)
      excused suffix := by
  induction limit with
  | zero => exact .fail _
  | succ limit limitIH =>
      rw [readGroups, readGroups]
      refine (Reader.byte_followed relaxed).bind fun byte => ?_
      by_cases small : byte.toNat < 128
      · simp only [if_pos small, Bool.and_assoc]
        exact .check relaxed rfl _ (.pure _)
      · simp only [if_neg small]
        exact limitIH.bind fun higher => .pure _

theorem read_followed :
    (read tight.strict).FollowedBy (read loose.strict) excused suffix :=
  Reader.position_followed.bind fun offset => readGroups_followed relaxed offset maxGroups

theorem readUInt32_followed :
    (readUInt32 tight.strict).FollowedBy (readUInt32 loose.strict) excused suffix :=
  Reader.position_followed.bind fun _ => (read_followed relaxed).bind fun _ =>
    .check relaxed rfl _ (.pure _)

theorem readInt32_followed :
    (readInt32 tight.strict).FollowedBy (readInt32 loose.strict) excused suffix :=
  Reader.position_followed.bind fun _ => (read_followed relaxed).bind fun _ =>
    .check relaxed rfl _ (.check relaxed rfl _ (.pure _))

end Varint

theorem Text.read_followed :
    (Text.read tight.strict).FollowedBy (Text.read loose.strict) excused suffix :=
  (Varint.readUInt32_followed relaxed).bind fun _ => (Reader.take_followed relaxed _).bind fun _ =>
    .pure _

theorem AtomTable.read_followed :
    (AtomTable.read tight.strict).FollowedBy (AtomTable.read loose.strict) excused suffix := by
  refine (Reader.byte_followed relaxed).bind fun version => ?_
  by_cases known : version = formatVersion
  · rw [if_pos known, if_pos known]
    refine (Varint.readUInt32_followed relaxed).bind fun count => ?_
    by_cases inline : count.toNat ≤ maxDynamic
    · rw [if_pos inline, if_pos inline]
      exact ((Text.read_followed relaxed).times _).bind fun dynamic => .pure _
    · rw [if_neg inline, if_neg inline]
      exact .fail _
  · rw [if_neg known, if_neg known]
    exact .fail _

theorem Atom.read_followed :
    (Atom.read tight.strict table).FollowedBy (Atom.read loose.strict table) excused suffix := by
  refine (Varint.readUInt32_followed relaxed).bind fun reference => ?_
  split
  · exact .pure _
  · cases table.resolve (reference / 2) with
    | ok text => exact .pure _
    | error fault => exact .fail _

/-!
## Functions
-/

theorem VarDef.read_followed :
    (VarDef.read tight.strict table).FollowedBy (VarDef.read loose.strict table) excused suffix := by
  have link : (VarDef.readScopeNext tight.strict).FollowedBy (VarDef.readScopeNext loose.strict)
      excused suffix :=
    (Varint.readUInt32_followed relaxed).bind fun _ => .pure _
  have flagByte : (VarDef.readFlagByte tight.strict).FollowedBy (VarDef.readFlagByte loose.strict)
      excused suffix :=
    Reader.position_followed.bind fun _ => (Reader.byte_followed relaxed).bind fun _ =>
      .check relaxed rfl _ (.pure _)
  refine (Atom.read_followed relaxed).bind fun name => ?_
  refine (Varint.readUInt32_followed relaxed).bind fun scopeLevel => ?_
  exact link.bind fun scopeNext? => flagByte.bind fun flags => .pure _

theorem ClosureVar.read_followed :
    (ClosureVar.read tight.strict table).FollowedBy (ClosureVar.read loose.strict table)
      excused suffix := by
  refine (Atom.read_followed relaxed).bind fun name => ?_
  refine (Varint.readUInt32_followed relaxed).bind fun index => ?_
  exact (Reader.byte_followed relaxed).bind fun flags => .pure _

theorem DebugInfo.readIf_followed (announced : Bool) :
    (DebugInfo.readIf announced tight.strict table).FollowedBy
      (DebugInfo.readIf announced loose.strict table) excused suffix := by
  cases announced with
  | false => exact .pure none
  | true =>
      refine .map some ((Atom.read_followed relaxed).bind fun fileName => ?_)
      refine (Varint.readUInt32_followed relaxed).bind fun lineNumber => ?_
      refine (Varint.readUInt32_followed relaxed).bind fun length => ?_
      exact (Reader.take_followed relaxed _).bind fun lineTable => .pure _

theorem Frame.read_followed :
    (Frame.read tight table).FollowedBy (Frame.read loose table) excused suffix := by
  have uint32 := Varint.readUInt32_followed relaxed
  refine .bind (.map _ (Reader.word16_followed relaxed)) fun flags => ?_
  refine (Reader.byte_followed relaxed).bind fun mode => ?_
  refine (Atom.read_followed relaxed).bind fun name => ?_
  refine uint32.bind fun argCount => uint32.bind fun varCount => ?_
  refine uint32.bind fun definedArgCount => uint32.bind fun stackSize => ?_
  refine uint32.bind fun closureVarCount => uint32.bind fun constantCount => ?_
  refine uint32.bind fun codeLength => uint32.bind fun localCount => ?_
  refine ((VarDef.read_followed relaxed).times _).bind fun locals => ?_
  refine ((ClosureVar.read_followed relaxed).times _).bind fun closureVars => ?_
  refine (Reader.take_followed relaxed _).bind fun code => ?_
  exact (DebugInfo.readIf_followed relaxed _).bind fun debug? => .pure _

theorem Function.read_followed {κ : Type} {constant constant' : Reader κ}
    (each : constant.FollowedBy constant' excused suffix) :
    (Function.read tight table constant).FollowedBy (Function.read loose table constant')
      excused suffix :=
  (Frame.read_followed relaxed).bind fun _ => (each.times _).bind fun _ => .pure _

/-!
## Values and streams
-/

namespace Value

theorem readTagged_followed {body body' : Reader (Function Value)}
    (followed : body.FollowedBy body' excused suffix) :
    (readTagged tight body).FollowedBy (readTagged loose body') excused suffix := by
  refine Reader.position_followed.bind fun offset => ?_
  refine (Reader.byte_followed relaxed).bind fun byte => ?_
  cases Tag.ofByte? byte with
  | none => exact .fail _
  | some tag =>
      cases tag with
      | null => exact .pure _
      | undefined => exact .pure _
      | boolFalse => exact .pure _
      | boolTrue => exact .pure _
      | int32 => exact .map _ (Varint.readInt32_followed relaxed)
      | float64 => exact .map _ (Reader.double_followed relaxed)
      | string => exact .map _ (Text.read_followed relaxed)
      | functionBytecode =>
          dsimp only
          rcases relaxed.functions with same | ⟨allowed, forgiven⟩
          · rw [same]
            split
            · exact followed.map _
            · exact .fail _
          · rw [if_pos allowed]
            split
            · exact followed.map _
            · exact .of_excused forgiven _
      | _ => exact .fail _

theorem read_followed {tightBudget looseBudget : Nat} (enough : tightBudget ≤ looseBudget)
    (depth : looseBudget = tightBudget ∧ loose.maxDepth = tight.maxDepth ∨
      excused (.depthLimitExceeded tight.maxDepth)) :
    (Value.read tight table tightBudget).FollowedBy (Value.read loose table looseBudget)
      excused suffix := by
  -- Induction on the tighter budget: both readings use up their budgets alike, so that the looser
  -- one is used up no earlier.
  induction tightBudget generalizing looseBudget with
  | zero =>
      cases looseBudget with
      | zero =>
          apply readTagged_followed relaxed
          rcases depth with ⟨_, same⟩ | forgiven
          · rw [same]
            exact .fail _
          · exact .of_excused forgiven _
      | succ looseBudget =>
          apply readTagged_followed relaxed
          rcases depth with ⟨different, _⟩ | forgiven
          · cases different
          · exact .of_excused forgiven _
  | succ tightBudget budgetIH =>
      cases looseBudget with
      | zero => exact absurd enough (Nat.not_succ_le_zero _)
      | succ looseBudget =>
          apply readTagged_followed relaxed
          apply Function.read_followed relaxed
          exact budgetIH (Nat.le_of_succ_le_succ enough)
            (depth.imp_left fun ⟨budgets, limits⟩ => ⟨Nat.succ.inj budgets, limits⟩)

end Value

/-- A relaxed reader follows the other one through a whole stream. -/
theorem ObjectStream.read_followed :
    (ObjectStream.read tight).FollowedBy (ObjectStream.read loose) excused suffix := by
  refine (AtomTable.read_followed relaxed).bind fun table => ?_
  refine .bind ?_ fun value => .pure _
  rcases relaxed.depth with same | ⟨deeper, forgiven⟩
  · exact Value.read_followed relaxed (Nat.le_of_eq same.symm) (.inl ⟨same, same⟩)
  · exact Value.read_followed relaxed deeper (.inr forgiven)

end BytecodeObject
