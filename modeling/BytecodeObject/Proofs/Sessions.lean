import BytecodeObject.Proofs.Progress
import BytecodeObject.Proofs.StatefulReader

/-!
# Sessions

One reader is used over and over: whatever the reads before have come to, the next one goes on from where
they have stopped. A session is any sequence of such reads. A header that is read in between replaces the
table that atoms are looked up in. What reads the constants of a function makes reads of its own, and fails
with the first of them that fails. Every read is noted, those for constants as well.
-/

set_option autoImplicit false

namespace BytecodeObject

inductive Datum where
  | bytes (count : Nat)
  | byte
  | word16
  | double
  | uint32
  | int32
  | text
  | atom
  | varDef
  | closureVar
  | debugInfo
  deriving DecidableEq

/-- What a session is asked to read. In a function the reads for a constant, and the value that is made of
it, are those given for the number of calls so far. -/
inductive Request where
  | datum (datum : Datum)
  | table
  | function (value : Nat → Value) (reads : Nat → List Request)

namespace Request

def isFixed : Request → Bool
  | .datum (.bytes _) | .datum .byte | .datum .word16 | .datum .double => true
  | _ => false

def isVarint : Request → Bool
  | .datum .uint32 | .datum .int32 => true
  | _ => false

end Request

structure Event where
  request : Request
  before : Cursor
  fault? : Option Fault
  after : Cursor

/-- The table of a session, its calls for constants so far and what it has noted, latest first: the places
at which reads have begun and ended, and the reads that have ended. -/
structure Session where
  table : AtomTable
  calls : Nat := 0
  places : List Cursor := []
  events : List Event := []

/-!
## Reading in a session
-/

def Datum.read (options : Options) (table : AtomTable) : Datum → Reader Unit
  | .bytes count => discard (Reader.take count)
  | .byte => discard Reader.byte
  | .word16 => discard (Reader.word16 options.order)
  | .double => discard (Reader.double options.order)
  | .uint32 => discard (Varint.readUInt32 options.strict)
  | .int32 => discard (Varint.readInt32 options.strict)
  | .text => discard (Text.read options.strict)
  | .atom => discard (Atom.read options.strict table)
  | .varDef => discard (VarDef.read options.strict table)
  | .closureVar => discard (ClosureVar.read options.strict table)
  | .debugInfo => discard (DebugInfo.read options.strict table)

namespace Session

def currentTable : StatefulReader Session AtomTable :=
  fun (cursor, session) => .ok session.table (cursor, session)

def replaceTable (table : AtomTable) : StatefulReader Session Unit :=
  fun (cursor, session) => .ok () (cursor, { session with table })

def nextCall : StatefulReader Session Nat :=
  fun (cursor, session) => .ok session.calls (cursor, { session with calls := session.calls + 1 })

def note (session : Session) (cursor : Cursor) : Session :=
  { session with places := cursor :: session.places }

def finish (session : Session) (event : Event) : Session :=
  { session.note event.after with events := event :: session.events }

def recording (request : Request) (program : StatefulReader Session Unit) :
    StatefulReader Session Unit :=
  fun (cursor, session) =>
    match program.run (cursor, session.note cursor) with
    | .ok _ (after, later) => .ok () (after, later.finish ⟨request, cursor, none, after⟩)
    | .error fault (after, later) =>
        .error fault (after, later.finish ⟨request, cursor, some fault, after⟩)

end Session

open Session

mutual

def Request.read (options : Options) : Request → StatefulReader Session Unit
  | .datum item => do
      item.read options (← currentTable)
  | .table => do
      replaceTable (← AtomTable.read options.strict)
  | .function value reads => do
      let _ ← Function.read options (← currentTable) do
        let call ← nextCall
        Request.readAll options (reads call)
        return value call

def Request.readAll (options : Options) : List Request → StatefulReader Session Unit
  | [] => pure ()
  | request :: rest => do
      recording request (request.read options)
      Request.readAll options rest

end

/-- A session makes all of its reads, each from wherever the one before has stopped. -/
def Session.run (options : Options) : List Request → Cursor × Session → Cursor × Session
  | [], state => state
  | request :: rest, state =>
      match (recording request (request.read options)).run state with
      | .ok _ after => run options rest after
      | .error _ after => run options rest after

/-!
## Single reads
-/

namespace Datum

variable {options : Options} {table : AtomTable}

theorem read_steady (datum : Datum) : (datum.read options table).Steady := by
  cases datum with
  | bytes count => exact (Reader.take_steady count).map _
  | byte => exact Reader.byte_steady.map _
  | word16 => exact (Reader.word16_steady _).map _
  | double => exact (Reader.double_steady _).map _
  | uint32 => exact Varint.readUInt32_steady.map _
  | int32 => exact Varint.readInt32_steady.map _
  | text => exact Text.read_steady.map _
  | atom => exact Atom.read_steady.map _
  | varDef => exact VarDef.read_steady.map _
  | closureVar => exact ClosureVar.read_steady.map _
  | debugInfo => exact DebugInfo.read_steady.map _

private theorem failsInPlace_of_isFixed {datum : Datum} (fixed : (Request.datum datum).isFixed = true) :
    (datum.read options table).FailsInPlace := by
  cases datum with
  | bytes count => exact (Reader.take_failsInPlace count).map _
  | byte => exact Reader.byte_failsInPlace.map _
  | word16 => exact (Reader.word16_failsInPlace _).map _
  | double => exact (Reader.double_failsInPlace _).map _
  | _ => cases fixed

private theorem readsAtMost_of_isVarint {datum : Datum} (varint : (Request.datum datum).isVarint = true) :
    (datum.read options table).ReadsAtMost Varint.maxGroups := by
  cases datum with
  | uint32 => exact Varint.readUInt32_readsAtMost.map _
  | int32 => exact Varint.readInt32_readsAtMost.map _
  | _ => cases varint

end Datum

/-!
## Soundness
-/

/-- A read moved the cursor forward over the input, and only as far as its kind and its fault allow. -/
structure Event.Sound (input : List UInt8) (event : Event) : Prop where
  begins : event.before.Within input
  ends : event.after.Within input
  forward : event.before.offset ≤ event.after.offset
  unmoved : event.request.isFixed = true → event.fault?.isSome = true → event.after = event.before
  bounded : event.request.isVarint = true →
    event.after.offset ≤ event.before.offset + Varint.maxGroups
  fits : ∀ fault ∈ event.fault?, fault.FitsAt event.after

/-- A session has come to a place of the input behind all the places that it was at before, and has noted
sound reads only. -/
structure Session.SoundAt (input : List UInt8) (state : Cursor × Session) : Prop where
  within : state.1.Within input
  places : ∀ place ∈ state.2.places, place.Within input ∧ place.offset ≤ state.1.offset
  ordered : state.2.places.Pairwise fun later earlier => earlier.offset ≤ later.offset
  events : ∀ event ∈ state.2.events, event.Sound input

namespace Session

variable {input : List UInt8}

/-- A session stays sound when its cursor moves over bytes that were read. -/
theorem SoundAt.advance {cursor after : Cursor} {session : Session} {consumed : List UInt8}
    (sound : SoundAt input (cursor, session)) (moved : cursor.Advances consumed after) :
    SoundAt input (after, session) where
  within := sound.within.advance moved
  places := by
    intro place member
    obtain ⟨within, behind⟩ := sound.places place member
    have further : after.offset = cursor.offset + consumed.length := moved.offset
    exact ⟨within, by dsimp only at behind ⊢; omega⟩
  ordered := sound.ordered
  events := sound.events

theorem SoundAt.note {cursor : Cursor} {session : Session}
    (sound : SoundAt input (cursor, session)) : SoundAt input (cursor, session.note cursor) where
  within := sound.within
  places := List.forall_mem_cons.mpr ⟨⟨sound.within, Nat.le_refl _⟩, sound.places⟩
  ordered := List.pairwise_cons.mpr
    ⟨fun place member => (sound.places place member).2, sound.ordered⟩
  events := sound.events

theorem SoundAt.finish {session : Session} {event : Event}
    (sound : SoundAt input (event.after, session)) (eventSound : event.Sound input) :
    SoundAt input (event.after, session.finish event) where
  within := sound.within
  places := sound.note.places
  ordered := sound.note.ordered
  events := List.forall_mem_cons.mpr ⟨eventSound, sound.events⟩

def steady (input : List UInt8) : Conduct (Cursor × Session) where
  holds before fault? after := SoundAt input before →
    SoundAt input after ∧ before.1.offset ≤ after.1.offset ∧ before.2.events <:+ after.2.events ∧
      ∀ fault ∈ fault?, fault.FitsAt after.1
  refl state sound := ⟨sound, Nat.le_refl _, List.suffix_rfl, Fault.none_fitsAt⟩
  trans first second sound := by
    obtain ⟨middleSound, reached, earlier, _⟩ := first sound
    obtain ⟨afterSound, further, later, fits⟩ := second middleSound
    exact ⟨afterSound, Nat.le_trans reached further, earlier.trans later, fits⟩

private theorem ends_of_ends_lift {σ α : Type} {reader : Reader α} {before after : Cursor × σ}
    {fault? : Option Fault} (ended : Ends (liftM reader : StatefulReader σ α) before fault? after) :
    Ends reader before.1 fault? after.1 ∧ after.2 = before.2 := by
  cases ended with
  | result run =>
      rw [StatefulReader.run_lift] at run
      split at run
      · rename_i ran
        cases run
        exact ⟨.result ran, rfl⟩
      · cases run
  | fault run =>
      rw [StatefulReader.run_lift] at run
      split at run
      · cases run
      · rename_i ran
        cases run
        exact ⟨.fault ran, rfl⟩

private theorem lift_steady {α : Type} {reader : Reader α} (readerSteady : reader.Steady) :
    (steady input).Governs (liftM reader : StatefulReader Session α) := by
  intro before fault? after ended sound
  obtain ⟨readEnded, same⟩ := ends_of_ends_lift ended
  obtain ⟨⟨consumed, moved⟩, fits⟩ := readerSteady readEnded
  obtain ⟨after, later⟩ := after
  cases same
  refine ⟨sound.advance moved, ?_, List.suffix_rfl, fits⟩
  rw [moved.offset]
  exact Nat.le_add_right _ _

/-- What only looks up or replaces the table, or counts calls, is not noticed. -/
private theorem unnoted_steady {α : Type} {program : StatefulReader Session α}
    (unnoted : ∀ cursor session, ∃ value table calls,
      program.run (cursor, session) = .ok value (cursor, { session with table, calls })) :
    (steady input).Governs program := by
  rintro ⟨cursor, session⟩ fault? after ended sound
  obtain ⟨value, table, calls, ran⟩ := unnoted cursor session
  cases ended with
  | result run =>
      cases ran.symm.trans run
      exact ⟨⟨sound.within, sound.places, sound.ordered, sound.events⟩, Nat.le_refl _,
        List.suffix_rfl, Fault.none_fitsAt⟩
  | fault run => cases ran.symm.trans run

private theorem currentTable_steady : (steady input).Governs currentTable :=
  unnoted_steady fun _ _ => ⟨_, _, _, rfl⟩

private theorem replaceTable_steady (table : AtomTable) : (steady input).Governs (replaceTable table) :=
  unnoted_steady fun _ _ => ⟨_, _, _, rfl⟩

private theorem nextCall_steady : (steady input).Governs nextCall :=
  unnoted_steady fun _ _ => ⟨_, _, _, rfl⟩

private theorem ends_of_ends_recording {request : Request} {program : StatefulReader Session Unit}
    {before after : Cursor × Session} {fault? : Option Fault}
    (ended : Ends (recording request program) before fault? after) :
    ∃ later, Ends program (before.1, before.2.note before.1) fault? (after.1, later) ∧
      after.2 = later.finish ⟨request, before.1, fault?, after.1⟩ := by
  obtain ⟨cursor, session⟩ := before
  cases ended with
  | result run =>
      change recording request program (cursor, session) = _ at run
      rw [recording] at run
      split at run
      · rename_i ran
        cases run
        exact ⟨_, .result ran, rfl⟩
      · cases run
  | fault run =>
      change recording request program (cursor, session) = _ at run
      rw [recording] at run
      split at run
      · cases run
      · rename_i ran
        cases run
        exact ⟨_, .fault ran, rfl⟩

structure Keeps (request : Request) (before : Cursor) (fault? : Option Fault) (after : Cursor) :
    Prop where
  unmoved : request.isFixed = true → fault?.isSome = true → after = before
  bounded : request.isVarint = true → after.offset ≤ before.offset + Varint.maxGroups

private theorem read_keeps {options : Options} {request : Request} {before after : Cursor × Session}
    {fault? : Option Fault} (ended : Ends (request.read options) before fault? after) :
    Keeps request before.1 fault? after.1 := by
  cases request with
  | table => exact ⟨nofun, nofun⟩
  | function value reads => exact ⟨nofun, nofun⟩
  | datum datum =>
      rw [Request.read] at ended
      rcases ended.bind_cases with ⟨isSome, stopped⟩ | ⟨table, middle, ran, ended⟩
      · cases stopped with
        | result run => cases isSome
        | fault run => cases run
      · cases ran
        obtain ⟨readEnded, _⟩ := ends_of_ends_lift ended
        refine ⟨fun fixed isSome => ?_, fun varint => Datum.readsAtMost_of_isVarint varint readEnded⟩
        cases readEnded with
        | result run => cases isSome
        | fault run => exact Datum.failsInPlace_of_isFixed fixed run

theorem recording_steady {options : Options} {request : Request}
    (readSteady : (steady input).Governs (request.read options)) :
    (steady input).Governs (recording request (request.read options)) := by
  intro before fault? after ended sound
  obtain ⟨later, readEnded, same⟩ := ends_of_ends_recording ended
  obtain ⟨after, finished⟩ := after
  dsimp only at same
  subst same
  obtain ⟨unmoved, bounded⟩ := read_keeps readEnded
  obtain ⟨laterSound, forward, extended, fits⟩ := readSteady readEnded sound.note
  have event : Event.Sound input ⟨request, before.1, fault?, after⟩ :=
    ⟨sound.within, laterSound.within, forward, unmoved, bounded, fits⟩
  exact ⟨laterSound.finish event, forward, extended.trans (List.suffix_cons _ _), fits⟩

theorem function_read_steady {options : Options} {table : AtomTable} {κ : Type}
    {constant : StatefulReader Session κ} (constantSteady : (steady input).Governs constant) :
    (steady input).Governs (Function.read options table constant) :=
  (lift_steady (Frame.read_steady options)).bind fun (_, count) =>
    (constantSteady.times count).bind fun _ => .pure _

end Session

mutual

/-- Every read keeps a session sound. -/
theorem Request.read_steady {input : List UInt8} (options : Options) :
    (request : Request) → (Session.steady input).Governs (request.read options)
  | .datum item => by
      rw [Request.read]
      exact currentTable_steady.bind fun table => lift_steady item.read_steady
  | .table => by
      rw [Request.read]
      exact (lift_steady AtomTable.read_steady).bind replaceTable_steady
  | .function value reads => by
      rw [Request.read]
      refine currentTable_steady.bind fun table => (function_read_steady ?_).bind fun _ => .pure ()
      -- Whichever call it is, the reads that are its own are among those that this one consists of.
      exact nextCall_steady.bind fun call =>
        (Request.readAll_steady options (reads call)).bind fun _ => .pure _

theorem Request.readAll_steady {input : List UInt8} (options : Options) :
    (requests : List Request) → (Session.steady input).Governs (Request.readAll options requests)
  | [] => by
      rw [Request.readAll]
      exact .pure ()
  | request :: rest => by
      rw [Request.readAll]
      exact (recording_steady (request.read_steady options)).bind fun _ =>
        Request.readAll_steady options rest

end

/-!
## Whole sessions
-/

namespace Session

variable {input : List UInt8} {options : Options}

private theorem run_cons_of_ends {request : Request} {state after : Cursor × Session}
    {fault? : Option Fault} (ended : Ends (recording request (request.read options)) state fault? after)
    (rest : List Request) : run options (request :: rest) state = run options rest after := by
  cases ended with
  | result ran => rw [run, ran]
  | fault ran => rw [run, ran]

/-- A session keeps sound whatever its reads come to, and notes all of them in order. -/
theorem soundAt_run (options : Options) (requests : List Request) {state : Cursor × Session}
    (sound : SoundAt input state) :
    SoundAt input (run options requests state) ∧
      ∃ newer, (run options requests state).2.events = newer ++ state.2.events ∧
        requests.reverse.Sublist (newer.map Event.request) := by
  induction requests generalizing state with
  | nil => exact ⟨sound, [], rfl, List.Sublist.slnil⟩
  | cons request rest restIH =>
      obtain ⟨fault?, after, ended⟩ := Ends.total (recording request (request.read options)) state
      rw [run_cons_of_ends ended]
      have steady : (steady input).Governs (request.read options) := request.read_steady options
      obtain ⟨afterSound, _, _, _⟩ := recording_steady steady ended sound
      obtain ⟨finalSound, newer, extended, listed⟩ := restIH afterSound
      obtain ⟨later, readEnded, same⟩ := ends_of_ends_recording ended
      obtain ⟨_, _, ⟨inner, noted⟩, _⟩ := steady readEnded sound.note
      refine ⟨finalSound, newer ++ ⟨request, state.1, fault?, after.1⟩ :: inner, ?_, ?_⟩
      · have logged : after.2.events = ⟨request, state.1, fault?, after.1⟩ :: later.events := by
          rw [same]
          rfl
        rw [extended, logged, ← noted, List.append_assoc]
        rfl
      · rw [List.reverse_cons, List.map_append]
        exact listed.append (List.singleton_sublist.mpr List.mem_cons_self)

/-- Whatever is read of an input, in whatever order and with whatever faults on the way, the reader never
moves back and never leaves the input: what it regards as unread is the input from its offset on. -/
theorem reads_soundly (options : Options) (table : AtomTable) (bytes : List UInt8)
    (requests : List Request) :
    let (cursor, session) := run options requests (.ofBytes bytes, { table })
    (∀ place ∈ cursor :: session.places,
      place.offset ≤ bytes.length ∧ place.rest = bytes.drop place.offset ∧
        place.remaining = bytes.length - place.offset) ∧
    (cursor :: session.places).Pairwise (fun later earlier => earlier.offset ≤ later.offset) ∧
    (∀ event ∈ session.events, event.Sound bytes) ∧
    requests.reverse.Sublist (session.events.map Event.request) := by
  have start : SoundAt bytes (.ofBytes bytes, { table }) :=
    ⟨.start bytes, List.forall_mem_nil _, .nil, List.forall_mem_nil _⟩
  obtain ⟨sound, newer, extended, listed⟩ := soundAt_run options requests start
  rw [List.append_nil] at extended
  rw [← extended] at listed
  refine ⟨fun place member => ?_, ?_, sound.events, listed⟩
  · have within : place.Within bytes := (sound.note.places place member).1
    obtain ⟨consumed, whole, offset⟩ := within.split
    have rest : place.rest = bytes.drop place.offset := by
      rw [whole, offset, List.drop_left]
    refine ⟨?_, rest, ?_⟩
    · rw [whole, offset, List.length_append]
      exact Nat.le_add_right _ _
    · rw [Cursor.remaining, rest, List.length_drop]
  · exact sound.note.ordered

/-- The only constant of a function has lost four of its five bytes. What is left of it is read next. -/
example :
    let bytes : List UInt8 := [0, 0, 0, 1, 0, 0, 0, 0, 0, 1, 0, 0, 10, 65]
    let requests := [.function (fun _ => .null) (fun _ => [.datum .text]), .datum .word16, .datum .byte]
    (run {} requests (.ofBytes bytes, { table := .empty })).2.events.map
        (fun event => (event.before.offset, event.fault?, event.after.offset)) =
      [(13, none, 14), (13, some (.unexpectedEnd 13 2 1), 13),
        (0, some (.unexpectedEnd 13 5 1), 13), (12, some (.unexpectedEnd 13 5 1), 13)] := by
  decide

end Session

end BytecodeObject
