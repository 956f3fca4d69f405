import BytecodeObject.Proofs.Reader

/-!
# Readers with a state of their own

What reads the constants of a function may remember what it has read, and remembers it also when it
fails. Such a reader is a reader with a state beside the cursor. A sequence of its calls is what its
repetition runs through, and a reader that notes where it is called behaves otherwise as before.
-/

set_option autoImplicit false

namespace BytecodeObject

/-- A reader that keeps a state beside the cursor. A fault leaves both as they were reached. -/
abbrev StatefulReader (σ α : Type) : Type :=
  EStateM Fault (Cursor × σ) α

namespace StatefulReader

variable {σ α κ : Type}

instance : MonadLift Reader (StatefulReader σ) where
  monadLift reader := fun (cursor, state) =>
    match reader.run cursor with
    | .ok result after => .ok result (after, state)
    | .error fault after => .error fault (after, state)

theorem run_lift (reader : Reader α) (cursor : Cursor) (state : σ) :
    (liftM reader : StatefulReader σ α).run (cursor, state) =
      match reader.run cursor with
      | .ok result after => .ok result (after, state)
      | .error fault after => .error fault (after, state) := rfl

theorem run_lift_of_ok {reader : Reader α} {before after : Cursor} {result : α}
    (run : reader.run before = .ok result after) (state : σ) :
    (liftM reader : StatefulReader σ α).run (before, state) = .ok result (after, state) := by
  rw [run_lift, run]

/-- The same reader, which also notes the cursor of each call, latest last. -/
def noting (reader : StatefulReader σ α) : StatefulReader (σ × List Cursor) α :=
  fun (cursor, state, places) =>
    match reader.run (cursor, state) with
    | .ok result (after, later) => .ok result (after, later, places ++ [cursor])
    | .error fault (after, later) => .error fault (after, later, places ++ [cursor])

/-- Calls of a reader one after the other, each of which yields a result, and their cursors. -/
inductive Calls (reader : StatefulReader σ κ) :
    Cursor × σ → List Cursor → List κ → Cursor × σ → Prop where
  | nil (state : Cursor × σ) : Calls reader state [] [] state
  | cons {before middle after : Cursor × σ} {places : List Cursor} {value : κ} {values : List κ}
      (head : reader.run before = .ok value middle)
      (tail : Calls reader middle places values after) :
      Calls reader before (before.1 :: places) (value :: values) after

namespace Calls

variable {reader : StatefulReader σ κ} {before after : Cursor × σ} {places : List Cursor}
  {values : List κ}

theorem length_places (calls : Calls reader before places values after) :
    places.length = values.length := by
  induction calls with
  | nil state => rfl
  | cons head tail tailIH => rw [List.length_cons, List.length_cons, tailIH]

/-- Repeating a reader runs through its calls. -/
theorem run_times (calls : Calls reader before places values after) :
    (Reader.times values.length reader).run before = .ok values after := by
  induction calls with
  | nil state => rfl
  | cons head tail tailIH =>
      rw [List.length_cons, Reader.times_succ, Reader.run_bind_of_ok head,
        Reader.run_bind_of_ok tailIH]
      rfl

/-- Noting the places leaves the calls as they were. -/
theorem noted (calls : Calls reader before places values after) (earlier : List Cursor) :
    Calls reader.noting (before.1, before.2, earlier) places values
      (after.1, after.2, earlier ++ places) := by
  induction calls generalizing earlier with
  | nil state =>
      rw [List.append_nil]
      exact .nil _
  | @cons before middle after places value values head tail tailIH =>
      have later := tailIH (earlier ++ [before.1])
      rw [List.append_assoc, List.singleton_append] at later
      refine .cons ?_ later
      change noting reader _ = _
      rw [noting, head]

end Calls

end StatefulReader

end BytecodeObject
