import BytecodeObject.Proofs.Function.Body
import BytecodeObject.Proofs.StatefulReader

/-!
# Function bodies with any constants

What the constants of a function are is open, and so is how each of them is written and read. Where the
two are inverse to each other a body that was written is read back, by a reader of constants that may
keep a state. It is called once for each constant, from the place where the frame ends.
-/

set_option autoImplicit false

namespace BytecodeObject

/-!
## Constants behind one another
-/

section Constants

variable {κ σ : Type} (form : κ → List UInt8)

private theorem Emission.render_concat_of_forms {write : κ → Emission} {order : ByteOrder}
    {constants : List κ}
    (writes : ∀ constant ∈ constants, (write constant).result order = .ok (form constant)) :
    (Emission.concat (constants.map write)).render order = constants.flatMap form := by
  induction constants with
  | nil => rfl
  | cons constant rest restIH =>
      obtain ⟨first, later⟩ := List.forall_mem_cons.mp writes
      obtain ⟨complete, rendered⟩ := result_eq_ok_iff.mp first
      rw [List.map_cons, concat_cons, render_append _ _ complete, rendered, restIH later,
        List.flatMap_cons]

def Cursor.beginnings (suffix : List UInt8) : (offset : Nat) → List κ → List Cursor
  | _, [] => []
  | offset, constant :: rest =>
      ⟨offset, form constant ++ (rest.flatMap form ++ suffix)⟩ ::
        beginnings suffix (offset + (form constant).length) rest

variable {form}

private theorem StatefulReader.calls_of_forms {read : StatefulReader σ κ} {constants : List κ}
    (reads : ∀ constant ∈ constants, ∀ offset rest state, ∃ later,
      read.run (⟨offset, form constant ++ rest⟩, state) =
        .ok constant (⟨offset + (form constant).length, rest⟩, later))
    (suffix : List UInt8) (offset : Nat) (state : σ) :
    ∃ later, Calls read (⟨offset, constants.flatMap form ++ suffix⟩, state)
      (Cursor.beginnings form suffix offset constants) constants
      (⟨offset + (constants.flatMap form).length, suffix⟩, later) := by
  induction constants generalizing offset state with
  | nil => exact ⟨state, .nil _⟩
  | cons constant rest restIH =>
      obtain ⟨first, others⟩ := List.forall_mem_cons.mp reads
      obtain ⟨middle, head⟩ := first offset (rest.flatMap form ++ suffix) state
      obtain ⟨later, tail⟩ := restIH others (offset + (form constant).length) middle
      refine ⟨later, ?_⟩
      have passed : offset + (form constant).length + (rest.flatMap form).length =
          offset + ((constant :: rest).flatMap form).length := by
        rw [List.flatMap_cons, List.length_append, Nat.add_assoc]
      rw [← passed, List.flatMap_cons, List.append_assoc]
      exact .cons head tail

end Constants

/-!
## Bodies
-/

namespace Function

variable {κ σ : Type} {options : Options} {table : AtomTable}

/-- A body is read through its frame and then through calls of the reader of constants. -/
private theorem run_read_of_calls {read : StatefulReader σ κ} {before middle after : Cursor} {frame : Frame}
    {state later : σ} {places : List Cursor} {constants : List κ}
    (opened : (Frame.read options table).run before = .ok (frame, constants.length) middle)
    (calls : read.Calls (middle, state) places constants (after, later)) :
    (Function.read options table read).run (before, state) =
      .ok { frame with constants } (after, later) := by
  rw [Function.read, Reader.run_bind_of_ok (StatefulReader.run_lift_of_ok opened state)]
  dsimp only
  rw [Reader.run_bind_of_ok calls.run_times]
  rfl

/-- A body that was written is read back with normal kinds, from exactly its bytes, by any reader of
constants that undoes their writing. All else has been read when that reader is called for the first
time, and it is called once for each constant. -/
theorem read_undoes_emit (inline : table.dynamic.length ≤ AtomTable.maxDynamic)
    {function : Function κ} {write : κ → Emission} {read : StatefulReader σ κ}
    {form : κ → List UInt8} {output : List UInt8}
    (writes : ∀ constant ∈ function.constants,
      (write constant).result options.order = .ok (form constant))
    (reads : ∀ constant ∈ function.constants, ∀ offset rest state, ∃ later,
      read.run (⟨offset, form constant ++ rest⟩, state) =
        .ok constant (⟨offset + (form constant).length, rest⟩, later))
    (written : (function.emit table write).result options.order = .ok output)
    (suffix : List UInt8) (offset : Nat) (state : σ) :
    ∃ opening later places, output = opening ++ function.constants.flatMap form ∧
      (Frame.read options table).run ⟨offset, output ++ suffix⟩ =
        .ok (function.toFrame.normalized, function.constants.length)
          ⟨offset + opening.length, function.constants.flatMap form ++ suffix⟩ ∧
      (Function.read options table read).run (⟨offset, output ++ suffix⟩, state) =
        .ok { function.toFrame.normalized with constants := function.constants }
          (⟨offset + output.length, suffix⟩, later) ∧
      (Function.read options table read.noting).run (⟨offset, output ++ suffix⟩, state, []) =
        .ok { function.toFrame.normalized with constants := function.constants }
          (⟨offset + output.length, suffix⟩, later, places) ∧
      places.length = function.constants.length ∧
      places = Cursor.beginnings form suffix (offset + opening.length) function.constants := by
  obtain ⟨complete, rendered⟩ := Emission.result_eq_ok_iff.mp written
  obtain ⟨frameComplete, _⟩ := Emission.fault?_append_eq_none.mp complete
  rw [Function.emit, Emission.render_append _ _ frameComplete,
    Emission.render_concat_of_forms form writes] at rendered
  have opened := Frame.read_restores options inline function.toFrame function.constants.length
    frameComplete offset (function.constants.flatMap form ++ suffix)
  rw [← List.append_assoc, rendered] at opened
  generalize (function.toFrame.emit table function.constants.length).render options.order = opening
    at rendered opened
  have ended : offset + opening.length + (function.constants.flatMap form).length =
      offset + output.length := by
    rw [← rendered, List.length_append, Nat.add_assoc]
  obtain ⟨later, calls⟩ :=
    StatefulReader.calls_of_forms reads suffix (offset + opening.length) state
  rw [ended] at calls
  exact ⟨opening, later, _, rendered.symm, opened, run_read_of_calls opened calls,
    run_read_of_calls opened (calls.noted []), calls.length_places, rfl⟩

/-- The output of a constant that is a string. Nothing is written of the tag. -/
def emitString : Value → Emission
  | .string text => text.emit
  | _ => .nothing

def countString (strict : Bool) : StatefulReader Nat Value := do
  let text ← Text.read strict
  modify fun (cursor, count) => (cursor, count + 1)
  return .string text

private theorem run_countString {strict : Bool} {order : ByteOrder} {text : Text}
    (complete : text.emit.fault? = none) (offset : Nat) (rest : List UInt8) (count : Nat) :
    (countString strict).run (⟨offset, (emitString (.string text)).render order ++ rest⟩, count) =
      .ok (.string text)
        (⟨offset + ((emitString (.string text)).render order).length, rest⟩, count + 1) := by
  have run := Text.read_restores strict order text complete offset rest
  exact Reader.run_bind_of_ok (StatefulReader.run_lift_of_ok run count)

/-- A function with a debug record, two variables of a reserved kind and two strings, one of which is
not UTF-8. -/
def captioned (kind : UInt8) : Function Value where
  flags := ⟨0x0400⟩
  name := .string 54 "name"
  locals := [{ name := .int 1, kind := .reserved kind }]
  closureVars := [{ name := .int 2, kind := .reserved kind }]
  code := [0x29]
  debug? := some { fileName := .int 0, lineTable := [1] }
  constants := [.string ⟨false, .ofList [0x41]⟩, .string ⟨true, .ofList [0x42, 0xFF]⟩]

def captionedBytes : List UInt8 :=
  [0, 4, 0, 108, 0, 0, 0, 0, 1, 2, 1, 1, 3, 0, 0, 12, 5, 0, 192, 41, 1, 0, 1, 1, 2, 65, 5, 66, 255]

/-- A reserved kind of 28 is stored as 12, and comes back as that in front of constants that are as they
were. -/
theorem captioned_read_back :
    AtomTable.empty.dynamic.length ≤ AtomTable.maxDynamic ∧
    (∀ constant ∈ (captioned 28).constants, (emitString constant).result .little =
      .ok ((emitString constant).render .little)) ∧
    (∀ constant ∈ (captioned 28).constants, ∀ offset rest count, ∃ later,
      (countString true).run (⟨offset, (emitString constant).render .little ++ rest⟩, count) =
        .ok constant (⟨offset + ((emitString constant).render .little).length, rest⟩, later)) ∧
    ((captioned 28).emit .empty emitString).result .little = .ok captionedBytes ∧
    ∃ later places,
      (Function.read {} .empty (countString true)).run (⟨0, captionedBytes ++ [9]⟩, 0) =
        .ok (captioned 12) (⟨29, [9]⟩, later) ∧
      (Function.read {} .empty (countString true).noting).run (⟨0, captionedBytes ++ [9]⟩, 0, []) =
        .ok (captioned 12) (⟨29, [9]⟩, later, places) ∧
      places = [⟨24, [2, 65, 5, 66, 255, 9]⟩, ⟨26, [5, 66, 255, 9]⟩] := by
  have inline : AtomTable.empty.dynamic.length ≤ AtomTable.maxDynamic := by decide
  have complete : ∀ constant ∈ (captioned 28).constants,
      ∃ text, constant = .string text ∧ text.emit.fault? = none := by
    simp only [captioned, List.forall_mem_cons, List.not_mem_nil, false_implies, implies_true,
      and_true]
    exact ⟨⟨_, rfl, rfl⟩, ⟨_, rfl, rfl⟩⟩
  have writes : ∀ constant ∈ (captioned 28).constants, (emitString constant).result .little =
      .ok ((emitString constant).render .little) := by
    intro constant member
    obtain ⟨text, rfl, written⟩ := complete constant member
    exact Emission.result_eq_ok_iff.mpr ⟨written, rfl⟩
  have reads : ∀ constant ∈ (captioned 28).constants, ∀ offset rest count, ∃ later,
      (countString true).run (⟨offset, (emitString constant).render .little ++ rest⟩, count) =
        .ok constant (⟨offset + ((emitString constant).render .little).length, rest⟩, later) := by
    intro constant member offset rest count
    obtain ⟨text, rfl, written⟩ := complete constant member
    exact ⟨_, run_countString written offset rest count⟩
  have written : ((captioned 28).emit .empty emitString).result .little = .ok captionedBytes := rfl
  have stored : { (captioned 28).toFrame.normalized with constants := (captioned 28).constants } =
      captioned 12 := rfl
  obtain ⟨opening, later, places, whole, _, run, noted, _, beginnings⟩ :=
    @read_undoes_emit _ _ {} _ inline _ _ _ _ _ writes reads written [9] 0 0
  have opened : opening.length = 24 := by
    have length : 29 = opening.length + 5 := (congrArg List.length whole).trans List.length_append
    omega
  rw [stored] at run noted
  rw [opened] at beginnings
  exact ⟨inline, writes, reads, written, later, places, run, noted, beginnings⟩

end Function

end BytecodeObject
