import BytecodeObject.ByteOrder
import BytecodeObject.Double
import BytecodeObject.Fault

set_option autoImplicit false

/-!
# Readers

A reader moves a cursor over bytes that are still unread and ends with a result or a fault. Where a
fault ends it the cursor stays where it was reached, so that reading can go on from there.
-/

namespace BytecodeObject

/-- A place in a byte string: how many bytes are before it, and the bytes that are unread. -/
structure Cursor where
  offset : Nat
  rest : List UInt8
  deriving DecidableEq, Repr

namespace Cursor

def ofBytes (bytes : List UInt8) : Cursor where
  offset := 0
  rest := bytes

def remaining (cursor : Cursor) : Nat :=
  cursor.rest.length

def isAtEnd (cursor : Cursor) : Bool :=
  cursor.rest.isEmpty

end Cursor

abbrev Reader (α : Type) : Type :=
  EStateM Fault Cursor α

namespace Reader

/-!
## Elementary readers
-/

def fail {α : Type} (fault : Fault) : Reader α :=
  fun cursor => .error fault cursor

def position : Reader Nat :=
  fun cursor => .ok cursor.offset cursor

def byte : Reader UInt8 :=
  fun cursor =>
    match cursor.rest with
    | [] => .error (.unexpectedEnd cursor.offset 1 0) cursor
    | byte :: rest => .ok byte ⟨cursor.offset + 1, rest⟩

/-- Reads `count` bytes. Where fewer are left none is read. -/
def take (count : Nat) : Reader (List UInt8) :=
  fun cursor =>
    let bytes := cursor.rest.take count
    if bytes.length < count then
      .error (.unexpectedEnd cursor.offset count cursor.remaining) cursor
    else
      .ok bytes ⟨cursor.offset + count, cursor.rest.drop count⟩

@[simp] theorem run_fail {α : Type} (fault : Fault) (cursor : Cursor) :
    (fail fault : Reader α).run cursor = .error fault cursor := rfl

@[simp] theorem run_position (cursor : Cursor) :
    position.run cursor = .ok cursor.offset cursor := rfl

@[simp] theorem run_byte_nil (offset : Nat) :
    byte.run ⟨offset, []⟩ = .error (.unexpectedEnd offset 1 0) ⟨offset, []⟩ := rfl

@[simp] theorem run_byte_cons (offset : Nat) (first : UInt8) (rest : List UInt8) :
    byte.run ⟨offset, first :: rest⟩ = .ok first ⟨offset + 1, rest⟩ := rfl

/-- Taking fails exactly where fewer bytes are left than are asked for. -/
theorem run_take (count offset : Nat) (bytes : List UInt8) :
    (take count).run ⟨offset, bytes⟩ =
      if bytes.length < count then
        .error (.unexpectedEnd offset count bytes.length) ⟨offset, bytes⟩
      else
        .ok (bytes.take count) ⟨offset + count, bytes.drop count⟩ := by
  have fewer : (bytes.take count).length < count ↔ bytes.length < count := by
    rw [List.length_take]
    omega
  simp only [take, EStateM.run, fewer, Cursor.remaining]

/-- Bytes are taken exactly as they stand at the cursor. -/
theorem run_take_append (offset : Nat) (bytes rest : List UInt8) :
    (take bytes.length).run ⟨offset, bytes ++ rest⟩ = .ok bytes ⟨offset + bytes.length, rest⟩ := by
  simp [run_take]

/-!
## Fixed-width fields
-/

def word16 (order : ByteOrder) : Reader UInt16 := do
  return UInt16.ofNat (order.decode (← take 2))

def double (order : ByteOrder) : Reader Double := do
  return Double.mk (UInt64.ofNat (order.decode (← take 8)))

/-!
## Repetition
-/

section Repetition

variable {μ : Type → Type} [Monad μ] {α : Type}

@[specialize]
def timesOnto (reader : μ α) : (count : Nat) → List α → μ (List α)
  | 0, results => return results.reverse
  | count + 1, results => do
      let result ← reader
      timesOnto reader count (result :: results)

/-- Runs a reader `count` times and collects the results in order. The first fault ends the run. What
reads may have effects besides, such as a state of its own. -/
@[inline]
def times (count : Nat) (reader : μ α) : μ (List α) :=
  timesOnto reader count []

private theorem timesOnto_eq [LawfulMonad μ] (reader : μ α) (count : Nat) (results : List α) :
    timesOnto reader count results = (results.reverse ++ ·) <$> times count reader := by
  induction count generalizing results with
  | zero => simp [times, timesOnto]
  | succ count countIH =>
      simp only [times, timesOnto, map_bind]
      congr 1
      funext result
      rw [countIH (result :: results), countIH [result]]
      simp

@[simp] theorem times_zero (reader : μ α) : times 0 reader = pure [] := rfl

theorem times_succ [LawfulMonad μ] (reader : μ α) (count : Nat) :
    times (count + 1) reader = do
      let result ← reader
      let results ← times count reader
      return result :: results := by
  simp only [times, timesOnto]
  congr 1
  funext result
  rw [timesOnto_eq]
  simp [times]

end Repetition

end Reader

end BytecodeObject
