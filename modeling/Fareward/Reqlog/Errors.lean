import Fareward.Lib.Finmap
import Mathlib.Data.List.MinMax

/-!
# The gate of the error rows

`src/reqlog/errors.rs`: a code line that fails is written to `request_errors` once in a while only.
The gate remembers when it last let each line through, for a bounded number of them; a new line
drives out the one that was let through longest ago.

An `Instant` is a natural number, and `duration_since` an earlier one is zero. The map is iterated
in an order that a caller passes along. `GateRun` is a gate with the history of its answers, which
is not in the source.
-/

namespace Fareward.Reqlog

/-- `ErrorKey`: the id and the code line. -/
abbrev ErrorKey := Int32 × String

/-- `ErrorWriteGate`. -/
structure ErrorWriteGate where
  lastWritten : Finmap fun _ : ErrorKey => ℕ
  freshness : ℕ
  capacity : ℕ

namespace ErrorWriteGate

/-- `new`. -/
def new (freshness capacity : ℕ) : ErrorWriteGate := ⟨∅, freshness, max capacity 1⟩

/-- The entries in the order in which they are iterated. -/
def iter (gate : ErrorWriteGate) (order : List ErrorKey) : List (ErrorKey × ℕ) :=
  order.filterMap fun key => (gate.lastWritten.lookup key).map fun writtenAt => (key, writtenAt)

/-- `evict_oldest`. -/
def evictOldest (gate : ErrorWriteGate) (order : List ErrorKey) : ErrorWriteGate :=
  match (gate.iter order).argmin Prod.snd with
  | some (oldest, _) => { gate with lastWritten := gate.lastWritten.erase oldest }
  | none => gate

/-- `should_write`. -/
def shouldWrite (gate : ErrorWriteGate) (order : List ErrorKey) (key : ErrorKey) (now : ℕ) :
    Bool × ErrorWriteGate :=
  if (gate.lastWritten.lookup key).any fun writtenAt => now - writtenAt < gate.freshness then
    (false, gate)
  else
    let gate :=
      if gate.capacity ≤ gate.lastWritten.keys.card ∧ key ∉ gate.lastWritten then
        gate.evictOldest order
      else gate
    (true, { gate with lastWritten := gate.lastWritten.insert key now })

end ErrorWriteGate

/-! ### Runs -/

/-- An answer of the gate, with the keys that went while it was given. -/
structure Answer where
  key : ErrorKey
  now : ℕ
  written : Bool
  evicted : Finset ErrorKey

/-- A gate and its answers, the last one first. -/
structure GateRun where
  gate : ErrorWriteGate
  history : List Answer

/-- A call of `should_write`, with the order in which it may iterate the map. -/
structure GateCall where
  key : ErrorKey
  now : ℕ
  order : List ErrorKey

namespace GateRun

def new (freshness capacity : ℕ) : GateRun := ⟨.new freshness capacity, []⟩

def step (run : GateRun) (call : GateCall) : Option GateRun :=
  if Enumerates call.order run.gate.lastWritten.keys then
    let (written, gate) := run.gate.shouldWrite call.order call.key call.now
    let evicted := run.gate.lastWritten.keys \ gate.lastWritten.keys
    some ⟨gate, ⟨call.key, call.now, written, evicted⟩ :: run.history⟩
  else none

end GateRun

end Fareward.Reqlog
