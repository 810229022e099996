import Mathlib.Data.List.AList
import Fareward.Lock.Registry

/-!
# The locks of a connection

The holds that the daemon grants on one connection, and the `Lock` that the client makes of each:
`newLock`, `Release` and `handlePush` of `go/locks.go` and `go/connection.go` on the client's side,
and on the daemon's the life of a hold in `handle_connection`.

A hold and its `Lock` are one row of `holds`; the `Lock` of hold `h` is named `h`. What connects
the sides:

* the handler of the acquire sends the grant after it has reported the hold to the reader loop, and
  the loop sends a `LockLost` for a hold after it has dropped it. The two go through one channel
  from different tasks: they reach the socket in either order, and so may the next grant of the key;
* `readLoop` reads them in the order of the socket. It hands a grant to the caller of `Acquire`,
  who registers the `Lock` in `held` in a step of its own; and it looks a push up in `held` by the
  key alone;
* the registry has one permit per key, so a key is granted again only after the hold before has been
  dropped or released.

A push names the key only: the hold in a message of `wire`, and `told`, are not in the source.
-/

namespace Fareward.Client

open Lock

/-- What becomes of a hold at the daemon. -/
inductive HoldPhase
  | held
  /-- Dropped by `drop_expired`. -/
  | expired
  /-- Ended by a release frame. -/
  | released
  deriving DecidableEq

/-- What becomes of the `Lock` of a hold at the client. -/
inductive LockPhase
  /-- The grant is not read yet. -/
  | awaited
  /-- Handed to the caller, which has not run `registerHeld` yet. -/
  | handed
  | registered
  /-- `Release` has closed `done` and is at `forgetHeld`. -/
  | releasing
  | forgotten
  /-- The caller had stopped waiting: there is no `Lock`, and the grant is given back. -/
  | abandoned
  deriving DecidableEq

/-- What closed a `Lost` channel first. -/
inductive LostCause
  /-- The `LockLost` push for the hold. -/
  | push (h : Nat)
  /-- The local timer, or the end of the connection. -/
  | watcher
  deriving DecidableEq

structure Hold where
  key : LockKey
  phase : HoldPhase
  grantSent : Bool
  pushSent : Bool
  /-- The push for the hold has been read. -/
  told : Bool
  lock : LockPhase
  lost : Option LostCause
  deriving DecidableEq

inductive Message
  | lockGranted (h : Nat)
  | lockLost (h : Nat)
  deriving DecidableEq

structure LockTable where
  holds : List Hold
  /-- The registered locks, by key. -/
  held : AList fun _ : LockKey => Nat
  /-- What the daemon has written and `readLoop` has not read. -/
  wire : List Message

namespace LockTable

def new : LockTable := ⟨[], ∅, []⟩

def setHold (table : LockTable) (h : Nat) (hold : Hold) : LockTable :=
  { table with holds := table.holds.set h hold }

/-- `markLost`: a channel is closed once. -/
def markLost (table : LockTable) (h : Nat) (cause : LostCause) : LockTable :=
  { table with
    holds := table.holds.modify h fun hold => { hold with lost := hold.lost.or (some cause) } }

/-- `handlePush`, of the push for hold `h` of the key. -/
def handlePush (table : LockTable) (h : Nat) (key : LockKey) : LockTable :=
  let table' := { table with held := table.held.erase key }
  match table.held.lookup key with
  | some lock => table'.markLost lock (.push h)
  | none => table'

inductive Action
  /-- The registry hands the key to an acquire of the connection. -/
  | grant (key : LockKey)
  | sendGrant (h : Nat)
  | expire (h : Nat)
  | sendPush (h : Nat)
  /-- `readLoop` reads a message; a grant may find its caller gone. -/
  | read (abandoned : Bool)
  /-- `newLock`. -/
  | register (h : Nat)
  /-- `Release`. -/
  | release (h : Nat)
  | forgetHeld (h : Nat)
  /-- The daemon ends the hold for a release frame. -/
  | releaseHold (h : Nat)
  /-- The watcher of the `Lock` reports it lost. -/
  | lapse (h : Nat)
  deriving DecidableEq

def step (table : LockTable) : Action → Option LockTable
  | .grant key =>
    if ∀ hold ∈ table.holds, hold.key = key → hold.phase ≠ .held then
      some { table with
        holds := table.holds ++ [⟨key, .held, false, false, false, .awaited, none⟩] }
    else none
  | .sendGrant h =>
    table.holds[h]?.bind fun hold =>
      if hold.grantSent = false then
        some { table.setHold h { hold with grantSent := true } with
          wire := table.wire ++ [.lockGranted h] }
      else none
  | .expire h =>
    table.holds[h]?.bind fun hold =>
      if hold.phase = .held then some (table.setHold h { hold with phase := .expired }) else none
  | .sendPush h =>
    table.holds[h]?.bind fun hold =>
      if hold.phase = .expired ∧ hold.pushSent = false then
        some { table.setHold h { hold with pushSent := true } with
          wire := table.wire ++ [.lockLost h] }
      else none
  | .read abandoned =>
    match table.wire with
    | .lockGranted h :: wire =>
      table.holds[h]?.map fun hold =>
        { table.setHold h { hold with lock := if abandoned then .abandoned else .handed } with
          wire }
    | .lockLost h :: wire =>
      table.holds[h]?.map fun hold =>
        { table.setHold h { hold with told := true } with wire }.handlePush h hold.key
    | [] => none
  | .register h =>
    table.holds[h]?.bind fun hold =>
      if hold.lock = .handed then
        some { table.setHold h { hold with lock := .registered } with
          held := table.held.insert hold.key h }
      else none
  | .release h =>
    table.holds[h]?.bind fun hold =>
      if hold.lock = .registered then some (table.setHold h { hold with lock := .releasing })
      else none
  | .forgetHeld h =>
    table.holds[h]?.bind fun hold =>
      if hold.lock = .releasing then
        some { table.setHold h { hold with lock := .forgotten } with
          held := table.held.erase hold.key }
      else none
  | .releaseHold h =>
    table.holds[h]?.bind fun hold =>
      if hold.phase = .held ∧ (hold.lock = .forgotten ∨ hold.lock = .abandoned) then
        some (table.setHold h { hold with phase := .released })
      else none
  | .lapse h =>
    table.holds[h]?.bind fun hold =>
      if hold.lock = .registered ∨ hold.lock = .releasing ∨ hold.lock = .forgotten then
        some (table.markLost h .watcher)
      else none

end LockTable

end Fareward.Client
