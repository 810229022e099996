import Mathlib.Data.Finmap
import Mathlib.Logic.Function.Basic

/-!
# The lock registry

`LockRegistry` of `src/lock/registry.rs`: one mutex per `(action, identifier)`, created on demand
and removed as soon as nobody holds or wants it. Any number of tasks call `acquire` and later drop
the guard it returned; the model interleaves them one atomic operation at a time.

A task is one call of `acquire` together with the `LockGuard` it may produce. `Phase` is where it
stands, one constructor for each point between two atomic operations of `acquire`, `entry_for`,
`leave_queue`, `make_guard`, `prune` and `LockGuard::drop`. Three things are explicit that the
source has from its libraries:

* the shard mutex: `shardOwner` names the task inside the critical section of `entry_for` or
  `prune`, and a task that needs a shard waits until it is free;
* the `Arc`: an entry is an allocation, and `strong` is its strong count, raised by the clone in
  `entry_for` and lowered wherever a handle goes out of scope, which needs no lock;
* the semaphore: `permits` is what it has left. Tokio hands a permit to waiters in arrival order;
  here any parked task may take a free permit, and so may a newcomer, which allows more
  interleavings than the queue does.

`key_count` is a `usize` and the queue counters and the generation wrap as the atomics do.
-/

namespace Fareward.Lock

/-- `AcquireRequest`, less the lease, which only the connection reads. -/
structure AcquireRequest where
  action : UInt16
  identifier : Int64
  maxWaiters : UInt8
  waitMs : UInt32
  deriving DecidableEq

/-- `LockKey`: what a lock is taken on. -/
abbrev LockKey := UInt16 × Int64

def AcquireRequest.key (request : AcquireRequest) : LockKey :=
  (request.action, request.identifier)

/-- `LockLimits`, less `max_lease`, which `acquire` does not read. -/
structure LockLimits where
  maxKeys : UInt64
  maxTotalWaiters : UInt32
  deriving DecidableEq

/-- `LockEntry` behind its `Arc`. -/
structure LockEntry where
  /-- What the semaphore has left of its one permit. -/
  permits : Nat
  queued : UInt32
  /-- `Arc::strong_count` of the allocation. -/
  strong : Nat
  deriving DecidableEq

/-- How a task ends: `acquire` refused, the guard was dropped, or the future was. -/
inductive Ending
  | busy
  | waitTimeout
  | capacity
  | released
  | cancelled
  deriving DecidableEq

/-- What `leave_queue` is followed by: the guard, or the end of a call that got no permit. -/
inductive Waited
  | permit
  | ended (ending : Ending)
  deriving DecidableEq

/-- Where a task stands. `entry` is the handle it owns. -/
inductive Phase
  /-- `acquire` called, `entry_for` not entered. -/
  | start
  /-- `entry_for`, shard locked, before the lookup. -/
  | lookup
  /-- `entry_for`, shard locked, the key is absent and below the ceiling. -/
  | insert
  /-- `entry_for`, shard locked, the entry is in the map and `key_count` not yet raised. -/
  | count (entry : Nat)
  /-- `acquire` before `try_acquire_owned`. -/
  | tryAcquire (entry : Nat)
  /-- The permit is taken by another; before `queued.fetch_add`. -/
  | enqueue (entry : Nat)
  /-- Before `total_queued.fetch_add`. -/
  | enqueueTotal (entry : Nat) (queuedBefore : UInt32)
  /-- Before the refusal is decided. -/
  | refusal (entry : Nat) (queuedBefore totalBefore : UInt32)
  /-- At the await of `acquire_owned`. -/
  | parked (entry : Nat)
  /-- `leave_queue` before `queued.fetch_sub`. -/
  | leave (entry : Nat) (waited : Waited)
  /-- `leave_queue` before `total_queued.fetch_sub`. -/
  | leaveTotal (entry : Nat) (waited : Waited)
  /-- `make_guard` before `next_generation.fetch_add`, the permit in hand. -/
  | stamp (entry : Nat)
  /-- `make_guard` again, the first generation having been zero. -/
  | restamp (entry : Nat)
  /-- The `LockGuard` is alive and holds its permit. -/
  | holding (entry : Nat) (generation : UInt16)
  /-- Before `prune` locks the shard. -/
  | prune (entry : Nat) (ending : Ending)
  /-- `prune`, shard locked, before the strong count is read. -/
  | pruneCheck (entry : Nat) (ending : Ending)
  /-- `prune`, shard locked, the strong count was two. -/
  | pruneRemove (entry : Nat) (ending : Ending)
  /-- `prune`, shard locked, the key is removed and `key_count` not yet lowered. -/
  | pruneCount (entry : Nat) (ending : Ending)
  /-- Nothing left to do but let the handle go out of scope. -/
  | drop (entry : Nat) (ending : Ending)
  | done (ending : Ending)
  deriving DecidableEq

/-- One call of `acquire` and the guard it returned. -/
structure Acquire where
  request : AcquireRequest
  phase : Phase
  deriving DecidableEq

structure LockRegistry where
  shardCount : Nat
  limits : LockLimits
  /-- The maps of all shards; a key is only ever looked up in its own shard. -/
  entries : Finmap fun _ : LockKey => Nat
  shardOwner : Nat → Option Nat
  totalQueued : UInt32
  keyCount : UInt64
  nextGeneration : UInt16
  /-- The `Arc` allocations, of which the first `allocated` exist. -/
  heap : Nat → LockEntry
  allocated : Nat
  tasks : List Acquire

namespace LockRegistry

/-- `LockRegistry::new`. -/
def new (shardCount : Nat) (limits : LockLimits) : LockRegistry where
  shardCount := max shardCount 1
  limits := limits
  entries := ∅
  shardOwner := fun _ => none
  totalQueued := 0
  keyCount := 0
  nextGeneration := 0
  heap := fun _ => ⟨0, 0, 0⟩
  allocated := 0
  tasks := []

/-- `shard_index`: Fibonacci hashing of the identifier, the action in its top bits. -/
def shardIndex (r : LockRegistry) (key : LockKey) : Nat :=
  let mixed := (key.2.toUInt64 ^^^ (key.1.toUInt64 <<< 48)) * 0x9E3779B97F4A7C15
  (mixed >>> 32).toNat % r.shardCount

/-! ### Updates -/

def setPhase (r : LockRegistry) (i : Nat) (phase : Phase) : LockRegistry :=
  { r with tasks := r.tasks.modify i fun task => { task with phase } }

def modifyEntry (r : LockRegistry) (entry : Nat) (f : LockEntry → LockEntry) : LockRegistry :=
  { r with heap := Function.update r.heap entry (f (r.heap entry)) }

/-- `Arc::clone`. -/
def cloneHandle (r : LockRegistry) (entry : Nat) : LockRegistry :=
  r.modifyEntry entry fun e => { e with strong := e.strong + 1 }

/-- A handle goes out of scope. -/
def dropHandle (r : LockRegistry) (entry : Nat) : LockRegistry :=
  r.modifyEntry entry fun e => { e with strong := e.strong - 1 }

/-- The semaphore gives its permit out. -/
def takePermit (r : LockRegistry) (entry : Nat) : LockRegistry :=
  r.modifyEntry entry fun e => { e with permits := e.permits - 1 }

/-- `self.permit = None`. -/
def returnPermit (r : LockRegistry) (entry : Nat) : LockRegistry :=
  r.modifyEntry entry fun e => { e with permits := e.permits + 1 }

def addQueued (r : LockRegistry) (entry : Nat) (by_ : UInt32) : LockRegistry :=
  r.modifyEntry entry fun e => { e with queued := e.queued + by_ }

def lockShard (r : LockRegistry) (shard i : Nat) : LockRegistry :=
  { r with shardOwner := Function.update r.shardOwner shard (some i) }

def unlockShard (r : LockRegistry) (shard : Nat) : LockRegistry :=
  { r with shardOwner := Function.update r.shardOwner shard none }

/-! ### The steps of one task -/

/-- The next atomic operation of task `i`, which stands at `phase`. -/
def advance (r : LockRegistry) (i : Nat) (request : AcquireRequest) :
    Phase → Option LockRegistry
  -- `entry_for`
  | .start =>
    if r.shardOwner (r.shardIndex request.key) = none then
      some ((r.lockShard (r.shardIndex request.key) i).setPhase i .lookup)
    else none
  | .lookup =>
    match r.entries.lookup request.key with
    | some entry =>
      some (((r.cloneHandle entry).unlockShard (r.shardIndex request.key)).setPhase i
        (.tryAcquire entry))
    | none =>
      if r.limits.maxKeys ≤ r.keyCount then
        some ((r.unlockShard (r.shardIndex request.key)).setPhase i (.done .capacity))
      else some (r.setPhase i .insert)
  | .insert =>
    -- `Arc::new`, one handle for the map and one for the caller
    some ({ r with
      heap := Function.update r.heap r.allocated ⟨1, 0, 2⟩
      allocated := r.allocated + 1
      entries := r.entries.insert request.key r.allocated }.setPhase i (.count r.allocated))
  | .count entry =>
    some (({ r with keyCount := r.keyCount + 1 }.unlockShard (r.shardIndex request.key)).setPhase i
      (.tryAcquire entry))
  -- `acquire`
  | .tryAcquire entry =>
    if 0 < (r.heap entry).permits then some ((r.takePermit entry).setPhase i (.stamp entry))
    else some (r.setPhase i (.enqueue entry))
  | .enqueue entry =>
    some ((r.addQueued entry 1).setPhase i (.enqueueTotal entry (r.heap entry).queued))
  | .enqueueTotal entry queuedBefore =>
    some ({ r with totalQueued := r.totalQueued + 1 }.setPhase i
      (.refusal entry queuedBefore r.totalQueued))
  | .refusal entry queuedBefore totalBefore =>
    if request.maxWaiters.toUInt32 ≤ queuedBefore then
      some (r.setPhase i (.leave entry (.ended .busy)))
    else if r.limits.maxTotalWaiters ≤ totalBefore then
      some (r.setPhase i (.leave entry (.ended .capacity)))
    else some (r.setPhase i (.parked entry))
  | .parked entry =>
    if 0 < (r.heap entry).permits then
      some ((r.takePermit entry).setPhase i (.leave entry .permit))
    else none
  -- `leave_queue`
  | .leave entry waited => some ((r.addQueued entry (-1)).setPhase i (.leaveTotal entry waited))
  | .leaveTotal entry waited =>
    let r' := { r with totalQueued := r.totalQueued - 1 }
    match waited with
    | .permit => some (r'.setPhase i (.stamp entry))
    | .ended ending => some (r'.setPhase i (.prune entry ending))
  -- `make_guard`
  | .stamp entry =>
    let r' := { r with nextGeneration := r.nextGeneration + 1 }
    if r.nextGeneration + 1 = 0 then some (r'.setPhase i (.restamp entry))
    else some (r'.setPhase i (.holding entry (r.nextGeneration + 1)))
  | .restamp entry =>
    some ({ r with nextGeneration := r.nextGeneration + 1 }.setPhase i
      (.holding entry (r.nextGeneration + 1)))
  -- a live guard waits for its owner
  | .holding _ _ => none
  -- `prune`
  | .prune entry ending =>
    if r.shardOwner (r.shardIndex request.key) = none then
      some ((r.lockShard (r.shardIndex request.key) i).setPhase i (.pruneCheck entry ending))
    else none
  | .pruneCheck entry ending =>
    if (r.heap entry).strong = 2 then some (r.setPhase i (.pruneRemove entry ending))
    else some ((r.unlockShard (r.shardIndex request.key)).setPhase i (.drop entry ending))
  | .pruneRemove entry ending =>
    match r.entries.lookup request.key with
    | some removed =>
      some (({ r with entries := r.entries.erase request.key }.dropHandle removed).setPhase i
        (.pruneCount entry ending))
    | none => some ((r.unlockShard (r.shardIndex request.key)).setPhase i (.drop entry ending))
  | .pruneCount entry ending =>
    some (({ r with keyCount := r.keyCount - 1 }.unlockShard (r.shardIndex request.key)).setPhase i
      (.drop entry ending))
  | .drop entry ending => some ((r.dropHandle entry).setPhase i (.done ending))
  | .done _ => none

/-! ### The machine -/

inductive Action
  /-- A new call of `acquire`. -/
  | acquire (request : AcquireRequest)
  /-- Task `i` performs its next atomic operation. -/
  | run (i : Nat)
  /-- The wait of the parked task `i` elapses. -/
  | elapse (i : Nat)
  /-- The future of the parked task `i` is dropped at its await: only its locals are. -/
  | cancel (i : Nat)
  /-- The guard of task `i` is dropped, on release, lease expiry or disconnect. -/
  | release (i : Nat)
  deriving DecidableEq

def step (r : LockRegistry) : Action → Option LockRegistry
  | .acquire request => some { r with tasks := r.tasks ++ [⟨request, .start⟩] }
  | .run i => r.tasks[i]?.bind fun task => r.advance i task.request task.phase
  | .elapse i => r.tasks[i]?.bind fun task =>
    match task.phase with
    | .parked entry => some (r.setPhase i (.leave entry (.ended .waitTimeout)))
    | _ => none
  | .cancel i => r.tasks[i]?.bind fun task =>
    match task.phase with
    | .parked entry => some ((r.dropHandle entry).setPhase i (.done .cancelled))
    | _ => none
  | .release i => r.tasks[i]?.bind fun task =>
    match task.phase with
    | .holding entry _ => some ((r.returnPermit entry).setPhase i (.prune entry .released))
    | _ => none

end LockRegistry

end Fareward.Lock
