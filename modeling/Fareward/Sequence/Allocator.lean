import Mathlib.Data.Finmap
import Mathlib.Logic.Function.Basic
import Fareward.Lib.Checked

/-!
# The sequence allocator

`SequenceAllocator` of `src/sequence/allocator.rs` over the `SequenceStore` of
`src/sequence/store.rs`: hi-lo block allocation over durable counters. `reserve` hands out values
from a block in memory and bumps the counter by a whole block when the block is spent; `set` moves
the counter to a value and drops the block.

Any number of calls run at once, one atomic operation at a time. `Phase` is where a call stands,
one constructor for each point between two such operations, with every await of the source among
them. As in the lock registry the shard mutex is `shardOwner` and an `Arc` is an allocation with a
strong count; the inner `tokio` mutex is the `holder` of the cell. The rest of the world is
explicit too:

* a store call takes effect and answers in two steps, so that it can fail, or its future be
  dropped, before or after the effect;
* a counter update that was sent and whose call is gone is `late`: it may still take effect at any
  time, also after a restart;
* a crash loses the memory and keeps the counters and the late updates;
* `log` records what the calls answered, newest first, each reservation with the durable counter
  at that moment. The entries are made under the counter's mutex.

`DefaultHasher` is the parameter `hash`.
-/

namespace Fareward.Sequence

/-- `SequenceLimits`. -/
structure SequenceLimits where
  blockSize : UInt32
  maxTrackedNames : UInt64
  deriving DecidableEq

/-- `SequenceState`: the range the process owns for one counter. -/
structure SequenceState where
  /-- Next value to hand out. -/
  next : Int
  /-- Last value the process owns. -/
  end_ : Int
  deriving DecidableEq

namespace SequenceState

def empty : SequenceState := ⟨1, 0⟩

def isSpent (s : SequenceState) : Bool := s.end_ < s.next

/-- `take`: the first of `increment` consecutive values and the state without them. -/
def take (s : SequenceState) (increment : Int) : Option (Int × SequenceState) :=
  (checkedI64 (s.next + (increment - 1))).bind fun last =>
    if s.end_ < last then none else some (s.next, { s with next := wrapI64 (last + 1) })

end SequenceState

inductive Call
  | reserve (name : String) (increment : UInt32)
  | set (name : String) (value : Int)
  deriving DecidableEq

def Call.name : Call → String
  | .reserve name _ => name
  | .set name _ => name

/-- What a call ends with. -/
inductive Outcome
  /-- `reserve` returned the first of its values. -/
  | reserved (start : Int)
  /-- `set` returned what the counter held before. -/
  | previous (value : Int)
  | failed (message : String)
  | cancelled
  deriving DecidableEq

/-- Where a call stands. `entry` is the handle it owns. -/
inductive Phase
  /-- `entry_for` not entered. -/
  | start
  /-- `entry_for`, shard locked, before the lookup. -/
  | lookup
  /-- `entry_for`, shard locked, the name is absent and the ceiling reached. -/
  | ceiling
  /-- `prune_spent`, shard locked, before the strong count of the next entry is read. -/
  | pruning (todo : List String) (removed : Nat)
  /-- `prune_spent`, shard locked, the strong count of `name`'s entry was one. -/
  | pruneTest (name : String) (entry : Nat) (todo : List String) (removed : Nat)
  /-- `entry_for`, shard locked, before the second look at the ceiling. -/
  | recheck
  /-- `entry_for`, shard locked, the name is absent and there is room. -/
  | insert
  /-- `entry_for`, shard locked, the entry is in the map and `tracked_names` not yet raised. -/
  | count (entry : Nat)
  /-- At the await of the entry's mutex. -/
  | waiting (entry : Nat)
  /-- `reserve` with the mutex, before `take`. -/
  | take (entry : Nat)
  /-- `reserve` at the await of the counter update. -/
  | bump (entry : Nat) (block : Int) (landed : Bool)
  /-- `reserve` at the await of the read-back. -/
  | read (entry : Nat) (block : Int)
  /-- `claim_block` before it decides. -/
  | claim (entry : Nat) (block reached : Int)
  /-- `claim_block` at the await of the correcting update. -/
  | repair (entry : Nat) (block correction : Int) (landed : Bool)
  /-- `set` at the await of the read. -/
  | setRead (entry : Nat)
  /-- `set` before the delta is computed. -/
  | setDelta (entry : Nat) (previous : Int)
  /-- `set` at the await of the counter update. -/
  | setBump (entry : Nat) (previous delta : Int) (landed : Bool)
  /-- The call is over; the mutex guard goes out of scope. -/
  | unlock (entry : Nat) (outcome : Outcome)
  /-- The handle goes out of scope. -/
  | drop (entry : Nat) (outcome : Outcome)
  | done (outcome : Outcome)
  deriving DecidableEq

/-- What a call does first with the mutex. -/
def Call.enter (entry : Nat) : Call → Phase
  | .reserve _ _ => .take entry
  | .set _ _ => .setRead entry

structure Task where
  call : Call
  phase : Phase
  deriving DecidableEq

/-- The update that a task has sent and that has not taken effect. -/
def Task.unlanded (task : Task) : Option (String × Int) :=
  match task.phase with
  | .bump _ block false => some (task.call.name, block)
  | .repair _ _ correction false => some (task.call.name, correction)
  | .setBump _ _ delta false => some (task.call.name, delta)
  | _ => none

/-- One `Arc<Mutex<SequenceState>>`. -/
structure Cell where
  state : SequenceState
  /-- The task that has the mutex. -/
  holder : Option Nat
  /-- `Arc::strong_count` of the allocation. -/
  strong : Nat
  deriving DecidableEq

/-- What the calls answered. -/
inductive Event
  /-- `reserve` returned `[start, start + increment)` while the durable counter was `counter`. -/
  | issued (name : String) (start : Int) (increment : UInt32) (counter : Int)
  /-- `set` succeeded. -/
  | set (name : String) (value : Int)
  deriving DecidableEq

structure SequenceAllocator where
  shardCount : Nat
  hash : String → UInt64
  limits : SequenceLimits
  /-- The maps of all shards; a name is only ever looked up in its own shard. -/
  entries : Finmap fun _ : String => Nat
  shardOwner : Nat → Option Nat
  trackedNames : UInt64
  heap : Nat → Cell
  allocated : Nat
  tasks : List Task
  /-- The durable counters; a row that does not exist reads as zero. -/
  counters : String → Int
  /-- Counter updates in flight whose call is gone. -/
  late : List (String × Int)
  log : List Event

namespace SequenceAllocator

/-- `SequenceAllocator::new` over a store that holds `counters`. -/
def new (shardCount : Nat) (hash : String → UInt64) (limits : SequenceLimits)
    (counters : String → Int) : SequenceAllocator where
  shardCount := max shardCount 1
  hash := hash
  limits := limits
  entries := ∅
  shardOwner := fun _ => none
  trackedNames := 0
  heap := fun _ => ⟨.empty, none, 0⟩
  allocated := 0
  tasks := []
  counters := counters
  late := []
  log := []

/-- `shard_index`. -/
def shardIndex (a : SequenceAllocator) (name : String) : Nat :=
  (a.hash name >>> 32).toNat % a.shardCount

/-! ### Updates -/

def setPhase (a : SequenceAllocator) (i : Nat) (phase : Phase) : SequenceAllocator :=
  { a with tasks := a.tasks.modify i fun task => { task with phase } }

def modifyCell (a : SequenceAllocator) (entry : Nat) (f : Cell → Cell) : SequenceAllocator :=
  { a with heap := Function.update a.heap entry (f (a.heap entry)) }

/-- `Arc::clone`. -/
def cloneHandle (a : SequenceAllocator) (entry : Nat) : SequenceAllocator :=
  a.modifyCell entry fun c => { c with strong := c.strong + 1 }

/-- A handle goes out of scope. -/
def dropHandle (a : SequenceAllocator) (entry : Nat) : SequenceAllocator :=
  a.modifyCell entry fun c => { c with strong := c.strong - 1 }

def setHolder (a : SequenceAllocator) (entry : Nat) (holder : Option Nat) : SequenceAllocator :=
  a.modifyCell entry fun c => { c with holder }

def setState (a : SequenceAllocator) (entry : Nat) (state : SequenceState) : SequenceAllocator :=
  a.modifyCell entry fun c => { c with state }

def lockShard (a : SequenceAllocator) (shard i : Nat) : SequenceAllocator :=
  { a with shardOwner := Function.update a.shardOwner shard (some i) }

def unlockShard (a : SequenceAllocator) (shard : Nat) : SequenceAllocator :=
  { a with shardOwner := Function.update a.shardOwner shard none }

/-- A counter update takes effect. -/
def addCounter (a : SequenceAllocator) (name : String) (by_ : Int) : SequenceAllocator :=
  { a with counters := Function.update a.counters name (a.counters name + by_) }

def record (a : SequenceAllocator) (event : Event) : SequenceAllocator :=
  { a with log := event :: a.log }

/-- An update that has not taken effect is left behind by its call. -/
def leaveBehind (a : SequenceAllocator) (name : String) (by_ : Int) (landed : Bool) :
    SequenceAllocator :=
  if landed then a else { a with late := (name, by_) :: a.late }

/-! ### The steps of one call -/

/-- The names of the shard that `name` is in. -/
def shardNames (a : SequenceAllocator) (name : String) : Finset String :=
  a.entries.keys.filter fun other => a.shardIndex other = a.shardIndex name

/-- The end of `reserve`: the claimed block is stored and the request taken out of it. -/
def install (a : SequenceAllocator) (i : Nat) (name : String) (increment : UInt32) (entry : Nat)
    (block : SequenceState) : SequenceAllocator :=
  match block.take increment.toNat with
  | some (start, state) =>
    (((a.setState entry state).record (.issued name start increment (a.counters name))).setPhase i
      (.unlock entry (.reserved start)))
  | none =>
    (a.setState entry block).setPhase i
      (.unlock entry (.failed "a freshly claimed block must cover the request that loaded it"))

/-- The end of `set`. -/
def finishSet (a : SequenceAllocator) (i : Nat) (name : String) (value : Int) (entry : Nat)
    (previous : Int) : SequenceAllocator :=
  ((a.setState entry .empty).record (.set name value)).setPhase i
    (.unlock entry (.previous previous))

/-- `claim_block` up to its update. -/
def claimBlock (a : SequenceAllocator) (i : Nat) (name : String) (increment : UInt32) (entry : Nat)
    (block reached : Int) : SequenceAllocator :=
  match (checkedI64 (reached - block)).bind fun previous => checkedI64 (previous + 1) with
  | none =>
    a.setPhase i (.unlock entry (.failed s!"sequences counter {name} overflowed at {reached}"))
  | some firstOwned =>
    if 0 < firstOwned then a.install i name increment entry ⟨firstOwned, reached⟩
    else
      match checkedI64 (block - reached) with
      | none => a.setPhase i
        (.unlock entry (.failed s!"sequences counter {name} cannot be repaired from {reached}"))
      | some correction => a.setPhase i (.repair entry block correction false)

/-- The next atomic operation of a `reserve` that has the mutex of its counter. -/
def advanceReserve (a : SequenceAllocator) (i : Nat) (name : String) (increment : UInt32) :
    Phase → Option SequenceAllocator
  | .take entry =>
    match (a.heap entry).state.take increment.toNat with
    | some (start, state) =>
      some (((a.setState entry state).record
        (.issued name start increment (a.counters name))).setPhase i
          (.unlock entry (.reserved start)))
    | none =>
      some (a.setPhase i (.bump entry (max increment.toNat a.limits.blockSize.toNat) false))
  | .bump entry block true => some (a.setPhase i (.read entry block))
  | .read entry block => some (a.setPhase i (.claim entry block (a.counters name)))
  | .claim entry block reached => some (a.claimBlock i name increment entry block reached)
  | .repair entry block _ true => some (a.install i name increment entry ⟨1, block⟩)
  | _ => none

/-- The next atomic operation of a `set` that has the mutex of its counter. -/
def advanceSet (a : SequenceAllocator) (i : Nat) (name : String) (value : Int) :
    Phase → Option SequenceAllocator
  | .setRead entry => some (a.setPhase i (.setDelta entry (a.counters name)))
  | .setDelta entry previous =>
    match checkedI64 (value - previous) with
    | none => some (a.setPhase i (.unlock entry
      (.failed s!"sequences counter {name} cannot move from {previous} to {value}")))
    | some delta =>
      if delta = 0 then some (a.finishSet i name value entry previous)
      else some (a.setPhase i (.setBump entry previous delta false))
  | .setBump entry previous _ true => some (a.finishSet i name value entry previous)
  | _ => none

/-- The next atomic operation of a call that has the mutex of its counter. -/
def advanceHeld (a : SequenceAllocator) (i : Nat) (call : Call) (phase : Phase) :
    Option SequenceAllocator :=
  match call with
  | .reserve name increment => a.advanceReserve i name increment phase
  | .set name value => a.advanceSet i name value phase

/-- The next atomic operation of task `i`, which stands at `phase`. -/
def advance (a : SequenceAllocator) (i : Nat) (call : Call) : Phase → Option SequenceAllocator
  -- `entry_for`
  | .start =>
    if a.shardOwner (a.shardIndex call.name) = none then
      some ((a.lockShard (a.shardIndex call.name) i).setPhase i .lookup)
    else none
  | .lookup =>
    match a.entries.lookup call.name with
    | some entry =>
      some (((a.cloneHandle entry).unlockShard (a.shardIndex call.name)).setPhase i
        (.waiting entry))
    | none =>
      if a.limits.maxTrackedNames ≤ a.trackedNames then some (a.setPhase i .ceiling)
      else some (a.setPhase i .insert)
  -- `prune_spent`
  | .pruning (name :: todo) removed =>
    match a.entries.lookup name with
    | some entry =>
      if 1 < (a.heap entry).strong then some (a.setPhase i (.pruning todo removed))
      else some (a.setPhase i (.pruneTest name entry todo removed))
    | none => some (a.setPhase i (.pruning todo removed))
  | .pruneTest name entry todo removed =>
    if (a.heap entry).holder = none ∧ (a.heap entry).state.isSpent = true then
      some (({ a with entries := a.entries.erase name }.dropHandle entry).setPhase i
        (.pruning todo (removed + 1)))
    else some (a.setPhase i (.pruning todo removed))
  | .pruning [] removed =>
    some ({ a with trackedNames := a.trackedNames - UInt64.ofNat removed }.setPhase i .recheck)
  | .recheck =>
    if a.limits.maxTrackedNames ≤ a.trackedNames then
      some ((a.unlockShard (a.shardIndex call.name)).setPhase i (.done (.failed (
        s!"sequence allocator is tracking {a.limits.maxTrackedNames} counter names, " ++
          "its configured ceiling"))))
    else some (a.setPhase i .insert)
  | .insert =>
    -- `Arc::new`, one handle for the map and one for the caller
    some ({ a with
      heap := Function.update a.heap a.allocated ⟨.empty, none, 2⟩
      allocated := a.allocated + 1
      entries := a.entries.insert call.name a.allocated }.setPhase i (.count a.allocated))
  | .count entry =>
    some (({ a with trackedNames := a.trackedNames + 1 }.unlockShard
      (a.shardIndex call.name)).setPhase i (.waiting entry))
  -- `reserve` and `set`
  | .waiting entry =>
    if (a.heap entry).holder = none then
      some ((a.setHolder entry (some i)).setPhase i (call.enter entry))
    else none
  | .unlock entry outcome => some ((a.setHolder entry none).setPhase i (.drop entry outcome))
  | .drop entry outcome => some ((a.dropHandle entry).setPhase i (.done outcome))
  | phase => a.advanceHeld i call phase

/-! ### The machine -/

inductive Action
  /-- A new call. -/
  | call (call : Call)
  /-- Task `i` performs its next atomic operation. -/
  | run (i : Nat)
  /-- `retain` of task `i` goes over its shard in this order. -/
  | retain (i : Nat) (order : List String)
  /-- The counter update of task `i` takes effect. -/
  | land (i : Nat)
  /-- The store call of task `i` fails. -/
  | fail (i : Nat)
  /-- The future of task `i` is dropped at its await. -/
  | cancel (i : Nat)
  /-- A late counter update takes effect. -/
  | landLate (k : Nat)
  | crash
  deriving DecidableEq

/-- The update that task `i` waits for takes effect. -/
def land (a : SequenceAllocator) (i : Nat) (name : String) : Phase → Option SequenceAllocator
  | .bump entry block false => some ((a.addCounter name block).setPhase i (.bump entry block true))
  | .repair entry block correction false =>
    some ((a.addCounter name correction).setPhase i (.repair entry block correction true))
  | .setBump entry previous delta false =>
    some ((a.addCounter name delta).setPhase i (.setBump entry previous delta true))
  | _ => none

/-- The store call that task `i` waits for is over, with an error or because the future is
dropped. An update that has not taken effect is left behind. -/
def abandon (a : SequenceAllocator) (i : Nat) (name : String) (outcome : Outcome) :
    Phase → Option SequenceAllocator
  | .bump entry block landed =>
    some ((a.leaveBehind name block landed).setPhase i (.unlock entry outcome))
  | .read entry _ => some (a.setPhase i (.unlock entry outcome))
  | .repair entry _ correction landed =>
    some ((a.leaveBehind name correction landed).setPhase i (.unlock entry outcome))
  | .setRead entry => some (a.setPhase i (.unlock entry outcome))
  | .setBump entry _ delta landed =>
    some ((a.leaveBehind name delta landed).setPhase i (.unlock entry outcome))
  | _ => none

/-- The error of the store call that a task waits for. -/
def storeError (name : String) : Phase → String
  | .read _ _ | .setRead _ => s!"sequences counter read failed for {name}"
  | _ => s!"sequences counter update failed for {name}"

/-- The process dies and starts again. -/
def restart (a : SequenceAllocator) : SequenceAllocator :=
  { new a.shardCount a.hash a.limits a.counters with
    shardCount := a.shardCount
    late := a.tasks.filterMap Task.unlanded ++ a.late
    log := a.log }

def step (a : SequenceAllocator) : Action → Option SequenceAllocator
  | .call call => some { a with tasks := a.tasks ++ [⟨call, .start⟩] }
  | .run i => a.tasks[i]?.bind fun task => a.advance i task.call task.phase
  | .retain i order => a.tasks[i]?.bind fun task =>
    if task.phase = .ceiling ∧ order.Nodup ∧ order.toFinset = a.shardNames task.call.name then
      some (a.setPhase i (.pruning order 0))
    else none
  | .land i => a.tasks[i]?.bind fun task => a.land i task.call.name task.phase
  | .fail i => a.tasks[i]?.bind fun task =>
    a.abandon i task.call.name (.failed (storeError task.call.name task.phase)) task.phase
  | .cancel i => a.tasks[i]?.bind fun task =>
    match task.phase with
    | .waiting entry => some (a.setPhase i (.drop entry .cancelled))
    | phase => a.abandon i task.call.name .cancelled phase
  | .landLate k => a.late[k]?.map fun (name, by_) =>
    { a.addCounter name by_ with late := a.late.eraseIdx k }
  | .crash => some a.restart

end SequenceAllocator

end Fareward.Sequence
