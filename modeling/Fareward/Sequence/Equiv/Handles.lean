import Fareward.Lib.HandleTable
import Fareward.Lib.Machine
import Fareward.Sequence.Allocator

/-!
# The cells of the allocator and their handles

The map of entries is a `HandleTable`, so two calls for one name share their cell although cells are
pruned and created again, and a call past the await of its cell's mutex is that mutex's holder
(`Handled`).

Every atomic operation is one of a few. `FreeStep` lists what a call without the mutex does to the
table: it moves around a critical section, takes the mutex, stores a new cell or removes one; in a
`HeldStep` a call with the mutex writes at most its own cell and keeps its handle. The invariants
of the allocator go through these.
-/

namespace Fareward.Sequence

variable {outcome : Outcome} {increment : UInt32}

namespace Phase

/-- The cell the call owns a handle of. -/
def entry? : Phase → Option Nat
  | .start | .lookup | .ceiling | .pruning _ _ | .pruneTest _ _ _ _ | .recheck | .insert
  | .done _ => none
  | .count e | .waiting e | .take e | .bump e _ _ | .read e _ | .claim e _ _ | .repair e _ _ _
  | .setRead e | .setDelta e _ | .setBump e _ _ _ | .unlock e _ | .drop e _ => some e

/-- The call has the mutex of its cell. -/
def hasMutex : Phase → Bool
  | .take _ | .bump _ _ _ | .read _ _ | .claim _ _ _ | .repair _ _ _ _ | .setRead _
  | .setDelta _ _ | .setBump _ _ _ _ | .unlock _ _ => true
  | _ => false

/-- The call is in a critical section of its name's shard. -/
def locksShard : Phase → Bool
  | .lookup | .ceiling | .pruning _ _ | .pruneTest _ _ _ _ | .recheck | .insert | .count _ => true
  | _ => false

/-- The call has found its name absent, in its critical section. -/
def inserts : Phase → Bool
  | .ceiling | .pruning _ _ | .pruneTest _ _ _ _ | .recheck | .insert => true
  | _ => false

/-- The call has found that only the map refers to an entry, in its critical section. -/
def removes : Phase → Option (String × Nat)
  | .pruneTest name e _ _ => some (name, e)
  | _ => none

/-- The names that `prune_spent` has still to visit. -/
def todo : Phase → List String
  | .pruning todo _ => todo
  | .pruneTest _ _ todo _ => todo
  | _ => []

end Phase

/-- A call as a user of the table of cells. -/
def Task.slot (task : Task) : Slot String where
  key := task.call.name
  handle := task.phase.entry?
  bound := true
  locks := task.phase.locksShard
  inserts := task.phase.inserts
  removes := task.phase.removes

/-- All calls past the mutex look alike to the table. -/
theorem Task.slot_of_mutex {task : Task} {entry : Nat} (hm : task.phase.hasMutex = true)
    (he : task.phase.entry? = some entry) :
    task.slot = ⟨task.call.name, some entry, true, false, false, none⟩ := by
  obtain ⟨call, phase⟩ := task
  cases phase <;> first | (obtain rfl := Option.some.inj he; rfl) | cases hm

namespace SequenceAllocator

variable {a a' : SequenceAllocator} {i j entry : Nat} {task task' : Task} {phase : Phase}
  {name : String}

/-- The allocator as a table of reference-counted cells. -/
def table (a : SequenceAllocator) : HandleTable String where
  entries := a.entries
  owner := a.shardOwner
  strong := fun entry => (a.heap entry).strong
  allocated := a.allocated
  slots := a.tasks.map Task.slot

/-! ### Tasks and slots -/

theorem slots_getElem? (ht : a.tasks[i]? = some task) : a.table.slots[i]? = some task.slot := by
  rw [table, List.getElem?_map, ht]
  rfl

theorem slots_setPhase (ht : a.tasks[i]? = some task) (phase : Phase) :
    (a.setPhase i phase).tasks.map Task.slot =
      a.table.slots.set i (Task.slot { task with phase }) := by
  rw [setPhase, modify_eq_set ht, List.map_set]
  rfl

theorem tasks_setPhase (ht : a.tasks[i]? = some task) (phase : Phase) (j : Nat) :
    (a.setPhase i phase).tasks[j]? =
      if i = j then some { task with phase } else a.tasks[j]? := by
  rw [setPhase, modify_eq_set ht]
  exact getElem?_set_of_some ht _ j

theorem table_setPhase (ht : a.tasks[i]? = some task) (phase : Phase) :
    (a.setPhase i phase).table =
      { a.table with slots := a.table.slots.set i (Task.slot { task with phase }) } := by
  rw [table, slots_setPhase ht]
  rfl

/-- The state and the holder of a cell are no part of the table. -/
theorem table_modifyCell (f : Cell → Cell) (hf : ∀ c, (f c).strong = c.strong) :
    (a.modifyCell entry f).table = a.table := by
  refine HandleTable.ext rfl rfl (funext fun e => ?_) rfl rfl
  by_cases he : e = entry <;> simp [table, modifyCell, he, hf]

theorem table_setState (state : SequenceState) : (a.setState entry state).table = a.table :=
  table_modifyCell _ fun _ => rfl

theorem table_setHolder (holder : Option Nat) : (a.setHolder entry holder).table = a.table :=
  table_modifyCell _ fun _ => rfl

theorem holder_setState (state : SequenceState) (e : Nat) :
    ((a.setState entry state).heap e).holder = (a.heap e).holder := by
  by_cases he : e = entry <;> simp [setState, modifyCell, he]

/-! ### Steps without the mutex -/

/-- A step that leaves the map, the blocks and the mutexes alone: task `i` goes to `phase`, enters
or leaves its critical section, clones a handle there or drops one. -/
structure Moves (a : SequenceAllocator) (i : Nat) (task : Task) (phase : Phase)
    (a' : SequenceAllocator) : Prop where
  index : a'.shardIndex = a.shardIndex
  entries : a'.entries = a.entries
  allocated : a'.allocated = a.allocated
  tasks : a'.tasks = (a.setPhase i phase).tasks
  counters : a'.counters = a.counters
  log : a'.log = a.log
  state : ∀ e, (a'.heap e).state = (a.heap e).state
  holder : ∀ e, (a'.heap e).holder = (a.heap e).holder
  owner : ∀ s j, j ≠ i → a.shardOwner s = some j → a'.shardOwner s = some j
  strong : ∀ k e, a.entries.lookup k = some e →
    (a'.heap e).strong + (decide (task.phase.entry? = some e)).toNat =
      (a.heap e).strong + (decide (phase.entry? = some e)).toNat
  free : phase.hasMutex = false
  locks : phase.locksShard = true → a'.shardOwner (a.shardIndex task.call.name) = some i
  absent : phase.inserts = true → phase.locksShard = true ∧
    a.entries.lookup task.call.name = none
  entry : ∀ e, phase.entry? = some e → task.phase.entry? = some e ∨
    (task.phase.locksShard = true ∧ a.entries.lookup task.call.name = some e)
  alone : ∀ k e, phase.removes = some (k, e) → phase.locksShard = true ∧
    a.shardIndex k = a.shardIndex task.call.name ∧ a.entries.lookup k = some e ∧
    a.table.Alone i e
  todo : ∀ name ∈ phase.todo, a.shardIndex name = a.shardIndex task.call.name
  keeps : ∀ e, task.phase.entry? = some e → phase.entry? = some e ∨ ∃ o, task.phase = .drop e o

/-- What a call without the mutex does. -/
inductive FreeStep (a : SequenceAllocator) (i : Nat) (task : Task) : SequenceAllocator → Prop
  | move {a' : SequenceAllocator} (phase : Phase) (h : Moves a i task phase a') :
      FreeStep a i task a'
  | lock {entry : Nat} (hp : task.phase = .waiting entry) (hfree : (a.heap entry).holder = none) :
      FreeStep a i task ((a.setHolder entry (some i)).setPhase i (task.call.enter entry))
  | insert (hp : task.phase = .insert) : FreeStep a i task ({ a with
      heap := Function.update a.heap a.allocated ⟨.empty, none, 2⟩
      allocated := a.allocated + 1
      entries := a.entries.insert task.call.name a.allocated }.setPhase i (.count a.allocated))
  | erase {victim : String} {entry : Nat} {todo : List String} {removed : Nat}
      (hp : task.phase = .pruneTest victim entry todo removed) :
      FreeStep a i task (({ a with entries := a.entries.erase victim }.dropHandle entry).setPhase i
        (.pruning todo (removed + 1)))

/-- Locking the shard of its own name, which is free. -/
theorem moves_lockShard (hp : task.phase = .start)
    (hfree : a.shardOwner (a.shardIndex task.call.name) = none) :
    Moves a i task .lookup ((a.lockShard (a.shardIndex task.call.name) i).setPhase i .lookup) := by
  refine ⟨rfl, rfl, rfl, rfl, rfl, rfl, fun _ => rfl, fun _ => rfl, fun s j _ hs => ?_,
    fun _ _ _ => ?_, rfl, fun _ => Function.update_self _ _ _, nofun, nofun, nofun, nofun,
    fun e he => ?_⟩
  · have hne : s ≠ a.shardIndex task.call.name := by
      rintro rfl
      rw [hfree] at hs
      cases hs
    rw [← hs]
    exact Function.update_of_ne hne _ _
  · rw [hp]
    rfl
  · rw [hp] at he
    cases he

/-- Leaving the critical section, with the handle of a stored cell or with none. -/
theorem moves_unlockShard (h : a.table.Inv a.shardIndex) (ht : a.tasks[i]? = some task)
    (hlocked : task.phase.locksShard = true) (phase : Phase)
    (hindex : a'.shardIndex = a.shardIndex) (hentries : a'.entries = a.entries)
    (hallocated : a'.allocated = a.allocated)
    (howner : a'.shardOwner = Function.update a.shardOwner (a.shardIndex task.call.name) none)
    (htasks : a'.tasks = (a.setPhase i phase).tasks) (hcounters : a'.counters = a.counters)
    (hlog : a'.log = a.log)
    (hstate : ∀ e, (a'.heap e).state = (a.heap e).state)
    (hholder : ∀ e, (a'.heap e).holder = (a.heap e).holder)
    (hstrong : ∀ e, (a'.heap e).strong + (decide (task.phase.entry? = some e)).toNat =
      (a.heap e).strong + (decide (phase.entry? = some e)).toNat)
    (hm' : phase.hasMutex = false) (hunlocked : phase.locksShard = false)
    (hentry : ∀ e, phase.entry? = some e → task.phase.entry? = some e ∨
      a.entries.lookup task.call.name = some e)
    (hinserts : phase.inserts = false) (hremoves : phase.removes = none)
    (htodo : phase.todo = [])
    (hkeeps : ∀ e, task.phase.entry? = some e → phase.entry? = some e) :
    Moves a i task phase a' := by
  refine ⟨hindex, hentries, hallocated, htasks, hcounters, hlog, hstate,
    hholder, fun s j hj hs => ?_, fun _ e _ => hstrong e, hm', by simp [hunlocked],
    by simp [hinserts], fun e he => (hentry e he).imp_right fun he' => ⟨hlocked, he'⟩,
    by simp [hremoves], by simp [htodo], fun e he => .inl (hkeeps e he)⟩
  have hne : s ≠ a.shardIndex task.call.name := by
    rintro rfl
    have hown : a.shardOwner (a.shardIndex task.call.name) = some i :=
      (h.slots i _ (slots_getElem? ht)).owner hlocked
    exact hj (Option.some.inj (hs.symm.trans hown))
  rw [howner, Function.update_of_ne hne, hs]

theorem moves_locked (h : a.table.Inv a.shardIndex) (ht : a.tasks[i]? = some task)
    (hlocked : task.phase.locksShard = true) (hnone : task.phase.entry? = none) (phase : Phase)
    (trackedNames : UInt64) (hnone' : phase.entry? = none) (hm' : phase.hasMutex = false)
    (habsent : a.entries.lookup task.call.name = none) (hlocked' : phase.locksShard = true)
    (halone : ∀ k e, phase.removes = some (k, e) →
      a.shardIndex k = a.shardIndex task.call.name ∧ a.entries.lookup k = some e ∧
      a.table.Alone i e)
    (htodo : ∀ name ∈ phase.todo, a.shardIndex name = a.shardIndex task.call.name) :
    Moves a i task phase ({ a with trackedNames }.setPhase i phase) := by
  refine ⟨rfl, rfl, rfl, rfl, rfl, rfl, fun _ => rfl, fun _ => rfl,
    fun _ _ _ hs => hs, fun _ _ _ => ?_, hm', fun _ => ?_, fun _ => ⟨hlocked', habsent⟩,
    by simp [hnone'], fun k e hk => ⟨hlocked', halone k e hk⟩, htodo, by simp [hnone]⟩
  · simp only [hnone, hnone']
    rfl
  · exact (h.slots i _ (slots_getElem? ht)).owner hlocked

theorem moves_dropHandle (h : a.table.Inv a.shardIndex) (hp : task.phase = .drop entry outcome) :
    Moves a i task (.done outcome) ((a.dropHandle entry).setPhase i (.done outcome)) := by
  refine ⟨rfl, rfl, rfl, rfl, rfl, rfl, fun e => ?_, fun e => ?_, fun _ _ _ hs => hs,
    fun k e he => ?_, rfl, nofun, nofun, nofun, nofun, nofun, fun e he => .inr ⟨outcome, ?_⟩⟩
  · by_cases he : e = entry <;> simp [setPhase, dropHandle, modifyCell, he]
  · by_cases he : e = entry <;> simp [setPhase, dropHandle, modifyCell, he]
  · have hstrong := h.strong k e he
    simp only [table] at hstrong
    rw [hp]
    by_cases he : e = entry
    · subst he
      simp [setPhase, dropHandle, modifyCell, Phase.entry?]
      omega
    · simp [setPhase, dropHandle, modifyCell, Phase.entry?, he, Ne.symm he]
  · rw [hp] at he ⊢
    rw [Option.some.inj he]

/-- A call is dropped while it waits for the mutex. -/
theorem moves_cancel (hp : task.phase = .waiting entry) :
    Moves a i task (.drop entry .cancelled) (a.setPhase i (.drop entry .cancelled)) := by
  refine ⟨rfl, rfl, rfl, rfl, rfl, rfl, fun _ => rfl, fun _ => rfl, fun _ _ _ hs => hs,
    fun _ _ _ => ?_, rfl, nofun, nofun, fun _ he => .inl ?_, nofun, nofun, fun _ he => .inl ?_⟩
  · rw [hp]
    rfl
  · rw [hp]
    exact he
  · rw [hp] at he
    exact he

theorem moves_retain (h : a.table.Inv a.shardIndex) (ht : a.tasks[i]? = some task)
    (hp : task.phase = .ceiling) {order : List String}
    (horder : order.toFinset = a.shardNames task.call.name) :
    Moves a i task (.pruning order 0) (a.setPhase i (.pruning order 0)) := by
  have hins : task.slot.inserts = true := by
    rw [Task.slot, hp]
    rfl
  have habsent := ((h.slots i _ (slots_getElem? ht)).absent hins).2
  refine moves_locked h ht (by rw [hp]; rfl) (by rw [hp]; rfl) _ a.trackedNames rfl rfl habsent rfl
    nofun fun name hname => ?_
  have hmem : name ∈ a.shardNames task.call.name := horder ▸ List.mem_toFinset.mpr hname
  exact (Finset.mem_filter.mp hmem).2

/-- **Every atomic operation of a call without the mutex is a `FreeStep`.** -/
theorem freeStep_of_advance (h : a.table.Inv a.shardIndex) (ht : a.tasks[i]? = some task)
    (htodo : ∀ name ∈ task.phase.todo, a.shardIndex name = a.shardIndex task.call.name)
    (hm : task.phase.hasMutex = false)
    (hs : a.advance i task.call task.phase = some a') : FreeStep a i task a' := by
  obtain ⟨call, phase⟩ := task
  have hself := h.slots i _ (slots_getElem? ht)
  cases phase with
  | start =>
    obtain ⟨hfree, hs⟩ := Option.ite_none_right_eq_some.mp hs
    cases hs
    exact .move _ (moves_lockShard rfl hfree)
  | lookup =>
    simp only [advance] at hs
    split at hs
    case h_1 e he =>
      cases hs
      refine .move _ (moves_unlockShard h ht rfl (.waiting e) rfl rfl rfl rfl rfl rfl rfl
        (fun e' => ?_) (fun e' => ?_) (fun e' => ?_) rfl rfl (fun e' he' => .inr ?_) rfl rfl rfl
        nofun)
      · by_cases hne : e' = e <;> simp [setPhase, unlockShard, cloneHandle, modifyCell, hne]
      · by_cases hne : e' = e <;> simp [setPhase, unlockShard, cloneHandle, modifyCell, hne]
      · by_cases hne : e' = e
        · simp [setPhase, unlockShard, cloneHandle, modifyCell, hne, Phase.entry?]
        · simp [setPhase, unlockShard, cloneHandle, modifyCell, hne, Ne.symm hne, Phase.entry?]
      · obtain rfl := Option.some.inj he'
        exact he
    case h_2 hnone =>
      split_ifs at hs
      all_goals
        cases hs
        exact .move _ (moves_locked h ht rfl rfl _ a.trackedNames rfl rfl hnone rfl nofun nofun)
  | pruning todo =>
    have habsent := (hself.absent rfl).2
    cases todo with
    | nil =>
      cases hs
      exact .move _ (moves_locked h ht rfl rfl .recheck _ rfl rfl habsent rfl nofun nofun)
    | cons victim todo =>
      have htodo' : ∀ name ∈ todo, a.shardIndex name = a.shardIndex call.name :=
        fun name hname => htodo name (List.mem_cons_of_mem _ hname)
      simp only [advance] at hs
      split at hs
      case h_1 e he =>
        split_ifs at hs with hstrong
        · cases hs
          exact .move _ (moves_locked h ht rfl rfl _ a.trackedNames rfl rfl habsent rfl nofun
            htodo')
        · -- only the map refers to the entry
          cases hs
          refine .move _ (moves_locked h ht rfl rfl _ a.trackedNames rfl rfl habsent rfl
            (fun k e' hr => ?_) htodo')
          obtain ⟨rfl, rfl⟩ : victim = k ∧ e = e' := by simpa [Phase.removes] using hr
          refine ⟨htodo victim List.mem_cons_self, he, fun j s hj hown => ?_⟩
          have hcount := h.strong victim e he
          have hone : a.table.strong e = 1 := by
            simp only [table] at hcount ⊢
            omega
          exact absurd hown (h.not_owned_of_strong he hone j s hj)
      case h_2 =>
        cases hs
        exact .move _ (moves_locked h ht rfl rfl _ a.trackedNames rfl rfl habsent rfl nofun htodo')
  | pruneTest =>
    simp only [advance] at hs
    split_ifs at hs
    · cases hs
      exact .erase rfl
    · cases hs
      exact .move _ (moves_locked h ht rfl rfl _ a.trackedNames rfl rfl (hself.absent rfl).2 rfl
        nofun htodo)
  | recheck =>
    simp only [advance] at hs
    split_ifs at hs
    · cases hs
      exact .move _ (moves_unlockShard h ht rfl _ rfl rfl rfl rfl rfl rfl rfl (fun _ => rfl)
        (fun _ => rfl) (fun _ => rfl) rfl rfl nofun rfl rfl rfl nofun)
    · cases hs
      exact .move _ (moves_locked h ht rfl rfl _ a.trackedNames rfl rfl (hself.absent rfl).2 rfl
        nofun nofun)
  | insert =>
    cases hs
    exact .insert rfl
  | count e =>
    cases hs
    exact .move _ (moves_unlockShard h ht rfl (.waiting e) rfl rfl rfl rfl rfl rfl rfl
      (fun _ => rfl) (fun _ => rfl) (fun _ => rfl) rfl rfl (fun _ he => .inl he) rfl rfl rfl
      fun _ he => he)
  | waiting =>
    obtain ⟨hfree, hs⟩ := Option.ite_none_right_eq_some.mp hs
    cases hs
    exact .lock rfl hfree
  | drop =>
    cases hs
    exact .move _ (moves_dropHandle h rfl)
  | ceiling | done => cases call <;> cases hs
  | _ => cases hm

theorem Moves.handles (hmove : Moves a i task phase a') (h : a.table.Inv a.shardIndex)
    (ht : a.tasks[i]? = some task) : a'.table.Inv a'.shardIndex := by
  have htable : a'.table = { a.table with
      owner := a'.shardOwner
      strong := fun e => (a'.heap e).strong
      slots := a.table.slots.set i (Task.slot { task with phase }) } := by
    rw [table, hmove.entries, hmove.allocated, hmove.tasks, slots_setPhase ht]
    rfl
  rw [htable, hmove.index]
  exact h.move (slots_getElem? ht) _ rfl hmove.owner hmove.strong hmove.locks hmove.absent
    (fun e he => (hmove.entry e he).imp_left fun he' => ⟨he', fun _ => rfl⟩) hmove.alone

theorem FreeStep.handles (hfree : FreeStep a i task a') (h : a.table.Inv a.shardIndex)
    (ht : a.tasks[i]? = some task) : a'.table.Inv a'.shardIndex := by
  cases hfree with
  | move phase hmove => exact hmove.handles h ht
  | @lock entry hp =>
    have hslot : Task.slot { task with phase := task.call.enter entry } = task.slot := by
      rw [Task.slot, Task.slot, hp]
      cases task.call <;> rfl
    rw [table_setPhase (a := a.setHolder entry (some i)) ht, table_setHolder, hslot,
      set_of_getElem? (slots_getElem? ht)]
    exact h
  | insert hp =>
    set a₁ : SequenceAllocator := { a with
      heap := Function.update a.heap a.allocated ⟨.empty, none, 2⟩
      allocated := a.allocated + 1
      entries := a.entries.insert task.call.name a.allocated } with ha₁
    have hins : task.slot.inserts = true := by
      rw [Task.slot, hp]
      rfl
    rw [table, slots_setPhase (a := a₁) ht]
    refine h.insert (slots_getElem? ht) hins ?_ _ rfl rfl rfl rfl ?_ fun e he => ?_
    · rw [Task.slot, hp]
      rfl
    · simp [ha₁, table, setPhase]
    · have hne : e ≠ a.allocated := Nat.ne_of_lt he
      simp [ha₁, table, setPhase, hne]
  | @erase victim entry todo removed hp =>
    set a₁ : SequenceAllocator :=
      { a with entries := a.entries.erase victim }.dropHandle entry with ha₁
    rw [table, slots_setPhase (a := a₁) ht]
    refine h.erase (k := victim) (e := entry) (slots_getElem? ht) ?_ _ rfl ?_ nofun
      (fun _ => rfl) (fun _ => ⟨?_, rfl⟩) rfl fun e he => ?_
    · rw [Task.slot, hp]
      rfl
    · rw [Task.slot, Task.slot, hp]
      rfl
    · rw [Task.slot, hp]
      rfl
    · simp [ha₁, table, setPhase, dropHandle, modifyCell, he]

/-! ### Steps with the mutex -/

/-- A step of a call that has the mutex of its cell and keeps it: it writes at most that cell's
block. -/
structure HeldStep (a : SequenceAllocator) (i : Nat) (task : Task) (phase : Phase)
    (a' : SequenceAllocator) : Prop where
  index : a'.shardIndex = a.shardIndex
  table : a'.table = { a.table with
    slots := a.table.slots.set i (Task.slot { task with phase }) }
  tasks : a'.tasks = (a.setPhase i phase).tasks
  holder : ∀ e, (a'.heap e).holder = (a.heap e).holder
  state : ∀ e, task.phase.entry? ≠ some e → (a'.heap e).state = (a.heap e).state
  before : task.phase.hasMutex = true
  after : phase.hasMutex = true
  entry : phase.entry? = task.phase.entry?

theorem heldStep_setPhase (ht : a.tasks[i]? = some task) (counters : String → Int)
    (late : List (String × Int)) {phase : Phase} (hbefore : task.phase.hasMutex = true)
    (hafter : phase.hasMutex = true) (hentry : phase.entry? = task.phase.entry?) :
    HeldStep a i task phase ({ a with counters, late }.setPhase i phase) :=
  ⟨rfl, table_setPhase (a := { a with counters, late }) ht phase, rfl, fun _ => rfl,
    fun _ _ => rfl, hbefore, hafter, hentry⟩

theorem heldStep_setState (ht : a.tasks[i]? = some task) (state : SequenceState) (log : List Event)
    (hbefore : task.phase.hasMutex = true) (hentry : task.phase.entry? = some entry) :
    HeldStep a i task (.unlock entry outcome)
      ({ a.setState entry state with log }.setPhase i (.unlock entry outcome)) := by
  refine ⟨rfl, ?_, rfl, holder_setState state, fun e he => ?_, hbefore, rfl, hentry.symm⟩
  · rw [table_setPhase (a := { a.setState entry state with log }) ht]
    have hlog : table { a.setState entry state with log } = (a.setState entry state).table := rfl
    rw [hlog, table_setState]
  · have hne : e ≠ entry := fun heq => he (heq ▸ hentry)
    simp [setPhase, setState, modifyCell, hne]

theorem heldStep_install (ht : a.tasks[i]? = some task) {block : SequenceState}
    (hbefore : task.phase.hasMutex = true) (hentry : task.phase.entry? = some entry) :
    ∃ phase, HeldStep a i task phase (a.install i name increment entry block) := by
  unfold install
  split
  · exact ⟨_, heldStep_setState ht _ _ hbefore hentry⟩
  · exact ⟨_, heldStep_setState ht block a.log hbefore hentry⟩

theorem heldStep_advanceReserve (ht : a.tasks[i]? = some ⟨.reserve name increment, phase⟩)
    (hm : phase.hasMutex = true) (hs : a.advanceReserve i name increment phase = some a') :
    ∃ phase', HeldStep a i ⟨.reserve name increment, phase⟩ phase' a' := by
  cases phase with
  | take =>
    simp only [advanceReserve] at hs
    split at hs
    · cases hs
      exact ⟨_, heldStep_setState ht _ _ hm rfl⟩
    · cases hs
      exact ⟨_, heldStep_setPhase ht a.counters a.late hm rfl rfl⟩
  | bump e block landed =>
    cases landed with
    | false => cases hs
    | true =>
      cases hs
      exact ⟨_, heldStep_setPhase ht a.counters a.late hm rfl rfl⟩
  | read =>
    cases hs
    exact ⟨_, heldStep_setPhase ht a.counters a.late hm rfl rfl⟩
  | claim =>
    cases hs
    unfold claimBlock
    split
    · exact ⟨_, heldStep_setPhase ht a.counters a.late hm rfl rfl⟩
    · split_ifs
      · exact heldStep_install ht hm rfl
      · split
        · exact ⟨_, heldStep_setPhase ht a.counters a.late hm rfl rfl⟩
        · exact ⟨_, heldStep_setPhase ht a.counters a.late hm rfl rfl⟩
  | repair e block correction landed =>
    cases landed with
    | false => cases hs
    | true =>
      cases hs
      exact heldStep_install ht hm rfl
  | _ => cases hs

theorem heldStep_advanceSet {value : Int} (ht : a.tasks[i]? = some ⟨.set name value, phase⟩)
    (hm : phase.hasMutex = true) (hs : a.advanceSet i name value phase = some a') :
    ∃ phase', HeldStep a i ⟨.set name value, phase⟩ phase' a' := by
  cases phase with
  | setRead =>
    cases hs
    exact ⟨_, heldStep_setPhase ht a.counters a.late hm rfl rfl⟩
  | setDelta =>
    simp only [advanceSet] at hs
    split at hs
    · cases hs
      exact ⟨_, heldStep_setPhase ht a.counters a.late hm rfl rfl⟩
    · split_ifs at hs
      · cases hs
        exact ⟨_, heldStep_setState ht _ _ hm rfl⟩
      · cases hs
        exact ⟨_, heldStep_setPhase ht a.counters a.late hm rfl rfl⟩
  | setBump e previous delta landed =>
    cases landed with
    | false => cases hs
    | true =>
      cases hs
      exact ⟨_, heldStep_setState ht _ _ hm rfl⟩
  | _ => cases hs

theorem heldStep_land (ht : a.tasks[i]? = some task)
    (hs : a.land i task.call.name task.phase = some a') :
    ∃ phase, HeldStep a i task phase a' := by
  obtain ⟨call, phase⟩ := task
  cases phase with
  | bump e block landed | repair e block correction landed | setBump e previous delta landed =>
    cases landed with
    | true => cases hs
    | false =>
      cases hs
      exact ⟨_, heldStep_setPhase ht _ a.late rfl rfl rfl⟩
  | _ => cases hs

theorem heldStep_abandon (ht : a.tasks[i]? = some task)
    (hs : a.abandon i task.call.name outcome task.phase = some a') :
    ∃ phase, HeldStep a i task phase a' := by
  obtain ⟨call, phase⟩ := task
  cases phase with
  | bump e block landed | repair e block correction landed | setBump e previous delta landed =>
    cases hs
    cases landed <;> exact ⟨_, heldStep_setPhase ht a.counters _ rfl rfl rfl⟩
  | read | setRead =>
    cases hs
    exact ⟨_, heldStep_setPhase ht a.counters a.late rfl rfl rfl⟩
  | _ => cases hs

/-- **Every atomic operation of a call with the mutex** keeps it or lets it go. -/
theorem heldStep_of_advance (ht : a.tasks[i]? = some task) (hm : task.phase.hasMutex = true)
    (hs : a.advance i task.call task.phase = some a') :
    (∃ phase, HeldStep a i task phase a') ∨
      ∃ e outcome, task.phase = .unlock e outcome ∧
        a' = (a.setHolder e none).setPhase i (.drop e outcome) := by
  obtain ⟨call, phase⟩ := task
  cases phase with
  | unlock e outcome =>
    cases hs
    exact .inr ⟨e, outcome, rfl, rfl⟩
  | start | lookup | ceiling | pruning | pruneTest | recheck | insert | count | waiting | drop
  | done => cases hm
  | _ =>
    refine .inl ?_
    cases call with
    | reserve => exact heldStep_advanceReserve ht hm hs
    | set => exact heldStep_advanceSet ht hm hs

/-! ### The invariant -/

/-- What holds of the cells and their handles in every reachable state. -/
structure Handled (a : SequenceAllocator) : Prop where
  handles : a.table.Inv a.shardIndex
  todo : ∀ (i : Nat) (task : Task), a.tasks[i]? = some task →
    ∀ name ∈ task.phase.todo, a.shardIndex name = a.shardIndex task.call.name
  /-- The holder of a mutex is the call that is past its await. -/
  holder : ∀ (e j : Nat), (a.heap e).holder = some j ↔
    ∃ task, a.tasks[j]? = some task ∧ task.phase.entry? = some e ∧ task.phase.hasMutex = true

/-- A step of task `i` that leaves the mutexes of the others alone. -/
theorem Handled.of_step (h : Handled a) (ht : a.tasks[i]? = some task) (phase : Phase)
    (hhandles : a'.table.Inv a'.shardIndex) (hindex : a'.shardIndex = a.shardIndex)
    (htasks : a'.tasks = (a.setPhase i phase).tasks)
    (htodo : ∀ name ∈ phase.todo, a.shardIndex name = a.shardIndex task.call.name)
    (hothers : ∀ e j, j ≠ i → ((a'.heap e).holder = some j ↔ (a.heap e).holder = some j))
    (hself : ∀ e, (a'.heap e).holder = some i ↔
      phase.entry? = some e ∧ phase.hasMutex = true) : Handled a' := by
  refine ⟨hhandles, fun j task' hj => ?_, fun e j => ?_⟩
  · rw [htasks, tasks_setPhase ht] at hj
    rw [hindex]
    split_ifs at hj with hij
    · cases hj
      exact htodo
    · exact h.todo j task' hj
  · rw [htasks, tasks_setPhase ht]
    by_cases hij : i = j
    · subst hij
      rw [hself, if_pos rfl]
      constructor
      · intro hm
        exact ⟨_, rfl, hm⟩
      · rintro ⟨task', hsome, hm⟩
        cases hsome
        exact hm
    · rw [hothers e j (Ne.symm hij), if_neg hij]
      exact h.holder e j

/-- Whether a call is the holder can be read off its phase. -/
theorem Handled.holder_self (h : Handled a) (ht : a.tasks[i]? = some task) (e : Nat) :
    (a.heap e).holder = some i ↔ task.phase.entry? = some e ∧ task.phase.hasMutex = true := by
  rw [h.holder, ht]
  exact ⟨fun ⟨_, hsome, hm⟩ => Option.some.inj hsome ▸ hm, fun hm => ⟨task, rfl, hm⟩⟩

theorem HeldStep.handled (hheld : HeldStep a i task phase a') (h : Handled a)
    (ht : a.tasks[i]? = some task) : Handled a' := by
  have htodo : phase.todo = [] := by
    have := hheld.after
    cases phase <;> first | rfl | cases this
  refine h.of_step ht phase ?_ hheld.index hheld.tasks (by simp [htodo])
    (fun e j _ => by rw [hheld.holder]) fun e => ?_
  · obtain ⟨e, he⟩ : ∃ e, task.phase.entry? = some e := by
      have := hheld.before
      cases hp : task.phase <;> rw [hp] at this <;> first | exact ⟨_, rfl⟩ | cases this
    have hslot : Task.slot { task with phase } = task.slot := by
      rw [Task.slot_of_mutex hheld.before he]
      exact Task.slot_of_mutex hheld.after (hheld.entry.trans he)
    rw [hheld.table, hheld.index, hslot, set_of_getElem? (slots_getElem? ht)]
    exact h.handles
  · rw [hheld.holder, h.holder_self ht, hheld.entry, hheld.before, hheld.after]

theorem FreeStep.handled (hfree : FreeStep a i task a') (h : Handled a)
    (ht : a.tasks[i]? = some task) (hm : task.phase.hasMutex = false) : Handled a' := by
  have hhandles := hfree.handles h.handles ht
  have hself (e : Nat) : (a.heap e).holder ≠ some i := by
    intro he
    have := ((h.holder_self ht e).mp he).2
    rw [hm] at this
    cases this
  cases hfree with
  | move phase hmove =>
    refine h.of_step ht phase hhandles hmove.index hmove.tasks hmove.todo
      (fun e j _ => by rw [hmove.holder]) fun e => ?_
    rw [hmove.holder, hmove.free]
    exact ⟨fun he => absurd he (hself e), fun he => by cases he.2⟩
  | @lock entry hp hnone =>
    have hheap (e : Nat) : (((a.setHolder entry (some i)).setPhase i
        (task.call.enter entry)).heap e).holder =
          if e = entry then some i else (a.heap e).holder := by
      by_cases he : e = entry <;> simp [setPhase, setHolder, modifyCell, he]
    have henter : Phase.entry? (task.call.enter entry) = some entry ∧
        (task.call.enter entry).hasMutex = true := by
      cases task.call <;> exact ⟨rfl, rfl⟩
    refine h.of_step ht (task.call.enter entry) hhandles rfl rfl ?_ (fun e j hj => ?_) fun e => ?_
    · cases task.call <;> exact nofun
    · rw [hheap]
      split_ifs with he
      · rw [he, hnone]
        exact ⟨fun hi => absurd (Option.some.inj hi).symm hj, nofun⟩
      · exact Iff.rfl
    · rw [hheap, henter.1]
      split_ifs with he
      · exact ⟨fun _ => ⟨by rw [he], henter.2⟩, fun _ => rfl⟩
      · exact ⟨fun hi => absurd hi (hself e), fun hi => absurd (Option.some.inj hi.1).symm he⟩
  | insert =>
    have hfresh (j : Nat) : (a.heap a.allocated).holder ≠ some j := by
      intro hj
      obtain ⟨task', ht', he, _⟩ := (h.holder _ j).mp hj
      exact lt_irrefl _ ((h.handles.slots j _ (slots_getElem? ht')).allocated _ he)
    refine h.of_step ht (.count a.allocated) hhandles rfl rfl nofun (fun e j _ => ?_) fun e => ?_
    all_goals by_cases he : e = a.allocated
    · subst he
      simpa [setPhase] using hfresh j
    · simp [setPhase, he]
    · subst he
      simp [setPhase, Phase.hasMutex]
    · simpa [setPhase, he, Phase.hasMutex] using hself e
  | @erase victim entry todo removed hp =>
    have hheap (e : Nat) : ((({ a with entries := a.entries.erase victim }.dropHandle
        entry).setPhase i (.pruning todo (removed + 1))).heap e).holder = (a.heap e).holder := by
      by_cases he : e = entry <;> simp [setPhase, dropHandle, modifyCell, he]
    refine h.of_step ht (.pruning todo (removed + 1)) hhandles rfl rfl (fun name hname => ?_)
      (fun e j _ => by rw [hheap]) fun e => ?_
    · refine h.todo i task ht name ?_
      rw [hp]
      exact hname
    · rw [hheap]
      exact ⟨fun hi => absurd hi (hself e), fun hi => by cases hi.1⟩

theorem handled_unlock (h : Handled a) (ht : a.tasks[i]? = some task)
    (hp : task.phase = .unlock entry outcome) :
    Handled ((a.setHolder entry none).setPhase i (.drop entry outcome)) := by
  have hown (e : Nat) : (a.heap e).holder = some i ↔ entry = e := by
    rw [h.holder_self ht, hp]
    simp [Phase.entry?, Phase.hasMutex]
  have hheap (e : Nat) :
      (((a.setHolder entry none).setPhase i (.drop entry outcome)).heap e).holder =
        if e = entry then none else (a.heap e).holder := by
    by_cases he : e = entry <;> simp [setPhase, setHolder, modifyCell, he]
  refine h.of_step ht (.drop entry outcome) ?_ rfl rfl nofun (fun e j hj => ?_) fun e => ?_
  · have hslot : Task.slot { task with phase := .drop entry outcome } = task.slot := by
      rw [Task.slot, Task.slot, hp]
      rfl
    rw [table_setPhase (a := a.setHolder entry none) ht, table_setHolder, hslot,
      set_of_getElem? (slots_getElem? ht)]
    exact h.handles
  · rw [hheap]
    split_ifs with he
    · rw [he, (hown entry).mpr rfl]
      exact ⟨nofun, fun hi => absurd (Option.some.inj hi).symm hj⟩
    · exact Iff.rfl
  · rw [hheap]
    split_ifs with he
    · exact ⟨nofun, fun hi => by cases hi.2⟩
    · rw [hown]
      exact ⟨fun hi => absurd hi.symm he, fun hi => by cases hi.2⟩

/-- **Every step keeps the invariant.** -/
theorem handled_step {action : Action} (h : Handled a) (hs : a.step action = some a') :
    Handled a' := by
  cases action with
  | call call =>
    cases hs
    have hold (j : Nat) (task : Task) (hj : (a.tasks ++ [⟨call, .start⟩])[j]? = some task) :
        a.tasks[j]? = some task ∨ task = ⟨call, .start⟩ := by
      rcases lt_or_ge j a.tasks.length with hlt | hge
      · exact .inl ((List.getElem?_append_left hlt).symm.trans hj)
      · rw [List.getElem?_append_right hge] at hj
        exact .inr (List.mem_singleton.mp (List.mem_of_getElem? hj))
    refine ⟨?_, fun j task hj => ?_, fun e j => ⟨fun hj => ?_, fun ⟨task, hj, he, hm⟩ => ?_⟩⟩
    · rw [table, List.map_append]
      exact h.handles.spawn call.name
    · rcases hold j task hj with hj | rfl
      · exact h.todo j task hj
      · exact nofun
    · obtain ⟨task, ht, hm⟩ := (h.holder e j).mp hj
      exact ⟨task, (List.getElem?_append_left (List.getElem?_eq_some_iff.mp ht).1).trans ht, hm⟩
    · rcases hold j task hj with hj | rfl
      · exact (h.holder e j).mpr ⟨task, hj, he, hm⟩
      · cases hm
  | run i =>
    obtain ⟨task, ht, hs⟩ := Option.bind_eq_some_iff.mp hs
    cases hm : task.phase.hasMutex with
    | false =>
      exact (freeStep_of_advance h.handles ht (h.todo i task ht) hm hs).handled h ht hm
    | true =>
      rcases heldStep_of_advance ht hm hs with ⟨phase, hheld⟩ | ⟨e, outcome, hp, rfl⟩
      · exact hheld.handled h ht
      · exact handled_unlock h ht hp
  | retain =>
    obtain ⟨task, ht, hs⟩ := Option.bind_eq_some_iff.mp hs
    obtain ⟨⟨hp, _, horder⟩, hs'⟩ := Option.ite_none_right_eq_some.mp hs
    obtain rfl := Option.some.inj hs'
    have hmove := moves_retain h.handles ht hp horder
    exact (FreeStep.move _ hmove).handled h ht (by rw [hp]; rfl)
  | land =>
    obtain ⟨task, ht, hs⟩ := Option.bind_eq_some_iff.mp hs
    obtain ⟨phase, hheld⟩ := heldStep_land ht hs
    exact hheld.handled h ht
  | fail =>
    obtain ⟨task, ht, hs⟩ := Option.bind_eq_some_iff.mp hs
    obtain ⟨phase, hheld⟩ := heldStep_abandon ht hs
    exact hheld.handled h ht
  | cancel =>
    obtain ⟨⟨call, phase⟩, ht, hs⟩ := Option.bind_eq_some_iff.mp hs
    cases phase with
    | waiting =>
      cases hs
      exact (FreeStep.move _ (moves_cancel rfl)).handled h ht rfl
    | _ =>
      obtain ⟨phase, hheld⟩ := heldStep_abandon ht hs
      exact hheld.handled h ht
  | landLate =>
    obtain ⟨⟨name, by_⟩, hk, rfl⟩ := Option.map_eq_some_iff.mp hs
    exact ⟨h.handles, h.todo, h.holder⟩
  | crash =>
    cases hs
    exact ⟨.empty _ _ _, nofun, fun e j => ⟨nofun, nofun⟩⟩

theorem handled_new {shardCount : Nat} {hash : String → UInt64} {limits : SequenceLimits}
    {counters : String → Int} : Handled (new shardCount hash limits counters) :=
  ⟨.empty _ _ _, nofun, fun _ _ => ⟨nofun, nofun⟩⟩

end SequenceAllocator

end Fareward.Sequence
