import Fareward.Lock.Equiv.Registry
import Fareward.Lock.Equiv.Transition

/-!
# The lock registry returns to empty

What a task adds to the registry it takes away again in explicit calls: `leave_queue` lowers the
queue counters, and `prune` removes the entry if the task's handle is the last one. Two things get
in between. A parked acquire whose future is dropped makes neither call. And `prune` leaves an
entry alone when another task has a handle of it, trusting that task to come to its own `prune`; a
task that has been through its `prune` and has not yet dropped its handle does not.

* `Tidy`: a step that is neither of the two;
* `Tally`: the counters count what they stand for, and every entry in the map is `wanted`, that is,
  some task with a handle of it has not been through its `prune`;
* `registry_empties`: after tidy steps, when every task is done, nothing is left.
-/

namespace Fareward.Lock

variable {key : LockKey}

namespace Phase

/-- The task is counted in `total_queued`. -/
def waits : Phase → Bool
  | .refusal _ _ _ | .parked _ | .leave _ _ | .leaveTotal _ _ => true
  | _ => false

/-- The task has stored an entry that `key_count` does not count yet. -/
def counts : Phase → Bool
  | .count _ => true
  | _ => false

/-- The task has removed the entry, which `key_count` still counts. -/
def uncounts : Phase → Option Nat
  | .pruneCount entry _ => some entry
  | _ => none

/-- The task is about to read the strong count of the entry. -/
def checks : Phase → Option Nat
  | .pruneCheck entry _ => some entry
  | _ => none

/-- The task has been through `prune` and still has its handle of the entry. -/
def leaves : Phase → Option Nat
  | .drop entry _ => some entry
  | _ => none

end Phase

namespace LockRegistry

variable {r r' r₁ : LockRegistry} {i entry : Nat} {task : Acquire} {request : AcquireRequest}
  {phase phase' : Phase} {action : Action}

/-- No parked acquire is cancelled, and no task reads the strong count of an entry while a task that
has been through its `prune` still has a handle of it. -/
def Tidy (r : LockRegistry) : Action → Prop
  | .cancel _ => False
  | .run i => ∀ task ∈ r.tasks[i]?, ∀ entry ∈ task.phase.checks,
      ∀ other ∈ r.tasks, other.phase.leaves ≠ some entry
  | _ => True

instance (r : LockRegistry) (action : Action) : Decidable (r.Tidy action) := by
  cases action <;> unfold Tidy <;> infer_instance

/-- The number of tasks whose phase has a property. -/
def number (r : LockRegistry) (p : Phase → Bool) : Nat := r.tasks.countP fun task => p task.phase

structure Tally (r : LockRegistry) : Prop where
  queued : r.totalQueued = UInt32.ofNat (r.number Phase.waits)
  keys : r.keyCount + UInt64.ofNat (r.number Phase.counts) =
    UInt64.ofNat r.entries.keys.card + UInt64.ofNat (r.number fun phase => phase.uncounts.isSome)
  /-- A removed entry does not come back. -/
  removed : ∀ task ∈ r.tasks, ∀ entry ∈ task.phase.uncounts, ∀ key,
    r.entries.lookup key ≠ some entry
  /-- An entry stays in the map for a task that will come to its `prune`. -/
  wanted : ∀ key entry, r.entries.lookup key = some entry →
    ∃ (i : Nat) (task : Acquire), r.tasks[i]? = some task ∧ task.phase.entry? = some entry ∧
      task.phase.isBound = true

/-! ### Counting -/

theorem number_setPhase (ht : r.tasks[i]? = some task) (p : Phase → Bool) (phase : Phase) :
    (r.setPhase i phase).number p + (p task.phase).toNat = r.number p + (p phase).toNat := by
  rw [number, setPhase, modify_eq_set ht]
  exact countP_set_add (p := fun task : Acquire => p task.phase) ht _

theorem number_acquire {p : Phase → Bool} (hp : p .start = false) (request : AcquireRequest) :
    number { r with tasks := r.tasks ++ [⟨request, .start⟩] } p = r.number p := by
  rw [number, List.countP_append, List.countP_singleton, hp]
  rfl

theorem mem_setPhase (ht : r.tasks[i]? = some task) {other : Acquire}
    (h : other ∈ (r.setPhase i phase).tasks) : other = { task with phase } ∨ other ∈ r.tasks := by
  rw [setPhase, modify_eq_set ht] at h
  exact (List.mem_or_eq_of_mem_set h).symm

/-- `total_queued` follows the phase of the task. -/
theorem Transition.queued (h : Transition r i request action phase r' phase')
    (hno : action ≠ .cancel i) :
    r'.totalQueued + UInt32.ofNat phase.waits.toNat =
      r.totalQueued + UInt32.ofNat phase'.waits.toNat := by
  cases h with
  | enqueueTotal => exact UInt32.add_zero _
  | leaveGranted | leaveEnded => exact (UInt32.sub_add_cancel _ _).trans (UInt32.add_zero _).symm
  | cancel => exact absurd rfl hno
  | _ => rfl

theorem card_keys_insert {m : Finmap fun _ : LockKey => Nat} (h : m.lookup key = none)
    (entry : Nat) : (m.insert key entry).keys.card = m.keys.card + 1 := by
  have hkeys : (m.insert key entry).keys = insert key m.keys := by
    ext k
    rw [Finmap.mem_keys, Finset.mem_insert, Finmap.mem_keys, Finmap.mem_insert]
  have hnot : key ∉ m.keys := by
    rw [Finmap.mem_keys]
    exact Finmap.lookup_eq_none.mp h
  rw [hkeys, Finset.card_insert_of_notMem hnot]

theorem card_keys_erase {m : Finmap fun _ : LockKey => Nat} (h : m.lookup key = some entry) :
    (m.erase key).keys.card + 1 = m.keys.card := by
  have hmem : key ∈ m.keys := by
    rw [Finmap.mem_keys]
    exact Finmap.mem_of_lookup_eq_some h
  rw [Finmap.keys_erase, Finset.card_erase_add_one hmem]

/-- `key_count` follows the map and the phase of the task. -/
theorem Transition.keys (h : Transition r i request action phase r' phase')
    (habsent : phase.inserts = true → r.entries.lookup request.key = none) :
    r'.keyCount + UInt64.ofNat phase'.counts.toNat + UInt64.ofNat r.entries.keys.card +
        UInt64.ofNat phase.uncounts.isSome.toNat =
      r.keyCount + UInt64.ofNat phase.counts.toNat + UInt64.ofNat r'.entries.keys.card +
        UInt64.ofNat phase'.uncounts.isSome.toNat := by
  cases h with
  | insert =>
    have hcard := card_keys_insert (habsent rfl) r.allocated
    show r.keyCount + 1 + UInt64.ofNat r.entries.keys.card + 0 =
      r.keyCount + 0 + UInt64.ofNat (r.entries.insert request.key r.allocated).keys.card + 0
    rw [hcard, UInt64.ofNat_add]
    grind
  | remove hfound =>
    have hcard := card_keys_erase hfound
    show r.keyCount + 0 + UInt64.ofNat r.entries.keys.card + 0 =
      r.keyCount + 0 + UInt64.ofNat (r.entries.erase request.key).keys.card + 1
    rw [← hcard, UInt64.ofNat_add]
    grind
  | count =>
    show r.keyCount + 1 + 0 + UInt64.ofNat r.entries.keys.card + 0 =
      r.keyCount + 1 + UInt64.ofNat r.entries.keys.card + 0
    grind
  | uncount =>
    show r.keyCount - 1 + 0 + UInt64.ofNat r.entries.keys.card + 1 =
      r.keyCount + 0 + UInt64.ofNat r.entries.keys.card + 0
    grind
  | _ => rfl

/-! ### Steps -/

/-- The map gains at most a fresh entry. -/
theorem Transition.lookup (h : Transition r i request action phase r' phase')
    (hk : r'.entries.lookup key = some entry) :
    r.entries.lookup key = some entry ∨ entry = r.allocated ∧ phase' = .count r.allocated := by
  cases h with
  | insert =>
    by_cases hkey : key = request.key
    · rw [hkey, Finmap.lookup_insert] at hk
      exact .inr ⟨(Option.some.inj hk).symm, rfl⟩
    · rw [Finmap.lookup_insert_of_ne _ hkey] at hk
      exact .inl hk
  | remove =>
    have hkey : key ≠ request.key := by
      rintro rfl
      rw [dropHandle, modifyEntry, Finmap.lookup_erase] at hk
      cases hk
    rw [dropHandle, modifyEntry, Finmap.lookup_erase_ne hkey] at hk
    exact .inl hk
  | _ => exact .inl hk

/-- A task gives up the entry it is wanted for only in `prune`. -/
theorem Transition.keeps (h : Transition r i request action phase r' phase')
    (hno : action ≠ .cancel i) (he : phase.entry? = some entry) (hb : phase.isBound = true) :
    (phase'.entry? = some entry ∧ phase'.isBound = true) ∨
      (action = .run i ∧ phase.checks = some entry ∧ (r.heap entry).strong ≠ 2) ∨
      ∃ ending, phase = .pruneRemove entry ending ∧ r'.entries.lookup request.key = none := by
  cases h with
  | cancel => exact absurd rfl hno
  | shared hmore =>
    cases he
    exact .inr (.inl ⟨rfl, rfl, hmore⟩)
  | remove =>
    cases he
    exact .inr (.inr ⟨_, rfl, Finmap.lookup_erase _ _⟩)
  | gone habsent =>
    cases he
    exact .inr (.inr ⟨_, rfl, habsent⟩)
  | uncount | drop => cases hb
  | lock | found | full | absent | insert => cases he
  | _ => exact .inl ⟨he, rfl⟩

theorem Transition.uncounts (h : Transition r i request action phase r' phase')
    (he : phase'.uncounts = some entry) :
    ∃ ending, phase = .pruneRemove entry ending ∧ r'.entries = r.entries.erase request.key := by
  cases h with
  | remove =>
    cases he
    exact ⟨_, rfl, rfl⟩
  | _ => cases he

/-- Of the tasks with a handle of a stored entry only those past their `prune` have done with it. -/
theorem Tally.bound (h : Tally r) (hk : r.entries.lookup key = some entry)
    (ht : r.tasks[i]? = some task) (he : task.phase.entry? = some entry)
    (hleaves : task.phase.leaves ≠ some entry) : task.phase.isBound = true := by
  obtain ⟨request, phase⟩ := task
  cases phase with
  | pruneCount =>
    cases he
    exact absurd hk (h.removed _ (List.mem_of_getElem? ht) _ rfl key)
  | drop =>
    cases he
    exact absurd rfl hleaves
  | _ => rfl

/-- An entry whose strong count is not two has another handle outside the map. -/
theorem exists_other (h : Inv r) (ht : r.tasks[i]? = some task)
    (he : task.phase.entry? = some entry) (hk : r.entries.lookup key = some entry)
    (hmore : (r.heap entry).strong ≠ 2) :
    ∃ (j : Nat) (other : Acquire), r.tasks[j]? = some other ∧ j ≠ i ∧
      other.phase.entry? = some entry := by
  by_contra hnone
  refine hmore (h.handles.strong_of_alone (slots_getElem? ht) he hk fun j slot hj hslot => ?_)
  by_contra hij
  rw [table, List.getElem?_map] at hj
  obtain ⟨other, hother, rfl⟩ := Option.map_eq_some_iff.mp hj
  exact hnone ⟨j, other, hother, hij, hslot⟩

theorem Transition.removed (h : Transition r i task.request action task.phase r₁ phase')
    (hinv : Inv r) (htally : Tally r) (ht : r.tasks[i]? = some task) :
    ∀ other ∈ (r₁.setPhase i phase').tasks, ∀ entry ∈ other.phase.uncounts, ∀ key,
      r₁.entries.lookup key ≠ some entry := by
  intro other hother entry hun key hk
  have ht₁ : r₁.tasks[i]? = some task := by rw [h.tasks, ht]
  rcases mem_setPhase ht₁ hother with rfl | hold
  · -- the task itself removes the entry, which stood under its key only
    obtain ⟨ending, hphase, hentries⟩ := h.uncounts hun
    obtain ⟨-, -, hown, -⟩ := (hinv.handles.slots i _ (slots_getElem? ht)).alone
      task.request.key entry (by rw [Acquire.slot, hphase]; rfl)
    have hkey : key ≠ task.request.key := by
      rintro rfl
      rw [hentries, Finmap.lookup_erase] at hk
      cases hk
    rw [hentries, Finmap.lookup_erase_ne hkey] at hk
    exact hkey (hinv.handles.injective _ _ entry hk hown)
  · rw [h.tasks] at hold
    rcases h.lookup hk with hk | ⟨rfl, -⟩
    · exact htally.removed other hold entry hun key hk
    · obtain ⟨j, hj⟩ := List.getElem?_of_mem hold
      have hhandle : other.phase.entry? = some r.allocated := by
        obtain ⟨request, phase⟩ := other
        cases phase with
        | pruneCount => exact hun
        | _ => cases hun
      exact lt_irrefl _ ((hinv.handles.slots j _ (slots_getElem? hj)).allocated _ hhandle)

theorem Transition.wanted (h : Transition r i task.request action task.phase r₁ phase')
    (hinv : Inv r) (htally : Tally r) (ht : r.tasks[i]? = some task) (htidy : r.Tidy action) :
    ∀ key entry, r₁.entries.lookup key = some entry →
      ∃ (j : Nat) (other : Acquire), (r₁.setPhase i phase').tasks[j]? = some other ∧
        other.phase.entry? = some entry ∧ other.phase.isBound = true := by
  intro key entry hk
  have ht₁ : r₁.tasks[i]? = some task := by rw [h.tasks, ht]
  have hself : (r₁.setPhase i phase').tasks[i]? = some { task with phase := phase' } := by
    rw [tasks_setPhase ht₁, if_pos rfl]
  have hrest {j : Nat} {other : Acquire} (hij : j ≠ i) (hj : r.tasks[j]? = some other) :
      (r₁.setPhase i phase').tasks[j]? = some other := by
    rw [tasks_setPhase ht₁, if_neg (Ne.symm hij), h.tasks, hj]
  rcases h.lookup hk with hold | ⟨rfl, rfl⟩
  · obtain ⟨j, other, hj, he, hb⟩ := htally.wanted key entry hold
    by_cases hij : j = i
    · subst hij
      obtain rfl : task = other := Option.some.inj (ht.symm.trans hj)
      have hno : action ≠ .cancel j := by
        rintro rfl
        exact htidy
      rcases h.keeps hno he hb with ⟨he', hb'⟩ | ⟨rfl, hchecks, hmore⟩ | ⟨ending, hphase, hnone⟩
      · exact ⟨j, _, hself, he', hb'⟩
      · -- the other owner of a handle is not past its `prune`
        obtain ⟨k, third, hthird, hkj, hentry⟩ := exists_other hinv ht he hold hmore
        have hleaves := htidy task ht entry hchecks third (List.mem_of_getElem? hthird)
        exact ⟨k, third, hrest hkj hthird, hentry, htally.bound hold hthird hentry hleaves⟩
      · -- the entry is out of the map
        obtain ⟨-, -, hown, -⟩ := (hinv.handles.slots j _ (slots_getElem? ht)).alone
          task.request.key entry (by rw [Acquire.slot, hphase]; rfl)
        obtain rfl := hinv.handles.injective _ _ entry hold hown
        rw [hnone] at hk
        cases hk
    · exact ⟨j, other, hrest hij hj, he, hb⟩
  · exact ⟨i, _, hself, rfl, rfl⟩

theorem tally_acquire (h : Tally r) (request : AcquireRequest) :
    Tally { r with tasks := r.tasks ++ [⟨request, .start⟩] } := by
  refine ⟨?_, ?_, fun task htask entry hun => ?_, fun key entry hk => ?_⟩
  · rw [number_acquire rfl]
    exact h.queued
  · rw [number_acquire rfl, number_acquire rfl]
    exact h.keys
  · rcases List.mem_append.mp htask with hold | hnew
    · exact h.removed task hold entry hun
    · obtain rfl := List.mem_singleton.mp hnew
      cases hun
  · obtain ⟨i, task, ht, he, hb⟩ := h.wanted key entry hk
    exact ⟨i, task, List.getElem?_append_left (List.getElem?_eq_some_iff.mp ht).1 ▸ ht, he, hb⟩

/-- **Every tidy step keeps the tally.** -/
theorem tally_step (hinv : Inv r) (h : Tally r) (htidy : r.Tidy action)
    (hs : r.step action = some r') : Tally r' := by
  rcases step_spec hs with ⟨request, rfl, rfl⟩ | ⟨i, task, r₁, phase', ht, htransition, rfl⟩
  · exact tally_acquire h request
  have ht₁ : r₁.tasks[i]? = some task := by rw [htransition.tasks, ht]
  have hnumber (p : Phase → Bool) : (r₁.setPhase i phase').number p + (p task.phase).toNat =
      r.number p + (p phase').toNat := by
    rw [number_setPhase ht₁, number, number, htransition.tasks]
  have hno : action ≠ .cancel i := by
    rintro rfl
    exact htidy
  refine ⟨?_, ?_, htransition.removed hinv h ht, htransition.wanted hinv h ht htidy⟩
  · have hqueued := htransition.queued hno
    have hwaits := congrArg UInt32.ofNat (hnumber Phase.waits)
    rw [UInt32.ofNat_add, UInt32.ofNat_add] at hwaits
    rw [h.queued, ← hwaits] at hqueued
    exact (UInt32.add_left_inj _).mp hqueued
  · have hkeys := htransition.keys fun hins =>
      ((hinv.handles.slots i _ (slots_getElem? ht)).absent hins).2
    have hcounts := congrArg UInt64.ofNat (hnumber Phase.counts)
    have huncounts := congrArg UInt64.ofNat (hnumber fun phase => phase.uncounts.isSome)
    rw [UInt64.ofNat_add, UInt64.ofNat_add] at hcounts huncounts
    have hbefore := h.keys
    show r₁.keyCount + _ = UInt64.ofNat r₁.entries.keys.card + _
    grind

theorem tally_new (shardCount : Nat) (limits : LockLimits) : Tally (new shardCount limits) where
  queued := rfl
  keys := rfl
  removed := nofun
  wanted := nofun

/-- Nothing is left when every task of a tidy run is done: no waiter is counted, the map is empty
and `key_count` is zero. -/
theorem registry_empties {shardCount : Nat} {limits : LockLimits}
    (h : Reaches step Tidy (new shardCount limits) r)
    (hdone : ∀ task ∈ r.tasks, ∃ ending, task.phase = .done ending) :
    r.totalQueued = 0 ∧ r.entries = ∅ ∧ r.keyCount = 0 := by
  have htally : Inv r ∧ Tally r := by
    refine h.invariant (I := fun r => Inv r ∧ Tally r) ⟨inv_new _ _, tally_new _ _⟩ ?_
    rintro r action r' - ⟨hinv, htally⟩ htidy hs
    exact ⟨inv_step hinv hs, tally_step hinv htally htidy hs⟩
  have hnone (p : Phase → Bool) (hp : ∀ ending, p (.done ending) = false) : r.number p = 0 := by
    refine List.countP_eq_zero.mpr fun task ht => ?_
    obtain ⟨ending, hending⟩ := hdone task ht
    rw [hending, hp]
    exact Bool.false_ne_true
  have hentries : r.entries = ∅ := by
    refine Finmap.ext_lookup fun key => ?_
    rw [Finmap.lookup_empty]
    refine Option.eq_none_iff_forall_ne_some.mpr fun entry hk => ?_
    obtain ⟨i, task, ht, he, -⟩ := htally.2.wanted key entry hk
    obtain ⟨ending, hending⟩ := hdone task (List.mem_of_getElem? ht)
    rw [hending] at he
    cases he
  refine ⟨?_, hentries, ?_⟩
  · rw [htally.2.queued, hnone _ fun _ => rfl]
    rfl
  · have hkeys := htally.2.keys
    rw [hnone _ fun _ => rfl, hnone _ fun _ => rfl, hentries] at hkeys
    simpa using hkeys

/-- The first caller releases and the parked one takes over; the first is gone before the second
comes to its `prune`. -/
def handedOver : List Action :=
  contended ++ .release 0 :: List.replicate 3 (.run 0) ++ List.replicate 4 (.run 1) ++
    .release 1 :: List.replicate 5 (.run 1)

theorem registry_empties_handedOver :
    ∃ r, Reaches step Tidy (new 4 ⟨8, 8⟩) r ∧
      r.tasks = List.replicate 2 ⟨contendedRequest, .done .released⟩ ∧
      r.totalQueued = 0 ∧ r.entries = ∅ ∧ r.keyCount = 0 := by
  refine exists_and_of_runList handedOver (by decide +kernel) fun r hreach htasks => ?_
  refine registry_empties hreach fun task ht => ?_
  rw [htasks] at ht
  exact ⟨.released, by rw [List.eq_of_mem_replicate ht]⟩

/-- The parked caller is cancelled, then the first one releases. -/
def abandoned : List Action :=
  contended ++ .cancel 1 :: .release 0 :: List.replicate 5 (.run 0)

/-- Both callers come to their `prune` before either has dropped its handle. -/
def crossed : List Action :=
  contended ++ .release 0 :: List.replicate 4 (.run 1) ++
    [.release 1, .run 0, .run 0, .run 1, .run 1, .run 0, .run 1]

/-- Every caller is done, and still a waiter is counted that is gone; or an entry is left that
nobody has a handle of. -/
theorem registry_leaks :
    (∃ r, Reachable 4 ⟨8, 8⟩ r ∧
      r.tasks = [⟨contendedRequest, .done .released⟩, ⟨contendedRequest, .done .cancelled⟩] ∧
      r.totalQueued = 1) ∧
    ∃ r, Reachable 4 ⟨8, 8⟩ r ∧
      r.tasks = List.replicate 2 ⟨contendedRequest, .done .released⟩ ∧
      r.entries.lookup contendedRequest.key = some 0 ∧ r.keyCount = 1 := by
  constructor
  · exact exists_of_runList abandoned (by decide +kernel)
  · exact exists_of_runList crossed (by decide +kernel)

end LockRegistry

end Fareward.Lock
