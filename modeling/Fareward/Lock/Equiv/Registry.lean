import Fareward.Lib.HandleTable
import Fareward.Lib.Machine
import Fareward.Lock.Registry

/-!
# Mutual exclusion of the lock registry

A key's entry may be removed from the map and created again with a fresh permit, so that one permit
per entry gives one permit per key only if nobody still uses a removed entry. That is the
invariant of a `HandleTable`, which the registry is seen as by `table`: an entry in the map is
referenced by the map and by the tasks that own a handle, `prune` removes it only when its own task
is the one such task, and while it decides no handle can be cloned, since a clone needs the shard
it has locked.

* `Inv`: what holds in every reachable state, and `inv_step` that every step keeps it;
* `mutual_exclusion`: one guard per key, and every task that has or may take a permit has its
  handle on the entry that the map stores for its key;
* `parked_not_stranded`: no wake-up is lost.
-/

namespace Fareward.Lock

variable {ending : Ending}

namespace Phase

/-- The entry the task owns a handle of. -/
def entry? : Phase → Option Nat
  | .start | .lookup | .insert | .done _ => none
  | .count e | .tryAcquire e | .enqueue e | .enqueueTotal e _ | .refusal e _ _ | .parked e
  | .leave e _ | .leaveTotal e _ | .stamp e | .restamp e | .holding e _ | .prune e _
  | .pruneCheck e _ | .pruneRemove e _ | .pruneCount e _ | .drop e _ => some e

/-- The task has the permit of its entry. -/
def hasPermit : Phase → Bool
  | .stamp _ | .restamp _ | .holding _ _ | .leave _ .permit | .leaveTotal _ .permit => true
  | _ => false

/-- The task may still take the permit of its entry. -/
def mayTake : Phase → Bool
  | .count _ | .tryAcquire _ | .enqueue _ | .enqueueTotal _ _ | .refusal _ _ _ | .parked _ => true
  | _ => false

/-- The handle is on the entry that the map stores: all its life until `prune` is through. -/
def isBound : Phase → Bool
  | .pruneCount _ _ | .drop _ _ => false
  | _ => true

/-- The task is in a critical section of its key's shard. -/
def locksShard : Phase → Bool
  | .lookup | .insert | .count _ | .pruneCheck _ _ | .pruneRemove _ _ | .pruneCount _ _ => true
  | _ => false

/-- The task has found its key absent, in its critical section. -/
def inserts : Phase → Bool
  | .insert => true
  | _ => false

/-- The task is between the strong count's test and the removal it allows. -/
def removes (key : LockKey) : Phase → Option (LockKey × Nat)
  | .pruneRemove e _ => some (key, e)
  | _ => none

/-- The task has the permit of `entry`. -/
def hasPermitOf (entry : Nat) (phase : Phase) : Bool := phase.hasPermit && phase.entry? = some entry

theorem bound_of_permit {phase : Phase}
    (h : phase.hasPermit = true ∨ phase.mayTake = true) :
    ∃ entry, phase.entry? = some entry ∧ phase.isBound = true := by
  cases phase <;> first | exact ⟨_, rfl, rfl⟩ | exact h.elim nofun nofun

end Phase

/-- A task as a user of the table of entries. -/
def Acquire.slot (task : Acquire) : Slot LockKey where
  key := task.request.key
  handle := task.phase.entry?
  bound := task.phase.isBound
  locks := task.phase.locksShard
  inserts := task.phase.inserts
  removes := task.phase.removes task.request.key

namespace LockRegistry

variable {r r' : LockRegistry} {i j entry : Nat} {task : Acquire} {phase : Phase}

/-- The registry as a table of reference-counted entries. -/
def table (r : LockRegistry) : HandleTable LockKey where
  entries := r.entries
  owner := r.shardOwner
  strong := fun entry => (r.heap entry).strong
  allocated := r.allocated
  slots := r.tasks.map Acquire.slot

/-- The number of tasks that have the permit of `entry`. -/
def holders (r : LockRegistry) (entry : Nat) : Nat :=
  r.tasks.countP fun task => task.phase.hasPermitOf entry

/-- What holds in every reachable state. -/
structure Inv (r : LockRegistry) : Prop where
  handles : r.table.Inv r.shardIndex
  /-- The one permit is in the semaphore or with one task. -/
  permits : ∀ entry, entry < r.allocated → (r.heap entry).permits + r.holders entry = 1

/-! ### What a step may do -/

theorem slots_getElem? (ht : r.tasks[i]? = some task) : r.table.slots[i]? = some task.slot := by
  rw [table, List.getElem?_map, ht]
  rfl

/-- The slots after task `i` has moved to `phase`. -/
theorem slots_setPhase (ht : r.tasks[i]? = some task) (phase : Phase) :
    (r.setPhase i phase).tasks.map Acquire.slot =
      r.table.slots.set i (Acquire.slot { task with phase }) := by
  rw [setPhase, modify_eq_set ht, List.map_set]
  rfl

theorem holders_setPhase (ht : r.tasks[i]? = some task) (phase : Phase) (entry : Nat) :
    (r.setPhase i phase).holders entry + (task.phase.hasPermitOf entry).toNat =
      r.holders entry + (phase.hasPermitOf entry).toNat := by
  rw [holders, setPhase, modify_eq_set ht]
  exact countP_set_add (p := fun task : Acquire => task.phase.hasPermitOf entry) ht _

/-- A step moves the permits of an entry with the permit of its task. -/
theorem permits_of_move (h : Inv r) (ht : r.tasks[i]? = some task) (r' : LockRegistry)
    (phase : Phase) (htasks : r'.tasks = (r.setPhase i phase).tasks)
    (hpermits : ∀ e, e < r.allocated →
      (r'.heap e).permits + (phase.hasPermitOf e).toNat =
        (r.heap e).permits + (task.phase.hasPermitOf e).toNat) :
    ∀ e, e < r.allocated → (r'.heap e).permits + r'.holders e = 1 := by
  intro e he
  have hholders := holders_setPhase ht phase e
  rw [holders, ← htasks] at hholders
  have := h.permits e he
  have := hpermits e he
  rw [holders]
  omega

namespace Inv

/-- A step that leaves the map alone. The shard owner may change for task `i` only, and the
strong count and the permits move with the handle and the permit of task `i`; a handle that it
gains is cloned from the map in its critical section. -/
theorem of_sameMap (h : Inv r) (ht : r.tasks[i]? = some task) (phase : Phase)
    (hcount : r'.shardCount = r.shardCount) (hentries : r'.entries = r.entries)
    (hallocated : r'.allocated = r.allocated)
    (htasks : r'.tasks = (r.setPhase i phase).tasks)
    (howner : ∀ s j, j ≠ i → r.shardOwner s = some j → r'.shardOwner s = some j)
    (hstrong : ∀ k e, r.entries.lookup k = some e →
      (r'.heap e).strong + (decide (task.phase.entry? = some e)).toNat =
        (r.heap e).strong + (decide (phase.entry? = some e)).toNat)
    (hpermits : ∀ e, e < r.allocated →
      (r'.heap e).permits + (phase.hasPermitOf e).toNat =
        (r.heap e).permits + (task.phase.hasPermitOf e).toNat)
    (hlock : phase.locksShard = true →
      r'.shardOwner (r.shardIndex task.request.key) = some i)
    (habsent : phase.inserts = true → phase.locksShard = true ∧
      r.entries.lookup task.request.key = none)
    (hentry : ∀ e, phase.entry? = some e →
      (task.phase.entry? = some e ∧ (phase.isBound = true → task.phase.isBound = true)) ∨
        (task.phase.locksShard = true ∧ r.entries.lookup task.request.key = some e))
    (halone : ∀ k e, phase.removes task.request.key = some (k, e) → phase.locksShard = true ∧
      r.shardIndex k = r.shardIndex task.request.key ∧ r.entries.lookup k = some e ∧
      r.table.Alone i e) : Inv r' := by
  have htable : r'.table = { r.table with
      owner := r'.shardOwner
      strong := fun e => (r'.heap e).strong
      slots := r.table.slots.set i (Acquire.slot { task with phase }) } := by
    rw [table, hentries, hallocated, htasks, slots_setPhase ht]
    rfl
  have hindex : r'.shardIndex = r.shardIndex := by
    funext key
    rw [shardIndex, shardIndex, hcount]
  refine ⟨?_, fun e he => permits_of_move h ht r' phase htasks hpermits e (hallocated ▸ he)⟩
  rw [htable, hindex]
  exact h.handles.move (slots_getElem? ht) _ rfl howner hstrong hlock habsent hentry halone

/-- A step that keeps the handle, the permit and the critical section of its task, and touches
neither the map nor a strong count nor a permit. -/
theorem relabel (h : Inv r) (ht : r.tasks[i]? = some task) (phase : Phase)
    (hcount : r'.shardCount = r.shardCount) (hentries : r'.entries = r.entries)
    (hallocated : r'.allocated = r.allocated) (howner : r'.shardOwner = r.shardOwner)
    (htasks : r'.tasks = (r.setPhase i phase).tasks)
    (hstrong : ∀ e, (r'.heap e).strong = (r.heap e).strong)
    (hpermits : ∀ e, (r'.heap e).permits = (r.heap e).permits)
    (hslot : Acquire.slot { task with phase } = task.slot)
    (hpermit : phase.hasPermit = task.phase.hasPermit) : Inv r' := by
  have htable : r'.table = r.table := by
    rw [table, hentries, hallocated, howner, htasks, slots_setPhase ht, hslot,
      set_of_getElem? (slots_getElem? ht), funext hstrong]
    rfl
  have hindex : r'.shardIndex = r.shardIndex := by
    funext key
    rw [shardIndex, shardIndex, hcount]
  refine ⟨?_, fun e he => permits_of_move h ht r' phase htasks (fun e _ => ?_) e (hallocated ▸ he)⟩
  · rw [htable, hindex]
    exact h.handles
  · have hentry : phase.entry? = task.phase.entry? := congrArg Slot.handle hslot
    rw [hpermits, Phase.hasPermitOf, Phase.hasPermitOf, hentry, hpermit]

end Inv

/-! ### The steps -/

attribute [local simp] setPhase modifyEntry cloneHandle dropHandle takePermit returnPermit
  addQueued lockShard unlockShard Function.update_apply

/-- Locking the shard of its own key, which is free. -/
theorem inv_lock (h : Inv r) (ht : r.tasks[i]? = some task)
    (hfree : r.shardOwner (r.shardIndex task.request.key) = none) (phase : Phase)
    (hentry : phase.entry? = task.phase.entry?) (hpermit : phase.hasPermit = task.phase.hasPermit)
    (hbound : task.phase.isBound = true) (hinserts : phase.inserts = false)
    (hremoves : phase.removes task.request.key = none) :
    Inv ((r.lockShard (r.shardIndex task.request.key) i).setPhase i phase) := by
  refine h.of_sameMap ht phase rfl rfl rfl rfl ?_ ?_ ?_ ?_ ?_ ?_ ?_
  · intro s j _ hs
    have hne : s ≠ r.shardIndex task.request.key := by
      rintro rfl
      rw [hfree] at hs
      cases hs
    rw [← hs]
    exact Function.update_of_ne hne _ _
  · intro k e _
    simp only [hentry]
    rfl
  · intro e _
    rw [Phase.hasPermitOf, Phase.hasPermitOf, hentry, hpermit]
    rfl
  · exact fun _ => Function.update_self _ _ _
  · simp [hinserts]
  · exact fun e he => .inl ⟨hentry ▸ he, fun _ => hbound⟩
  · simp [hremoves]

/-- Leaving the critical section, with the handle of a stored entry or with none. -/
theorem inv_unlock (h : Inv r) (ht : r.tasks[i]? = some task)
    (hlocked : task.phase.locksShard = true) (phase : Phase)
    (hcount : r'.shardCount = r.shardCount) (hentries : r'.entries = r.entries)
    (hallocated : r'.allocated = r.allocated)
    (howner : r'.shardOwner =
      Function.update r.shardOwner (r.shardIndex task.request.key) none)
    (htasks : r'.tasks = (r.setPhase i phase).tasks)
    (hstrong : ∀ e, (r'.heap e).strong + (decide (task.phase.entry? = some e)).toNat =
      (r.heap e).strong + (decide (phase.entry? = some e)).toNat)
    (hpermits : ∀ e, (r'.heap e).permits = (r.heap e).permits)
    (hentry : ∀ e, phase.entry? = some e →
      (task.phase.entry? = some e ∧ (phase.isBound = true → task.phase.isBound = true)) ∨
        r.entries.lookup task.request.key = some e)
    (hpermit : phase.hasPermit = false ∧ task.phase.hasPermit = false)
    (hunlocked : phase.locksShard = false) (hinserts : phase.inserts = false)
    (hremoves : phase.removes task.request.key = none) : Inv r' := by
  refine h.of_sameMap ht phase hcount hentries hallocated htasks ?_ ?_ ?_ ?_ ?_ ?_ ?_
  · intro s j hj hs
    have hne : s ≠ r.shardIndex task.request.key := by
      rintro rfl
      have hown : r.shardOwner (r.shardIndex task.request.key) = some i :=
        (h.handles.slots i _ (slots_getElem? ht)).owner hlocked
      exact hj (Option.some.inj (hs.symm.trans hown))
    rw [howner, Function.update_of_ne hne, hs]
  · exact fun k e _ => hstrong e
  · intro e _
    rw [hpermits, Phase.hasPermitOf, Phase.hasPermitOf, hpermit.1, hpermit.2]
    rfl
  · simp [hunlocked]
  · simp [hinserts]
  · exact fun e he => (hentry e he).imp_right fun he' => ⟨hlocked, he'⟩
  · simp [hremoves]

theorem inv_takePermit (h : Inv r) (ht : r.tasks[i]? = some task)
    (hentry : task.phase.entry? = some entry) (hfree : 0 < (r.heap entry).permits)
    (hold : task.phase.hasPermit = false) (phase : Phase) (hnew : phase.hasPermit = true)
    (hslot : Acquire.slot { task with phase } = task.slot) :
    Inv ((r.takePermit entry).setPhase i phase) := by
  have hsame : phase.entry? = task.phase.entry? := congrArg Slot.handle hslot
  have htable : ((r.takePermit entry).setPhase i phase).table = r.table := by
    rw [table, slots_setPhase (r := r.takePermit entry) ht, hslot]
    refine HandleTable.ext rfl rfl (funext fun e => ?_) rfl (set_of_getElem? (slots_getElem? ht))
    by_cases he : e = entry <;> simp [table, he]
  refine ⟨htable ▸ h.handles, permits_of_move h ht _ phase rfl fun e _ => ?_⟩
  rw [Phase.hasPermitOf, Phase.hasPermitOf, hsame, hentry, hold, hnew]
  by_cases he : e = entry
  · subst he
    simp
    omega
  · simp [he, Ne.symm he]

theorem inv_returnPermit (h : Inv r) {generation : UInt16} (ht : r.tasks[i]? = some task)
    (hp : task.phase = .holding entry generation) :
    Inv ((r.returnPermit entry).setPhase i (.prune entry ending)) := by
  have htable : ((r.returnPermit entry).setPhase i (.prune entry ending)).table = r.table := by
    rw [table, slots_setPhase (r := r.returnPermit entry) ht]
    refine HandleTable.ext rfl rfl (funext fun e => ?_) rfl (set_of_getElem? ?_)
    · by_cases he : e = entry <;> simp [table, he]
    · rw [slots_getElem? (r := r.returnPermit entry) ht, Acquire.slot, hp]
      rfl
  refine ⟨htable ▸ h.handles, permits_of_move h ht _ (.prune entry ending) rfl fun e _ => ?_⟩
  rw [hp]
  by_cases he : e = entry
  · simp [he, Phase.hasPermitOf, Phase.entry?, Phase.hasPermit]
  · simp [he, Ne.symm he, Phase.hasPermitOf, Phase.entry?, Phase.hasPermit]

theorem inv_dropHandle (h : Inv r) (ht : r.tasks[i]? = some task)
    (hentry : task.phase.entry? = some entry) (hpermit : task.phase.hasPermit = false) :
    Inv ((r.dropHandle entry).setPhase i (.done ending)) := by
  refine h.of_sameMap ht _ rfl rfl rfl rfl (fun _ _ _ hs => hs) ?_ ?_ nofun nofun nofun nofun
  · intro k e he
    have := h.handles.strong k e he
    simp only [hentry]
    by_cases hne : e = entry
    · subst hne
      simp only [table] at this
      simp [Phase.entry?]
      omega
    · simp [hne, Ne.symm hne, Phase.entry?]
  · intro e _
    rw [Phase.hasPermitOf, Phase.hasPermitOf, hpermit]
    by_cases hne : e = entry <;> simp [hne, Phase.hasPermit]

theorem Inv.holders_fresh (h : Inv r) : r.holders r.allocated = 0 := by
  refine List.countP_eq_zero.mpr fun task ht => ?_
  obtain ⟨i, hi⟩ := List.getElem?_of_mem ht
  intro hown
  have hentry : task.phase.entry? = some r.allocated := by
    exact of_decide_eq_true (Bool.and_eq_true _ _ ▸ hown).2
  exact lt_irrefl _ ((h.handles.slots i _ (slots_getElem? hi)).allocated _ hentry)

/-- A fresh entry enters the map under a key that was absent. -/
theorem inv_insert (h : Inv r) (ht : r.tasks[i]? = some task) (hp : task.phase = .insert) :
    Inv ({ r with
      heap := Function.update r.heap r.allocated ⟨1, 0, 2⟩
      allocated := r.allocated + 1
      entries := r.entries.insert task.request.key r.allocated }.setPhase i
        (.count r.allocated)) := by
  set r₁ : LockRegistry := { r with
    heap := Function.update r.heap r.allocated ⟨1, 0, 2⟩
    allocated := r.allocated + 1
    entries := r.entries.insert task.request.key r.allocated } with hr₁
  constructor
  · rw [table, slots_setPhase (r := r₁) ht]
    refine h.handles.insert (slots_getElem? ht) ?_ ?_ _ rfl rfl rfl rfl ?_ fun e he => ?_
    · rw [Acquire.slot, hp]
      rfl
    · rw [Acquire.slot, hp]
      rfl
    · simp [hr₁, table]
    · have hne : e ≠ r.allocated := Nat.ne_of_lt he
      simp [hr₁, table, hne]
  · intro e he
    have hholders := holders_setPhase (r := r₁) ht (.count r.allocated) e
    have hsame : r₁.holders e = r.holders e := rfl
    simp only [hp, hsame, Phase.hasPermitOf, Phase.hasPermit, Bool.false_and] at hholders
    by_cases hfresh : e = r.allocated
    · subst hfresh
      have := h.holders_fresh
      simp [hr₁] at hholders ⊢
      omega
    · have := h.permits e (lt_of_le_of_ne (Nat.le_of_lt_succ he) hfresh)
      simp [hr₁, hfresh] at hholders ⊢
      omega

/-- `prune` removes the entry of its task: no other task has a handle of it. -/
theorem inv_erase (h : Inv r) (ht : r.tasks[i]? = some task)
    (hp : task.phase = .pruneRemove entry ending) :
    Inv (({ r with entries := r.entries.erase task.request.key }.dropHandle entry).setPhase i
      (.pruneCount entry ending)) := by
  set r₁ : LockRegistry :=
    { r with entries := r.entries.erase task.request.key }.dropHandle entry with hr₁
  constructor
  · rw [table, slots_setPhase (r := r₁) ht]
    refine h.handles.erase (k := task.request.key) (e := entry) (slots_getElem? ht) ?_ _ rfl ?_
      (fun _ => rfl) nofun nofun rfl fun e he => ?_
    · rw [Acquire.slot, hp]
      rfl
    · rw [Acquire.slot, Acquire.slot, hp]
      rfl
    · simp [hr₁, table, he]
  · refine permits_of_move h ht _ (.pruneCount entry ending) rfl fun e _ => ?_
    rw [hp]
    by_cases he : e = entry <;> simp [hr₁, he, Phase.hasPermitOf, Phase.hasPermit]

/-- The queue counter of an entry is no part of the invariant. -/
theorem inv_addQueued (h : Inv r) (ht : r.tasks[i]? = some task) (by_ : UInt32) (phase : Phase)
    (hslot : Acquire.slot { task with phase } = task.slot)
    (hpermit : phase.hasPermit = task.phase.hasPermit) :
    Inv ((r.addQueued entry by_).setPhase i phase) := by
  refine h.relabel ht phase rfl rfl rfl rfl rfl (fun e => ?_) (fun e => ?_) hslot hpermit
  all_goals by_cases he : e = entry <;> simp [he]

/-- Every atomic operation of a task keeps the invariant. -/
theorem inv_advance (h : Inv r) (ht : r.tasks[i]? = some task)
    (ha : r.advance i task.request task.phase = some r') : Inv r' := by
  obtain ⟨request, phase⟩ := task
  have hslot := slots_getElem? ht
  have hself := h.handles.slots i _ hslot
  cases phase with
  | start =>
    obtain ⟨hfree, ha⟩ := Option.ite_none_right_eq_some.mp ha
    cases ha
    exact inv_lock h ht hfree .lookup rfl rfl rfl rfl rfl
  | lookup =>
    simp only [advance] at ha
    split at ha
    case h_1 e he =>
      cases ha
      refine inv_unlock h ht rfl (.tryAcquire e) rfl rfl rfl rfl rfl (fun e' => ?_) (fun e' => ?_)
        (fun e' he' => .inr ?_) ⟨rfl, rfl⟩ rfl rfl rfl
      · by_cases hne : e' = e
        · simp [hne, Phase.entry?]
        · simp [hne, Ne.symm hne, Phase.entry?]
      · by_cases hne : e' = e <;> simp [hne]
      · obtain rfl := Option.some.inj he'
        exact he
    case h_2 hnone =>
      split_ifs at ha
      · cases ha
        exact inv_unlock h ht rfl (.done .capacity) rfl rfl rfl rfl rfl (fun _ => rfl)
          (fun _ => rfl) nofun ⟨rfl, rfl⟩ rfl rfl rfl
      · cases ha
        exact h.of_sameMap ht .insert rfl rfl rfl rfl (fun _ _ _ hs => hs) (fun _ _ _ => rfl)
          (fun _ _ => rfl) (fun _ => hself.owner rfl) (fun _ => ⟨rfl, hnone⟩) nofun nofun
  | insert =>
    cases ha
    exact inv_insert h ht rfl
  | count e =>
    cases ha
    exact inv_unlock h ht rfl (.tryAcquire e) rfl rfl rfl rfl rfl (fun _ => rfl) (fun _ => rfl)
      (fun _ he => .inl ⟨he, fun _ => rfl⟩) ⟨rfl, rfl⟩ rfl rfl rfl
  | tryAcquire e =>
    simp only [advance] at ha
    split_ifs at ha with hfree
    · cases ha
      exact inv_takePermit h ht rfl hfree rfl (.stamp e) rfl rfl
    · cases ha
      exact h.relabel ht (.enqueue e) rfl rfl rfl rfl rfl (fun _ => rfl) (fun _ => rfl) rfl rfl
  | enqueue =>
    cases ha
    exact inv_addQueued h ht _ _ rfl rfl
  | enqueueTotal | restamp =>
    cases ha
    exact h.relabel ht _ rfl rfl rfl rfl rfl (fun _ => rfl) (fun _ => rfl) rfl rfl
  | refusal | stamp =>
    simp only [advance] at ha
    split_ifs at ha
    all_goals
      cases ha
      exact h.relabel ht _ rfl rfl rfl rfl rfl (fun _ => rfl) (fun _ => rfl) rfl rfl
  | parked e =>
    obtain ⟨hfree, ha⟩ := Option.ite_none_right_eq_some.mp ha
    cases ha
    exact inv_takePermit h ht rfl hfree rfl (.leave e .permit) rfl rfl
  | leave e waited =>
    cases ha
    cases waited <;> exact inv_addQueued h ht _ _ rfl rfl
  | leaveTotal e waited =>
    cases waited
    all_goals
      cases ha
      exact h.relabel ht _ rfl rfl rfl rfl rfl (fun _ => rfl) (fun _ => rfl) rfl rfl
  | holding | done => cases ha
  | prune e ending =>
    obtain ⟨hfree, ha⟩ := Option.ite_none_right_eq_some.mp ha
    cases ha
    exact inv_lock h ht hfree (.pruneCheck e ending) rfl rfl rfl rfl rfl
  | pruneCheck e ending =>
    simp only [advance] at ha
    split_ifs at ha with htwo
    · -- two handles, and the map has one of them: this task has the other
      cases ha
      have hstored := hself.bound e rfl rfl
      refine h.of_sameMap ht (.pruneRemove e ending) rfl rfl rfl rfl (fun _ _ _ hs => hs)
        (fun _ _ _ => rfl) (fun _ _ => rfl) (fun _ => hself.owner rfl) nofun
        (fun _ he => .inl ⟨he, fun _ => rfl⟩) (fun k e' hr => ?_)
      obtain ⟨rfl, rfl⟩ : request.key = k ∧ e = e' := by simpa [Phase.removes] using hr
      exact ⟨rfl, rfl, hstored, h.handles.alone_of_strong hslot rfl hstored htwo⟩
    · cases ha
      exact inv_unlock h ht rfl (.drop e ending) rfl rfl rfl rfl rfl (fun _ => rfl) (fun _ => rfl)
        (fun _ he => .inl ⟨he, fun _ => rfl⟩) ⟨rfl, rfl⟩ rfl rfl rfl
  | pruneRemove e =>
    have hstored : r.entries.lookup request.key = some e := hself.bound e rfl rfl
    simp only [advance, hstored] at ha
    cases ha
    have hinv := inv_erase h ht rfl
    exact hinv
  | pruneCount e ending =>
    cases ha
    exact inv_unlock h ht rfl (.drop e ending) rfl rfl rfl rfl rfl (fun _ => rfl) (fun _ => rfl)
      (fun _ he => .inl ⟨he, nofun⟩) ⟨rfl, rfl⟩ rfl rfl rfl
  | drop =>
    cases ha
    exact inv_dropHandle h ht rfl rfl

theorem inv_acquire (h : Inv r) (request : AcquireRequest) :
    Inv { r with tasks := r.tasks ++ [⟨request, .start⟩] } := by
  constructor
  · rw [table, List.map_append]
    exact h.handles.spawn request.key
  · intro e he
    rw [← h.permits e he]
    simp [holders, List.countP_append, Phase.hasPermitOf, Phase.hasPermit]

/-- **Every step keeps the invariant.** -/
theorem inv_step {action : Action} (h : Inv r) (hs : r.step action = some r') : Inv r' := by
  cases action with
  | acquire request =>
    cases hs
    exact inv_acquire h request
  | run =>
    obtain ⟨task, ht, ha⟩ := Option.bind_eq_some_iff.mp hs
    exact inv_advance h ht ha
  | elapse =>
    obtain ⟨⟨request, phase⟩, ht, ha⟩ := Option.bind_eq_some_iff.mp hs
    cases phase <;> cases ha
    exact h.relabel ht _ rfl rfl rfl rfl rfl (fun _ => rfl) (fun _ => rfl) rfl rfl
  | cancel =>
    obtain ⟨⟨request, phase⟩, ht, ha⟩ := Option.bind_eq_some_iff.mp hs
    cases phase <;> cases ha
    exact inv_dropHandle h ht rfl rfl
  | release =>
    obtain ⟨⟨request, phase⟩, ht, ha⟩ := Option.bind_eq_some_iff.mp hs
    cases phase <;> cases ha
    exact inv_returnPermit h ht rfl

theorem inv_new (shardCount : Nat) (limits : LockLimits) : Inv (new shardCount limits) :=
  ⟨.empty _ _ _, nofun⟩

/-- The states of a registry: any interleaving of any number of calls, refusals, timeouts,
cancellations and guard drops. -/
abbrev Reachable (shardCount : Nat) (limits : LockLimits) : LockRegistry → Prop :=
  Reaches step (fun _ _ => True) (new shardCount limits)

theorem Reachable.inv {shardCount : Nat} {limits : LockLimits}
    (h : Reachable shardCount limits r) : Inv r :=
  h.invariant (inv_new shardCount limits) fun _ _ _ _ hi _ hs => inv_step hi hs

/-! ### Mutual exclusion -/

namespace Inv

/-- A task that holds the permit of its entry, or may still take it, has its handle on the entry the
map stores for its key. -/
theorem stored (h : Inv r) (hi : r.tasks[i]? = some task)
    (hpermit : task.phase.hasPermit = true ∨ task.phase.mayTake = true) :
    ∃ entry, task.phase.entry? = some entry ∧
      r.entries.lookup task.request.key = some entry := by
  obtain ⟨entry, he, hb⟩ := Phase.bound_of_permit hpermit
  exact ⟨entry, he, (h.handles.slots i _ (slots_getElem? hi)).bound entry he hb⟩

/-- Two tasks that hold a permit on the same key are one task. -/
theorem eq_of_permits {task' : Acquire} (h : Inv r) (hi : r.tasks[i]? = some task)
    (hj : r.tasks[j]? = some task') (pi : task.phase.hasPermit = true)
    (pj : task'.phase.hasPermit = true) (hkey : task.request.key = task'.request.key) : i = j := by
  obtain ⟨entry, he, hk⟩ := h.stored hi (.inl pi)
  obtain ⟨entry', he', hk'⟩ := h.stored hj (.inl pj)
  obtain rfl : entry = entry' := by
    rw [hkey, hk'] at hk
    exact (Option.some.inj hk).symm
  have hone := h.permits entry (h.handles.allocated _ _ hk)
  refine eq_of_countP_le_one (p := fun task : Acquire => task.phase.hasPermitOf entry)
    (l := r.tasks) ?_ hi ?_ hj ?_
  · rw [holders] at hone
    omega
  · simp [Phase.hasPermitOf, pi, he]
  · simp [Phase.hasPermitOf, pj, he']

end Inv

/-- **Mutual exclusion.** In every reachable state of every registry, two tasks that hold a permit
on the same key are one task, and the entry of every task that holds a permit or may still take one
is the entry the map stores for its key. -/
theorem mutual_exclusion {shardCount : Nat} {limits : LockLimits}
    (h : Reachable shardCount limits r) :
    (∀ (i j : Nat) (task task' : Acquire), r.tasks[i]? = some task →
      r.tasks[j]? = some task' → task.phase.hasPermit = true → task'.phase.hasPermit = true →
      task.request.key = task'.request.key → i = j) ∧
    (∀ (i : Nat) (task : Acquire), r.tasks[i]? = some task →
      task.phase.hasPermit = true ∨ task.phase.mayTake = true →
      ∃ entry, task.phase.entry? = some entry ∧
        r.entries.lookup task.request.key = some entry) :=
  ⟨fun _ _ _ _ hi hj pi pj hkey => h.inv.eq_of_permits hi hj pi pj hkey,
    fun _ _ hi hpermit => h.inv.stored hi hpermit⟩

/-- A request for the mutex on identifier 42 of action 7, ready to wait a second. -/
def contendedRequest : AcquireRequest := ⟨7, 42, 1, 1000⟩

/-- Two callers of one key: the first is granted, the second parks. -/
def contended : List Action :=
  .acquire contendedRequest :: List.replicate 6 (.run 0) ++
    .acquire contendedRequest :: List.replicate 6 (.run 1)

theorem mutual_exclusion_contended :
    ∃ r, Reachable 4 ⟨8, 8⟩ r ∧
      r.tasks = [⟨contendedRequest, .holding 0 1⟩, ⟨contendedRequest, .parked 0⟩] ∧
      (∀ (j : Nat) (task : Acquire), r.tasks[j]? = some task → task.phase.hasPermit = true →
        task.request.key = contendedRequest.key → j = 0) ∧
      ∃ entry, Phase.entry? (.parked 0) = some entry ∧
        r.entries.lookup contendedRequest.key = some entry := by
  refine exists_and_of_runList contended (by decide +kernel) fun r hreach htasks => ?_
  obtain ⟨hone, hstored⟩ := mutual_exclusion hreach
  constructor
  · intro j task hj hp hkey
    exact hone j 0 task ⟨contendedRequest, .holding 0 1⟩ hj (by rw [htasks]; rfl) hp rfl hkey
  · exact hstored 1 ⟨contendedRequest, .parked 0⟩ (by rw [htasks]; rfl) (.inr rfl)

/-! ### No lost wake-up -/

/-- A task has the permit of the key and can go on, by itself or by the release of its guard. -/
def InHand (r : LockRegistry) (key : LockKey) : Prop :=
  ∃ (j : Nat) (task : Acquire), r.tasks[j]? = some task ∧ task.request.key = key ∧
    task.phase.hasPermit = true ∧ ((r.step (.run j)).isSome ∨ (r.step (.release j)).isSome)

/-- **No parked task is stranded.** In every reachable state it can take its permit at once, or the
permit of its key is in hand. -/
theorem parked_not_stranded {shardCount : Nat} {limits : LockLimits} {request : AcquireRequest}
    (h : Reachable shardCount limits r) (hi : r.tasks[i]? = some ⟨request, .parked entry⟩) :
    (r.step (.run i)).isSome ∨ r.InHand request.key := by
  obtain ⟨_, he, hk⟩ := h.inv.stored hi (.inr rfl)
  obtain rfl := Option.some.inj he
  have hone := h.inv.permits entry (h.inv.handles.allocated _ _ hk)
  by_cases hfree : 0 < (r.heap entry).permits
  · exact .inl (by simp [step, advance, hi, hfree])
  -- the permit is out, with a task whose handle is on the entry stored for its own key
  · have hout : 0 < r.holders entry := by omega
    obtain ⟨⟨request', phase⟩, hmem, hof⟩ := List.countP_pos_iff.mp hout
    obtain ⟨j, hj⟩ := List.getElem?_of_mem hmem
    obtain ⟨hp, hentry⟩ := Bool.and_eq_true_iff.mp hof
    obtain ⟨_, he', hk'⟩ := h.inv.stored hj (.inl hp)
    obtain rfl := Option.some.inj (he'.symm.trans (of_decide_eq_true hentry))
    refine .inr ⟨j, _, hj, h.inv.handles.injective _ _ _ hk' hk, hp, ?_⟩
    cases phase with
    | leave | restamp | holding => simp [step, advance, hj]
    | leaveTotal _ waited => cases waited <;> simp [step, advance, hj]
    | stamp =>
      simp only [step, advance, hj]
      split_ifs <;> simp
    | _ => cases hp

theorem parked_not_stranded_contended :
    ∃ r, Reachable 4 ⟨8, 8⟩ r ∧ r.tasks[1]? = some ⟨contendedRequest, .parked 0⟩ ∧
      ((r.step (.run 1)).isSome ∨ r.InHand contendedRequest.key) :=
  exists_and_of_runList contended (by decide +kernel) fun _ hreach => parked_not_stranded hreach

end LockRegistry

end Fareward.Lock
