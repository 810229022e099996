import Fareward.Lock.Equiv.Empty

/-!
# The queue ceilings of the lock registry

`acquire` counts itself in the queue of its entry and in the total before it knows whether it may
wait, and a refused one takes itself out again. So the counters never fall below the tasks that are
counted (`Counted`), and a task that read a value below the ceiling found fewer parked tasks than
that (`queue_ceilings`), whatever the refused ones do in between and although a cancelled wait is
never taken out.

The counters are of 32 bits, and the argument needs that no `fetch_add` wraps (`Unwrapped`). With a
ceiling of `u32::MAX` one can: then cancelled waits alone bring the total there, the next acquire
wraps it to zero and is refused, and its `fetch_sub` goes below zero (`total_wraps`).
-/

namespace Fareward.Lock

variable {ceiling x queuedBefore queued : UInt32} {p : Phase → Bool}

namespace Phase

def isParked : Phase → Bool
  | .parked _ => true
  | _ => false

/-- The task is counted in the queue of `entry`. -/
def waitsOn (entry : Nat) : Phase → Bool
  | .enqueueTotal e _ | .refusal e _ _ | .parked e | .leave e _ => e = entry
  | _ => false

/-- The task found the total below the ceiling, and is parked or about to decide. -/
def isAdmitted (ceiling : UInt32) : Phase → Bool
  | .refusal _ _ totalBefore => totalBefore < ceiling
  | .parked _ => true
  | _ => false

/-- The task was counted when its queue was `queuedBefore` long, and is parked only if that is below
its own ceiling. -/
def Found (maxWaiters : UInt8) (queuedBefore : UInt32) : Phase → Prop
  | .enqueueTotal _ q | .refusal _ q _ => q = queuedBefore
  | .parked _ => queuedBefore < maxWaiters.toUInt32
  | .start | .lookup | .insert | .count _ | .tryAcquire _ | .enqueue _ => False
  | _ => True

theorem waits_of_isAdmitted {phase : Phase} (h : phase.isAdmitted ceiling = true) :
    phase.waits = true := by
  cases phase <;> first | rfl | cases h

theorem isAdmitted_of_isParked {phase : Phase} (h : phase.isParked = true) :
    phase.isAdmitted ceiling = true := by
  cases phase <;> first | rfl | cases h

theorem waitsOn_entry {entry : Nat} {phase : Phase} (h : phase.waitsOn entry = true) :
    phase.entry? = some entry := by
  cases phase <;> first | exact congrArg some (of_decide_eq_true h) | cases h

end Phase

namespace LockRegistry

variable {r r' r₁ r₂ : LockRegistry} {i entry : Nat} {task : Acquire} {request : AcquireRequest}
  {phase phase' : Phase} {action : Action} {shardCount : Nat} {limits : LockLimits}

/-- The `fetch_add` that a task comes to does not wrap. -/
def Fits (r : LockRegistry) : Phase → Prop
  | .enqueue entry => (r.heap entry).queued.toNat + 1 < 2 ^ 32
  | .enqueueTotal _ _ => r.totalQueued.toNat + 1 < 2 ^ 32
  | _ => True

instance (r : LockRegistry) : DecidablePred r.Fits := fun phase => by
  cases phase <;> (unfold Fits; infer_instance)

/-- No queue counter wraps past `u32::MAX`. -/
def Unwrapped (r : LockRegistry) : Action → Prop
  | .run i => ∀ task ∈ r.tasks[i]?, r.Fits task.phase
  | _ => True

instance (r : LockRegistry) : DecidablePred r.Unwrapped
  | .run i => inferInstanceAs (Decidable (∀ task ∈ r.tasks[i]?, r.Fits task.phase))
  | .acquire _ | .elapse _ | .cancel _ | .release _ => .isTrue trivial

/-- The number of tasks parked on a key. -/
def parkedOn (r : LockRegistry) (key : LockKey) : Nat :=
  r.tasks.countP fun task => task.request.key = key ∧ task.phase.isParked = true

/-! ### The counters are not below what they count -/

structure Counted (r : LockRegistry) : Prop where
  total : r.number Phase.waits ≤ r.totalQueued.toNat
  queued : ∀ entry, r.number (Phase.waitsOn entry) ≤ (r.heap entry).queued.toNat
  admitted : r.number (Phase.isAdmitted r.limits.maxTotalWaiters) ≤
    r.limits.maxTotalWaiters.toNat

theorem counted_new (shardCount : Nat) (limits : LockLimits) : Counted (new shardCount limits) :=
  ⟨Nat.zero_le _, fun _ => Nat.zero_le _, Nat.zero_le _⟩

theorem number_pos (ht : r.tasks[i]? = some task) (hp : p task.phase = true) :
    0 < r.number p :=
  countP_pos_of_getElem? (p := fun task : Acquire => p task.phase) ht hp

theorem number_mono {q : Phase → Bool} (h : ∀ phase, p phase = true → q phase = true) :
    r.number p ≤ r.number q :=
  List.countP_mono_left fun _ _ hp => h _ hp

/-- What a task that leaves the queue finds. -/
theorem Counted.pos (h : Counted r) (ht : r.tasks[i]? = some task) :
    (∀ entry waited, task.phase = .leave entry waited → 0 < (r.heap entry).queued.toNat) ∧
      ∀ entry waited, task.phase = .leaveTotal entry waited → 0 < r.totalQueued.toNat := by
  constructor
  · intro entry waited hp
    have hpos : 0 < r.number (Phase.waitsOn entry) :=
      number_pos ht (by rw [hp]; exact decide_eq_true rfl)
    exact hpos.trans_le (h.queued entry)
  · intro entry waited hp
    have hpos : 0 < r.number Phase.waits := number_pos ht (by rw [hp]; rfl)
    exact hpos.trans_le h.total

theorem toNat_add_one (h : x.toNat + 1 < 2 ^ 32) : (x + 1).toNat = x.toNat + 1 := by
  rw [UInt32.toNat_add]
  exact Nat.mod_eq_of_lt h

theorem toNat_sub_one (h : 0 < x.toNat) : (x - 1).toNat + 1 = x.toNat := by
  have hle : (1 : UInt32) ≤ x := UInt32.le_iff_toNat_le.mpr h
  rw [UInt32.toNat_sub_of_le _ _ hle]
  exact Nat.sub_add_cancel h

/-- The total follows the tasks, except that a cancelled one stays counted. -/
theorem Transition.total (h : Transition r i request action phase r' phase') (hfits : r.Fits phase)
    (hpos : ∀ entry waited, phase = .leaveTotal entry waited → 0 < r.totalQueued.toNat) :
    r.totalQueued.toNat + phase'.waits.toNat ≤ r'.totalQueued.toNat + phase.waits.toNat := by
  cases h with
  | enqueueTotal => exact (toNat_add_one hfits).ge
  | leaveGranted | leaveEnded => exact (toNat_sub_one (hpos _ _ rfl)).ge
  | cancel => exact Nat.le_succ _
  | _ => exact le_rfl

theorem queued_modifyEntry {f : LockEntry → LockEntry} (hf : ∀ c, (f c).queued = c.queued)
    (e : Nat) : ((r.modifyEntry entry f).heap e).queued = (r.heap e).queued := by
  by_cases he : e = entry <;> simp [modifyEntry, he, hf]

@[simp]
theorem queued_cloneHandle (e : Nat) :
    ((r.cloneHandle entry).heap e).queued = (r.heap e).queued := by
  simp [cloneHandle, queued_modifyEntry]

@[simp]
theorem queued_dropHandle (e : Nat) : ((r.dropHandle entry).heap e).queued = (r.heap e).queued := by
  simp [dropHandle, queued_modifyEntry]

@[simp]
theorem queued_takePermit (e : Nat) : ((r.takePermit entry).heap e).queued = (r.heap e).queued := by
  simp [takePermit, queued_modifyEntry]

@[simp]
theorem queued_returnPermit (e : Nat) :
    ((r.returnPermit entry).heap e).queued = (r.heap e).queued := by
  simp [returnPermit, queued_modifyEntry]

theorem queued_addQueued (by_ : UInt32) (e : Nat) :
    ((r.addQueued entry by_).heap e).queued =
      if e = entry then (r.heap e).queued + by_ else (r.heap e).queued := by
  by_cases he : e = entry <;> simp [addQueued, modifyEntry, he]

/-- The queue of an entry follows its tasks, except that a cancelled one stays counted. -/
theorem Transition.entryQueued (h : Transition r i request action phase r' phase')
    (hfits : r.Fits phase)
    (hpos : ∀ entry waited, phase = .leave entry waited → 0 < (r.heap entry).queued.toNat)
    (hold : phase = .insert → entry ≠ r.allocated) :
    (r.heap entry).queued.toNat + (phase'.waitsOn entry).toNat ≤
      (r'.heap entry).queued.toNat + (phase.waitsOn entry).toNat := by
  cases h with
  | insert => simp [hold rfl, Phase.waitsOn]
  | @enqueue e =>
    rw [queued_addQueued]
    by_cases he : entry = e
    · subst he
      rw [if_pos rfl, toNat_add_one hfits]
      simp [Phase.waitsOn]
    · simp [Phase.waitsOn, he, Ne.symm he]
  | @leave e =>
    rw [queued_addQueued]
    by_cases he : entry = e
    · subst he
      have hone := toNat_sub_one (hpos _ _ rfl)
      rw [if_pos rfl, ← UInt32.sub_eq_add_neg]
      simpa [Phase.waitsOn] using hone.ge
    · simp [Phase.waitsOn, he, Ne.symm he]
  | found => simp [Phase.waitsOn, unlockShard]
  | take | wake | release | remove | drop | cancel => simp [Phase.waitsOn]
  | _ => exact le_rfl

/-- A task is admitted when it finds the total below the ceiling. -/
theorem Transition.admitted (h : Transition r i request action phase r' phase')
    (hnew : phase'.isAdmitted r.limits.maxTotalWaiters = true) :
    phase.isAdmitted r.limits.maxTotalWaiters = true ∨
      phase.waits = false ∧ r.totalQueued < r.limits.maxTotalWaiters := by
  cases h with
  | enqueueTotal => exact .inr ⟨rfl, of_decide_eq_true hnew⟩
  | park _ hroom => exact .inl (decide_eq_true (UInt32.not_le.mp hroom))
  | _ => cases hnew

theorem Transition.limits_eq (h : Transition r i request action phase r' phase') :
    r'.limits = r.limits := by
  cases h <;> rfl

theorem limits_step (hs : r.step action = some r') : r'.limits = r.limits := by
  rcases step_spec hs with ⟨request, rfl, rfl⟩ | ⟨i, task, r₁, phase', ht, htransition, rfl⟩
  · rfl
  · exact htransition.limits_eq

/-- No task is counted in the queue of an entry that does not exist. -/
theorem Inv.number_waitsOn_fresh (h : Inv r) : r.number (Phase.waitsOn r.allocated) = 0 := by
  refine List.countP_eq_zero.mpr fun task hmem hwaits => ?_
  obtain ⟨i, hi⟩ := List.getElem?_of_mem hmem
  exact lt_irrefl _ ((h.handles.slots i _ (slots_getElem? hi)).allocated _
    (Phase.waitsOn_entry hwaits))

/-- The number of tasks with a property after a transition. -/
theorem Transition.number (h : Transition r i task.request action task.phase r₁ phase')
    (ht : r.tasks[i]? = some task) (p : Phase → Bool) :
    (r₁.setPhase i phase').number p + (p task.phase).toNat = r.number p + (p phase').toNat := by
  rw [number_setPhase (h.tasks ▸ ht), LockRegistry.number, LockRegistry.number, h.tasks]

theorem Counted.transition (h : Counted r) (hinv : Inv r) (ht : r.tasks[i]? = some task)
    (hfits : r.Fits task.phase)
    (htransition : Transition r i task.request action task.phase r₁ phase') :
    Counted (r₁.setPhase i phase') := by
  obtain ⟨hposEntry, hposTotal⟩ := h.pos ht
  refine ⟨?_, fun e => ?_, ?_⟩
  · have hnumber := htransition.number ht Phase.waits
    have htotal := htransition.total hfits hposTotal
    have := h.total
    show _ ≤ r₁.totalQueued.toNat
    omega
  · have hnumber := htransition.number ht (Phase.waitsOn e)
    show _ ≤ (r₁.heap e).queued.toNat
    by_cases hfresh : task.phase = .insert ∧ e = r.allocated
    · obtain ⟨hp, rfl⟩ := hfresh
      have hzero := hinv.number_waitsOn_fresh
      rw [hp] at htransition hnumber
      cases htransition
      rw [hzero] at hnumber
      have : (Phase.waitsOn r.allocated (.count r.allocated)).toNat = 0 := rfl
      omega
    · have hqueued := htransition.entryQueued hfits hposEntry fun hp he => hfresh ⟨hp, he⟩
      have := h.queued e
      omega
  · have hnumber := htransition.number ht (Phase.isAdmitted r.limits.maxTotalWaiters)
    show (r₁.setPhase i phase').number (Phase.isAdmitted r₁.limits.maxTotalWaiters) ≤
      r₁.limits.maxTotalWaiters.toNat
    rw [htransition.limits_eq]
    have hadmitted := h.admitted
    cases hnew : phase'.isAdmitted r.limits.maxTotalWaiters with
    | false =>
      rw [hnew] at hnumber
      simp only [Bool.toNat_false] at hnumber
      omega
    | true =>
      rw [hnew] at hnumber
      rcases htransition.admitted hnew with hold | ⟨hwaits, hlt⟩
      · rw [hold] at hnumber
        omega
      · -- the tasks admitted before are among those that the total counts
        have hle : r.number (Phase.isAdmitted r.limits.maxTotalWaiters) ≤ r.number Phase.waits :=
          number_mono fun _ => Phase.waits_of_isAdmitted
        have := h.total
        have hlt : r.totalQueued.toNat < r.limits.maxTotalWaiters.toNat :=
          UInt32.lt_iff_toNat_lt.mp hlt
        simp only [Bool.toNat_true] at hnumber
        omega

theorem counted_acquire (h : Counted r) (request : AcquireRequest) :
    Counted { r with tasks := r.tasks ++ [⟨request, .start⟩] } := by
  refine ⟨?_, fun e => ?_, ?_⟩
  · rw [number_acquire rfl]
    exact h.total
  · rw [number_acquire rfl]
    exact h.queued e
  · rw [number_acquire rfl]
    exact h.admitted

/-- The guard at the phase of the task that takes the step. -/
theorem Transition.fits (h : Transition r i request action phase r' phase')
    (hok : r.Unwrapped action) (ht : r.tasks[i]? = some ⟨request, phase⟩) : r.Fits phase := by
  cases h with
  | elapse | cancel | release => trivial
  | _ => exact hok _ ht

theorem counted_step (hinv : Inv r) (h : Counted r) (hok : r.Unwrapped action)
    (hs : r.step action = some r') : Counted r' := by
  rcases step_spec hs with ⟨request, rfl, rfl⟩ | ⟨i, task, r₁, phase', ht, htransition, rfl⟩
  · exact counted_acquire h request
  · exact h.transition hinv ht (htransition.fits hok ht) htransition

/-! ### What a parked task had found -/

/-- The tasks parked on a key are counted in the queue of the entry that the map stores for it. -/
theorem Counted.parkedOn_le (h : Counted r) (hinv : Inv r) {key : LockKey}
    (hk : r.entries.lookup key = some entry) : r.parkedOn key ≤ (r.heap entry).queued.toNat := by
  refine le_trans (List.countP_mono_left fun task hmem hp => ?_) (h.queued entry)
  obtain ⟨hkey, hparked⟩ := of_decide_eq_true hp
  obtain ⟨i, hi⟩ := List.getElem?_of_mem hmem
  obtain ⟨request, phase⟩ := task
  cases phase with
  | parked =>
    obtain ⟨e', he', hk'⟩ := hinv.stored hi (.inr rfl)
    rw [show request.key = key from hkey, hk] at hk'
    exact decide_eq_true (Option.some.inj (he'.trans hk'.symm))
  | _ => cases hparked

theorem Transition.keepsFound (h : Transition r i request action phase r' phase')
    (hfound : phase.Found request.maxWaiters queuedBefore) :
    phase'.Found request.maxWaiters queuedBefore := by
  cases h with
  | enqueueTotal => exact hfound
  | park hroom =>
    obtain rfl := hfound
    exact UInt32.not_le.mp hroom
  | lock | found | absent | insert | count | contend | enqueue => cases hfound
  | _ => trivial

/-- What the transitions of a task keep of its phase, a step keeps. -/
theorem task_step {P : Phase → Prop} (hP : ∀ r r' action phase phase',
      Transition r i request action phase r' phase' → P phase → P phase')
    (hs : r.step action = some r')
    (h : ∃ phase, r.tasks[i]? = some ⟨request, phase⟩ ∧ P phase) :
    ∃ phase, r'.tasks[i]? = some ⟨request, phase⟩ ∧ P phase := by
  obtain ⟨phase, ht, hp⟩ := h
  rcases step_spec hs with ⟨request', rfl, rfl⟩ | ⟨j, task, r₁, phase', hj, htransition, rfl⟩
  · exact ⟨phase, (List.getElem?_append_left (List.getElem?_eq_some_iff.mp ht).1).trans ht, hp⟩
  · have hj₁ : r₁.tasks[j]? = some task := htransition.tasks ▸ hj
    rw [tasks_setPhase hj₁]
    split_ifs with hij
    · subst hij
      obtain rfl := Option.some.inj (hj.symm.trans ht)
      exact ⟨phase', rfl, hP _ _ _ _ _ htransition hp⟩
    · exact ⟨phase, (congrArg (·[i]?) htransition.tasks).trans ht, hp⟩

/-- A task that is parked had found fewer tasks parked on its key than it allows. -/
theorem parkedOn_lt (hinv : Inv r) (h : Counted r) {entry' : Nat}
    (ht : r.tasks[i]? = some ⟨request, .enqueue entry⟩) (hs : r.step (.run i) = some r₁)
    (hrun : Reaches step Unwrapped r₁ r₂) (ht₂ : r₂.tasks[i]? = some ⟨request, .parked entry'⟩) :
    r.parkedOn request.key < request.maxWaiters.toNat := by
  obtain rfl : r₁ = (r.addQueued entry 1).setPhase i
      (.enqueueTotal entry (r.heap entry).queued) := by
    rw [step, ht] at hs
    exact (Option.some.inj hs).symm
  have hcounted : ∃ phase, r₂.tasks[i]? = some ⟨request, phase⟩ ∧
      phase.Found request.maxWaiters (r.heap entry).queued := by
    refine hrun.invariant (I := fun r₂ => ∃ phase, r₂.tasks[i]? = some ⟨request, phase⟩ ∧
      phase.Found request.maxWaiters (r.heap entry).queued) ?_ fun _ _ _ _ hI _ hs =>
        task_step (fun _ _ _ _ _ h => h.keepsFound) hs hI
    refine ⟨.enqueueTotal entry _, ?_, rfl⟩
    exact (tasks_setPhase (r := r.addQueued entry 1) ht _ i).trans (if_pos rfl)
  obtain ⟨phase, hphase, hfound⟩ := hcounted
  obtain ⟨-, rfl⟩ := Acquire.mk.inj (Option.some.inj (hphase.symm.trans ht₂))
  obtain ⟨e, he, hk⟩ := hinv.stored ht (.inr rfl)
  cases he
  exact (h.parkedOn_le hinv hk).trans_lt (UInt32.lt_iff_toNat_lt.mp hfound)

/-! ### The ceilings -/

/-- In every run of acquires, refusals, timeouts, grants and cancelled waits in which no `fetch_add`
wraps, there are at most `max_total_waiters` parked tasks; a task parks on a key only if fewer than
its own `max_waiters` were parked there when it was counted; and no `fetch_sub` wraps. -/
theorem queue_ceilings (h : Reaches step Unwrapped (new shardCount limits) r) :
    r.number Phase.isParked ≤ limits.maxTotalWaiters.toNat ∧
    (∀ (i entry entry' : Nat) (request : AcquireRequest) (r₁ r₂ : LockRegistry),
      r.tasks[i]? = some ⟨request, .enqueue entry⟩ → r.step (.run i) = some r₁ →
      Reaches step Unwrapped r₁ r₂ → r₂.tasks[i]? = some ⟨request, .parked entry'⟩ →
      r.parkedOn request.key < request.maxWaiters.toNat) ∧
    ∀ (i : Nat) (task : Acquire), r.tasks[i]? = some task →
      (∀ entry waited, task.phase = .leave entry waited → 0 < (r.heap entry).queued.toNat) ∧
      ∀ entry waited, task.phase = .leaveTotal entry waited → 0 < r.totalQueued.toNat := by
  obtain ⟨hinv, hcounted, hlimits⟩ : Inv r ∧ Counted r ∧ r.limits = limits := by
    refine h.invariant (I := fun r => Inv r ∧ Counted r ∧ r.limits = limits)
      ⟨inv_new _ _, counted_new _ _, rfl⟩ ?_
    rintro r action r' - ⟨hinv, hcounted, hlimits⟩ hok hs
    exact ⟨inv_step hinv hs, counted_step hinv hcounted hok hs, (limits_step hs).trans hlimits⟩
  refine ⟨?_, fun i entry entry' request r₁ r₂ ht hs hrun ht₂ => ?_, fun i task ht =>
    hcounted.pos ht⟩
  · rw [← hlimits]
    exact (number_mono fun _ => Phase.isAdmitted_of_isParked).trans hcounted.admitted
  · exact parkedOn_lt hinv hcounted ht hs hrun ht₂

/-- Three callers of one key: the first is granted, the second parks and is cancelled, and the third
finds it still counted. -/
theorem queue_ceilings_cancelled :
    ∃ r, Reaches step Unwrapped (new 4 ⟨8, 8⟩) r ∧
      r.tasks.map (·.phase) =
        [.holding 0 1, .done .cancelled, .leaveTotal 0 (.ended .busy)] ∧
      r.totalQueued = 2 ∧ r.number Phase.isParked ≤ 8 ∧ 0 < r.totalQueued.toNat := by
  obtain ⟨r, hreach, htasks, htotal⟩ : ∃ r, Reaches step Unwrapped (new 4 ⟨8, 8⟩) r ∧
      r.tasks = [⟨contendedRequest, .holding 0 1⟩, ⟨contendedRequest, .done .cancelled⟩,
        ⟨contendedRequest, .leaveTotal 0 (.ended .busy)⟩] ∧ r.totalQueued = 2 :=
    exists_of_runList (contended ++ .cancel 1 :: .acquire contendedRequest ::
      List.replicate 7 (.run 2)) (by decide +kernel)
  obtain ⟨hparked, -, hpos⟩ := queue_ceilings hreach
  refine ⟨r, hreach, by rw [htasks]; rfl, htotal, hparked, ?_⟩
  exact (hpos 2 _ (by rw [htasks]; rfl)).2 0 (.ended .busy) rfl

/-! ### A ceiling at the top of the range -/

/-- A registry to which callers of one key have come, who stand at `phases`. -/
@[reducible]
def scene (r : LockRegistry) (owner : Nat → Option Nat) (entries : Finmap fun _ : LockKey => Nat)
    (heap : Nat → LockEntry) (allocated : Nat) (total : UInt32) (keys : UInt64)
    (generation : UInt16) (phases : List Phase) : LockRegistry :=
  ⟨r.shardCount, r.limits, entries, owner, total, keys, generation, heap, allocated,
    r.tasks ++ phases.map (Acquire.mk contendedRequest)⟩

section Scene

variable {owner owner' : Nat → Option Nat} {entries entries' : Finmap fun _ : LockKey => Nat}
  {heap heap' : Nat → LockEntry} {allocated allocated' : Nat} {total total' : UInt32}
  {keys keys' : UInt64} {generation generation' : UInt16} {phases phases' : List Phase}

theorem scene_acquire : Reaches step (fun _ _ => True)
    (scene r owner entries heap allocated total keys generation phases)
    (scene r owner entries heap allocated total keys generation (phases ++ [.start])) := by
  refine Reaches.tail (a := .acquire contendedRequest) .refl trivial ?_
  rw [step, scene, scene, List.map_append, ← List.append_assoc]
  rfl

theorem scene_congr (howner : owner = owner') (hheap : heap = heap') (hphases : phases = phases') :
    Reaches step (fun _ _ => True)
      (scene r owner entries heap allocated total keys generation phases)
      (scene r owner' entries heap' allocated total keys generation phases') := by
  rw [howner, hheap, hphases]
  exact .refl

theorem scene_task (r : LockRegistry) (hp : phases[i]? = some phase) :
    (r.tasks ++ phases.map (Acquire.mk contendedRequest))[r.tasks.length + i]? =
      some ⟨contendedRequest, phase⟩ := by
  rw [List.getElem?_append_right (Nat.le_add_right _ _), Nat.add_sub_cancel_left, List.getElem?_map,
    hp]
  rfl

/-- The caller at position `i` takes a step. -/
theorem scene_step (i : Nat)
    (h : Transition (scene r owner entries heap allocated total keys generation phases)
      (r.tasks.length + i) contendedRequest action phase
      (scene r owner' entries' heap' allocated' total' keys' generation' phases) phase')
    (hp : phases[i]? = some phase) :
    Reaches step (fun _ _ => True)
      (scene r owner entries heap allocated total keys generation phases)
      (scene r owner' entries' heap' allocated' total' keys' generation'
        (phases.set i phase')) := by
  have ht := scene_task r hp
  have hset : (scene r owner' entries' heap' allocated' total' keys' generation' phases).setPhase
      (r.tasks.length + i) phase' =
        scene r owner' entries' heap' allocated' total' keys' generation'
          (phases.set i phase') := by
    rw [setPhase, scene, scene, modify_eq_set ht, List.set_append_right _ _ (Nat.le_add_right _ _),
      Nat.add_sub_cancel_left, List.map_set]
  have hs := step_of_transition h ht
  rw [hset] at hs
  exact Reaches.tail .refl trivial hs

theorem update_back {shard k : Nat} (h : owner shard = none) :
    Function.update (Function.update owner shard (some k)) shard none = owner := by
  rw [Function.update_idem, ← h, Function.update_eq_self]

/-- A caller that has the permit gets a generation, at the second draw if the first is zero. -/
theorem scene_stamp (entry : Nat) : ∃ generation', Reaches step (fun _ _ => True)
    (scene r owner entries heap allocated total keys generation [.stamp entry])
    (scene r owner entries heap allocated total keys generation'
      [.holding entry generation']) := by
  by_cases hzero : generation + 1 = 0
  · exact ⟨_, (scene_step 0 (.skip hzero) rfl).trans (scene_step 0 .restamp rfl)⟩
  · exact ⟨_, scene_step 0 (.stamp hzero) rfl⟩

/-- A caller of an absent key creates its entry and is granted the lock. -/
theorem scene_grant (howner : r.shardOwner (r.shardIndex contendedRequest.key) = none)
    (habsent : r.entries.lookup contendedRequest.key = none)
    (hroom : ¬r.limits.maxKeys ≤ r.keyCount) :
    ∃ generation', Reaches step (fun _ _ => True) r
      (scene r r.shardOwner (r.entries.insert contendedRequest.key r.allocated)
        (Function.update r.heap r.allocated ⟨0, 0, 2⟩) (r.allocated + 1) r.totalQueued
        (r.keyCount + 1) generation' [.holding r.allocated generation']) := by
  obtain ⟨generation', hstamp⟩ := scene_stamp (r := r) r.allocated
  refine ⟨generation', Reaches.trans ?_ hstamp⟩
  refine Reaches.trans (.tail (a := .acquire contendedRequest) .refl trivial rfl) ?_
  show Reaches _ _ (scene r r.shardOwner r.entries r.heap r.allocated r.totalQueued r.keyCount
    r.nextGeneration [.start]) _
  refine (scene_step 0 (.lock howner) rfl).trans ?_
  refine (scene_step 0 (.absent habsent hroom) rfl).trans ?_
  refine (scene_step 0 .insert rfl).trans ?_
  refine (scene_step 0 .count rfl).trans ?_
  refine (scene_step 0 (.take ?_) rfl).trans ?_
  · simp
  refine scene_congr (update_back howner) ?_ rfl
  simp

/-- A second caller finds the lock held and counts itself. -/
theorem scene_count (howner : owner (r.shardIndex contendedRequest.key) = none)
    (hstored : entries.lookup contendedRequest.key = some entry) (queued : UInt32) (strong : Nat)
    (holder : Phase) :
    Reaches step (fun _ _ => True)
      (scene r owner entries (Function.update heap entry ⟨0, queued, strong⟩) allocated total keys
        generation [holder])
      (scene r owner entries (Function.update heap entry ⟨0, queued + 1, strong + 1⟩) allocated
        (total + 1) keys generation [holder, .refusal entry queued total]) := by
  refine scene_acquire.trans ?_
  refine (scene_step 1 (.lock howner) rfl).trans ?_
  refine (scene_step 1 (.found hstored) rfl).trans ?_
  refine (scene_step 1 (.contend ?_) rfl).trans ?_
  · simp [cloneHandle, modifyEntry]
  refine (scene_step 1 .enqueue rfl).trans ?_
  refine (scene_step 1 .enqueueTotal rfl).trans ?_
  refine scene_congr (update_back howner) ?_ ?_
  · simp [cloneHandle, modifyEntry]
  · simp [cloneHandle, modifyEntry]

/-- A caller that may wait parks, is cancelled and stays counted. -/
theorem scene_lose {strong : Nat} (hroom : ¬contendedRequest.maxWaiters.toUInt32 ≤ queuedBefore)
    (hroom' : ¬r.limits.maxTotalWaiters ≤ total') (holder : Phase) :
    Reaches step (fun _ _ => True)
      (scene r owner entries (Function.update heap entry ⟨0, queued, strong + 1⟩) allocated total
        keys generation [holder, .refusal entry queuedBefore total'])
      (scene r owner entries (Function.update heap entry ⟨0, queued, strong⟩) allocated total keys
        generation [holder, .done .cancelled]) := by
  refine (scene_step 1 (.park hroom hroom') rfl).trans ?_
  refine (scene_step 1 .cancel rfl).trans ?_
  exact scene_congr rfl (by simp) rfl

/-- The holder releases the lock, and the entry is removed. -/
theorem scene_release (howner : owner (r.shardIndex contendedRequest.key) = none)
    (hstored : entries.lookup contendedRequest.key = some entry) (other : Phase) :
    Reaches step (fun _ _ => True)
      (scene r owner entries (Function.update heap entry ⟨0, queued, 2⟩) allocated total keys
        generation [.holding entry generation', other])
      (scene r owner (entries.erase contendedRequest.key)
        (Function.update heap entry ⟨1, queued, 0⟩) allocated total (keys - 1)
        generation [.done .released, other]) := by
  refine (scene_step 0 .release rfl).trans ?_
  refine (scene_step 0 (.lockPrune howner) rfl).trans ?_
  refine (scene_step 0 (.alone ?_) rfl).trans ?_
  · simp
  refine (scene_step 0 (.remove hstored) rfl).trans ?_
  refine (scene_step 0 .uncount rfl).trans ?_
  refine (scene_step 0 .drop rfl).trans ?_
  exact scene_congr (update_back howner) (by simp) rfl

end Scene

/-- A registry with the highest ceiling that the configuration allows, between two rounds: nobody
has or wants the lock, and `total` cancelled waits are still counted. -/
structure Idle (r : LockRegistry) (total : UInt32) : Prop where
  limits : r.limits = ⟨8, 4294967295⟩
  owner : r.shardOwner (r.shardIndex contendedRequest.key) = none
  absent : r.entries.lookup contendedRequest.key = none
  keys : r.keyCount = 0
  total : r.totalQueued = total

/-- One caller is granted the lock and a second one counts itself. -/
theorem Idle.contend {total : UInt32} (h : r.Idle total) :
    ∃ generation, Reaches step (fun _ _ => True) r
      (scene r r.shardOwner (r.entries.insert contendedRequest.key r.allocated)
        (Function.update r.heap r.allocated ⟨0, 1, 3⟩) (r.allocated + 1) (total + 1)
        (r.keyCount + 1) generation
        [.holding r.allocated generation, .refusal r.allocated 0 total]) := by
  obtain ⟨hlimits, howner, habsent, hkeys, rfl⟩ := h
  obtain ⟨generation, hgrant⟩ := scene_grant howner habsent (by rw [hlimits, hkeys]; decide)
  exact ⟨generation, hgrant.trans (scene_count howner (Finmap.lookup_insert _) 0 2 _)⟩

/-- A round with a cancelled wait. -/
theorem Idle.lose {total : UInt32} (h : r.Idle total) (hroom : total < 4294967295) :
    ∃ r', Reaches step (fun _ _ => True) r r' ∧ r'.Idle (total + 1) := by
  obtain ⟨generation, hcontend⟩ := h.contend
  have hlost := hcontend.trans (scene_lose (by decide)
    (by rw [h.limits]; exact UInt32.not_le.mpr hroom) _)
  have hreleased := hlost.trans (scene_release h.owner (Finmap.lookup_insert _) _)
  refine ⟨_, hreleased, h.limits, h.owner, Finmap.lookup_erase _ _, ?_, rfl⟩
  show r.keyCount + 1 - 1 = 0
  rw [h.keys]
  rfl

theorem exists_idle (n : Nat) (hn : n < 2 ^ 32) :
    ∃ r, Reachable 4 ⟨8, 4294967295⟩ r ∧ r.Idle (UInt32.ofNat n) := by
  induction n with
  | zero => exact ⟨_, .refl, rfl, rfl, Finmap.lookup_empty _, rfl, rfl⟩
  | succ n ih =>
    obtain ⟨r, hr, hidle⟩ := ih (by omega)
    have hlt : UInt32.ofNat n < 4294967295 := by
      rw [UInt32.lt_iff_toNat_lt, UInt32.toNat_ofNat']
      show n % 2 ^ 32 < 4294967295
      omega
    obtain ⟨r', hr', hidle'⟩ := hidle.lose hlt
    refine ⟨r', hr.trans hr', ?_⟩
    rw [UInt32.ofNat_add]
    exact hidle'

/-- With a ceiling of `u32::MAX` and that many cancelled waits, the next acquire that finds the lock
held wraps the total to zero, is refused, and comes to a `fetch_sub` that goes below zero. -/
theorem total_wraps :
    ∃ (r r' : LockRegistry) (i entry : Nat), Reachable 4 ⟨8, 4294967295⟩ r ∧
      r.tasks[i]? = some ⟨contendedRequest, .leaveTotal entry (.ended .capacity)⟩ ∧
      r.totalQueued = 0 ∧ r.step (.run i) = some r' ∧ r'.totalQueued = 4294967295 := by
  obtain ⟨r, hr, hidle⟩ := exists_idle (2 ^ 32 - 1) (by decide)
  obtain ⟨generation, hcontend⟩ := hidle.contend
  have hrefused := hcontend.trans (scene_step 1 (.overfull (by decide)
    (by rw [hidle.limits]; decide)) rfl)
  have hleft := hrefused.trans (scene_step 1 .leave rfl)
  have ht := scene_task (i := 1) r (show [.holding r.allocated generation, _][1]? =
    some (.leaveTotal r.allocated (.ended .capacity)) from rfl)
  exact ⟨_, _, r.tasks.length + 1, r.allocated, hr.trans hleft, ht, rfl,
    step_of_transition .leaveEnded ht, rfl⟩

end LockRegistry

end Fareward.Lock
