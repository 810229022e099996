import Fareward.Lib.Count
import Fareward.Lock.Registry

/-!
# The transitions of the lock registry

`Transition` has one constructor for each branch of `advance` and for each of the other steps of a
task: what the branch tests, the registry it leaves apart from the phase of the task, and the phase
the task comes to. `step_spec` is the inversion of `step`; proofs about runs go through it and do
not unfold the machine.
-/

namespace Fareward.Lock

variable {action : LockRegistry.Action} {phase' : Phase}

/-- The call of `acquire` is over, or its guard has been dropped. -/
def Phase.isOver : Phase → Bool
  | .prune _ ending | .pruneCheck _ ending | .pruneRemove _ ending | .pruneCount _ ending
  | .drop _ ending => ending = .released
  | .done _ => true
  | _ => false

namespace LockRegistry

/-- What task `i` does to the registry in one step, and the phase it comes to. -/
inductive Transition (r : LockRegistry) (i : Nat) (request : AcquireRequest) :
    Action → Phase → LockRegistry → Phase → Prop
  | lock (hfree : r.shardOwner (r.shardIndex request.key) = none) :
      Transition r i request (.run i) .start (r.lockShard (r.shardIndex request.key) i) .lookup
  | found {entry : Nat} (hfound : r.entries.lookup request.key = some entry) :
      Transition r i request (.run i) .lookup
        ((r.cloneHandle entry).unlockShard (r.shardIndex request.key)) (.tryAcquire entry)
  | full (habsent : r.entries.lookup request.key = none) (hfull : r.limits.maxKeys ≤ r.keyCount) :
      Transition r i request (.run i) .lookup (r.unlockShard (r.shardIndex request.key))
        (.done .capacity)
  | absent (habsent : r.entries.lookup request.key = none)
      (hroom : ¬r.limits.maxKeys ≤ r.keyCount) : Transition r i request (.run i) .lookup r .insert
  | insert : Transition r i request (.run i) .insert { r with
      heap := Function.update r.heap r.allocated ⟨1, 0, 2⟩
      allocated := r.allocated + 1
      entries := r.entries.insert request.key r.allocated } (.count r.allocated)
  | count {entry : Nat} : Transition r i request (.run i) (.count entry)
      ({ r with keyCount := r.keyCount + 1 }.unlockShard (r.shardIndex request.key))
        (.tryAcquire entry)
  | take {entry : Nat} (hfree : 0 < (r.heap entry).permits) :
      Transition r i request (.run i) (.tryAcquire entry) (r.takePermit entry) (.stamp entry)
  | contend {entry : Nat} (htaken : ¬0 < (r.heap entry).permits) :
      Transition r i request (.run i) (.tryAcquire entry) r (.enqueue entry)
  | enqueue {entry : Nat} : Transition r i request (.run i) (.enqueue entry) (r.addQueued entry 1)
      (.enqueueTotal entry (r.heap entry).queued)
  | enqueueTotal {entry : Nat} {queuedBefore : UInt32} :
      Transition r i request (.run i) (.enqueueTotal entry queuedBefore)
        { r with totalQueued := r.totalQueued + 1 } (.refusal entry queuedBefore r.totalQueued)
  | busy {entry : Nat} {queuedBefore totalBefore : UInt32}
      (hbusy : request.maxWaiters.toUInt32 ≤ queuedBefore) :
      Transition r i request (.run i) (.refusal entry queuedBefore totalBefore) r
        (.leave entry (.ended .busy))
  | overfull {entry : Nat} {queuedBefore totalBefore : UInt32}
      (hroom : ¬request.maxWaiters.toUInt32 ≤ queuedBefore)
      (hfull : r.limits.maxTotalWaiters ≤ totalBefore) :
      Transition r i request (.run i) (.refusal entry queuedBefore totalBefore) r
        (.leave entry (.ended .capacity))
  | park {entry : Nat} {queuedBefore totalBefore : UInt32}
      (hroom : ¬request.maxWaiters.toUInt32 ≤ queuedBefore)
      (hroom' : ¬r.limits.maxTotalWaiters ≤ totalBefore) :
      Transition r i request (.run i) (.refusal entry queuedBefore totalBefore) r (.parked entry)
  | wake {entry : Nat} (hfree : 0 < (r.heap entry).permits) :
      Transition r i request (.run i) (.parked entry) (r.takePermit entry) (.leave entry .permit)
  | elapse {entry : Nat} : Transition r i request (.elapse i) (.parked entry) r
      (.leave entry (.ended .waitTimeout))
  | cancel {entry : Nat} : Transition r i request (.cancel i) (.parked entry) (r.dropHandle entry)
      (.done .cancelled)
  | leave {entry : Nat} {waited : Waited} : Transition r i request (.run i) (.leave entry waited)
      (r.addQueued entry (-1)) (.leaveTotal entry waited)
  | leaveGranted {entry : Nat} : Transition r i request (.run i) (.leaveTotal entry .permit)
      { r with totalQueued := r.totalQueued - 1 } (.stamp entry)
  | leaveEnded {entry : Nat} {ending : Ending} :
      Transition r i request (.run i) (.leaveTotal entry (.ended ending))
        { r with totalQueued := r.totalQueued - 1 } (.prune entry ending)
  | stamp {entry : Nat} (hne : r.nextGeneration + 1 ≠ 0) :
      Transition r i request (.run i) (.stamp entry)
        { r with nextGeneration := r.nextGeneration + 1 } (.holding entry (r.nextGeneration + 1))
  | skip {entry : Nat} (hzero : r.nextGeneration + 1 = 0) :
      Transition r i request (.run i) (.stamp entry)
        { r with nextGeneration := r.nextGeneration + 1 } (.restamp entry)
  | restamp {entry : Nat} : Transition r i request (.run i) (.restamp entry)
      { r with nextGeneration := r.nextGeneration + 1 } (.holding entry (r.nextGeneration + 1))
  | release {entry : Nat} {generation : UInt16} :
      Transition r i request (.release i) (.holding entry generation) (r.returnPermit entry)
        (.prune entry .released)
  | lockPrune {entry : Nat} {ending : Ending}
      (hfree : r.shardOwner (r.shardIndex request.key) = none) :
      Transition r i request (.run i) (.prune entry ending)
        (r.lockShard (r.shardIndex request.key) i) (.pruneCheck entry ending)
  | alone {entry : Nat} {ending : Ending} (htwo : (r.heap entry).strong = 2) :
      Transition r i request (.run i) (.pruneCheck entry ending) r (.pruneRemove entry ending)
  | shared {entry : Nat} {ending : Ending} (hmore : (r.heap entry).strong ≠ 2) :
      Transition r i request (.run i) (.pruneCheck entry ending)
        (r.unlockShard (r.shardIndex request.key)) (.drop entry ending)
  | remove {entry removed : Nat} {ending : Ending}
      (hfound : r.entries.lookup request.key = some removed) :
      Transition r i request (.run i) (.pruneRemove entry ending)
        ({ r with entries := r.entries.erase request.key }.dropHandle removed)
        (.pruneCount entry ending)
  | gone {entry : Nat} {ending : Ending} (habsent : r.entries.lookup request.key = none) :
      Transition r i request (.run i) (.pruneRemove entry ending)
        (r.unlockShard (r.shardIndex request.key)) (.drop entry ending)
  | uncount {entry : Nat} {ending : Ending} :
      Transition r i request (.run i) (.pruneCount entry ending)
        ({ r with keyCount := r.keyCount - 1 }.unlockShard (r.shardIndex request.key))
        (.drop entry ending)
  | drop {entry : Nat} {ending : Ending} :
      Transition r i request (.run i) (.drop entry ending) (r.dropHandle entry) (.done ending)

variable {r r' : LockRegistry} {i : Nat} {request : AcquireRequest} {phase : Phase}

theorem advance_spec (h : r.advance i request phase = some r') :
    ∃ r₁ phase', Transition r i request (.run i) phase r₁ phase' ∧ r' = r₁.setPhase i phase' := by
  cases phase with
  | start =>
    obtain ⟨hfree, h⟩ := Option.ite_none_right_eq_some.mp h
    exact ⟨_, _, .lock hfree, (Option.some.inj h).symm⟩
  | lookup =>
    simp only [advance] at h
    split at h
    · next hfound => exact ⟨_, _, .found hfound, (Option.some.inj h).symm⟩
    · next habsent =>
      split_ifs at h with hfull
      · exact ⟨_, _, .full habsent hfull, (Option.some.inj h).symm⟩
      · exact ⟨_, _, .absent habsent hfull, (Option.some.inj h).symm⟩
  | insert => exact ⟨_, _, .insert, (Option.some.inj h).symm⟩
  | count => exact ⟨_, _, .count, (Option.some.inj h).symm⟩
  | tryAcquire =>
    simp only [advance] at h
    split_ifs at h with hfree
    · exact ⟨_, _, .take hfree, (Option.some.inj h).symm⟩
    · exact ⟨_, _, .contend hfree, (Option.some.inj h).symm⟩
  | enqueue => exact ⟨_, _, .enqueue, (Option.some.inj h).symm⟩
  | enqueueTotal => exact ⟨_, _, .enqueueTotal, (Option.some.inj h).symm⟩
  | refusal =>
    simp only [advance] at h
    split_ifs at h with hbusy hfull
    · exact ⟨_, _, .busy hbusy, (Option.some.inj h).symm⟩
    · exact ⟨_, _, .overfull hbusy hfull, (Option.some.inj h).symm⟩
    · exact ⟨_, _, .park hbusy hfull, (Option.some.inj h).symm⟩
  | parked =>
    obtain ⟨hfree, h⟩ := Option.ite_none_right_eq_some.mp h
    exact ⟨_, _, .wake hfree, (Option.some.inj h).symm⟩
  | leave => exact ⟨_, _, .leave, (Option.some.inj h).symm⟩
  | leaveTotal entry waited =>
    cases waited with
    | permit => exact ⟨_, _, .leaveGranted, (Option.some.inj h).symm⟩
    | ended => exact ⟨_, _, .leaveEnded, (Option.some.inj h).symm⟩
  | stamp =>
    simp only [advance] at h
    split_ifs at h with hzero
    · exact ⟨_, _, .skip hzero, (Option.some.inj h).symm⟩
    · exact ⟨_, _, .stamp hzero, (Option.some.inj h).symm⟩
  | restamp => exact ⟨_, _, .restamp, (Option.some.inj h).symm⟩
  | holding | done => cases h
  | prune =>
    obtain ⟨hfree, h⟩ := Option.ite_none_right_eq_some.mp h
    exact ⟨_, _, .lockPrune hfree, (Option.some.inj h).symm⟩
  | pruneCheck =>
    simp only [advance] at h
    split_ifs at h with htwo
    · exact ⟨_, _, .alone htwo, (Option.some.inj h).symm⟩
    · exact ⟨_, _, .shared htwo, (Option.some.inj h).symm⟩
  | pruneRemove =>
    simp only [advance] at h
    split at h
    · next hfound => exact ⟨_, _, .remove hfound, (Option.some.inj h).symm⟩
    · next habsent => exact ⟨_, _, .gone habsent, (Option.some.inj h).symm⟩
  | pruneCount => exact ⟨_, _, .uncount, (Option.some.inj h).symm⟩
  | drop => exact ⟨_, _, .drop, (Option.some.inj h).symm⟩

/-- **Every step** is a new call or a transition of one task. -/
theorem step_spec (h : r.step action = some r') :
    (∃ request, action = .acquire request ∧
      r' = { r with tasks := r.tasks ++ [⟨request, .start⟩] }) ∨
    ∃ i task r₁ phase', r.tasks[i]? = some task ∧
      Transition r i task.request action task.phase r₁ phase' ∧ r' = r₁.setPhase i phase' := by
  cases action with
  | acquire request => exact .inl ⟨request, rfl, (Option.some.inj h).symm⟩
  | run i =>
    obtain ⟨task, ht, h⟩ := Option.bind_eq_some_iff.mp h
    obtain ⟨r₁, phase', htransition, rfl⟩ := advance_spec h
    exact .inr ⟨i, task, r₁, phase', ht, htransition, rfl⟩
  | elapse i =>
    obtain ⟨⟨request, phase⟩, ht, h⟩ := Option.bind_eq_some_iff.mp h
    cases phase <;> cases h
    exact .inr ⟨i, _, _, _, ht, .elapse, rfl⟩
  | cancel i =>
    obtain ⟨⟨request, phase⟩, ht, h⟩ := Option.bind_eq_some_iff.mp h
    cases phase <;> cases h
    exact .inr ⟨i, _, _, _, ht, .cancel, rfl⟩
  | release i =>
    obtain ⟨⟨request, phase⟩, ht, h⟩ := Option.bind_eq_some_iff.mp h
    cases phase <;> cases h
    exact .inr ⟨i, _, _, _, ht, .release, rfl⟩

theorem step_of_transition {r₁ : LockRegistry} (h : Transition r i request action phase r₁ phase')
    (ht : r.tasks[i]? = some ⟨request, phase⟩) : r.step action = some (r₁.setPhase i phase') := by
  cases h <;> simp [step, advance, *]

/-- A transition does not touch the tasks by itself. -/
theorem Transition.tasks (h : Transition r i request action phase r' phase') :
    r'.tasks = r.tasks := by
  cases h <;> rfl

/-- The phase of a task that is over stays so. -/
theorem Transition.isOver (h : Transition r i request action phase r' phase')
    (hover : phase.isOver = true) : phase'.isOver = true := by
  cases h with
  | lockPrune | alone | shared | remove | gone | uncount => exact hover
  | drop => rfl
  | _ => cases hover

theorem Transition.not_holding (h : Transition r i request action phase r' phase')
    (haction : action ≠ .release i) (entry : Nat) (generation : UInt16) :
    phase ≠ .holding entry generation := by
  rintro rfl
  cases h
  exact haction rfl

theorem tasks_setPhase {task : Acquire} (ht : r.tasks[i]? = some task) (phase : Phase) (j : Nat) :
    (r.setPhase i phase).tasks[j]? =
      if i = j then some { task with phase } else r.tasks[j]? := by
  rw [setPhase, modify_eq_set ht]
  exact getElem?_set_of_some ht _ j

theorem cancel_tasks (hs : r.step (.cancel i) = some r') : ∃ request phase,
    Phase.isOver phase = true ∧
      ∀ j : Nat, r'.tasks[j]? = if i = j then some ⟨request, phase⟩ else r.tasks[j]? := by
  rcases step_spec hs with ⟨request, haction, -⟩ | ⟨i, task, r₁, phase', ht, htransition, rfl⟩
  · cases haction
  · obtain ⟨request, phase⟩ := task
    cases htransition with
    | @cancel entry =>
      exact ⟨_, _, rfl, tasks_setPhase (r := r.dropHandle entry) ht (.done .cancelled)⟩

theorem length_step (hs : r.step action = some r') (hnew : ∀ request, action ≠ .acquire request) :
    r'.tasks.length = r.tasks.length := by
  rcases step_spec hs with ⟨request, rfl, -⟩ | ⟨i, task, r₁, phase', ht, htransition, rfl⟩
  · exact absurd rfl (hnew request)
  · rw [setPhase, List.length_modify, htransition.tasks]

end LockRegistry

end Fareward.Lock
