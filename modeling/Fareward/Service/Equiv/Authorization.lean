import Fareward.Lib.Count
import Fareward.Limiter.Equiv.Authorization
import Fareward.Service.Authorization

/-!
# Whether an invalidation takes effect in the order of the frames

The tasks of one connection race for the lock of the shard, so a charge may be decided before the
invalidation whose frame came first (`charge_decided_before_invalidation`). It is decided with
grants that were read after that frame if the invalidation has been carried out before the charge
gets the lock (`invalidation_in_order`): what the charge finds in the cache was read after every
invalidation that covers it, and an invalidation is carried out after its frame was read.
-/

namespace Fareward.Service

open Limiter

variable {w' : AccessWorld} {users : Int × Int → Option StoredUserAccess} {t : Int} {now : ℕ}
  {fates : Fates}

namespace AccessSession

variable {config : Config} {store : LimiterStore} {s s' : AccessSession} {action : Action} {k : ℕ}
  {task : AccessTask}

structure Inv (config : Config) (users : Int × Int → Option StoredUserAccess) (s : AccessSession) :
    Prop where
  authentic : AccessWorld.Inv config users s.limiter
  received : ∀ task ∈ s.tasks, task.receivedAt ≤ s.limiter.history.length
  /-- An invalidation that was carried out is in the history, after its frame was read. -/
  invalidated : ∀ task ∈ s.tasks, ∀ c u, task.work = .invalidation c u → task.hasCalled = true →
    ∃ before, (.invalidated c u :: before) <:+ s.limiter.history ∧ task.receivedAt ≤ before.length

theorem Inv.boot (store : LimiterStore) (maxInflight : ℕ) :
    Inv config store.users (boot store maxInflight) :=
  ⟨.boot store, fun _ hmem => absurd hmem List.not_mem_nil,
    fun _ hmem => absurd hmem List.not_mem_nil⟩

theorem history_suffix {w : AccessWorld} {action : AccessWorld.Action}
    (hs : w.step config action = some w') : w.history <:+ w'.history := by
  cases action with
  | limiter =>
    obtain ⟨world, -, rfl⟩ := Option.map_eq_some_iff.mp hs
    exact List.suffix_append _ _
  | change =>
    cases hs
    exact List.suffix_cons _ _

/-- The limiter takes a step, and no task does. -/
theorem Inv.elsewhere {action : AccessWorld.Action} (h : Inv config users s)
    (hs : s.limiter.step config action = some w') : Inv config users { s with limiter := w' } := by
  have hsuffix := history_suffix hs
  refine ⟨h.authentic.step hs, fun task hmem => (h.received task hmem).trans hsuffix.length_le,
    fun task hmem c u hwork hcalled => ?_⟩
  obtain ⟨before, hbefore, hreceived⟩ := h.invalidated task hmem c u hwork hcalled
  exact ⟨before, hbefore.trans hsuffix, hreceived⟩

/-- The phase of a task changes; it may have called only if it is no invalidation, or the
invalidation is in the history. -/
theorem Inv.setTask {phase : AccessTaskPhase} (h : Inv config users s)
    (hk : s.tasks[k]? = some task) (hcalled : ∀ c u, task.work = .invalidation c u →
      ({ task with phase } : AccessTask).hasCalled = true →
      ∃ before, (.invalidated c u :: before) <:+ s.limiter.history ∧
        task.receivedAt ≤ before.length) : Inv config users (s.setTask k phase) := by
  have hmem : ∀ task' ∈ (s.setTask k phase).tasks,
      task' ∈ s.tasks ∨ task' = { task with phase } := by
    intro task' hmem
    unfold AccessSession.setTask at hmem
    dsimp only at hmem
    rw [modify_eq_set hk] at hmem
    exact List.mem_or_eq_of_mem_set hmem
  refine ⟨h.authentic, fun task' hmem' => ?_, fun task' hmem' c u hwork hcalled' => ?_⟩
  · rcases hmem task' hmem' with hold | rfl
    · exact h.received task' hold
    · exact h.received task (List.mem_of_getElem? hk)
  · rcases hmem task' hmem' with hold | rfl
    · exact h.invalidated task' hold c u hwork hcalled'
    · exact hcalled c u hwork hcalled'

/-- The call of a task, which may add to the history. -/
theorem Inv.run (h : Inv config users s) (hk : s.tasks[k]? = some task)
    (hcall : call config s.limiter t now fates task.work = some w') :
    Inv config users { s.setTask k .replying with limiter := w' } := by
  have hreceived := h.received task (List.mem_of_getElem? hk)
  unfold call at hcall
  split at hcall
  · next hwork =>
    refine (h.elsewhere hcall).setTask hk fun c u hwork' => ?_
    cases hwork.symm.trans hwork'
  · next c u hwork =>
    refine (h.elsewhere hcall).setTask hk fun c' u' hwork' _ => ?_
    cases hwork.symm.trans hwork'
    cases hcall
    exact ⟨s.limiter.history, List.suffix_rfl, hreceived⟩
  · next hwork =>
    cases hcall
    refine h.setTask hk fun c u hwork' => ?_
    cases hwork.symm.trans hwork'

theorem Inv.step (h : Inv config users s) (hs : step config s action = some s') :
    Inv config users s' := by
  cases action with
  | receive =>
    unfold AccessSession.step at hs
    dsimp only at hs
    split_ifs at hs
    · cases hs
      refine ⟨h.authentic, fun task hmem => ?_, fun task hmem c u hwork hcalled => ?_⟩
      · rcases List.mem_append.mp hmem with hold | hnew
        · exact h.received task hold
        · obtain rfl := List.mem_singleton.mp hnew
          exact le_rfl
      · rcases List.mem_append.mp hmem with hold | hnew
        · exact h.invalidated task hold c u hwork hcalled
        · obtain rfl := List.mem_singleton.mp hnew
          cases hcalled
    · cases hs
      exact h
  | run =>
    obtain ⟨task, hk, hs⟩ := Option.bind_eq_some_iff.mp hs
    obtain ⟨-, hs⟩ := Option.ite_none_right_eq_some.mp hs
    obtain ⟨w', hcall, rfl⟩ := Option.map_eq_some_iff.mp hs
    exact h.run hk hcall
  | finish =>
    obtain ⟨task, hk, hs⟩ := Option.bind_eq_some_iff.mp hs
    obtain ⟨hphase, hs⟩ := Option.ite_none_right_eq_some.mp hs
    cases hs
    refine h.setTask hk fun c u hwork _ => h.invalidated task (List.mem_of_getElem? hk) c u hwork ?_
    unfold AccessTask.hasCalled
    rw [hphase]
    rfl
  | abort =>
    obtain ⟨task, hk, hs⟩ := Option.bind_eq_some_iff.mp hs
    split_ifs at hs with hspawned hphase
    · cases hs
      exact h.setTask hk fun c u _ hcalled => by cases hcalled
    · cases hs
      refine h.setTask hk fun c u hwork _ =>
        h.invalidated task (List.mem_of_getElem? hk) c u hwork ?_
      unfold AccessTask.hasCalled
      rw [hphase]
      rfl
  | elsewhere =>
    obtain ⟨w', hw', rfl⟩ := Option.map_eq_some_iff.mp hs
    exact h.elsewhere hw'

theorem step_run_suffix (hs : s.step config (.run k t now fates) = some s') :
    s.limiter.history <:+ s'.limiter.history := by
  obtain ⟨task, -, hs⟩ := Option.bind_eq_some_iff.mp hs
  obtain ⟨-, hs⟩ := Option.ite_none_right_eq_some.mp hs
  obtain ⟨w', hcall, rfl⟩ := Option.map_eq_some_iff.mp hs
  unfold call at hcall
  split at hcall
  · exact history_suffix hcall
  · exact history_suffix hcall
  · cases hcall
    exact List.suffix_rfl

/-- What is not between is before. -/
theorem suffix_of_not_mem {α : Type} {a b : α} {between earlier before : List α} (hne : a ≠ b)
    (hsuffix : (a :: before) <:+ between ++ b :: earlier) (hnot : a ∉ between) :
    (a :: before) <:+ earlier := by
  obtain ⟨later, hlater⟩ := hsuffix
  rcases List.append_eq_append_iff.mp hlater with ⟨mid, rfl, hmid⟩ | ⟨mid, rfl, hmid⟩
  · cases mid with
    | nil => exact absurd (List.cons.inj hmid).1 hne
    | cons =>
      obtain ⟨rfl, -⟩ := List.cons.inj hmid
      exact absurd (List.mem_append_right _ List.mem_cons_self) hnot
  · cases mid with
    | nil => exact absurd (List.cons.inj hmid).1.symm hne
    | cons =>
      obtain ⟨rfl, rfl⟩ := List.cons.inj hmid
      exact List.suffix_append _ _

/-- **An invalidation takes effect in frame order.** In every run, if an invalidation that covers a
charge has been carried out when the charge gets the lock of the shard, as the one of an earlier
frame should be, the charge is decided with grants that were read after the frame of the
invalidation was. -/
theorem invalidation_in_order {maxInflight : ℕ} {t : Int} {now : ℕ} {fates : Fates}
    {request : Request} {invalidation : AccessTask} {c u : Int}
    (hreach : Reaches (step config) (fun _ _ => True) (boot store maxInflight) s)
    (hinvalidation : invalidation ∈ s.tasks) (hwork : invalidation.work = .invalidation c u)
    (hcovers : covers c u request.accessKey = true) (hcalled : invalidation.hasCalled = true)
    (hs : s.step config (.run k t now fates) = some s') :
    ∀ verdict before, s'.limiter.history = .verdict request t verdict :: before →
      ∃ between earlier row loadedAt state,
        before = between ++ .read request.accessKey row loadedAt :: earlier ∧
        invalidation.receivedAt ≤ earlier.length ∧
        UserAccessState.fromRow row loadedAt = .ok state ∧
        verdict = state.verdict request.requiredAccess := by
  have hinv : Inv config store.users s := by
    refine hreach.invariant (.boot store maxInflight) ?_
    rintro s action s' - hs - hstep
    exact hs.step hstep
  obtain ⟨before', hbefore', hreceived⟩ := hinv.invalidated invalidation hinvalidation c u hwork
    hcalled
  intro verdict before hhistory
  have hinv' := hinv.step hs
  obtain ⟨state, ⟨between, earlier, row, rfl, hbetween, hstate⟩, -, -, hverdict⟩ :=
    hinv'.authentic.verdicts request t verdict before (hhistory ▸ List.suffix_rfl)
  refine ⟨between, earlier, row, state.loadedAt, state, rfl, ?_, hstate, hverdict⟩
  -- the invalidation is in the history before the verdict, and not between the read and the verdict
  have hsuffix := hbefore'.trans (step_run_suffix hs)
  rw [hhistory] at hsuffix
  rcases List.suffix_cons_iff.mp hsuffix with heq | hsuffix
  · cases (List.cons.inj heq).1
  have hnot : .invalidated c u ∉ between := fun hmem => by
    cases hcovers.symm.trans (hbetween c u hmem)
  have hne : AccessEvent.invalidated c u ≠ .read request.accessKey row state.loadedAt := nofun
  have hearlier := (suffix_of_not_mem hne hsuffix hnot).length_le
  rw [List.length_cons] at hearlier
  omega

/-- The user is authorized and deleted, and the backend sends an invalidation and then a charge. -/
def deletedUser : List Action :=
  [.elsewhere (.limiter (.admission authorizeOnly 1800000000 0 fun _ => .done)),
    .elsewhere (.change (7, 42) none), .receive (.invalidation 7 42),
    .receive (.charge authorizeOnly)]

theorem invalidation_in_order_deletedUser : ∃ s s' invalidation,
    Reaches (step sampleConfig) (fun _ _ => True) (boot grantedStore 64) s ∧
    s.tasks[0]? = some invalidation ∧ invalidation.receivedAt = 3 ∧
    s.step sampleConfig (.run 1 1800000030 0 fun _ => .done) = some s' ∧
    ∃ verdict before, s'.limiter.history = .verdict authorizeOnly 1800000030 verdict :: before ∧
      ∃ between earlier row loadedAt state,
        before = between ++ .read authorizeOnly.accessKey row loadedAt :: earlier ∧
        invalidation.receivedAt ≤ earlier.length ∧
        UserAccessState.fromRow row loadedAt = .ok state ∧
        verdict = state.verdict authorizeOnly.requiredAccess := by
  obtain ⟨s, hreach, htasks, s', hs', hhead⟩ : ∃ s, Reaches (step sampleConfig)
      (fun _ _ => True) (boot grantedStore 64) s ∧
      s.tasks = [⟨.invalidation 7 42, .replying, 3⟩, ⟨.charge authorizeOnly, .spawned, 3⟩] ∧
      ∃ s' ∈ s.step sampleConfig (.run 1 1800000030 0 fun _ => .done),
        s'.limiter.history.head? =
          some (.verdict authorizeOnly 1800000030 (.error .unknownUser)) :=
    exists_of_runList (deletedUser ++ [.run 0 1800000030 0 fun _ => .done]) (by decide +kernel)
  obtain ⟨before, hhistory⟩ := List.head?_eq_some_iff.mp hhead
  refine ⟨s, s', ⟨.invalidation 7 42, .replying, 3⟩, hreach, by rw [htasks]; rfl, rfl, hs', _,
    before, hhistory, ?_⟩
  exact invalidation_in_order hreach (htasks ▸ List.mem_cons_self) rfl rfl rfl hs' _ before hhistory

/-- The task of the charge is the first to get the lock: the charge is allowed with the grants that
were read before the user was deleted, at the start of the history, although the frame of the
invalidation was read when the history had three events. -/
theorem charge_decided_before_invalidation : ∃ s s',
    Reaches (step sampleConfig) (fun _ _ => True) (boot grantedStore 64) s ∧
    s.tasks = [⟨.invalidation 7 42, .spawned, 3⟩, ⟨.charge authorizeOnly, .spawned, 3⟩] ∧
    s.step sampleConfig (.run 1 1800000030 0 fun _ => .done) = some s' ∧
    s'.limiter.history = [.verdict authorizeOnly 1800000030 (.ok ⟨1, 0, []⟩),
      .changed (7, 42) none, .verdict authorizeOnly 1800000000 (.ok ⟨1, 0, []⟩),
      .read (7, 42) (some ⟨[0, 5], [], 1⟩) 1800000000] := by
  obtain ⟨s, hreach, htasks, s', hs', hhistory⟩ : ∃ s, Reaches (step sampleConfig)
      (fun _ _ => True) (boot grantedStore 64) s ∧
      s.tasks = [⟨.invalidation 7 42, .spawned, 3⟩, ⟨.charge authorizeOnly, .spawned, 3⟩] ∧
      ∃ s' ∈ s.step sampleConfig (.run 1 1800000030 0 fun _ => .done),
        s'.limiter.history = [.verdict authorizeOnly 1800000030 (.ok ⟨1, 0, []⟩),
          .changed (7, 42) none, .verdict authorizeOnly 1800000000 (.ok ⟨1, 0, []⟩),
          .read (7, 42) (some ⟨[0, 5], [], 1⟩) 1800000000] :=
    exists_of_runList deletedUser (by decide +kernel)
  exact ⟨s, s', hreach, htasks, hs', hhistory⟩

end AccessSession

end Fareward.Service
