import Fareward.Service.Equiv.Teardown

/-!
# Releases

A release frame names a key and a generation, and ends the hold that the connection has under the
key if the generation is the hold's own.

* `release_ends_own_hold`: it ends a hold only of its own connection, key and generation, and a
  later hold than the one it was sent for only after 65535 further grants; the key of a grant that
  reaches the loop is free;
* `one_grant_for_key`: the grants of a key are with one connection.
-/

namespace Fareward.Service.World

open Lock

variable {config : Config} {shardCount c c' h : Nat} {limits : LockLimits} {w w₁ w' : World}
  {conn conn' : Connection} {key : LockKey} {lock lock' : HeldLock} {action : Action}

/-! ### Draws -/

/-- A task of a connection does to the registry what is one of its steps, and never draws. -/
theorem Transition.registry (htransition : Transition w c conn action w₁ conn') :
    w₁.draws = w.draws ∧ (w₁.registry = w.registry ∨
      ∃ a, (∀ i, a ≠ .run i) ∧ w.registry.step a = some w₁.registry) := by
  have hdrop (guard : Nat) : (w.dropGuard guard).registry = w.registry ∨
      ∃ a, (∀ i, a ≠ .run i) ∧ w.registry.step a = some (w.dropGuard guard).registry := by
    unfold dropGuard
    cases hs : w.registry.step (.release guard) with
    | none => exact .inl rfl
    | some => exact .inr ⟨.release guard, nofun, hs⟩
  have houtcome (outcome : AcquireOutcome) : (w.dropOutcome outcome).draws = w.draws ∧
      ((w.dropOutcome outcome).registry = w.registry ∨ ∃ a, (∀ i, a ≠ .run i) ∧
        w.registry.step a = some (w.dropOutcome outcome).registry) := by
    obtain ⟨key, granted⟩ := outcome
    cases granted with
    | none => exact ⟨rfl, .inl rfl⟩
    | some lock => exact ⟨rfl, hdrop lock.guard⟩
  cases htransition with
  | expire | replace | release | clear => exact ⟨rfl, hdrop _⟩
  | discard | reportFails | killReporting => exact houtcome _
  | @call h sequence request => exact ⟨rfl, .inr ⟨.acquire request, nofun, rfl⟩⟩
  | @killParked h sequence job task registry hh haborted hcancel =>
    exact ⟨rfl, .inr ⟨.cancel task, nofun, hcancel⟩⟩
  | _ => exact ⟨rfl, .inl rfl⟩

theorem drawn_step (hdrawn : w.registry.Drawn w.draws) (hs : w.step action = some w') :
    w'.registry.Drawn w'.draws := by
  rcases step_spec hs with ⟨-, rfl⟩ | ⟨by_, -, rfl⟩ | ⟨i, registry, -, hr, rfl⟩ |
    ⟨i, registry, -, hr, rfl⟩ | ⟨c, conn, w₁, conn', hc, htransition, rfl⟩
  · exact hdrawn
  · exact hdrawn
  · exact LockRegistry.drawn_step hdrawn hr
  · exact hdrawn.quiet hr nofun
  · obtain ⟨hdraws, hregistry⟩ := htransition.registry
    show w₁.registry.Drawn w₁.draws
    rw [hdraws]
    rcases hregistry with hsame | ⟨a, hrun, hstep⟩
    · rwa [hsame]
    · exact hdrawn.quiet hstep hrun

theorem Reachable.drawn (hreach : Reachable config shardCount limits w) :
    w.registry.Drawn w.draws :=
  hreach.invariant (I := fun w => w.registry.Drawn w.draws) (.new shardCount limits)
    fun _ _ _ _ hdrawn _ hs => drawn_step hdrawn hs

/-- What a task of a connection adds to the log. -/
theorem Transition.log (htransition : Transition w c conn action w₁ conn') :
    w₁.log = w.log ∨ (∃ key lock, w₁.log = w.log ++ [.released c key lock]) ∨
      ∃ (h sequence entry : Nat) (job : Job) (key : LockKey) (lock : HeldLock) (reply : Reply)
        (call : AcquireRequest), w₁.log = w.log ++ [.granted c sequence key lock] ∧
        w.registry.tasks[lock.guard]? = some ⟨call, .holding entry lock.generation⟩ ∧
        conn'.handlers[h]? = some ⟨sequence, job, .reporting ⟨key, some lock⟩ reply⟩ := by
  cases htransition with
  | release => exact .inr (.inl ⟨_, _, rfl⟩)
  | @granted h sequence request leaseMs task entry call generation lock hh htask hlock =>
    subst hlock
    refine .inr (.inr ⟨h, sequence, entry, .lockAcquire request leaseMs, _, _,
      .lockGranted generation, call, rfl, htask, ?_⟩)
    rw [Connection.setHandler, List.getElem?_modify_eq, hh]
    rfl
  | discard | reportFails | killReporting =>
    refine .inl ?_
    unfold dropOutcome
    split <;> rfl
  | _ => exact .inl rfl

/-- The generation of a grant is the number of its draw. -/
def Numbered (w : World) : Prop :=
  ∀ c sequence key lock, .granted c sequence key lock ∈ w.log →
    ∃ k : Nat, w.draws[k]? = some (some lock.guard) ∧ lock.generation = UInt16.ofNat (k + 1)

theorem numbered_step (hdrawn : w.registry.Drawn w.draws) (hnumbered : Numbered w)
    (hs : w.step action = some w') : Numbered w' := by
  intro c sequence key lock hmem
  rcases step_spec hs with ⟨-, rfl⟩ | ⟨by_, -, rfl⟩ | ⟨i, registry, -, hr, rfl⟩ |
    ⟨i, registry, -, hr, rfl⟩ | ⟨c', conn, w₁, conn', hc, htransition, rfl⟩
  · exact hnumbered c sequence key lock hmem
  · exact hnumbered c sequence key lock hmem
  · obtain ⟨k, hk, hgeneration⟩ := hnumbered c sequence key lock hmem
    exact ⟨k, (List.getElem?_append_left (List.getElem?_eq_some_iff.mp hk).1).trans hk, hgeneration⟩
  · exact hnumbered c sequence key lock hmem
  · obtain ⟨hdraws, -⟩ := htransition.registry
    show ∃ k : Nat, w₁.draws[k]? = _ ∧ _
    rw [hdraws]
    have hmem : Event.granted c sequence key lock ∈ w₁.log := hmem
    rcases htransition.log with hlog | ⟨key', lock', hlog⟩ |
      ⟨h, sequence', entry, job, key', lock', reply, call, hlog, htask, -⟩
    · exact hnumbered c sequence key lock (hlog ▸ hmem)
    · rcases List.mem_append.mp (hlog ▸ hmem) with hold | hnew
      · exact hnumbered c sequence key lock hold
      · cases List.mem_singleton.mp hnew
    · rcases List.mem_append.mp (hlog ▸ hmem) with hold | hnew
      · exact hnumbered c sequence key lock hold
      · cases List.mem_singleton.mp hnew
        obtain ⟨k, hk⟩ := hdrawn.exists_draw _ _ _ _ htask
        exact ⟨k, hk, hdrawn.holding k _ _ _ _ hk htask⟩

theorem Reachable.numbered (hreach : Reachable config shardCount limits w) : Numbered w :=
  hreach.invariant (I := Numbered) (fun _ _ _ _ hmem => by cases hmem)
    fun _ _ _ hreach hnumbered _ hs => numbered_step (Reachable.drawn hreach) hnumbered hs

/-- The number of the draw that the guard has its generation from. -/
def drawOf (w : World) (guard : Nat) : Nat := w.draws.idxOf (some guard)

/-- The grants of the whole process after that of the guard. -/
def grantsSince (w : World) (guard : Nat) : Nat :=
  (w.draws.drop (w.drawOf guard + 1)).countP Option.isSome

theorem drawOf_eq (hdrawn : w.registry.Drawn w.draws) {k guard : Nat}
    (hk : w.draws[k]? = some (some guard)) : w.drawOf guard = k := by
  have hmem : some guard ∈ w.draws := List.mem_of_getElem? hk
  refine hdrawn.once _ _ guard ?_ hk
  rw [drawOf, List.getElem?_eq_getElem (List.idxOf_lt_length_of_mem hmem), List.getElem_idxOf]

/-! ### What a release ends -/

/-- A release frame drops the guard that is held under its key, if the generation is the guard's. -/
theorem release_spec {request : ReleaseRequest} (hinv : Inv w)
    (hs : w.step (.loop c (.receive (.lockRelease request))) = some w') {i : Nat} {task : Acquire}
    (ht : w.registry.tasks[i]? = some task) (hends : w'.registry.tasks[i]? ≠ some task) :
    w.callers[i]? = some c ∧ task.request.key = request.key ∧
      ∃ entry, task.phase = .holding entry request.generation := by
  rcases step_spec hs with ⟨haction, -⟩ | ⟨by_, haction, -⟩ | ⟨i, registry, haction, -⟩ |
    ⟨i, registry, haction, -⟩ | ⟨c', conn, w₁, conn', hc, htransition, rfl⟩
  · cases haction
  · cases haction
  · cases haction
  · cases haction
  · cases htransition with
    | overflow | misuse => exact absurd ht hends
    | @release request lock hp hsequence hlock hgeneration =>
      have hconn := hinv.connections c conn hc
      have hlocked : conn.Locked request.key lock := .inr (.inr hlock)
      obtain ⟨call, entry, hguard, hkey⟩ := hconn.locks _ _ hlocked
      have hi : i = lock.guard := by
        by_contra hne
        refine hends ?_
        show (w.dropGuard lock.guard).registry.tasks[i]? = some task
        rw [dropGuard_tasks hguard, if_neg (Ne.symm hne), ht]
      subst hi
      obtain rfl := Option.some.inj (ht.symm.trans hguard)
      exact ⟨hconn.caller _ hlocked.owned_pos, hkey, entry, congrArg _ hgeneration⟩

/-- **A stale release never ends a later hold.** A release frame ends a hold only if it arrives on
the connection that made the call and names the key and the generation of the hold; if it names
those of an earlier grant, then 65535 grants lie after that one. And the key of a grant that the
loop takes from the acquire channel is not held. -/
theorem release_ends_own_hold {config : Config} {shardCount : Nat} {limits : LockLimits}
    (hreach : Reachable config shardCount limits w) :
    (∀ (c : Nat) (request : ReleaseRequest) (w' : World),
      w.step (.loop c (.receive (.lockRelease request))) = some w' →
      ∀ (i : Nat) (task : Acquire), w.registry.tasks[i]? = some task →
        w'.registry.tasks[i]? ≠ some task →
        (w.callers[i]? = some c ∧ task.request.key = request.key ∧
          ∃ entry, task.phase = .holding entry request.generation) ∧
        ∀ c₁ sequence lock, .granted c₁ sequence request.key lock ∈ w.log →
          lock.generation = request.generation → w.drawOf lock.guard < w.drawOf i →
          65535 ≤ w.grantsSince lock.guard) ∧
    (∀ (c : Nat) (conn : Connection) (key : LockKey) (lock : HeldLock)
      (acquires : List AcquireOutcome), w.connections[c]? = some conn →
      conn.acquires = ⟨key, some lock⟩ :: acquires → conn.held.lookup key = none) := by
  have hdrawn := hreach.drawn
  refine ⟨fun c request w' hs i task ht hends => ?_,
    fun c conn key lock acquires hc hacquires => ?_⟩
  · obtain ⟨hcaller, hkey, entry, hphase⟩ := release_spec hreach.inv hs ht hends
    refine ⟨⟨hcaller, hkey, entry, hphase⟩, fun c₁ sequence lock hgranted hgeneration hlater => ?_⟩
    obtain ⟨request', phase⟩ := task
    obtain rfl : phase = .holding entry request.generation := hphase
    obtain ⟨k₁, hk₁, hk₁gen⟩ := hreach.numbered c₁ sequence _ lock hgranted
    obtain ⟨k₂, hk₂⟩ := hdrawn.exists_draw _ _ _ _ ht
    have hk₂gen := hdrawn.holding _ _ _ _ _ hk₂ ht
    rw [drawOf_eq hdrawn hk₁, drawOf_eq hdrawn hk₂] at hlater
    rw [grantsSince, drawOf_eq hdrawn hk₁]
    refine hdrawn.grants_of_same_generation hlater (List.getElem?_eq_some_iff.mp hk₂).1 ?_
    rw [← hk₁gen, hgeneration, hk₂gen]
  · exact hreach.inv.lookup_eq_none_of_mem hc (hacquires ▸ List.mem_cons_self)

/-- The loop has taken the grant over and reads the next frame. -/
def grantHeld : List Action := grantDelivered ++ .loop 0 .recv :: toSelect ++ [.loop 0 .readOpcode]

/-- The release of the hold. -/
def releaseGranted : ReleaseRequest := ⟨7, 42, 1⟩

theorem release_ends_own_hold_granted :
    ∃ w w', Reachable sampleConfig 4 ⟨8, 8⟩ w ∧
      w.step (.loop 0 (.receive (.lockRelease releaseGranted))) = some w' ∧
      w.registry.tasks = [⟨LockRegistry.contendedRequest, .holding 0 1⟩] ∧
      w'.registry.tasks = [⟨LockRegistry.contendedRequest, .prune 0 .released⟩] ∧
      w.callers[0]? = some 0 := by
  obtain ⟨w, hreach, htasks, w', hs, htasks'⟩ : ∃ w, Reachable sampleConfig 4 ⟨8, 8⟩ w ∧
      w.registry.tasks = [⟨LockRegistry.contendedRequest, .holding 0 1⟩] ∧
      ∃ w' ∈ w.step (.loop 0 (.receive (.lockRelease releaseGranted))),
        w'.registry.tasks = [⟨LockRegistry.contendedRequest, .prune 0 .released⟩] :=
    exists_of_runList grantHeld (by decide +kernel)
  refine ⟨w, w', hreach, hs, htasks, htasks', ?_⟩
  refine ((release_ends_own_hold hreach).1 0 releaseGranted w' hs 0
    ⟨LockRegistry.contendedRequest, .holding 0 1⟩ ?_ ?_).1.1
  · rw [htasks]
    rfl
  · rw [htasks']
    decide

/-- **One grant for a key.** In every state of the daemon, two connections that have a grant for
one key, be it with a handler, in the acquire channel or in `held`, are one connection with one
guard. -/
theorem one_grant_for_key (hreach : Reachable config shardCount limits w)
    (hc : w.connections[c]? = some conn) (hc' : w.connections[c']? = some conn')
    (hlocked : conn.Locked key lock) (hlocked' : conn'.Locked key lock') :
    c = c' ∧ lock.guard = lock'.guard := by
  have hconn := hreach.inv.connections c conn hc
  have hconn' := hreach.inv.connections c' conn' hc'
  obtain ⟨request, entry, ht, hkey⟩ := hconn.locks key lock hlocked
  obtain ⟨request', entry', ht', hkey'⟩ := hconn'.locks key lock' hlocked'
  have hguard := hreach.inv.registry.eq_of_permits ht ht' rfl rfl (hkey.trans hkey'.symm)
  have hcaller := hconn.caller _ hlocked.owned_pos
  rw [hguard, hconn'.caller _ hlocked'.owned_pos] at hcaller
  exact ⟨(Option.some.inj hcaller).symm, hguard⟩

theorem one_grant_for_key_held :
    ∃ w, Reachable sampleConfig 4 ⟨8, 8⟩ w ∧
      (∃ conn ∈ w.connections[0]?, conn.held.lookup (7, 42) = some grantedLock) ∧
      ∀ c conn lock, w.connections[c]? = some conn → conn.Locked (7, 42) lock → c = 0 := by
  refine exists_and_of_runList grantHeld (by decide +kernel)
    fun w hreach hheld c conn lock hc h => ?_
  obtain ⟨conn₀, hc₀, hlock⟩ := hheld
  exact (one_grant_for_key hreach hc hc₀ h (.inr (.inr hlock))).1

end Fareward.Service.World
