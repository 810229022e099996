import Fareward.Service.Equiv.Ownership

/-!
# What is left of a connection

When the loop has ended, the handlers are gone and `held` is cleared, a guard of the connection can
only be in the acquire channel, whose receiver is dropped when the function returns, after the
writer has been awaited.

* `teardown_frees_iff`: at that await no guard of the connection is alive exactly if the acquire
  channel holds no grant.
-/

namespace Fareward.Service.World

open Lock

variable {w : World} {c : Nat} {conn : Connection}

/-- A guard that was granted to connection `c` is alive. -/
def GuardAlive (w : World) (c : Nat) : Prop :=
  ∃ (i entry : Nat) (request : AcquireRequest) (generation : UInt16), w.callers[i]? = some c ∧
    w.registry.tasks[i]? = some ⟨request, .holding entry generation⟩

/-- With the handlers gone and `held` cleared, the guards of a connection are in the channel. -/
theorem ConnInv.owned_eq {tasks : List Acquire} {callers : List Nat}
    (hconn : ConnInv tasks callers c conn) (hcleared : conn.phase.hasCleared = true)
    (hgone : ∀ handler ∈ conn.handlers, handler.phase = .gone) (i : Nat) :
    conn.owned i = conn.acquires.countP fun outcome => outcome.owns i := by
  have hhandlers : conn.handlers.countP (fun handler => handler.phase.owns i) = 0 := by
    refine List.countP_eq_zero.mpr fun handler hmem => ?_
    rw [hgone handler hmem]
    exact Bool.false_ne_true
  rw [Connection.owned, hhandlers, hconn.cleared hcleared, List.countP_nil]
  omega

theorem teardown_frees_iff {config : Config} {shardCount : Nat} {limits : LockLimits}
    (hreach : Reachable config shardCount limits w) (hc : w.connections[c]? = some conn)
    (hp : conn.phase = .awaiting) (hgone : ∀ handler ∈ conn.handlers, handler.phase = .gone) :
    ¬w.GuardAlive c ↔ ∀ outcome ∈ conn.acquires, outcome.granted = none := by
  have hconn := hreach.inv.connections c conn hc
  have howned := ConnInv.owned_eq hconn (by rw [hp]; rfl) hgone
  constructor
  · intro hfree outcome hmem
    refine Option.eq_none_iff_forall_ne_some.mpr fun lock hgranted => ?_
    have hlocked := Connection.Locked.of_mem hmem hgranted
    obtain ⟨request, entry, ht, -⟩ := hconn.locks _ _ hlocked
    exact hfree ⟨lock.guard, entry, request, _, hconn.caller _ hlocked.owned_pos, ht⟩
  · rintro hnone ⟨i, entry, request, generation, hcaller, ht⟩
    have hpos := hconn.alive i _ hcaller ht rfl
    rw [howned] at hpos
    obtain ⟨outcome, hmem, howns⟩ := List.countP_pos_iff.mp hpos
    rw [AcquireOutcome.owns, hnone outcome hmem] at howns
    cases howns

/-- Four requests in flight, idle after five seconds, leases of a minute at most. -/
def sampleConfig : Config := ⟨4, 5000000000, 60000000000⟩

/-- The loop goes round to its `select!`. -/
def toSelect : List Action := [.loop 0 .dropExpired, .loop 0 .expired, .loop 0 .park]

/-- The loop reads a frame. -/
def reads (operation : Operation) : List Action :=
  [.loop 0 .readOpcode, .loop 0 (.receive operation)]

/-- A client connects and asks for the mutex on identifier 42 of action 7, for thirty seconds; the
handler is granted it, reports and answers, and the client has the answer. -/
def grantDelivered : List Action :=
  .connect :: toSelect ++ reads (.spawn (.lockAcquire LockRegistry.contendedRequest 30000)) ++
    toSelect ++ .handler 0 0 .call :: List.replicate 6 (.task 0) ++
    [.handler 0 0 .resume, .handler 0 0 .report, .handler 0 0 .reply, .write 0]

/-- The handler of that frame when it is through. -/
def grantedHandler : Handler := ⟨0, .lockAcquire LockRegistry.contendedRequest 30000, .gone⟩

/-- The hold it was granted. -/
def grantedLock : HeldLock := ⟨0, 1, 30000000000⟩

/-- The loop has taken the grant over when the socket dies. -/
def tornDownHolding : List Action :=
  grantDelivered ++ .loop 0 .recv :: toSelect ++
    [.loop 0 .fail, .loop 0 .abort, .loop 0 (.clear (7, 42)), .loop 0 .cleared]

theorem teardown_frees_iff_held :
    ∃ w, Reachable sampleConfig 4 ⟨8, 8⟩ w ∧
      w.connections = [⟨1, [grantedHandler], [], ∅, [], [(0, .lockGranted 1)], true, .awaiting⟩] ∧
      w.callers = [0] ∧ ¬w.GuardAlive 0 := by
  refine exists_and_and_of_runList tornDownHolding (by decide +kernel)
    fun w hreach hconnections _ => ?_
  refine (teardown_frees_iff (c := 0) hreach (by rw [hconnections]; rfl) rfl ?_).mpr ?_
  · intro handler hmem
    rw [List.mem_singleton.mp hmem]
    rfl
  · intro outcome hmem
    cases hmem

/-- The grant is in the channel when the socket dies. -/
def tornDownReported : List Action :=
  grantDelivered ++ [.loop 0 .fail, .loop 0 .abort, .loop 0 .cleared]

/-- The loop has ended, its handler is gone and `held` is cleared, and the guard is alive. -/
theorem teardown_leaves_guard :
    ∃ w, Reachable sampleConfig 4 ⟨8, 8⟩ w ∧
      w.connections = [⟨1, [grantedHandler], [⟨(7, 42), some grantedLock⟩], ∅, [],
        [(0, .lockGranted 1)], true, .awaiting⟩] ∧ w.GuardAlive 0 := by
  obtain ⟨w, hreach, hconnections, hcallers, htasks⟩ : ∃ w, Reachable sampleConfig 4 ⟨8, 8⟩ w ∧
      w.connections = [⟨1, [grantedHandler], [⟨(7, 42), some grantedLock⟩], ∅, [],
        [(0, .lockGranted 1)], true, .awaiting⟩] ∧ w.callers = [0] ∧
      w.registry.tasks = [⟨LockRegistry.contendedRequest, .holding 0 1⟩] :=
    exists_of_runList tornDownReported (by decide +kernel)
  exact ⟨w, hreach, hconnections, 0, 0, _, 1, by rw [hcallers]; rfl, by rw [htasks]; rfl⟩

end Fareward.Service.World
