import Fareward.Lock.Equiv.Registry
import Fareward.Service.Equiv.Transition

/-!
# Who owns a lock guard

A guard is made in the registry for a handler, travels in the outcome that the handler reports,
waits in the acquire channel and ends in `held`; it is dropped from any of the last three. `owned`
counts the places of a connection that a guard is in, a call of `acquire` that has not returned
included.

* `ConnInv`: a guard is in one place at most, of the connection that made the call, and in one place
  exactly until it is dropped; what travels as a grant of a key is a live guard of that key;
* `inv_step`: every step of the daemon keeps this and the invariant of the registry;
* `lookup_eq_none_of_mem`: the key of a grant in the channel is free in `held`.
-/

namespace Fareward.Service

open Lock

variable {phase : HandlerPhase} {job : Job} {outcome : AcquireOutcome} {sequence entry : Nat}
  {reply : Reply} {config : Config} {request : AcquireRequest} {generation : UInt16}

/-! ### Owners -/

def AcquireOutcome.owns (outcome : AcquireOutcome) (i : Nat) : Bool :=
  outcome.granted.any fun lock => lock.guard = i

def HandlerPhase.owns (i : Nat) : HandlerPhase → Bool
  | .acquiring task => task = i
  | .reporting outcome _ => outcome.owns i
  | _ => false

/-- The handler has nothing to do with a guard. -/
def HandlerPhase.isIdle : HandlerPhase → Bool
  | .running | .replying _ | .gone => true
  | _ => false

theorem HandlerPhase.owns_of_isIdle {i : Nat} (h : phase.isIdle = true) : phase.owns i = false := by
  cases phase <;> first | rfl | cases h

namespace Connection

/-- The number of places of the connection that the guard of task `i` is in. -/
def owned (conn : Connection) (i : Nat) : Nat :=
  conn.handlers.countP (fun handler => handler.phase.owns i) +
    conn.acquires.countP (fun outcome => outcome.owns i) +
    conn.held.entries.countP fun e => e.2.guard = i

/-- A handler of the connection is in `acquire`. -/
def Acquiring (conn : Connection) (job : Job) (i : Nat) : Prop :=
  ∃ handler ∈ conn.handlers, handler.job = job ∧ handler.phase = .acquiring i

/-- The lock is granted for the key and has not been dropped. -/
def Locked (conn : Connection) (key : LockKey) (lock : HeldLock) : Prop :=
  (∃ handler ∈ conn.handlers, ∃ reply, handler.phase = .reporting ⟨key, some lock⟩ reply) ∨
    ⟨key, some lock⟩ ∈ conn.acquires ∨ conn.held.lookup key = some lock

variable {conn conn' : Connection} {h i : Nat} {handler : Handler} {key : LockKey} {lock : HeldLock}

theorem owned_setHandler (hh : conn.handlers[h]? = some handler) (phase : HandlerPhase) (i : Nat) :
    (conn.setHandler h phase).owned i + (handler.phase.owns i).toNat =
      conn.owned i + (phase.owns i).toNat := by
  have hcount := countP_set_add (p := fun handler : Handler => handler.phase.owns i) hh
    { handler with phase }
  rw [← modify_eq_set hh fun handler => { handler with phase }] at hcount
  unfold owned setHandler
  dsimp only at hcount ⊢
  omega

theorem mem_setHandler (hh : conn.handlers[h]? = some handler) {handler' : Handler}
    (hmem : handler' ∈ (conn.setHandler h phase).handlers) :
    handler' = { handler with phase } ∨ handler' ∈ conn.handlers := by
  rw [setHandler, modify_eq_set hh] at hmem
  exact (List.mem_or_eq_of_mem_set hmem).symm

theorem held_pos (hlock : conn.held.lookup key = some lock) :
    0 < conn.held.entries.countP fun e => e.2.guard = lock.guard := by
  have hmem := List.of_mem_dlookup (Option.mem_def.mpr hlock)
  exact List.countP_pos_iff.mpr ⟨_, hmem, decide_eq_true rfl⟩

theorem Locked.owned_pos (hlocked : conn.Locked key lock) : 0 < conn.owned lock.guard := by
  unfold owned
  rcases hlocked with ⟨handler, hmem, reply, hphase⟩ | hmem | hlock
  · have : 0 < conn.handlers.countP fun handler => handler.phase.owns lock.guard :=
      List.countP_pos_iff.mpr ⟨handler, hmem, by rw [hphase]; exact decide_eq_true rfl⟩
    omega
  · have : 0 < conn.acquires.countP fun outcome => outcome.owns lock.guard :=
      List.countP_pos_iff.mpr ⟨_, hmem, decide_eq_true rfl⟩
    omega
  · have := held_pos hlock
    omega

theorem Acquiring.owned_pos (hacquiring : conn.Acquiring job i) : 0 < conn.owned i := by
  obtain ⟨handler, hmem, -, hphase⟩ := hacquiring
  have : 0 < conn.handlers.countP fun handler => handler.phase.owns i :=
    List.countP_pos_iff.mpr ⟨handler, hmem, by rw [hphase]; exact decide_eq_true rfl⟩
  unfold owned
  omega

theorem Acquiring.of_setHandler (hh : conn.handlers[h]? = some handler)
    (hnew : ∀ i, phase ≠ .acquiring i) (hacquiring : (conn.setHandler h phase).Acquiring job i) :
    conn.Acquiring job i := by
  obtain ⟨handler', hmem, hjob, hphase⟩ := hacquiring
  rcases mem_setHandler hh hmem with rfl | hold
  · exact absurd hphase (hnew i)
  · exact ⟨handler', hold, hjob, hphase⟩

theorem Locked.of_mem (hmem : outcome ∈ conn.acquires) (hgranted : outcome.granted = some lock) :
    conn.Locked outcome.key lock := by
  obtain ⟨key, granted⟩ := outcome
  obtain rfl : granted = some lock := hgranted
  exact .inr (.inl hmem)

theorem Locked.of_reporting
    (hh : conn.handlers[h]? = some ⟨sequence, job, .reporting outcome reply⟩)
    (hgranted : outcome.granted = some lock) : conn.Locked outcome.key lock := by
  obtain ⟨key, granted⟩ := outcome
  obtain rfl : granted = some lock := hgranted
  exact .inl ⟨_, List.mem_of_getElem? hh, reply, rfl⟩

theorem Locked.of_setHandler (hh : conn.handlers[h]? = some handler) (phase : HandlerPhase)
    (hnew : ∀ outcome reply, phase ≠ .reporting outcome reply)
    (hlocked : (conn.setHandler h phase).Locked key lock) : conn.Locked key lock := by
  rcases hlocked with ⟨handler', hmem, reply, hphase⟩ | hrest
  · rcases mem_setHandler hh hmem with rfl | hold
    · exact absurd hphase (hnew _ _)
    · exact .inl ⟨handler', hold, reply, hphase⟩
  · exact .inr hrest

theorem owned_append (outcome : AcquireOutcome) (i : Nat) :
    Connection.owned { conn with acquires := conn.acquires ++ [outcome] } i =
      conn.owned i + (outcome.owns i).toNat := by
  unfold owned
  rw [List.countP_append, List.countP_singleton]
  cases outcome.owns i
  all_goals
    dsimp only [Bool.toNat, cond]
    simp
    try omega

/-- Taking the oldest outcome from the channel. -/
theorem owned_tail {acquires : List AcquireOutcome}
    (hacquires : conn.acquires = outcome :: acquires) (phase : LoopPhase) (i : Nat) :
    Connection.owned { conn with acquires, phase } i + (outcome.owns i).toNat = conn.owned i := by
  unfold owned
  rw [hacquires, List.countP_cons]
  cases outcome.owns i
  all_goals
    dsimp only [Bool.toNat, cond]
    simp
    try omega

theorem owned_erase {phase : LoopPhase} (hlock : conn.held.lookup key = some lock) (i : Nat) :
    Connection.owned { conn with sequence, held := conn.held.erase key, phase } i +
      (decide (lock.guard = i)).toNat = conn.owned i := by
  have hcount : (conn.held.erase key).entries.countP (fun e => e.2.guard = i) + _ = _ :=
    countP_kerase (q := fun lock : HeldLock => lock.guard = i) hlock
  unfold owned
  dsimp only
  omega

theorem Locked.of_erase {phase : LoopPhase} {key' : LockKey}
    (hlocked : Connection.Locked { conn with sequence, held := conn.held.erase key', phase }
      key lock) : conn.Locked key lock := by
  rcases hlocked with hreporting | hmem | hlock
  · exact .inl hreporting
  · exact .inr (.inl hmem)
  · refine .inr (.inr ?_)
    by_cases hkey : key = key'
    · subst hkey
      cases (AList.lookup_erase key conn.held).symm.trans hlock
    · exact (AList.lookup_erase_ne hkey).symm.trans hlock

theorem send_spec (hsend : conn.send config sequence reply = some conn') :
    conn' = { conn with replies := conn.replies ++ [(sequence, reply)] } ∨ conn' = conn := by
  unfold send at hsend
  split_ifs at hsend
  · exact .inl (Option.some.inj hsend).symm
  · exact .inr (Option.some.inj hsend).symm

end Connection

/-- `held` has been cleared. -/
def LoopPhase.hasCleared : LoopPhase → Bool
  | .awaiting | .returning | .closed => true
  | _ => false

/-! ### The invariant of a connection -/

structure ConnInv (tasks : List Acquire) (callers : List Nat) (c : Nat) (conn : Connection) :
    Prop where
  once : ∀ i, conn.owned i ≤ 1
  caller : ∀ i, 0 < conn.owned i → callers[i]? = some c
  alive : ∀ (i : Nat) (task : Acquire), callers[i]? = some c → tasks[i]? = some task →
    task.phase.isOver = false → 0 < conn.owned i
  acquiring : ∀ job i, conn.Acquiring job i → ∃ request leaseMs phase,
    job = .lockAcquire request leaseMs ∧ tasks[i]? = some ⟨request, phase⟩
  locks : ∀ key lock, conn.Locked key lock → ∃ request entry,
    tasks[lock.guard]? = some ⟨request, .holding entry lock.generation⟩ ∧ request.key = key
  cleared : conn.phase.hasCleared = true → conn.held.entries = []
  closed : conn.phase = .closed → conn.acquires = []

namespace ConnInv

variable {tasks tasks' : List Acquire} {callers callers' : List Nat} {c : Nat}
  {conn conn' : Connection}

/-- Nothing happens to the calls of the connection. -/
theorem congr (h : ConnInv tasks callers c conn)
    (hcallers : ∀ i : Nat, callers'[i]? = some c ↔ callers[i]? = some c)
    (htasks : ∀ i : Nat, callers[i]? = some c → tasks'[i]? = tasks[i]?) :
    ConnInv tasks' callers' c conn where
  once := h.once
  caller i hi := (hcallers i).mpr (h.caller i hi)
  alive i task hc ht := by
    have hc := (hcallers i).mp hc
    exact h.alive i task hc (htasks i hc ▸ ht)
  acquiring job i hi := htasks i (h.caller i hi.owned_pos) ▸ h.acquiring job i hi
  locks key lock hl := htasks lock.guard (h.caller _ hl.owned_pos) ▸ h.locks key lock hl
  cleared := h.cleared
  closed := h.closed

/-- A call in the registry goes on by itself. -/
theorem task {i : Nat} {task : Acquire} {phase : Phase} (h : ConnInv tasks callers c conn)
    (ht : tasks[i]? = some task) (hover : task.phase.isOver = true → phase.isOver = true)
    (hholding : ∀ entry generation, task.phase ≠ .holding entry generation) :
    ConnInv (tasks.set i { task with phase }) callers c conn where
  once := h.once
  caller := h.caller
  alive j other hc hj hlive := by
    rw [getElem?_set_of_some ht] at hj
    split_ifs at hj with hij
    · cases hj
      refine h.alive j task hc (hij ▸ ht) ?_
      by_contra hnot
      rw [hover (by simpa using hnot)] at hlive
      cases hlive
    · exact h.alive j other hc hj hlive
  acquiring job j hj := by
    obtain ⟨request, leaseMs, phase', hjob, hj⟩ := h.acquiring job j hj
    rw [getElem?_set_of_some ht]
    split_ifs with hij
    · obtain rfl : task = ⟨request, phase'⟩ := by
        rw [← hij, ht] at hj
        exact Option.some.inj hj
      exact ⟨request, leaseMs, phase, hjob, rfl⟩
    · exact ⟨request, leaseMs, phase', hjob, hj⟩
  locks key lock hl := by
    obtain ⟨request, entry, hj, hkey⟩ := h.locks key lock hl
    have hij : i ≠ lock.guard := by
      intro hij
      rw [← hij, ht] at hj
      exact hholding entry lock.generation (congrArg Acquire.phase (Option.some.inj hj))
    rw [getElem?_set_of_some ht, if_neg hij]
    exact ⟨request, entry, hj, hkey⟩
  cleared := h.cleared
  closed := h.closed

/-- Guards move inside the connection. -/
theorem shift (h : ConnInv tasks callers c conn) (howned : ∀ i, conn'.owned i = conn.owned i)
    (hacquiring : ∀ job i, conn'.Acquiring job i → conn.Acquiring job i)
    (hlocks : ∀ key lock, conn'.Locked key lock → conn.Locked key lock ∨ ∃ request entry,
      tasks[lock.guard]? = some ⟨request, .holding entry lock.generation⟩ ∧ request.key = key)
    (hcleared : conn'.phase.hasCleared = true → conn'.held.entries = [])
    (hclosed : conn'.phase = .closed → conn'.acquires = []) : ConnInv tasks callers c conn' where
  once i := howned i ▸ h.once i
  caller i hi := h.caller i (howned i ▸ hi)
  alive i task hc ht hlive := howned i ▸ h.alive i task hc ht hlive
  acquiring job i hi := h.acquiring job i (hacquiring job i hi)
  locks key lock hl := (hlocks key lock hl).elim (h.locks key lock) id
  cleared := hcleared
  closed := hclosed

/-- A step that touches no place a guard can be in. -/
theorem relabel (h : ConnInv tasks callers c conn) (hhandlers : conn'.handlers = conn.handlers)
    (hacquires : conn'.acquires = conn.acquires) (hheld : conn'.held = conn.held)
    (hcleared : conn'.phase.hasCleared = true → conn.held.entries = [])
    (hclosed : conn'.phase = .closed → conn.acquires = []) : ConnInv tasks callers c conn' := by
  refine h.shift (fun i => ?_) (fun job i => ?_) (fun key lock hl => .inl ?_) (hheld ▸ hcleared)
    (hacquires ▸ hclosed)
  · rw [Connection.owned, Connection.owned, hhandlers, hacquires, hheld]
  · rw [Connection.Acquiring, Connection.Acquiring, hhandlers]
    exact id
  · rwa [Connection.Locked, hhandlers, hacquires, hheld] at hl

/-- The connection gives up the guards of `gone` and takes none. -/
structure Yields (conn conn' : Connection) (gone : Nat → Bool) : Prop where
  owned : ∀ i, conn'.owned i + (gone i).toNat = conn.owned i
  acquiring : ∀ job i, conn'.Acquiring job i → conn.Acquiring job i
  locks : ∀ key lock, conn'.Locked key lock → conn.Locked key lock
  cleared : conn'.phase.hasCleared = true → conn'.held.entries = []
  closed : conn'.phase = .closed → conn'.acquires = []

/-- The connection gives up task `g`, which is over then: its guard is dropped, its call cancelled
or its refusal taken note of. -/
theorem yield {g : Nat} (h : ConnInv tasks callers c conn) (task : Acquire)
    (hg : tasks'[g]? = some task) (hover : task.phase.isOver = true)
    (htasks : ∀ i : Nat, i ≠ g → tasks'[i]? = tasks[i]?)
    (hyields : Yields conn conn' fun i => decide (g = i)) : ConnInv tasks' callers c conn' := by
  have howned := hyields.owned
  have hgone : conn'.owned g = 0 := by
    have := howned g
    have := h.once g
    simp at *
    omega
  have hne {i : Nat} (hi : 0 < conn'.owned i) : i ≠ g := by
    rintro rfl
    omega
  refine ⟨fun i => ?_, fun i hi => ?_, fun i other hc hi hlive => ?_, fun job i hi => ?_,
    fun key lock hl => ?_, hyields.cleared, hyields.closed⟩
  · have := howned i
    have := h.once i
    omega
  · have := howned i
    exact h.caller i (by omega)
  · have hig : i ≠ g := by
      rintro rfl
      obtain rfl := Option.some.inj (hg.symm.trans hi)
      rw [hover] at hlive
      cases hlive
    have := h.alive i other hc (htasks i hig ▸ hi) hlive
    have := howned i
    simp [Ne.symm hig] at this
    omega
  · rw [htasks i (hne hi.owned_pos)]
    exact h.acquiring job i (hyields.acquiring job i hi)
  · rw [htasks _ (hne hl.owned_pos)]
    exact h.locks key lock (hyields.locks key lock hl)

/-- A handler that has nothing to do with a guard moves. -/
theorem idle {h : Nat} {handler : Handler} (hinv : ConnInv tasks callers c conn)
    (hh : conn.handlers[h]? = some handler) (hold : handler.phase.isIdle = true)
    (hnew : phase.isIdle = true) : ConnInv tasks callers c (conn.setHandler h phase) := by
  refine hinv.shift (fun i => ?_) (fun job i => .of_setHandler hh ?_)
    (fun key lock hl => .inl (hl.of_setHandler hh _ ?_)) hinv.cleared hinv.closed
  · have := Connection.owned_setHandler hh phase i
    rw [HandlerPhase.owns_of_isIdle hold, HandlerPhase.owns_of_isIdle hnew] at this
    exact this
  · rintro i rfl
    cases hnew
  · rintro outcome reply rfl
    cases hnew

end ConnInv

namespace World

variable {w w₁ w' : World} {c h g : Nat} {conn conn' : Connection} {key : LockKey} {lock : HeldLock}
  {action : Action}

structure Inv (w : World) : Prop where
  registry : w.registry.Inv
  callers : w.callers.length = w.registry.tasks.length
  caller_lt : ∀ i c : Nat, w.callers[i]? = some c → c < w.connections.length
  connections : ∀ (c : Nat) (conn : Connection), w.connections[c]? = some conn →
    ConnInv w.registry.tasks w.callers c conn

/-- A task of connection `c` moves and leaves the calls of the other connections alone. -/
theorem Inv.own (hinv : Inv w) (hc : w.connections[c]? = some conn)
    (hconnections : w₁.connections = w.connections) (hregistry : w₁.registry.Inv)
    (hcallers : w₁.callers.length = w₁.registry.tasks.length)
    (hself : ConnInv w₁.registry.tasks w₁.callers c conn')
    (hother : ∀ c' i : Nat, c' ≠ c → (w₁.callers[i]? = some c' ↔ w.callers[i]? = some c') ∧
      (w.callers[i]? = some c' → w₁.registry.tasks[i]? = w.registry.tasks[i]?)) :
    Inv (w₁.update c conn') := by
  refine ⟨hregistry, hcallers, fun i c' hi => ?_, fun c' other hc' => ?_⟩
  · rw [update, hconnections, List.length_set]
    by_cases heq : c' = c
    · exact heq ▸ (List.getElem?_eq_some_iff.mp hc).1
    · exact hinv.caller_lt i c' ((hother c' i heq).1.mp hi)
  · rw [update, hconnections, getElem?_set_of_some hc] at hc'
    split_ifs at hc' with heq
    · subst heq
      obtain rfl := Option.some.inj hc'
      exact hself
    · exact (hinv.connections c' other hc').congr (fun i => (hother c' i (Ne.symm heq)).1)
        fun i => (hother c' i (Ne.symm heq)).2

/-- The registry and the calls stay as they are. -/
theorem Inv.inner (hinv : Inv w) (hc : w.connections[c]? = some conn)
    (hself : ConnInv w.registry.tasks w.callers c conn') : Inv (w.update c conn') :=
  hinv.own hc rfl hinv.registry hinv.callers hself fun _ _ _ => ⟨Iff.rfl, fun _ => rfl⟩

/-- The reader loop moves on, before `held` is cleared, and touches no place a guard can be in. -/
theorem Inv.quiet (hinv : Inv w) (hc : w.connections[c]? = some conn)
    (hhandlers : conn'.handlers = conn.handlers) (hacquires : conn'.acquires = conn.acquires)
    (hheld : conn'.held = conn.held) (hphase : conn'.phase.hasCleared = false) :
    Inv (w.update c conn') := by
  refine hinv.inner hc ((hinv.connections c conn hc).relabel hhandlers hacquires hheld
    (fun hcleared => ?_) fun hclosed => ?_)
  · cases hphase.symm.trans hcleared
  · rw [hclosed] at hphase
    cases hphase

/-- What the invariant reads. -/
theorem Inv.congr (hinv : Inv w) (hregistry : w'.registry = w.registry)
    (hcallers : w'.callers = w.callers) (hconnections : w'.connections = w.connections) :
    Inv w' := by
  refine ⟨hregistry ▸ hinv.registry, ?_, ?_, ?_⟩
  · rw [hcallers, hregistry]
    exact hinv.callers
  · rw [hcallers, hconnections]
    exact hinv.caller_lt
  · rw [hcallers, hregistry, hconnections]
    exact hinv.connections

theorem Inv.record (hinv : Inv (w.update c conn')) (log : List Event) :
    Inv (World.update { w with log } c conn') :=
  hinv.congr rfl rfl rfl

/-! ### Dropping a guard -/

theorem dropGuard_registry (ht : w.registry.tasks[g]? = some ⟨request, .holding entry generation⟩) :
    w.registry.step (.release g) = some (w.dropGuard g).registry := by
  simp [dropGuard, LockRegistry.step, ht]

theorem dropGuard_tasks (ht : w.registry.tasks[g]? = some ⟨request, .holding entry generation⟩)
    (i : Nat) :
    (w.dropGuard g).registry.tasks[i]? =
      if g = i then some ⟨request, .prune entry .released⟩ else w.registry.tasks[i]? := by
  have hstep : w.registry.step (.release g) =
      some ((w.registry.returnPermit entry).setPhase g (.prune entry .released)) := by
    simp [LockRegistry.step, ht]
  rw [dropGuard, hstep]
  exact LockRegistry.tasks_setPhase (r := w.registry.returnPermit entry) ht _ i

/-- A guard of the connection is dropped, from wherever it was. -/
theorem Inv.dropGuard (hinv : Inv w) (hc : w.connections[c]? = some conn)
    (hlock : conn.Locked key lock)
    (hyields : ConnInv.Yields conn conn' fun i => decide (lock.guard = i)) :
    Inv ((w.dropGuard lock.guard).update c conn') := by
  have hconn := hinv.connections c conn hc
  obtain ⟨request, entry, ht, -⟩ := hconn.locks key lock hlock
  have hcaller := hconn.caller lock.guard hlock.owned_pos
  refine hinv.own hc rfl (LockRegistry.inv_step hinv.registry (dropGuard_registry ht)) ?_ ?_ ?_
  · rw [LockRegistry.length_step (dropGuard_registry ht) nofun]
    exact hinv.callers
  · refine hconn.yield ⟨request, .prune entry .released⟩ ?_ rfl (fun i hi => ?_) hyields
    · rw [dropGuard_tasks ht, if_pos rfl]
    · rw [dropGuard_tasks ht, if_neg (Ne.symm hi)]
  · refine fun c' i hc' => ⟨Iff.rfl, fun hi => ?_⟩
    rw [dropGuard_tasks ht, if_neg]
    rintro rfl
    exact hc' (Option.some.inj (hi.symm.trans hcaller))

/-- An outcome is dropped, from wherever it was. -/
theorem Inv.dropOutcome (hinv : Inv w) (hc : w.connections[c]? = some conn)
    (houtcome : ∀ lock, outcome.granted = some lock → conn.Locked outcome.key lock)
    (hyields : ConnInv.Yields conn conn' outcome.owns) :
    Inv ((w.dropOutcome outcome).update c conn') := by
  obtain ⟨key, granted⟩ := outcome
  cases granted with
  | some lock =>
    exact hinv.dropGuard hc (houtcome lock rfl) hyields
  | none =>
    exact hinv.inner hc ((hinv.connections c conn hc).shift hyields.owned hyields.acquiring
      (fun key lock hl => .inl (hyields.locks key lock hl)) hyields.cleared hyields.closed)

theorem Inv.call {leaseMs : UInt32} (hinv : Inv w) (hc : w.connections[c]? = some conn)
    (hh : conn.handlers[h]? = some ⟨sequence, .lockAcquire request leaseMs, .running⟩) :
    Inv (World.update { w with
      registry := { w.registry with tasks := w.registry.tasks ++ [⟨request, .start⟩] }
      callers := w.callers ++ [c] } c
        (conn.setHandler h (.acquiring w.registry.tasks.length))) := by
  have hconn := hinv.connections c conn hc
  have hcallers := hinv.callers
  have howned (i : Nat) : (conn.setHandler h (.acquiring w.registry.tasks.length)).owned i =
      conn.owned i + (decide (w.registry.tasks.length = i)).toNat :=
    Connection.owned_setHandler hh _ i
  have hold {i : Nat} (hi : 0 < conn.owned i) : i < w.registry.tasks.length := by
    rw [← hcallers]
    exact (List.getElem?_eq_some_iff.mp (hconn.caller i hi)).1
  have htask {i : Nat} (hi : i < w.registry.tasks.length) :
      (w.registry.tasks ++ [⟨request, .start⟩])[i]? = w.registry.tasks[i]? :=
    List.getElem?_append_left hi
  have hcaller {i : Nat} (hi : i < w.registry.tasks.length) :
      (w.callers ++ [c])[i]? = w.callers[i]? := List.getElem?_append_left (hcallers ▸ hi)
  have hnew {i : Nat} (hi : i ≠ w.registry.tasks.length) {c' : Nat}
      (hc' : (w.callers ++ [c])[i]? = some c') : i < w.registry.tasks.length := by
    have := (List.getElem?_eq_some_iff.mp hc').1
    rw [List.length_append, List.length_singleton] at this
    omega
  have hlast : (w.callers ++ [c])[w.registry.tasks.length]? = some c :=
    hcallers ▸ List.getElem?_concat_length
  refine hinv.own hc rfl (LockRegistry.inv_acquire hinv.registry request) ?_
    ⟨fun i => ?_, fun i hi => ?_, fun i task hi ht hlive => ?_, fun job i hi => ?_,
      fun key lock hl => ?_, hconn.cleared, hconn.closed⟩ fun c' i hc' => ?_
  · simp [hcallers]
  · rw [howned]
    by_cases hi : w.registry.tasks.length = i
    · have : ¬0 < conn.owned i := fun hpos => absurd (hold hpos) (by omega)
      simp [hi]
      omega
    · simpa [hi] using hconn.once i
  · by_cases hin : w.registry.tasks.length = i
    · rw [← hin]
      exact hlast
    · have hpos : 0 < conn.owned i := by simpa [howned, hin] using hi
      rw [hcaller (hold hpos)]
      exact hconn.caller i hpos
  · rw [howned]
    by_cases hin : i = w.registry.tasks.length
    · simp [hin]
    · have hlt := hnew hin hi
      have := hconn.alive i task (hcaller hlt ▸ hi) (htask hlt ▸ ht) hlive
      omega
  · obtain ⟨handler, hmem, hjob, hphase⟩ := hi
    rcases Connection.mem_setHandler hh hmem with rfl | hmem
    · obtain rfl := HandlerPhase.acquiring.inj hphase
      exact ⟨request, leaseMs, .start, hjob.symm, List.getElem?_concat_length⟩
    · have hi : conn.Acquiring job i := ⟨handler, hmem, hjob, hphase⟩
      dsimp only
      rw [htask (hold hi.owned_pos)]
      exact hconn.acquiring job i hi
  · have hl := Connection.Locked.of_setHandler hh (.acquiring _) nofun hl
    dsimp only
    rw [htask (hold hl.owned_pos)]
    exact hconn.locks key lock hl
  · have hiff : (w.callers ++ [c])[i]? = some c' ↔ w.callers[i]? = some c' := by
      by_cases hin : i = w.registry.tasks.length
      · rw [hin, hlast, ← hcallers, List.getElem?_eq_none (Nat.le_refl _)]
        exact ⟨fun h => absurd (Option.some.inj h) (Ne.symm hc'), nofun⟩
      · refine ⟨fun h => hcaller (hnew hin h) ▸ h, fun h => ?_⟩
        rw [hcaller (hcallers ▸ (List.getElem?_eq_some_iff.mp h).1), h]
    exact ⟨hiff, fun hi => htask (hcallers ▸ (List.getElem?_eq_some_iff.mp hi).1)⟩

/-! ### The key of a grant -/

theorem Inv.guard_unique {c' : Nat} {conn' : Connection} {lock' : HeldLock} (hinv : Inv w)
    (hc : w.connections[c]? = some conn) (hc' : w.connections[c']? = some conn')
    (hlock : conn.Locked key lock) (hlock' : conn'.Locked key lock') :
    lock.guard = lock'.guard := by
  obtain ⟨request, entry, ht, hkey⟩ := (hinv.connections c conn hc).locks key lock hlock
  obtain ⟨request', entry', ht', hkey'⟩ := (hinv.connections c' conn' hc').locks key lock' hlock'
  exact hinv.registry.eq_of_permits ht ht' rfl rfl (hkey.trans hkey'.symm)

/-- The key of a grant in the acquire channel is not held. -/
theorem Inv.lookup_eq_none_of_mem (hinv : Inv w) (hc : w.connections[c]? = some conn)
    (hmem : ⟨key, some lock⟩ ∈ conn.acquires) : conn.held.lookup key = none := by
  refine Option.eq_none_iff_forall_ne_some.mpr fun other hother => ?_
  have hguard : lock.guard = other.guard :=
    hinv.guard_unique hc hc (.inr (.inl hmem)) (.inr (.inr hother))
  have hchannel : 0 < conn.acquires.countP fun outcome => outcome.owns lock.guard :=
    List.countP_pos_iff.mpr ⟨_, hmem, decide_eq_true rfl⟩
  have hheld := Connection.held_pos hother
  have honce := (hinv.connections c conn hc).once lock.guard
  rw [← hguard] at hheld
  unfold Connection.owned at honce
  omega

/-! ### Every step -/

theorem Transition.inv (htransition : Transition w c conn action w₁ conn')
    (hinv : Inv w) (hc : w.connections[c]? = some conn) : Inv (w₁.update c conn') := by
  have hconn := hinv.connections c conn hc
  have hcleared := hconn.cleared
  cases htransition with
  | dropExpired | expired | park | readOpcode | fail | overflow | refuse | ignore | misuse
  | logRequest | invalidSequence | invalid | abort => exact hinv.quiet hc rfl rfl rfl rfl
  | expire hp hlock =>
    exact hinv.dropGuard hc (.inr (.inr hlock))
      ⟨Connection.owned_erase hlock, fun _ _ => id, fun _ _ => .of_erase, nofun, nofun⟩
  | push _ hsend | answer _ hsend =>
    rcases Connection.send_spec hsend with rfl | rfl
    all_goals exact hinv.quiet hc rfl rfl rfl rfl
  | shutdown stop =>
    cases stop
    all_goals exact hinv.quiet hc rfl rfl rfl rfl
  | @recv until_ key lock acquires hp hacquires hfree =>
    refine hinv.inner hc (hconn.shift (fun i => ?_) (fun _ _ => id) (fun key' lock' hl => .inl ?_)
      nofun nofun)
    · rw [← Connection.owned_tail hacquires .top i]
      have hheld := countP_insert (q := fun lock : HeldLock => lock.guard = i) hfree lock
      unfold Connection.owned
      dsimp only at hheld ⊢
      rw [hheld]
      exact (Nat.add_assoc _ _ _).symm
    · rcases hl with hreporting | hmem | hlock
      · exact .inl hreporting
      · exact .inr (.inl (hacquires ▸ List.mem_cons_of_mem _ hmem))
      · by_cases hkey : key' = key
        · subst hkey
          obtain rfl := Option.some.inj ((AList.lookup_insert conn.held).symm.trans hlock)
          exact .inr (.inl (hacquires ▸ List.mem_cons_self))
        · exact .inr (.inr ((AList.lookup_insert_ne hkey).symm.trans hlock))
  | replace hp hacquires hheld =>
    -- the registry has one permit for the key
    have hmem : _ ∈ conn.acquires := hacquires ▸ List.mem_cons_self
    cases (hinv.lookup_eq_none_of_mem hc hmem).symm.trans hheld
  | recvRefused hp hacquires =>
    refine hinv.inner hc (hconn.shift (fun i => ?_) (fun _ _ => id) (fun key lock hl => .inl ?_)
      nofun nofun)
    · exact Connection.owned_tail hacquires _ i
    · exact hl.imp_right (.imp_left fun hmem => hacquires ▸ List.mem_cons_of_mem _ hmem)
  | idle =>
    split
    all_goals exact hinv.quiet hc rfl rfl rfl rfl
  | spawn =>
    refine hinv.inner hc (hconn.shift (fun i => ?_) (fun job i hi => ?_)
      (fun key lock hl => .inl ?_) nofun nofun)
    · unfold Connection.owned
      rw [List.countP_append]
      rfl
    · obtain ⟨handler, hmem, hjob, hphase⟩ := hi
      rcases List.mem_append.mp hmem with hmem | hmem
      · exact ⟨handler, hmem, hjob, hphase⟩
      · obtain rfl := List.mem_singleton.mp hmem
        cases hphase
    · rcases hl with ⟨handler, hmem, reply, hphase⟩ | hrest
      · rcases List.mem_append.mp hmem with hmem | hmem
        · exact .inl ⟨handler, hmem, reply, hphase⟩
        · obtain rfl := List.mem_singleton.mp hmem
          cases hphase
      · exact .inr hrest
  | release _ _ hlock =>
    refine Inv.record ?_ _
    exact hinv.dropGuard hc (.inr (.inr hlock))
      ⟨Connection.owned_erase hlock, fun _ _ => id, fun _ _ => .of_erase, nofun, nofun⟩
  | clear hp hlock =>
    refine hinv.dropGuard hc (.inr (.inr hlock))
      ⟨Connection.owned_erase hlock, fun _ _ => id, fun _ _ => .of_erase, ?_, ?_⟩
    all_goals
      dsimp only
      rw [hp]
      nofun
  | cleared hp hempty => exact hinv.inner hc (hconn.relabel rfl rfl rfl (fun _ => hempty) nofun)
  | writerEnded hp =>
    exact hinv.inner hc (hconn.relabel rfl rfl rfl (fun _ => hcleared (by rw [hp]; rfl)) nofun)
  | discard hp hacquires =>
    refine hinv.dropOutcome hc (fun lock hgranted => ?_) ⟨fun i => ?_, fun _ _ => id,
      fun key lock hl => ?_, hcleared, ?_⟩
    · exact .of_mem (hacquires ▸ List.mem_cons_self) hgranted
    · exact Connection.owned_tail hacquires _ i
    · exact hl.imp_right (.imp_left fun hmem => hacquires ▸ List.mem_cons_of_mem _ hmem)
    · dsimp only
      rw [hp]
      nofun
  | returned hp hempty =>
    exact hinv.inner hc (hconn.relabel rfl rfl rfl (fun _ => hcleared (by rw [hp]; rfl))
      fun _ => hempty)
  | call hh => exact hinv.call hc hh
  | @finish h sequence job reply hh =>
    exact hinv.inner hc (hconn.idle hh rfl (by cases reply <;> rfl))
  | @granted h sequence request leaseMs task entry call generation lock hh htask hlock =>
    subst hlock
    obtain ⟨request', leaseMs', phase', hjob, ht⟩ :=
      hconn.acquiring _ task ⟨_, List.mem_of_getElem? hh, rfl, rfl⟩
    obtain ⟨rfl, rfl⟩ := Job.lockAcquire.inj hjob
    obtain rfl : call = request := by
      have := Option.some.inj (htask.symm.trans ht)
      exact congrArg Acquire.request this
    refine Inv.record ?_ _
    refine hinv.inner hc (hconn.shift (fun i => ?_) (fun job i => .of_setHandler hh nofun)
      (fun key lock hl => ?_) hcleared hconn.closed)
    · exact Nat.add_right_cancel (Connection.owned_setHandler hh _ i)
    · rcases hl with ⟨handler, hmem, reply, hphase⟩ | hrest
      · rcases Connection.mem_setHandler hh hmem with rfl | hold
        · obtain ⟨houtcome, -⟩ := HandlerPhase.reporting.inj hphase
          obtain ⟨rfl, hlock⟩ := AcquireOutcome.mk.inj houtcome
          cases hlock
          exact .inr ⟨call, entry, htask, rfl⟩
        · exact .inl (.inl ⟨handler, hold, reply, hphase⟩)
      · exact .inl (.inr hrest)
  | refused hh htask =>
    refine hinv.inner hc (hconn.yield _ htask rfl (fun _ _ => rfl) ⟨fun i => ?_,
      fun job i => .of_setHandler hh nofun, fun key lock hl => ?_, hcleared, hconn.closed⟩)
    · exact Connection.owned_setHandler hh _ i
    · rcases hl with ⟨handler, hmem, reply, hphase⟩ | hrest
      · rcases Connection.mem_setHandler hh hmem with rfl | hold
        · obtain ⟨houtcome, -⟩ := HandlerPhase.reporting.inj hphase
          cases houtcome
        · exact .inl ⟨handler, hold, reply, hphase⟩
      · exact .inr hrest
  | reportFails hh | killReporting hh =>
    exact hinv.dropOutcome hc (fun lock => .of_reporting hh)
      ⟨Connection.owned_setHandler hh _, fun job i => .of_setHandler hh nofun,
        fun key lock => .of_setHandler hh _ nofun, hcleared, hconn.closed⟩
  | @report h sequence job outcome reply hh hreturned =>
    refine hinv.inner hc (hconn.shift (fun i => ?_) (fun job i => .of_setHandler hh nofun)
      (fun key lock hl => .inl ?_) hcleared fun hclosed => ?_)
    · rw [← Nat.add_zero (conn.owned i)]
      exact (Connection.owned_append outcome i).trans
        (Connection.owned_setHandler hh (.replying reply) i)
    · rcases hl with hreporting | hmem | hlock
      · exact Connection.Locked.of_setHandler hh (.replying reply) nofun (.inl hreporting)
      · rcases List.mem_append.mp hmem with hold | hnew
        · exact .inr (.inl hold)
        · obtain rfl := List.mem_singleton.mp hnew
          exact .inl ⟨_, List.mem_of_getElem? hh, reply, rfl⟩
      · exact .inr (.inr hlock)
    · rw [show conn.phase = .closed from hclosed] at hreturned
      exact absurd rfl hreturned
  | @reply h sequence job reply conn' hh hsend =>
    rcases Connection.send_spec hsend with rfl | rfl
    · have hself : ConnInv w.registry.tasks w.callers c
          { conn with replies := conn.replies ++ [(sequence, reply)] } :=
        hconn.relabel rfl rfl rfl hcleared hconn.closed
      exact hinv.inner hc (hself.idle hh rfl rfl)
    · exact hinv.inner hc (hconn.idle hh rfl rfl)
  | @killParked h sequence job task registry hh haborted hcancel =>
    have hcaller := hconn.caller task (Connection.Acquiring.owned_pos
      ⟨_, List.mem_of_getElem? hh, rfl, rfl⟩)
    obtain ⟨request, phase, hphase, htasks⟩ := LockRegistry.cancel_tasks hcancel
    refine hinv.own hc rfl (LockRegistry.inv_step hinv.registry hcancel) ?_ ?_ ?_
    · rw [LockRegistry.length_step hcancel nofun]
      exact hinv.callers
    · refine hconn.yield ⟨request, phase⟩ ?_ hphase (fun i hi => ?_)
        ⟨Connection.owned_setHandler hh _, fun job i => .of_setHandler hh nofun,
          fun key lock => .of_setHandler hh _ nofun, hcleared, hconn.closed⟩
      · rw [htasks, if_pos rfl]
      · rw [htasks, if_neg (Ne.symm hi)]
    · refine fun c' i hc' => ⟨Iff.rfl, fun hi => ?_⟩
      dsimp only
      rw [htasks, if_neg]
      rintro rfl
      exact hc' (Option.some.inj (hi.symm.trans hcaller))
  | killRunning hh | killReplying hh => exact hinv.inner hc (hconn.idle hh rfl rfl)
  | write | writeFails => exact hinv.inner hc (hconn.relabel rfl rfl rfl hcleared hconn.closed)

theorem Inv.connect (hinv : Inv w) : Inv { w with connections := w.connections ++ [.new] } := by
  refine ⟨hinv.registry, hinv.callers, fun i c hi => ?_, fun c conn hc => ?_⟩
  · have := hinv.caller_lt i c hi
    rw [List.length_append]
    omega
  · rcases getElem?_concat_some hc with hold | ⟨rfl, rfl⟩
    · exact hinv.connections c conn hold
    · have hnone (i : Nat) : Connection.new.owned i = 0 := rfl
      refine ⟨fun i => ?_, fun i hi => ?_, fun i task hi => ?_, ?_, ?_, nofun, nofun⟩
      · rw [hnone]
        omega
      · rw [hnone] at hi
        omega
      · exact absurd (hinv.caller_lt i _ hi) (lt_irrefl _)
      · rintro job i ⟨handler, hmem, -⟩
        cases hmem
      · rintro key lock (⟨handler, hmem, -⟩ | hmem | hlock)
        · cases hmem
        · cases hmem
        · cases hlock

theorem Inv.registry_step {a : LockRegistry.Action} {registry : LockRegistry}
    (hinv : Inv w) (draws : List (Option Nat)) (hs : w.registry.step a = some registry)
    (ha : (∃ i, a = .run i) ∨ ∃ i, a = .elapse i) : Inv { w with registry, draws } := by
  have hnew : ∀ request, a ≠ .acquire request := by
    rintro request rfl
    rcases ha with ⟨i, ha⟩ | ⟨i, ha⟩ <;> cases ha
  refine ⟨LockRegistry.inv_step hinv.registry hs, ?_, hinv.caller_lt, fun c conn hc => ?_⟩
  · rw [LockRegistry.length_step hs hnew]
    exact hinv.callers
  · rcases LockRegistry.step_spec hs with ⟨request, rfl, -⟩ | ⟨i, task, r₁, phase', ht, htr, rfl⟩
    · exact absurd rfl (hnew request)
    · have htasks : (r₁.setPhase i phase').tasks =
          w.registry.tasks.set i { task with phase := phase' } := by
        rw [LockRegistry.setPhase, htr.tasks, modify_eq_set ht]
      have hrelease : a ≠ .release i := by
        rintro rfl
        rcases ha with ⟨i, ha⟩ | ⟨i, ha⟩ <;> cases ha
      dsimp only
      rw [htasks]
      exact (hinv.connections c conn hc).task ht htr.isOver (htr.not_holding hrelease)

/-- **Every step keeps the invariant.** -/
theorem inv_step (hinv : Inv w) (hs : w.step action = some w') : Inv w' := by
  rcases step_spec hs with ⟨-, rfl⟩ | ⟨by_, -, rfl⟩ | ⟨i, registry, -, hr, rfl⟩ |
    ⟨i, registry, -, hr, rfl⟩ | ⟨c, conn, w₁, conn', hc, htransition, rfl⟩
  · exact hinv.connect
  · exact hinv.congr rfl rfl rfl
  · exact hinv.registry_step _ hr (.inl ⟨i, rfl⟩)
  · exact hinv.registry_step w.draws hr (.inr ⟨i, rfl⟩)
  · exact htransition.inv hinv hc

theorem inv_new (config : Config) (shardCount : Nat) (limits : LockLimits) :
    Inv (new config shardCount limits) :=
  ⟨LockRegistry.inv_new _ _, rfl, nofun, nofun⟩

/-- The states of a daemon: any interleaving of the tasks of any number of connections. -/
abbrev Reachable (config : Config) (shardCount : Nat) (limits : LockLimits) : World → Prop :=
  Reaches step (fun _ _ => True) (new config shardCount limits)

theorem Reachable.inv {shardCount : Nat} {limits : LockLimits}
    (hreach : Reachable config shardCount limits w) : Inv w :=
  hreach.invariant (inv_new config shardCount limits) fun _ _ _ _ hi _ hs => inv_step hi hs

end World

end Fareward.Service
