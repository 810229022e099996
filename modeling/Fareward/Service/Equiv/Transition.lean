import Fareward.Service.Connection

/-!
# The transitions of a connection

`Transition` has one constructor for each branch of the steps of the reader loop, of a handler and
of the writer: where the task stands, what the branch tests, what it does to the rest of the daemon
and the connection it leaves. `step_spec` is the inversion of `step`.
-/

namespace Fareward.Service

open Lock

namespace World

/-- What a task of connection `c` does in one step. -/
inductive Transition (w : World) (c : Nat) (conn : Connection) :
    Action → World → Connection → Prop
  -- the reader loop
  | dropExpired (hp : conn.phase = .top) : Transition w c conn (.loop c .dropExpired) w
      { conn with phase := .expiring w.now [] }
  | expire {key : LockKey} {lock : HeldLock} {now : Nat} {expired : List LockKey}
      (hp : conn.phase = .expiring now expired) (hlock : conn.held.lookup key = some lock)
      (hdue : lock.expiresAt ≤ now) :
      Transition w c conn (.loop c (.expire key)) (w.dropGuard lock.guard) { conn with
        held := conn.held.erase key
        phase := .expiring now (expired ++ [key]) }
  | expired {now : Nat} {expired : List LockKey} (hp : conn.phase = .expiring now expired)
      (halive : ∀ e ∈ conn.held.entries, now < e.2.expiresAt) :
      Transition w c conn (.loop c .expired) w { conn with phase := .pushing expired }
  | push {key : LockKey} {expired : List LockKey} {conn' : Connection}
      (hp : conn.phase = .pushing (key :: expired))
      (hsend : conn.send w.config 0 (.lockLost key.1 key.2) = some conn') :
      Transition w c conn (.loop c .push) w { conn' with phase := .pushing expired }
  | park (hp : conn.phase = .pushing []) : Transition w c conn (.loop c .park) w
      { conn with phase := .select (conn.idleDeadline w.config w.now) }
  | shutdown {until_ : Nat} (stop : Bool) (hp : conn.phase = .select until_) :
      Transition w c conn (.loop c (.shutdown stop)) w
        { conn with phase := if stop then .ended else .top }
  | recv {until_ : Nat} {key : LockKey} {lock : HeldLock} {acquires : List AcquireOutcome}
      (hp : conn.phase = .select until_) (hacquires : conn.acquires = ⟨key, some lock⟩ :: acquires)
      (hfree : conn.held.lookup key = none) :
      Transition w c conn (.loop c .recv) w
        { conn with acquires, held := conn.held.insert key lock, phase := .top }
  | replace {until_ : Nat} {key : LockKey} {lock replaced : HeldLock}
      {acquires : List AcquireOutcome} (hp : conn.phase = .select until_)
      (hacquires : conn.acquires = ⟨key, some lock⟩ :: acquires)
      (hheld : conn.held.lookup key = some replaced) :
      Transition w c conn (.loop c .recv) (w.dropGuard replaced.guard)
        { conn with acquires, held := conn.held.insert key lock, phase := .top }
  | recvRefused {until_ : Nat} {key : LockKey} {acquires : List AcquireOutcome}
      (hp : conn.phase = .select until_) (hacquires : conn.acquires = ⟨key, none⟩ :: acquires) :
      Transition w c conn (.loop c .recv) w { conn with acquires, phase := .top }
  | readOpcode {until_ : Nat} (hp : conn.phase = .select until_) :
      Transition w c conn (.loop c .readOpcode) w { conn with phase := .reading }
  | idle {until_ : Nat} (hp : conn.phase = .select until_) (hdue : until_ ≤ w.now) :
      Transition w c conn (.loop c .idle) w
        { conn with phase := if conn.held.entries = [] then .ended else .top }
  | fail (hp : conn.phase.isOver = false) : Transition w c conn (.loop c .fail) w
      { conn with phase := .ended }
  | overflow {operation : Operation} (hp : conn.phase = .reading)
      (hsequence : ¬conn.sequence + 1 < 2 ^ 64) :
      Transition w c conn (.loop c (.receive operation)) w { conn with phase := .ended }
  | spawn {job : Job} (hp : conn.phase = .reading) (hsequence : conn.sequence + 1 < 2 ^ 64)
      (hpermit : conn.inflight job.isSequence < w.config.maxInflight) :
      Transition w c conn (.loop c (.receive (.spawn job))) w { conn with
        sequence := conn.sequence + 1
        handlers := conn.handlers ++ [⟨conn.sequence, job, .running⟩]
        phase := .top }
  | refuse {job : Job} {reply : Reply} (hp : conn.phase = .reading)
      (hsequence : conn.sequence + 1 < 2 ^ 64)
      (hpermit : ¬conn.inflight job.isSequence < w.config.maxInflight)
      (hreply : job.refusal = some reply) :
      Transition w c conn (.loop c (.receive (.spawn job))) w { conn with
        sequence := conn.sequence + 1
        phase := .answering conn.sequence reply }
  | ignore {job : Job} (hp : conn.phase = .reading) (hsequence : conn.sequence + 1 < 2 ^ 64)
      (hpermit : ¬conn.inflight job.isSequence < w.config.maxInflight)
      (hreply : job.refusal = none) :
      Transition w c conn (.loop c (.receive (.spawn job))) w { conn with
        sequence := conn.sequence + 1
        phase := .top }
  | release {request : ReleaseRequest} {lock : HeldLock} (hp : conn.phase = .reading)
      (hsequence : conn.sequence + 1 < 2 ^ 64) (hlock : conn.held.lookup request.key = some lock)
      (hgeneration : lock.generation = request.generation) :
      Transition w c conn (.loop c (.receive (.lockRelease request)))
        { w.dropGuard lock.guard with log := w.log ++ [.released c request.key lock] }
        { conn with
          sequence := conn.sequence + 1
          held := conn.held.erase request.key
          phase := .answering conn.sequence .ack }
  | misuse {request : ReleaseRequest} (hp : conn.phase = .reading)
      (hsequence : conn.sequence + 1 < 2 ^ 64)
      (hlock : ∀ lock, conn.held.lookup request.key = some lock →
        lock.generation ≠ request.generation) :
      Transition w c conn (.loop c (.receive (.lockRelease request))) w { conn with
        sequence := conn.sequence + 1
        phase := .answering conn.sequence (.lockRefused LockReply.misuse.toByte) }
  | logRequest (hp : conn.phase = .reading) (hsequence : conn.sequence + 1 < 2 ^ 64) :
      Transition w c conn (.loop c (.receive .logRequest)) w { conn with
        sequence := conn.sequence + 1
        phase := .top }
  | invalidSequence (hp : conn.phase = .reading) (hsequence : conn.sequence + 1 < 2 ^ 64) :
      Transition w c conn (.loop c (.receive .invalidSequence)) w { conn with
        sequence := conn.sequence + 1
        phase := .answering conn.sequence .sequenceInvalid }
  | invalid (hp : conn.phase = .reading) (hsequence : conn.sequence + 1 < 2 ^ 64) :
      Transition w c conn (.loop c (.receive .invalid)) w { conn with
        sequence := conn.sequence + 1
        phase := .ended }
  | answer {sequence : Nat} {reply : Reply} {conn' : Connection}
      (hp : conn.phase = .answering sequence reply)
      (hsend : conn.send w.config sequence reply = some conn') :
      Transition w c conn (.loop c .answer) w { conn' with phase := .top }
  -- after the loop
  | abort (hp : conn.phase = .ended) : Transition w c conn (.loop c .abort) w
      { conn with phase := .clearing }
  | clear {key : LockKey} {lock : HeldLock} (hp : conn.phase = .clearing)
      (hlock : conn.held.lookup key = some lock) :
      Transition w c conn (.loop c (.clear key)) (w.dropGuard lock.guard)
        { conn with held := conn.held.erase key }
  | cleared (hp : conn.phase = .clearing) (hempty : conn.held.entries = []) :
      Transition w c conn (.loop c .cleared) w { conn with phase := .awaiting }
  | writerEnded (hp : conn.phase = .awaiting)
      (hended : conn.writing = false ∨
        conn.replies = [] ∧ ∀ handler ∈ conn.handlers, handler.phase = .gone) :
      Transition w c conn (.loop c .writerEnded) w { conn with phase := .returning }
  | discard {outcome : AcquireOutcome} {acquires : List AcquireOutcome}
      (hp : conn.phase = .returning) (hacquires : conn.acquires = outcome :: acquires) :
      Transition w c conn (.loop c .discard) (w.dropOutcome outcome) { conn with acquires }
  | returned (hp : conn.phase = .returning) (hempty : conn.acquires = []) :
      Transition w c conn (.loop c .returned) w { conn with phase := .closed }
  -- a handler
  | call {h : Nat} {sequence : Nat} {request : AcquireRequest} {leaseMs : UInt32}
      (hh : conn.handlers[h]? = some ⟨sequence, .lockAcquire request leaseMs, .running⟩) :
      Transition w c conn (.handler c h .call)
        { w with
          registry := { w.registry with tasks := w.registry.tasks ++ [⟨request, .start⟩] }
          callers := w.callers ++ [c] }
        (conn.setHandler h (.acquiring w.registry.tasks.length))
  | finish {h : Nat} {sequence : Nat} {job : Job} {reply : Option Reply}
      (hh : conn.handlers[h]? = some ⟨sequence, job, .running⟩)
      (hreply : job.answers reply = true) :
      Transition w c conn (.handler c h (.finish reply)) w
        (conn.setHandler h (reply.elim .gone .replying))
  | granted {h : Nat} {sequence : Nat} {request : AcquireRequest} {leaseMs : UInt32}
      {task entry : Nat} {call : AcquireRequest} {generation : UInt16} {lock : HeldLock}
      (hh : conn.handlers[h]? = some ⟨sequence, .lockAcquire request leaseMs, .acquiring task⟩)
      (htask : w.registry.tasks[task]? = some ⟨call, .holding entry generation⟩)
      (hlock : lock =
        ⟨task, generation, w.now + min (leaseMs.toNat * 1000000) w.config.maxLease⟩) :
      Transition w c conn (.handler c h .resume)
        { w with log := w.log ++ [.granted c sequence request.key lock] }
        (conn.setHandler h (.reporting ⟨request.key, some lock⟩ (.lockGranted generation)))
  | refused {h : Nat} {sequence : Nat} {request : AcquireRequest} {leaseMs : UInt32}
      {task : Nat} {call : AcquireRequest} {ending : Ending} {code : LockReply}
      (hh : conn.handlers[h]? = some ⟨sequence, .lockAcquire request leaseMs, .acquiring task⟩)
      (htask : w.registry.tasks[task]? = some ⟨call, .done ending⟩)
      (hcode : refusalOf ending = some code) :
      Transition w c conn (.handler c h .resume) w
        (conn.setHandler h (.reporting ⟨request.key, none⟩ (.lockRefused code.toByte)))
  | reportFails {h : Nat} {sequence : Nat} {job : Job} {outcome : AcquireOutcome} {reply : Reply}
      (hh : conn.handlers[h]? = some ⟨sequence, job, .reporting outcome reply⟩)
      (hreturned : conn.phase.hasReturned = true) :
      Transition w c conn (.handler c h .report) (w.dropOutcome outcome) (conn.setHandler h .gone)
  | report {h : Nat} {sequence : Nat} {job : Job} {outcome : AcquireOutcome} {reply : Reply}
      (hh : conn.handlers[h]? = some ⟨sequence, job, .reporting outcome reply⟩)
      (hreturned : ¬conn.phase.hasReturned = true)
      (hroom : conn.acquires.length < w.config.maxInflight) :
      Transition w c conn (.handler c h .report) w
        { conn.setHandler h (.replying reply) with acquires := conn.acquires ++ [outcome] }
  | reply {h : Nat} {sequence : Nat} {job : Job} {reply : Reply} {conn' : Connection}
      (hh : conn.handlers[h]? = some ⟨sequence, job, .replying reply⟩)
      (hsend : conn.send w.config sequence reply = some conn') :
      Transition w c conn (.handler c h .reply) w (conn'.setHandler h .gone)
  | killParked {h : Nat} {sequence : Nat} {job : Job} {task : Nat} {registry : LockRegistry}
      (hh : conn.handlers[h]? = some ⟨sequence, job, .acquiring task⟩)
      (haborted : conn.phase.hasAborted = true)
      (hcancel : w.registry.step (.cancel task) = some registry) :
      Transition w c conn (.handler c h .kill) { w with registry } (conn.setHandler h .gone)
  | killReporting {h : Nat} {sequence : Nat} {job : Job} {outcome : AcquireOutcome} {reply : Reply}
      (hh : conn.handlers[h]? = some ⟨sequence, job, .reporting outcome reply⟩)
      (haborted : conn.phase.hasAborted = true) :
      Transition w c conn (.handler c h .kill) (w.dropOutcome outcome) (conn.setHandler h .gone)
  | killRunning {h : Nat} {sequence : Nat} {job : Job}
      (hh : conn.handlers[h]? = some ⟨sequence, job, .running⟩)
      (haborted : conn.phase.hasAborted = true) :
      Transition w c conn (.handler c h .kill) w (conn.setHandler h .gone)
  | killReplying {h : Nat} {sequence : Nat} {job : Job} {reply : Reply}
      (hh : conn.handlers[h]? = some ⟨sequence, job, .replying reply⟩)
      (haborted : conn.phase.hasAborted = true) :
      Transition w c conn (.handler c h .kill) w (conn.setHandler h .gone)
  -- the writer
  | write {reply : Nat × Reply} {replies : List (Nat × Reply)} (hwriting : conn.writing = true)
      (hreplies : conn.replies = reply :: replies) :
      Transition w c conn (.write c) w
        { conn with replies, delivered := conn.delivered ++ [reply] }
  | writeFails (hwriting : conn.writing = true) :
      Transition w c conn (.writeFails c) w { conn with writing := false, replies := [] }

variable {w w' : World} {c h : Nat} {conn : Connection}

theorem dispatch_spec (hp : conn.phase = .reading) (hsequence : conn.sequence + 1 < 2 ^ 64)
    (operation : Operation) :
    ∃ w₁ conn', Transition w c conn (.loop c (.receive operation)) w₁ conn' ∧
      w.dispatch c { conn with sequence := conn.sequence + 1 } conn.sequence operation =
        w₁.update c conn' := by
  cases operation with
  | spawn =>
    simp only [dispatch]
    split_ifs with hpermit
    · exact ⟨_, _, .spawn hp hsequence hpermit, rfl⟩
    · split
      · next reply hreply => exact ⟨_, _, .refuse hp hsequence hpermit hreply, rfl⟩
      · next hreply => exact ⟨_, _, .ignore hp hsequence hpermit hreply, rfl⟩
  | lockRelease =>
    simp only [dispatch]
    split
    · next lock hlock =>
      split_ifs with hgeneration
      · exact ⟨_, _, .release hp hsequence hlock hgeneration, rfl⟩
      · refine ⟨_, _, .misuse hp hsequence fun lock' hlock' => ?_, rfl⟩
        obtain rfl := Option.some.inj (hlock.symm.trans hlock')
        exact hgeneration
    · next hnone =>
      refine ⟨_, _, .misuse hp hsequence fun lock hlock => ?_, rfl⟩
      cases hnone.symm.trans hlock
  | logRequest => exact ⟨_, _, .logRequest hp hsequence, rfl⟩
  | invalidSequence => exact ⟨_, _, .invalidSequence hp hsequence, rfl⟩
  | invalid => exact ⟨_, _, .invalid hp hsequence, rfl⟩

theorem loop_spec {action : LoopAction} {phase : LoopPhase} (hp : conn.phase = phase)
    (hs : w.loop c conn action phase = some w') :
    ∃ w₁ conn', Transition w c conn (.loop c action) w₁ conn' ∧ w' = w₁.update c conn' := by
  cases action with
  | dropExpired =>
    cases phase <;> cases hs
    exact ⟨_, _, .dropExpired hp, rfl⟩
  | expire =>
    cases phase <;> try cases hs
    next now expired =>
    unfold loop at hs
    dsimp only at hs
    split at hs
    · next lock hlock =>
      obtain ⟨hdue, hs⟩ := Option.ite_none_right_eq_some.mp hs
      exact ⟨_, _, .expire hp hlock hdue, (Option.some.inj hs).symm⟩
    · cases hs
  | expired =>
    cases phase <;> try cases hs
    obtain ⟨halive, hs⟩ := Option.ite_none_right_eq_some.mp hs
    exact ⟨_, _, .expired hp halive, (Option.some.inj hs).symm⟩
  | push =>
    cases phase <;> try cases hs
    next expired =>
    cases expired with
    | nil => cases hs
    | cons =>
      obtain ⟨conn', hsend, rfl⟩ := Option.map_eq_some_iff.mp hs
      exact ⟨_, _, .push hp hsend, rfl⟩
  | park =>
    cases phase <;> try cases hs
    next expired =>
    cases expired <;> cases hs
    exact ⟨_, _, .park hp, rfl⟩
  | shutdown stop =>
    cases phase <;> cases hs
    exact ⟨_, _, .shutdown stop hp, rfl⟩
  | recv =>
    cases phase <;> try cases hs
    unfold loop at hs
    dsimp only at hs
    split at hs
    · next key lock acquires hacquires =>
      cases hs
      split
      · next replaced hheld => exact ⟨_, _, .replace hp hacquires hheld, rfl⟩
      · next hfree => exact ⟨_, _, .recv hp hacquires hfree, rfl⟩
    · next key acquires hacquires =>
      exact ⟨_, _, .recvRefused hp hacquires, (Option.some.inj hs).symm⟩
    · cases hs
  | readOpcode =>
    cases phase <;> cases hs
    exact ⟨_, _, .readOpcode hp, rfl⟩
  | idle =>
    cases phase <;> try cases hs
    obtain ⟨hdue, hs⟩ := Option.ite_none_right_eq_some.mp hs
    exact ⟨_, _, .idle hp hdue, (Option.some.inj hs).symm⟩
  | fail =>
    cases phase <;> cases hs
    all_goals exact ⟨_, _, .fail (by rw [hp]; rfl), rfl⟩
  | receive operation =>
    cases phase <;> try cases hs
    unfold loop at hs
    dsimp only at hs
    split_ifs at hs with hsequence
    · obtain ⟨w₁, conn', htransition, heq⟩ := dispatch_spec hp hsequence operation
      exact ⟨w₁, conn', htransition, (Option.some.inj hs).symm.trans heq⟩
    · exact ⟨_, _, .overflow hp hsequence, (Option.some.inj hs).symm⟩
  | answer =>
    cases phase <;> try cases hs
    obtain ⟨conn', hsend, rfl⟩ := Option.map_eq_some_iff.mp hs
    exact ⟨_, _, .answer hp hsend, rfl⟩
  | abort =>
    cases phase <;> cases hs
    exact ⟨_, _, .abort hp, rfl⟩
  | clear =>
    cases phase <;> try cases hs
    obtain ⟨lock, hlock, rfl⟩ := Option.map_eq_some_iff.mp hs
    exact ⟨_, _, .clear hp hlock, rfl⟩
  | cleared =>
    cases phase <;> try cases hs
    obtain ⟨hempty, hs⟩ := Option.ite_none_right_eq_some.mp hs
    exact ⟨_, _, .cleared hp hempty, (Option.some.inj hs).symm⟩
  | writerEnded =>
    cases phase <;> try cases hs
    obtain ⟨hended, hs⟩ := Option.ite_none_right_eq_some.mp hs
    exact ⟨_, _, .writerEnded hp hended, (Option.some.inj hs).symm⟩
  | discard =>
    cases phase <;> try cases hs
    unfold loop at hs
    dsimp only at hs
    split at hs
    · next outcome acquires hacquires =>
      exact ⟨_, _, .discard hp hacquires, (Option.some.inj hs).symm⟩
    · cases hs
  | returned =>
    cases phase <;> try cases hs
    obtain ⟨hempty, hs⟩ := Option.ite_none_right_eq_some.mp hs
    exact ⟨_, _, .returned hp hempty, (Option.some.inj hs).symm⟩

theorem handler_spec {action : HandlerAction} {sequence : Nat} {job : Job} {phase : HandlerPhase}
    (hh : conn.handlers[h]? = some ⟨sequence, job, phase⟩)
    (hs : w.handler c conn h sequence job action phase = some w') :
    ∃ w₁ conn', Transition w c conn (.handler c h action) w₁ conn' ∧ w' = w₁.update c conn' := by
  cases action with
  | call =>
    cases phase <;> try cases hs
    cases job <;> cases hs
    exact ⟨_, _, .call hh, rfl⟩
  | finish =>
    cases phase <;> try cases hs
    obtain ⟨hreply, hs⟩ := Option.ite_none_right_eq_some.mp hs
    exact ⟨_, _, .finish hh hreply, (Option.some.inj hs).symm⟩
  | resume =>
    cases phase <;> try cases hs
    simp only [handler] at hs
    split at hs
    · next htask => exact ⟨_, _, .granted hh htask rfl, (Option.some.inj hs).symm⟩
    · next htask =>
      obtain ⟨code, hcode, rfl⟩ := Option.map_eq_some_iff.mp hs
      exact ⟨_, _, .refused hh htask hcode, rfl⟩
    · cases hs
  | report =>
    cases phase <;> try cases hs
    simp only [handler] at hs
    split_ifs at hs with hreturned hroom
    · exact ⟨_, _, .reportFails hh hreturned, (Option.some.inj hs).symm⟩
    · exact ⟨_, _, .report hh hreturned hroom, (Option.some.inj hs).symm⟩
  | reply =>
    cases phase <;> try cases hs
    obtain ⟨conn', hsend, rfl⟩ := Option.map_eq_some_iff.mp hs
    exact ⟨_, _, .reply hh hsend, rfl⟩
  | kill =>
    cases phase with
    | running =>
      obtain ⟨haborted, hs⟩ := Option.ite_none_right_eq_some.mp hs
      exact ⟨_, _, .killRunning hh haborted, (Option.some.inj hs).symm⟩
    | acquiring =>
      obtain ⟨haborted, hs⟩ := Option.ite_none_right_eq_some.mp hs
      obtain ⟨registry, hcancel, rfl⟩ := Option.map_eq_some_iff.mp hs
      exact ⟨_, _, .killParked hh haborted hcancel, rfl⟩
    | reporting =>
      obtain ⟨haborted, hs⟩ := Option.ite_none_right_eq_some.mp hs
      exact ⟨_, _, .killReporting hh haborted, (Option.some.inj hs).symm⟩
    | replying =>
      obtain ⟨haborted, hs⟩ := Option.ite_none_right_eq_some.mp hs
      exact ⟨_, _, .killReplying hh haborted, (Option.some.inj hs).symm⟩
    | gone =>
      obtain ⟨-, hs⟩ := Option.ite_none_right_eq_some.mp hs
      cases hs

/-- **Every step** is an arrival, a tick, a step of the registry's own, or a transition of a task of
one connection. -/
theorem step_spec {action : Action} (hs : w.step action = some w') :
    (action = .connect ∧ w' = { w with connections := w.connections ++ [.new] }) ∨
    (∃ by_, action = .tick by_ ∧ w' = { w with now := w.now + by_ }) ∨
    (∃ i registry, action = .task i ∧ w.registry.step (.run i) = some registry ∧
      w' = { w with registry, draws := w.draws ++ w.registry.drawn i }) ∨
    (∃ i registry, action = .elapse i ∧ w.registry.step (.elapse i) = some registry ∧
      w' = { w with registry }) ∨
    ∃ c conn w₁ conn', w.connections[c]? = some conn ∧ Transition w c conn action w₁ conn' ∧
      w' = w₁.update c conn' := by
  cases action with
  | connect => exact .inl ⟨rfl, (Option.some.inj hs).symm⟩
  | tick by_ => exact .inr (.inl ⟨by_, rfl, (Option.some.inj hs).symm⟩)
  | task i =>
    obtain ⟨registry, hr, rfl⟩ := Option.map_eq_some_iff.mp hs
    exact .inr (.inr (.inl ⟨i, registry, rfl, hr, rfl⟩))
  | elapse i =>
    obtain ⟨registry, hr, rfl⟩ := Option.map_eq_some_iff.mp hs
    exact .inr (.inr (.inr (.inl ⟨i, registry, rfl, hr, rfl⟩)))
  | loop c =>
    obtain ⟨conn, hc, hs⟩ := Option.bind_eq_some_iff.mp hs
    obtain ⟨w₁, conn', htransition, heq⟩ := loop_spec rfl hs
    exact .inr (.inr (.inr (.inr ⟨c, conn, w₁, conn', hc, htransition, heq⟩)))
  | handler c =>
    obtain ⟨conn, hc, hs⟩ := Option.bind_eq_some_iff.mp hs
    obtain ⟨handler, hh, hs⟩ := Option.bind_eq_some_iff.mp hs
    obtain ⟨w₁, conn', htransition, heq⟩ := handler_spec hh hs
    exact .inr (.inr (.inr (.inr ⟨c, conn, w₁, conn', hc, htransition, heq⟩)))
  | write c =>
    obtain ⟨conn, hc, hs⟩ := Option.bind_eq_some_iff.mp hs
    split at hs
    · next hwriting hreplies =>
      exact .inr (.inr (.inr (.inr ⟨c, conn, _, _, hc, .write hwriting hreplies,
        (Option.some.inj hs).symm⟩)))
    · cases hs
  | writeFails c =>
    obtain ⟨conn, hc, hs⟩ := Option.bind_eq_some_iff.mp hs
    obtain ⟨hwriting, hs⟩ := Option.ite_none_right_eq_some.mp hs
    exact .inr (.inr (.inr (.inr ⟨c, conn, _, _, hc, .writeFails hwriting,
      (Option.some.inj hs).symm⟩)))

end World

end Fareward.Service
