import Fareward.Lock.Equiv.Generation
import Fareward.Service.Protocol

/-!
# Connections

`handle_connection` of `src/service/server.rs`, for any number of connections that share one lock
registry. A connection is three kinds of tasks, interleaved one step at a time:

* the reader loop, which alone touches `held` and, when it is left, takes the connection down.
  `LoopPhase` is where it stands;
* one handler for each frame that was spawned work, with `HandlerPhase`. An acquire hands its
  outcome to the loop through `acquires` before it answers. What the limiter and the sequence
  allocator do is not part of the model: their handlers end at some time with some reply of theirs;
* the writer, which takes replies from their channel and writes them to the socket.

A `LockGuard` is named by the task of the registry whose guard it is. An abort reaches a handler at
an await only: a parked acquire is cancelled, a handler at a channel is dropped with what it wanted
to send, and one that runs goes on until it comes to an await. Dropping a guard is the step
`release` of the registry, whose task then prunes on its own.

`callers`, `draws` and `log` are not in the source: they record which connection made each call of
`acquire`, the draws of the generation counter, and the grants and releases.
-/

namespace Fareward.Service

open Lock

structure Config where
  maxInflight : Nat
  /-- Durations and instants are in nanoseconds. -/
  frameTimeout : Nat
  maxLease : Nat
  deriving DecidableEq

/-- `HeldLock`, its guard named by the task of the registry. -/
structure HeldLock where
  guard : Nat
  generation : UInt16
  expiresAt : Nat
  deriving DecidableEq

structure AcquireOutcome where
  key : LockKey
  granted : Option HeldLock
  deriving DecidableEq

/-! ### Handlers -/

/-- The work a handler is spawned for. -/
inductive Job
  | chargeCredits
  | mutateCompanyBudget
  | invalidateUserAccess
  | reserveSequence
  | setSequence
  | lockAcquire (request : AcquireRequest) (leaseMs : UInt32)
  deriving DecidableEq

namespace Job

/-- The job takes its permit from `sequence_inflight`. -/
def isSequence : Job → Bool
  | .reserveSequence | .setSequence => true
  | _ => false

/-- The answer to a frame that finds no permit left. -/
def refusal : Job → Option Reply
  | .invalidateUserAccess => none
  | .lockAcquire _ _ => some (.lockRefused LockReply.capacity.toByte)
  | _ => some .unavailable

/-- What the handler of the job may answer, an acquire apart. -/
def answers : Job → Option Reply → Bool
  | .chargeCredits, some .chargeAllowed | .chargeCredits, some (.chargeGranted _ _ _)
  | .chargeCredits, some (.chargeCreditViolation _) | .chargeCredits, some (.chargeAccessDenied _)
  | .chargeCredits, some .unavailable => true
  | .mutateCompanyBudget, some .ack | .mutateCompanyBudget, some (.budgetRefused _)
  | .mutateCompanyBudget, some .unavailable => true
  | .invalidateUserAccess, none => true
  | .reserveSequence, some (.sequenceValue _) | .reserveSequence, some .unavailable => true
  | .setSequence, some (.sequenceValue _) | .setSequence, some .unavailable => true
  | _, _ => false

end Job

inductive HandlerPhase
  /-- Spawned; an acquire has not called the registry yet, another job is at its call. -/
  | running
  /-- In `locks.acquire`, as the given task of the registry. -/
  | acquiring (task : Nat)
  /-- At `acquire_sender.send`. -/
  | reporting (outcome : AcquireOutcome) (reply : Reply)
  /-- At `send_reply`. -/
  | replying (reply : Reply)
  /-- Ended or aborted. -/
  | gone
  deriving DecidableEq

structure Handler where
  /-- The sequence of the frame. -/
  sequence : Nat
  job : Job
  phase : HandlerPhase
  deriving DecidableEq

/-! ### The reader loop -/

/-- What an authenticated frame asks for, its payload parsed. -/
inductive Operation
  | spawn (job : Job)
  | lockRelease (request : ReleaseRequest)
  /-- Well formed or not, a request log is submitted or discarded without an answer. -/
  | logRequest
  /-- A malformed sequence request, which is answered. -/
  | invalidSequence
  /-- A malformed payload of another opcode, which ends the connection. -/
  | invalid
  deriving DecidableEq

inductive LoopPhase
  /-- The top of the loop. -/
  | top
  /-- `drop_expired` at its reading of the clock, the keys dropped so far. -/
  | expiring (now : Nat) (expired : List LockKey)
  /-- The `LockLost` pushes that are left to send. -/
  | pushing (expired : List LockKey)
  /-- In the `select!`, whose read times out at `until_`. -/
  | select (until_ : Nat)
  /-- The opcode is read, the rest of the frame is not. -/
  | reading
  /-- At the `send_reply` of the loop. -/
  | answering (sequence : Nat) (reply : Reply)
  /-- The loop is left. -/
  | ended
  /-- The handlers are aborted; `held.clear()`. -/
  | clearing
  /-- `held` is cleared and `reply_sender` dropped; awaiting the writer. -/
  | awaiting
  /-- The function returns: `acquire_receiver` goes out of scope. -/
  | returning
  | closed
  deriving DecidableEq

/-- The loop has been left. -/
def LoopPhase.isOver : LoopPhase → Bool
  | .ended | .clearing | .awaiting | .returning | .closed => true
  | _ => false

/-- The handlers have been aborted. -/
def LoopPhase.hasAborted : LoopPhase → Bool
  | .clearing | .awaiting | .returning | .closed => true
  | _ => false

/-- `acquire_receiver` is gone, and a send to it fails. -/
def LoopPhase.hasReturned : LoopPhase → Bool
  | .returning | .closed => true
  | _ => false

/-- By comparison of the entries, which evaluates. -/
instance : DecidableEq (AList fun _ : LockKey => HeldLock) := fun held held' =>
  decidable_of_iff (held.entries = held'.entries) AList.ext_iff.symm

structure Connection where
  /-- The sequence of the next frame. -/
  sequence : Nat
  handlers : List Handler
  /-- The acquire channel, oldest outcome first. -/
  acquires : List AcquireOutcome
  held : AList fun _ : LockKey => HeldLock
  /-- The reply channel: the sequence of the frame and the reply. -/
  replies : List (Nat × Reply)
  /-- What the writer has written to the socket. -/
  delivered : List (Nat × Reply)
  /-- The writer task is alive. -/
  writing : Bool
  phase : LoopPhase
  deriving DecidableEq

namespace Connection

/-- A connection that has sent its nonce. -/
def new : Connection := ⟨0, [], [], ∅, [], [], true, .top⟩

/-- The permits of a class that are taken: a handler has its permit until it is gone. -/
def inflight (conn : Connection) (sequence : Bool) : Nat :=
  conn.handlers.countP fun handler =>
    handler.phase ≠ .gone ∧ handler.job.isSequence = sequence

/-- `send_reply`, which waits while the channel is full and gives up when the writer is gone. -/
def send (conn : Connection) (config : Config) (sequence : Nat) (reply : Reply) :
    Option Connection :=
  if conn.writing = true then
    if conn.replies.length < config.maxInflight then
      some { conn with replies := conn.replies ++ [(sequence, reply)] }
    else none
  else some conn

def setHandler (conn : Connection) (h : Nat) (phase : HandlerPhase) : Connection :=
  { conn with handlers := conn.handlers.modify h fun handler => { handler with phase } }

/-- When the read of an opcode times out, at a reading of the clock. -/
def idleDeadline (conn : Connection) (config : Config) (now : Nat) : Nat :=
  match (conn.held.entries.map fun e => e.2.expiresAt).min? with
  | some expiry => max expiry now
  | none => now + config.frameTimeout

end Connection

/-! ### The daemon -/

inductive Event
  /-- `acquire` returned a guard to a handler of the connection. -/
  | granted (connection sequence : Nat) (key : LockKey) (lock : HeldLock)
  /-- A release frame of the connection ended the hold. -/
  | released (connection : Nat) (key : LockKey) (lock : HeldLock)
  deriving DecidableEq

structure World where
  config : Config
  now : Nat
  registry : LockRegistry
  connections : List Connection
  /-- The connection that made each call of `acquire`. -/
  callers : List Nat
  /-- Each `next_generation.fetch_add`: the task that got its generation from it, if one did. -/
  draws : List (Option Nat)
  log : List Event

inductive LoopAction
  | dropExpired
  | expire (key : LockKey)
  | expired
  | push
  | park
  | shutdown (stop : Bool)
  | recv
  | readOpcode
  | idle
  /-- End of file, a failed or late read, an unknown opcode, an excessive length, a bad tag. -/
  | fail
  | receive (operation : Operation)
  | answer
  | abort
  | clear (key : LockKey)
  | cleared
  | writerEnded
  | discard
  | returned
  deriving DecidableEq

inductive HandlerAction
  | call
  | finish (reply : Option Reply)
  /-- `acquire` returns. -/
  | resume
  | report
  | reply
  /-- The abort takes effect. -/
  | kill
  deriving DecidableEq

inductive Action
  | connect
  | tick (by_ : Nat)
  /-- The task of the registry takes a step, or its wait elapses. -/
  | task (i : Nat)
  | elapse (i : Nat)
  | loop (c : Nat) (action : LoopAction)
  | handler (c h : Nat) (action : HandlerAction)
  /-- The writer writes a reply, or fails to. -/
  | write (c : Nat)
  | writeFails (c : Nat)
  deriving DecidableEq

namespace World

def new (config : Config) (shardCount : Nat) (limits : LockLimits) : World :=
  ⟨config, 0, .new shardCount limits, [], [], [], []⟩

def update (w : World) (c : Nat) (conn : Connection) : World :=
  { w with connections := w.connections.set c conn }

/-- A `LockGuard` is dropped. -/
def dropGuard (w : World) (guard : Nat) : World :=
  { w with registry := (w.registry.step (.release guard)).getD w.registry }

/-- An outcome is dropped, with the guard in it. -/
def dropOutcome (w : World) (outcome : AcquireOutcome) : World :=
  match outcome.granted with
  | some lock => w.dropGuard lock.guard
  | none => w

/-- The `match` on the opcode of an authenticated frame. -/
def dispatch (w : World) (c : Nat) (conn : Connection) (sequence : Nat) : Operation → World
  | .spawn job =>
    if conn.inflight job.isSequence < w.config.maxInflight then
      w.update c { conn with
        handlers := conn.handlers ++ [⟨sequence, job, .running⟩]
        phase := .top }
    else
      match job.refusal with
      | some reply => w.update c { conn with phase := .answering sequence reply }
      | none => w.update c { conn with phase := .top }
  | .lockRelease request =>
    match conn.held.lookup request.key with
    | some lock =>
      if lock.generation = request.generation then
        { (w.dropGuard lock.guard).update c { conn with
            held := conn.held.erase request.key
            phase := .answering sequence .ack } with
          log := w.log ++ [.released c request.key lock] }
      else
        w.update c { conn with phase := .answering sequence (.lockRefused LockReply.misuse.toByte) }
    | none =>
      w.update c { conn with phase := .answering sequence (.lockRefused LockReply.misuse.toByte) }
  | .logRequest => w.update c { conn with phase := .top }
  | .invalidSequence => w.update c { conn with phase := .answering sequence .sequenceInvalid }
  | .invalid => w.update c { conn with phase := .ended }

/-- A step of the reader loop, which stands at the given phase. -/
def loop (w : World) (c : Nat) (conn : Connection) : LoopAction → LoopPhase → Option World
  | .dropExpired, .top => some (w.update c { conn with phase := .expiring w.now [] })
  -- `drop_expired`
  | .expire key, .expiring now expired =>
    match conn.held.lookup key with
    | some lock =>
      if lock.expiresAt ≤ now then
        some ((w.dropGuard lock.guard).update c { conn with
          held := conn.held.erase key
          phase := .expiring now (expired ++ [key]) })
      else none
    | none => none
  | .expired, .expiring now expired =>
    if ∀ e ∈ conn.held.entries, now < e.2.expiresAt then
      some (w.update c { conn with phase := .pushing expired })
    else none
  | .push, .pushing (key :: expired) =>
    (conn.send w.config 0 (.lockLost key.1 key.2)).map fun conn' =>
      w.update c { conn' with phase := .pushing expired }
  | .park, .pushing [] =>
    some (w.update c { conn with phase := .select (conn.idleDeadline w.config w.now) })
  -- the branches of the `select!`
  | .shutdown stop, .select _ =>
    some (w.update c { conn with phase := if stop then .ended else .top })
  | .recv, .select _ =>
    match conn.acquires with
    | ⟨key, some lock⟩ :: acquires =>
      -- a hold that is replaced is dropped
      let w' := match conn.held.lookup key with
        | some replaced => w.dropGuard replaced.guard
        | none => w
      some (w'.update c { conn with acquires, held := conn.held.insert key lock, phase := .top })
    | ⟨_, none⟩ :: acquires => some (w.update c { conn with acquires, phase := .top })
    | [] => none
  | .readOpcode, .select _ => some (w.update c { conn with phase := .reading })
  | .idle, .select until_ =>
    if until_ ≤ w.now then
      some (w.update c { conn with phase := if conn.held.entries = [] then .ended else .top })
    else none
  | .fail, .select _ => some (w.update c { conn with phase := .ended })
  | .fail, .reading => some (w.update c { conn with phase := .ended })
  | .receive operation, .reading =>
    if conn.sequence + 1 < 2 ^ 64 then
      some (w.dispatch c { conn with sequence := conn.sequence + 1 } conn.sequence operation)
    else some (w.update c { conn with phase := .ended })
  | .answer, .answering sequence reply =>
    (conn.send w.config sequence reply).map fun conn' => w.update c { conn' with phase := .top }
  -- after the loop
  | .abort, .ended => some (w.update c { conn with phase := .clearing })
  | .clear key, .clearing =>
    (conn.held.lookup key).map fun lock =>
      (w.dropGuard lock.guard).update c { conn with held := conn.held.erase key }
  | .cleared, .clearing =>
    if conn.held.entries = [] then some (w.update c { conn with phase := .awaiting }) else none
  | .writerEnded, .awaiting =>
    if conn.writing = false ∨ conn.replies = [] ∧ ∀ handler ∈ conn.handlers, handler.phase = .gone
    then some (w.update c { conn with phase := .returning }) else none
  | .discard, .returning =>
    match conn.acquires with
    | outcome :: acquires => some ((w.dropOutcome outcome).update c { conn with acquires })
    | [] => none
  | .returned, .returning =>
    if conn.acquires = [] then some (w.update c { conn with phase := .closed }) else none
  | _, _ => none

/-- How a call of `acquire` that got no guard is answered. -/
def refusalOf : Ending → Option LockReply
  | .busy => some .busy
  | .waitTimeout => some .waitTimeout
  | .capacity => some .capacity
  | .released | .cancelled => none

/-- A step of handler `h`, which stands at the given phase. -/
def handler (w : World) (c : Nat) (conn : Connection) (h sequence : Nat) (job : Job) :
    HandlerAction → HandlerPhase → Option World
  | .call, .running =>
    match job with
    | .lockAcquire request _ =>
      (w.registry.step (.acquire request)).map fun registry =>
        { w.update c (conn.setHandler h (.acquiring w.registry.tasks.length)) with
          registry
          callers := w.callers ++ [c] }
    | _ => none
  | .finish reply, .running =>
    if job.answers reply = true then
      some (w.update c (conn.setHandler h (reply.elim .gone .replying)))
    else none
  | .resume, .acquiring task =>
    match job, w.registry.tasks[task]? with
    | .lockAcquire request leaseMs, some ⟨_, .holding _ generation⟩ =>
      let lock : HeldLock :=
        ⟨task, generation, w.now + min (leaseMs.toNat * 1000000) w.config.maxLease⟩
      some { w.update c (conn.setHandler h
          (.reporting ⟨request.key, some lock⟩ (.lockGranted generation))) with
        log := w.log ++ [.granted c sequence request.key lock] }
    | .lockAcquire request _, some ⟨_, .done ending⟩ =>
      (refusalOf ending).map fun code =>
        w.update c (conn.setHandler h
          (.reporting ⟨request.key, none⟩ (.lockRefused code.toByte)))
    | _, _ => none
  | .report, .reporting outcome reply =>
    if conn.phase.hasReturned = true then
      some ((w.dropOutcome outcome).update c (conn.setHandler h .gone))
    else if conn.acquires.length < w.config.maxInflight then
      some (w.update c { conn.setHandler h (.replying reply) with
        acquires := conn.acquires ++ [outcome] })
    else none
  | .reply, .replying reply =>
    (conn.send w.config sequence reply).map fun conn' => w.update c (conn'.setHandler h .gone)
  | .kill, phase =>
    if conn.phase.hasAborted = true then
      match phase with
      | .running | .replying _ => some (w.update c (conn.setHandler h .gone))
      -- an acquire is at an await only while it is parked
      | .acquiring task =>
        (w.registry.step (.cancel task)).map fun registry =>
          { w.update c (conn.setHandler h .gone) with registry }
      | .reporting outcome _ =>
        some ((w.dropOutcome outcome).update c (conn.setHandler h .gone))
      | .gone => none
    else none
  | _, _ => none

def step (w : World) : Action → Option World
  | .connect => some { w with connections := w.connections ++ [.new] }
  | .tick by_ => some { w with now := w.now + by_ }
  | .task i =>
    (w.registry.step (.run i)).map fun registry =>
      { w with registry, draws := w.draws ++ w.registry.drawn i }
  | .elapse i => (w.registry.step (.elapse i)).map fun registry => { w with registry }
  | .loop c action => w.connections[c]?.bind fun conn => w.loop c conn action conn.phase
  | .handler c h action =>
    w.connections[c]?.bind fun conn => conn.handlers[h]?.bind fun handler =>
      w.handler c conn h handler.sequence handler.job action handler.phase
  | .write c =>
    w.connections[c]?.bind fun conn =>
      match conn.writing, conn.replies with
      | true, reply :: replies =>
        some (w.update c { conn with replies, delivered := conn.delivered ++ [reply] })
      | _, _ => none
  | .writeFails c =>
    w.connections[c]?.bind fun conn =>
      if conn.writing = true then some (w.update c { conn with writing := false, replies := [] })
      else none

end World

end Fareward.Service
