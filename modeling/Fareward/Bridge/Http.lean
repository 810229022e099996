import Fareward.Bridge.Channel

/-!
# The handlers of the bridge

The handlers of `src/bridge/http.rs` over the registry of `src/bridge/channel.rs`, after a request
has been authenticated and parsed. Each handler is a task, and so is a `close_channel` that the
drop of an event stream spawns. `Phase` is where a task stands. A step takes one task from one
await to the next, or through one critical section: the registry lock and the table of pending
replies are never held over an await, so a section is one step. What follows a section without an
await is a step of its own where another task could see the difference.

* A timer may fire at any time its task waits (`expire`).
* The future of a handler may be dropped at any await (`cancel`), because the caller hung up.
* A stream may be polled or hang up at any time.
* `close_channel` may be called for any channel, any number of times.

`log` records the openings, the closings and the registrations of arrival waiters, newest first.
It is not in the source.
-/

namespace Fareward.Bridge

/-- `MAX_CHANNEL_WAIT`, in milliseconds. -/
def maxChannelWait : ℕ := 30000

/-- `DEFAULT_RPC_TIMEOUT`. -/
def defaultRpcTimeout : ℕ := 60000

/-- `MAX_RPC_TIMEOUT`. -/
def maxRpcTimeout : ℕ := 600000

/-- `clamp_duration`. -/
def clampDuration (milliseconds : Int) (whenUnset maximum : ℕ) : ℕ :=
  if milliseconds ≤ 0 then whenUnset else min milliseconds.toNat maximum

/-- What a task runs. -/
inductive Call
  /-- `GET /sse`. -/
  | stream (key : String)
  /-- `close_channel` on its own. -/
  | close (channel : ℕ)
  /-- `POST /publish`. -/
  | publish (key message : String) (waitMs : Int)
  /-- `POST /rpc`. -/
  | rpc (key : String) (id : UInt64) (message : String) (timeoutMs waitMs : Int)
  /-- `POST /in`. -/
  | inbound (key : String) (id : UInt64) (envelope : ReplyEnvelope)
  deriving DecidableEq, Repr

namespace Call

def key : Call → String
  | stream key => key
  | close _ => ""
  | publish key _ _ => key
  | rpc key _ _ _ _ => key
  | inbound key _ _ => key

def id : Call → UInt64
  | rpc _ id _ _ _ => id
  | inbound _ id _ => id
  | _ => 0

def message : Call → String
  | publish _ message _ => message
  | rpc _ _ message _ _ => message
  | _ => ""

/-- How long `await_channel` may wait. -/
def wait : Call → ℕ
  | publish _ _ waitMs => clampDuration waitMs 0 maxChannelWait
  | rpc _ _ _ _ waitMs => clampDuration waitMs 0 maxChannelWait
  | _ => 0

def replyTimeout : Call → ℕ
  | rpc _ _ _ timeoutMs _ => clampDuration timeoutMs defaultRpcTimeout maxRpcTimeout
  | _ => 0

/-- The call is one of the backend. -/
def isService : Call → Bool
  | publish _ _ _ => true
  | rpc _ _ _ _ _ => true
  | _ => false

end Call

/-- What a handler answers. -/
inductive Response
  /-- The event stream of `/sse`. -/
  | stream
  /-- `Delivered`, and `Error` if there is one. -/
  | delivered (value : Bool) (error : Option String)
  /-- `Kind` and `Payload`. -/
  | answered (envelope : ReplyEnvelope)
  | error (status : ℕ) (message : String)
  /-- 504, after so many milliseconds. -/
  | timedOut (milliseconds : ℕ)
  /-- A `close_channel` on its own answers nothing. -/
  | nothing
  deriving DecidableEq, Repr

/-- Where a task stands. -/
inductive Phase
  /-- `open_channel` at the registry lock. -/
  | opening
  /-- `open_channel` with the channel installed, before it tells the previous one. -/
  | evicting (channel previous : ℕ) (waiters : List ℕ)
  /-- `open_channel` at the table of the previous channel. -/
  | failingPrevious (channel previous : ℕ) (waiters : List ℕ)
  /-- `open_channel` before it wakes the waiters. -/
  | waking (channel : ℕ) (waiters : List ℕ)
  /-- `handle_client_stream` at the await of the handshake. -/
  | handshake (channel : ℕ)
  /-- `close_channel` at the registry lock. -/
  | closing (channel : ℕ)
  /-- `close_channel` before it sets the flag. -/
  | flagging (channel : ℕ)
  /-- `close_channel` at the table of the channel. -/
  | failing (channel : ℕ)
  /-- `await_channel` at its first lookup. -/
  | finding
  /-- `await_channel` at the registry lock. -/
  | registering
  /-- `await_channel` at the await of the arrival. -/
  | waiting
  /-- `await_channel` at `drop_arrival_waiters`. -/
  | expired
  /-- `await_channel` at its last lookup. -/
  | refinding
  /-- `handle_service_publish` at the await of the frame. -/
  | publishing (channel : ℕ)
  /-- `await_reply` at the table. -/
  | awaitingReply (channel : ℕ)
  /-- `handle_service_rpc` at the await of the frame. -/
  | sending (channel : ℕ)
  /-- `handle_service_rpc` in its `select!`. -/
  | selecting (channel : ℕ)
  /-- `release_pending_reply` at the table. -/
  | releasing (channel : ℕ) (response : Response)
  /-- `handle_client_inbound` at its lookup. -/
  | replying
  /-- `deliver_reply` at the table. -/
  | delivering (channel : ℕ)
  | done (response : Response)
  /-- The future was dropped, or there is no such task. -/
  | gone
  deriving DecidableEq, Repr

namespace Phase

/-- The channels a task holds. -/
def channels : Phase → List ℕ
  | evicting channel previous _ => [channel, previous]
  | failingPrevious channel previous _ => [channel, previous]
  | waking channel _ => [channel]
  | handshake channel => [channel]
  | closing channel => [channel]
  | flagging channel => [channel]
  | failing channel => [channel]
  | publishing channel => [channel]
  | awaitingReply channel => [channel]
  | sending channel => [channel]
  | selecting channel => [channel]
  | releasing channel _ => [channel]
  | delivering channel => [channel]
  | _ => []

/-- The waiters `open_channel` has taken and not woken. -/
def taken : Phase → List ℕ
  | evicting _ _ waiters => waiters
  | failingPrevious _ _ waiters => waiters
  | waking _ waiters => waiters
  | _ => []

/-- The task is at an await, where its future may be dropped. -/
def atAwait : Phase → Bool
  | evicting _ _ _ => false
  | waking _ _ => false
  | flagging _ => false
  | done _ => false
  | gone => false
  | _ => true

/-- The task is over. -/
def isOver : Phase → Bool
  | done _ => true
  | gone => true
  | _ => false

end Phase

structure Task where
  call : Call
  phase : Phase
  /-- What its arrival receiver sees. -/
  arrival : Signal Unit
  /-- What its reply receiver sees. -/
  reply : Signal ReplyEnvelope

/-- What happened in the registry. -/
inductive Event
  /-- `open_channel` of a task installed a channel in place of the previous one. -/
  | opened (task : ℕ) (key : String) (channel : ℕ) (previous : Option ℕ)
  /-- `close_channel` of a task went through the registry. -/
  | closed (task channel : ℕ)
  /-- `await_channel` of a task registered a waiter. -/
  | registered (task : ℕ) (key : String)
  deriving DecidableEq, Repr

structure World where
  registry : RegistryState
  heap : ℕ → ClientChannel
  allocated : ℕ
  tasks : ℕ → Task
  spawned : ℕ
  log : List Event

namespace World

def new : World where
  registry := ⟨∅, ∅⟩
  heap := fun _ => .new ""
  allocated := 0
  tasks := fun _ => ⟨.close 0, .gone, .waiting, .waiting⟩
  spawned := 0
  log := []

/-! ### Updates -/

def setPhase (w : World) (i : ℕ) (phase : Phase) : World :=
  { w with tasks := Function.update w.tasks i { w.tasks i with phase } }

def modifyChannel (w : World) (c : ℕ) (f : ClientChannel → ClientChannel) : World :=
  { w with heap := Function.update w.heap c (f (w.heap c)) }

def setReceiver (w : World) (c : ℕ) (receiver : Receiver) : World :=
  w.modifyChannel c fun channel => { channel with receiver }

/-- What the arrival senders of some tasks send, or that they are dropped. -/
def arrive (w : World) (waiters : List ℕ) (signal : Signal Unit) : World :=
  { w with
    tasks := fun i => if i ∈ waiters then { w.tasks i with arrival := signal } else w.tasks i }

/-- What the reply senders of some tasks send, or that they are dropped. -/
def answer (w : World) (p : ℕ → Bool) (signal : Signal ReplyEnvelope) : World :=
  { w with tasks := fun i => if p i then { w.tasks i with reply := signal } else w.tasks i }

/-- The entry of an id goes from the table; its sender sends `signal`, or is dropped. -/
def removeReply (w : World) (c : ℕ) (id : UInt64) (signal : Signal ReplyEnvelope) : World :=
  (w.answer (fun i => (w.heap c).pendingReplies.lookup id = some i) signal).modifyChannel c
    fun channel => { channel with pendingReplies := channel.pendingReplies.erase id }

/-- `fail_all_pending_replies`. -/
def failAll (w : World) (c : ℕ) (reason : String) : World :=
  (w.answer (fun i => (w.heap c).pendingReplies.any fun _ waiter => waiter = i)
    (.sent ⟨"error", "\x7b\"Message\":\"" ++ reason ++ "\"\x7d"⟩)).modifyChannel c
      fun channel => { channel with pendingReplies := ∅ }

/-- `await_reply` of task `i`. -/
def addReply (w : World) (c : ℕ) (id : UInt64) (i : ℕ) : World :=
  (w.removeReply c id .dropped).modifyChannel c
    fun channel => { channel with pendingReplies := channel.pendingReplies.insert id i }

def find (w : World) (key : String) : Option ℕ := w.registry.channels.lookup key

/-! ### The steps of a task -/

/-- What a task waits for has happened, its channel was closed, or its timer has fired. -/
inductive Fate
  | go
  | closed
  | expire
  deriving DecidableEq, Repr

/-- `send_frame`: `none` as long as it waits. -/
def sendFrame (w : World) (c : ℕ) (frame : String) : Fate → Option (Except SendFrameError World)
  | .go =>
    if (w.heap c).receiver = .dropped then some (.error .closed)
    else if (w.heap c).HasRoom then some (.ok (w.modifyChannel c (·.push frame)))
    else none
  | .expire => some (.error .timeout)
  | .closed => none

/-- The reasons `/publish` and `/rpc` give. -/
def sendReason : SendFrameError → String
  | .closed => "el stream del cliente ya está cerrado"
  | .timeout => "timeout escribiendo en el stream del cliente"

/-- What a handler does with the channel `await_channel` returns. -/
def found : Call → Option ℕ → Phase
  | .publish _ _ _, some c => .publishing c
  | .publish _ _ _, none => .done (.delivered false none)
  | .rpc _ _ _ _ _, some c => .awaitingReply c
  | .rpc _ _ _ _ _, none => .done (.error 409 "no hay ningún cliente conectado para ese tab")
  | _, _ => .done .nothing

/-- The critical section of `open_channel`, with the allocation of the channel that comes before
it. -/
def openChannel (w : World) (i : ℕ) (key : String) : World :=
  let c := w.allocated
  let waiters := w.registry.waiters key
  let opened : World :=
    { w with
      registry := w.registry.install key c
      heap := Function.update w.heap c (.new key)
      allocated := c + 1
      log := .opened i key c (w.find key) :: w.log }
  match w.find key with
  | some previous => opened.setPhase i (.evicting c previous waiters)
  | none => opened.setPhase i (.waking c waiters)

/-- The critical section of `close_channel`. -/
def closeChannel (w : World) (i c : ℕ) : World :=
  { w with
    registry := w.registry.remove (w.heap c).key c
    log := .closed i c :: w.log }.setPhase i (.flagging c)

/-- The end of `close_channel`: the handler of a stream that did not start returns. -/
def closed (w : World) (i c : ℕ) : Call → World
  | .stream _ =>
    (w.setReceiver c .dropped).setPhase i (.done (.error 500 "no se pudo iniciar el stream"))
  | _ => w.setPhase i (.done .nothing)

/-- The receiver of a sender is gone. -/
def arrivalClosed (w : World) (i : ℕ) : Bool := (w.tasks i).phase ≠ .waiting

/-- Task `i` still has its reply receiver. -/
def replyOpen (w : World) (i : ℕ) : Bool :=
  match (w.tasks i).phase with
  | .sending _ | .selecting _ => true
  -- `select!` drops the receiver; after a failed `send_frame` it lives until the handler returns
  | .releasing _ (.error 502 _) => true
  | _ => false

/-- The next step of task `i`, which runs `call` and stands at `phase`. -/
def advance (w : World) (i : ℕ) (call : Call) (fate : Fate) : Phase → Option World
  -- `open_channel`
  | .opening => some (w.openChannel i call.key)
  | .evicting c previous waiters =>
    some ((w.modifyChannel previous fun channel =>
      (channel.trySendPayload "\x7b\"Type\":\"replaced\"\x7d").close).setPhase i
        (.failingPrevious c previous waiters))
  | .failingPrevious c previous waiters =>
    some ((w.failAll previous "el cliente reconectó").setPhase i (.waking c waiters))
  | .waking c waiters => some ((w.arrive waiters (.sent ())).setPhase i (.handshake c))
  -- `handle_client_stream`
  | .handshake c =>
    (w.sendFrame c "\x7b\"Type\":\"bridgeReady\"\x7d" fate).map fun
      | .ok w => (w.setReceiver c .streaming).setPhase i (.done .stream)
      | .error _ => w.setPhase i (.closing c)
  -- `close_channel`
  | .closing c => some (w.closeChannel i c)
  | .flagging c => some ((w.modifyChannel c .close).setPhase i (.failing c))
  | .failing c => some ((w.failAll c "el cliente se desconectó").closed i c call)
  -- `await_channel`
  | .finding =>
    match w.find call.key with
    | some c => some (w.setPhase i (found call (some c)))
    | none =>
      if call.wait = 0 then some (w.setPhase i (found call none))
      else some (w.setPhase i .registering)
  | .registering =>
    match w.find call.key with
    | some c => some (w.setPhase i (found call (some c)))
    | none =>
      some ({ w with
        registry := w.registry.addWaiter call.key i
        log := .registered i call.key :: w.log }.setPhase i .waiting)
  | .waiting =>
    match fate, (w.tasks i).arrival with
    | .go, .sent () => some (w.setPhase i .refinding)
    | .go, .dropped => some (w.setPhase i .expired)
    | .expire, _ => some (w.setPhase i .expired)
    | _, _ => none
  | .expired =>
    some ({ w with
      registry := w.registry.dropArrivalWaiters call.key w.arrivalClosed }.setPhase i .refinding)
  | .refinding => some (w.setPhase i (found call (w.find call.key)))
  -- `handle_service_publish`
  | .publishing c =>
    (w.sendFrame c call.message fate).map fun
      | .ok w => w.setPhase i (.done (.delivered true none))
      | .error e => w.setPhase i (.done (.delivered false (some (sendReason e))))
  -- `handle_service_rpc`
  | .awaitingReply c => some ((w.addReply c call.id i).setPhase i (.sending c))
  | .sending c =>
    (w.sendFrame c call.message fate).map fun
      | .ok w => w.setPhase i (.selecting c)
      | .error e => w.setPhase i (.releasing c (.error 502 (sendReason e)))
  | .selecting c =>
    match fate, (w.tasks i).reply with
    | .go, .sent envelope => some (w.setPhase i (.releasing c (.answered envelope)))
    | .go, .dropped => some (w.setPhase i (.releasing c
      (.error 409 "el cliente se desconectó antes de responder")))
    | .go, .waiting => none
    | .closed, _ =>
      if (w.heap c).closed then some (w.setPhase i (.releasing c
        (.error 409 "el cliente se desconectó antes de responder")))
      else none
    | .expire, _ => some (w.setPhase i (.releasing c (.timedOut call.replyTimeout)))
  | .releasing c response =>
    some ((w.removeReply c call.id .dropped).setPhase i (.done response))
  -- `handle_client_inbound`
  | .replying =>
    match w.find call.key with
    | some c => some (w.setPhase i (.delivering c))
    | none => some (w.setPhase i (.done (.delivered false none)))
  | .delivering c =>
    match call, (w.heap c).pendingReplies.lookup call.id with
    | .inbound _ id envelope, some waiter =>
      some ((w.removeReply c id (.sent envelope)).setPhase i
        (.done (.delivered (w.replyOpen waiter) none)))
    | _, _ => some (w.setPhase i (.done (.delivered false none)))
  | .done _ => none
  | .gone => none

/-! ### Steps -/

/-- Where a handler starts. -/
def start : Call → Phase
  | .stream _ => .opening
  | .close c => .closing c
  | .publish _ _ _ => .finding
  | .rpc _ id _ _ _ =>
    if id = 0 then .done (.error 400 "ID es obligatorio para correlacionar la respuesta")
    else .finding
  | .inbound _ id _ => if id = 0 then .done (.delivered false none) else .replying

def spawn (w : World) (call : Call) : World :=
  { w with
    tasks := Function.update w.tasks w.spawned ⟨call, start call, .waiting, .waiting⟩
    spawned := w.spawned + 1 }

/-- The receiver that goes with the future of a handler. -/
def dropReceiver (w : World) : Call → Phase → World
  | .stream _, .failingPrevious c _ _ => w.setReceiver c .dropped
  | .stream _, .handshake c => w.setReceiver c .dropped
  | .stream _, .closing c => w.setReceiver c .dropped
  | .stream _, .failing c => w.setReceiver c .dropped
  | _, _ => w

/-- The future of task `i` is dropped. A `close_channel` on its own is a task of the runtime,
which nobody cancels. -/
def cancel (w : World) (i : ℕ) : Option World :=
  match (w.tasks i).call with
  | .close _ => none
  | call =>
    if (w.tasks i).phase.atAwait then
      some (((w.arrive (w.tasks i).phase.taken .dropped).dropReceiver call
        (w.tasks i).phase).setPhase i .gone)
    else none

/-- Somebody holds the channel, and with it the sender of its frames: the registry, a task, or its
own stream. -/
def Owned (w : World) (c : ℕ) : Prop :=
  w.find (w.heap c).key = some c ∨ (∃ i, i < w.spawned ∧ c ∈ (w.tasks i).phase.channels) ∨
    (w.heap c).receiver = .streaming

instance (w : World) (c : ℕ) : Decidable (w.Owned c) :=
  inferInstanceAs (Decidable (_ ∨ _ ∨ _))

inductive Poll
  | frame (payload : String)
  | ended
  | pending
  deriving DecidableEq, Repr

/-- `ChannelEventStream::poll_next`. The receiver ends when its queue is empty and every sender is
gone. -/
def pollNext (w : World) (c : ℕ) : Poll :=
  match (w.heap c).frames with
  | payload :: _ => .frame payload
  | [] => if w.Owned c then .pending else .ended

inductive Action
  | spawn (call : Call)
  | run (i : ℕ) (fate : Fate)
  | cancel (i : ℕ)
  /-- The stream of a channel is polled and yields a frame. -/
  | poll (c : ℕ)
  /-- The stream of a channel is dropped. -/
  | hangUp (c : ℕ)
  deriving DecidableEq, Repr

def step (w : World) : Action → Option World
  | .spawn (.close c) => if c < w.allocated then some (w.spawn (.close c)) else none
  | .spawn call => some (w.spawn call)
  | .run i fate => w.advance i (w.tasks i).call fate (w.tasks i).phase
  | .cancel i => w.cancel i
  | .poll c =>
    if (w.heap c).receiver = .streaming ∧ (w.heap c).frames ≠ [] then
      some (w.modifyChannel c fun channel => { channel with frames := channel.frames.tail })
    else none
  | .hangUp c =>
    if (w.heap c).receiver = .streaming then
      some ((w.setReceiver c .dropped).spawn (.close c))
    else none

end World

end Fareward.Bridge
