import Fareward.Client.Connection

/-!
# Both ends of a connection

The client's `muxConnection` and, at the other end of its socket, the part of the daemon's
`handle_connection` that decides which frames are taken on: the frames are read in the order in
which they were written, each that came whole, and each takes a permit of its class or is refused.
The permit is the handler's: it is dropped when the handler ends, which is after its reply was sent.

A request log takes no permit and a release is answered by the reader loop itself. The payloads
are those that the client's codecs write, so no frame is malformed. What a handler does and when it
replies is left open.

`refused` is not in the source: it records the frames for which there was no permit.
-/

namespace Fareward.Client

open Service

inductive TaskPhase
  | running
  /-- `send_reply` has returned, and the permit is not dropped yet. -/
  | replied
  | ended
  deriving DecidableEq

/-- A handler that was spawned for a frame. -/
structure Task where
  sequence : Nat
  opcode : Opcode
  phase : TaskPhase
  deriving DecidableEq

structure Session where
  client : MuxConnection
  /-- The daemon's ceiling, for each of the two classes. -/
  maxInflight : Nat
  /-- How many frames the daemon has taken. -/
  taken : Nat
  tasks : List Task
  /-- The sequences of the frames for which there was no permit. -/
  refused : List Nat

namespace Session

def new (nonce : Nonce) (slots maxInflight : Nat) : Session :=
  ⟨.new nonce slots, maxInflight, 0, [], []⟩

/-- The permits of a class that are taken. -/
def inflight (session : Session) (sequence : Bool) : Nat :=
  session.tasks.countP fun task => task.phase ≠ .ended ∧ task.opcode.isSequence = sequence

/-- The answer to a frame that finds no permit left. -/
def refusal : Opcode → Option Reply
  | .invalidateUserAccess => none
  | .lockAcquire => some (.lockRefused LockReply.capacity.toByte)
  | _ => some .unavailable

section

variable (makeLockReleasePayload : ReleaseRequest → Option (List UInt8))

def answer (session : Session) (sequence : Nat) (reply : Reply) : Option Session :=
  (session.client.step makeLockReleasePayload (.answer sequence reply)).map fun client =>
    { session with client }

/-- The daemon takes a frame; `reply` is what it answers to a release. -/
def take (session : Session) (frame : Frame) (reply : Reply) : Option Session :=
  let session := { session with taken := session.taken + 1 }
  match frame.opcode with
  | .logRequest => some session
  | .lockRelease => session.answer makeLockReleasePayload frame.sequence reply
  | opcode =>
    if session.inflight opcode.isSequence < session.maxInflight then
      some { session with tasks := session.tasks ++ [⟨frame.sequence, opcode, .running⟩] }
    else
      let session := { session with refused := session.refused ++ [frame.sequence] }
      match refusal opcode with
      | some reply => session.answer makeLockReleasePayload frame.sequence reply
      | none => some session

end

inductive Action
  /-- The client takes a step. -/
  | client (action : MuxConnection.Action)
  /-- The daemon takes the next frame. -/
  | take (reply : Reply)
  /-- A handler replies. -/
  | reply (i : Nat) (reply : Reply)
  /-- A handler ends. -/
  | drop (i : Nat)
  deriving DecidableEq

def step (makeLockReleasePayload : ReleaseRequest → Option (List UInt8)) (session : Session) :
    Action → Option Session
  -- the daemon answers through its own steps
  | .client (.answer _ _) => none
  | .client action =>
    (session.client.step makeLockReleasePayload action).map fun client => { session with client }
  | .take reply =>
    match session.client.written[session.taken]? with
    | some (frame, none) => session.take makeLockReleasePayload frame reply
    | _ => none
  | .reply i reply =>
    session.tasks[i]?.bind fun task =>
      if task.phase = .running ∧ task.opcode.expectsReply = true then
        (session.answer makeLockReleasePayload task.sequence reply).map fun session =>
          { session with tasks := session.tasks.set i { task with phase := .replied } }
      else none
  | .drop i =>
    session.tasks[i]?.bind fun task =>
      if task.phase = .replied ∨ task.phase = .running ∧ task.opcode.expectsReply = false then
        some { session with tasks := session.tasks.set i { task with phase := .ended } }
      else none

end Session

end Fareward.Client
