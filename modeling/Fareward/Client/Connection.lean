import Fareward.Service.Frame

/-!
# The client's multiplexed connection

`muxConnection` of `go/connection.go`: any number of goroutines call `exchange` and `write` on one
connection, and `readLoop` hands the replies out. Each goroutine is a `Call`, one step of one
goroutine at a time:

* the sequence is taken, the request is filed under its correlation and `writeMu` is held until the
  frame is written (`enter`, `write`);
* `forget` and `abandon` act on whatever `pending` has under the correlation at that time;
* `readLoop` takes the request out of `pending` (`lookup`) and hands it the reply (`deliver`) in two
  steps. A reply that a caller no longer waits for is dropped, and a grant among them is given back
  by a goroutine that runs `releaseAbandoned`.

`exchange` waits for a reply and `write` does not; the callers use `write` for the two opcodes that
the daemon does not answer and `exchange` for the others. A wait may end at any time by its timer
or its context. A write may fail at any time, after any number of bytes, and always fails on a
closed connection. The daemon may answer a frame that was written whole, at most once and with any
reply, and may push at any time; what it writes is read while the connection is open.
`makeLockReleasePayload`, which encodes the payload of a release, is a parameter.

`frames`, `written`, `answered` and `consumed`, the sequences in `replies` and in the channel of a
call, and `forgotten` are not in the source. They record which frames were signed, which of them
went out and how far, which were answered, and which frame a reply answers: of its sequence the
reply itself carries the correlation only.
-/

namespace Fareward.Client

open Service

/-- `buildFarewardFrame`; `farewardAuthTag` is the daemon's `compute_hash`. -/
def buildFarewardFrame (farewardAuthTag : ComputeHash) (nonce : Nonce) (frame : Frame) :
    List UInt8 :=
  frame.signed ++ (farewardAuthTag nonce frame.sequence frame.signed).toList

/-! ### Calls -/

/-- The errors of `exchange` and `write`. -/
inductive CallError
  | closedBeforeSlot
  | timedOutBeforeSlot
  /-- `ctx.Err()`, at either wait. -/
  | cancelled
  | sequenceExhausted
  | tooManyInFlight
  | writeFailed
  | closedBeforeReply
  | timedOutBeforeReply
  deriving DecidableEq

/-- The text of an error that the client makes itself. -/
def CallError.message : CallError → Option String
  | .closedBeforeSlot => some "connection closed while waiting for an in-flight slot"
  | .timedOutBeforeSlot => some "timed out waiting for an in-flight slot"
  | .cancelled => none
  | .sequenceExhausted => some "frame sequence exhausted"
  | .tooManyInFlight => some "too many requests in flight on one connection"
  | .writeFailed => none
  | .closedBeforeReply => some "connection closed while waiting for a reply"
  | .timedOutBeforeReply => some "timed out waiting for a reply"

inductive Outcome
  /-- The reply, and the sequence of the frame it answers. -/
  | reply (sequence : Nat) (reply : Reply)
  /-- `write` succeeded. -/
  | sent
  | error (error : CallError)
  deriving DecidableEq

inductive CallPhase
  /-- At the `select` for an in-flight slot. -/
  | slot
  /-- At `writeMu.Lock()`. -/
  | entering
  /-- Has taken its sequence and holds `writeMu`. -/
  | writing
  /-- At the `forget` after a failed write. -/
  | unwritten
  /-- At the `select` for the reply. -/
  | waiting
  /-- At the `forget` after the connection was closed. -/
  | forgetting
  /-- At the `abandon` of a caller that stopped waiting. -/
  | abandoning (error : CallError)
  /-- At `connection.fail`. -/
  | failing (error : CallError)
  /-- `exchange` returns: the slot is yet to be given back. -/
  | leaving (outcome : Outcome)
  | returned (outcome : Outcome)
  deriving DecidableEq

/-- A goroutine in `exchange` or `write`, with the `pendingRequest` of the former. -/
structure Call where
  opcode : Opcode
  payload : List UInt8
  action : UInt16
  identifier : Int64
  /-- The sequence of its frame, once it has taken one. -/
  sequence : Option Nat
  /-- The channel of the request, which has room for one reply. -/
  reply : Option (Nat × Reply)
  abandoned : Bool
  forgotten : Bool
  phase : CallPhase
  deriving DecidableEq

namespace Call

/-- A call of `exchange`, or of `write` for an opcode that is not answered. -/
def new (opcode : Opcode) (payload : List UInt8) (action : UInt16) (identifier : Int64) : Call :=
  ⟨opcode, payload, action, identifier, none, none, false, false,
    if opcode.expectsReply then .slot else .entering⟩

/-- The call has one of the slots of its class. -/
def hasSlot (call : Call) : Bool :=
  call.opcode.expectsReply &&
    match call.phase with
    | .slot | .returned _ => false
    | _ => true

end Call

/-! ### The connection -/

inductive ReaderPhase
  | reading
  /-- The reply to the frame with the sequence is read, and not looked up yet. -/
  | dispatching (sequence : Nat) (reply : Reply)
  /-- The request of the call is taken out of `pending` for the reply. -/
  | delivering (k : Nat) (sequence : Nat) (reply : Reply)
  | ended
  deriving DecidableEq

structure MuxConnection where
  nonce : Nonce
  /-- The capacity of each of the two classes of slots. -/
  maxInflight : Nat
  /-- `writeMu` is locked. -/
  writeMu : Bool
  /-- The sequence of the next frame. -/
  sequence : Nat
  /-- The calls whose requests wait for a reply, by correlation. -/
  pending : AList fun _ : UInt16 => Nat
  closed : Bool
  calls : List Call
  reader : ReaderPhase
  /-- What the daemon has written and `readLoop` has not read: the sequence of the frame that is
  answered, and the reply. -/
  replies : List (Nat × Reply)
  /-- The frames that were signed. -/
  frames : List Frame
  /-- The frames that were written, each whole or cut after a number of bytes. -/
  written : List (Frame × Option Nat)
  /-- The sequences of the frames that the daemon has answered. -/
  answered : List Nat
  /-- The sequences of the frames whose replies `readLoop` has looked up. -/
  consumed : List Nat

namespace MuxConnection

/-- A connection that has read its nonce. -/
def new (nonce : Nonce) (maxInflight : Nat) : MuxConnection :=
  ⟨nonce, maxInflight, false, 0, ∅, false, [], .reading, [], [], [], [], []⟩

/-- The bytes that the connection has written. -/
def stream (farewardAuthTag : ComputeHash) (conn : MuxConnection) : List UInt8 :=
  conn.written.flatMap fun (frame, cut) =>
    let bytes := buildFarewardFrame farewardAuthTag conn.nonce frame
    match cut with
    | none => bytes
    | some count => bytes.take count

/-- The slots of a class that are taken. -/
def slotsTaken (conn : MuxConnection) (sequence : Bool) : Nat :=
  conn.calls.countP fun call => call.hasSlot ∧ call.opcode.isSequence = sequence

def setCall (conn : MuxConnection) (k : Nat) (call : Call) : MuxConnection :=
  { conn with calls := conn.calls.set k call }

/-- The correlation of the frame with the sequence, `uint16(sequence)`. -/
def correlationOf (sequence : Nat) : UInt16 := correlation (UInt64.ofNat sequence)

def forget (conn : MuxConnection) (correlation : UInt16) : MuxConnection :=
  { conn with pending := conn.pending.erase correlation }

def abandon (conn : MuxConnection) (correlation : UInt16) : MuxConnection :=
  match conn.pending.lookup correlation with
  | some k => { conn with calls := conn.calls.modify k fun call => { call with abandoned := true } }
  | none => conn

def fail (conn : MuxConnection) : MuxConnection := { conn with closed := true }

/-- Taking the sequence under `writeMu`, and signing the frame. -/
def takeSequence (conn : MuxConnection) (k : Nat) (call : Call) : MuxConnection :=
  { conn.setCall k { call with sequence := some conn.sequence, phase := .writing } with
    writeMu := true
    sequence := conn.sequence + 1
    frames := conn.frames ++ [⟨conn.sequence, call.opcode, call.payload⟩] }

/-- The frame is written, whole or up to a number of bytes, and `writeMu` unlocked. -/
def writeFrame (conn : MuxConnection) (call : Call) (sequence : Nat) (cut : Option Nat) :
    MuxConnection :=
  { conn with
    writeMu := false
    written := conn.written ++ [(⟨sequence, call.opcode, call.payload⟩, cut)] }

inductive CallAction
  | takeSlot
  /-- Gives up the wait for a slot. -/
  | leaveSlot (error : CallError)
  | enter
  | write (cut : Option Nat)
  | receive
  /-- Gives up the wait for the reply. -/
  | leaveReply (error : CallError)
  | forget
  | abandon
  | fail
  | leave
  deriving DecidableEq

/-- A step of call `k` of `exchange`, which stands at the given phase. -/
def exchange (conn : MuxConnection) (k : Nat) (call : Call) :
    CallAction → CallPhase → Option MuxConnection
  -- the `select` for a slot
  | .takeSlot, .slot =>
    if conn.slotsTaken call.opcode.isSequence < conn.maxInflight then
      some (conn.setCall k { call with phase := .entering })
    else none
  | .leaveSlot error, .slot =>
    if error = .closedBeforeSlot ∧ conn.closed = true ∨ error = .cancelled ∨
        error = .timedOutBeforeSlot then
      some (conn.setCall k { call with phase := .returned (.error error) })
    else none
  | .enter, .entering =>
    if conn.writeMu = true then none
    else if conn.sequence = 2 ^ 64 - 1 then
      some (conn.setCall k { call with phase := .failing .sequenceExhausted })
    else
      match conn.pending.lookup (correlationOf conn.sequence) with
      | some _ => some (conn.setCall k { call with phase := .leaving (.error .tooManyInFlight) })
      | none =>
        some { conn.takeSequence k call with
          pending := conn.pending.insert (correlationOf conn.sequence) k }
  | .write none, .writing =>
    if conn.closed = true then none
    else call.sequence.map fun sequence =>
      (conn.writeFrame call sequence none).setCall k { call with phase := .waiting }
  | .write (some count), .writing =>
    call.sequence.map fun sequence =>
      (conn.writeFrame call sequence (some count)).setCall k { call with phase := .unwritten }
  | .forget, .unwritten =>
    call.sequence.map fun sequence =>
      (conn.forget (correlationOf sequence)).setCall k
        { call with forgotten := true, phase := .failing .writeFailed }
  -- the `select` for the reply
  | .receive, .waiting =>
    call.reply.map fun (sequence, reply) =>
      conn.setCall k { call with reply := none, phase := .leaving (.reply sequence reply) }
  | .leaveReply .closedBeforeReply, .waiting =>
    if conn.closed = true then some (conn.setCall k { call with phase := .forgetting }) else none
  | .leaveReply .cancelled, .waiting =>
    some (conn.setCall k { call with phase := .abandoning .cancelled })
  | .leaveReply .timedOutBeforeReply, .waiting =>
    some (conn.setCall k { call with phase := .abandoning .timedOutBeforeReply })
  | .forget, .forgetting =>
    call.sequence.map fun sequence =>
      (conn.forget (correlationOf sequence)).setCall k
        { call with forgotten := true, phase := .leaving (.error .closedBeforeReply) }
  | .abandon, .abandoning error =>
    call.sequence.map fun sequence =>
      -- what is there by now may be the request of another call
      (conn.setCall k { call with phase := .leaving (.error error) }).abandon
        (correlationOf sequence)
  | .fail, .failing error =>
    some (conn.fail.setCall k { call with phase := .leaving (.error error) })
  | .leave, .leaving outcome => some (conn.setCall k { call with phase := .returned outcome })
  | _, _ => none

/-- A step of call `k` of `write`, which stands at the given phase. -/
def write (conn : MuxConnection) (k : Nat) (call : Call) :
    CallAction → CallPhase → Option MuxConnection
  | .enter, .entering =>
    if conn.writeMu = true then none
    else if conn.sequence = 2 ^ 64 - 1 then
      some (conn.setCall k { call with phase := .failing .sequenceExhausted })
    else some (conn.takeSequence k call)
  | .write none, .writing =>
    if conn.closed = true then none
    else call.sequence.map fun sequence =>
      (conn.writeFrame call sequence none).setCall k { call with phase := .returned .sent }
  | .write (some count), .writing =>
    call.sequence.map fun sequence =>
      (conn.writeFrame call sequence (some count)).setCall k
        { call with phase := .failing .writeFailed }
  | .fail, .failing error =>
    some (conn.fail.setCall k { call with phase := .returned (.error error) })
  | _, _ => none

inductive ReaderAction
  | read
  | lookup
  | deliver
  /-- The socket fails, or ends, or has something that no reply starts with. -/
  | fail
  deriving DecidableEq

/-- A step of `readLoop`, which stands at the given phase. -/
def readLoop (makeLockReleasePayload : ReleaseRequest → Option (List UInt8))
    (conn : MuxConnection) : ReaderAction → ReaderPhase → Option MuxConnection
  | .read, .reading =>
    match conn.replies with
    | (sequence, reply) :: replies =>
      if conn.closed = true then none
      -- a push is routed on its shape and never reaches `pending`
      else if reply.isPush = true then some { conn with replies }
      else some { conn with replies, reader := .dispatching sequence reply }
    | [] => none
  | .lookup, .dispatching sequence reply =>
    let conn := { conn with consumed := conn.consumed ++ [sequence] }
    match conn.pending.lookup (correlationOf sequence) with
    | some k =>
      some { conn.forget (correlationOf sequence) with reader := .delivering k sequence reply }
    | none => some { conn with reader := .reading }
  | .deliver, .delivering k sequence reply =>
    match conn.calls[k]? with
    | none => none
    | some call =>
      if call.abandoned = true then
        match call.opcode, reply with
        | .lockAcquire, .lockGranted generation =>
          -- `releaseAbandoned`
          match makeLockReleasePayload ⟨call.action, call.identifier, generation⟩ with
          | some payload =>
            some { conn with
              calls := conn.calls ++
                [Call.new .lockRelease payload call.action call.identifier]
              reader := .reading }
          | none => some { conn with reader := .reading }
        | _, _ => some { conn with reader := .reading }
      else if call.reply.isSome = true then none
      else some { conn.setCall k { call with reply := some (sequence, reply) } with
        reader := .reading }
  | .fail, .reading => some { conn.fail with reader := .ended }
  | _, _ => none

inductive Action
  /-- A goroutine calls `exchange` or `write`. -/
  | call (opcode : Opcode) (payload : List UInt8) (action : UInt16) (identifier : Int64)
  | run (k : Nat) (action : CallAction)
  | reader (action : ReaderAction)
  /-- `FarewardClient.Close`. -/
  | close
  /-- The daemon answers the frame with the sequence. -/
  | answer (sequence : Nat) (reply : Reply)
  /-- The daemon pushes. -/
  | push (push : Reply)
  deriving DecidableEq

/-- A frame that the daemon answers went out whole. -/
def answerable (conn : MuxConnection) (sequence : Nat) : Bool :=
  conn.written.any fun (frame, cut) =>
    frame.sequence = sequence ∧ cut = none ∧ frame.opcode.expectsReply

def step (makeLockReleasePayload : ReleaseRequest → Option (List UInt8)) (conn : MuxConnection) :
    Action → Option MuxConnection
  | .call opcode payload action identifier =>
    some { conn with calls := conn.calls ++ [Call.new opcode payload action identifier] }
  | .run k action =>
    conn.calls[k]?.bind fun call =>
      if call.opcode.expectsReply then conn.exchange k call action call.phase
      else conn.write k call action call.phase
  | .reader action => conn.readLoop makeLockReleasePayload action conn.reader
  | .close => some conn.fail
  | .answer sequence reply =>
    if conn.answerable sequence = true ∧ sequence ∉ conn.answered ∧ reply.isPush = false then
      some { conn with
        replies := conn.replies ++ [(sequence, reply)]
        answered := conn.answered ++ [sequence] }
    else none
  | .push push =>
    if push.isPush = true then some { conn with replies := conn.replies ++ [(0, push)] } else none

end MuxConnection

end Fareward.Client
