import Fareward.Lib.Finmap
import Mathlib.Logic.Function.Basic

/-!
# Channels and their registry

`src/bridge/channel.rs`: a channel is a connected browser tab, with a bounded queue of frames, the
table of the replies the backend waits for, and a flag that it is closed. The registry maps a key
to the channel installed under it and to the callers that wait for one.

A channel is named by a number, as an `Arc` by its pointer. A one-shot channel belongs to the task
that waits on its receiver, which has at most one for an arrival and one for a reply, so a sender is
the number of the task and what came of it is a `Signal` in the task.
-/

namespace Fareward.Bridge

/-- `OUTBOUND_QUEUE_SIZE`. -/
def outboundQueueSize : ℕ := 64

/-- What the receiver of a one-shot channel sees. -/
inductive Signal (α : Type) where
  | waiting
  | sent (value : α)
  /-- The sender was dropped. -/
  | dropped
  deriving DecidableEq, Repr

/-- `ReplyEnvelope`. -/
structure ReplyEnvelope where
  kind : String
  payload : String
  deriving DecidableEq, Repr

/-- `SendFrameError`. -/
inductive SendFrameError
  | closed
  | timeout
  deriving DecidableEq, Repr

/-- Who has the receiver of the frames. -/
inductive Receiver
  /-- The handler that opened the channel. -/
  | opening
  /-- The event stream, which also holds the channel. -/
  | streaming
  | dropped
  deriving DecidableEq, Repr

/-- `ClientChannel` and the receiver of its frames. -/
structure ClientChannel where
  key : String
  frames : List String
  receiver : Receiver
  closed : Bool
  pendingReplies : Finmap fun _ : UInt64 => ℕ

namespace ClientChannel

/-- `new`. -/
def new (key : String) : ClientChannel := ⟨key, [], .opening, false, ∅⟩

/-- A frame fits in the queue of a stream that is there. -/
def HasRoom (channel : ClientChannel) : Prop :=
  channel.receiver ≠ .dropped ∧ channel.frames.length < outboundQueueSize

instance (channel : ClientChannel) : Decidable channel.HasRoom :=
  inferInstanceAs (Decidable (_ ∧ _))

def push (channel : ClientChannel) (frame : String) : ClientChannel :=
  { channel with frames := channel.frames ++ [frame] }

/-- `close`. -/
def close (channel : ClientChannel) : ClientChannel := { channel with closed := true }

/-- `try_send_payload`. -/
def trySendPayload (channel : ClientChannel) (payload : String) : ClientChannel :=
  if channel.HasRoom then channel.push payload else channel

end ClientChannel

/-- `RegistryState`. -/
structure RegistryState where
  channels : Finmap fun _ : String => ℕ
  arrivalWaiters : Finmap fun _ : String => List ℕ

namespace RegistryState

/-- The critical section of `open_channel`, which installs `channel`. -/
def install (state : RegistryState) (key : String) (channel : ℕ) : RegistryState where
  channels := state.channels.insert key channel
  arrivalWaiters := state.arrivalWaiters.erase key

/-- The waiters `open_channel` takes. -/
def waiters (state : RegistryState) (key : String) : List ℕ :=
  (state.arrivalWaiters.lookup key).getD []

/-- The critical section of `close_channel`. -/
def remove (state : RegistryState) (key : String) (channel : ℕ) : RegistryState :=
  if state.channels.lookup key = some channel then
    { state with channels := state.channels.erase key }
  else state

/-- The end of the critical section of `await_channel`, which finds no channel. -/
def addWaiter (state : RegistryState) (key : String) (waiter : ℕ) : RegistryState :=
  { state with
    arrivalWaiters := state.arrivalWaiters.insert key (state.waiters key ++ [waiter]) }

/-- `drop_arrival_waiters`; `isClosed` says which receivers are gone. -/
def dropArrivalWaiters (state : RegistryState) (key : String) (isClosed : ℕ → Bool) :
    RegistryState :=
  match state.arrivalWaiters.lookup key with
  | some waiters =>
    let waiters := waiters.filter fun waiter => !isClosed waiter
    { state with
      arrivalWaiters :=
        if waiters = [] then state.arrivalWaiters.erase key
        else state.arrivalWaiters.insert key waiters }
  | none => state

end RegistryState

end Fareward.Bridge
