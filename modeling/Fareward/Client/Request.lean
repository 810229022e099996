import Fareward.Client.Session

/-!
# Requests over the client's connections

`FarewardClient` of `go/connection.go`: `request` sends one frame and waits for its reply, on the
shared connection if that is open and on a new one otherwise, and does so once more if the exchange
failed on a connection that was open before. `Charge` is such a request, with the opcode
`chargeCredits`.

`connection` runs under the client's mutex and is one step, with the start of the exchange that
follows it. `attempts` is not in the source: it records the calls of `exchange` that a request has
made.
-/

namespace Fareward.Client

open Service

inductive RequestResult
  | reply (reply : Reply)
  /-- `ErrFarewardUnavailable`, no connection could be made. -/
  | connectFailed
  /-- `ErrFarewardUnavailable`, with the error of the last exchange. -/
  | failed (error : CallError)
  deriving DecidableEq

inductive RequestPhase
  /-- At `client.connection`. -/
  | connecting (attempt : Nat)
  /-- In `exchange`, as the given call of the given connection. -/
  | exchanging (attempt : Nat) (reused : Bool) (session call : Nat)
  | returned (result : RequestResult)
  deriving DecidableEq

/-- A goroutine in `request`. -/
structure Request where
  opcode : Opcode
  payload : List UInt8
  action : UInt16
  identifier : Int64
  phase : RequestPhase
  /-- The connection and the call of each exchange. -/
  attempts : List (Nat × Nat)
  deriving DecidableEq

structure FarewardClient where
  /-- The slots of a connection that is dialed, and the daemon's permits. -/
  slots : Nat
  maxInflight : Nat
  /-- The connections, each with the daemon's end. -/
  sessions : List Session
  current : Option Nat
  requests : List Request

namespace FarewardClient

def new (slots maxInflight : Nat) : FarewardClient := ⟨slots, maxInflight, [], none, []⟩

/-- The shared connection, if it is open. -/
def reusable (client : FarewardClient) : Option Nat :=
  client.current.filter fun i => client.sessions[i]?.any fun session => !session.client.closed

def setRequest (client : FarewardClient) (r : Nat) (request : Request) : FarewardClient :=
  { client with requests := client.requests.set r request }

section

variable (makeLockReleasePayload : ReleaseRequest → Option (List UInt8))

/-- The exchange of request `r` starts on connection `i`. -/
def exchange (client : FarewardClient) (r : Nat) (request : Request) (attempt : Nat)
    (reused : Bool) (i : Nat) : Option FarewardClient :=
  client.sessions[i]?.bind fun session =>
    (session.step makeLockReleasePayload (.client (.call request.opcode request.payload
      request.action request.identifier))).map fun session' =>
        let k := session.client.calls.length
        { client.setRequest r { request with
            phase := .exchanging attempt reused i k
            attempts := request.attempts ++ [(i, k)] } with
          sessions := client.sessions.set i session' }

/-- `connection` and the exchange on it. `nonce` is what a dialed connection reads, if the dial
succeeds. -/
def connect (client : FarewardClient) (r : Nat) (request : Request) (attempt : Nat)
    (nonce : Option Nonce) : Option FarewardClient :=
  match client.reusable with
  | some i => client.exchange makeLockReleasePayload r request attempt true i
  | none =>
    match nonce with
    | some nonce =>
      ({ client with
        sessions := client.sessions ++ [Session.new nonce client.slots client.maxInflight]
        current := some client.sessions.length } : FarewardClient).exchange
          makeLockReleasePayload r request attempt false client.sessions.length
    | none => some (client.setRequest r { request with phase := .returned .connectFailed })

end

/-- The exchange has returned; `cancelled` is the error of the caller's context. -/
def finish (client : FarewardClient) (r : Nat) (request : Request) (attempt : Nat) (reused : Bool) :
    Outcome → Option FarewardClient
  | .reply _ reply => some (client.setRequest r { request with phase := .returned (.reply reply) })
  | .error error =>
    if reused = true ∧ attempt = 0 ∧ error ≠ .cancelled then
      some (client.setRequest r { request with phase := .connecting (attempt + 1) })
    else some (client.setRequest r { request with phase := .returned (.failed error) })
  | .sent => none

/-- The outcome of the exchange, once it has returned. -/
def outcome (client : FarewardClient) (i k : Nat) : Option Outcome :=
  client.sessions[i]?.bind fun session => session.client.calls[k]?.bind fun call =>
    match call.phase with
    | .returned outcome => some outcome
    | _ => none

inductive Action
  /-- A goroutine calls `request`. -/
  | request (opcode : Opcode) (payload : List UInt8) (action : UInt16) (identifier : Int64)
  | connect (r : Nat) (nonce : Option Nonce)
  | finish (r : Nat)
  /-- Another step on a connection, or of the daemon. -/
  | session (i : Nat) (action : Session.Action)
  /-- `Close`. -/
  | close

def step (makeLockReleasePayload : ReleaseRequest → Option (List UInt8)) (client : FarewardClient) :
    Action → Option FarewardClient
  | .request opcode payload action identifier =>
    some { client with
      requests := client.requests ++ [⟨opcode, payload, action, identifier, .connecting 0, []⟩] }
  | .connect r nonce =>
    client.requests[r]?.bind fun request =>
      match request.phase with
      | .connecting attempt => client.connect makeLockReleasePayload r request attempt nonce
      | _ => none
  | .finish r =>
    client.requests[r]?.bind fun request =>
      match request.phase with
      | .exchanging attempt reused i k =>
        (client.outcome i k).bind fun outcome => client.finish r request attempt reused outcome
      | _ => none
  | .session i action =>
    client.sessions[i]?.bind fun session =>
      (session.step makeLockReleasePayload action).map fun session' =>
        { client with sessions := client.sessions.set i session' }
  | .close =>
    match client.current with
    | some i =>
      client.sessions[i]?.bind fun session =>
        (session.step makeLockReleasePayload (.client .close)).map fun session' =>
          { client with sessions := client.sessions.set i session', current := none }
    | none => some client

end FarewardClient

end Fareward.Client
