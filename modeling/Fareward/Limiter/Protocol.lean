import Fareward.Limiter.CreditsBlob

/-!
# Charge requests

`src/limiter/protocol.rs`: what a charge frame asks for and the rules it must meet. The bytes of
the frame are the codec's business; `parseCharge` starts from the decoded frame.
-/

namespace Fareward.Limiter

/-- `ChargeFrame`. -/
structure ChargeFrame where
  companyId : Int
  userId : Int
  routeId : UInt16
  cpu : UInt16
  inference : UInt16
  extraAllowed : Bool
  access1 : UInt16
  access2 : UInt16
  access3 : UInt16
  access4 : UInt16
  deriving DecidableEq, Repr

/-- `Request`. -/
structure Request where
  companyId : Int
  userId : Int
  routeId : ℕ
  credits : Credits
  /-- The grants of which one must be held, filled from the front, zero for an empty slot. -/
  requiredAccess : List UInt16
  /-- Whether the charge may fall back to the company's extra daily pool. -/
  extraCreditsAllowed : Bool
  deriving DecidableEq, Repr

/-- `requests_authorization`. -/
def Request.requestsAuthorization (r : Request) : Bool := r.requiredAccess.headD 0 ≠ 0

/-- `Scope`. -/
inductive Scope
  | company
  | user
  deriving DecidableEq, Repr

/-- `Window`. -/
inductive Window
  | tenSeconds
  | hour
  | day
  | month
  deriving DecidableEq, Repr

/-- `LimitViolation`. -/
structure LimitViolation where
  scope : Scope
  window : Window
  cpu : Bool
  inference : Bool
  deriving DecidableEq, Repr

/-- `ProtocolError`, apart from the codec's own. -/
inductive ProtocolError
  | invalidCompany
  | invalidUser
  | invalidRouteId (route : UInt16)
  | emptyCharge
  | sparseRequiredAccess
  deriving DecidableEq, Repr

/-- `parse_charge`, from the decoded frame on. -/
def parseCharge (frame : ChargeFrame) : Except ProtocolError Request :=
  let requiredAccess := [frame.access1, frame.access2, frame.access3, frame.access4]
  let filled := (requiredAccess.takeWhile (· ≠ 0)).length
  if frame.companyId ≤ 0 then .error .invalidCompany
  else if frame.userId ≤ 0 then .error .invalidUser
  else if maxRouteId < frame.routeId.toNat then .error (.invalidRouteId frame.routeId)
  else if (requiredAccess.drop filled).any (· ≠ 0) then .error .sparseRequiredAccess
  else if frame.cpu = 0 ∧ frame.inference = 0 ∧ filled = 0 then .error .emptyCharge
  else
    .ok {
      companyId := frame.companyId
      userId := frame.userId
      routeId := frame.routeId.toNat
      credits := ⟨frame.cpu.toNat, frame.inference.toNat⟩
      requiredAccess
      extraCreditsAllowed := frame.extraAllowed }

end Fareward.Limiter
