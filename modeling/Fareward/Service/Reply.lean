import Mathlib.Data.List.Basic
import Fareward.Service.Protocol

/-!
# Replies on the wire

`ReplyShape` and `Reply::encode` of `src/service/protocol.rs`: `[shape:1][correlation:u16][body]`.
The shape fixes how wide the body is, except for `ChargeGranted`, which counts its sub bytes, and
for the pushes, which start with their length.
-/

namespace Fareward.Service

inductive ReplyShape
  | chargeAllowed
  | chargeGranted
  | chargeCreditViolation
  | chargeAccessDenied
  | lockGranted
  | lockRefused
  | ack
  | budgetRefused
  | sequenceValue
  | sequenceInvalid
  | unavailable
  | lockLost
  deriving DecidableEq

def ReplyShape.toByte : ReplyShape → UInt8
  | .chargeAllowed => 0x01
  | .chargeGranted => 0x02
  | .chargeCreditViolation => 0x03
  | .chargeAccessDenied => 0x04
  | .lockGranted => 0x05
  | .lockRefused => 0x06
  | .ack => 0x07
  | .budgetRefused => 0x08
  | .sequenceValue => 0x09
  | .sequenceInvalid => 0x0A
  | .unavailable => 0x7F
  | .lockLost => 0x80

def pushFloor : UInt8 := 0x80

/-- The bytes of an unsigned integer, most significant first. -/
def toBeBytes (width value : Nat) : List UInt8 :=
  ((List.range width).map fun i => UInt8.ofNat (value / 256 ^ i)).reverse

@[simp] theorem length_toBeBytes (width value : Nat) : (toBeBytes width value).length = width := by
  simp [toBeBytes]

/-- `[action:u16][identifier:i64]`. -/
def lockLostBodySize : Nat := 10

namespace Reply

def shape : Reply → ReplyShape
  | .chargeAllowed => .chargeAllowed
  | .chargeGranted _ _ _ => .chargeGranted
  | .chargeCreditViolation _ => .chargeCreditViolation
  | .chargeAccessDenied _ => .chargeAccessDenied
  | .lockGranted _ => .lockGranted
  | .lockRefused _ => .lockRefused
  | .ack => .ack
  | .budgetRefused _ => .budgetRefused
  | .sequenceValue _ => .sequenceValue
  | .sequenceInvalid => .sequenceInvalid
  | .unavailable => .unavailable
  | .lockLost _ _ => .lockLost

/-- The body of a reply; that of a push without its length. -/
def body : Reply → List UInt8
  | .chargeAllowed | .ack | .sequenceInvalid | .unavailable => []
  | .chargeGranted grantedMask hasSubsMask subBytes =>
    grantedMask :: hasSubsMask :: UInt8.ofNat subBytes.length :: subBytes
  | .chargeCreditViolation code | .chargeAccessDenied code | .lockRefused code
  | .budgetRefused code => [code]
  | .lockGranted generation => toBeBytes 2 generation.toNat
  | .sequenceValue value => toBeBytes 8 value.toUInt64.toNat
  | .lockLost action identifier => toBeBytes 2 action.toNat ++ toBeBytes 8 identifier.toUInt64.toNat

/-- What every frame starts with: the shape and the low sixteen bits of the sequence. -/
def head (shape : UInt8) (sequence : UInt64) : List UInt8 :=
  shape :: toBeBytes 2 (correlation sequence).toNat

def encode (reply : Reply) (sequence : UInt64) : List UInt8 :=
  head reply.shape.toByte sequence ++
    match reply with
    | .lockLost _ _ => UInt8.ofNat lockLostBodySize :: reply.body
    | _ => reply.body

end Reply

end Fareward.Service
