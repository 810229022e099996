import Fareward.Lock.Registry

/-!
# The shared port: opcodes, replies and the payloads of the lock operations

`Opcode` and `Reply` of `src/service/protocol.rs`, which `go/connection.go` mirrors, and
`ReleaseRequest` and `LockReply` of `src/lock/protocol.rs`. A reply travels with the low sixteen
bits of the sequence of the frame it answers; a push, which answers none, travels with zero.
-/

namespace Fareward.Service

open Lock

inductive Opcode
  | chargeCredits
  | lockAcquire
  | lockRelease
  | logRequest
  | mutateCompanyBudget
  | invalidateUserAccess
  | reserveSequence
  | setSequence
  deriving DecidableEq

namespace Opcode

def toByte : Opcode → UInt8
  | .chargeCredits => 0x01
  | .lockAcquire => 0x02
  | .lockRelease => 0x03
  | .logRequest => 0x04
  | .mutateCompanyBudget => 0x05
  | .invalidateUserAccess => 0x06
  | .reserveSequence => 0x07
  | .setSequence => 0x08

def fromByte (byte : UInt8) : Option Opcode :=
  if byte = 0x01 then some .chargeCredits
  else if byte = 0x02 then some .lockAcquire
  else if byte = 0x03 then some .lockRelease
  else if byte = 0x04 then some .logRequest
  else if byte = 0x05 then some .mutateCompanyBudget
  else if byte = 0x06 then some .invalidateUserAccess
  else if byte = 0x07 then some .reserveSequence
  else if byte = 0x08 then some .setSequence
  else none

theorem fromByte_toByte (opcode : Opcode) : fromByte opcode.toByte = some opcode := by
  cases opcode <;> rfl

theorem toByte_of_fromByte {byte : UInt8} {opcode : Opcode} (h : fromByte byte = some opcode) :
    opcode.toByte = byte := by
  unfold fromByte at h
  split_ifs at h
  all_goals
    cases h
    exact Eq.symm ‹_›

theorem toByte_inj {opcode opcode' : Opcode} (h : opcode.toByte = opcode'.toByte) :
    opcode = opcode' :=
  Option.some.inj (by rw [← fromByte_toByte, h, fromByte_toByte])

/-- The most bytes the payload may have: a counter name has at most 128, and a request log at most
four errors. -/
def maxPayloadSize : Opcode → Nat
  | .chargeCredits => 48
  | .lockAcquire => 40
  | .lockRelease => 24
  | .logRequest => 64 + 4 * 300
  | .mutateCompanyBudget => 32
  | .invalidateUserAccess => 16
  | .reserveSequence => 4 + 128
  | .setSequence => 8 + 128

/-- Whether the daemon answers the opcode at all. -/
def expectsReply : Opcode → Bool
  | .logRequest | .invalidateUserAccess => false
  | _ => true

/-- The opcode has its in-flight ceiling on its own, on both sides. -/
def isSequence : Opcode → Bool
  | .reserveSequence | .setSequence => true
  | _ => false

end Opcode

/-- `LockReply`, the body of a refused acquire or release. -/
inductive LockReply
  | ok
  | busy
  | waitTimeout
  | capacity
  | misuse
  deriving DecidableEq

def LockReply.toByte : LockReply → UInt8
  | .ok => 0
  | .busy => 1
  | .waitTimeout => 2
  | .capacity => 3
  | .misuse => 4

inductive Reply
  | chargeAllowed
  | chargeGranted (grantedMask hasSubsMask : UInt8) (subBytes : List UInt8)
  | chargeCreditViolation (code : UInt8)
  | chargeAccessDenied (code : UInt8)
  | lockGranted (generation : UInt16)
  | lockRefused (code : UInt8)
  | ack
  | budgetRefused (code : UInt8)
  | sequenceValue (value : Int64)
  | sequenceInvalid
  | unavailable
  /-- The one push: a lease elapsed and the hold was dropped. -/
  | lockLost (action : UInt16) (identifier : Int64)
  deriving DecidableEq

/-- A push, which the daemon sends without being asked. -/
def Reply.isPush : Reply → Bool
  | .lockLost _ _ => true
  | _ => false

/-- The correlation of a reply, `sequence & 0xFFFF`. -/
def correlation (sequence : UInt64) : UInt16 := (sequence &&& 0xFFFF).toUInt16

/-- `ReleaseRequest`: which hold a release ends. -/
structure ReleaseRequest where
  action : UInt16
  identifier : Int64
  generation : UInt16
  deriving DecidableEq

def ReleaseRequest.key (request : ReleaseRequest) : LockKey :=
  (request.action, request.identifier)

end Fareward.Service
