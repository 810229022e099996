import Mathlib.Data.List.Basic
import Fareward.Lib.Op

/-!
# The client's access grants

`decodeAccessGrant` of `go/credits.go`, which splits the body of a `ChargeGranted` reply by slot:
`[granted_mask:u8][has_subs_mask:u8][sub_len:u8][sub bytes]`.
-/

namespace Fareward.Client

/-- `MaxRequiredAccess`. -/
def maxRequiredAccess : Nat := 4

def subAccesoMoreBit : UInt8 := 0x80

/-- `AccessGrant`. `subAccesoBytes` is a map; it is filled in the order of the slots. -/
structure AccessGrant where
  grantedSlots : UInt8
  subAccesoBytes : List (Nat × List UInt8)
  deriving DecidableEq

/-- The errors of `decodeAccessGrant`; all of them wrap `ErrFarewardUnavailable`. -/
inductive GrantError
  | short (length : Nat)
  | subLength (declared carried : Nat)
  | noSlot
  | subsNotGranted (granted subs : UInt8)
  | midRun (slot : Nat)
  | leftOver (count : Nat)
  deriving DecidableEq

/-- A number as `%b` prints it. -/
def binary (value : UInt8) : String := String.ofList (Nat.toDigits 2 value.toNat)

/-- The text behind that of `ErrFarewardUnavailable`. -/
def GrantError.message : GrantError → String
  | .short length => s!"a granted charge carried {length} bytes, needs at least 3"
  | .subLength declared carried =>
    s!"a granted charge declared {declared} sub bytes and carried {carried}"
  | .noSlot => "a granted charge granted no slot"
  | .subsNotGranted granted subs =>
    let granted := binary granted
    let subs := binary subs
    s!"reply marks sub-accesses on a slot it did not grant (granted {granted}, subs {subs})"
  | .midRun slot => s!"reply ends mid sub-access run for slot {slot}"
  | .leftOver count => s!"reply has {count} sub bytes left over after every marked slot"

/-- The bit of a slot. -/
def slotBit (slotIndex : Nat) : UInt8 := 1 <<< UInt8.ofNat slotIndex

/-- The inner loop of `decodeAccessGrant`: one run and what follows it. -/
def takeRun (slotIndex : Nat) : List UInt8 → Except GrantError (List UInt8 × List UInt8)
  | [] => .error (.midRun slotIndex)
  | subByte :: subBytes =>
    if subByte &&& subAccesoMoreBit = 0 then .ok ([subByte], subBytes)
    else do
      let (run, rest) ← takeRun slotIndex subBytes
      return (subByte :: run, rest)

/-- The loop over the given number of slots, from `slotIndex` on. -/
def takeRuns (hasSubsSlots : UInt8) : (count slotIndex : Nat) → List UInt8 →
    Except GrantError (List (Nat × List UInt8) × List UInt8)
  | 0, _, subBytes => .ok ([], subBytes)
  | count + 1, slotIndex, subBytes =>
    if hasSubsSlots &&& slotBit slotIndex = 0 then
      takeRuns hasSubsSlots count (slotIndex + 1) subBytes
    else do
      let (run, rest) ← takeRun slotIndex subBytes
      let (runs, rest) ← takeRuns hasSubsSlots count (slotIndex + 1) rest
      return ((slotIndex, run) :: runs, rest)

def decodeAccessGrant (body : List UInt8) : Except GrantError AccessGrant :=
  match body with
  | grantedSlots :: hasSubsSlots :: declared :: subBytes => do
    if declared.toNat ≠ subBytes.length then
      throw (.subLength declared.toNat subBytes.length)
    if grantedSlots = 0 then throw .noSlot
    if hasSubsSlots &&& ~~~grantedSlots ≠ 0 then
      throw (.subsNotGranted grantedSlots hasSubsSlots)
    let (runs, rest) ← takeRuns hasSubsSlots maxRequiredAccess 0 subBytes
    if rest ≠ [] then throw (.leftOver rest.length)
    return ⟨grantedSlots, runs⟩
  | _ => .error (.short body.length)

end Fareward.Client
