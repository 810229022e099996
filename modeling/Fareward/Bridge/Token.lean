import Fareward.Lib.Base64
import Mathlib.Data.Int.Basic

/-!
# The channel token

`src/bridge/token.rs`: the token that names one browser tab, which is the base64url form of

    company:uvarint user:uvarint tab:6 bytes

A token is a list of characters. `read_uvarint` and the slices of the decoder are modelled with
their indices; a slice past the end is `Failure.panic`. The session token of the same file is a
message of another library and left out.

The token is a bijection with the triple it names: `Bridge/Equiv/Token.lean`.
-/

namespace Fareward.Bridge

/-- `TokenError`, the errors of the channel token. -/
inductive TokenError
  | channelBase64
  | channelCompanyId
  | channelUserId
  | channelTabId
  | channelRange
  | channelNotCanonical
  deriving DecidableEq, Repr

/-- An error that is returned, or a panic. -/
inductive Failure
  | token (error : TokenError)
  | panic
  deriving DecidableEq, Repr

/-- `TAB_RANDOM_BYTES`. -/
def tabRandomBytes : ℕ := 6

/-- `i32::MAX`. -/
def i32Max : ℕ := 2 ^ 31 - 1

/-- The loop of `read_uvarint`: the accumulator is a `u64`, and the bits shifted out of it are
lost. -/
def readUvarintFrom (value shift index : ℕ) : List UInt8 → Option (ℕ × ℕ)
  | [] => none
  | byte :: bytes =>
    if 63 < shift then none
    else
      let value := value ||| (byte &&& 0x7F).toNat <<< shift % 2 ^ 64
      if byte &&& 0x80 = 0 then some (value, index + 1)
      else readUvarintFrom value (shift + 7) (index + 1) bytes

/-- `read_uvarint`: the value and the bytes it consumed. -/
def readUvarint (bytes : List UInt8) : Option (ℕ × ℕ) := readUvarintFrom 0 0 0 bytes

/-- `append_uvarint`. -/
def appendUvarint (output : List UInt8) (value : ℕ) : List UInt8 :=
  if 0x80 ≤ value then appendUvarint (output ++ [UInt8.ofNat value ||| 0x80]) (value >>> 7)
  else output ++ [UInt8.ofNat value]
termination_by value
decreasing_by
  rw [Nat.shiftRight_eq_div_pow]
  omega

/-- `encode_channel_token`. The casts to `u64` are of positive numbers. -/
def encodeChannelToken (companyId userId : Int) (tabId : List Char) : Option (List Char) := do
  let tabBytes ← Base64.decode tabId
  if tabBytes.length ≠ tabRandomBytes ∨ companyId ≤ 0 ∨ userId ≤ 0 then none
  else
    let tokenBytes := appendUvarint [] companyId.toNat
    let tokenBytes := appendUvarint tokenBytes userId.toNat
    return Base64.encode (tokenBytes ++ tabBytes)

/-- `&bytes[start..]`. -/
def sliceFrom (bytes : List UInt8) (start : ℕ) : Except Failure (List UInt8) :=
  if start ≤ bytes.length then .ok (bytes.drop start) else .error .panic

/-- `ok_or`. -/
def okOr {α : Type} (error : TokenError) : Option α → Except Failure α
  | some a => .ok a
  | none => .error (.token error)

/-- `decode_channel_token`. -/
def decodeChannelToken (channelToken : List Char) : Except Failure (Int × Int × List Char) := do
  let tokenBytes ← okOr .channelBase64 (Base64.decode channelToken)
  let (companyValue, companyByteCount) ← okOr .channelCompanyId (readUvarint tokenBytes)
  let afterCompany ← sliceFrom tokenBytes companyByteCount
  let (userValue, userByteCount) ← okOr .channelUserId (readUvarint afterCompany)
  let tabBytes ← sliceFrom tokenBytes (companyByteCount + userByteCount)
  if tabBytes.length ≠ tabRandomBytes then .error (.token .channelTabId)
  else if companyValue = 0 ∨ userValue = 0 ∨ i32Max < companyValue ∨ i32Max < userValue then
    .error (.token .channelRange)
  else
    let companyId : Int := companyValue
    let userId : Int := userValue
    let tabId := Base64.encode tabBytes
    if encodeChannelToken companyId userId tabId ≠ some channelToken then
      .error (.token .channelNotCanonical)
    else return (companyId, userId, tabId)

end Fareward.Bridge
