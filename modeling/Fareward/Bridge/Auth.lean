import Fareward.Lib.Checked
import Fareward.Lib.Decimal

/-!
# The service header of the bridge

`src/bridge/auth.rs`: the backend signs its requests with a header

    unix_seconds "." 16 hex digits

where the digits are a keyed hash of the time. The bridge reads the time out of the header, checks
that it is fresh, and then compares the whole header with the one it would have made.

A text is a list of characters. The keyed hash is an argument, an arbitrary function of the key and
of the text it signs. `now - signed` and its `abs` are `i64` operations: a build with overflow
checks panics where they leave the range, any other wraps. The session token of the same file is a
message of another library and left out.
-/

namespace Fareward.Bridge

/-- `BridgeAuthError`, the errors of the service header. -/
inductive BridgeAuthError
  | missingServiceAuth
  | malformedServiceAuth
  | expiredServiceAuth (skew : Int)
  | invalidServiceSignature
  deriving DecidableEq, Repr

/-- An error that is returned, or a panic. -/
inductive AuthFailure
  | auth (error : BridgeAuthError)
  | panic
  deriving DecidableEq, Repr

/-- Whether the build checks for overflow. -/
inductive Build
  | checked
  | wrapping
  deriving DecidableEq, Repr

/-- The result of an `i64` operation. -/
def Build.i64 (build : Build) (x : Int) : Except AuthFailure Int :=
  match build with
  | .checked => if i64Min ≤ x ∧ x ≤ i64Max then .ok x else .error .panic
  | .wrapping => .ok (wrapI64 x)

/-- `SERVICE_AUTH_PREFIX`. -/
def serviceAuthPrefix : List Char := "sse-bridge:v2|".toList

/-- `SERVICE_AUTH_MAX_SKEW_SECONDS`. -/
def serviceAuthMaxSkewSeconds : Int := 300

/-- The characters that `trim` removes: those with the Unicode property `White_Space`. -/
def isWhiteSpace (c : Char) : Bool :=
  (9 ≤ c.toNat && c.toNat ≤ 13) || (0x2000 ≤ c.toNat && c.toNat ≤ 0x200A) ||
    [0x20, 0x85, 0xA0, 0x1680, 0x2028, 0x2029, 0x202F, 0x205F, 0x3000].contains c.toNat

/-- `trim`. -/
def trim (text : List Char) : List Char :=
  (((text.dropWhile isWhiteSpace).reverse).dropWhile isWhiteSpace).reverse

/-- `parse::<i64>()`. -/
def parseI64 (text : List Char) : Option Int := (Decimal.parse text).bind checkedI64

/-- `{:016x}`. -/
def hex16 (x : UInt64) : List Char :=
  let digits := Nat.toDigits 16 x.toNat
  List.replicate (16 - digits.length) '0' ++ digits

/-- `(now_unix_seconds - signed_unix_seconds).abs()`. -/
def elapsed (build : Build) (nowUnixSeconds signedUnixSeconds : Int) : Except AuthFailure Int := do
  let difference ← build.i64 (nowUnixSeconds - signedUnixSeconds)
  build.i64 difference.natAbs

section

variable {Key : Type} (hash : Key → List Char → UInt64)

/-- `make_service_auth_header`. -/
def makeServiceAuthHeader (internalApikey : Key) (unixSeconds : Int) : List Char :=
  Decimal.render unixSeconds ++
    '.' :: hex16 (hash internalApikey (serviceAuthPrefix ++ Decimal.render unixSeconds))

/-- `verify_service_auth`. -/
def verifyServiceAuth (build : Build) (headerValue : Option (List Char)) (internalApikey : Key)
    (nowUnixSeconds : Int) : Except AuthFailure Unit :=
  let headerValue := trim (headerValue.getD [])
  if headerValue = [] then .error (.auth .missingServiceAuth)
  -- `split_once('.')`
  else if '.' ∉ headerValue then .error (.auth .malformedServiceAuth)
  else
    match parseI64 (headerValue.takeWhile (· ≠ '.')) with
    | none => .error (.auth .malformedServiceAuth)
    | some signedUnixSeconds => do
      let elapsedSeconds ← elapsed build nowUnixSeconds signedUnixSeconds
      if serviceAuthMaxSkewSeconds < elapsedSeconds then
        .error (.auth (.expiredServiceAuth elapsedSeconds))
      else if headerValue ≠ makeServiceAuthHeader hash internalApikey signedUnixSeconds then
        .error (.auth .invalidServiceSignature)
      else .ok ()

end

end Fareward.Bridge
