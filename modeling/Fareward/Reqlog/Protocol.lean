import Mathlib.Data.Nat.Notation

/-!
# The record of a finished request

`src/reqlog/protocol.rs`: what the daemon takes from a frame of opcode `0x04`. The bytes are read
by the `colbin` codec, which is not part of the repository: `decode` stands for it and `ε` for its
errors.
-/

namespace Fareward.Reqlog

/-- `MAX_ERRORS_PER_REQUEST`. -/
def maxErrorsPerRequest : ℕ := 4

/-- `MAX_CODE_LINE_BYTES`. -/
def maxCodeLineBytes : ℕ := 64

/-- `MAX_ERROR_TEXT_BYTES`. -/
def maxErrorTextBytes : ℕ := 200

/-- `REQUEST_LOG_MAX_PAYLOAD_SIZE`. -/
def requestLogMaxPayloadSize : ℕ := 64 + maxErrorsPerRequest * 300

/-- `FRAMES_PER_DAY`. -/
def framesPerDay : UInt8 := 96

/-- `ErrorEntry`: one failing code line. -/
structure ErrorEntry where
  id : Int32
  codeLine : String
  text : String
  deriving DecidableEq, Repr

/-- `RequestLogRecord`. -/
structure RequestLogRecord where
  date : Int16
  requestId : Int64
  routeId : Int16
  frame : UInt8
  companyId : Int32
  userId : Int32
  elapsedMs : Int16
  errors : List ErrorEntry
  deriving DecidableEq, Repr

namespace RequestLogRecord

/-- `frame_route_company_agg`: the frame in bits 47..40, the route in bits 39..24 and the company in
the others. -/
def frameRouteCompanyAgg (record : RequestLogRecord) : Int64 :=
  record.frame.toUInt64.toInt64 <<< 40
    ||| record.routeId.toUInt16.toUInt64.toInt64 <<< 24
    ||| record.companyId.toInt64 &&& 0xFFFFFF

/-- `error_count`. -/
def errorCount (record : RequestLogRecord) : Int8 := .ofNat record.errors.length

/-- `error_ids`. -/
def errorIds (record : RequestLogRecord) : List Int32 := record.errors.map ErrorEntry.id

end RequestLogRecord

/-- `RequestLogError`. -/
inductive RequestLogError (ε : Type) where
  | malformed (error : ε)
  | invalidFrame (frame : UInt8)
  | tooManyErrors (count : ℕ)
  | fieldTooLong (block length : ℕ) (field : String)
  deriving DecidableEq, Repr

/-- The texts of the errors. -/
def RequestLogError.message {ε : Type} [ToString ε] : RequestLogError ε → String
  | malformed error => s!"request log payload is not a valid colbin message: {error}"
  | invalidFrame frame => s!"frame {frame} is outside the {framesPerDay} slots of a day"
  | tooManyErrors count => s!"error count {count} exceeds the cap of {maxErrorsPerRequest}"
  | fieldTooLong block length field =>
    s!"error block {block} declares a {length}-byte {field}, over its ceiling"

/-- The loop over the errors, from the one at `block` on. -/
def checkErrors {ε : Type} : ℕ → List ErrorEntry → Except (RequestLogError ε) Unit
  | _, [] => .ok ()
  | block, entry :: entries =>
    if maxCodeLineBytes < entry.codeLine.utf8ByteSize then
      .error (.fieldTooLong block entry.codeLine.utf8ByteSize "code line")
    else if maxErrorTextBytes < entry.text.utf8ByteSize then
      .error (.fieldTooLong block entry.text.utf8ByteSize "text")
    else checkErrors (block + 1) entries

/-- `parse_request_log`. -/
def parseRequestLog {ε : Type} (decode : List UInt8 → Except ε RequestLogRecord)
    (payload : List UInt8) : Except (RequestLogError ε) RequestLogRecord := do
  let record ← (decode payload).mapError .malformed
  if framesPerDay ≤ record.frame then .error (.invalidFrame record.frame)
  else if maxErrorsPerRequest < record.errors.length then
    .error (.tooManyErrors record.errors.length)
  else do
    checkErrors 0 record.errors
    return record

end Fareward.Reqlog
