import Fareward.Lib.Utf8

/-!
# The request log of the Go client

`go/request_log.go`: the client clamps a record to the ceilings of the daemon and encodes it. A Go
string is any sequence of bytes. `append` stands for the `colbin` codec of the client and `ε` for
its errors.
-/

namespace Fareward.Client

def requestLogMaxErrors : ℕ := 4

def requestLogMaxLineBytes : ℕ := 64

def requestLogMaxTextBytes : ℕ := 200

def requestLogMaxPayloadSize : ℕ := 64 + requestLogMaxErrors * 300

/-- `RequestLogError`: one failing code line. -/
structure RequestLogError where
  id : Int32
  line : List UInt8
  text : List UInt8
  deriving DecidableEq, Repr

/-- `RequestLogRecord`. -/
structure RequestLogRecord where
  date : Int16
  requestId : Int64
  routeId : Int16
  frame : UInt8
  companyId : Int32
  userId : Int32
  elapsedMs : Int16
  errors : List RequestLogError
  deriving DecidableEq, Repr

/-- The loop of `truncateUTF8` from `cut` down. -/
def backUp (value : List UInt8) : ℕ → ℕ
  | 0 => 0
  | cut + 1 => if value[cut + 1]?.any (IsContinuation ·) then backUp value cut else cut + 1

/-- `truncateUTF8`. -/
def truncateUTF8 (value : List UInt8) (limit : ℕ) : List UInt8 :=
  if value.length ≤ limit then value else value.take (backUp value limit)

/-- The copy `encodeRequestLog` makes. -/
def RequestLogRecord.clamped (record : RequestLogRecord) : RequestLogRecord :=
  let errors :=
    if requestLogMaxErrors < record.errors.length then record.errors.take requestLogMaxErrors
    else record.errors
  { record with
    errors := errors.map fun requestError =>
      { id := requestError.id
        line := truncateUTF8 requestError.line requestLogMaxLineBytes
        text := truncateUTF8 requestError.text requestLogMaxTextBytes } }

/-- The errors of `encodeRequestLog`: the codec's own and `ErrRequestLogTooLarge`. -/
inductive EncodeError (ε : Type) where
  | codec (error : ε)
  | requestLogTooLarge
  deriving DecidableEq, Repr

/-- `encodeRequestLog`. -/
def encodeRequestLog {ε : Type} (append : RequestLogRecord → Except ε (List UInt8))
    (record : RequestLogRecord) : Except (EncodeError ε) (List UInt8) := do
  let payload ← (append record.clamped).mapError .codec
  if requestLogMaxPayloadSize < payload.length then .error .requestLogTooLarge
  else return payload

end Fareward.Client
