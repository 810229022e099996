import Fareward.Reqlog.Errors
import Fareward.Reqlog.Protocol

/-!
# The writer of the request log

`src/reqlog/writer.rs`: connections submit records to a bounded queue, and one task takes them from
there and flushes them, a batch of `user_logs` rows and then the `request_errors` rows one by one.
A failed write is counted and dropped.

`Writer` is the sink, the queue and the task. A flush is cut where it awaits, and for each error it
asks the gate about; submissions may come at any point. Which writes fail, when a flush starts and
what the clocks read is up to the actions. `Instant::now` does not go back: a reading before
`clock` is refused.

`log` records what happened to the errors, newest first, and `flushes` numbers the flushes; neither
is in the source. The time to live of the rows and the interval of the ticks are left out, as no
decision depends on them.
-/

namespace Fareward.Reqlog

/-- The part of `RequestLogConfig` the task reads. -/
structure RequestLogConfig where
  maxBatch : ℕ
  errorFreshness : ℕ
  errorCacheEntries : ℕ
  queueCapacity : ℕ
  deriving DecidableEq

/-- `RequestLogMetrics`. -/
structure RequestLogMetrics where
  queued : ℕ := 0
  droppedQueueFull : ℕ := 0
  rowsWritten : ℕ := 0
  errorsWritten : ℕ := 0
  writeFailures : ℕ := 0
  deriving DecidableEq

/-- The columns of a `user_logs` row. -/
structure UserLogRow where
  date : Int16
  requestId : Int64
  companyId : Int32
  userId : Int32
  routeId : Int16
  frameRouteCompanyAgg : Int64
  elapsedMs : Int16
  errorCount : Int8
  errorIds : List Int32
  deriving DecidableEq

def RequestLogRecord.row (record : RequestLogRecord) : UserLogRow where
  date := record.date
  requestId := record.requestId
  companyId := record.companyId
  userId := record.userId
  routeId := record.routeId
  frameRouteCompanyAgg := record.frameRouteCompanyAgg
  elapsedMs := record.elapsedMs
  errorCount := record.errorCount
  errorIds := record.errorIds

/-- The columns of a `request_errors` row. -/
structure RequestErrorRow where
  id : Int32
  codeLine : String
  text : String
  updated : Int32
  deriving DecidableEq

def ErrorEntry.key (entry : ErrorEntry) : ErrorKey := (entry.id, entry.codeLine)

def RequestErrorRow.key (row : RequestErrorRow) : ErrorKey := (row.id, row.codeLine)

def ErrorEntry.row (entry : ErrorEntry) (updated : Int32) : RequestErrorRow :=
  ⟨entry.id, entry.codeLine, entry.text, updated⟩

/-- What happened to an error, with the number of the flush. -/
inductive Event
  /-- The gate let it through: its row is one of `error_values`. -/
  | planned (flush : ℕ) (key : ErrorKey)
  /-- The gate suppressed it. -/
  | suppressed (flush : ℕ) (key : ErrorKey) (now : ℕ)
  /-- The insert of its row was answered. -/
  | inserted (flush : ℕ) (key : ErrorKey) (time : ℕ) (ok : Bool)
  deriving DecidableEq

/-- Where the task stands. -/
inductive Phase
  /-- In the `select!` of the loop. -/
  | idle
  /-- `flush`, in the loop over the records; `entries` are the errors still to ask the gate about,
  and without any it is at the await of the batch. -/
  | screening (now : ℕ) (updated : Int32) (entries : List ErrorEntry)
      (errorValues : List RequestErrorRow)
  /-- `flush` at the await of the insert of the first value. -/
  | inserting (now : ℕ) (errorValues : List RequestErrorRow)
  | stopped
  deriving DecidableEq

structure Writer where
  config : RequestLogConfig
  /-- False for `RequestLogSink::disabled`, which has no queue and no task. -/
  enabled : Bool
  queue : List RequestLogRecord
  pending : List RequestLogRecord
  gate : ErrorWriteGate
  metrics : RequestLogMetrics
  phase : Phase
  /-- The loop has ended and the flush is the last one. -/
  draining : Bool
  clock : ℕ
  flushes : ℕ
  log : List Event

namespace Writer

/-- `spawn`. -/
def spawn (config : RequestLogConfig) : Writer where
  config := config
  enabled := true
  queue := []
  pending := []
  gate := .new config.errorFreshness config.errorCacheEntries
  metrics := {}
  phase := .idle
  draining := false
  clock := 0
  flushes := 0
  log := []

/-- `RequestLogSink::disabled`. -/
def disabled (config : RequestLogConfig) : Writer :=
  { spawn config with enabled := false, phase := .stopped }

/-- `RequestLogSink::submit`. -/
def submit (w : Writer) (record : RequestLogRecord) : Writer :=
  if w.enabled then
    if w.phase ≠ .stopped ∧ w.queue.length < w.config.queueCapacity then
      { w with
        queue := w.queue ++ [record]
        metrics := { w.metrics with queued := w.metrics.queued + 1 } }
    else
      { w with
        metrics := { w.metrics with droppedQueueFull := w.metrics.droppedQueueFull + 1 } }
  else w

/-- What follows a flush. -/
def resting (w : Writer) : Phase := if w.draining then .stopped else .idle

/-- `flush` up to the loop over the records. -/
def flush (w : Writer) (now : ℕ) (updated : Int32) : Option Writer :=
  if w.pending.isEmpty then some { w with phase := w.resting }
  else if w.clock ≤ now then
    some { w with
      phase := .screening now updated (w.pending.flatMap RequestLogRecord.errors) []
      clock := now
      flushes := w.flushes + 1 }
  else none

/-- The loop over the records: the gate is asked about one error. -/
def screen (w : Writer) (order : List ErrorKey) : Option Writer :=
  match w.phase with
  | .screening now updated (entry :: entries) errorValues =>
    if Enumerates order w.gate.lastWritten.keys then
      match w.gate.shouldWrite order entry.key now with
      | (true, gate) =>
        some { w with
          gate := gate
          phase := .screening now updated entries (errorValues ++ [entry.row updated])
          log := .planned w.flushes entry.key :: w.log }
      | (false, gate) =>
        some { w with
          gate := gate
          phase := .screening now updated entries errorValues
          log := .suppressed w.flushes entry.key now :: w.log }
    else none
  | _ => none

/-- The rows of the batch. -/
def rowValues (w : Writer) : List UserLogRow := w.pending.map RequestLogRecord.row

/-- The batch is answered. -/
def batched (w : Writer) (ok : Bool) : Option Writer :=
  match w.phase with
  | .screening now _ [] errorValues =>
    some { w with
      phase := .inserting now errorValues
      metrics :=
        if ok then
          { w.metrics with rowsWritten := w.metrics.rowsWritten + w.rowValues.length }
        else { w.metrics with writeFailures := w.metrics.writeFailures + 1 } }
  | _ => none

/-- An insert is answered. -/
def inserted (w : Writer) (ok : Bool) (time : ℕ) : Option Writer :=
  match w.phase with
  | .inserting now (row :: errorValues) =>
    if w.clock ≤ time then
      some { w with
        phase := .inserting now errorValues
        clock := time
        metrics :=
          if ok then { w.metrics with errorsWritten := w.metrics.errorsWritten + 1 }
          else { w.metrics with writeFailures := w.metrics.writeFailures + 1 }
        log := .inserted w.flushes row.key time ok :: w.log }
    else none
  | _ => none

/-- The flush returns. -/
def finish (w : Writer) : Option Writer :=
  match w.phase with
  | .inserting _ [] => some { w with phase := w.resting, pending := [] }
  | _ => none

/-- The loop receives a record, and flushes when the batch is full. -/
def receive (w : Writer) (now : ℕ) (updated : Int32) : Option Writer :=
  match w.phase, w.queue with
  | .idle, record :: queue =>
    let w := { w with queue, pending := w.pending ++ [record] }
    if w.config.maxBatch ≤ w.pending.length then w.flush now updated else some w
  | _, _ => none

/-- The ticker ticks. -/
def tick (w : Writer) (now : ℕ) (updated : Int32) : Option Writer :=
  if w.phase = .idle then w.flush now updated else none

/-- The loop ends, at shutdown or when every sink is gone: what is queued is flushed. -/
def stop (w : Writer) (now : ℕ) (updated : Int32) : Option Writer :=
  if w.phase = .idle then
    { w with queue := [], pending := w.pending ++ w.queue, draining := true }.flush now updated
  else none

inductive Action
  | submit (record : RequestLogRecord)
  | receive (now : ℕ) (updated : Int32)
  | tick (now : ℕ) (updated : Int32)
  | stop (now : ℕ) (updated : Int32)
  | screen (order : List ErrorKey)
  | batched (ok : Bool)
  | inserted (ok : Bool) (time : ℕ)
  | finish

def step (w : Writer) : Action → Option Writer
  | .submit record => some (w.submit record)
  | .receive now updated => w.receive now updated
  | .tick now updated => w.tick now updated
  | .stop now updated => w.stop now updated
  | .screen order => w.screen order
  | .batched ok => w.batched ok
  | .inserted ok time => w.inserted ok time
  | .finish => w.finish

end Writer

end Fareward.Reqlog
