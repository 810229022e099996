import Fareward.Sysmetrics.Config
import Fareward.Sysmetrics.Window

/-!
# The writer of the metrics

`src/sysmetrics/writer.rs`: the sampling loop takes a sample at each tick, and when a tick falls in
another window than the one before it writes the row of that window first. The window in progress
is written when the loop ends.

`Sampling` is the task's locals. The clock readings, the sample, if there is one, and what the
database answers come with each tick; an `Instant` is a natural number of seconds. `calls` records
the calls of `write_window` with the accumulator each was given and the values it inserted, which is
not in the source.
-/

namespace Fareward.Sysmetrics

/-- `SECONDS_PER_DAY`. -/
def secondsPerDay : ℤ := 86400

/-- `PREPARE_RETRY_INTERVAL`. -/
def prepareRetryInterval : ℕ := 60

/-- `ServerMetricsWriter`; a prepared statement is its text. -/
structure ServerMetricsWriter where
  insertRow : Option String := none
  lastPrepareAttempt : Option ℕ := none
  insertStatement : String
  deriving DecidableEq, Repr

/-- What `write_window` meets: the two readings of `Instant::now` in `ensure_prepared`, and whether
the prepare and the insert succeed. -/
structure Answers where
  checkedAt : ℕ
  attemptedAt : ℕ
  prepares : Bool
  executes : Bool
  deriving DecidableEq, Repr

namespace ServerMetricsWriter

/-- `new`. -/
def new (config : ServerMetricsConfig) : ServerMetricsWriter where
  insertStatement :=
    "INSERT INTO server_metrics (date, slot, cpu_percent, mem_percent, disk_percent, "
      ++ "net_rx_rate, net_tx_rate, backend_mem_mb, backend_cpu_percent, "
      ++ "fareward_mem_mb, fareward_cpu_percent, scylla_mem_mb, scylla_cpu_percent) "
      ++ s!"VALUES (?, ?, ?, ?, ?, ?, ?, ?, ?, ?, ?, ?, ?) USING TTL {config.rowTtl}"

/-- `ensure_prepared`. -/
def ensurePrepared (writer : ServerMetricsWriter) (answers : Answers) :
    Bool × ServerMetricsWriter :=
  if writer.insertRow.isSome then (true, writer)
  else if writer.lastPrepareAttempt.any fun attempted =>
      answers.checkedAt - attempted < prepareRetryInterval then
    (false, writer)
  else
    let writer := { writer with lastPrepareAttempt := some answers.attemptedAt }
    if answers.prepares then (true, { writer with insertRow := some writer.insertStatement })
    else (false, writer)

end ServerMetricsWriter

/-- `row_values`. -/
def rowValues (date slot : Int16) (sample : MetricsSample) : List Int16 :=
  [date, slot, sample.cpuPercent, sample.memoryPercent, sample.diskPercent, sample.networkRxRate,
    sample.networkTxRate, sample.backend.memoryMb, sample.backend.cpuPercent,
    sample.fareward.memoryMb, sample.fareward.cpuPercent, sample.scylla.memoryMb,
    sample.scylla.cpuPercent]

/-- A call of `write_window`. -/
structure Call where
  rowIndex : ℤ
  peaks : WindowPeaks
  values : Option (List Int16)
  deriving DecidableEq, Repr

/-- The locals of the task. -/
structure Sampling where
  writer : ServerMetricsWriter
  peaks : WindowPeaks := {}
  pendingRowIndex : Option ℤ := none
  rowsWritten : ℕ := 0
  writeFailures : ℕ := 0
  calls : List Call := []
  deriving DecidableEq, Repr

/-- A tick of the loop: the wall clock, the collector and, if a window is written, the database. -/
structure Tick where
  unixSeconds : ℤ
  sample : Option MetricsSample
  answers : Answers
  deriving DecidableEq, Repr

/-- `date` in `write_window`. -/
def windowDate (rowIndex rowSeconds : ℤ) : Int16 :=
  .ofInt ((rowIndex * rowSeconds).tdiv secondsPerDay)

/-- `slot` in `write_window`. -/
def windowSlot (rowIndex rowSeconds : ℤ) : Int16 :=
  .ofInt (((rowIndex * rowSeconds).tmod secondsPerDay).tdiv rowSeconds)

namespace Sampling

/-- `write_window`. -/
def writeWindow (s : Sampling) (rowIndex rowSeconds : ℤ) (answers : Answers) : Sampling :=
  let called (values : Option (List Int16)) := s.calls ++ [⟨rowIndex, s.peaks, values⟩]
  if s.peaks.isEmpty then { s with calls := called none }
  else
    let (sample, peaks) := s.peaks.take
    match s.writer.ensurePrepared answers with
    | (false, writer) =>
      { s with writer, peaks, writeFailures := s.writeFailures + 1, calls := called none }
    | (true, writer) =>
      let values :=
        rowValues (windowDate rowIndex rowSeconds) (windowSlot rowIndex rowSeconds) sample
      match writer.insertRow with
      | none => { s with writer, peaks, calls := called none }
      | some _ =>
        if answers.executes then
          { s with writer, peaks, rowsWritten := s.rowsWritten + 1, calls := called (some values) }
        else
          { s with
            writer, peaks, writeFailures := s.writeFailures + 1, calls := called (some values) }

/-- The window of a tick. -/
def rowIndex (rowSeconds : ℤ) (tick : Tick) : ℤ := tick.unixSeconds.tdiv rowSeconds

/-- The pending window is written if it is not the one of the tick. -/
def turn (s : Sampling) (rowSeconds : ℤ) (tick : Tick) : Sampling :=
  match s.pendingRowIndex with
  | some pending =>
    if pending ≠ rowIndex rowSeconds tick then s.writeWindow pending rowSeconds tick.answers
    else s
  | none => s

/-- The accumulator after the sample of a tick. -/
def absorbTick (peaks : WindowPeaks) (tick : Tick) : WindowPeaks :=
  tick.sample.elim peaks peaks.absorb

/-- The loop at a tick. -/
def tick (s : Sampling) (rowSeconds : ℤ) (tick : Tick) : Sampling :=
  let s := s.turn rowSeconds tick
  { s with
    peaks := absorbTick s.peaks tick
    pendingRowIndex := some (rowIndex rowSeconds tick) }

/-- The loop has ended: the window in progress is written as it stands. -/
def stop (s : Sampling) (rowSeconds : ℤ) (answers : Answers) : Sampling :=
  match s.pendingRowIndex with
  | some pending => s.writeWindow pending rowSeconds answers
  | none => s

end Sampling

/-- What the `select!` of the loop returns: the shutdown channel has changed, or its sender is
gone, with the value it then holds; or the ticker has ticked. -/
inductive Event
  | changed (gone shutdown : Bool)
  | tick (tick : Tick)

/-- The loop and what follows it; `none` while it waits for more events. -/
def samplingLoop (rowSeconds : ℤ) (last : Answers) : Sampling → List Event → Option Sampling
  | _, [] => none
  | s, .changed gone shutdown :: events =>
    if gone || shutdown then some (s.stop rowSeconds last)
    else samplingLoop rowSeconds last s events
  | s, .tick tick :: events => samplingLoop rowSeconds last (s.tick rowSeconds tick) events

/-- `spawn`, with the events up to the end of the loop and the answers for the last window. -/
def spawn (config : ServerMetricsConfig) (events : List Event) (last : Answers) :
    Option Sampling :=
  samplingLoop config.rowSeconds last { writer := .new config } events

end Fareward.Sysmetrics
