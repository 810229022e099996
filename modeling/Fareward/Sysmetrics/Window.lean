import Mathlib.Data.Nat.Notation

/-!
# Samples of the machine and the peaks of a window

`src/sysmetrics/mod.rs`: what is read of the machine in one go, and the accumulator that keeps, in
each column, the highest value read in a window. A column that could not be read holds
`NOT_MEASURED`.

`absorbed` is a `u32` and goes round. How the values are read and scaled is not part of the model.
-/

namespace Fareward.Sysmetrics

/-- `NOT_MEASURED`. -/
def notMeasured : Int16 := -1

/-- `ServiceSample`. -/
structure ServiceSample where
  memoryMb : Int16 := notMeasured
  cpuPercent : Int16 := notMeasured
  deriving DecidableEq, Repr

/-- `MetricsSample`. -/
structure MetricsSample where
  cpuPercent : Int16 := notMeasured
  memoryPercent : Int16 := notMeasured
  diskPercent : Int16 := notMeasured
  networkRxRate : Int16 := notMeasured
  networkTxRate : Int16 := notMeasured
  backend : ServiceSample := {}
  fareward : ServiceSample := {}
  scylla : ServiceSample := {}
  deriving DecidableEq, Repr

/-- `WindowPeaks`. -/
structure WindowPeaks where
  peaks : MetricsSample := {}
  absorbed : UInt32 := 0
  deriving DecidableEq, Repr

/-- `peak`. -/
def peak (current candidate : Int16) : Int16 :=
  if candidate = notMeasured then current
  else if current = notMeasured then candidate
  else max current candidate

/-- `peak_service`. -/
def peakService (current candidate : ServiceSample) : ServiceSample where
  memoryMb := peak current.memoryMb candidate.memoryMb
  cpuPercent := peak current.cpuPercent candidate.cpuPercent

namespace WindowPeaks

/-- `absorb`. -/
def absorb (window : WindowPeaks) (sample : MetricsSample) : WindowPeaks :=
  let current := window.peaks
  { peaks :=
      { cpuPercent := peak current.cpuPercent sample.cpuPercent
        memoryPercent := peak current.memoryPercent sample.memoryPercent
        diskPercent := peak current.diskPercent sample.diskPercent
        networkRxRate := peak current.networkRxRate sample.networkRxRate
        networkTxRate := peak current.networkTxRate sample.networkTxRate
        backend := peakService current.backend sample.backend
        fareward := peakService current.fareward sample.fareward
        scylla := peakService current.scylla sample.scylla }
    absorbed := window.absorbed + 1 }

/-- `is_empty`. -/
def isEmpty (window : WindowPeaks) : Bool := window.absorbed == 0

/-- `take`: the peaks, and the accumulator that is left. -/
def take (window : WindowPeaks) : MetricsSample × WindowPeaks := (window.peaks, {})

end WindowPeaks

end Fareward.Sysmetrics
