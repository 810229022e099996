import Fareward.Lib.Decimal
import Mathlib.Algebra.Group.Nat.Defs

/-!
# The settings of the metrics

`load_server_metrics` of `src/config.rs`. `valueText` stands for `value_text`, the text of a
setting under its environment key or its TOML path. Durations are in seconds.
-/

namespace Fareward.Sysmetrics

/-- `ServerMetricsConfig`. -/
structure ServerMetricsConfig where
  enabled : Bool
  sampleInterval : ℕ
  rowSeconds : ℤ
  rowTtl : ℕ
  diskMount : String
  networkInterface : String
  backendUnit : String
  farewardUnit : String
  scyllaUnit : String
  deriving DecidableEq, Repr

def defaultServerMetricsSampleSeconds : ℕ := 1
def defaultServerMetricsRowSeconds : ℕ := 5
def defaultServerMetricsTtlDays : ℕ := 30
def minimumServerMetricsRowSeconds : ℕ := 3
def defaultServerMetricsBackendUnit : String := "genix.service"
def defaultServerMetricsFarewardUnit : String := "fareward.service"
def defaultServerMetricsScyllaUnit : String := "scylla-server.service"

/-- `str::parse::<u64>`. -/
def parseU64 (text : String) : Option ℕ :=
  let digits := match text.toList with
    | '+' :: digits => digits
    | digits => digits
  (Decimal.parseDigits digits).filter (· < 2 ^ 64)

/-- `optional_u64`. -/
def optionalU64 (valueText : String → String → Option String) (envKey tomlPath : String) :
    Except String (Option ℕ) :=
  match valueText envKey tomlPath with
  | none => .ok none
  | some value =>
    match parseU64 value with
    | some number => .ok (some number)
    | none => .error s!"{tomlPath}/{envKey} must be an unsigned integer"

/-- `load_server_metrics`. -/
def loadServerMetrics (valueText : String → String → Option String) :
    Except String ServerMetricsConfig := do
  let sampleSeconds := (← optionalU64 valueText "SERVER_METRICS_SAMPLE_SECONDS"
    "server_metrics.sample_seconds").getD defaultServerMetricsSampleSeconds
  let rowSeconds := (← optionalU64 valueText "SERVER_METRICS_ROW_SECONDS"
    "server_metrics.row_seconds").getD defaultServerMetricsRowSeconds
  let ttlDays := (← optionalU64 valueText "SERVER_METRICS_TTL_DAYS"
    "server_metrics.ttl_days").getD defaultServerMetricsTtlDays
  if sampleSeconds = 0 ∨ ttlDays = 0 then
    .error "server_metrics.sample_seconds and ttl_days must be positive"
  else if rowSeconds < minimumServerMetricsRowSeconds ∨ 86400 % rowSeconds ≠ 0 then
    .error (s!"server_metrics.row_seconds must divide 86400 evenly and be at least "
      ++ s!"{minimumServerMetricsRowSeconds}")
  else if rowSeconds % sampleSeconds ≠ 0 ∨ rowSeconds < sampleSeconds then
    .error "server_metrics.sample_seconds must divide server_metrics.row_seconds evenly"
  else if 2 ^ 64 ≤ ttlDays * 86400 ∨ 2 ^ 31 ≤ ttlDays * 86400 then
    .error "server_metrics.ttl_days is too large for a ScyllaDB TTL"
  else
    let unitName (envKey tomlPath default : String) := (valueText envKey tomlPath).getD default
    .ok {
      enabled := (valueText "SERVER_METRICS_ENABLED" "server_metrics.enabled").all fun value =>
        value = "1" ∨ value.toLower = "true"
      sampleInterval := sampleSeconds
      rowSeconds := rowSeconds
      rowTtl := ttlDays * 86400
      diskMount :=
        (valueText "SERVER_METRICS_DISK_MOUNT" "server_metrics.disk_mount").getD "/"
      networkInterface :=
        (valueText "SERVER_METRICS_NETWORK_INTERFACE" "server_metrics.network_interface").getD ""
      backendUnit := unitName "SERVER_METRICS_BACKEND_UNIT" "server_metrics.backend_unit"
        defaultServerMetricsBackendUnit
      farewardUnit := unitName "SERVER_METRICS_FAREWARD_UNIT" "server_metrics.fareward_unit"
        defaultServerMetricsFarewardUnit
      scyllaUnit := unitName "SERVER_METRICS_SCYLLA_UNIT" "server_metrics.scylla_unit"
        defaultServerMetricsScyllaUnit }

end Fareward.Sysmetrics
