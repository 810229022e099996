import Fareward.Limiter.Budget
import Fareward.Limiter.Storage

/-!
# The row of `company_credit_budget`

`load_budget`, `upsert_budget` and `upsert_budget_usage` of `ScyllaLimiterStore` in
`src/limiter/storage.rs`, down to the cells of the row. The two writes are `INSERT`s that name
disjoint columns of one row: a cell that a statement does not name keeps its value, and is null on a
row that did not exist. The read decodes some of the cells as nullable; a null in one of the others
is an error of the driver.

`Limiter/Storage.lean` is the same table as the limiter sees it, one half of the row at a time.
-/

namespace Fareward.Limiter

/-- The cells of a row; `none` is a null. -/
@[ext]
structure BudgetCells where
  dailyCpu : Option Int
  dailyInference : Option Int
  budgetMonthStartDay : Option Int
  monthlyCpuCeiling : Option Int
  monthlyInferenceCeiling : Option Int
  lastSetCpu : Option Int
  lastSetInference : Option Int
  updated : Option Int
  usageDayPeriod : Option Int
  dayCpuUsed : Option Int
  dayInferenceUsed : Option Int
  usageMonthStartDay : Option Int
  monthCpuUsed : Option Int
  monthInferenceUsed : Option Int
  dayExtraCpuUsed : Option Int
  monthExtraCpuUsed : Option Int
  usageUpdated : Option Int
  deriving DecidableEq, Repr

/-- A row nothing has been written to. -/
def BudgetCells.null : BudgetCells :=
  ⟨none, none, none, none, none, none, none, none, none, none, none, none, none, none, none, none,
    none⟩

/-- The table: the rows by company. -/
abbrev BudgetTable := Int → Option BudgetCells

/-- `i64::try_from(..).context(..)`. -/
def toBigint (context : String) (value : ℕ) : Except String Int :=
  if value ≤ i64MaxNat then .ok value else .error context

/-- A cell that is decoded as not nullable. -/
def required : Option Int → Except String Int
  | some value => .ok value
  | none => .error "company_credit_budget row decode failed"

namespace BudgetTable

/-- `upsert_budget`. -/
def upsertBudget (table : BudgetTable) (budget : StoredBudget) : Except String BudgetTable := do
  let dailyCpu ← toBigint "daily CPU budget exceeds int64" budget.daily.cpu
  let dailyInference ← toBigint "daily inference budget exceeds int64" budget.daily.inference
  let monthlyCpu ← toBigint "monthly CPU ceiling exceeds int64" budget.monthlyCeiling.cpu
  let monthlyInference ←
    toBigint "monthly inference ceiling exceeds int64" budget.monthlyCeiling.inference
  let lastSetCpu ← toBigint "last set CPU credits exceed int64" budget.lastSet.cpu
  let lastSetInference ← toBigint "last set inference credits exceed int64" budget.lastSet.inference
  return Function.update table budget.companyId (some
    { (table budget.companyId).getD .null with
      dailyCpu
      dailyInference
      budgetMonthStartDay := budget.budgetMonthStartDay
      monthlyCpuCeiling := monthlyCpu
      monthlyInferenceCeiling := monthlyInference
      lastSetCpu
      lastSetInference
      updated := budget.updated })

/-- `upsert_budget_usage`. -/
def upsertBudgetUsage (table : BudgetTable) (usage : StoredBudgetUsage) :
    Except String BudgetTable := do
  let dayCpu ← toBigint "daily CPU usage exceeds int64" usage.dayUsed.cpu
  let dayInference ← toBigint "daily inference usage exceeds int64" usage.dayUsed.inference
  let monthCpu ← toBigint "monthly CPU usage exceeds int64" usage.monthUsed.cpu
  let monthInference ← toBigint "monthly inference usage exceeds int64" usage.monthUsed.inference
  let dayExtraCpu ← toBigint "daily extra CPU usage exceeds int64" usage.dayExtraCpu
  let monthExtraCpu ← toBigint "monthly extra CPU usage exceeds int64" usage.monthExtraCpu
  return Function.update table usage.companyId (some
    { (table usage.companyId).getD .null with
      usageDayPeriod := usage.dayPeriod
      dayCpuUsed := dayCpu
      dayInferenceUsed := dayInference
      usageMonthStartDay := usage.monthStartDay
      monthCpuUsed := monthCpu
      monthInferenceUsed := monthInference
      dayExtraCpuUsed := dayExtraCpu
      monthExtraCpuUsed := monthExtraCpu
      usageUpdated := usage.updated })

/-- `load_budget` on a row: the decoded tuple, checked and put together. -/
def decodeRow (companyId : Int) (cells : BudgetCells) : Except String StoredBudgetRow := do
  let dailyCpu ← required cells.dailyCpu
  let dailyInference ← required cells.dailyInference
  let monthStart ← required cells.budgetMonthStartDay
  let monthlyCpu ← required cells.monthlyCpuCeiling
  let monthlyInference ← required cells.monthlyInferenceCeiling
  let lastSetCpu := cells.lastSetCpu.getD 0
  let lastSetInference := cells.lastSetInference.getD 0
  let updated ← required cells.updated
  let extraDayCpu := cells.dayExtraCpuUsed.getD 0
  let extraMonthCpu := cells.monthExtraCpuUsed.getD 0
  if [dailyCpu, dailyInference, monthlyCpu, monthlyInference, lastSetCpu, lastSetInference,
      extraDayCpu, extraMonthCpu].any (· < 0) then
    throw "company_credit_budget contains negative credits"
  return {
    budget := {
      companyId
      daily := ⟨dailyCpu.toNat, dailyInference.toNat⟩
      budgetMonthStartDay := monthStart
      monthlyCeiling := ⟨monthlyCpu.toNat, monthlyInference.toNat⟩
      lastSet := ⟨lastSetCpu.toNat, lastSetInference.toNat⟩
      updated }
    extra := {
      dayPeriod := cells.usageDayPeriod.getD 0
      dayCpu := extraDayCpu.toNat
      monthStartDay := cells.usageMonthStartDay.getD 0
      monthCpu := extraMonthCpu.toNat } }

/-- `load_budget`. -/
def loadBudget (table : BudgetTable) (companyId : Int) : Except String (Option StoredBudgetRow) :=
  match table companyId with
  | none => .ok none
  | some cells => return some (← decodeRow companyId cells)

end BudgetTable

/-- A write to the table. -/
inductive BudgetWrite
  | budget (budget : StoredBudget)
  | usage (usage : StoredBudgetUsage)
  deriving DecidableEq, Repr

/-- The write as a statement; a value that does not fit its column fails before it is sent. -/
def BudgetTable.write (table : BudgetTable) : BudgetWrite → Except String BudgetTable
  | .budget budget => table.upsertBudget budget
  | .usage usage => table.upsertBudgetUsage usage

/-- The table after a sequence of writes, oldest first; one that fails changes nothing. -/
def BudgetTable.writeAll (table : BudgetTable) : List BudgetWrite → BudgetTable
  | [] => table
  | w :: writes =>
    match table.write w with
    | .ok table' => table'.writeAll writes
    | .error _ => table.writeAll writes

end Fareward.Limiter
