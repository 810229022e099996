import Fareward.Limiter.Access
import Fareward.Limiter.Aggregation
import Mathlib.Logic.Function.Basic

/-!
# The limiter's durable store

The rows and the reads and writes of the `LimiterStore` trait of `src/limiter/storage.rs`. A store
returns each usage row, and each of the two halves of a budget row, as it was last written; a half
nobody has written reads as its default. The users table is written elsewhere.
-/

namespace Fareward.Limiter

/-- `StoredBudget`: the entitlement half of a budget row. -/
@[ext]
structure StoredBudget where
  companyId : Int
  daily : Credits
  budgetMonthStartDay : Int
  monthlyCeiling : Credits
  /-- What the last "set current" granted, with the increases since. -/
  lastSet : Credits
  updated : Int
  deriving DecidableEq, Repr

/-- `StoredBudget::default()`. -/
def StoredBudget.empty : StoredBudget := ⟨0, .zero, 0, .zero, .zero, 0⟩

/-- `StoredExtraUsage`: the extra-pool counters of a budget row with their periods. -/
structure StoredExtraUsage where
  dayPeriod : Int
  dayCpu : ℕ
  monthStartDay : Int
  monthCpu : ℕ
  deriving DecidableEq, Repr

/-- `StoredExtraUsage::default()`. -/
def StoredExtraUsage.empty : StoredExtraUsage := ⟨0, 0, 0, 0⟩

/-- `StoredBudgetRow`. -/
structure StoredBudgetRow where
  budget : StoredBudget
  extra : StoredExtraUsage
  deriving DecidableEq, Repr

/-- `StoredBudgetUsage`: the usage half of a budget row. -/
structure StoredBudgetUsage where
  companyId : Int
  dayPeriod : Int
  dayUsed : Credits
  monthStartDay : Int
  monthUsed : Credits
  dayExtraCpu : ℕ
  monthExtraCpu : ℕ
  updated : Int
  deriving DecidableEq, Repr

/-- The columns of the usage half that `load_budget` reads back. -/
def StoredBudgetUsage.extra (u : StoredBudgetUsage) : StoredExtraUsage :=
  ⟨u.dayPeriod, u.dayExtraCpu, u.monthStartDay, u.monthExtraCpu⟩

/-- `LimiterStore`: what the tables hold. -/
@[ext]
structure LimiterStore where
  usage : UsageKey → Option (List UInt8)
  budgets : Int → Option StoredBudget
  budgetUsages : Int → Option StoredBudgetUsage
  users : Int × Int → Option StoredUserAccess

namespace LimiterStore

def empty : LimiterStore := ⟨fun _ => none, fun _ => none, fun _ => none, fun _ => none⟩

/-- `load_exact`. -/
def loadExact (s : LimiterStore) (key : UsageKey) : Option (List UInt8) := s.usage key

/-- The frames `first, first + 1, …, last`. -/
def framesBetween (first last : Int) : List Int :=
  (List.range (last - first + 1).toNat).map fun i : ℕ => first + i

/-- `load_range`: the rows of a subject between two frames, in clustering order. -/
def loadRange (s : LimiterStore) (companyId userId first last : Int) :
    List (Int × List UInt8) :=
  (framesBetween first last).filterMap fun timeFrame =>
    (s.usage ⟨companyId, userId, timeFrame⟩).map fun usedCredits => (timeFrame, usedCredits)

/-- `upsert`. -/
def upsert (s : LimiterStore) (key : UsageKey) (usedCredits : List UInt8) : LimiterStore :=
  { s with usage := Function.update s.usage key (some usedCredits) }

/-- `load_budget`. -/
def loadBudget (s : LimiterStore) (companyId : Int) : Option StoredBudgetRow :=
  match s.budgets companyId, s.budgetUsages companyId with
  | none, none => none
  | budget, usage => some ⟨budget.getD .empty, (usage.map (·.extra)).getD .empty⟩

/-- `upsert_budget`: the entitlement columns. -/
def upsertBudget (s : LimiterStore) (budget : StoredBudget) : LimiterStore :=
  { s with budgets := Function.update s.budgets budget.companyId (some budget) }

/-- `upsert_budget_usage`: the usage columns. -/
def upsertBudgetUsage (s : LimiterStore) (usage : StoredBudgetUsage) : LimiterStore :=
  { s with budgetUsages := Function.update s.budgetUsages usage.companyId (some usage) }

/-- `load_user_access`. -/
def loadUserAccess (s : LimiterStore) (companyId userId : Int) : Option StoredUserAccess :=
  s.users (companyId, userId)

end LimiterStore

end Fareward.Limiter
