import Fareward.Lib.Op
import Fareward.Limiter.Protocol
import Fareward.Limiter.Storage
import Fareward.Limiter.TimeFrame

/-!
# Quota state

The meters of `src/limiter/quota.rs` and the gates they are judged by: token buckets, the hourly
and daily counters of a subject (a company or one of its users), and the monthly and extra-pool
counters of a company with its entitlement.

An `Instant` is a number of nanoseconds. A method that can fail is an `Op` on its own state: what
it wrote before the error stays written.
-/

namespace Fareward.Limiter

/-- How an operation of the limiter can fail. -/
inductive Failure
  /-- A store call failed; `context` is the text it is reported with. -/
  | storage (context : String)
  | timeFrame (error : TimeFrameError)
  /-- A usage row does not decode; the frame is named where the source names it. -/
  | corruptUsage (timeFrame : Option Int) (error : CreditsBlobError)
  /-- A `u64` counter overflowed. -/
  | overflow (message : String)
  | message (text : String)
  | panic (message : String)
  /-- The caller dropped the future at an await. -/
  | cancelled
  deriving DecidableEq, Repr

/-- `CreditLimits`. -/
structure CreditLimits where
  tenSeconds : ℕ
  hour : ℕ
  deriving DecidableEq, Repr

/-- `ScopeLimits`. -/
structure ScopeLimits where
  cpu : CreditLimits
  inference : CreditLimits
  deriving DecidableEq, Repr

/-- `LimitPolicy`. -/
structure LimitPolicy where
  company : ScopeLimits
  user : ScopeLimits
  companyExtraDailyCpu : ℕ
  userDailySharePct : ℕ
  deriving DecidableEq, Repr

/-- One turn of the loops of `validate_policy`. -/
def validateLimits (scopeName creditName : String) (limits : CreditLimits) : Except String Unit :=
  if limits.tenSeconds = 0 then
    .error s!"rate_limit.{scopeName}_{creditName} limits must be positive"
  else if limits.hour < limits.tenSeconds then
    .error s!"rate_limit.{scopeName}_{creditName} limits must be nondecreasing from 10s to 1h"
  else .ok ()

/-- `validate_policy`. -/
def validatePolicy (policy : LimitPolicy) : Except String Unit := do
  validateLimits "company" "cpu" policy.company.cpu
  validateLimits "company" "inference" policy.company.inference
  validateLimits "user" "cpu" policy.user.cpu
  validateLimits "user" "inference" policy.user.inference
  if 2 ^ 63 - 1 < policy.companyExtraDailyCpu then
    throw "rate_limit.company_extra_credits_24h must fit a signed 64-bit database column"
  if policy.userDailySharePct = 0 ∨ 100 < policy.userDailySharePct then
    throw "rate_limit.user_daily_share_pct must be between 1 and 100"

/-- `daily_share`: multiplied before divided, and cut at `u64::MAX`. -/
def dailyShare (companyDaily percent : ℕ) : ℕ := min (companyDaily * percent / 100) u64Max

/-- `user_daily`. -/
def LimitPolicy.userDaily (p : LimitPolicy) (companyDaily : Credits) : Credits :=
  ⟨dailyShare companyDaily.cpu p.userDailySharePct,
    dailyShare companyDaily.inference p.userDailySharePct⟩

/-! ### Token buckets -/

def u128Max : ℕ := 2 ^ 128 - 1

/-- `TOKEN_PERIOD` in nanoseconds. -/
def tokenPeriod : ℕ := 10 * 10 ^ 9

/-- `capacity`. -/
def capacity (limit : ℕ) : ℕ := limit * tokenPeriod

/-- `TokenBucket`. -/
structure TokenBucket where
  scaledTokens : ℕ
  lastRefill : ℕ
  deriving DecidableEq, Repr

namespace TokenBucket

/-- `full`. -/
def full (limit now : ℕ) : TokenBucket := ⟨capacity limit, now⟩

/-- `refill`. `duration_since` is zero for an earlier instant, and `last_refill` moves to `now`
also then. -/
def refill (b : TokenBucket) (limit now : ℕ) : TokenBucket :=
  let elapsedNanos := now - b.lastRefill
  let refill := min (elapsedNanos * limit) u128Max
  ⟨min (min (b.scaledTokens + refill) u128Max) (capacity limit), now⟩

/-- `can_charge`. -/
def canCharge (b : TokenBucket) (credits : ℕ) : Bool := credits * tokenPeriod ≤ b.scaledTokens

/-- `charge`. -/
def charge (credits : ℕ) : Op Failure TokenBucket Unit := do
  let b ← get
  if credits * tokenPeriod ≤ b.scaledTokens then
    set { b with scaledTokens := b.scaledTokens - credits * tokenPeriod }
  else throw (.panic "attempt to subtract with overflow")

end TokenBucket

/-- `exceeds`. -/
def exceeds (current requested limit : ℕ) : Bool :=
  match checkedU64 (current + requested) with
  | some total => limit < total
  | none => true

/-- A violation of the window if one of the dimensions is over. -/
def violationOf (scope : Scope) (window : Window) (cpu inference : Bool) : Option LimitViolation :=
  if cpu || inference then some ⟨scope, window, cpu, inference⟩ else none

/-- `fixed_limit_violation`. -/
def fixedLimitViolation (scope : Scope) (window : Window) (current requested limit : Credits) :
    Option LimitViolation :=
  violationOf scope window (exceeds current.cpu requested.cpu limit.cpu)
    (exceeds current.inference requested.inference limit.inference)

/-- `checked_add` on a counter, with the text of the error. -/
def addCredits (message : String) (c increment : Credits) : Except Failure Credits :=
  match c.checkedAdd increment with
  | some total => .ok total
  | none => .error (.overflow message)

/-- `checked_add` on a `u64`, with the text of the error. -/
def addU64 (message : String) (x y : ℕ) : Except Failure ℕ :=
  match checkedU64 (x + y) with
  | some total => .ok total
  | none => .error (.overflow message)

/-! ### Subjects -/

/-- `SubjectState`. -/
structure SubjectState where
  cpuBucket : TokenBucket
  inferenceBucket : TokenBucket
  hourPeriod : Int
  /-- Local business day. -/
  dayPeriod : Int
  hourUsed : Credits
  dayUsed : Credits
  deriving DecidableEq, Repr

namespace SubjectState

/-- The bucket of one dimension. -/
def bucket (s : SubjectState) : Resource → TokenBucket
  | .cpu => s.cpuBucket
  | .inference => s.inferenceBucket

/-- `recovered`. -/
def recovered (limits : ScopeLimits) (unixSeconds dayPeriod : Int) (now : ℕ)
    (hourUsed dayUsed : Credits) : SubjectState where
  cpuBucket := .full limits.cpu.tenSeconds now
  inferenceBucket := .full limits.inference.tenSeconds now
  hourPeriod := unixSeconds / 3600
  dayPeriod := dayPeriod
  hourUsed := hourUsed
  dayUsed := dayUsed

/-- `refresh_periods`. -/
def refreshPeriods (s : SubjectState) (limits : ScopeLimits) (unixSeconds dayPeriod : Int)
    (now : ℕ) : SubjectState where
  cpuBucket := s.cpuBucket.refill limits.cpu.tenSeconds now
  inferenceBucket := s.inferenceBucket.refill limits.inference.tenSeconds now
  hourPeriod := unixSeconds / 3600
  hourUsed := if s.hourPeriod ≠ unixSeconds / 3600 then .zero else s.hourUsed
  dayPeriod := dayPeriod
  dayUsed := if s.dayPeriod ≠ dayPeriod then .zero else s.dayUsed

/-- `violation`. -/
def violation (s : SubjectState) (scope : Scope) (window : Window) (limits : ScopeLimits)
    (requested : Credits) : Option LimitViolation :=
  match window with
  | .tenSeconds =>
    violationOf scope window (!s.cpuBucket.canCharge requested.cpu)
      (!s.inferenceBucket.canCharge requested.inference)
  | .hour =>
    violationOf scope window (exceeds s.hourUsed.cpu requested.cpu limits.cpu.hour)
      (exceeds s.hourUsed.inference requested.inference limits.inference.hour)
  | .day | .month => violationOf scope window false false

def chargeCpuBucket (credits : ℕ) : Op Failure SubjectState Unit :=
  .onEntry (fun s => some s.cpuBucket) (fun s cpuBucket => { s with cpuBucket })
    (.panic "unreachable") (TokenBucket.charge credits)

def chargeInferenceBucket (credits : ℕ) : Op Failure SubjectState Unit :=
  .onEntry (fun s => some s.inferenceBucket) (fun s inferenceBucket => { s with inferenceBucket })
    (.panic "unreachable") (TokenBucket.charge credits)

/-- `charge`; `countDaily` is false for a charge that the extra pool pays. -/
def charge (requested : Credits) (countDaily : Bool) : Op Failure SubjectState Unit := do
  chargeCpuBucket requested.cpu
  chargeInferenceBucket requested.inference
  let s ← get
  let hourUsed ← .lift (addCredits "hour usage overflowed uint64" s.hourUsed requested)
  set { s with hourUsed }
  if countDaily then
    let s ← get
    let dayUsed ← .lift (addCredits "daily usage overflowed uint64" s.dayUsed requested)
    set { s with dayUsed }

end SubjectState

/-! ### Company budgets -/

/-- `sunix_time`; division truncates towards zero. -/
def sunixTime (unixSeconds : Int) : Except Failure Int :=
  let sunix := (unixSeconds - 1000000000).tdiv 2
  if -TimeFrame.i32Max - 1 ≤ sunix ∧ sunix ≤ TimeFrame.i32Max then .ok sunix
  else .error (.message "SUnix timestamp does not fit in int32")

/-- `CompanyBudgetState`. -/
structure CompanyBudgetState where
  stored : StoredBudget
  usageMonthStartDay : Int
  monthUsed : Credits
  /-- Local business day of `dayExtraUsed`. -/
  extraDayPeriod : Int
  dayExtraUsed : ℕ
  monthExtraUsed : ℕ
  version : ℕ
  flushedVersion : ℕ
  deriving DecidableEq, Repr

namespace CompanyBudgetState

/-- `refresh_month`. -/
def refreshMonth (b : CompanyBudgetState) (currentMonthStartDay : Int) : CompanyBudgetState :=
  if b.usageMonthStartDay ≠ currentMonthStartDay then
    { b with usageMonthStartDay := currentMonthStartDay, monthUsed := .zero, monthExtraUsed := 0 }
  else b

/-- `refresh_day`. -/
def refreshDay (b : CompanyBudgetState) (currentDayPeriod : Int) : CompanyBudgetState :=
  if b.extraDayPeriod ≠ currentDayPeriod then
    { b with extraDayPeriod := currentDayPeriod, dayExtraUsed := 0 }
  else b

/-- `extra_grant`. -/
def extraGrant (b : CompanyBudgetState) (requested : Credits) (pool : ℕ) : Option ℕ :=
  if pool = 0 ∨ 0 < requested.inference ∨ requested.cpu = 0 then none
  else do
    let total ← checkedU64 (b.dayExtraUsed + requested.cpu)
    if total ≤ pool then some requested.cpu else none

/-- `add_extra_used`. -/
def addExtraUsed (cpu : ℕ) : Op Failure CompanyBudgetState Unit := do
  let b ← get
  let dayExtraUsed ← .lift (addU64 "daily extra usage overflowed uint64" b.dayExtraUsed cpu)
  set { b with dayExtraUsed }
  let b ← get
  let monthExtraUsed ← .lift (addU64 "monthly extra usage overflowed uint64" b.monthExtraUsed cpu)
  set { b with monthExtraUsed }
  let b ← get
  let version ← .lift (addU64 "budget usage mutation version overflowed uint64" b.version 1)
  set { b with version }

/-- `add_month_used`. -/
def addMonthUsed (credits : Credits) : Op Failure CompanyBudgetState Unit := do
  let b ← get
  let monthUsed ← .lift (addCredits "monthly usage overflowed uint64" b.monthUsed credits)
  set { b with monthUsed }
  let b ← get
  let version ← .lift (addU64 "budget usage mutation version overflowed uint64" b.version 1)
  set { b with version }

/-- `usage_snapshot`: the row to flush, if something was charged since the last write. -/
def usageSnapshot (b : CompanyBudgetState) (companyId : Int) (dayUsed : Credits)
    (dayPeriod unixSeconds : Int) : Except Failure (Option (StoredBudgetUsage × ℕ)) :=
  if b.version = b.flushedVersion then .ok none
  else if -TimeFrame.i16Max - 1 ≤ dayPeriod ∧ dayPeriod ≤ TimeFrame.i16Max then do
    let updated ← sunixTime unixSeconds
    return some ({
      companyId
      dayPeriod
      dayUsed
      monthStartDay := b.usageMonthStartDay
      monthUsed := b.monthUsed
      dayExtraCpu := b.dayExtraUsed
      monthExtraCpu := b.monthExtraUsed
      updated }, b.version)
  else .error (.message "local business day does not fit int16")

/-- `mark_usage_flushed`. -/
def markUsageFlushed (b : CompanyBudgetState) (version : ℕ) : CompanyBudgetState :=
  if b.version = version then { b with flushedVersion := version } else b

/-- `monthly_violation`: a dimension that is not requested is not judged. -/
def monthlyViolation (b : CompanyBudgetState) (requested : Credits) : Option LimitViolation :=
  let active : Bool := b.stored.budgetMonthStartDay = b.usageMonthStartDay
  violationOf .company .month
    (0 < requested.cpu &&
      (!active || exceeds b.monthUsed.cpu requested.cpu b.stored.monthlyCeiling.cpu))
    (0 < requested.inference &&
      (!active ||
        exceeds b.monthUsed.inference requested.inference b.stored.monthlyCeiling.inference))

end CompanyBudgetState

end Fareward.Limiter
