import Fareward.Lib.Finmap
import Fareward.Limiter.Budget
import Fareward.Limiter.Quota

/-!
# The rate limiter

`RateLimiter` of `src/limiter/quota.rs`: admission of charges (`admitAt`), budget mutations
(`mutateBudgetAt`) and access invalidation. The flush is in `Limiter/Flush.lean`.

The maps of the shards are one map each here; `Config.shardIndex` says to which shard a company
belongs. Each of these calls holds the mutex of its shard from its first await to its end, so a
call is one `Op`. What runs meanwhile works on other shards, or writes rows that the call does not
read: a row is written only while its record is in memory, and read only while it is not.

What the environment does at each await of a call is its `Fates`: a store call succeeds or fails,
and a future can be dropped at any of them.
-/

namespace Fareward.Limiter

/-- `PLATFORM_AGGREGATE_COMPANY_ID`. -/
def platformAggregateCompanyId : Int := 0

/-- `Decision`. -/
inductive Decision
  | allowed (verdict : AccessVerdict)
  | creditViolation (violation : LimitViolation)
  | accessDenied (denial : AccessDenial)
  deriving DecidableEq, Repr

/-- What an admission answered. `extraCpu` is what the extra pool paid, as logged. -/
structure Admission where
  decision : Decision
  extraCpu : ℕ
  deriving DecidableEq, Repr

/-- The parameters of `RateLimiter::new`. -/
structure Config where
  shardCount : ℕ
  policy : LimitPolicy
  accessCacheSeconds : Int
  deriving DecidableEq, Repr

/-- The number of shards. -/
def Config.shards (config : Config) : ℕ := max config.shardCount 1

/-- `company_id as usize % self.shards.len()`. -/
def Config.shardIndex (config : Config) (companyId : Int) : ℕ :=
  (companyId % 2 ^ 64).toNat % config.shards

/-- What `RateLimiter` keeps in memory. -/
@[ext]
structure RateLimiter where
  subjects : Finmap fun _ : Int × Int => SubjectState
  budgets : Finmap fun _ : Int => CompanyBudgetState
  usage : UsageMap
  access : Finmap fun _ : Int × Int => UserAccessState
  platformUsage : UsageMap

/-- `RateLimiter::new`: nothing is loaded. -/
def RateLimiter.new : RateLimiter := ⟨∅, ∅, ∅, ∅, ∅⟩

/-- The memory of the process and the store. -/
@[ext]
structure Process where
  limiter : RateLimiter
  store : LimiterStore

/-- The awaits of `admit_at` and `mutate_budget_at`. -/
inductive Await
  | shard
  | userAccess
  | budget
  | monthRows
  | dailyRow (userId : Int)
  | hourRows (userId : Int)
  | platform
  | platformRow
  | budgetWrite
  deriving DecidableEq, Repr

/-- What happens at an await. `landed` says whether a write took effect nevertheless. -/
inductive Fate
  | done
  | failed (landed : Bool)
  | cancelled (landed : Bool)
  deriving DecidableEq, Repr

abbrev Fates := Await → Fate

/-- A call of the limiter. -/
abbrev Call := Op Failure Process

/-- The await of a store call, with the context its error is given. -/
def Fates.read (fates : Fates) (point : Await) (context : String) : Except Failure Unit :=
  match fates point with
  | .done => .ok ()
  | .failed _ => .error (.storage context)
  | .cancelled _ => .error .cancelled

/-- The await of a lock: the only thing that can happen to it is that the future is dropped. -/
def Fates.lock (fates : Fates) (point : Await) : Except Failure Unit :=
  match fates point with
  | .cancelled _ => .error .cancelled
  | _ => .ok ()

def frameResult {α : Type} (r : Except TimeFrameError α) : Except Failure α :=
  r.mapError .timeFrame

def blobResult {α : Type} (timeFrame : Option Int) (r : Except CreditsBlobError α) :
    Except Failure α :=
  r.mapError (.corruptUsage timeFrame)

/-- `decode_optional`. -/
def decodeOptional : Option (List UInt8) → Except Failure RoutedCredits
  | none => .ok ∅
  | some encoded => blobResult none (CreditsBlob.decode encoded)

/-- One turn of the loops over recovered rows: the totals of the row and the sum so far. -/
def addRow (overflow : String) (total : Credits) (row : Int × List UInt8) :
    Except Failure (RoutedCredits × Credits) := do
  let routes ← blobResult (some row.1) (CreditsBlob.decode row.2)
  let sum ← blobResult none (CreditsBlob.sum routes)
  let total ← addCredits overflow total sum
  return (routes, total)

/-- The loop over the monthly rows in `ensure_budget`. -/
def sumRows : Credits → List (Int × List UInt8) → Except Failure Credits
  | total, [] => .ok total
  | total, row :: rows => do
    let (_, total) ← addRow "recovered monthly usage overflowed uint64" total row
    sumRows total rows

/-- What `ensure_budget` builds from the store on a cold miss. -/
def recoverBudget (fates : Fates) (store : LimiterStore) (companyId unixSeconds : Int) :
    Except Failure CompanyBudgetState := do
  let currentMonthStartDay ← frameResult (TimeFrame.monthStartDay unixSeconds)
  let currentDayPeriod ← frameResult (TimeFrame.localUnixDay unixSeconds)
  fates.read .budget "failed to initialize company credit budget"
  let row := (store.loadBudget companyId).getD ⟨.empty, .empty⟩
  let stored := { row.budget with companyId }
  -- a counter of another period is a counter of a window nothing was charged in
  let dayExtraUsed := if row.extra.dayPeriod = currentDayPeriod then row.extra.dayCpu else 0
  let monthExtraUsed :=
    if row.extra.monthStartDay = currentMonthStartDay then row.extra.monthCpu else 0
  let currentDailyTimeFrame ← frameResult (TimeFrame.daily unixSeconds)
  fates.read .monthRows "failed to initialize monthly company usage"
  let monthlyRows := store.loadRange companyId companyAggregateUserId
    (TimeFrame.dailyPrefix + currentMonthStartDay) currentDailyTimeFrame
  let monthUsed ← sumRows .zero monthlyRows
  return {
    stored
    usageMonthStartDay := currentMonthStartDay
    monthUsed := { monthUsed with cpu := monthUsed.cpu - monthExtraUsed }
    extraDayPeriod := currentDayPeriod
    dayExtraUsed
    monthExtraUsed
    version := 0
    flushedVersion := 0 }

/-- `platform_usage_key`. -/
def platformUsageKey (unixSeconds : Int) : Except Failure UsageKey := do
  let timeFrame ← frameResult (TimeFrame.fiveMinute unixSeconds)
  return ⟨platformAggregateCompanyId, companyAggregateUserId, timeFrame⟩

namespace RateLimiter

/-! ### The maps -/

def setSubject (l : RateLimiter) (key : Int × Int) (s : SubjectState) : RateLimiter :=
  { l with subjects := l.subjects.insert key s }

def setBudget (l : RateLimiter) (companyId : Int) (b : CompanyBudgetState) : RateLimiter :=
  { l with budgets := l.budgets.insert companyId b }

def setUsage (l : RateLimiter) (usage : UsageMap) : RateLimiter := { l with usage }

/-- `merge_loaded` on the usage map. -/
def mergeUsage (l : RateLimiter) (key : UsageKey) (routes : RoutedCredits) : RateLimiter :=
  l.setUsage (mergeLoaded l.usage key routes)

def setAccess (l : RateLimiter) (key : Int × Int) (a : UserAccessState) : RateLimiter :=
  { l with access := l.access.insert key a }

def setPlatformUsage (l : RateLimiter) (platformUsage : UsageMap) : RateLimiter :=
  { l with platformUsage }

end RateLimiter

def modifyLimiter (f : RateLimiter → RateLimiter) : Call Unit :=
  modify fun p => { p with limiter := f p.limiter }

/-- `subjects.get_mut(&key).expect(..)` and a method of what it finds. -/
def onSubject (key : Int × Int) (expect : String) (x : Op Failure SubjectState Unit) : Call Unit :=
  .onEntry (fun p => p.limiter.subjects.lookup key)
    (fun p s => { p with limiter := p.limiter.setSubject key s }) (.panic expect) x

/-- `budgets.get_mut(&company_id).expect(..)` and a method of what it finds. -/
def onBudget (companyId : Int) (x : Op Failure CompanyBudgetState Unit) : Call Unit :=
  .onEntry (fun p => p.limiter.budgets.lookup companyId)
    (fun p b => { p with limiter := p.limiter.setBudget companyId b })
    (.panic "company budget initialized") x

/-- A lookup with `expect`. -/
def expectSome {α : Type} (message : String) : Option α → Except Failure α
  | some a => .ok a
  | none => .error (.panic message)

/-! ### Loading -/

section

variable (config : Config) (fates : Fates)

/-- `ensure_access`. -/
def ensureAccess (companyId userId unixSeconds : Int) : Call Unit := do
  let p ← get
  let cached := p.limiter.access.lookup (companyId, userId)
  if cached.any (·.isFresh unixSeconds config.accessCacheSeconds) then return ()
  .lift (fates.read .userAccess "failed to load user access grants")
  let row := p.store.loadUserAccess companyId userId
  let state ← .lift ((UserAccessState.fromRow row unixSeconds).mapError .message)
  modifyLimiter (·.setAccess (companyId, userId) state)

/-- `ensure_budget`. -/
def ensureBudget (companyId unixSeconds : Int) : Call Unit := do
  let p ← get
  if (p.limiter.budgets.lookup companyId).isSome then return ()
  let budget ← .lift (recoverBudget fates p.store companyId unixSeconds)
  modifyLimiter (·.setBudget companyId budget)

/-- The loop over the hourly rows in `ensure_subject`. -/
def mergeRows (companyId userId : Int) : Credits → List (Int × List UInt8) → Call Credits
  | hourUsed, [] => return hourUsed
  | hourUsed, row :: rows => do
    let (routes, hourUsed) ← .lift (addRow "recovered hour usage overflowed uint64" hourUsed row)
    modifyLimiter (·.mergeUsage ⟨companyId, userId, row.1⟩ routes)
    mergeRows companyId userId hourUsed rows

/-- `ensure_subject`. -/
def ensureSubject (companyId userId : Int) (limits : ScopeLimits) (unixSeconds : Int) (now : ℕ)
    (dayExtraCpuFromPool : ℕ) : Call Unit := do
  let p ← get
  if (p.limiter.subjects.lookup (companyId, userId)).isSome then return ()
  let dailyTimeFrame ← .lift (frameResult (TimeFrame.daily unixSeconds))
  let dailyKey : UsageKey := ⟨companyId, userId, dailyTimeFrame⟩
  .lift (fates.read (.dailyRow userId) "failed to initialize daily usage")
  let dailyRoutes ← .lift (decodeOptional (p.store.loadExact dailyKey))
  modifyLimiter (·.mergeUsage dailyKey dailyRoutes)
  let (hourStart, hourEnd) ← .lift (frameResult (TimeFrame.hourFiveMinuteRange unixSeconds))
  .lift (fates.read (.hourRows userId) "failed to initialize hourly usage")
  let hourUsed ← mergeRows companyId userId .zero
    (p.store.loadRange companyId userId hourStart hourEnd)
  let dayUsed ← .lift (blobResult none (CreditsBlob.sum dailyRoutes))
  let dayPeriod ← .lift (frameResult (TimeFrame.localUnixDay unixSeconds))
  let dayUsed := { dayUsed with cpu := dayUsed.cpu - dayExtraCpuFromPool }
  modifyLimiter (·.setSubject (companyId, userId)
    (.recovered limits unixSeconds dayPeriod now hourUsed dayUsed))

/-- `ensure_platform_usage`. -/
def ensurePlatformUsage (unixSeconds : Int) : Call Unit := do
  let key ← .lift (platformUsageKey unixSeconds)
  let p ← get
  if (p.limiter.platformUsage.lookup key).isSome then return ()
  .lift (fates.read .platformRow "failed to initialize platform usage")
  let routes ← .lift (decodeOptional (p.store.loadExact key))
  modifyLimiter fun l => l.setPlatformUsage (mergeLoaded l.platformUsage key routes)

/-! ### Admission -/

/-- The authorization half of `admit_at`. -/
def authorize (request : Request) (unixSeconds : Int) : Call (Except AccessDenial AccessVerdict) :=
  if request.requestsAuthorization then do
    ensureAccess config fates request.companyId request.userId unixSeconds
    let p ← get
    let state ← .lift (expectSome "user access initialized"
      (p.limiter.access.lookup (request.companyId, request.userId)))
    return state.verdict request.requiredAccess
  else return .ok .none

/-- The loads of `admit_at`: the budget, the company and the user. -/
def loadStates (request : Request) (unixSeconds : Int) (now : ℕ) : Call Unit := do
  ensureBudget fates request.companyId unixSeconds
  let p ← get
  let budget ← .lift (expectSome "company budget initialized"
    (p.limiter.budgets.lookup request.companyId))
  ensureSubject fates request.companyId companyAggregateUserId config.policy.company unixSeconds
    now budget.dayExtraUsed
  ensureSubject fates request.companyId request.userId config.policy.user unixSeconds now
    budget.dayExtraUsed

/-- The rollovers and refills of `admit_at`. -/
def refreshStates (request : Request) (unixSeconds : Int) (now : ℕ) : Call Unit := do
  let currentDayPeriod ← .lift (frameResult (TimeFrame.localUnixDay unixSeconds))
  onSubject (request.companyId, companyAggregateUserId) "company state initialized"
    (modify (·.refreshPeriods config.policy.company unixSeconds currentDayPeriod now))
  onSubject (request.companyId, request.userId) "user state initialized"
    (modify (·.refreshPeriods config.policy.user unixSeconds currentDayPeriod now))
  let currentMonthStartDay ← .lift (frameResult (TimeFrame.monthStartDay unixSeconds))
  onBudget request.companyId
    (modify fun b => (b.refreshMonth currentMonthStartDay).refreshDay currentDayPeriod)

end

/-- The burst gates of `admit_at`: shortest window first, company before user. -/
def burstViolation (policy : LimitPolicy) (company user : SubjectState) (requested : Credits) :
    Option LimitViolation :=
  company.violation .company .tenSeconds policy.company requested <|>
  user.violation .user .tenSeconds policy.user requested <|>
  company.violation .company .hour policy.company requested <|>
  user.violation .user .hour policy.user requested

/-- The entitlement gates of `admit_at`: the day, the user's share of it, the month. -/
def quotaViolation (policy : LimitPolicy) (company user : SubjectState)
    (budget : CompanyBudgetState) (requested : Credits) : Option LimitViolation :=
  fixedLimitViolation .company .day company.dayUsed requested budget.stored.daily <|>
  fixedLimitViolation .user .day user.dayUsed requested (policy.userDaily budget.stored.daily) <|>
  budget.monthlyViolation requested

/-- The order of the gates: the burst gates, the entitlement, and the pool only after the
entitlement has refused. -/
def settle (burst quota : Option LimitViolation) (grant : Option ℕ) : Except LimitViolation ℕ :=
  match burst, quota, grant with
  | some violation, _, _ => .error violation
  | none, none, _ => .ok 0
  | none, some _, some grant => .ok grant
  | none, some violation, none => .error violation

/-- The gates of `admit_at`: a violation, or what the extra pool pays. -/
def gates (policy : LimitPolicy) (company user : SubjectState) (budget : CompanyBudgetState)
    (request : Request) : Except LimitViolation ℕ :=
  settle (burstViolation policy company user request.credits)
    (quotaViolation policy company user budget request.credits)
    (if request.extraCreditsAllowed then
      budget.extraGrant request.credits policy.companyExtraDailyCpu else none)

/-- The gates on the states in the maps. -/
def judge (policy : LimitPolicy) (request : Request) : Call (Except LimitViolation ℕ) := do
  let p ← get
  let company ← .lift (expectSome "company state initialized"
    (p.limiter.subjects.lookup (request.companyId, companyAggregateUserId)))
  let user ← .lift (expectSome "user state initialized"
    (p.limiter.subjects.lookup (request.companyId, request.userId)))
  let budget ← .lift (expectSome "company budget initialized"
    (p.limiter.budgets.lookup request.companyId))
  return gates policy company user budget request

/-- `entry(key).or_insert_with(..).increment(..)`. -/
def incrementRecord (key : UsageKey) (route : ℕ) (credits : Credits) : Call Unit := do
  let p ← get
  let record := (p.limiter.usage.lookup key).getD (.loaded ∅)
  modifyLimiter fun l => l.setUsage (l.usage.insert key (record.increment route credits).2)
  .lift ((record.increment route credits).1.mapError .overflow)

/-- The loop of `increment_usage`. -/
def incrementRecords (route : ℕ) (credits : Credits) : List UsageKey → Call Unit
  | [] => return ()
  | key :: keys => do
    incrementRecord key route credits
    incrementRecords route credits keys

/-- `increment_usage`: the user's and the company's records, five-minute and daily. -/
def incrementUsage (request : Request) (unixSeconds : Int) : Call Unit := do
  let fiveMinute ← .lift (frameResult (TimeFrame.fiveMinute unixSeconds))
  let daily ← .lift (frameResult (TimeFrame.daily unixSeconds))
  incrementRecords request.routeId request.credits
    [⟨request.companyId, request.userId, fiveMinute⟩,
      ⟨request.companyId, request.userId, daily⟩,
      ⟨request.companyId, companyAggregateUserId, fiveMinute⟩,
      ⟨request.companyId, companyAggregateUserId, daily⟩]

/-- `increment_platform_usage`. -/
def incrementPlatformUsage (request : Request) (unixSeconds : Int) : Call Unit := do
  let key ← .lift (platformUsageKey unixSeconds)
  let p ← get
  let record ← .lift (expectSome "platform usage initialized"
    (p.limiter.platformUsage.lookup key))
  modifyLimiter fun l => l.setPlatformUsage
    (l.platformUsage.insert key (record.increment request.routeId request.credits).2)
  .lift ((record.increment request.routeId request.credits).1.mapError .overflow)

/-- The debits of `admit_at`. `extraCpu` is what the extra pool pays. -/
def commit (request : Request) (unixSeconds : Int) (extraCpu : ℕ) : Call Unit := do
  let paidFromExtra : Bool := 0 < extraCpu
  onSubject (request.companyId, companyAggregateUserId) "company state initialized"
    (SubjectState.charge request.credits !paidFromExtra)
  onSubject (request.companyId, request.userId) "user state initialized"
    (SubjectState.charge request.credits !paidFromExtra)
  onBudget request.companyId
    (if paidFromExtra then CompanyBudgetState.addExtraUsed extraCpu
      else CompanyBudgetState.addMonthUsed request.credits)
  incrementUsage request unixSeconds
  incrementPlatformUsage request unixSeconds

/-- `admit_at` up to the first debit: the decision that refuses the request, or the verdict and
what the extra pool pays. -/
def beforeDebit (config : Config) (fates : Fates) (request : Request) (unixSeconds : Int)
    (now : ℕ) : Call (Except Decision (AccessVerdict × ℕ)) := do
  .lift (fates.lock .shard)
  match ← authorize config fates request unixSeconds with
  | .error denial => return .error (.accessDenied denial)
  | .ok verdict =>
    loadStates config fates request unixSeconds now
    refreshStates config request unixSeconds now
    match ← judge config.policy request with
    | .error violation => return .error (.creditViolation violation)
    | .ok extraCpu =>
      .lift (fates.lock .platform)
      -- the platform row is loaded before anything is debited
      ensurePlatformUsage fates unixSeconds
      return .ok (verdict, extraCpu)

/-- `admit_at`. -/
def admitAt (config : Config) (fates : Fates) (request : Request) (unixSeconds : Int) (now : ℕ) :
    Call Admission := do
  match ← beforeDebit config fates request unixSeconds now with
  | .error decision => return ⟨decision, 0⟩
  | .ok (verdict, extraCpu) =>
    commit request unixSeconds extraCpu
    return ⟨.allowed verdict, extraCpu⟩

/-! ### Budget mutations -/

/-- The entitlement a mutation asks for, or the reply that refuses it. -/
def mutatedBudget (b : CompanyBudgetState) (mutation : BudgetMutation)
    (currentMonthStartDay : Int) : Except BudgetMutationReply StoredBudget :=
  match mutation.operation with
  | .setDaily => .ok { b.stored with daily := mutation.credits }
  | .setCurrent =>
    match b.monthUsed.checkedAdd mutation.credits with
    | none => .error .overflow
    | some monthlyCeiling =>
      if i64MaxNat < monthlyCeiling.cpu ∨ i64MaxNat < monthlyCeiling.inference then
        .error .overflow
      else
        .ok { b.stored with
          budgetMonthStartDay := currentMonthStartDay
          monthlyCeiling
          lastSet := mutation.credits }
  | .increaseCurrent =>
    if b.stored.budgetMonthStartDay ≠ currentMonthStartDay then .error .currentMonthNotConfigured
    else
      match b.stored.monthlyCeiling.checkedAdd mutation.credits,
          b.stored.lastSet.checkedAdd mutation.credits with
      | some monthlyCeiling, some lastSet =>
        if i64MaxNat < monthlyCeiling.cpu ∨ i64MaxNat < monthlyCeiling.inference ∨
            i64MaxNat < lastSet.cpu ∨ i64MaxNat < lastSet.inference then .error .overflow
        else .ok { b.stored with monthlyCeiling, lastSet }
      | _, _ => .error .overflow

/-- The await of `upsert_budget`. -/
def writeBudget (fates : Fates) (stored : StoredBudget) : Call Unit := do
  let write : Call Unit := modify fun p => { p with store := p.store.upsertBudget stored }
  match fates .budgetWrite with
  | .done => write
  | .failed landed =>
    if landed then write
    throw (.storage "failed to persist company credit budget")
  | .cancelled landed =>
    if landed then write
    throw .cancelled

/-- `mutate_budget_at`: the store is written before the memory. -/
def mutateBudgetAt (fates : Fates) (mutation : BudgetMutation) (unixSeconds : Int) :
    Call BudgetMutationReply := do
  .lift (fates.lock .shard)
  ensureBudget fates mutation.companyId unixSeconds
  let currentMonthStartDay ← .lift (frameResult (TimeFrame.monthStartDay unixSeconds))
  onBudget mutation.companyId (modify (·.refreshMonth currentMonthStartDay))
  let p ← get
  let budget ← .lift (expectSome "company budget initialized"
    (p.limiter.budgets.lookup mutation.companyId))
  match mutatedBudget budget mutation currentMonthStartDay with
  | .error reply => return reply
  | .ok stored =>
    let updated ← .lift (sunixTime unixSeconds)
    let stored := { stored with updated }
    writeBudget fates stored
    onBudget mutation.companyId (modify fun b => { b with stored })
    return .ok

/-! ### Access invalidation -/

/-- `invalidate_access`; user zero stands for every user of the company. -/
def invalidateAccess (l : RateLimiter) (companyId userId : Int) : RateLimiter :=
  if userId = 0 then { l with access := retain (fun key _ => key.1 ≠ companyId) l.access }
  else { l with access := l.access.erase (companyId, userId) }

end Fareward.Limiter
