import Fareward.Limiter.RateLimiter

/-!
# The limiter as a machine

The calls of `Limiter/RateLimiter.lean` together with `flush_dirty`, `prune_clean_usage` and
`flush_dirty_budget_usage` of `src/limiter/quota.rs`, over a store that outlives the process.

The flush takes one lock at a time and awaits the store between them, so it is cut into its atomic
steps: `FlushPhase` is where the pass stands, and calls run between any two of its steps. There is
one pass at a time. `HashMap` iteration has no order, so a step that iterates takes the order from
the environment; a clock reading is `none` when the clock cannot be read.

`trace` records what the calls answered and when they read the clock, newest first. An entry is
made when its call holds the lock of the shard.
-/

namespace Fareward.Limiter

/-- A stretch of time that a token bucket of a subject was credited with. -/
structure Refill where
  subject : Int × Int
  bucket : Resource
  start : ℕ
  stop : ℕ
  deriving DecidableEq, Repr

/-- An admission: what was asked, at which clock readings, and what came of it. -/
structure AdmissionRecord where
  request : Request
  unixSeconds : Int
  now : ℕ
  outcome : Except Failure Admission
  /-- The daily entitlement in force at its end. -/
  daily : Credits
  refills : List Refill
  deriving DecidableEq

inductive Event
  | admission (record : AdmissionRecord)
  | mutation (mutation : BudgetMutation) (unixSeconds : Int)
      (outcome : Except Failure BudgetMutationReply)
  | prune (shard : ℕ) (unixSeconds : Int)
  deriving DecidableEq

/-- Where the flush stands. -/
inductive FlushPhase
  | idle
  /-- Before the lock of the shard whose dirty records are collected next. -/
  | collect (shard : ℕ) (snapshots : List UsageSnapshot)
  | collectPlatform (snapshots : List UsageSnapshot)
  /-- At the upsert of the first snapshot. -/
  | write (snapshots : List UsageSnapshot)
  /-- The upsert succeeded; before the lock that `mark_flushed` takes. -/
  | mark (snapshot : UsageSnapshot) (snapshots : List UsageSnapshot)
  /-- `prune_clean_usage` before it reads the clock. -/
  | prune
  | pruneShard (unixSeconds fiveMinute day : Int) (shard : ℕ)
  | prunePlatform (fiveMinute : Int)
  /-- `flush_dirty_budget_usage` before it reads the clock. -/
  | budget
  | budgetCollect (unixSeconds day : Int) (shard : ℕ) (snapshots : List (StoredBudgetUsage × ℕ))
  | budgetWrite (snapshots : List (StoredBudgetUsage × ℕ))
  | budgetMark (usage : StoredBudgetUsage) (version : ℕ) (snapshots : List (StoredBudgetUsage × ℕ))
  deriving DecidableEq

/-- The process, the store and what has happened. -/
structure World where
  process : Process
  flush : FlushPhase
  trace : List Event

/-- A fresh process over a store. -/
def World.boot (store : LimiterStore) : World := ⟨⟨.new, store⟩, .idle, []⟩

/-- One atomic step of the flush, with what the environment decides in it. -/
inductive FlushAction
  | start
  | collect (order : List UsageKey)
  | collectPlatform (order : List UsageKey)
  /-- The upsert succeeds, or fails with or without taking effect. -/
  | write (succeeds landed : Bool)
  | mark
  | prune (clock : Option Int)
  | pruneShard
  | prunePlatform
  | budget (clock : Option Int)
  | budgetCollect (order : List Int)
  | budgetWrite (succeeds landed : Bool)
  | budgetMark
  deriving DecidableEq

inductive Action
  | admission (request : Request) (unixSeconds : Int) (now : ℕ) (fates : Fates)
  | mutation (mutation : BudgetMutation) (unixSeconds : Int) (fates : Fates)
  | invalidation (companyId userId : Int)
  | flush (action : FlushAction)
  /-- The process ends and a new one starts over the same store. -/
  | restart

namespace RateLimiter

variable (config : Config) (l : RateLimiter)

/-- The keys of the usage records of a shard. -/
def usageKeys (shard : ℕ) : Finset UsageKey :=
  l.usage.keys.filter fun key => config.shardIndex key.companyId = shard

/-- The companies of a shard whose budget is loaded. -/
def budgetKeys (shard : ℕ) : Finset Int :=
  l.budgets.keys.filter fun companyId => config.shardIndex companyId = shard

/-- `mark_flushed`. -/
def markFlushed (snapshot : UsageSnapshot) : RateLimiter :=
  if snapshot.key.companyId = platformAggregateCompanyId then
    match l.platformUsage.lookup snapshot.key with
    | some record =>
      l.setPlatformUsage (l.platformUsage.insert snapshot.key (record.markFlushed snapshot.version))
    | none => l
  else
    match l.usage.lookup snapshot.key with
    | some record =>
      l.setUsage (l.usage.insert snapshot.key (record.markFlushed snapshot.version))
    | none => l

/-- `prune_clean_usage` on the records of one shard. -/
def pruneShard (fiveMinute day : Int) (shard : ℕ) : RateLimiter :=
  l.setUsage (retain (fun key record => config.shardIndex key.companyId ≠ shard ||
    !record.isClean || key.timeFrame = fiveMinute || key.timeFrame = day) l.usage)

/-- `prune_clean_usage` on the platform records. -/
def prunePlatform (fiveMinute : Int) : RateLimiter :=
  l.setPlatformUsage (retain (fun key record => !record.isClean || key.timeFrame = fiveMinute)
    l.platformUsage)

/-- The snapshot `flush_dirty_budget_usage` takes of one company; a company whose snapshot cannot
be built is skipped. -/
def budgetSnapshot (unixSeconds day companyId : Int) : Option (StoredBudgetUsage × ℕ) := do
  let budget ← l.budgets.lookup companyId
  let (dayUsed, dayPeriod) :=
    match l.subjects.lookup (companyId, companyAggregateUserId) with
    | some subject => (subject.dayUsed, subject.dayPeriod)
    | none => (.zero, day)
  (budget.usageSnapshot companyId dayUsed dayPeriod unixSeconds).toOption.join

/-- `mark_usage_flushed` of a company. -/
def markUsageFlushed (companyId : Int) (version : ℕ) : RateLimiter :=
  match l.budgets.lookup companyId with
  | some budget => l.setBudget companyId (budget.markUsageFlushed version)
  | none => l

/-- What a bucket of a subject was credited between two states of the memory. -/
def refills (l' : RateLimiter) (subject : Int × Int) (bucket : Resource) : List Refill :=
  match l.subjects.lookup subject, l'.subjects.lookup subject with
  | some s, some s' =>
    if (s.bucket bucket).lastRefill < (s'.bucket bucket).lastRefill then
      [⟨subject, bucket, (s.bucket bucket).lastRefill, (s'.bucket bucket).lastRefill⟩]
    else []
  | _, _ => []

/-- The daily entitlement in force for a company. -/
def daily (companyId : Int) : Credits :=
  ((l.budgets.lookup companyId).map (·.stored.daily)).getD .zero

end RateLimiter

/-- `flush_dirty` after the loop over the snapshots. -/
def FlushPhase.afterWrites : List UsageSnapshot → FlushPhase
  | [] => .prune
  | snapshots => .write snapshots

def FlushPhase.afterBudgetWrites : List (StoredBudgetUsage × ℕ) → FlushPhase
  | [] => .idle
  | snapshots => .budgetWrite snapshots

/-- One step of the flush; `none` when the pass does not stand there. -/
def flushStep (config : Config) (w : World) (action : FlushAction) : Option World :=
  let l := w.process.limiter
  let store := w.process.store
  match w.flush, action with
  | .idle, .start => some { w with flush := .collect 0 [] }
  | .collect shard snapshots, .collect order =>
    if Enumerates order (l.usageKeys config shard) then
      let snapshots := snapshots ++
        order.filterMap fun key => (l.usage.lookup key).bind (·.snapshot key)
      some { w with
        flush := if shard + 1 < config.shards then .collect (shard + 1) snapshots
          else .collectPlatform snapshots }
    else none
  | .collectPlatform snapshots, .collectPlatform order =>
    if Enumerates order l.platformUsage.keys then
      let snapshots := snapshots ++
        order.filterMap fun key => (l.platformUsage.lookup key).bind (·.snapshot key)
      -- nothing dirty: the pass returns, before the budgets as well
      some { w with flush := if snapshots = [] then .idle else .write snapshots }
    else none
  | .write (snapshot :: snapshots), .write succeeds landed =>
    match CreditsBlob.encode snapshot.routes with
    | .error _ => some { w with flush := .afterWrites snapshots }
    | .ok encoded =>
      some { w with
        process := if succeeds || landed then
          { w.process with store := store.upsert snapshot.key encoded } else w.process
        flush := if succeeds then .mark snapshot snapshots else .afterWrites snapshots }
  | .mark snapshot snapshots, .mark =>
    some { w with
      process := { w.process with limiter := l.markFlushed snapshot }
      flush := .afterWrites snapshots }
  | .prune, .prune clock =>
    match clock.map fun t => (t, TimeFrame.fiveMinute t, TimeFrame.daily t) with
    | some (t, .ok fiveMinute, .ok day) => some { w with flush := .pruneShard t fiveMinute day 0 }
    | _ => some { w with flush := .budget }
  | .pruneShard t fiveMinute day shard, .pruneShard =>
    some { w with
      process := { w.process with limiter := l.pruneShard config fiveMinute day shard }
      flush := if shard + 1 < config.shards then .pruneShard t fiveMinute day (shard + 1)
        else .prunePlatform fiveMinute
      trace := .prune shard t :: w.trace }
  | .prunePlatform fiveMinute, .prunePlatform =>
    some { w with
      process := { w.process with limiter := l.prunePlatform fiveMinute }
      flush := .budget }
  | .budget, .budget clock =>
    match clock.map fun t => (t, TimeFrame.localUnixDay t) with
    | some (t, .ok day) => some { w with flush := .budgetCollect t day 0 [] }
    | _ => some { w with flush := .idle }
  | .budgetCollect t day shard snapshots, .budgetCollect order =>
    if Enumerates order (l.budgetKeys config shard) then
      let snapshots := snapshots ++ order.filterMap (l.budgetSnapshot t day)
      some { w with
        flush := if shard + 1 < config.shards then .budgetCollect t day (shard + 1) snapshots
          else .afterBudgetWrites snapshots }
    else none
  | .budgetWrite ((usage, version) :: snapshots), .budgetWrite succeeds landed =>
    some { w with
      process := if succeeds || landed then
        { w.process with store := store.upsertBudgetUsage usage } else w.process
      flush := if succeeds then .budgetMark usage version snapshots
        else .afterBudgetWrites snapshots }
  | .budgetMark usage version snapshots, .budgetMark =>
    some { w with
      process := { w.process with limiter := l.markUsageFlushed usage.companyId version }
      flush := .afterBudgetWrites snapshots }
  | _, _ => none

/-- An admission as a step of the machine. -/
def admissionStep (config : Config) (w : World) (request : Request) (unixSeconds : Int) (now : ℕ)
    (fates : Fates) : World :=
  let (outcome, process) := (admitAt config fates request unixSeconds now).exec w.process
  { w with
    process
    trace := .admission {
      request, unixSeconds, now, outcome
      daily := process.limiter.daily request.companyId
      refills := List.flatten [
        w.process.limiter.refills process.limiter (request.companyId, companyAggregateUserId) .cpu,
        w.process.limiter.refills process.limiter (request.companyId, companyAggregateUserId)
          .inference,
        w.process.limiter.refills process.limiter (request.companyId, request.userId) .cpu,
        w.process.limiter.refills process.limiter (request.companyId, request.userId)
          .inference] } :: w.trace }

/-- A budget mutation as a step of the machine. -/
def mutationStep (w : World) (mutation : BudgetMutation) (unixSeconds : Int) (fates : Fates) :
    World :=
  let (outcome, process) := (mutateBudgetAt fates mutation unixSeconds).exec w.process
  { w with process, trace := .mutation mutation unixSeconds outcome :: w.trace }

/-- One step of the machine; `none` when the action is not enabled. -/
def step (config : Config) (w : World) : Action → Option World
  | .admission request unixSeconds now fates =>
    some (admissionStep config w request unixSeconds now fates)
  | .mutation mutation unixSeconds fates => some (mutationStep w mutation unixSeconds fates)
  | .invalidation companyId userId =>
    some { w with process :=
      { w.process with limiter := invalidateAccess w.process.limiter companyId userId } }
  | .flush action => flushStep config w action
  | .restart => some { w with process := ⟨.new, w.process.store⟩, flush := .idle }

end Fareward.Limiter
