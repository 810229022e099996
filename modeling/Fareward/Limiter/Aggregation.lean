import Fareward.Limiter.CreditsBlob
import Mathlib.Data.Finmap

/-!
# Usage records

`src/limiter/aggregation.rs`: absolute usage rows in memory, each with a mutation version and the
version last known to be durable. A record is clean when the two agree.

The map of records behaves as a write-back cache over the stored rows.
-/

namespace Fareward.Limiter

/-- `COMPANY_AGGREGATE_USER_ID`: the user id that stands for the company itself. -/
def companyAggregateUserId : Int := -1

/-- `UsageKey`. -/
structure UsageKey where
  companyId : Int
  userId : Int
  timeFrame : Int
  deriving DecidableEq, Repr

/-- `UsageSnapshot`. -/
structure UsageSnapshot where
  key : UsageKey
  routes : RoutedCredits
  version : ℕ
  deriving DecidableEq

/-- `UsageRecord`. -/
structure UsageRecord where
  routes : RoutedCredits
  version : ℕ
  flushedVersion : ℕ
  deriving DecidableEq

namespace UsageRecord

/-- `loaded`: a stored row is durable already. -/
def loaded (routes : RoutedCredits) : UsageRecord := ⟨routes, 0, 0⟩

/-- `increment`. The totals are replaced before the version is raised, so a version that
overflows leaves the new totals behind. -/
def increment (r : UsageRecord) (route : ℕ) (credits : Credits) :
    Except String Unit × UsageRecord :=
  let current := (r.routes.get? route).getD .zero
  match current.checkedAdd credits with
  | none => (.error "in-memory usage credits overflowed uint64", r)
  | some updated =>
    let r := { r with routes := r.routes.insert route updated }
    match checkedU64 (r.version + 1) with
    | none => (.error "usage mutation version overflowed uint64", r)
    | some version => (.ok (), { r with version })

/-- `snapshot`: what to write, if the record is dirty. -/
def snapshot (r : UsageRecord) (key : UsageKey) : Option UsageSnapshot :=
  if r.version ≠ r.flushedVersion then some ⟨key, r.routes, r.version⟩ else none

/-- `mark_flushed`. -/
def markFlushed (r : UsageRecord) (version : ℕ) : UsageRecord :=
  if r.version = version then { r with flushedVersion := version } else r

/-- `is_clean`. -/
def isClean (r : UsageRecord) : Bool := r.version = r.flushedVersion

end UsageRecord

/-- `HashMap<UsageKey, UsageRecord>`. -/
abbrev UsageMap := Finmap fun _ : UsageKey => UsageRecord

/-- `merge_loaded`: a record in memory may hold newer usage and is never replaced. -/
def mergeLoaded (records : UsageMap) (key : UsageKey) (routes : RoutedCredits) : UsageMap :=
  match records.lookup key with
  | some _ => records
  | none => records.insert key (.loaded routes)

end Fareward.Limiter
