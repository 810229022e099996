import Fareward.Limiter.Equiv.CreditsBlob
import Fareward.Limiter.Equiv.TimeFrame
import Fareward.Limiter.RateLimiter
import Mathlib.Logic.Relation

/-!
# What the limiter recovers from the store

`LimiterStore.total` is the total of a route in a stored row, and `LimiterStore.sum` the sum of the
row. What is loaded is what the store holds.
-/

namespace Fareward.Limiter

open Relation

variable {store : LimiterStore} {key : UsageKey} {companyId : Int}

/-! ### Stored rows -/

/-- The totals of a stored row; no row, and a row that does not decode, has none. -/
def LimiterStore.routes (store : LimiterStore) (key : UsageKey) : RoutedCredits :=
  match store.usage key with
  | none => ∅
  | some bytes => (CreditsBlob.decode bytes).toOption.getD ∅

/-- The stored total of a route. -/
def LimiterStore.total (store : LimiterStore) (key : UsageKey) (route : ℕ) (d : Resource) : ℕ :=
  (store.routes key).total route d

/-- The sum of a stored row. -/
def LimiterStore.sum (store : LimiterStore) (key : UsageKey) (d : Resource) : ℕ :=
  (store.routes key).sumOf d

/-- The sum of the rows of a subject over some frames. -/
def LimiterStore.sumOver (store : LimiterStore) (companyId userId : Int) (frames : List Int)
    (d : Resource) : ℕ :=
  (frames.map fun f => store.sum ⟨companyId, userId, f⟩ d).sum

theorem mapError_ok {ε ε' α : Type} {f : ε → ε'} {x : Except ε α} {a : α}
    (h : x.mapError f = .ok a) : x = .ok a := by
  cases x with
  | error => cases h
  | ok =>
    injection h with h
    rw [h]

theorem LimiterStore.routes_of_none (h : store.usage key = none) : store.routes key = ∅ := by
  unfold LimiterStore.routes
  rw [h]

theorem LimiterStore.routes_of_decode {bytes : List UInt8} {routes : RoutedCredits}
    (h : store.usage key = some bytes) (hd : CreditsBlob.decode bytes = .ok routes) :
    store.routes key = routes := by
  unfold LimiterStore.routes
  rw [h]
  simp only [hd]
  rfl

theorem decodeOptional_ok {routes : RoutedCredits}
    (h : decodeOptional (store.loadExact key) = .ok routes) : routes = store.routes key := by
  unfold LimiterStore.loadExact at h
  cases hs : store.usage key with
  | none =>
    rw [hs] at h
    injection h with h
    rw [LimiterStore.routes_of_none hs, h]
  | some =>
    rw [hs] at h
    exact (LimiterStore.routes_of_decode hs (mapError_ok h)).symm

theorem addCredits_ok {message : String} {a b c : Credits} (h : addCredits message a b = .ok c) :
    a.checkedAdd b = some c := by
  unfold addCredits at h
  split at h
  · injection h with h
    subst h
    assumption
  · cases h

theorem addRow_ok {overflow : String} {total total' : Credits} {row : Int × List UInt8}
    {routes : RoutedCredits} (h : addRow overflow total row = .ok (routes, total')) :
    CreditsBlob.decode row.2 = .ok routes ∧
      ∀ d, total'.of d = total.of d + routes.sumOf d := by
  obtain ⟨r, hr, h⟩ := bind_eq_ok.mp h
  obtain ⟨s, hs, h⟩ := bind_eq_ok.mp h
  obtain ⟨c, hc, h⟩ := bind_eq_ok.mp h
  injection h with h
  obtain ⟨rfl, rfl⟩ := Prod.mk.inj h
  refine ⟨mapError_ok hr, fun d => ?_⟩
  rw [Credits.of_checkedAdd (addCredits_ok hc), CreditsBlob.of_sum (mapError_ok hs)]

/-- The rows of a subject that exist among some frames, as `load_range` returns them. -/
def LimiterStore.rowsAt (store : LimiterStore) (companyId userId : Int) (frames : List Int) :
    List (Int × List UInt8) :=
  frames.filterMap fun timeFrame =>
    (store.usage ⟨companyId, userId, timeFrame⟩).map fun usedCredits => (timeFrame, usedCredits)

theorem LimiterStore.sumOver_cons (store : LimiterStore) (companyId userId f : Int)
    (frames : List Int) (d : Resource) :
    store.sumOver companyId userId (f :: frames) d =
      store.sum ⟨companyId, userId, f⟩ d + store.sumOver companyId userId frames d := by
  unfold LimiterStore.sumOver
  rw [List.map_cons, List.sum_cons]

/-- The loop over the monthly rows adds their sums. -/
theorem sumRows_ok {userId : Int} {frames : List Int} :
    ∀ {total total' : Credits},
      sumRows total (store.rowsAt companyId userId frames) = .ok total' →
      ∀ d, total'.of d = total.of d + store.sumOver companyId userId frames d := by
  induction frames with
  | nil =>
    intro total total' h d
    injection h with h
    subst h
    rfl
  | cons f frames ih =>
    intro total total' h d
    rw [LimiterStore.sumOver_cons]
    cases hs : store.usage ⟨companyId, userId, f⟩ with
    | none =>
      have hrows : store.rowsAt companyId userId (f :: frames) =
          store.rowsAt companyId userId frames := List.filterMap_cons_none (by simp [hs])
      rw [hrows] at h
      have hsum : store.sum ⟨companyId, userId, f⟩ d = 0 := by
        unfold LimiterStore.sum
        rw [LimiterStore.routes_of_none hs]
        rfl
      rw [ih h d, hsum, Nat.zero_add]
    | some bytes =>
      have hrows : store.rowsAt companyId userId (f :: frames) =
          (f, bytes) :: store.rowsAt companyId userId frames :=
        List.filterMap_cons_some (by simp [hs])
      rw [hrows] at h
      obtain ⟨⟨routes, next⟩, hrow, h⟩ := bind_eq_ok.mp h
      obtain ⟨hdecode, hnext⟩ := addRow_ok hrow
      have hsum : store.sum ⟨companyId, userId, f⟩ d = routes.sumOf d := by
        unfold LimiterStore.sum
        rw [LimiterStore.routes_of_decode hs hdecode]
      rw [ih h d, hnext d, hsum, Nat.add_assoc]

/-! ### Budgets from the store -/

/-- What the store says of the pool in a period of a company: the stored counters if they are of
that period. -/
def LimiterStore.extra (store : LimiterStore) (companyId : Int) : StoredExtraUsage :=
  ((store.loadBudget companyId).getD ⟨.empty, .empty⟩).extra

def LimiterStore.entitlement (store : LimiterStore) (companyId : Int) : StoredBudget :=
  { ((store.loadBudget companyId).getD ⟨.empty, .empty⟩).budget with companyId }

/-- `ensure_budget` recovers the entitlement as stored, the pool counters of the current periods,
and for the month the sum of the daily rows less what the pool paid. -/
structure RecoveredBudget (store : LimiterStore) (companyId t : Int) (b : CompanyBudgetState) :
    Prop where
  stored : b.stored = store.entitlement companyId
  month : b.usageMonthStartDay = TimeFrame.monthOf t
  day : b.extraDayPeriod = TimeFrame.dayOf t
  dayExtra : b.dayExtraUsed =
    if (store.extra companyId).dayPeriod = TimeFrame.dayOf t then
      (store.extra companyId).dayCpu else 0
  monthExtra : b.monthExtraUsed =
    if (store.extra companyId).monthStartDay = TimeFrame.monthOf t then
      (store.extra companyId).monthCpu else 0
  cpu : b.monthUsed.cpu = store.sumOver companyId companyAggregateUserId
    (LimiterStore.framesBetween (TimeFrame.dailyPrefix + TimeFrame.monthOf t)
      (TimeFrame.dailyOf t)) .cpu - b.monthExtraUsed
  inference : b.monthUsed.inference = store.sumOver companyId companyAggregateUserId
    (LimiterStore.framesBetween (TimeFrame.dailyPrefix + TimeFrame.monthOf t)
      (TimeFrame.dailyOf t)) .inference
  version : b.version = 0
  flushedVersion : b.flushedVersion = 0

theorem frameResult_ok {α : Type} {r : Except TimeFrameError α} {a : α}
    (h : frameResult r = .ok a) : r = .ok a := mapError_ok h

theorem recoverBudget_ok {fates : Fates} {t : Int} {b : CompanyBudgetState}
    (h : recoverBudget fates store companyId t = .ok b) : RecoveredBudget store companyId t b := by
  obtain ⟨m, hm, h⟩ := bind_eq_ok.mp h
  obtain ⟨d, hd, h⟩ := bind_eq_ok.mp h
  obtain ⟨-, -, h⟩ := bind_eq_ok.mp h
  obtain ⟨f, hf, h⟩ := bind_eq_ok.mp h
  obtain ⟨-, -, h⟩ := bind_eq_ok.mp h
  obtain ⟨used, hused, h⟩ := bind_eq_ok.mp h
  injection h with h
  subst h
  obtain ⟨rfl, -⟩ := TimeFrame.monthStartDay_ok (frameResult_ok hm)
  obtain ⟨rfl, -⟩ := TimeFrame.localUnixDay_ok (frameResult_ok hd)
  obtain ⟨rfl, -⟩ := TimeFrame.daily_ok (frameResult_ok hf)
  have hsum := sumRows_ok hused
  refine ⟨rfl, rfl, rfl, rfl, rfl, ?_, ?_, rfl, rfl⟩
  · have hcpu := hsum .cpu
    rw [Credits.of_zero, Nat.zero_add] at hcpu
    exact congrArg (· - _) hcpu
  · have hinference := hsum .inference
    rw [Credits.of_zero, Nat.zero_add] at hinference
    exact hinference

end Fareward.Limiter
