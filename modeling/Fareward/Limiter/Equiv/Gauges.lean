import Fareward.Lib.Meter
import Fareward.Limiter.Equiv.Steps

/-!
# The gauges of the limiter

Every counter with a period that the limiter keeps is a meter: the hour and the day of a subject in
each dimension, the month of a company, and what the pool paid in the day and in the month. `Gauge`
names them all, and `total` is what they should show: the sum over the charges in the trace that
count for the gauge and whose reading falls in the period.

A call rolls a gauge to the period of its reading, loads it, or charges it; nothing else moves one.
-/

namespace Fareward.Limiter

open Relation

variable {userId : Int} {d : Resource} {b : CompanyBudgetState} {user : SubjectState}

/-- The counters of the limiter. -/
inductive Gauge
  | hour (key : Int × Int) (d : Resource)
  | day (key : Int × Int) (d : Resource)
  | month (companyId : Int) (d : Resource)
  | monthExtra (companyId : Int)
  | dayExtra (companyId : Int)
  deriving DecidableEq

namespace Gauge

/-- The company whose lock guards the gauge. -/
def company : Gauge → Int
  | .hour key _ | .day key _ => key.1
  | .month c _ | .monthExtra c | .dayExtra c => c

/-- The period of a reading. -/
def periodOf : Gauge → Int → Int
  | .hour _ _ => TimeFrame.hourOf
  | .day _ _ | .dayExtra _ => TimeFrame.dayOf
  | .month _ _ | .monthExtra _ => TimeFrame.monthOf

/-- Whether a call for user `u` of company `c` works on the gauge. -/
def Touched (c u : Int) : Gauge → Prop
  | .hour key _ | .day key _ => key = (c, companyAggregateUserId) ∨ key = (c, u)
  | .month c' _ | .monthExtra c' | .dayExtra c' => c' = c

instance (c u : Int) (g : Gauge) : Decidable (g.Touched c u) := by
  cases g <;> unfold Touched <;> infer_instance

/-- What an accepted charge counts for on a gauge it touches; `extra` is what the pool paid. -/
def weight (credits : Credits) (extra : ℕ) : Gauge → ℕ
  | .hour _ d => credits.of d
  | .day _ d | .month _ d => if extra = 0 then credits.of d else 0
  | .monthExtra _ | .dayExtra _ => extra

theorem periodOf_mono (g : Gauge) {t t' : Int} (h : t ≤ t') : g.periodOf t ≤ g.periodOf t' := by
  cases g with
  | hour => exact TimeFrame.hourOf_mono h
  | day | dayExtra => exact TimeFrame.dayOf_mono h
  | month | monthExtra => exact TimeFrame.monthOf_mono h

theorem Touched.company_eq {g : Gauge} {c u : Int} (h : g.Touched c u) : g.company = c := by
  cases g with
  | hour | day => rcases h with rfl | rfl <;> rfl
  | month | monthExtra | dayExtra => exact h

end Gauge

/-! ### What the gauges show -/

namespace SubjectState

def hourMeter (s : SubjectState) (d : Resource) : Meter Int := ⟨s.hourPeriod, s.hourUsed.of d⟩

def dayMeter (s : SubjectState) (d : Resource) : Meter Int := ⟨s.dayPeriod, s.dayUsed.of d⟩

/-- A counter with its period after a refresh is the rolled meter. -/
theorem meter_refresh (label p : Int) (used : Credits) (d : Resource) :
    Meter.mk p ((if label ≠ p then Credits.zero else used).of d) =
      (Meter.mk label (used.of d)).roll p := by
  by_cases h : label = p
  · rw [Meter.roll_of_eq h, if_neg (not_not.mpr h), h]
  · rw [Meter.roll_of_ne h, if_pos h, Credits.of_zero]

theorem hourMeter_refreshPeriods (s : SubjectState) (limits : ScopeLimits) (t dayPeriod : Int)
    (now : ℕ) (d : Resource) :
    (s.refreshPeriods limits t dayPeriod now).hourMeter d =
      (s.hourMeter d).roll (TimeFrame.hourOf t) := meter_refresh _ _ _ _

theorem dayMeter_refreshPeriods (s : SubjectState) (limits : ScopeLimits) (t dayPeriod : Int)
    (now : ℕ) (d : Resource) :
    (s.refreshPeriods limits t dayPeriod now).dayMeter d = (s.dayMeter d).roll dayPeriod :=
  meter_refresh _ _ _ _

end SubjectState

namespace CompanyBudgetState

def monthMeter (b : CompanyBudgetState) (d : Resource) : Meter Int :=
  ⟨b.usageMonthStartDay, b.monthUsed.of d⟩

def monthExtraMeter (b : CompanyBudgetState) : Meter Int := ⟨b.usageMonthStartDay, b.monthExtraUsed⟩

def dayExtraMeter (b : CompanyBudgetState) : Meter Int := ⟨b.extraDayPeriod, b.dayExtraUsed⟩

theorem monthMeter_refreshMonth (b : CompanyBudgetState) (m : Int) (d : Resource) :
    (b.refreshMonth m).monthMeter d = (b.monthMeter d).roll m := by
  unfold refreshMonth
  split_ifs with h
  · rw [Meter.roll_of_ne (by exact h), ← Credits.of_zero d]
    rfl
  · exact (Meter.roll_of_eq (not_not.mp h)).symm

theorem monthExtraMeter_refreshMonth (b : CompanyBudgetState) (m : Int) :
    (b.refreshMonth m).monthExtraMeter = b.monthExtraMeter.roll m := by
  unfold refreshMonth
  split_ifs with h
  · exact (Meter.roll_of_ne h).symm
  · exact (Meter.roll_of_eq (not_not.mp h)).symm

theorem dayExtraMeter_refreshMonth (b : CompanyBudgetState) (m : Int) :
    (b.refreshMonth m).dayExtraMeter = b.dayExtraMeter := by
  unfold refreshMonth
  split_ifs <;> rfl

theorem monthMeter_refreshDay (b : CompanyBudgetState) (day : Int) (d : Resource) :
    (b.refreshDay day).monthMeter d = b.monthMeter d := by
  unfold refreshDay
  split_ifs <;> rfl

theorem monthExtraMeter_refreshDay (b : CompanyBudgetState) (day : Int) :
    (b.refreshDay day).monthExtraMeter = b.monthExtraMeter := by
  unfold refreshDay
  split_ifs <;> rfl

theorem dayExtraMeter_refreshDay (b : CompanyBudgetState) (day : Int) :
    (b.refreshDay day).dayExtraMeter = b.dayExtraMeter.roll day := by
  unfold refreshDay
  split_ifs with h
  · exact (Meter.roll_of_ne h).symm
  · exact (Meter.roll_of_eq (not_not.mp h)).symm

end CompanyBudgetState

/-- What a gauge shows, if it is loaded. -/
def RateLimiter.gauge (l : RateLimiter) : Gauge → Option (Meter Int)
  | .hour key d => (l.subjects.lookup key).map (·.hourMeter d)
  | .day key d => (l.subjects.lookup key).map (·.dayMeter d)
  | .month c d => (l.budgets.lookup c).map (·.monthMeter d)
  | .monthExtra c => (l.budgets.lookup c).map (·.monthExtraMeter)
  | .dayExtra c => (l.budgets.lookup c).map (·.dayExtraMeter)

/-- What a gauge is loaded with: the sum of stored rows, less what the pool paid where the gauge
does not count it. -/
def Gauge.Read (store : LimiterStore) (t : Int) (l : RateLimiter) (v : ℕ) : Gauge → Prop
  | .hour key d => v = store.sumOver key.1 key.2 (hourFrames t) d
  | .day key .inference => v = store.sum ⟨key.1, key.2, TimeFrame.dailyOf t⟩ .inference
  | .day key .cpu => ∃ b, l.budgets.lookup key.1 = some b ∧
      v = store.sum ⟨key.1, key.2, TimeFrame.dailyOf t⟩ .cpu - b.dayExtraUsed
  | .month c .inference => v = store.sumOver c companyAggregateUserId (monthFrames t) .inference
  | .month c .cpu => v = store.sumOver c companyAggregateUserId (monthFrames t) .cpu -
      if (store.extra c).monthStartDay = TimeFrame.monthOf t then (store.extra c).monthCpu else 0
  | .monthExtra c => v =
      if (store.extra c).monthStartDay = TimeFrame.monthOf t then (store.extra c).monthCpu else 0
  | .dayExtra c => v =
      if (store.extra c).dayPeriod = TimeFrame.dayOf t then (store.extra c).dayCpu else 0

/-- What a gauge shows after a move from the memory `l`. -/
inductive GaugeMoved (store : LimiterStore) (c u t : Int) (l : RateLimiter) (g : Gauge) :
    Option (Meter Int) → Prop
  | same : GaugeMoved store c u t l g (l.gauge g)
  | rolled {m : Meter Int} (htouched : g.Touched c u) (hm : l.gauge g = some m) :
      GaugeMoved store c u t l g (some (m.roll (g.periodOf t)))
  | loaded {v : ℕ} (htouched : g.Touched c u) (hnone : l.gauge g = none)
      (hread : g.Read store t l v) : GaugeMoved store c u t l g (some ⟨g.periodOf t, v⟩)

theorem gauge_setSubject (l : RateLimiter) (key : Int × Int) (s : SubjectState) (g : Gauge) :
    (l.setSubject key s).gauge g =
      match g with
      | .hour k d => if k = key then some (s.hourMeter d) else l.gauge (.hour k d)
      | .day k d => if k = key then some (s.dayMeter d) else l.gauge (.day k d)
      | g => l.gauge g := by
  cases g with
  | hour k | day k =>
    show ((l.subjects.insert key s).lookup k).map _ = if k = key then _ else _
    rw [lookup_insert_eq]
    split_ifs <;> rfl
  | month | monthExtra | dayExtra => rfl

theorem gauge_setBudget (l : RateLimiter) (c : Int) (b : CompanyBudgetState) (g : Gauge) :
    (l.setBudget c b).gauge g =
      match g with
      | .month k d => if k = c then some (b.monthMeter d) else l.gauge (.month k d)
      | .monthExtra k => if k = c then some b.monthExtraMeter else l.gauge (.monthExtra k)
      | .dayExtra k => if k = c then some b.dayExtraMeter else l.gauge (.dayExtra k)
      | g => l.gauge g := by
  cases g with
  | hour | day => rfl
  | month k | monthExtra k | dayExtra k =>
    show ((l.budgets.insert c b).lookup k).map _ = if k = c then _ else _
    rw [lookup_insert_eq]
    split_ifs <;> rfl

/-! ### The totals of a trace -/

/-- What an admission counts for on a gauge. -/
def AdmissionRecord.counted (a : AdmissionRecord) (g : Gauge) : ℕ :=
  match a.outcome with
  | .ok ⟨.allowed _, extra⟩ =>
    if g.Touched a.request.companyId a.request.userId then g.weight a.request.credits extra else 0
  | _ => 0

/-- What an event counts for on a gauge in a period. -/
def Event.counted (g : Gauge) (p : Int) : Event → ℕ
  | .admission a => if g.periodOf a.unixSeconds = p then a.counted g else 0
  | _ => 0

/-- The sum of the charges of a trace that count for the gauge and fall in the period. -/
def total (trace : List Event) (g : Gauge) (p : Int) : ℕ := (trace.map (Event.counted g p)).sum

theorem total_cons (e : Event) (trace : List Event) (g : Gauge) (p : Int) :
    total (e :: trace) g p = e.counted g p + total trace g p := by
  unfold total
  rw [List.map_cons, List.sum_cons]

/-! ### What the steps do to a gauge -/

section

variable {config : Config} {store : LimiterStore} {r : Request} {c u t : Int} {now : ℕ}
  {l l' : RateLimiter} {g : Gauge}

theorem gauge_congr (hsubjects : l'.subjects = l.subjects) (hbudgets : l'.budgets = l.budgets)
    (g : Gauge) : l'.gauge g = l.gauge g := by
  cases g <;> simp only [RateLimiter.gauge, hsubjects, hbudgets]

theorem touched_hour (hu : userId = companyAggregateUserId ∨ userId = u) :
    (Gauge.hour (c, userId) d).Touched c u :=
  hu.imp (congrArg (c, ·)) (congrArg (c, ·))

theorem touched_day (hu : userId = companyAggregateUserId ∨ userId = u) :
    (Gauge.day (c, userId) d).Touched c u :=
  hu.imp (congrArg (c, ·)) (congrArg (c, ·))

theorem GaugeMoved.setSubject {s : SubjectState}
    (hhour : ∀ d, GaugeMoved store c u t l (.hour (c, userId) d) (some (s.hourMeter d)))
    (hday : ∀ d, GaugeMoved store c u t l (.day (c, userId) d) (some (s.dayMeter d))) (g : Gauge) :
    GaugeMoved store c u t l g ((l.setSubject (c, userId) s).gauge g) := by
  rw [gauge_setSubject]
  cases g with
  | hour key d =>
    dsimp only
    split_ifs with hkey
    · subst hkey
      exact hhour d
    · exact .same
  | day key d =>
    dsimp only
    split_ifs with hkey
    · subst hkey
      exact hday d
    · exact .same
  | month | monthExtra | dayExtra => exact .same

theorem GaugeMoved.setBudget
    (hmonth : ∀ d, GaugeMoved store c u t l (.month c d) (some (b.monthMeter d)))
    (hmonthExtra : GaugeMoved store c u t l (.monthExtra c) (some b.monthExtraMeter))
    (hdayExtra : GaugeMoved store c u t l (.dayExtra c) (some b.dayExtraMeter)) (g : Gauge) :
    GaugeMoved store c u t l g ((l.setBudget c b).gauge g) := by
  rw [gauge_setBudget]
  cases g with
  | hour | day => exact .same
  | month k d =>
    dsimp only
    split_ifs with hk
    · subst hk
      exact hmonth d
    · exact .same
  | monthExtra =>
    dsimp only
    split_ifs with hk
    · subst hk
      exact hmonthExtra
    · exact .same
  | dayExtra =>
    dsimp only
    split_ifs with hk
    · subst hk
      exact hdayExtra
    · exact .same

theorem GaugeMoved.recoverBudget (hnone : l.budgets.lookup c = none)
    (hb : RecoveredBudget store c t b) (g : Gauge) :
    GaugeMoved store c u t l g ((l.setBudget c b).gauge g) := by
  have hgauge : ∀ {α : Type} (f : CompanyBudgetState → α),
      (l.budgets.lookup c).map f = none := fun f => by rw [hnone]; rfl
  refine .setBudget (fun d => ?_) ?_ ?_ g
  · have hmeter : b.monthMeter d = ⟨TimeFrame.monthOf t, b.monthUsed.of d⟩ :=
      Meter.ext hb.month rfl
    rw [hmeter]
    refine .loaded rfl (hgauge _) ?_
    cases d with
    | cpu =>
      have hcpu := hb.cpu
      rw [hb.monthExtra] at hcpu
      exact hcpu
    | inference => exact hb.inference
  · have hmeter : b.monthExtraMeter = ⟨TimeFrame.monthOf t, b.monthExtraUsed⟩ :=
      Meter.ext hb.month rfl
    rw [hmeter]
    exact .loaded rfl (hgauge _) hb.monthExtra
  · have hmeter : b.dayExtraMeter = ⟨TimeFrame.dayOf t, b.dayExtraUsed⟩ := Meter.ext hb.day rfl
    rw [hmeter]
    exact .loaded rfl (hgauge _) hb.dayExtra

theorem GaugeMoved.refreshMonth (hb : l.budgets.lookup c = some b) (g : Gauge) :
    GaugeMoved store c u t l g
      ((l.setBudget c (b.refreshMonth (TimeFrame.monthOf t))).gauge g) := by
  have hgauge : ∀ {α : Type} (f : CompanyBudgetState → α),
      (l.budgets.lookup c).map f = some (f b) := fun f => by rw [hb]; rfl
  refine .setBudget (fun d => ?_) ?_ ?_ g
  · rw [CompanyBudgetState.monthMeter_refreshMonth]
    exact .rolled rfl (hgauge _)
  · rw [CompanyBudgetState.monthExtraMeter_refreshMonth]
    exact .rolled rfl (hgauge _)
  · rw [CompanyBudgetState.dayExtraMeter_refreshMonth]
    exact hgauge CompanyBudgetState.dayExtraMeter ▸ .same

/-- Before the first debit a gauge is rolled to the period of the reading or loaded. -/
theorem Move.gauge (hmove : Move config store c u t now l l') (g : Gauge) :
    GaugeMoved store c u t l g (l'.gauge g) := by
  cases hmove with
  | access | usage | platform =>
    rw [gauge_congr (l := l) (by rfl) (by rfl)]
    exact .same
  | budget b hnone hb => exact .recoverBudget hnone hb g
  | subject userId s hu hnone hs =>
    have hgauge : ∀ {α : Type} (f : SubjectState → α),
        (l.subjects.lookup (c, userId)).map f = none := fun f => by rw [hnone]; rfl
    have hhour : s.hourPeriod = TimeFrame.hourOf t := by rw [hs.eq]; rfl
    have hday : s.dayPeriod = TimeFrame.dayOf t := by rw [hs.eq]; rfl
    refine .setSubject (fun d => ?_) (fun d => ?_) g
    · have hmeter : s.hourMeter d = ⟨TimeFrame.hourOf t, s.hourUsed.of d⟩ := Meter.ext hhour rfl
      rw [hmeter]
      exact .loaded (touched_hour hu) (hgauge _) (hs.hour d)
    · have hmeter : s.dayMeter d = ⟨TimeFrame.dayOf t, s.dayUsed.of d⟩ := Meter.ext hday rfl
      rw [hmeter]
      refine .loaded (touched_day hu) (hgauge _) ?_
      cases d with
      | cpu => exact hs.cpu
      | inference => exact hs.inference
  | refreshSubject userId s hu hs =>
    have hgauge : ∀ {α : Type} (f : SubjectState → α),
        (l.subjects.lookup (c, userId)).map f = some (f s) := fun f => by rw [hs]; rfl
    refine .setSubject (fun d => ?_) (fun d => ?_) g
    · rw [SubjectState.hourMeter_refreshPeriods]
      exact .rolled (touched_hour hu) (hgauge _)
    · rw [SubjectState.dayMeter_refreshPeriods]
      exact .rolled (touched_day hu) (hgauge _)
  | refreshMonth b hb => exact .refreshMonth hb g
  | refreshDay b hb =>
    have hgauge : ∀ {α : Type} (f : CompanyBudgetState → α),
        (l.budgets.lookup c).map f = some (f b) := fun f => by rw [hb]; rfl
    refine .setBudget (fun d => ?_) ?_ ?_ g
    · rw [CompanyBudgetState.monthMeter_refreshDay]
      exact hgauge (·.monthMeter d) ▸ .same
    · rw [CompanyBudgetState.monthExtraMeter_refreshDay]
      exact hgauge CompanyBudgetState.monthExtraMeter ▸ .same
    · rw [CompanyBudgetState.dayExtraMeter_refreshDay]
      exact .rolled rfl (hgauge _)

theorem hourMeter_charged (s : SubjectState) (credits : Credits) (countDaily : Bool)
    (d : Resource) :
    (s.charged credits countDaily).hourMeter d = (s.hourMeter d).add (credits.of d) :=
  Meter.ext rfl (Credits.of_add _ _ _)

theorem dayMeter_charged (s : SubjectState) (credits : Credits) (extra : ℕ) (d : Resource) :
    (s.charged credits !decide (0 < extra)).dayMeter d =
      (s.dayMeter d).add (if extra = 0 then credits.of d else 0) := by
  refine Meter.ext rfl ?_
  show (if !decide (0 < extra) then s.dayUsed.add credits else s.dayUsed).of d = s.dayUsed.of d + _
  rcases Nat.eq_zero_or_pos extra with rfl | hpos
  · exact Credits.of_add _ _ _
  · rw [if_neg (by simp [hpos]), if_neg hpos.ne', Nat.add_zero]

theorem monthMeter_charged (b : CompanyBudgetState) (credits : Credits) (extra : ℕ)
    (d : Resource) :
    (b.charged credits extra).monthMeter d =
      (b.monthMeter d).add (if extra = 0 then credits.of d else 0) := by
  unfold CompanyBudgetState.charged
  rcases Nat.eq_zero_or_pos extra with rfl | hpos
  · exact Meter.ext rfl (Credits.of_add _ _ _)
  · rw [if_pos hpos, if_neg hpos.ne']
    rfl

theorem monthExtraMeter_charged (b : CompanyBudgetState) (credits : Credits) (extra : ℕ) :
    (b.charged credits extra).monthExtraMeter = b.monthExtraMeter.add extra := by
  unfold CompanyBudgetState.charged
  rcases Nat.eq_zero_or_pos extra with rfl | hpos
  · rfl
  · rw [if_pos hpos]
    rfl

theorem dayExtraMeter_charged (b : CompanyBudgetState) (credits : Credits) (extra : ℕ) :
    (b.charged credits extra).dayExtraMeter = b.dayExtraMeter.add extra := by
  unfold CompanyBudgetState.charged
  rcases Nat.eq_zero_or_pos extra with rfl | hpos
  · rfl
  · rw [if_pos hpos]
    rfl

/-- A charge adds its weight to the gauges it touches. -/
theorem gauge_charged {extra : ℕ} {company : SubjectState}
    (hready : Ready config r t now extra l company user b)
    (hcharged : Charged r t extra l l' company user b) (g : Gauge) :
    l'.gauge g =
      if g.Touched r.companyId r.userId then
        (l.gauge g).map (·.add (g.weight r.credits extra)) else l.gauge g := by
  have hsubject : ∀ key,
      key = (r.companyId, companyAggregateUserId) ∨ key = (r.companyId, r.userId) →
      ∃ s, l.subjects.lookup key = some s ∧
        l'.subjects.lookup key = some (s.charged r.credits !decide (0 < extra)) := by
    rintro key (rfl | rfl)
    · exact ⟨company, hready.companyAt, hcharged.company⟩
    · exact ⟨user, hready.userAt, hcharged.user⟩
  split_ifs with htouched
  · cases g with
    | hour key =>
      obtain ⟨s, hs, hs'⟩ := hsubject key htouched
      simp only [RateLimiter.gauge, hs, hs', Option.map_some, hourMeter_charged, Gauge.weight]
    | day key =>
      obtain ⟨s, hs, hs'⟩ := hsubject key htouched
      simp only [RateLimiter.gauge, hs, hs', Option.map_some, dayMeter_charged, Gauge.weight]
    | month c =>
      obtain rfl : c = r.companyId := htouched
      simp only [RateLimiter.gauge, hready.budgetAt, hcharged.budget, Option.map_some,
        monthMeter_charged, Gauge.weight]
    | monthExtra c =>
      obtain rfl : c = r.companyId := htouched
      simp only [RateLimiter.gauge, hready.budgetAt, hcharged.budget, Option.map_some,
        monthExtraMeter_charged, Gauge.weight]
    | dayExtra c =>
      obtain rfl : c = r.companyId := htouched
      simp only [RateLimiter.gauge, hready.budgetAt, hcharged.budget, Option.map_some,
        dayExtraMeter_charged, Gauge.weight]
  · cases g with
    | hour key | day key =>
      obtain ⟨hcompany, huser⟩ := not_or.mp htouched
      simp only [RateLimiter.gauge, hcharged.subjects key hcompany huser]
    | month c | monthExtra c | dayExtra c =>
      simp only [RateLimiter.gauge, hcharged.budgets c htouched]

/-- The gauges an admission touches are at the period of its reading when it is judged. -/
theorem Refreshed.label {company : SubjectState} (h : Refreshed r t now l company user b)
    (htouched : g.Touched r.companyId r.userId) :
    ∃ m, l.gauge g = some m ∧ m.label = g.periodOf t := by
  have hsubject : ∀ key,
      key = (r.companyId, companyAggregateUserId) ∨ key = (r.companyId, r.userId) →
      ∃ s, l.subjects.lookup key = some s ∧ s.hourPeriod = TimeFrame.hourOf t ∧
        s.dayPeriod = TimeFrame.dayOf t := by
    rintro key (rfl | rfl)
    · exact ⟨company, h.companyAt, h.companyHour, h.companyDay⟩
    · exact ⟨user, h.userAt, h.userHour, h.userDay⟩
  cases g with
  | hour key d =>
    obtain ⟨s, hs, hhour, -⟩ := hsubject key htouched
    exact ⟨s.hourMeter d, congrArg (Option.map _) hs, hhour⟩
  | day key d =>
    obtain ⟨s, hs, -, hday⟩ := hsubject key htouched
    exact ⟨s.dayMeter d, congrArg (Option.map _) hs, hday⟩
  | month c d =>
    obtain rfl : c = r.companyId := htouched
    exact ⟨b.monthMeter d, congrArg (Option.map _) h.budgetAt, h.month⟩
  | monthExtra c =>
    obtain rfl : c = r.companyId := htouched
    exact ⟨b.monthExtraMeter, congrArg (Option.map _) h.budgetAt, h.month⟩
  | dayExtra c =>
    obtain rfl : c = r.companyId := htouched
    exact ⟨b.dayExtraMeter, congrArg (Option.map _) h.budgetAt, h.extraDay⟩

/-- A debit that may have stopped half-way takes no gauge down. -/
theorem Debit.gauge (hdebit : Debit r t l l') (g : Gauge) :
    l'.gauge g = l.gauge g ∨ g.Touched r.companyId r.userId ∧ ∃ m v, l.gauge g = some m ∧
      m.value ≤ v ∧ l'.gauge g = some ⟨m.label, v⟩ := by
  cases hdebit with
  | usage | platform => exact .inl (gauge_congr rfl rfl g)
  | subject userId s s' hu hs hgrown =>
    rw [gauge_setSubject]
    cases g with
    | hour key d =>
      dsimp only
      split_ifs with hkey
      · subst hkey
        refine .inr ⟨touched_hour hu, s.hourMeter d, s'.hourUsed.of d, congrArg (Option.map _) hs,
          hgrown.hourUsed d, ?_⟩
        exact congrArg some (Meter.ext hgrown.hourPeriod rfl)
      · exact .inl rfl
    | day key d =>
      dsimp only
      split_ifs with hkey
      · subst hkey
        refine .inr ⟨touched_day hu, s.dayMeter d, s'.dayUsed.of d, congrArg (Option.map _) hs,
          hgrown.dayUsed d, ?_⟩
        exact congrArg some (Meter.ext hgrown.dayPeriod rfl)
      · exact .inl rfl
    | month | monthExtra | dayExtra => exact .inl rfl
  | budget b b' hb hgrown =>
    rw [gauge_setBudget]
    cases g with
    | hour | day => exact .inl rfl
    | month c d =>
      dsimp only
      split_ifs with hc
      · subst hc
        refine .inr ⟨rfl, b.monthMeter d, b'.monthUsed.of d, congrArg (Option.map _) hb,
          hgrown.monthUsed d, ?_⟩
        exact congrArg some (Meter.ext hgrown.month rfl)
      · exact .inl rfl
    | monthExtra =>
      dsimp only
      split_ifs with hc
      · subst hc
        refine .inr ⟨rfl, b.monthExtraMeter, b'.monthExtraUsed, congrArg (Option.map _) hb,
          hgrown.monthExtraUsed, ?_⟩
        exact congrArg some (Meter.ext hgrown.month rfl)
      · exact .inl rfl
    | dayExtra =>
      dsimp only
      split_ifs with hc
      · subst hc
        refine .inr ⟨rfl, b.dayExtraMeter, b'.dayExtraUsed, congrArg (Option.map _) hb,
          hgrown.dayExtraUsed, ?_⟩
        exact congrArg some (Meter.ext hgrown.day rfl)
      · exact .inl rfl

end

end Fareward.Limiter
