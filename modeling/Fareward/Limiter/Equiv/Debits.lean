import Fareward.Limiter.Equiv.Moves

/-!
# The debits of an admission

`commit` debits the company, the user, the budget, four usage records and the platform record, one
after the other. `Debit` lists what one of these debits can do to the memory, also one that fails;
`Charged` says what all of them have done when the admission is allowed. After the gates the only
way to fail is an overflow of a `u64` (`commit_spec`).
-/

namespace Fareward.Limiter

open Relation

variable {a b credits requested : Credits} {x y route extra : ℕ} {message : String} {e : Failure}
  {s company user : SubjectState} {r : Request} {scope : Scope} {window : Window}
  {policy : LimitPolicy} {budget : CompanyBudgetState} {p : Process} {key : UsageKey} {t : Int}
  {l₀ l : RateLimiter} {store : LimiterStore} {record : UsageRecord}

/-! ### One debit -/

/-- A bucket after a debit. -/
def TokenBucket.debited (b : TokenBucket) (credits : ℕ) : TokenBucket :=
  { b with scaledTokens := b.scaledTokens - credits * tokenPeriod }

/-- A subject after a charge; `countDaily` is false when the extra pool pays. -/
def SubjectState.charged (s : SubjectState) (requested : Credits) (countDaily : Bool) :
    SubjectState where
  cpuBucket := s.cpuBucket.debited requested.cpu
  inferenceBucket := s.inferenceBucket.debited requested.inference
  hourPeriod := s.hourPeriod
  dayPeriod := s.dayPeriod
  hourUsed := s.hourUsed.add requested
  dayUsed := if countDaily then s.dayUsed.add requested else s.dayUsed

/-- A subject after a charge that may have stopped half-way. -/
structure SubjectGrown (s s' : SubjectState) : Prop where
  hourPeriod : s'.hourPeriod = s.hourPeriod
  dayPeriod : s'.dayPeriod = s.dayPeriod
  hourUsed : ∀ d, s.hourUsed.of d ≤ s'.hourUsed.of d
  dayUsed : ∀ d, s.dayUsed.of d ≤ s'.dayUsed.of d
  lastRefill : ∀ d, (s'.bucket d).lastRefill = (s.bucket d).lastRefill

/-- A budget after a charge. -/
def CompanyBudgetState.charged (b : CompanyBudgetState) (requested : Credits) (extra : ℕ) :
    CompanyBudgetState :=
  if 0 < extra then
    { b with
      dayExtraUsed := b.dayExtraUsed + extra
      monthExtraUsed := b.monthExtraUsed + extra
      version := b.version + 1 }
  else { b with monthUsed := b.monthUsed.add requested, version := b.version + 1 }

/-- A budget after a charge that may have stopped half-way. -/
structure BudgetGrown (b b' : CompanyBudgetState) : Prop where
  stored : b'.stored = b.stored
  month : b'.usageMonthStartDay = b.usageMonthStartDay
  day : b'.extraDayPeriod = b.extraDayPeriod
  monthUsed : ∀ d, b.monthUsed.of d ≤ b'.monthUsed.of d
  dayExtraUsed : b.dayExtraUsed ≤ b'.dayExtraUsed
  monthExtraUsed : b.monthExtraUsed ≤ b'.monthExtraUsed
  flushedVersion : b'.flushedVersion = b.flushedVersion
  version : b.version ≤ b'.version

/-- A record after a charge. -/
def UsageRecord.incremented (r : UsageRecord) (route : ℕ) (credits : Credits) : UsageRecord where
  routes := r.routes.insert route (((r.routes.get? route).getD .zero).add credits)
  version := r.version + 1
  flushedVersion := r.flushedVersion

/-- A credit that does not fit a counter. -/
def Credits.Overflows (a b : Credits) : Prop := ∃ d, u64Max < a.of d + b.of d

/-- Why a charge of a subject can fail after its buckets have paid. -/
def SubjectState.Overflows (s : SubjectState) (requested : Credits) (countDaily : Bool) : Prop :=
  s.hourUsed.Overflows requested ∨ countDaily = true ∧ s.dayUsed.Overflows requested

/-- Why a charge of a budget can fail. -/
def CompanyBudgetState.Overflows (b : CompanyBudgetState) (requested : Credits) (extra : ℕ) :
    Prop :=
  u64Max < b.version + 1 ∨
    if 0 < extra then u64Max < b.dayExtraUsed + extra ∨ u64Max < b.monthExtraUsed + extra
    else b.monthUsed.Overflows requested

/-- Why a charge of a record can fail. -/
def UsageRecord.Overflows (r : UsageRecord) (route : ℕ) (credits : Credits) : Prop :=
  u64Max < r.version + 1 ∨ ((r.routes.get? route).getD .zero).Overflows credits

theorem checkedAdd_eq_none (h : a.checkedAdd b = none) : a.Overflows b := by
  by_contra hno
  have hle : ∀ d, a.of d + b.of d ≤ u64Max := fun d => not_lt.mp fun hlt => hno ⟨d, hlt⟩
  rw [Credits.checkedAdd_of_le hle] at h
  cases h

theorem checkedU64_eq_none (h : checkedU64 x = none) : u64Max < x := by
  unfold checkedU64 at h
  split_ifs at h with hle
  exact not_le.mp hle

theorem chargeBucket_spec {b : TokenBucket} {credits : ℕ} (h : b.canCharge credits) :
    (TokenBucket.charge credits).wp b fun res b' =>
      res = .ok () ∧ b' = b.debited credits := by
  unfold TokenBucket.charge
  apply Op.wp_get_bind
  have hle : credits * tokenPeriod ≤ b.scaledTokens := of_decide_eq_true h
  rw [if_pos hle]
  exact ⟨rfl, rfl⟩

theorem addCredits_error (h : addCredits message a b = .error e) :
    e = .overflow message ∧ a.Overflows b := by
  unfold addCredits at h
  split at h
  · cases h
  · next hnone =>
    injection h with h
    exact ⟨h.symm, checkedAdd_eq_none hnone⟩

theorem addU64_error (h : addU64 message x y = .error e) :
    e = .overflow message ∧ u64Max < x + y := by
  unfold addU64 at h
  split at h
  · cases h
  · next hnone =>
    injection h with h
    exact ⟨h.symm, checkedU64_eq_none hnone⟩

theorem addU64_ok {z : ℕ} (h : addU64 message x y = .ok z) : z = x + y := by
  unfold addU64 at h
  split at h
  · next hsome =>
    injection h with h
    obtain ⟨rfl, -⟩ := checkedU64_eq_some.mp hsome
    exact h.symm
  · cases h

/-- A charge after the buckets have paid. The buckets it leaves are variables here: unfolded, they
hold numbers of the size of `tokenPeriod`. -/
theorem chargeSubject_of_buckets (countDaily : Bool) {cpu inference : TokenBucket}
    (hcpu : (TokenBucket.charge requested.cpu).wp s.cpuBucket fun res b =>
      res = .ok () ∧ b = cpu)
    (hinference : (TokenBucket.charge requested.inference).wp s.inferenceBucket fun res b =>
      res = .ok () ∧ b = inference) (hcpuRefill : cpu.lastRefill = s.cpuBucket.lastRefill)
    (hinferenceRefill : inference.lastRefill = s.inferenceBucket.lastRefill) :
    (SubjectState.charge requested countDaily).wp s fun res s' => SubjectGrown s s' ∧
      match res with
      | .ok _ => s' = ⟨cpu, inference, s.hourPeriod, s.dayPeriod, s.hourUsed.add requested,
          if countDaily then s.dayUsed.add requested else s.dayUsed⟩
      | .error e => s.Overflows requested countDaily ∧ ∃ message, e = .overflow message := by
  have hrefill : ∀ (hourUsed dayUsed : Credits) (d : Resource),
      (SubjectState.bucket ⟨cpu, inference, s.hourPeriod, s.dayPeriod, hourUsed, dayUsed⟩
        d).lastRefill = (s.bucket d).lastRefill := by
    intro _ _ d
    cases d
    · exact hcpuRefill
    · exact hinferenceRefill
  have hadd : ∀ (c : Credits) d, c.of d ≤ (c.add requested).of d := by
    intro c d
    rw [Credits.of_add]
    omega
  unfold SubjectState.charge SubjectState.chargeCpuBucket SubjectState.chargeInferenceBucket
  apply Op.wp_bind
  refine Op.wp_onEntry (t := s.cpuBucket) rfl ?_
  apply Op.wp_mono hcpu
  rintro _ _ ⟨rfl, rfl⟩
  apply Op.wp_bind
  refine Op.wp_onEntry (t := s.inferenceBucket) rfl ?_
  apply Op.wp_mono hinference
  rintro _ _ ⟨rfl, rfl⟩
  apply Op.wp_get_bind
  refine Op.wp_lift_bind (fun e he => ⟨?_, .inl (addCredits_error he).2, _,
    (addCredits_error he).1⟩) fun hourUsed hhour => ?_
  · exact ⟨rfl, rfl, fun _ => le_rfl, fun _ => le_rfl, hrefill _ _⟩
  obtain ⟨-, rfl⟩ := Credits.checkedAdd_eq_some.mp (addCredits_ok hhour)
  apply Op.wp_set_bind
  cases countDaily with
  | false => exact Op.wp_pure ⟨⟨rfl, rfl, hadd _, fun _ => le_rfl, hrefill _ _⟩, rfl⟩
  | true =>
    apply Op.wp_get_bind
    refine Op.wp_lift_bind (fun e he => ⟨?_, .inr ⟨rfl, (addCredits_error he).2⟩, _,
      (addCredits_error he).1⟩) fun dayUsed hday => ?_
    · exact ⟨rfl, rfl, hadd _, fun _ => le_rfl, hrefill _ _⟩
    obtain ⟨-, rfl⟩ := Credits.checkedAdd_eq_some.mp (addCredits_ok hday)
    exact Op.wp_set ⟨⟨rfl, rfl, hadd _, hadd _, hrefill _ _⟩, rfl⟩

theorem mk_lastRefill (tokens refill : ℕ) : (TokenBucket.mk tokens refill).lastRefill = refill :=
  rfl

/-- A charge of a subject whose buckets can pay succeeds, or overflows a counter. -/
theorem chargeSubject_spec (countDaily : Bool) (hcpu : s.cpuBucket.canCharge requested.cpu)
    (hinference : s.inferenceBucket.canCharge requested.inference) :
    (SubjectState.charge requested countDaily).wp s fun res s' => SubjectGrown s s' ∧
      match res with
      | .ok _ => s' = s.charged requested countDaily
      | .error e => s.Overflows requested countDaily ∧ ∃ message, e = .overflow message :=
  chargeSubject_of_buckets countDaily (chargeBucket_spec hcpu) (chargeBucket_spec hinference)
    (mk_lastRefill _ _) (mk_lastRefill _ _)

/-- A charge of a budget succeeds, or overflows a counter. -/
theorem chargeBudget_spec (b : CompanyBudgetState) (requested : Credits) (extra : ℕ) :
    (if decide (0 < extra) then CompanyBudgetState.addExtraUsed extra
      else CompanyBudgetState.addMonthUsed requested).wp b fun res b' => BudgetGrown b b' ∧
      match res with
      | .ok _ => b' = b.charged requested extra
      | .error e => b.Overflows requested extra ∧ ∃ message, e = .overflow message := by
  unfold CompanyBudgetState.Overflows
  by_cases hextra : 0 < extra
  · rw [if_pos (decide_eq_true hextra)]
    simp only [if_pos hextra]
    apply Op.wp_get_bind
    refine Op.wp_lift_bind (fun e he => ⟨?_, .inr (.inl (addU64_error he).2), _,
      (addU64_error he).1⟩) fun day hday => ?_
    · exact ⟨rfl, rfl, rfl, fun _ => le_rfl, le_rfl, le_rfl, rfl, le_rfl⟩
    obtain rfl := addU64_ok hday
    apply Op.wp_set_bind
    apply Op.wp_get_bind
    refine Op.wp_lift_bind (fun e he => ⟨?_, .inr (.inr (addU64_error he).2), _,
      (addU64_error he).1⟩) fun month hmonth => ?_
    · exact ⟨rfl, rfl, rfl, fun _ => le_rfl, Nat.le_add_right _ _, le_rfl, rfl, le_rfl⟩
    obtain rfl := addU64_ok hmonth
    apply Op.wp_set_bind
    apply Op.wp_get_bind
    refine Op.wp_lift_bind (fun e he => ⟨?_, .inl (addU64_error he).2, _,
      (addU64_error he).1⟩) fun version hversion => ?_
    · exact ⟨rfl, rfl, rfl, fun _ => le_rfl, Nat.le_add_right _ _, Nat.le_add_right _ _, rfl,
        le_rfl⟩
    obtain rfl := addU64_ok hversion
    refine Op.wp_set ⟨⟨rfl, rfl, rfl, fun _ => le_rfl, Nat.le_add_right _ _, Nat.le_add_right _ _,
      rfl, Nat.le_add_right _ _⟩, ?_⟩
    exact (if_pos hextra).symm
  · rw [if_neg (by simpa using hextra)]
    simp only [if_neg hextra]
    apply Op.wp_get_bind
    refine Op.wp_lift_bind (fun e he => ⟨?_, .inr (addCredits_error he).2, _,
      (addCredits_error he).1⟩) fun used hused => ?_
    · exact ⟨rfl, rfl, rfl, fun _ => le_rfl, le_rfl, le_rfl, rfl, le_rfl⟩
    obtain ⟨-, rfl⟩ := Credits.checkedAdd_eq_some.mp (addCredits_ok hused)
    have hgrown : ∀ d, b.monthUsed.of d ≤ (b.monthUsed.add requested).of d := by
      intro d
      rw [Credits.of_add]
      omega
    apply Op.wp_set_bind
    apply Op.wp_get_bind
    refine Op.wp_lift_bind (fun e he => ⟨?_, .inl (addU64_error he).2, _,
      (addU64_error he).1⟩) fun version hversion => ?_
    · exact ⟨rfl, rfl, rfl, hgrown, le_rfl, le_rfl, rfl, le_rfl⟩
    obtain rfl := addU64_ok hversion
    refine Op.wp_set ⟨⟨rfl, rfl, rfl, hgrown, le_rfl, le_rfl, rfl, Nat.le_add_right _ _⟩, ?_⟩
    exact (if_neg hextra).symm

theorem increment_ok {r : UsageRecord} (h : (r.increment route credits).1 = .ok ()) :
    (r.increment route credits).2 = r.incremented route credits := by
  unfold UsageRecord.increment at h ⊢
  simp only at h ⊢
  split at h
  · cases h
  · next updated hadd =>
    obtain ⟨-, rfl⟩ := Credits.checkedAdd_eq_some.mp hadd
    split at h
    · cases h
    · next version hversion =>
      obtain ⟨rfl, -⟩ := checkedU64_eq_some.mp hversion
      rfl

theorem increment_error {r : UsageRecord}
    (h : (r.increment route credits).1.mapError Failure.overflow = .error e) :
    r.Overflows route credits ∧ ∃ message, e = .overflow message := by
  cases hr : (r.increment route credits).1 with
  | ok => rw [hr] at h; cases h
  | error message =>
    rw [hr] at h
    injection h with h
    refine ⟨?_, message, h.symm⟩
    unfold UsageRecord.increment at hr
    simp only at hr
    split at hr
    · next hnone => exact .inr (checkedAdd_eq_none hnone)
    · split at hr
      · next hnone => exact .inl (checkedU64_eq_none hnone)
      · cases hr

/-! ### The gates -/

theorem violationOf_eq_none {cpu inference : Bool} :
    violationOf scope window cpu inference = none ↔ cpu = false ∧ inference = false := by
  cases cpu <;> cases inference <;> simp [violationOf]

theorem exceeds_eq_false {current requested limit : ℕ} :
    exceeds current requested limit = false ↔
      current + requested ≤ limit ∧ current + requested ≤ u64Max := by
  unfold exceeds checkedU64
  split_ifs with h
  · simp [h]
  · simp [h]

/-- What the burst gates let through. -/
structure BurstPassed (limits : ScopeLimits) (s : SubjectState) (requested : Credits) : Prop where
  cpuBucket : s.cpuBucket.canCharge requested.cpu
  inferenceBucket : s.inferenceBucket.canCharge requested.inference
  cpuHour : s.hourUsed.cpu + requested.cpu ≤ limits.cpu.hour
  inferenceHour : s.hourUsed.inference + requested.inference ≤ limits.inference.hour
  hourFits : ∀ d, s.hourUsed.of d + requested.of d ≤ u64Max

theorem burstPassed_of_violation {limits : ScopeLimits}
    (hten : s.violation scope .tenSeconds limits requested = none)
    (hhour : s.violation scope .hour limits requested = none) : BurstPassed limits s requested := by
  obtain ⟨hcpu, hinference⟩ := violationOf_eq_none.mp hten
  obtain ⟨hcpuHour, hinferenceHour⟩ := violationOf_eq_none.mp hhour
  obtain ⟨hcpuHour, hcpuFits⟩ := exceeds_eq_false.mp hcpuHour
  obtain ⟨hinferenceHour, hinferenceFits⟩ := exceeds_eq_false.mp hinferenceHour
  refine ⟨by simpa using hcpu, by simpa using hinference, hcpuHour, hinferenceHour, fun d => ?_⟩
  cases d
  · exact hcpuFits
  · exact hinferenceFits

theorem burst_passed (h : burstViolation policy company user requested = none) :
    BurstPassed policy.company company requested ∧ BurstPassed policy.user user requested := by
  unfold burstViolation at h
  obtain ⟨hc10, h⟩ := (Option.orElse_eq_none _ _).mp h
  obtain ⟨hu10, h⟩ := (Option.orElse_eq_none _ _).mp h
  obtain ⟨hch, huh⟩ := (Option.orElse_eq_none _ _).mp h
  exact ⟨burstPassed_of_violation hc10 hch, burstPassed_of_violation hu10 huh⟩

/-- What the entitlement gates let through. -/
structure QuotaPassed (policy : LimitPolicy) (company user : SubjectState)
    (budget : CompanyBudgetState) (requested : Credits) : Prop where
  day : ∀ d, company.dayUsed.of d + requested.of d ≤ budget.stored.daily.of d
  share : ∀ d, user.dayUsed.of d + requested.of d ≤ (policy.userDaily budget.stored.daily).of d
  fits : ∀ d, company.dayUsed.of d + requested.of d ≤ u64Max
  userFits : ∀ d, user.dayUsed.of d + requested.of d ≤ u64Max
  month : ∀ d, 0 < requested.of d → budget.stored.budgetMonthStartDay = budget.usageMonthStartDay ∧
    budget.monthUsed.of d + requested.of d ≤ budget.stored.monthlyCeiling.of d

theorem fixedLimit_passed {current limit : Credits}
    (h : fixedLimitViolation scope window current requested limit = none) (d : Resource) :
    current.of d + requested.of d ≤ limit.of d ∧ current.of d + requested.of d ≤ u64Max := by
  obtain ⟨hcpu, hinference⟩ := violationOf_eq_none.mp h
  cases d
  · exact exceeds_eq_false.mp hcpu
  · exact exceeds_eq_false.mp hinference

theorem monthly_passed {b : CompanyBudgetState} (h : b.monthlyViolation requested = none)
    (d : Resource) (hd : 0 < requested.of d) :
    b.stored.budgetMonthStartDay = b.usageMonthStartDay ∧
      b.monthUsed.of d + requested.of d ≤ b.stored.monthlyCeiling.of d := by
  obtain ⟨hcpu, hinference⟩ := violationOf_eq_none.mp h
  cases d
  · have hd : 0 < requested.cpu := hd
    simp only [hd, decide_true, Bool.true_and, Bool.or_eq_false_iff, Bool.not_eq_false',
      decide_eq_true_eq] at hcpu
    exact ⟨hcpu.1, (exceeds_eq_false.mp hcpu.2).1⟩
  · have hd : 0 < requested.inference := hd
    simp only [hd, decide_true, Bool.true_and, Bool.or_eq_false_iff, Bool.not_eq_false',
      decide_eq_true_eq] at hinference
    exact ⟨hinference.1, (exceeds_eq_false.mp hinference.2).1⟩

theorem quota_passed (h : quotaViolation policy company user budget requested = none) :
    QuotaPassed policy company user budget requested := by
  unfold quotaViolation at h
  obtain ⟨hday, h⟩ := (Option.orElse_eq_none _ _).mp h
  obtain ⟨hshare, hmonth⟩ := (Option.orElse_eq_none _ _).mp h
  exact ⟨fun d => (fixedLimit_passed hday d).1, fun d => (fixedLimit_passed hshare d).1,
    fun d => (fixedLimit_passed hday d).2, fun d => (fixedLimit_passed hshare d).2,
    monthly_passed hmonth⟩

theorem extraGrant_eq_some {b : CompanyBudgetState} {pool grant : ℕ}
    (h : b.extraGrant requested pool = some grant) :
    grant = requested.cpu ∧ 0 < requested.cpu ∧ requested.inference = 0 ∧
      b.dayExtraUsed + requested.cpu ≤ pool ∧ b.dayExtraUsed + requested.cpu ≤ u64Max := by
  unfold CompanyBudgetState.extraGrant at h
  split_ifs at h with hno
  obtain ⟨total, htotal, h⟩ := Option.bind_eq_some_iff.mp h
  obtain ⟨rfl, hfits⟩ := checkedU64_eq_some.mp htotal
  obtain ⟨hle, h⟩ := Option.ite_none_right_eq_some.mp h
  cases h
  omega

theorem settle_ok {burst quota : Option LimitViolation} {grant : Option ℕ}
    (h : settle burst quota grant = .ok extra) :
    burst = none ∧ (quota = none ∧ extra = 0 ∨ quota ≠ none ∧ grant = some extra) := by
  cases burst with
  | some => cases h
  | none =>
    refine ⟨rfl, ?_⟩
    cases quota with
    | none =>
      injection h with h
      exact .inl ⟨rfl, h.symm⟩
    | some =>
      cases grant with
      | none => cases h
      | some =>
        injection h with h
        exact .inr ⟨by simp, by rw [h]⟩

/-- What the gates let through: the burst gates always pass, and either the entitlement pays or,
after it refused, the pool pays for an eligible request without inference. -/
theorem gates_ok (h : gates policy company user budget r = .ok extra) :
    BurstPassed policy.company company r.credits ∧ BurstPassed policy.user user r.credits ∧
      ((extra = 0 ∧ QuotaPassed policy company user budget r.credits) ∨
        (0 < extra ∧ quotaViolation policy company user budget r.credits ≠ none ∧
          r.extraCreditsAllowed = true ∧ extra = r.credits.cpu ∧ r.credits.inference = 0 ∧
          budget.dayExtraUsed + extra ≤ policy.companyExtraDailyCpu ∧
          budget.dayExtraUsed + extra ≤ u64Max)) := by
  obtain ⟨hburst, hrest⟩ := settle_ok h
  obtain ⟨hcompany, huser⟩ := burst_passed hburst
  refine ⟨hcompany, huser, ?_⟩
  rcases hrest with ⟨hquota, hextra⟩ | ⟨hquota, hgrant⟩
  · exact .inl ⟨hextra, quota_passed hquota⟩
  · obtain ⟨hallowed, hgrant⟩ := Option.ite_none_right_eq_some.mp hgrant
    obtain ⟨rfl, hpos, hinference, hpool, hfits⟩ := extraGrant_eq_some hgrant
    exact .inr ⟨hpos, hquota, hallowed, rfl, hinference, hpool, hfits⟩

/-! ### All debits -/

/-- The keys of the four records of a charge. -/
def chargeKeys (r : Request) (t : Int) : List UsageKey :=
  [⟨r.companyId, r.userId, TimeFrame.fiveMinuteOf t⟩,
    ⟨r.companyId, r.userId, TimeFrame.dailyOf t⟩,
    ⟨r.companyId, companyAggregateUserId, TimeFrame.fiveMinuteOf t⟩,
    ⟨r.companyId, companyAggregateUserId, TimeFrame.dailyOf t⟩]

/-- The record under a key, or the empty one that a charge starts from. -/
def UsageMap.recordAt (m : UsageMap) (key : UsageKey) : UsageRecord :=
  (m.lookup key).getD (.loaded ∅)

/-- What one debit of the charge `r` at the reading `t` can do, also one that fails. -/
inductive Debit (r : Request) (t : Int) : RateLimiter → RateLimiter → Prop
  | subject (l : RateLimiter) (userId : Int) (s s' : SubjectState)
      (hu : userId = companyAggregateUserId ∨ userId = r.userId)
      (hs : l.subjects.lookup (r.companyId, userId) = some s) (hgrown : SubjectGrown s s') :
      Debit r t l (l.setSubject (r.companyId, userId) s')
  | budget (l : RateLimiter) (b b' : CompanyBudgetState)
      (hb : l.budgets.lookup r.companyId = some b) (hgrown : BudgetGrown b b') :
      Debit r t l (l.setBudget r.companyId b')
  | usage (l : RateLimiter) (key : UsageKey) (hkey : key ∈ chargeKeys r t) :
      Debit r t l (l.setUsage (l.usage.insert key
        ((l.usage.recordAt key).increment r.routeId r.credits).2))
  | platform (l : RateLimiter) (record : UsageRecord)
      (hrecord : l.platformUsage.lookup (platformKeyOf t) = some record) :
      Debit r t l (l.setPlatformUsage (l.platformUsage.insert (platformKeyOf t)
        (record.increment r.routeId r.credits).2))

/-- What an allowed charge has done to the memory. `extra` is what the pool paid. -/
structure Charged (r : Request) (t : Int) (extra : ℕ) (l l' : RateLimiter)
    (company user : SubjectState) (budget : CompanyBudgetState) : Prop where
  company : l'.subjects.lookup (r.companyId, companyAggregateUserId) =
    some (company.charged r.credits !decide (0 < extra))
  user : l'.subjects.lookup (r.companyId, r.userId) =
    some (user.charged r.credits !decide (0 < extra))
  subjects : ∀ key, key ≠ (r.companyId, companyAggregateUserId) → key ≠ (r.companyId, r.userId) →
    l'.subjects.lookup key = l.subjects.lookup key
  budget : l'.budgets.lookup r.companyId = some (budget.charged r.credits extra)
  budgets : ∀ c, c ≠ r.companyId → l'.budgets.lookup c = l.budgets.lookup c
  usage : ∀ key ∈ chargeKeys r t, l'.usage.lookup key =
    some ((l.usage.recordAt key).incremented r.routeId r.credits)
  otherUsage : ∀ key ∉ chargeKeys r t, l'.usage.lookup key = l.usage.lookup key
  platform : ∃ record, l.platformUsage.lookup (platformKeyOf t) = some record ∧
    l'.platformUsage.lookup (platformKeyOf t) = some (record.incremented r.routeId r.credits)
  otherPlatform : ∀ key, key ≠ platformKeyOf t →
    l'.platformUsage.lookup key = l.platformUsage.lookup key
  access : l'.access = l.access

theorem wp_incrementRecord {Q : Except Failure Unit → Process → Prop}
    (h : Q (((p.limiter.usage.recordAt key).increment route credits).1.mapError .overflow)
      ⟨p.limiter.setUsage (p.limiter.usage.insert key
        ((p.limiter.usage.recordAt key).increment route credits).2), p.store⟩) :
    (incrementRecord key route credits).wp p Q := by
  apply Op.wp_get_bind
  exact wp_modifyLimiter_bind (Op.wp_lift h)

/-- Raising the records of a list of keys one after the other. -/
def incrementAll (route : ℕ) (credits : Credits) : List UsageKey → UsageMap → UsageMap
  | [], m => m
  | key :: keys, m =>
    incrementAll route credits keys (m.insert key ((m.recordAt key).incremented route credits))

theorem lookup_incrementAll_of_notMem :
    ∀ {keys : List UsageKey} {m : UsageMap}, key ∉ keys →
      (incrementAll route credits keys m).lookup key = m.lookup key
  | [], _, _ => rfl
  | k :: keys, m, h => by
    obtain ⟨hne, h⟩ := List.ne_and_not_mem_of_not_mem_cons h
    rw [incrementAll, lookup_incrementAll_of_notMem h, Finmap.lookup_insert_of_ne _ hne]

theorem lookup_incrementAll :
    ∀ {keys : List UsageKey} {m : UsageMap}, keys.Nodup → key ∈ keys →
      (incrementAll route credits keys m).lookup key =
        some ((m.recordAt key).incremented route credits)
  | k :: keys, m, hnd, h => by
    obtain ⟨hk, hnd⟩ := List.nodup_cons.mp hnd
    rw [incrementAll]
    rcases List.mem_cons.mp h with rfl | h
    · rw [lookup_incrementAll_of_notMem hk, Finmap.lookup_insert]
    · have hne : key ≠ k := fun he => hk (he ▸ h)
      rw [lookup_incrementAll hnd h]
      unfold UsageMap.recordAt
      rw [Finmap.lookup_insert_of_ne _ hne]

/-- Why the debits of a charge can fail after the gates. -/
inductive Overflowing (r : Request) (t : Int) (extra : ℕ) (l : RateLimiter)
    (company user : SubjectState) (budget : CompanyBudgetState) : Prop
  | company (h : company.Overflows r.credits (!decide (0 < extra)))
  | user (h : user.Overflows r.credits (!decide (0 < extra)))
  | budget (h : budget.Overflows r.credits extra)
  | usage (key : UsageKey) (hkey : key ∈ chargeKeys r t)
    (h : (l.usage.recordAt key).Overflows r.routeId r.credits)
  | platform (record : UsageRecord)
    (hrecord : l.platformUsage.lookup (platformKeyOf t) = some record)
    (h : record.Overflows r.routeId r.credits)

/-- What the debits have come to: the memory has only been debited, and they are complete or one of
them overflowed. -/
def Committed (r : Request) (t : Int) (l : RateLimiter) (store : LimiterStore)
    (complete : RateLimiter → Prop) (reason : Prop) (res : Except Failure Unit) (p' : Process) :
    Prop :=
  p'.store = store ∧ ReflTransGen (Debit r t) l p'.limiter ∧
    match res with
    | .ok _ => complete p'.limiter
    | .error e => reason ∧ ∃ message, e = .overflow message

/-- The four records are distinct: a user is not the company, and five-minute frames lie below the
daily ones. -/
theorem chargeKeys_nodup (hu : r.userId ≠ companyAggregateUserId)
    (hframe : TimeFrame.fiveMinuteOf t ≠ TimeFrame.dailyOf t) : (chargeKeys r t).Nodup := by
  simp [chargeKeys, hu, hframe]

theorem fiveMinuteOf_ne_dailyOf (h : TimeFrame.fiveMinute t = .ok (TimeFrame.fiveMinuteOf t))
    (hd : TimeFrame.daily t = .ok (TimeFrame.dailyOf t)) :
    TimeFrame.fiveMinuteOf t ≠ TimeFrame.dailyOf t := by
  obtain ⟨-, -, hlt⟩ := TimeFrame.fiveMinute_ok h
  obtain ⟨-, h0⟩ := TimeFrame.daily_ok hd
  have := TimeFrame.dayOf_nonneg h0
  unfold TimeFrame.dailyOf
  omega

theorem recordAt_insert_of_ne (m : UsageMap) {j : UsageKey} (record : UsageRecord) (h : j ≠ key) :
    UsageMap.recordAt (m.insert key record) j = m.recordAt j := by
  unfold UsageMap.recordAt
  rw [Finmap.lookup_insert_of_ne _ h]

theorem incrementRecords_spec {reason : Prop} :
    ∀ {keys : List UsageKey} {l : RateLimiter}, keys.Nodup → keys ⊆ chargeKeys r t →
      ReflTransGen (Debit r t) l₀ l →
      (∀ key ∈ keys, (l.usage.recordAt key).Overflows r.routeId r.credits → reason) →
      (incrementRecords r.routeId r.credits keys).wp ⟨l, store⟩
        (Committed r t l₀ store
          (fun l' => l' = l.setUsage (incrementAll r.routeId r.credits keys l.usage)) reason)
  | [], l, _, _, hdebits, _ => ⟨rfl, hdebits, rfl⟩
  | key :: keys, l, hnodup, hsub, hdebits, hreason => by
    obtain ⟨hkey, hnodup⟩ := List.nodup_cons.mp hnodup
    obtain ⟨hin, hsub⟩ := List.cons_subset.mp hsub
    have hdebits := hdebits.tail (.usage l key hin)
    apply Op.wp_bind
    apply wp_incrementRecord
    cases hres : ((l.usage.recordAt key).increment r.routeId r.credits).1.mapError
        Failure.overflow with
    | error e =>
      exact ⟨rfl, hdebits, hreason key List.mem_cons_self (increment_error hres).1,
        (increment_error hres).2⟩
    | ok _ =>
      rw [increment_ok (mapError_ok hres)] at hdebits ⊢
      -- the records of the other keys have not been touched
      refine incrementRecords_spec hnodup hsub hdebits fun j hj hov => ?_
      have hne : j ≠ key := fun h => hkey (h ▸ hj)
      rw [RateLimiter.setUsage, recordAt_insert_of_ne l.usage _ hne] at hov
      exact hreason j (List.mem_cons_of_mem _ hj) hov

theorem incrementPlatformUsage_spec {reason : Prop} (hdebits : ReflTransGen (Debit r t) l₀ l)
    (hframe : TimeFrame.fiveMinute t = .ok (TimeFrame.fiveMinuteOf t))
    (hrecord : l.platformUsage.lookup (platformKeyOf t) = some record)
    (hreason : record.Overflows r.routeId r.credits → reason) :
    (incrementPlatformUsage r t).wp ⟨l, store⟩ (Committed r t l₀ store
      (fun l' => l' = l.setPlatformUsage (l.platformUsage.insert (platformKeyOf t)
        (record.incremented r.routeId r.credits))) reason) := by
  have hdebits := hdebits.tail (.platform l record hrecord)
  unfold incrementPlatformUsage platformUsageKey
  rw [hframe]
  refine Op.wp_lift_bind (fun e he => by cases he) fun key hkey => ?_
  obtain rfl : platformKeyOf t = key := by injection hkey
  apply Op.wp_get_bind
  rw [hrecord]
  refine Op.wp_lift_bind (fun e he => by cases he) fun record' hrecord' => ?_
  obtain rfl : record = record' := by injection hrecord'
  refine wp_modifyLimiter_bind (Op.wp_lift ?_)
  cases hres : (record.increment r.routeId r.credits).1.mapError Failure.overflow with
  | error => exact ⟨rfl, hdebits, hreason (increment_error hres).1, (increment_error hres).2⟩
  | ok =>
    rw [increment_ok (mapError_ok hres)] at hdebits ⊢
    exact ⟨rfl, hdebits, rfl⟩

/-- The four records and then the platform record. -/
theorem incrementUsage_spec {reason : Prop} (hu : r.userId ≠ companyAggregateUserId)
    (hdebits : ReflTransGen (Debit r t) l₀ l)
    (hframe : TimeFrame.fiveMinute t = .ok (TimeFrame.fiveMinuteOf t))
    (hdaily : TimeFrame.daily t = .ok (TimeFrame.dailyOf t))
    (hrecord : l.platformUsage.lookup (platformKeyOf t) = some record)
    (hreason : ∀ key ∈ chargeKeys r t,
      (l.usage.recordAt key).Overflows r.routeId r.credits → reason)
    (hreason' : record.Overflows r.routeId r.credits → reason) :
    (do incrementUsage r t; incrementPlatformUsage r t : Call Unit).wp ⟨l, store⟩
      (Committed r t l₀ store (fun l' => l' =
        (l.setUsage (incrementAll r.routeId r.credits (chargeKeys r t) l.usage)).setPlatformUsage
          (l.platformUsage.insert (platformKeyOf t)
            (record.incremented r.routeId r.credits))) reason) := by
  have hnodup := chargeKeys_nodup hu (fiveMinuteOf_ne_dailyOf hframe hdaily)
  unfold incrementUsage
  simp only [bind_assoc]
  rw [hframe]
  refine Op.wp_lift_bind (fun e he => by cases he) fun f hf => ?_
  obtain rfl : TimeFrame.fiveMinuteOf t = f := by injection hf
  rw [hdaily]
  refine Op.wp_lift_bind (fun e he => by cases he) fun f hf => ?_
  obtain rfl : TimeFrame.dailyOf t = f := by injection hf
  refine Op.wp_call (incrementRecords_spec hnodup (List.Subset.refl _) hdebits hreason)
    (fun e p' h => h) fun _ p' h => ?_
  obtain ⟨hstore, hdebits, hcomplete⟩ := h
  have hcomplete : p'.limiter = l.setUsage
      (incrementAll r.routeId r.credits (chargeKeys r t) l.usage) := hcomplete
  obtain ⟨l', store'⟩ := p'
  obtain rfl : store' = store := hstore
  obtain rfl : l' = _ := hcomplete
  exact incrementPlatformUsage_spec hdebits hframe hrecord hreason'

/-- **The debits of an admission** that has passed its gates are complete, or one of them overflows
a `u64`. -/
theorem commit_spec {config : Config} {now : ℕ} (hu : r.userId ≠ companyAggregateUserId)
    (h : Ready config r t now extra p.limiter company user budget) :
    (commit r t extra).wp p (Committed r t p.limiter p.store
      (fun l' => Charged r t extra p.limiter l' company user budget)
      (Overflowing r t extra p.limiter company user budget)) := by
  obtain ⟨hcompany, huser, -⟩ := gates_ok h.passed
  obtain ⟨record, hrecord⟩ := Option.isSome_iff_exists.mp h.platform
  have hne : (r.companyId, r.userId) ≠ (r.companyId, companyAggregateUserId) :=
    fun heq => hu (Prod.mk.inj heq).2
  unfold commit
  -- the company
  apply Op.wp_bind
  refine wp_onSubject h.companyAt ?_
  apply Op.wp_mono (chargeSubject_spec _ hcompany.cpuBucket hcompany.inferenceBucket)
  intro res s' hs'
  obtain ⟨hgrown, hres⟩ := hs'
  have hd₁ : ReflTransGen (Debit r t) p.limiter
      (p.limiter.setSubject (r.companyId, companyAggregateUserId) s') :=
    .single (.subject p.limiter _ company s' (.inl rfl) h.companyAt hgrown)
  cases res with
  | error => exact ⟨rfl, hd₁, .company hres.1, hres.2⟩
  | ok =>
  -- the user
  apply Op.wp_bind
  have huserAt : (p.limiter.setSubject (r.companyId, companyAggregateUserId) s').subjects.lookup
      (r.companyId, r.userId) = some user := (Finmap.lookup_insert_of_ne _ hne).trans h.userAt
  refine wp_onSubject huserAt ?_
  apply Op.wp_mono (chargeSubject_spec _ huser.cpuBucket huser.inferenceBucket)
  intro res u' hu'
  obtain ⟨hgrown', hres'⟩ := hu'
  have hd₂ := hd₁.tail (.subject _ _ user u' (.inr rfl) huserAt hgrown')
  cases res with
  | error => exact ⟨rfl, hd₂, .user hres'.1, hres'.2⟩
  | ok =>
  -- the budget
  apply Op.wp_bind
  refine wp_onBudget h.budgetAt ?_
  apply Op.wp_mono (chargeBudget_spec budget r.credits extra)
  intro res b' hb'
  obtain ⟨hgrown'', hres''⟩ := hb'
  have hd₃ := hd₂.tail (.budget _ budget b' h.budgetAt hgrown'')
  cases res with
  | error => exact ⟨rfl, hd₃, .budget hres''.1, hres''.2⟩
  | ok =>
  -- the records, which the debits so far have left as they were
  have husage : ∀ key ∈ chargeKeys r t, (p.limiter.usage.recordAt key).Overflows r.routeId
      r.credits → Overflowing r t extra p.limiter company user budget := Overflowing.usage
  refine Op.wp_mono (incrementUsage_spec hu hd₃ h.fiveMinute h.daily hrecord husage
    (Overflowing.platform record hrecord)) ?_
  rintro res p' ⟨hstore, hdebits, hcomplete⟩
  refine ⟨hstore, hdebits, ?_⟩
  cases res with
  | error => exact hcomplete
  | ok =>
    have hnodup := chargeKeys_nodup hu (fiveMinuteOf_ne_dailyOf h.fiveMinute h.daily)
    rw [hcomplete]
    refine ⟨?_, ?_, fun key hc hus => ?_, ?_, fun c hc => ?_, fun key hkey => ?_,
      fun key hkey => ?_, ⟨record, hrecord, ?_⟩, fun key hkey => ?_, rfl⟩
    · rw [← hres]
      exact (Finmap.lookup_insert_of_ne _ hne.symm).trans (Finmap.lookup_insert _)
    · rw [← hres']
      exact Finmap.lookup_insert _
    · exact (Finmap.lookup_insert_of_ne _ hus).trans (Finmap.lookup_insert_of_ne _ hc)
    · rw [← hres'']
      exact Finmap.lookup_insert _
    · exact Finmap.lookup_insert_of_ne _ hc
    · exact lookup_incrementAll hnodup hkey
    · exact lookup_incrementAll_of_notMem hkey
    · exact Finmap.lookup_insert _
    · exact Finmap.lookup_insert_of_ne _ hkey

end Fareward.Limiter
