import Fareward.Limiter.Equiv.Metering

/-!
# The ceilings of the quotas

The limiter keeps one counter for the current hour and one for the current day and forgets the
earlier ones. The ceilings are about sums over whole histories: `total` of a gauge in a period.

* While the readings of the admissions of a company do not go back, its gauges of the hour and of
  the day have counted at least the accepted charges of their period (`follows_of_reaches`).
* An accepted charge has passed its gate with that gauge, so the sum stays below what the gate
  compares with (`total_le_of_gate`).
* The gate of the day compares with the entitlement in force, which mutations change: the ceiling
  of a day is the largest one that the admissions of that day were judged by (`largestDaily`).

Failed loads and debits that overflow half-way only raise a counter.
-/

namespace Fareward.Limiter

open Relation

variable {outcome : Except Failure Admission} {record : AdmissionRecord} {q c u t : Int}
  {bound : List Event → ℕ} {extra now : ℕ} {verdict : AccessVerdict} {company user : SubjectState}
  {b : CompanyBudgetState} {config : Config} {store : LimiterStore} {fates : Fates} {r : Request}
  {p p' : Process} {l l' : RateLimiter} {g : Gauge} {trace : List Event} {w w' : World} {a : Action}

/-! ### The order of the admissions -/

/-- The event is not an admission of the company at a later reading. -/
def Event.AdmittedBefore (c t : Int) : Event → Prop
  | .admission a => a.request.companyId = c → a.unixSeconds ≤ t
  | _ => True

instance (c t : Int) : DecidablePred (Event.AdmittedBefore c t)
  | .admission a => inferInstanceAs (Decidable (a.request.companyId = c → _ ≤ _))
  | .mutation _ _ _ | .prune _ _ => .isTrue trivial

/-- The admissions of a company come in the order of their readings, and the process goes on. -/
def Action.InOrder (w : World) : Action → Prop
  | .admission r t _ _ => ∀ event ∈ w.trace, event.AdmittedBefore r.companyId t
  | .restart => False
  | _ => True

instance (w : World) : DecidablePred (Action.InOrder w)
  | .admission r t _ _ =>
    inferInstanceAs (Decidable (∀ event ∈ w.trace, event.AdmittedBefore r.companyId t))
  | .restart => .isFalse id
  | .mutation _ _ _ | .invalidation _ _ | .flush _ => .isTrue trivial

/-- `t` is the reading of an admission of the company. -/
def AdmittedAt (trace : List Event) (c t : Int) : Prop :=
  ∃ a, .admission a ∈ trace ∧ a.request.companyId = c ∧ a.unixSeconds = t

theorem AdmittedAt.cons (h : AdmittedAt trace c t) (e : Event) : AdmittedAt (e :: trace) c t := by
  obtain ⟨a, ha, hc, ht⟩ := h
  exact ⟨a, List.mem_cons_of_mem e ha, hc, ht⟩

/-- The gauges that are not of the month. -/
def Gauge.Short : Gauge → Prop
  | .hour _ _ | .day _ _ | .dayExtra _ => True
  | .month _ _ | .monthExtra _ => False

/-- A mutation loads the budget of a company and moves no gauge of the hour or of the day. -/
theorem gauge_mutates_short {m : BudgetMutation} {outcome : Except Failure BudgetMutationReply}
    (hg : g.Short) (hmutates : Mutates fates m t p outcome p') :
    p'.limiter.gauge g = p.limiter.gauge g ∨ p.limiter.gauge g = none := by
  rcases gauge_mutates hmutates with hsame | ⟨b, hb, hgauge⟩
  · rw [hsame]
    exact .inl rfl
  rw [hgauge, gauge_setBudget]
  cases g with
  | hour | day => exact .inl rfl
  | month | monthExtra => exact hg.elim
  | dayExtra =>
    dsimp only
    split_ifs with hc
    · subst hc
      rw [CompanyBudgetState.dayExtraMeter_refreshMonth]
      refine hb.imp (fun hb => ?_) fun hb => ?_
      · exact (congrArg (Option.map CompanyBudgetState.dayExtraMeter) hb).symm
      · exact congrArg (Option.map CompanyBudgetState.dayExtraMeter) hb.1
    · exact .inl rfl

theorem counted_of_not_touched (hrecord : Records r t now outcome l l' record)
    (hg : ¬g.Touched r.companyId r.userId) : record.counted g = 0 := by
  unfold AdmissionRecord.counted
  split
  · rw [hrecord.request, if_neg hg]
  · rfl

theorem Follows.steps (hg : g.Short)
    (h : Follows (· ≤ ·) (AdmittedAt w.trace g.company) w.trace w.process.limiter g)
    (horder : a.InOrder w) (hsteps : Steps config w a w') :
    Follows (· ≤ ·) (AdmittedAt w'.trace g.company) w'.trace w'.process.limiter g := by
  cases hsteps with
  | @admission r t now fates outcome l' record hr hadmits hrecord =>
    by_cases hc : g.company = r.companyId
    · have htracks : Tracks (· ≤ ·) w.trace t w.process.limiter g := by
        refine h.tracks fun t' ht' => ?_
        obtain ⟨a, ha, hcompany, rfl⟩ := ht'
        exact horder _ ha (hcompany.trans hc)
      have htracks' := htracks.admits Meter.keepable_le (fun _ v _ _ => Nat.zero_le v)
        (.inl fun _ _ _ hle hv => hle.trans hv) hadmits hrecord
      refine .of_tracks htracks' ⟨record, List.mem_cons_self, ?_, hrecord.unixSeconds⟩
      rw [hrecord.request, hc]
    · refine h.congr (SameStates.gauge (.admits (Ne.symm hc) hadmits) rfl) ?_ fun _ ht => ht.cons _
      refine total_of_counted_eq_zero (counted_of_not_touched hrecord fun htouched => ?_)
      exact hc htouched.company_eq
  | @mutation m t fates outcome p' _ hmutates =>
    have htotal := total_mutation m t outcome w.trace g
    rcases gauge_mutates_short hg hmutates with hsame | hnone
    · exact h.congr hsame htotal fun _ ht => ht.cons _
    · refine .of_zero (fun q => ?_) fun m _ => Nat.zero_le m.value
      rw [htotal]
      exact (metered_of_none hnone).mp h.metered q
  | invalidation => exact h.congr (gauge_invalidateAccess _ _ _ g) (fun _ => rfl) fun _ ht => ht
  | flush hflush =>
    refine h.congr (gauge_flushes hflush g) (total_flushes hflush g) fun t ht => ?_
    cases hflush with
    | pruneShard => exact ht.cons _
    | _ => exact ht
  | restart => exact horder.elim

/-- **The gauges of the hour and of the day have counted every accepted charge.** -/
theorem follows_of_reaches
    (h : Reaches (step config) (fun w a => a.Parsed ∧ a.InOrder w) (World.boot store) w)
    (hg : g.Short) :
    Follows (· ≤ ·) (AdmittedAt w.trace g.company) w.trace w.process.limiter g :=
  h.invariant (I := fun w =>
      Follows (· ≤ ·) (AdmittedAt w.trace g.company) w.trace w.process.limiter g)
    (.of_zero (fun _ => rfl) fun m _ => Nat.zero_le m.value)
    fun _ _ _ _ ih ha hs => ih.steps hg ha.2 (step_spec ha.1 hs)

/-! ### The gates -/

/-- The gate of a gauge: a charge that counts for it leaves it below the bound. -/
def Gated (config : Config) (g : Gauge) (q : Int) (bound : List Event → ℕ) : Prop :=
  ∀ (trace : List Event) {r : Request} {t : Int} {now extra : ℕ} {verdict : AccessVerdict}
    {l₀ l l' : RateLimiter} {company user : SubjectState} {b : CompanyBudgetState}
    {record : AdmissionRecord} {m : Meter Int}, r.Parsed →
    Ready config r t now extra l company user b → Charged r t extra l l' company user b →
    Records r t now (.ok ⟨.allowed verdict, extra⟩) l₀ l' record →
    g.Touched r.companyId r.userId → g.periodOf t = q → 0 < g.weight r.credits extra →
    l.gauge g = some m → m.value + g.weight r.credits extra ≤ bound (.admission record :: trace)

theorem total_admission_le (htracks : Tracks (· ≤ ·) trace t p.limiter g)
    (hmono : ∀ e trace, bound trace ≤ bound (e :: trace)) (hgated : Gated config g q bound)
    (hr : r.Parsed) (hadmits : Admits config fates r t now p outcome l')
    (hrecord : Records r t now outcome p.limiter l' record) (h : total trace g q ≤ bound trace) :
    total (.admission record :: trace) g q ≤ bound (.admission record :: trace) := by
  by_cases hcounted : record.counted g = 0
  · rw [total_of_counted_eq_zero hcounted]
    exact h.trans (hmono _ _)
  by_cases hq : q = g.periodOf record.unixSeconds
  · -- the charge was accepted, and the gate has seen everything counted before it
    rw [total_of_period, if_pos hq]
    rw [hrecord.unixSeconds] at hq
    cases hadmits with
    | refused _ hrefused => exact absurd (counted_of_not_allowed hrecord hrefused) hcounted
    | overflowed => exact absurd (counted_of_not_allowed hrecord nofun) hcounted
    | allowed hpath hready hcharged =>
      have hweight := counted_of_allowed (g := g) hrecord
      by_cases htouched : g.Touched r.companyId r.userId
      · rw [if_pos htouched] at hweight
        obtain ⟨m, hm, hlabel⟩ := hready.label htouched
        have htracks' := htracks.moves Meter.keepable_le (fun _ v _ _ => Nat.zero_le v) hpath
        have hle := ((metered_of_some hm).mp htracks'.metered).current
        rw [hlabel, ← hq] at hle
        rw [hweight] at hcounted ⊢
        have hgate := hgated trace hr hready hcharged hrecord htouched hq.symm
          (Nat.pos_of_ne_zero hcounted) hm
        omega
      · rw [if_neg htouched] at hweight
        exact absurd hweight hcounted
  · rw [total_of_period, if_neg hq]
    exact h.trans (hmono _ _)

/-- **The accepted charges stay below what the gate compares with.** -/
theorem total_le_of_gate (hgated : Gated config g q bound) (hg : g.Short)
    (hmono : ∀ e trace, bound trace ≤ bound (e :: trace))
    (h : Reaches (step config) (fun w a => a.Parsed ∧ a.InOrder w) (World.boot store) w) :
    total w.trace g q ≤ bound w.trace := by
  refine h.invariant (I := fun w => total w.trace g q ≤ bound w.trace) (Nat.zero_le _) ?_
  intro w a w' hreach ih ha hs
  have hfollows := follows_of_reaches hreach hg
  obtain ⟨hparsed, horder⟩ := ha
  cases step_spec hparsed hs with
  | @admission r t now fates outcome l' record hr hadmits hrecord =>
    by_cases hc : g.company = r.companyId
    · refine total_admission_le (hfollows.tracks fun t' ht' => ?_) hmono hgated hr hadmits
        hrecord ih
      obtain ⟨a, ha, hcompany, rfl⟩ := ht'
      exact horder _ ha (hcompany.trans hc)
    · rw [total_of_counted_eq_zero (counted_of_not_touched hrecord fun htouched =>
        hc htouched.company_eq)]
      exact ih.trans (hmono _ _)
  | mutation =>
    dsimp only
    rw [total_mutation]
    exact ih.trans (hmono _ _)
  | invalidation => exact ih
  | flush hflush =>
    rw [total_flushes hflush]
    cases hflush with
    | pruneShard => exact ih.trans (hmono _ _)
    | _ => exact ih
  | restart => exact horder.elim

/-- What an event says of the entitlement of a company on a day. -/
def Event.daily (c q : Int) (d : Resource) : Event → ℕ
  | .admission a =>
    if a.request.companyId = c ∧ TimeFrame.dayOf a.unixSeconds = q then a.daily.of d else 0
  | _ => 0

/-- The largest daily entitlement that was in force at an admission of the company on the day. -/
def largestDaily (trace : List Event) (c q : Int) (d : Resource) : ℕ :=
  trace.foldr (fun e largest => max (e.daily c q d) largest) 0

theorem largestDaily_mono (c q : Int) (d : Resource) (e : Event) (trace : List Event) :
    largestDaily trace c q d ≤ largestDaily (e :: trace) c q d := le_max_right _ _

theorem daily_le_largestDaily (d : Resource) (hc : record.request.companyId = c)
    (hq : TimeFrame.dayOf record.unixSeconds = q) :
    record.daily.of d ≤ largestDaily (.admission record :: trace) c q d := by
  have hdaily : Event.daily c q d (.admission record) = record.daily.of d := if_pos ⟨hc, hq⟩
  rw [← hdaily]
  exact le_max_left _ _

theorem dailyShare_mono {n n' : ℕ} (h : n ≤ n') (percent : ℕ) :
    dailyShare n percent ≤ dailyShare n' percent :=
  min_le_min_right _ (Nat.div_le_div_right (Nat.mul_le_mul_right _ h))

theorem of_userDaily (policy : LimitPolicy) (daily : Credits) (d : Resource) :
    (policy.userDaily daily).of d = dailyShare (daily.of d) policy.userDailySharePct := by
  cases d <;> rfl

/-- The entitlement an accepted charge is recorded with is the one it was judged by. -/
theorem daily_of_charged {l₀ : RateLimiter} (hcharged : Charged r t extra l l' company user b)
    (hrecord : Records r t now (.ok ⟨.allowed verdict, extra⟩) l₀ l' record) :
    record.daily = b.stored.daily := by
  rw [hrecord.daily, RateLimiter.daily, hcharged.budget, Option.map_some, Option.getD_some,
    charged_stored]

/-- Either of the subjects of a charge has passed the burst gates. -/
theorem burstPassed_of_ready {s : SubjectState} {key : Int × Int}
    (hu : r.userId ≠ companyAggregateUserId) (hready : Ready config r t now extra l company user b)
    (hkey : key = (r.companyId, companyAggregateUserId) ∨ key = (r.companyId, r.userId))
    (hs : l.subjects.lookup key = some s) :
    BurstPassed (config.policy.limitsOf key.2) s r.credits := by
  obtain ⟨hcompany, huser, -⟩ := gates_ok hready.passed
  rcases hkey with rfl | rfl
  · obtain rfl := Option.some.inj (hready.companyAt.symm.trans hs)
    exact hcompany
  · obtain rfl := Option.some.inj (hready.userAt.symm.trans hs)
    rw [← limitsOf_user _ hu]
    exact huser

theorem gated_hour (config : Config) (key : Int × Int) (d : Resource) (q : Int) :
    Gated config (.hour key d) q fun _ => ((config.policy.limitsOf key.2).of d).hour := by
  intro trace r t now extra verdict l₀ l l' company user b record m hr hready _ _ htouched _ _ hm
  obtain ⟨s, hs, rfl⟩ := Option.map_eq_some_iff.mp hm
  have hpassed := burstPassed_of_ready hr.user_ne hready htouched hs
  cases d with
  | cpu => exact hpassed.cpuHour
  | inference => exact hpassed.inferenceHour

/-- A charge that counts for the day is not paid by the pool, so the entitlement has let it
through. -/
theorem quotaPassed_of_weight {d : Resource} (hready : Ready config r t now extra l company user b)
    (hpos : 0 < if extra = 0 then r.credits.of d else 0) :
    extra = 0 ∧ QuotaPassed config.policy company user b r.credits := by
  obtain ⟨-, -, hpassed | ⟨hextra, -⟩⟩ := gates_ok hready.passed
  · exact hpassed
  · rw [if_neg hextra.ne'] at hpos
    cases hpos

theorem gated_day (config : Config) (c : Int) (d : Resource) (q : Int) :
    Gated config (.day (c, companyAggregateUserId) d) q fun trace => largestDaily trace c q d := by
  intro trace r t now extra verdict l₀ l l' company user b record m hr hready hcharged hrecord
    htouched hq hpos hm
  obtain ⟨s, hs, rfl⟩ := Option.map_eq_some_iff.mp hm
  have hc : c = r.companyId := by
    rcases htouched with h | h
    · exact (Prod.mk.inj h).1
    · exact (Prod.mk.inj h).1
  subst hc
  obtain rfl := Option.some.inj (hready.companyAt.symm.trans hs)
  obtain ⟨hextra, hpassed⟩ := quotaPassed_of_weight (d := d) hready hpos
  calc (company.dayMeter d).value + (Gauge.day _ d).weight r.credits extra
      = company.dayUsed.of d + r.credits.of d := congrArg (_ + ·) (if_pos hextra)
    _ ≤ b.stored.daily.of d := hpassed.day d
    _ = record.daily.of d := by rw [daily_of_charged hcharged hrecord]
    _ ≤ largestDaily (.admission record :: trace) r.companyId q d :=
        daily_le_largestDaily d (by rw [hrecord.request]) (by rw [hrecord.unixSeconds]; exact hq)

theorem gated_share (config : Config) (c : Int) {u : Int} (hu : u ≠ companyAggregateUserId)
    (d : Resource) (q : Int) :
    Gated config (.day (c, u) d) q fun trace =>
      dailyShare (largestDaily trace c q d) config.policy.userDailySharePct := by
  intro trace r t now extra verdict l₀ l l' company user b record m hr hready hcharged hrecord
    htouched hq hpos hm
  obtain ⟨s, hs, rfl⟩ := Option.map_eq_some_iff.mp hm
  obtain ⟨rfl, rfl⟩ : c = r.companyId ∧ u = r.userId := by
    rcases htouched with h | h
    · exact absurd (Prod.mk.inj h).2 hu
    · exact Prod.mk.inj h
  obtain rfl := Option.some.inj (hready.userAt.symm.trans hs)
  obtain ⟨hextra, hpassed⟩ := quotaPassed_of_weight (d := d) hready hpos
  calc (user.dayMeter d).value + (Gauge.day _ d).weight r.credits extra
      = user.dayUsed.of d + r.credits.of d := congrArg (_ + ·) (if_pos hextra)
    _ ≤ (config.policy.userDaily b.stored.daily).of d := hpassed.share d
    _ = dailyShare (record.daily.of d) config.policy.userDailySharePct := by
        rw [of_userDaily, daily_of_charged hcharged hrecord]
    _ ≤ dailyShare (largestDaily (.admission record :: trace) r.companyId q d)
          config.policy.userDailySharePct :=
        dailyShare_mono (daily_le_largestDaily d (by rw [hrecord.request])
          (by rw [hrecord.unixSeconds]; exact hq)) _

theorem gated_dayExtra (config : Config) (c q : Int) :
    Gated config (.dayExtra c) q fun _ => config.policy.companyExtraDailyCpu := by
  intro trace r t now extra verdict l₀ l l' company user b record m hr hready _ _ htouched _ hpos hm
  obtain rfl : c = r.companyId := htouched
  obtain ⟨b', hb', rfl⟩ := Option.map_eq_some_iff.mp hm
  obtain rfl := Option.some.inj (hready.budgetAt.symm.trans hb')
  obtain ⟨-, -, ⟨hextra, -⟩ | ⟨-, -, -, -, -, hpool, -⟩⟩ := gates_ok hready.passed
  · exact absurd hextra hpos.ne'
  · exact hpool

/-- A charge that the pool pays was refused by the entitlement, on the states that the admission
had refreshed. -/
theorem refused_of_extra (hextra : 0 < extra)
    (hadmits : Admits config fates r t now p (.ok ⟨.allowed verdict, extra⟩) l') :
    r.extraCreditsAllowed = true ∧ r.credits.inference = 0 ∧ ∃ l₁ company user budget,
      ReflTransGen (Move config p.store r.companyId r.userId t now) p.limiter l₁ ∧
      Refreshed r t now l₁ company user budget ∧
      quotaViolation config.policy company user budget r.credits ≠ none := by
  cases hadmits with
  | refused _ hrefused => exact absurd rfl (hrefused verdict extra)
  | allowed hpath hready =>
    obtain ⟨-, -, ⟨hzero, -⟩ | ⟨-, hquota, hallowed, -, hinference, -, -⟩⟩ := gates_ok hready.passed
    · exact absurd hzero hextra.ne'
    · exact ⟨hallowed, hinference, _, _, _, _, hpath, hready.toRefreshed, hquota⟩

/-- **The ceilings of the quotas.** In every run in which the admissions of a company come in the
order of their readings, over any store: the accepted charges of a UTC hour stay below the hourly
limit of the company and of each user, those of a day that the entitlement paid stay below the
largest daily entitlement in force at an admission of the day (for a user, below its share of it),
and those that the pool paid below the pool. The pool pays only for an eligible charge without
inference that the gate of the day, of the share or of the month refuses. -/
theorem quota_ceilings
    (h : Reaches (step config) (fun w a => a.Parsed ∧ a.InOrder w) (World.boot store) w) :
    (∀ c u d q, total w.trace (.hour (c, u) d) q ≤ ((config.policy.limitsOf u).of d).hour) ∧
    (∀ c d q, total w.trace (.day (c, companyAggregateUserId) d) q ≤ largestDaily w.trace c q d) ∧
    (∀ c u d q, u ≠ companyAggregateUserId → total w.trace (.day (c, u) d) q ≤
      dailyShare (largestDaily w.trace c q d) config.policy.userDailySharePct) ∧
    (∀ c q, total w.trace (.dayExtra c) q ≤ config.policy.companyExtraDailyCpu) ∧
    ∀ r t now fates verdict extra, r.Parsed →
      ((admitAt config fates r t now).exec w.process).1 = .ok ⟨.allowed verdict, extra⟩ →
      0 < extra → r.extraCreditsAllowed = true ∧ r.credits.inference = 0 ∧
        ∃ l₁ company user budget,
          ReflTransGen (Move config w.process.store r.companyId r.userId t now)
            w.process.limiter l₁ ∧
          Refreshed r t now l₁ company user budget ∧
          quotaViolation config.policy company user budget r.credits ≠ none := by
  refine ⟨fun c u d q => ?_, fun c d q => ?_, fun c u d q hu => ?_, fun c q => ?_, ?_⟩
  · exact total_le_of_gate (gated_hour config (c, u) d q) trivial (fun _ _ => le_rfl) h
  · exact total_le_of_gate (gated_day config c d q) trivial (largestDaily_mono c q d) h
  · exact total_le_of_gate (gated_share config c hu d q) trivial
      (fun e trace => dailyShare_mono (largestDaily_mono c q d e trace) _) h
  · exact total_le_of_gate (gated_dayExtra config c q) trivial (fun _ _ => le_rfl) h
  · intro r t now fates verdict extra hr houtcome hextra
    have hspec : (admitAt config fates r t now).wp w.process _ := admitAt_spec hr.user_ne w.process
    have hadmits := hspec.2
    rw [houtcome] at hadmits
    exact refused_of_extra hextra hadmits

/-- Two charges of one hour, the second after a grant: the pool pays the first, the entitlement the
second. -/
theorem quota_ceilings_two :
    ∃ w, Reaches (step sampleConfig) (fun w a => a.Parsed ∧ a.InOrder w) (World.boot .empty) w ∧
      total w.trace (.hour (7, 42) .cpu) 500000 = 50 ∧
      total w.trace (.dayExtra 7) 20833 = 25 ∧
      total w.trace (.hour (7, 42) .cpu) 500000 ≤ 10000 ∧
      total w.trace (.dayExtra 7) 20833 ≤ 500 := by
  refine exists_and_and_of_runList [.admission sampleRequest 1800000000 0 fun _ => .done,
    .mutation grant 1800000000 fun _ => .done,
    .mutation ⟨7, .setCurrent, ⟨100, 100⟩⟩ 1800000000 fun _ => .done,
    .admission sampleRequest 1800000001 0 fun _ => .done] (by decide +kernel) fun w hreach _ _ => ?_
  obtain ⟨hceiling, -, -, hpoolCeiling, -⟩ := quota_ceilings hreach
  exact ⟨hceiling 7 42 .cpu 500000, hpoolCeiling 7 20833⟩

/-! ### The other companies -/

/-- The step belongs to another company, or to none. -/
def Spares (c : Int) (_ : World) (a : Action) : Prop :=
  a.Parsed ∧
    match a with
    | .admission r _ _ _ => r.companyId ≠ c
    | .mutation m _ _ => m.companyId ≠ c
    | .restart => False
    | _ => True

/-- **Companies are apart.** However the admissions, failures and budget mutations of the others,
the invalidations and the flush passes interleave, no counter of the company moves. -/
theorem companies_apart (h : Reaches (step config) (Spares g.company) w w') :
    w'.process.limiter.gauge g = w.process.limiter.gauge g := by
  refine h.invariant (I := fun w' => w'.process.limiter.gauge g = w.process.limiter.gauge g) rfl
    fun w₁ a w₂ _ ih hok hs => Eq.trans ?_ ih
  cases step_spec hok.1 hs with
  | admission _ hadmits => exact SameStates.gauge (.admits hok.2 hadmits) rfl
  | mutation _ hmutates => exact SameStates.gauge (.mutates hok.2 hmutates) rfl
  | invalidation => exact gauge_invalidateAccess _ _ _ g
  | flush hflush => exact gauge_flushes hflush g
  | restart => exact hok.2.elim

theorem companies_apart_charged :
    ∃ w w', Reaches (step sampleConfig) (Spares 7) w w' ∧ ∀ w₁ ∈ [w, w'],
      w₁.process.limiter.gauge (.hour (7, 42) .cpu) = some ⟨500000, 25⟩ := by
  obtain ⟨w, -, hw⟩ : ∃ w ∈ step sampleConfig (.boot .empty)
      (.admission sampleRequest 1800000000 0 fun _ => .done),
      w.process.limiter.gauge (.hour (7, 42) .cpu) = some ⟨500000, 25⟩ := by decide +kernel
  have h : Reaches (step sampleConfig) (Spares 7) w _ := Reaches.refl.tail
    (a := .admission { sampleRequest with companyId := 8 } 1800000000 0 fun _ => .done)
    ⟨by decide +kernel, by decide⟩ rfl
  exact ⟨w, _, h, by simp [hw, companies_apart (g := .hour (7, 42) .cpu) h]⟩

end Fareward.Limiter
