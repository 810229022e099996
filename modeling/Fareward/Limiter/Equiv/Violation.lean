import Fareward.Lib.Machine
import Fareward.Limiter.Equiv.Steps

/-!
# Which dimensions a refusal names

The burst buckets and the month judge a dimension only by what is asked of it. The hour, the day
and the user's share compare `current + requested` with the limit also when nothing is requested, so
a counter that already stands above its limit refuses a request that does not ask for its dimension.
`Within` says that no counter does; `requested_of_gates_iff` that this is exactly when no request is
refused in a dimension it does not ask for.

A counter gets above its limit when a mutation lowers the day below what is used, or when it is
recovered from rows that were charged under other limits.
-/

namespace Fareward.Limiter

/-- The violation names only dimensions that are asked for. -/
structure LimitViolation.Requested (v : LimitViolation) (requested : Credits) : Prop where
  cpu : v.cpu = true → 0 < requested.cpu
  inference : v.inference = true → 0 < requested.inference

/-- The counter fits and does not stand above its limit. -/
def Under (current limit : Credits) : Prop :=
  ∀ d, current.of d ≤ limit.of d ∧ current.of d ≤ u64Max

/-- The hourly limits of a scope. -/
def ScopeLimits.hourly (limits : ScopeLimits) : Credits := ⟨limits.cpu.hour, limits.inference.hour⟩

/-- No counter that the gates read stands above its limit. -/
structure Within (policy : LimitPolicy) (company user : SubjectState)
    (budget : CompanyBudgetState) : Prop where
  companyHour : Under company.hourUsed policy.company.hourly
  userHour : Under user.hourUsed policy.user.hourly
  day : Under company.dayUsed budget.stored.daily
  share : Under user.dayUsed (policy.userDaily budget.stored.daily)

/-! ### One gate -/

section

variable {scope : Scope} {window : Window} {requested : Credits} {v : LimitViolation}

theorem violationOf_requested {cpu inference : Bool} (hcpu : cpu = true → 0 < requested.cpu)
    (hinference : inference = true → 0 < requested.inference)
    (h : violationOf scope window cpu inference = some v) : v.Requested requested := by
  obtain ⟨-, h⟩ := Option.ite_none_right_eq_some.mp h
  cases h
  exact ⟨hcpu, hinference⟩

theorem violationOf_named {cpu inference : Bool}
    (h : violationOf scope window cpu inference = some v) : v.cpu = true ∨ v.inference = true := by
  obtain ⟨hor, h⟩ := Option.ite_none_right_eq_some.mp h
  cases h
  exact Bool.or_eq_true_iff.mp hor

theorem requested_of_exceeds {current requested limit : ℕ} (hle : current ≤ limit)
    (hfits : current ≤ u64Max) (h : exceeds current requested limit = true) : 0 < requested := by
  by_contra hzero
  obtain rfl : requested = 0 := Nat.eq_zero_of_not_pos hzero
  rw [exceeds_eq_false.mpr ⟨hle, hfits⟩] at h
  cases h

theorem fixedLimit_requested {current limit : Credits} (hunder : Under current limit)
    (h : fixedLimitViolation scope window current requested limit = some v) :
    v.Requested requested :=
  violationOf_requested (requested_of_exceeds (hunder .cpu).1 (hunder .cpu).2)
    (requested_of_exceeds (hunder .inference).1 (hunder .inference).2) h

theorem canCharge_zero (b : TokenBucket) : b.canCharge 0 = true := by
  unfold TokenBucket.canCharge
  simp

theorem tenSeconds_requested {s : SubjectState} {limits : ScopeLimits}
    (h : s.violation scope .tenSeconds limits requested = some v) : v.Requested requested := by
  have hpos : ∀ (b : TokenBucket) (n : ℕ), (!b.canCharge n) = true → 0 < n := by
    intro b n hn
    by_contra hzero
    rw [Nat.eq_zero_of_not_pos hzero, canCharge_zero] at hn
    cases hn
  exact violationOf_requested (hpos _ _) (hpos _ _) h

theorem monthly_requested {b : CompanyBudgetState} (h : b.monthlyViolation requested = some v) :
    v.Requested requested :=
  violationOf_requested (fun h => of_decide_eq_true (Bool.and_eq_true_iff.mp h).1)
    (fun h => of_decide_eq_true (Bool.and_eq_true_iff.mp h).1) h

end

/-! ### All gates -/

section

variable {policy : LimitPolicy} {company user : SubjectState} {budget : CompanyBudgetState}
  {r : Request} {v : LimitViolation}

theorem orElse_eq_some {α : Type} {a b : Option α} {x : α} (h : (a <|> b) = some x) :
    a = some x ∨ b = some x := by
  cases a with
  | none => exact .inr h
  | some => exact .inl h

/-- A refusal is a violation of one of the gates. -/
theorem gates_error (h : gates policy company user budget r = .error v) :
    burstViolation policy company user r.credits = some v ∨
      quotaViolation policy company user budget r.credits = some v := by
  unfold gates at h
  generalize burstViolation policy company user r.credits = burst at h ⊢
  generalize quotaViolation policy company user budget r.credits = quota at h ⊢
  revert h
  cases burst with
  | some =>
    intro h
    injection h with h
    exact .inl (congrArg some h)
  | none =>
    cases quota with
    | none => exact fun h => by cases h
    | some =>
      generalize (if r.extraCreditsAllowed then _ else none : Option ℕ) = grant
      cases grant with
      | some => exact fun h => by cases h
      | none =>
        intro h
        injection h with h
        exact .inr (congrArg some h)

theorem requested_of_gates (hwithin : Within policy company user budget)
    (h : gates policy company user budget r = .error v) : v.Requested r.credits := by
  rcases gates_error h with h | h
  · rcases orElse_eq_some h with h | h
    · exact tenSeconds_requested h
    rcases orElse_eq_some h with h | h
    · exact tenSeconds_requested h
    rcases orElse_eq_some h with h | h
    · exact fixedLimit_requested hwithin.companyHour h
    · exact fixedLimit_requested hwithin.userHour h
  · rcases orElse_eq_some h with h | h
    · exact fixedLimit_requested hwithin.day h
    rcases orElse_eq_some h with h | h
    · exact fixedLimit_requested hwithin.share h
    · exact monthly_requested h

theorem named_of_gates (h : gates policy company user budget r = .error v) :
    v.cpu = true ∨ v.inference = true := by
  rcases gates_error h with h | h
  · rcases orElse_eq_some h with h | h
    · exact violationOf_named h
    rcases orElse_eq_some h with h | h
    · exact violationOf_named h
    rcases orElse_eq_some h with h | h <;> exact violationOf_named h
  · rcases orElse_eq_some h with h | h
    · exact violationOf_named h
    rcases orElse_eq_some h with h | h <;> exact violationOf_named h

/-- A request without credits, for the grant of access 1. -/
def authorizeOnly : Request := ⟨7, 42, 3, .zero, [5, 0, 0, 0], false⟩

theorem authorizeOnly_parsed : authorizeOnly.Parsed := ⟨⟨7, 42, 3, 0, 0, false, 5, 0, 0, 0⟩, rfl⟩

/-- A request without credits passes only if no counter stands above its limit. -/
theorem within_of_authorizeOnly {extra : ℕ}
    (h : gates policy company user budget authorizeOnly = .ok extra) :
    Within policy company user budget := by
  obtain ⟨hcompany, huser, hquota⟩ := gates_ok h
  have hzero : ∀ d, authorizeOnly.credits.of d = 0 := Credits.of_zero
  rcases hquota with ⟨-, hquota⟩ | ⟨-, -, hallowed, -⟩
  · have hday := fun d => Nat.add_zero _ ▸ hzero d ▸ hquota.day d
    have hshare := fun d => Nat.add_zero _ ▸ hzero d ▸ hquota.share d
    have hfits := fun d => Nat.add_zero _ ▸ hzero d ▸ hquota.fits d
    have huserFits := fun d => Nat.add_zero _ ▸ hzero d ▸ hquota.userFits d
    refine ⟨fun d => ?_, fun d => ?_, fun d => ⟨hday d, hfits d⟩, fun d => ⟨hshare d, huserFits d⟩⟩
    · have hhour := hcompany.hourFits d
      rw [hzero] at hhour
      cases d
      · exact ⟨hcompany.cpuHour, hhour⟩
      · exact ⟨hcompany.inferenceHour, hhour⟩
    · have hhour := huser.hourFits d
      rw [hzero] at hhour
      cases d
      · exact ⟨huser.cpuHour, hhour⟩
      · exact ⟨huser.inferenceHour, hhour⟩
  · cases hallowed

/-- Requests are refused only in dimensions they ask for exactly if no counter stands above its
limit. -/
theorem requested_of_gates_iff :
    (∀ r v, r.Parsed → gates policy company user budget r = .error v → v.Requested r.credits) ↔
      Within policy company user budget := by
  constructor
  · intro h
    cases hgates : gates policy company user budget authorizeOnly with
    | ok => exact within_of_authorizeOnly hgates
    | error =>
      have hrequested := h _ _ authorizeOnly_parsed hgates
      rcases named_of_gates hgates with hcpu | hinference
      · exact absurd (hrequested.cpu hcpu) (lt_irrefl 0)
      · exact absurd (hrequested.inference hinference) (lt_irrefl 0)
  · exact fun hwithin r v _ h => requested_of_gates hwithin h

end

/-- **When a dimension that asks for nothing is not refused.** Every violation that an admission
answers, from any state, is the refusal of the gates on the states it has loaded and refreshed, and
the gates refuse requests on these states only in dimensions they ask for if and only if none of
the counters stands above its limit. -/
theorem violation_requested_iff_within (config : Config) (fates : Fates) (r : Request) (t : Int)
    (now : ℕ) (p : Process) (hr : r.Parsed) :
    (admitAt config fates r t now).wp p fun outcome p' =>
      ∀ v extra, outcome = .ok ⟨.creditViolation v, extra⟩ → ∃ company user budget,
        Kept config p.store r.companyId r.userId t now p.limiter p'.limiter ∧
        Refreshed r t now p'.limiter company user budget ∧
        gates config.policy company user budget r = .error v ∧
        ((∀ r v, r.Parsed → gates config.policy company user budget r = .error v →
            v.Requested r.credits) ↔ Within config.policy company user budget) := by
  refine Op.wp_mono (admitAt_spec hr.user_ne p) ?_
  rintro outcome p' ⟨-, hadmits⟩ v extra rfl
  cases hadmits with
  | refused hpath _ hviolation =>
    obtain ⟨company, user, budget, hrefreshed, hgates⟩ := hviolation v extra rfl
    exact ⟨company, user, budget, .of_moves hpath, hrefreshed, hgates, requested_of_gates_iff⟩

/-- User 42 of company 7 holds access 1. -/
def grantedStore : LimiterStore :=
  { LimiterStore.empty with
    users := fun key => if key = (7, 42) then some ⟨[0, 5], [], 1⟩ else none }

/-- The company is given 100 credits of each kind a day, and uses 50 of inference. -/
def usedDay : List Action :=
  [.mutation ⟨7, .setDaily, ⟨100, 100⟩⟩ 1800000000 fun _ => .done,
    .mutation ⟨7, .setCurrent, ⟨1000, 1000⟩⟩ 1800000000 fun _ => .done,
    .admission { sampleRequest with credits := ⟨0, 50⟩ } 1800000000 0 fun _ => .done]

def sixtyMore : Request := ⟨7, 42, 3, ⟨0, 60⟩, [0, 0, 0, 0], false⟩

/-- The day refuses the inference credits of a request that asks for more than is left. -/
theorem violation_requested_iff_within_used :
    ∃ w, Reaches (step sampleConfig) (fun _ a => a.Parsed) (World.boot grantedStore) w ∧
      (admitAt sampleConfig (fun _ => .done) sixtyMore 1800000000 0).wp w.process fun outcome p' =>
        outcome = .ok ⟨.creditViolation ⟨.company, .day, false, true⟩, 0⟩ ∧
        ∃ company user budget,
          Kept sampleConfig w.process.store 7 42 1800000000 0 w.process.limiter p'.limiter ∧
          Refreshed sixtyMore 1800000000 0 p'.limiter company user budget ∧
          gates sampleConfig.policy company user budget sixtyMore =
            .error ⟨.company, .day, false, true⟩ ∧
          ((∀ r v, r.Parsed → gates sampleConfig.policy company user budget r = .error v →
            v.Requested r.credits) ↔ Within sampleConfig.policy company user budget) := by
  obtain ⟨w, hreach, houtcome⟩ :
      ∃ w, Reaches (step sampleConfig) (fun _ a => a.Parsed) (World.boot grantedStore) w ∧
        ((admitAt sampleConfig (fun _ => .done) sixtyMore 1800000000 0).exec w.process).1 =
          .ok ⟨.creditViolation ⟨.company, .day, false, true⟩, 0⟩ :=
    exists_of_runList usedDay (by decide +kernel)
  have hspec := violation_requested_iff_within sampleConfig (fun _ => .done) sixtyMore 1800000000 0
    w.process ⟨⟨7, 42, 3, 0, 60, false, 0, 0, 0, 0⟩, rfl⟩
  exact ⟨w, hreach, houtcome, hspec _ _ houtcome⟩

/-- The day is lowered to 10 credits of inference. -/
def loweredDay : List Action :=
  usedDay ++ [.mutation ⟨7, .setDaily, ⟨100, 10⟩⟩ 1800000000 fun _ => .done]

/-- A charge of one CPU credit and a frame without credits are refused, for inference. -/
theorem loweredDay_refuses_unrequested :
    ∃ w, Reaches (step sampleConfig) (fun _ a => a.Parsed) (World.boot grantedStore) w ∧
      ((admitAt sampleConfig (fun _ => .done)
        { sampleRequest with credits := ⟨1, 0⟩, extraCreditsAllowed := false } 1800000000 0).exec
          w.process).1 = .ok ⟨.creditViolation ⟨.company, .day, false, true⟩, 0⟩ ∧
      ((admitAt sampleConfig (fun _ => .done) authorizeOnly 1800000000 0).exec w.process).1 =
        .ok ⟨.creditViolation ⟨.company, .day, false, true⟩, 0⟩ :=
  exists_of_runList loweredDay (by decide +kernel)

end Fareward.Limiter
