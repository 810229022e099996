import Fareward.Limiter.Equiv.Debits

/-!
# Admissions and budget mutations as whole calls

`Admits` and `Mutates` say what `admit_at` and `mutate_budget_at` can do, with every way they can
end: they are what the invariants of the limiter are derived from.

An admission charges everything or nothing. `Kept` is what "nothing" means: windows may roll over,
buckets may refill and what the store holds may be loaded, but no counter, total or version moves.
A charge that has passed its gates cannot fail while totals and versions stay below `2 ^ 63`.
-/

namespace Fareward.Limiter

open Relation

variable {m : UsageMap} {b : CompanyBudgetState} {limits : ScopeLimits} {s : SubjectState}

/-! ### Requests -/

/-- A request that `parse_charge` admits. -/
def Request.Parsed (r : Request) : Prop := ∃ frame, parseCharge frame = .ok r

/-- The frame of a request. -/
def Request.frame (r : Request) : ChargeFrame where
  companyId := r.companyId
  userId := r.userId
  routeId := UInt16.ofNat r.routeId
  cpu := UInt16.ofNat r.credits.cpu
  inference := UInt16.ofNat r.credits.inference
  extraAllowed := r.extraCreditsAllowed
  access1 := r.requiredAccess.getD 0 0
  access2 := r.requiredAccess.getD 1 0
  access3 := r.requiredAccess.getD 2 0
  access4 := r.requiredAccess.getD 3 0

theorem parseCharge_ok {frame : ChargeFrame} {r : Request} (h : parseCharge frame = .ok r) :
    frame = r.frame ∧ 0 < r.companyId ∧ 0 < r.userId := by
  unfold parseCharge at h
  simp only at h
  split_ifs at h with hcompany huser
  injection h with h
  subst h
  refine ⟨?_, by simpa using hcompany, by simpa using huser⟩
  cases frame
  simp [Request.frame]

instance (r : Request) : Decidable r.Parsed :=
  decidable_of_iff (parseCharge r.frame = .ok r)
    ⟨fun h => ⟨r.frame, h⟩, fun ⟨_, h⟩ => (parseCharge_ok h).1 ▸ h⟩

/-- A mutation that `parse_budget_mutation` admits. -/
def BudgetMutation.Parsed (m : BudgetMutation) : Prop := ∃ frame, parseBudgetMutation frame = .ok m

/-- The byte of an operation. -/
def BudgetOperation.byte : BudgetOperation → UInt8
  | .setDaily => 1
  | .setCurrent => 2
  | .increaseCurrent => 3

theorem BudgetOperation.ofByte_ok {byte : UInt8} {operation : BudgetOperation}
    (h : BudgetOperation.ofByte byte = .ok operation) : byte = operation.byte := by
  unfold BudgetOperation.ofByte at h
  split at h <;> cases h <;> rfl

theorem parseBudgetMutation_ok {frame : BudgetMutationFrame} {m : BudgetMutation}
    (h : parseBudgetMutation frame = .ok m) :
    frame = ⟨m.companyId, m.operation.byte, m.credits.cpu, m.credits.inference⟩ ∧
      0 < m.companyId := by
  unfold parseBudgetMutation at h
  by_cases hcompany : frame.companyId ≤ 0
  · rw [if_pos hcompany] at h
    cases h
  rw [if_neg hcompany] at h
  obtain ⟨operation, hoperation, h⟩ := bind_eq_ok.mp h
  split_ifs at h
  injection h with h
  subst h
  refine ⟨?_, not_le.mp hcompany⟩
  rw [← BudgetOperation.ofByte_ok hoperation]

instance (m : BudgetMutation) : Decidable m.Parsed :=
  decidable_of_iff (parseBudgetMutation
      ⟨m.companyId, m.operation.byte, m.credits.cpu, m.credits.inference⟩ = .ok m)
    ⟨fun h => ⟨_, h⟩, fun ⟨_, h⟩ => (parseBudgetMutation_ok h).1 ▸ h⟩

namespace Request.Parsed

variable {r : Request}

theorem spec (h : r.Parsed) :
    0 < r.companyId ∧ 0 < r.userId ∧ r.credits.cpu < 2 ^ 16 ∧ r.credits.inference < 2 ^ 16 := by
  obtain ⟨frame, h⟩ := h
  obtain ⟨-, hcompany, huser⟩ := parseCharge_ok h
  unfold parseCharge at h
  simp only at h
  split_ifs at h
  injection h with h
  subst h
  exact ⟨hcompany, huser, frame.cpu.toNat_lt, frame.inference.toNat_lt⟩

theorem credits_lt (h : r.Parsed) (d : Resource) : r.credits.of d < 2 ^ 16 := by
  cases d
  · exact h.spec.2.2.1
  · exact h.spec.2.2.2

theorem user_ne (h : r.Parsed) : r.userId ≠ companyAggregateUserId := by
  have := h.spec.2.1
  unfold companyAggregateUserId
  omega

theorem company_ne (h : r.Parsed) : r.companyId ≠ platformAggregateCompanyId := by
  have := h.spec.1
  unfold platformAggregateCompanyId
  omega

end Request.Parsed

/-! ### The ways an admission can end -/

section

variable (config : Config) (fates : Fates) (r : Request) (t : Int) (now : ℕ) (p : Process)

/-- The admission reaches its first debit: a charge lands. -/
def Debits : Prop :=
  ∃ verdict extra p₁, (beforeDebit config fates r t now).exec p = (.ok (.ok (verdict, extra)), p₁)

/-- An admission that reaches its first debit makes all of them. -/
def Completes : Prop :=
  ∀ verdict extra p₁,
    (beforeDebit config fates r t now).exec p = (.ok (.ok (verdict, extra)), p₁) →
      ((commit r t extra).exec p₁).1 = .ok ()

/-- What an admission does to the memory. -/
inductive Admits : Except Failure Admission → RateLimiter → Prop
  | refused {outcome : Except Failure Admission} {l' : RateLimiter}
      (hpath : ReflTransGen (Move config p.store r.companyId r.userId t now) p.limiter l')
      (hrefused : ∀ verdict extra, outcome ≠ .ok ⟨.allowed verdict, extra⟩)
      (hviolation : ∀ violation extra, outcome = .ok ⟨.creditViolation violation, extra⟩ →
        ∃ company user budget, Refreshed r t now l' company user budget ∧
          gates config.policy company user budget r = .error violation)
      (hnot : ¬Debits config fates r t now p) : Admits outcome l'
  | allowed {l₁ l' : RateLimiter} {company user : SubjectState} {budget : CompanyBudgetState}
      {verdict : AccessVerdict} {extra : ℕ}
      (hpath : ReflTransGen (Move config p.store r.companyId r.userId t now) p.limiter l₁)
      (hready : Ready config r t now extra l₁ company user budget)
      (hcharged : Charged r t extra l₁ l' company user budget)
      (hdebits : Debits config fates r t now p) : Admits (.ok ⟨.allowed verdict, extra⟩) l'
  | overflowed {l₁ l' : RateLimiter} {company user : SubjectState} {budget : CompanyBudgetState}
      {extra : ℕ} {message : String}
      (hpath : ReflTransGen (Move config p.store r.companyId r.userId t now) p.limiter l₁)
      (hready : Ready config r t now extra l₁ company user budget)
      (hdebit : ReflTransGen (Debit r t) l₁ l')
      (hreason : Overflowing r t extra l₁ company user budget)
      (hdebits : Debits config fates r t now p)
      (hincomplete : ¬Completes config fates r t now p) : Admits (.error (.overflow message)) l'

end

variable {config : Config} {fates : Fates} {r : Request} {t : Int} {now : ℕ}

/-- **Every end of an admission.** -/
theorem admitAt_spec (hu : r.userId ≠ companyAggregateUserId) (p : Process) :
    (admitAt config fates r t now).wp p fun outcome p' =>
      p'.store = p.store ∧ Admits config fates r t now p outcome p'.limiter := by
  unfold admitAt
  refine Op.wp_call (Op.wp_and (beforeDebit_spec hu p) (Op.wp_exec _ p)) ?_ ?_
  · rintro e p' ⟨⟨⟨hstore, hpath⟩, -⟩, hexec⟩
    refine ⟨hstore, .refused hpath (fun _ _ h => by cases h) (fun _ _ h => by cases h) ?_⟩
    rintro ⟨verdict, extra, p₁, h⟩
    rw [hexec] at h
    cases h
  · rintro (decision | ⟨verdict, extra⟩) p₁ ⟨⟨⟨hstore, hpath⟩, hres⟩, hexec⟩
    · refine Op.wp_pure ⟨hstore, .refused hpath (fun verdict extra h => ?_)
        (fun violation extra h => ?_) ?_⟩
      · injection h with h
        injection h with h
        subst h
        exact hres
      · injection h with h
        injection h with h
        subst h
        exact hres
      · rintro ⟨verdict, extra, p₁, h⟩
        rw [hexec] at h
        cases h
    · obtain ⟨company, user, budget, hready⟩ := hres
      have hdebits : Debits config fates r t now p := ⟨verdict, extra, p₁, hexec⟩
      refine Op.wp_call (Op.wp_and (commit_spec hu hready) (Op.wp_exec _ p₁)) ?_ ?_
      · rintro e p' ⟨⟨hstore', hdebit, hreason, message, rfl⟩, hcommit⟩
        refine ⟨hstore'.trans hstore, .overflowed hpath hready hdebit hreason hdebits fun h => ?_⟩
        have := h verdict extra p₁ hexec
        rw [hcommit] at this
        cases this
      · rintro _ p' ⟨⟨hstore', -, hcharged⟩, -⟩
        exact Op.wp_pure ⟨hstore'.trans hstore, .allowed hpath hready hcharged hdebits⟩

/-! ### The ways a mutation can end -/

/-- The budget a mutation of company `c` at the reading `t` works on: the one in memory, or what
the store says. -/
def BudgetAt (store : LimiterStore) (l : RateLimiter) (c t : Int) (b : CompanyBudgetState) : Prop :=
  l.budgets.lookup c = some b ∨ l.budgets.lookup c = none ∧ RecoveredBudget store c t b

/-- A write that did not return, yet took effect. -/
def Fate.landed : Fate → Bool
  | .done => false
  | .failed landed | .cancelled landed => landed

/-- What a mutation does to the memory and to the store. Once it has found the budget it rolls the
month over, also when it goes on to fail. -/
inductive Mutates (fates : Fates) (m : BudgetMutation) (t : Int) (p : Process) :
    Except Failure BudgetMutationReply → Process → Prop
  | unfound {e : Failure} : Mutates fates m t p (.error e) p
  | refused {b : CompanyBudgetState} {reply : BudgetMutationReply}
      (hb : BudgetAt p.store p.limiter m.companyId t b)
      (hreply : mutatedBudget (b.refreshMonth (TimeFrame.monthOf t)) m (TimeFrame.monthOf t) =
        .error reply) :
      Mutates fates m t p (.ok reply)
        ⟨p.limiter.setBudget m.companyId (b.refreshMonth (TimeFrame.monthOf t)), p.store⟩
  | failed {b : CompanyBudgetState} {e : Failure} {store : LimiterStore}
      (hb : BudgetAt p.store p.limiter m.companyId t b)
      (hstore : store = p.store ∨ (fates .budgetWrite).landed ∧ ∃ stored updated,
        mutatedBudget (b.refreshMonth (TimeFrame.monthOf t)) m (TimeFrame.monthOf t) = .ok stored ∧
        store = p.store.upsertBudget { stored with updated }) :
      Mutates fates m t p (.error e)
        ⟨p.limiter.setBudget m.companyId (b.refreshMonth (TimeFrame.monthOf t)), store⟩
  | written {b : CompanyBudgetState} {stored : StoredBudget} {updated : Int}
      (hb : BudgetAt p.store p.limiter m.companyId t b)
      (hstored : mutatedBudget (b.refreshMonth (TimeFrame.monthOf t)) m (TimeFrame.monthOf t) =
        .ok stored) :
      Mutates fates m t p (.ok .ok)
        ⟨p.limiter.setBudget m.companyId
            { b.refreshMonth (TimeFrame.monthOf t) with stored := { stored with updated } },
          p.store.upsertBudget { stored with updated }⟩

theorem insert_lookup {K V : Type} [DecidableEq K] {m : Finmap fun _ : K => V} {k : K} {v : V}
    (h : m.lookup k = some v) : m.insert k v = m := by
  apply Finmap.ext_lookup
  intro j
  rw [lookup_insert_eq]
  split_ifs with hj
  · rw [hj, h]
  · rfl

theorem setBudget_self {l : RateLimiter} {c : Int} (h : l.budgets.lookup c = some b) :
    l.setBudget c b = l := by
  unfold RateLimiter.setBudget
  rw [insert_lookup h]

/-- `ensure_budget` finds or loads the budget, or fails and leaves everything as it is. -/
theorem ensureBudget_cases (c : Int) (p : Process) :
    (ensureBudget fates c t).wp p fun res p' =>
      match res with
      | .error _ => p' = p
      | .ok _ =>
        ∃ b, BudgetAt p.store p.limiter c t b ∧ p' = ⟨p.limiter.setBudget c b, p.store⟩ := by
  apply Op.wp_get_bind
  split_ifs with hsome
  · obtain ⟨b, hb⟩ := Option.isSome_iff_exists.mp hsome
    refine Op.wp_pure ⟨b, .inl hb, ?_⟩
    rw [setBudget_self hb]
  · refine Op.wp_lift_bind (fun e _ => rfl) fun b hb => ?_
    refine wp_modifyLimiter ⟨b, .inr ⟨?_, recoverBudget_ok hb⟩, rfl⟩
    rwa [Option.not_isSome_iff_eq_none] at hsome

theorem refreshMonth_of_eq {m : Int} (h : b.usageMonthStartDay = m) :
    b.refreshMonth m = b := if_neg (not_not.mpr h)

/-- The write of a mutation: it takes effect when it succeeds, and may when it fails. -/
theorem writeBudget_spec (stored : StoredBudget) (p : Process) :
    (writeBudget fates stored).wp p fun res p' =>
      match res with
      | .ok _ => p' = ⟨p.limiter, p.store.upsertBudget stored⟩
      | .error _ => p' = p ∨
          (fates .budgetWrite).landed ∧ p' = ⟨p.limiter, p.store.upsertBudget stored⟩ := by
  unfold writeBudget
  cases hfate : fates .budgetWrite with
  | done => exact rfl
  | failed landed | cancelled landed =>
    cases landed with
    | true => exact .inr ⟨rfl, rfl⟩
    | false => exact .inl rfl

/-- **Every end of a mutation.** -/
theorem mutateBudgetAt_spec (m : BudgetMutation) (p : Process) :
    (mutateBudgetAt fates m t).wp p (Mutates fates m t p) := by
  unfold mutateBudgetAt
  refine Op.wp_lift_bind (fun e _ => .unfound) fun _ _ => ?_
  refine Op.wp_call (ensureBudget_cases m.companyId p) ?_ ?_
  · rintro e p' rfl
    exact .unfound
  rintro _ p' ⟨b, hb, rfl⟩
  refine Op.wp_lift_bind (fun e _ => ?_) fun month hmonth => ?_
  · rcases id hb with hold | ⟨hnone, hrecovered⟩
    · rw [setBudget_self hold]
      exact .unfound
    · have hfailed : Mutates fates m t p (.error e) _ := .failed hb (.inl rfl)
      rwa [refreshMonth_of_eq hrecovered.month] at hfailed
  obtain ⟨rfl, -⟩ := TimeFrame.monthStartDay_ok (frameResult_ok hmonth)
  apply Op.wp_bind
  refine wp_onBudget (Finmap.lookup_insert _) (Op.wp_modify ?_)
  rw [setBudget_setBudget]
  apply Op.wp_get_bind
  refine Op.wp_lift_bind (fun e he => ?_) fun b' hb' => ?_
  · rw [RateLimiter.setBudget, Finmap.lookup_insert] at he
    cases he
  obtain rfl : b.refreshMonth (TimeFrame.monthOf t) = b' := by
    rw [RateLimiter.setBudget, Finmap.lookup_insert] at hb'
    injection hb'
  cases hmutated : mutatedBudget (b.refreshMonth (TimeFrame.monthOf t)) m (TimeFrame.monthOf t) with
  | error => exact Op.wp_pure (.refused hb hmutated)
  | ok stored =>
    refine Op.wp_lift_bind (fun e _ => .failed hb (.inl rfl)) fun updated _ => ?_
    refine Op.wp_call (writeBudget_spec _ _) ?_ ?_
    · rintro e p' (rfl | ⟨hfate, rfl⟩)
      · exact .failed hb (.inl rfl)
      · exact .failed hb (.inr ⟨hfate, stored, updated, hmutated, rfl⟩)
    · rintro _ p' rfl
      apply Op.wp_bind
      refine wp_onBudget (Finmap.lookup_insert _) (Op.wp_modify ?_)
      rw [setBudget_setBudget]
      exact Op.wp_pure (.written hb hmutated)

/-! ### What a refused admission leaves -/

/-- A window carried over a call at period `p`: as it was, or rolled over and empty. -/
def Rolled {α : Type} (zero : α) (p : Int) (label : Int) (used : α) (label' : Int) (used' : α) :
    Prop :=
  (label' = label ∧ used' = used) ∨ (label' = p ∧ label ≠ p ∧ used' = zero)

theorem Rolled.refl {α : Type} {zero : α} {p label : Int} {used : α} :
    Rolled zero p label used label used := .inl ⟨rfl, rfl⟩

theorem Rolled.trans {α : Type} {zero : α} {p l₁ l₂ l₃ : Int} {u₁ u₂ u₃ : α}
    (h : Rolled zero p l₁ u₁ l₂ u₂) (h' : Rolled zero p l₂ u₂ l₃ u₃) :
    Rolled zero p l₁ u₁ l₃ u₃ := by
  rcases h with ⟨rfl, rfl⟩ | ⟨rfl, hne, rfl⟩
  · exact h'
  · rcases h' with ⟨rfl, rfl⟩ | ⟨-, hne', -⟩
    · exact .inr ⟨rfl, hne, rfl⟩
    · exact absurd rfl hne'

/-- The limits of one dimension. -/
def ScopeLimits.of (limits : ScopeLimits) : Resource → CreditLimits
  | .cpu => limits.cpu
  | .inference => limits.inference

/-- A subject after a call that did not charge it. -/
structure SubjectKept (limits : ScopeLimits) (t : Int) (now : ℕ) (s s' : SubjectState) : Prop where
  bucket : ∀ d, s'.bucket d = s.bucket d ∨
    s'.bucket d = (s.bucket d).refill (limits.of d).tenSeconds now
  hour : Rolled .zero (TimeFrame.hourOf t) s.hourPeriod s.hourUsed s'.hourPeriod s'.hourUsed
  day : Rolled .zero (TimeFrame.dayOf t) s.dayPeriod s.dayUsed s'.dayPeriod s'.dayUsed

/-- A budget after a call that did not charge it. -/
structure BudgetKept (t : Int) (b b' : CompanyBudgetState) : Prop where
  stored : b'.stored = b.stored
  month : Rolled (.zero, 0) (TimeFrame.monthOf t) b.usageMonthStartDay
    (b.monthUsed, b.monthExtraUsed) b'.usageMonthStartDay (b'.monthUsed, b'.monthExtraUsed)
  day : Rolled 0 (TimeFrame.dayOf t) b.extraDayPeriod b.dayExtraUsed b'.extraDayPeriod
    b'.dayExtraUsed
  version : b'.version = b.version
  flushedVersion : b'.flushedVersion = b.flushedVersion

/-- A subject as it is read from the store: full buckets, and counters that hold what the stored
rows sum to. -/
structure SubjectRead (store : LimiterStore) (key : Int × Int) (t : Int) (now : ℕ)
    (limits : ScopeLimits) (s : SubjectState) : Prop where
  eq : s = .recovered limits t (TimeFrame.dayOf t) now s.hourUsed s.dayUsed
  hour : ∀ d, s.hourUsed.of d = store.sumOver key.1 key.2 (hourFrames t) d
  day : ∀ d, s.dayUsed.of d ≤ store.sum ⟨key.1, key.2, TimeFrame.dailyOf t⟩ d

/-- Nothing was charged between two states of the memory; only company `c` and its user `u` were
looked at. -/
structure Kept (config : Config) (store : LimiterStore) (c u t : Int) (now : ℕ)
    (l l' : RateLimiter) : Prop where
  subjects : Evolves (fun key => SubjectKept (config.policy.limitsOf key.2) t now)
    (fun key => SubjectRead store key t now (config.policy.limitsOf key.2)) l.subjects l'.subjects
  otherSubjects : ∀ key, key ≠ (c, companyAggregateUserId) → key ≠ (c, u) →
    l'.subjects.lookup key = l.subjects.lookup key
  budgets :
    Evolves (fun _ => BudgetKept t) (fun c => RecoveredBudget store c t) l.budgets l'.budgets
  otherBudgets : ∀ c', c' ≠ c → l'.budgets.lookup c' = l.budgets.lookup c'
  usage : Evolves (fun _ => Eq) (fun key record => record = .loaded (store.routes key))
    l.usage l'.usage
  otherUsage : ∀ key, key.companyId ≠ c → l'.usage.lookup key = l.usage.lookup key
  platform : Evolves (fun _ => Eq) (fun key record => record = .loaded (store.routes key))
    l.platformUsage l'.platformUsage

theorem refill_refill (b : TokenBucket) (limit now : ℕ) :
    (b.refill limit now).refill limit now = b.refill limit now := by
  unfold TokenBucket.refill
  simp only [Nat.sub_self, Nat.zero_mul, Nat.zero_min, Nat.add_zero]
  congr 1
  omega

theorem SubjectKept.refl (limits : ScopeLimits) (t : Int) (now : ℕ) (s : SubjectState) :
    SubjectKept limits t now s s := ⟨fun _ => .inl rfl, .refl, .refl⟩

theorem SubjectKept.trans {s₁ s₂ s₃ : SubjectState} (h : SubjectKept limits t now s₁ s₂)
    (h' : SubjectKept limits t now s₂ s₃) : SubjectKept limits t now s₁ s₃ := by
  refine ⟨fun d => ?_, h.hour.trans h'.hour, h.day.trans h'.day⟩
  rcases h.bucket d with hb | hb
  · rw [← hb]
    exact h'.bucket d
  · refine .inr ?_
    rcases h'.bucket d with hb' | hb'
    · rw [hb', hb]
    · rw [hb', hb, refill_refill]

theorem BudgetKept.refl (t : Int) (b : CompanyBudgetState) : BudgetKept t b b :=
  ⟨rfl, .refl, .refl, rfl, rfl⟩

theorem BudgetKept.trans {b₁ b₂ b₃ : CompanyBudgetState} (h : BudgetKept t b₁ b₂)
    (h' : BudgetKept t b₂ b₃) : BudgetKept t b₁ b₃ :=
  ⟨h'.stored.trans h.stored, h.month.trans h'.month, h.day.trans h'.day,
    h'.version.trans h.version, h'.flushedVersion.trans h.flushedVersion⟩

theorem refreshPeriods_kept (limits : ScopeLimits) (t : Int) (now : ℕ) (s : SubjectState) :
    SubjectKept limits t now s (s.refreshPeriods limits t (TimeFrame.dayOf t) now) := by
  refine ⟨fun d => .inr (by cases d <;> rfl), ?_, ?_⟩
  · by_cases h : s.hourPeriod = t / 3600
    · exact .inl ⟨h.symm, if_neg (not_not.mpr h)⟩
    · exact .inr ⟨rfl, h, if_pos h⟩
  · by_cases h : s.dayPeriod = TimeFrame.dayOf t
    · exact .inl ⟨h.symm, if_neg (not_not.mpr h)⟩
    · exact .inr ⟨rfl, h, if_pos h⟩

theorem refreshMonth_kept (t : Int) (b : CompanyBudgetState) :
    BudgetKept t b (b.refreshMonth (TimeFrame.monthOf t)) := by
  unfold CompanyBudgetState.refreshMonth
  split_ifs with h
  · exact ⟨rfl, .inr ⟨rfl, h, rfl⟩, .refl, rfl, rfl⟩
  · exact .refl t b

theorem refreshDay_kept (t : Int) (b : CompanyBudgetState) :
    BudgetKept t b (b.refreshDay (TimeFrame.dayOf t)) := by
  unfold CompanyBudgetState.refreshDay
  split_ifs with h
  · exact ⟨rfl, .refl, .inr ⟨rfl, h, rfl⟩, rfl, rfl⟩
  · exact .refl t b

theorem RecoveredSubject.read {store : LimiterStore} {c u : Int} {l : RateLimiter}
    (h : RecoveredSubject store c u t now limits l s) :
    SubjectRead store (c, u) t now limits s := by
  refine ⟨h.eq, h.hour, fun d => ?_⟩
  obtain ⟨b, -, hcpu⟩ := h.cpu
  cases d
  · exact hcpu.le.trans (Nat.sub_le _ _)
  · exact h.inference.le

namespace Kept

variable {store : LimiterStore} {c u : Int} {l l' l'' : RateLimiter}

theorem refl (l : RateLimiter) : Kept config store c u t now l l where
  subjects := .refl (fun _ _ => .refl _ _ _ _) _
  otherSubjects _ _ _ := rfl
  budgets := .refl (fun _ _ => .refl _ _) _
  otherBudgets _ _ := rfl
  usage := .refl (fun _ _ => rfl) _
  otherUsage _ _ := rfl
  platform := .refl (fun _ _ => rfl) _

theorem trans (h : Kept config store c u t now l l') (h' : Kept config store c u t now l' l'') :
    Kept config store c u t now l l'' where
  subjects := h.subjects.trans (fun _ _ _ _ => .trans) h'.subjects
  otherSubjects key hc hu := (h'.otherSubjects key hc hu).trans (h.otherSubjects key hc hu)
  budgets := h.budgets.trans (fun _ _ _ _ => .trans) h'.budgets
  otherBudgets c' hc := (h'.otherBudgets c' hc).trans (h.otherBudgets c' hc)
  usage := h.usage.trans (fun _ _ _ _ => .trans) h'.usage
  otherUsage key hc := (h'.otherUsage key hc).trans (h.otherUsage key hc)
  platform := h.platform.trans (fun _ _ _ _ => .trans) h'.platform

theorem lookup_other {V : Type} {m : Finmap fun _ : Int × Int => V} {userId : Int} {s : V}
    (hu : userId = companyAggregateUserId ∨ userId = u) (key : Int × Int)
    (hc : key ≠ (c, companyAggregateUserId)) (hu' : key ≠ (c, u)) :
    (m.insert (c, userId) s).lookup key = m.lookup key := by
  apply Finmap.lookup_insert_of_ne
  rcases hu with rfl | rfl
  · exact hc
  · exact hu'

theorem of_move (h : Move config store c u t now l l') : Kept config store c u t now l l' := by
  have hl : Kept config store c u t now l l := refl l
  cases h with
  | access => exact { hl with }
  | budget b hnone hb =>
    exact { hl with
      budgets := .load (fun _ _ => .refl _ _) hnone hb
      otherBudgets := fun _ hc => Finmap.lookup_insert_of_ne _ hc }
  | usage key hc _ hnone =>
    refine { hl with usage := .load (fun _ _ => rfl) hnone rfl, otherUsage := fun j hj => ?_ }
    apply Finmap.lookup_insert_of_ne
    rintro rfl
    exact hj hc
  | subject userId s hu hnone hs =>
    exact { hl with
      subjects := .load (fun _ _ => .refl _ _ _ _) hnone hs.read
      otherSubjects := lookup_other hu }
  | refreshSubject userId s hu hs =>
    exact { hl with
      subjects := .update (fun _ _ => .refl _ _ _ _) hs (refreshPeriods_kept _ _ _ _)
      otherSubjects := lookup_other hu }
  | refreshMonth b hb =>
    exact { hl with
      budgets := .update (fun _ _ => .refl _ _) hb (refreshMonth_kept _ _)
      otherBudgets := fun _ hc => Finmap.lookup_insert_of_ne _ hc }
  | refreshDay b hb =>
    exact { hl with
      budgets := .update (fun _ _ => .refl _ _) hb (refreshDay_kept _ _)
      otherBudgets := fun _ hc => Finmap.lookup_insert_of_ne _ hc }
  | platform key hkey hnone => exact { hl with platform := .load (fun _ _ => rfl) hnone rfl }

theorem of_moves (h : ReflTransGen (Move config store c u t now) l l') :
    Kept config store c u t now l l' := by
  induction h with
  | refl => exact .refl l
  | tail _ hmove ih => exact ih.trans (of_move hmove)

end Kept

/-! ### A charge that has passed its gates cannot fail -/

/-- The daily frames of the month of a reading, up to its day. -/
def monthFrames (t : Int) : List Int :=
  LimiterStore.framesBetween (TimeFrame.dailyPrefix + TimeFrame.monthOf t) (TimeFrame.dailyOf t)

/-- The versions and totals of the records of a map stay below `2 ^ 63`. -/
def UsageMap.Bounded (m : UsageMap) : Prop :=
  ∀ key record, m.lookup key = some record →
    record.version < 2 ^ 63 ∧ ∀ route d, record.routes.total route d < 2 ^ 63

/-- The versions and totals of a budget stay below `2 ^ 63`. -/
structure CompanyBudgetState.Bounded (b : CompanyBudgetState) : Prop where
  version : b.version < 2 ^ 63
  monthUsed : ∀ d, b.monthUsed.of d < 2 ^ 63
  monthExtraUsed : b.monthExtraUsed < 2 ^ 63

/-- Versions and totals stay below `2 ^ 63`, in memory and in the store. -/
structure Process.Bounded (p : Process) : Prop where
  budgets : ∀ c b, p.limiter.budgets.lookup c = some b → b.Bounded
  usage : p.limiter.usage.Bounded
  platform : p.limiter.platformUsage.Bounded
  stored : ∀ key route d, p.store.total key route d < 2 ^ 63
  storedMonth : ∀ c t d, p.store.sumOver c companyAggregateUserId (monthFrames t) d < 2 ^ 63
  storedExtra : ∀ c, (p.store.extra c).monthCpu < 2 ^ 63

theorem BudgetKept.bounded {b' : CompanyBudgetState} (h : BudgetKept t b b') (hb : b.Bounded) :
    b'.Bounded := by
  obtain ⟨-, hmonth, -, hversion, -⟩ := h
  rcases hmonth with ⟨-, hused⟩ | ⟨-, -, hused⟩
  · obtain ⟨hused, hextra⟩ := Prod.mk.inj hused
    exact ⟨hversion ▸ hb.version, hused ▸ hb.monthUsed, hextra ▸ hb.monthExtraUsed⟩
  · obtain ⟨hused, hextra⟩ := Prod.mk.inj hused
    refine ⟨hversion ▸ hb.version, fun d => ?_, ?_⟩
    · rw [hused, Credits.of_zero]
      omega
    · omega

theorem RecoveredBudget.bounded {store : LimiterStore} {c : Int} (h : RecoveredBudget store c t b)
    (hmonth : ∀ d, store.sumOver c companyAggregateUserId (monthFrames t) d < 2 ^ 63)
    (hextra : (store.extra c).monthCpu < 2 ^ 63) : b.Bounded := by
  refine ⟨?_, fun d => ?_, ?_⟩
  · rw [h.version]
    omega
  · cases d
    · exact lt_of_le_of_lt (h.cpu.le.trans (Nat.sub_le _ _)) (hmonth .cpu)
    · exact lt_of_le_of_lt h.inference.le (hmonth .inference)
  · rw [h.monthExtra]
    split_ifs
    · exact hextra
    · omega

theorem UsageMap.Bounded.evolves {store : LimiterStore} {m' : UsageMap} (hm : m.Bounded)
    (h : Evolves (fun _ => Eq) (fun key record => record = .loaded (store.routes key)) m m')
    (hstored : ∀ key route d, store.total key route d < 2 ^ 63) : m'.Bounded := by
  intro key record hrecord
  cases hold : m.lookup key with
  | some old =>
    obtain ⟨record', hrecord', rfl⟩ := h.kept key old hold
    obtain rfl : old = record := Option.some.inj (hrecord'.symm.trans hrecord)
    exact hm key old hold
  | none =>
    obtain ⟨record', rfl, rfl⟩ := h.came key record hold hrecord
    exact ⟨Nat.two_pow_pos 63, hstored key⟩

theorem UsageMap.Bounded.recordAt (h : m.Bounded) (key : UsageKey) :
    (m.recordAt key).version < 2 ^ 63 ∧
      ∀ route d, (m.recordAt key).routes.total route d < 2 ^ 63 := by
  unfold UsageMap.recordAt
  cases hk : m.lookup key with
  | some record => exact h key record hk
  | none =>
    refine ⟨Nat.two_pow_pos 63, fun route d => ?_⟩
    have hempty : RoutedCredits.total ∅ route d = 0 := RoutedCredits.total_empty route d
    show RoutedCredits.total ∅ route d < 2 ^ 63
    omega

/-- The memory stays bounded while nothing is charged. -/
theorem Process.Bounded.kept {p p' : Process} {c u : Int} (hp : p.Bounded)
    (hstore : p'.store = p.store) (h : Kept config p.store c u t now p.limiter p'.limiter) :
    p'.Bounded := by
  refine ⟨fun c b' hb' => ?_, hp.usage.evolves h.usage hp.stored,
    hp.platform.evolves h.platform hp.stored, ?_, ?_, ?_⟩
  · cases hold : p.limiter.budgets.lookup c with
    | some b =>
      obtain ⟨b'', hb'', hkept⟩ := h.budgets.kept c b hold
      obtain rfl : b'' = b' := Option.some.inj (hb''.symm.trans hb')
      exact hkept.bounded (hp.budgets c b hold)
    | none =>
      obtain ⟨b, hb, hkept⟩ := h.budgets.came c b' hold hb'
      exact hkept.bounded (hb.bounded (hp.storedMonth c t) (hp.storedExtra c))
  · rw [hstore]
    exact hp.stored
  · rw [hstore]
    exact hp.storedMonth
  · rw [hstore]
    exact hp.storedExtra

theorem not_overflows_of_lt {a b : Credits} (ha : ∀ d, a.of d < 2 ^ 63)
    (hb : ∀ d, b.of d < 2 ^ 16) : ¬a.Overflows b := by
  rintro ⟨d, h⟩
  have := ha d
  have := hb d
  unfold u64Max at h
  omega

theorem not_overflows_record {record : UsageRecord} {route : ℕ} {credits : Credits}
    (hversion : record.version < 2 ^ 63) (htotal : ∀ route d, record.routes.total route d < 2 ^ 63)
    (hcredits : ∀ d, credits.of d < 2 ^ 16) : ¬record.Overflows route credits := by
  rintro (h | h)
  · unfold u64Max at h
    omega
  · exact not_overflows_of_lt (htotal route) hcredits h

/-- After the gates no debit can overflow: the gates have added the hour, the day and the pool's day
already, and everything else is bounded. -/
theorem Ready.not_overflowing {extra : ℕ} {p : Process} {company user : SubjectState}
    {budget : CompanyBudgetState} (h : Ready config r t now extra p.limiter company user budget)
    (hp : p.Bounded) (hr : r.Parsed) :
    ¬Overflowing r t extra p.limiter company user budget := by
  obtain ⟨hcompany, huser, hpaid⟩ := gates_ok h.passed
  have hcredits := hr.credits_lt
  have hfits : ∀ {a : Credits}, (∀ d, a.of d + r.credits.of d ≤ u64Max) →
      ¬a.Overflows r.credits := fun hle ⟨d, hlt⟩ => absurd (hle d) (not_le.mpr hlt)
  have hbudget := hp.budgets r.companyId budget h.budgetAt
  rintro (hov | hov | hov | ⟨key, hkey, hov⟩ | ⟨record, hrecord, hov⟩)
  · rcases hov with hov | ⟨hdaily, hov⟩
    · exact hfits hcompany.hourFits hov
    · rcases hpaid with ⟨-, hquota⟩ | ⟨hpos, -⟩
      · exact hfits hquota.fits hov
      · simp [hpos] at hdaily
  · rcases hov with hov | ⟨hdaily, hov⟩
    · exact hfits huser.hourFits hov
    · rcases hpaid with ⟨-, hquota⟩ | ⟨hpos, -⟩
      · exact hfits hquota.userFits hov
      · simp [hpos] at hdaily
  · have hversion := hbudget.version
    have hmonth := hbudget.monthExtraUsed
    have hu64 : u64Max = 2 ^ 64 - 1 := rfl
    rcases hov with hov | hov
    · omega
    · rcases hpaid with ⟨rfl, -⟩ | ⟨hpos, -, -, hcpu, -, -, hday⟩
      · rw [if_neg (lt_irrefl 0)] at hov
        exact not_overflows_of_lt hbudget.monthUsed hcredits hov
      · rw [if_pos hpos] at hov
        have : r.credits.cpu < 2 ^ 16 := hcredits .cpu
        omega
  · obtain ⟨hversion, htotal⟩ := hp.usage.recordAt key
    exact not_overflows_record hversion htotal hcredits hov
  · obtain ⟨hversion, htotal⟩ := hp.platform _ record hrecord
    exact not_overflows_record hversion htotal hcredits hov

/-- **No step after the first debit fails** while totals and versions are bounded. -/
theorem completes_of_bounded (hr : r.Parsed) {p : Process} (hp : p.Bounded) :
    Completes config fates r t now p := by
  intro verdict extra p₁ hexec
  have hjudged : (beforeDebit config fates r t now).wp p (Judged config r t now p) :=
    beforeDebit_spec hr.user_ne p
  unfold Op.wp at hjudged
  rw [hexec] at hjudged
  obtain ⟨⟨hstore, hpath⟩, company, user, budget, hready⟩ := hjudged
  have hcommit := commit_spec hr.user_ne hready
  unfold Op.wp at hcommit
  cases hres : ((commit r t extra).exec p₁).1 with
  | ok => rfl
  | error =>
    rw [hres] at hcommit
    obtain ⟨-, -, hreason, -⟩ := hcommit
    exact absurd hreason (hready.not_overflowing (hp.kept hstore (.of_moves hpath)) hr)

/-- What a charge of request `r` has done: the states it was judged on were read or refreshed only
(`kept`), both subjects could pay from their buckets, and then everything was charged at once. -/
structure ChargedAtOnce (config : Config) (r : Request) (t : Int) (now extra : ℕ)
    (store : LimiterStore) (l l' : RateLimiter) (l₁ : RateLimiter) (company user : SubjectState)
    (budget : CompanyBudgetState) : Prop where
  kept : Kept config store r.companyId r.userId t now l l₁
  ready : Ready config r t now extra l₁ company user budget
  companyPaid : ∀ d, r.credits.of d * tokenPeriod ≤ (company.bucket d).scaledTokens
  userPaid : ∀ d, r.credits.of d * tokenPeriod ≤ (user.bucket d).scaledTokens
  charged : Charged r t extra l₁ l' company user budget
  source : extra = 0 ∨ extra = r.credits.cpu ∧ r.credits.inference = 0

theorem BurstPassed.paid {requested : Credits} (h : BurstPassed limits s requested) (d : Resource) :
    requested.of d * tokenPeriod ≤ (s.bucket d).scaledTokens := by
  cases d
  · exact of_decide_eq_true h.cpuBucket
  · exact of_decide_eq_true h.inferenceBucket

/-- **An admission charges everything or nothing.** It never writes the store; once it has debited
anything it completes; if it is allowed, the whole request has been charged; and if it fails, is
cancelled or is refused, nothing has been. -/
theorem admission_all_or_nothing (config : Config) (fates : Fates) (r : Request) (t : Int) (now : ℕ)
    (p : Process) (hr : r.Parsed) (hp : p.Bounded) :
    (admitAt config fates r t now).wp p fun outcome p' =>
      p'.store = p.store ∧ Completes config fates r t now p ∧
        match outcome with
        | .ok ⟨.allowed _, extra⟩ => ∃ l₁ company user budget,
            ChargedAtOnce config r t now extra p.store p.limiter p'.limiter l₁ company user budget
        | _ => Kept config p.store r.companyId r.userId t now p.limiter p'.limiter := by
  have hcompletes : Completes config fates r t now p := completes_of_bounded hr hp
  refine Op.wp_mono (admitAt_spec hr.user_ne p) ?_
  rintro outcome p' ⟨hstore, hadmits⟩
  refine ⟨hstore, hcompletes, ?_⟩
  cases hadmits with
  | refused hpath hrefused =>
    split
    · next verdict extra _ =>
      exact absurd rfl (hrefused verdict extra)
    · exact .of_moves hpath
  | allowed hpath hready hcharged =>
    obtain ⟨hcompany, huser, hpaid⟩ := gates_ok hready.passed
    refine ⟨_, _, _, _, .of_moves hpath, hready, hcompany.paid, huser.paid, hcharged, ?_⟩
    rcases hpaid with ⟨hextra, -⟩ | ⟨-, -, -, hextra, hinference, -⟩
    · exact .inl hextra
    · exact .inr ⟨hextra, hinference⟩
  | overflowed _ _ _ _ _ hincomplete => exact absurd hcompletes hincomplete

theorem sumOver_empty (c u : Int) (frames : List Int) (d : Resource) :
    LimiterStore.empty.sumOver c u frames d = 0 := by
  unfold LimiterStore.sumOver
  apply List.sum_eq_zero
  intro x hx
  obtain ⟨f, -, rfl⟩ := List.mem_map.mp hx
  rfl

/-- A new process, and no usage in the store. -/
theorem Process.bounded_new (b : StoredBudget) :
    Process.Bounded ⟨.new, LimiterStore.empty.upsertBudget b⟩ := by
  have hnone : UsageMap.Bounded ∅ := fun key record h => by cases h
  refine ⟨fun c b h => ?_, hnone, hnone, fun key route d => ?_, fun c t d => ?_, fun c => ?_⟩
  · cases h
  · have hempty : RoutedCredits.total ∅ route d = 0 := RoutedCredits.total_empty route d
    show RoutedCredits.total ∅ route d < 2 ^ 63
    omega
  · show LimiterStore.empty.sumOver c companyAggregateUserId (monthFrames t) d < 2 ^ 63
    rw [sumOver_empty]
    exact Nat.two_pow_pos 63
  · unfold LimiterStore.extra LimiterStore.loadBudget
    dsimp only
    cases (LimiterStore.empty.upsertBudget b).budgets c <;> exact Nat.two_pow_pos 63

/-- One shard, 1000 credits per window of ten seconds and 10000 per hour, and a pool of 500. -/
def sampleConfig : Config :=
  ⟨1, ⟨⟨⟨1000, 10000⟩, ⟨1000, 10000⟩⟩, ⟨⟨1000, 10000⟩, ⟨1000, 10000⟩⟩, 500, 100⟩, 60⟩

/-- A charge of 25 CPU credits that the pool may pay. -/
def sampleRequest : Request := ⟨7, 42, 3, ⟨25, 0⟩, [0, 0, 0, 0], true⟩

theorem sampleRequest_parsed : sampleRequest.Parsed :=
  ⟨⟨7, 42, 3, 25, 0, true, 0, 0, 0, 0⟩, rfl⟩

/-- The entitlement of company 7, and a request that is more than a window. -/
def entitledStore : LimiterStore :=
  LimiterStore.empty.upsertBudget ⟨7, ⟨100, 100⟩, 20819, ⟨1000, 1000⟩, ⟨1000, 1000⟩, 0⟩

def overWindow : Request := { sampleRequest with credits := ⟨2000, 0⟩ }

/-- A request is refused, and the next is charged to what the first has loaded. -/
theorem admission_all_or_nothing_refused :
    (admitAt sampleConfig (fun _ => .done) overWindow 1800000000 0).wp ⟨.new, entitledStore⟩
      fun outcome p => outcome = .ok ⟨.creditViolation ⟨.company, .tenSeconds, true, false⟩, 0⟩ ∧
        (admitAt sampleConfig (fun _ => .done) sampleRequest 1800000000 0).wp p fun outcome p' =>
          outcome = .ok ⟨.allowed .none, 0⟩ ∧ ∃ l₁ company user budget,
            ChargedAtOnce sampleConfig sampleRequest 1800000000 0 0 p.store p.limiter p'.limiter l₁
              company user budget := by
  have hnew := Process.bounded_new ⟨7, ⟨100, 100⟩, 20819, ⟨1000, 1000⟩, ⟨1000, 1000⟩, 0⟩
  obtain ⟨hstore, -, hkept⟩ := admission_all_or_nothing sampleConfig (fun _ => .done) overWindow
    1800000000 0 ⟨.new, entitledStore⟩ ⟨⟨7, 42, 3, 2000, 0, true, 0, 0, 0, 0⟩, rfl⟩ hnew
  have hrefused : ((admitAt sampleConfig (fun _ => .done) overWindow 1800000000 0).exec
      ⟨.new, entitledStore⟩).1 =
        .ok ⟨.creditViolation ⟨.company, .tenSeconds, true, false⟩, 0⟩ := by
    decide +kernel
  rw [hrefused] at hkept
  obtain ⟨-, -, hcharged⟩ := admission_all_or_nothing sampleConfig (fun _ => .done) sampleRequest
    1800000000 0 _ sampleRequest_parsed (hnew.kept hstore hkept)
  have hallowed : ((admitAt sampleConfig (fun _ => .done) sampleRequest 1800000000 0).exec
      ((admitAt sampleConfig (fun _ => .done) overWindow 1800000000 0).exec
        ⟨.new, entitledStore⟩).2).1 = .ok ⟨.allowed .none, 0⟩ := by decide +kernel
  rw [hallowed] at hcharged
  exact ⟨hrefused, hallowed, hcharged⟩

end Fareward.Limiter
