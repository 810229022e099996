import Fareward.Limiter.Equiv.Admission
import Fareward.Limiter.Flush

/-!
# The steps of the limiter

One inversion of `flushStep` and of `step`, with the guards of every transition: `Flushes` and
`Steps`. Proofs about runs go through them and never unfold the machine.
-/

namespace Fareward.Limiter

variable {row : StoredBudgetUsage × ℕ}

/-- The snapshots a pass still has to write or to mark. -/
def FlushPhase.pending : FlushPhase → List UsageSnapshot
  | .collect _ snapshots | .collectPlatform snapshots | .write snapshots => snapshots
  | .mark snapshot snapshots => snapshot :: snapshots
  | _ => []

/-- The budget rows a pass still has to write or to mark. -/
def FlushPhase.pendingBudgets : FlushPhase → List (StoredBudgetUsage × ℕ)
  | .budgetCollect _ _ _ snapshots | .budgetWrite snapshots => snapshots
  | .budgetMark usage version snapshots => (usage, version) :: snapshots
  | _ => []

/-- What one step of the flush does. -/
inductive Flushes (config : Config) (w : World) : FlushAction → World → Prop
  | start (hphase : w.flush = .idle) : Flushes config w .start { w with flush := .collect 0 [] }
  | collect {shard : ℕ} {snapshots : List UsageSnapshot} {order : List UsageKey}
      (hphase : w.flush = .collect shard snapshots)
      (horder : Enumerates order (w.process.limiter.usageKeys config shard)) :
      Flushes config w (.collect order) { w with
        flush := if shard + 1 < config.shards then
            .collect (shard + 1) (snapshots ++ order.filterMap fun key =>
              (w.process.limiter.usage.lookup key).bind (·.snapshot key))
          else .collectPlatform (snapshots ++ order.filterMap fun key =>
            (w.process.limiter.usage.lookup key).bind (·.snapshot key)) }
  | collectPlatform {snapshots : List UsageSnapshot} {order : List UsageKey}
      (hphase : w.flush = .collectPlatform snapshots)
      (horder : Enumerates order w.process.limiter.platformUsage.keys) :
      Flushes config w (.collectPlatform order) { w with
        flush := if snapshots ++ order.filterMap (fun key =>
            (w.process.limiter.platformUsage.lookup key).bind (·.snapshot key)) = [] then .idle
          else .write (snapshots ++ order.filterMap fun key =>
            (w.process.limiter.platformUsage.lookup key).bind (·.snapshot key)) }
  | unencodable {snapshot : UsageSnapshot} {snapshots : List UsageSnapshot} {e : CreditsBlobError}
      {succeeds landed : Bool} (hphase : w.flush = .write (snapshot :: snapshots))
      (hencode : CreditsBlob.encode snapshot.routes = .error e) :
      Flushes config w (.write succeeds landed) { w with flush := .afterWrites snapshots }
  | write {snapshot : UsageSnapshot} {snapshots : List UsageSnapshot} {bytes : List UInt8}
      {succeeds landed : Bool} (hphase : w.flush = .write (snapshot :: snapshots))
      (hencode : CreditsBlob.encode snapshot.routes = .ok bytes) :
      Flushes config w (.write succeeds landed) { w with
        process := if succeeds || landed then
            { w.process with store := w.process.store.upsert snapshot.key bytes } else w.process
        flush := if succeeds then .mark snapshot snapshots else .afterWrites snapshots }
  | mark {snapshot : UsageSnapshot} {snapshots : List UsageSnapshot}
      (hphase : w.flush = .mark snapshot snapshots) :
      Flushes config w .mark { w with
        process := { w.process with limiter := w.process.limiter.markFlushed snapshot }
        flush := .afterWrites snapshots }
  | prune {t : Int} (hphase : w.flush = .prune)
      (hframe : TimeFrame.fiveMinute t = .ok (TimeFrame.fiveMinuteOf t))
      (hdaily : TimeFrame.daily t = .ok (TimeFrame.dailyOf t)) :
      Flushes config w (.prune (some t)) { w with
        flush := .pruneShard t (TimeFrame.fiveMinuteOf t) (TimeFrame.dailyOf t) 0 }
  | noPrune {clock : Option Int} (hphase : w.flush = .prune)
      (hclock : ∀ t, clock = some t → TimeFrame.fiveMinute t = .ok (TimeFrame.fiveMinuteOf t) →
        TimeFrame.daily t ≠ .ok (TimeFrame.dailyOf t)) :
      Flushes config w (.prune clock) { w with flush := .budget }
  | pruneShard {t fiveMinute day : Int} {shard : ℕ}
      (hphase : w.flush = .pruneShard t fiveMinute day shard) :
      Flushes config w .pruneShard { w with
        process := { w.process with
          limiter := w.process.limiter.pruneShard config fiveMinute day shard }
        flush := if shard + 1 < config.shards then .pruneShard t fiveMinute day (shard + 1)
          else .prunePlatform fiveMinute
        trace := .prune shard t :: w.trace }
  | prunePlatform {fiveMinute : Int} (hphase : w.flush = .prunePlatform fiveMinute) :
      Flushes config w .prunePlatform { w with
        process := { w.process with limiter := w.process.limiter.prunePlatform fiveMinute }
        flush := .budget }
  | budget {t : Int} (hphase : w.flush = .budget)
      (hday : TimeFrame.localUnixDay t = .ok (TimeFrame.dayOf t)) :
      Flushes config w (.budget (some t))
        { w with flush := .budgetCollect t (TimeFrame.dayOf t) 0 [] }
  | noBudget {clock : Option Int} (hphase : w.flush = .budget)
      (hclock : ∀ t, clock = some t → TimeFrame.localUnixDay t ≠ .ok (TimeFrame.dayOf t)) :
      Flushes config w (.budget clock) { w with flush := .idle }
  | budgetCollect {t day : Int} {shard : ℕ} {snapshots : List (StoredBudgetUsage × ℕ)}
      {order : List Int} (hphase : w.flush = .budgetCollect t day shard snapshots)
      (horder : Enumerates order (w.process.limiter.budgetKeys config shard)) :
      Flushes config w (.budgetCollect order) { w with
        flush := if shard + 1 < config.shards then
            .budgetCollect t day (shard + 1)
              (snapshots ++ order.filterMap (w.process.limiter.budgetSnapshot t day))
          else .afterBudgetWrites
            (snapshots ++ order.filterMap (w.process.limiter.budgetSnapshot t day)) }
  | budgetWrite {usage : StoredBudgetUsage} {version : ℕ}
      {snapshots : List (StoredBudgetUsage × ℕ)} {succeeds landed : Bool}
      (hphase : w.flush = .budgetWrite ((usage, version) :: snapshots)) :
      Flushes config w (.budgetWrite succeeds landed) { w with
        process := if succeeds || landed then
            { w.process with store := w.process.store.upsertBudgetUsage usage } else w.process
        flush := if succeeds then .budgetMark usage version snapshots
          else .afterBudgetWrites snapshots }
  | budgetMark {usage : StoredBudgetUsage} {version : ℕ}
      {snapshots : List (StoredBudgetUsage × ℕ)}
      (hphase : w.flush = .budgetMark usage version snapshots) :
      Flushes config w .budgetMark { w with
        process := { w.process with
          limiter := w.process.limiter.markUsageFlushed usage.companyId version }
        flush := .afterBudgetWrites snapshots }

theorem flushStep_spec {config : Config} {w w' : World} {action : FlushAction}
    (h : flushStep config w action = some w') : Flushes config w action w' := by
  unfold flushStep at h
  simp only at h
  split at h
  · next hphase =>
    cases h
    exact .start hphase
  · next hphase =>
    obtain ⟨horder, h⟩ := Option.ite_none_right_eq_some.mp h
    cases h
    exact .collect hphase horder
  · next hphase =>
    obtain ⟨horder, h⟩ := Option.ite_none_right_eq_some.mp h
    cases h
    exact .collectPlatform hphase horder
  · next hphase =>
    split at h
    · next hencode =>
      cases h
      exact .unencodable hphase hencode
    · next hencode =>
      cases h
      exact .write hphase hencode
  · next hphase =>
    cases h
    exact .mark hphase
  · next clock hphase =>
    split at h
    · next t fiveMinute day hclock =>
      obtain ⟨_, rfl, hframes⟩ := Option.map_eq_some_iff.mp hclock
      obtain ⟨rfl, hframe, hdaily⟩ := by simpa only [Prod.mk.injEq] using hframes
      cases h
      obtain ⟨rfl, -, -⟩ := TimeFrame.fiveMinute_ok hframe
      obtain ⟨rfl, -⟩ := TimeFrame.daily_ok hdaily
      exact .prune hphase hframe hdaily
    · next hclock =>
      cases h
      refine .noPrune hphase fun t ht hframe hdaily => ?_
      subst ht
      exact hclock t _ _ (by rw [Option.map_some, hframe, hdaily])
  · next hphase =>
    cases h
    exact .pruneShard hphase
  · next hphase =>
    cases h
    exact .prunePlatform hphase
  · next clock hphase =>
    split at h
    · next t day hclock =>
      obtain ⟨_, rfl, hframes⟩ := Option.map_eq_some_iff.mp hclock
      obtain ⟨rfl, hday⟩ := by simpa only [Prod.mk.injEq] using hframes
      cases h
      obtain ⟨rfl, -⟩ := TimeFrame.localUnixDay_ok hday
      exact .budget hphase hday
    · next hclock =>
      cases h
      refine .noBudget hphase fun t ht hday => ?_
      subst ht
      exact hclock t _ (by rw [Option.map_some, hday])
  · next hphase =>
    obtain ⟨horder, h⟩ := Option.ite_none_right_eq_some.mp h
    cases h
    exact .budgetCollect hphase horder
  · next hphase =>
    cases h
    exact .budgetWrite hphase
  · next hphase =>
    cases h
    exact .budgetMark hphase
  · cases h

/-! ### The budget rows of a pass -/

section

variable {config : Config} {w w' : World} {action : FlushAction} {l : RateLimiter} {c t : Int}

theorem usageSnapshot_some {b : CompanyBudgetState} {dayUsed : Credits} {dayPeriod : Int}
    (h : b.usageSnapshot c dayUsed dayPeriod t = .ok (some row)) :
    b.version ≠ b.flushedVersion ∧ ∃ updated, row = (⟨c, dayPeriod, dayUsed, b.usageMonthStartDay,
      b.monthUsed, b.dayExtraUsed, b.monthExtraUsed, updated⟩, b.version) := by
  unfold CompanyBudgetState.usageSnapshot at h
  split_ifs at h with hclean
  · cases h
  · obtain ⟨updated, -, h⟩ := bind_eq_ok.mp h
    exact ⟨hclean, updated, (Option.some.inj (Except.ok.inj h)).symm⟩

theorem ok_of_toOption_join {ε α : Type} {x : Except ε (Option α)} {a : α}
    (h : x.toOption.join = some a) : x = .ok (some a) := by
  cases x with
  | error => cases h
  | ok o =>
    obtain rfl : o = some a := h
    rfl

/-- A row is taken of a budget with something to publish, and of the company's subject if it is
loaded. -/
theorem budgetSnapshot_some {day : Int} (h : l.budgetSnapshot t day c = some row) :
    ∃ b dayUsed dayPeriod updated, l.budgets.lookup c = some b ∧ b.version ≠ b.flushedVersion ∧
      row = (⟨c, dayPeriod, dayUsed, b.usageMonthStartDay, b.monthUsed, b.dayExtraUsed,
        b.monthExtraUsed, updated⟩, b.version) ∧
      ∀ s, l.subjects.lookup (c, companyAggregateUserId) = some s →
        dayUsed = s.dayUsed ∧ dayPeriod = s.dayPeriod := by
  obtain ⟨b, hb, h⟩ := Option.bind_eq_some_iff.mp h
  dsimp only at h
  split at h
  · next s hs =>
    obtain ⟨hdirty, updated, hrow⟩ := usageSnapshot_some (ok_of_toOption_join h)
    refine ⟨b, _, _, updated, hb, hdirty, hrow, fun s' hs' => ?_⟩
    obtain rfl := Option.some.inj (hs.symm.trans hs')
    exact ⟨rfl, rfl⟩
  · next hnone =>
    obtain ⟨hdirty, updated, hrow⟩ := usageSnapshot_some (ok_of_toOption_join h)
    refine ⟨b, _, _, updated, hb, hdirty, hrow, fun s' hs' => ?_⟩
    rw [hnone] at hs'
    cases hs'

theorem pendingBudgets_afterBudgetWrites (snapshots : List (StoredBudgetUsage × ℕ)) :
    (FlushPhase.afterBudgetWrites snapshots).pendingBudgets = snapshots := by
  cases snapshots <;> rfl

theorem pendingBudgets_afterWrites (snapshots : List UsageSnapshot) :
    (FlushPhase.afterWrites snapshots).pendingBudgets = [] := by
  cases snapshots <;> rfl

/-- The rows of a pass are taken from the memory. -/
theorem pendingBudgets_flushes (hflush : Flushes config w action w') :
    ∀ row ∈ w'.flush.pendingBudgets, row ∈ w.flush.pendingBudgets ∨
      ∃ t day c, w.process.limiter.budgetSnapshot t day c = some row := by
  have hnil : ∀ {rows : List (StoredBudgetUsage × ℕ)}, rows = [] → ∀ row ∈ rows,
      row ∈ w.flush.pendingBudgets ∨
        ∃ t day c, w.process.limiter.budgetSnapshot t day c = some row := by
    rintro _ rfl row hrow
    cases hrow
  cases hflush with
  | start | noPrune | prune | budget | noBudget | prunePlatform => exact hnil rfl
  | collect | collectPlatform | pruneShard =>
    refine hnil ?_
    dsimp only
    split_ifs <;> rfl
  | unencodable | mark => exact hnil (pendingBudgets_afterWrites _)
  | write =>
    refine hnil ?_
    dsimp only
    split_ifs
    · rfl
    · exact pendingBudgets_afterWrites _
  | @budgetCollect t day shard snapshots order hphase =>
    intro row hrow
    have hrow : row ∈ snapshots ++ order.filterMap (w.process.limiter.budgetSnapshot t day) := by
      dsimp only at hrow
      split_ifs at hrow
      · exact hrow
      · rwa [pendingBudgets_afterBudgetWrites] at hrow
    rw [hphase]
    refine (List.mem_append.mp hrow).imp_right fun hrow => ?_
    obtain ⟨c, -, hrow⟩ := List.mem_filterMap.mp hrow
    exact ⟨t, day, c, hrow⟩
  | @budgetWrite usage version snapshots succeeds landed hphase =>
    intro row hrow
    rw [hphase]
    dsimp only at hrow
    split_ifs at hrow
    · exact .inl hrow
    · rw [pendingBudgets_afterBudgetWrites] at hrow
      exact .inl (List.mem_cons_of_mem _ hrow)
  | @budgetMark usage version snapshots hphase =>
    intro row hrow
    rw [hphase]
    dsimp only at hrow
    rw [pendingBudgets_afterBudgetWrites] at hrow
    exact .inl (List.mem_cons_of_mem _ hrow)

/-- What a pass writes is one of its rows. -/
theorem budgetUsages_flushes (hflush : Flushes config w action w') {row : StoredBudgetUsage}
    (hrow : w'.process.store.budgetUsages c = some row) :
    w.process.store.budgetUsages c = some row ∨
      ∃ version, (row, version) ∈ w.flush.pendingBudgets := by
  cases hflush with
  | write =>
    dsimp only at hrow
    split_ifs at hrow <;> exact .inl hrow
  | @budgetWrite usage version snapshots succeeds landed hphase =>
    dsimp only at hrow
    split_ifs at hrow
    · replace hrow : Function.update w.process.store.budgetUsages usage.companyId (some usage) c =
          some row := hrow
      rw [Function.update_apply] at hrow
      split_ifs at hrow
      · cases hrow
        refine .inr ⟨version, ?_⟩
        rw [hphase]
        exact List.mem_cons_self
      · exact .inl hrow
    · exact .inl hrow
  | _ => exact .inl hrow

end

theorem markFlushed_subjects (l : RateLimiter) (snapshot : UsageSnapshot) :
    (l.markFlushed snapshot).subjects = l.subjects := by
  unfold RateLimiter.markFlushed
  split_ifs <;> split <;> rfl

theorem invalidateAccess_subjects (l : RateLimiter) (c u : Int) :
    (invalidateAccess l c u).subjects = l.subjects := by
  unfold invalidateAccess
  split_ifs <;> rfl

/-- An admission as an event: what `admissionStep` records. -/
structure Records (r : Request) (t : Int) (now : ℕ) (outcome : Except Failure Admission)
    (l l' : RateLimiter) (record : AdmissionRecord) : Prop where
  request : record.request = r
  unixSeconds : record.unixSeconds = t
  now : record.now = now
  outcome : record.outcome = outcome
  daily : record.daily = l'.daily r.companyId
  refills : record.refills = List.flatten [
    l.refills l' (r.companyId, companyAggregateUserId) .cpu,
    l.refills l' (r.companyId, companyAggregateUserId) .inference,
    l.refills l' (r.companyId, r.userId) .cpu, l.refills l' (r.companyId, r.userId) .inference]

/-- Requests and mutations come from `parse_charge` and `parse_budget_mutation`. -/
def Action.Parsed : Action → Prop
  | .admission r _ _ _ => r.Parsed
  | .mutation m _ _ => m.Parsed
  | _ => True

instance (a : Action) : Decidable a.Parsed := by
  cases a <;> unfold Action.Parsed <;> infer_instance

/-- What one step of the limiter does. -/
inductive Steps (config : Config) (w : World) : Action → World → Prop
  | admission {r : Request} {t : Int} {now : ℕ} {fates : Fates}
      {outcome : Except Failure Admission} {l' : RateLimiter} {record : AdmissionRecord}
      (hr : r.Parsed) (hadmits : Admits config fates r t now w.process outcome l')
      (hrecord : Records r t now outcome w.process.limiter l' record) :
      Steps config w (.admission r t now fates)
        ⟨⟨l', w.process.store⟩, w.flush, .admission record :: w.trace⟩
  | mutation {m : BudgetMutation} {t : Int} {fates : Fates}
      {outcome : Except Failure BudgetMutationReply} {p' : Process}
      (hm : m.Parsed) (hmutates : Mutates fates m t w.process outcome p') :
      Steps config w (.mutation m t fates) ⟨p', w.flush, .mutation m t outcome :: w.trace⟩
  | invalidation {c u : Int} :
      Steps config w (.invalidation c u)
        ⟨⟨invalidateAccess w.process.limiter c u, w.process.store⟩, w.flush, w.trace⟩
  | flush {action : FlushAction} {w' : World} (hflush : Flushes config w action w') :
      Steps config w (.flush action) w'
  | restart : Steps config w .restart ⟨⟨.new, w.process.store⟩, .idle, w.trace⟩

theorem step_spec {config : Config} {w w' : World} {a : Action} (ha : a.Parsed)
    (h : step config w a = some w') : Steps config w a w' := by
  cases a with
  | admission r t now fates =>
    cases h
    have hspec : (admitAt config fates r t now).wp w.process _ := admitAt_spec ha.user_ne w.process
    obtain ⟨hstore, hadmits⟩ := hspec
    unfold admissionStep
    cases hexec : (admitAt config fates r t now).exec w.process with
    | mk outcome p' =>
      rw [hexec] at hstore hadmits
      obtain ⟨l', store⟩ := p'
      obtain rfl : store = w.process.store := hstore
      exact .admission ha hadmits ⟨rfl, rfl, rfl, rfl, rfl, rfl⟩
  | mutation m t fates =>
    cases h
    have hmutates : (mutateBudgetAt fates m t).wp w.process _ := mutateBudgetAt_spec m w.process
    exact .mutation ha hmutates
  | invalidation =>
    cases h
    exact .invalidation
  | flush => exact .flush (flushStep_spec h)
  | restart =>
    cases h
    exact .restart

end Fareward.Limiter
