import Fareward.Lib.Machine
import Fareward.Limiter.Equiv.Steps

/-!
# The entitlement in memory and in the store

A budget in memory carries a copy of the entitlement columns of its row. Admissions and flushes
write neither; a mutation writes the row first and the copy after it. `Durable` says that the two
agree, and `enforced_entitlement_durable` that they do in every run in which no mutation's write
takes effect without returning. Such a write (`Fate.landed`) is the only thing that separates
them: the row is new, the copy stays old, and every later admission is judged by the copy.
-/

namespace Fareward.Limiter

open Relation

variable {store : LimiterStore} {m : BudgetMutation} {stored : StoredBudget} {w w' : World}

/-- Every entitlement in memory is the one in the store. -/
def Durable (p : Process) : Prop :=
  ∀ c b, p.limiter.budgets.lookup c = some b → b.stored = p.store.entitlement c

/-- No write of a mutation takes effect unless it returns. -/
def Action.Answered : Action → Prop
  | .mutation _ _ fates => (fates .budgetWrite).landed = false
  | _ => True

instance : DecidablePred Action.Answered
  | .mutation _ _ fates => instDecidableEqBool (fates .budgetWrite).landed false
  | .admission _ _ _ _ | .invalidation _ _ | .flush _ | .restart => .isTrue trivial

/-! ### The columns of the store -/

theorem entitlement_eq (store : LimiterStore) (c : Int) :
    store.entitlement c = { (store.budgets c).getD .empty with companyId := c } := by
  unfold LimiterStore.entitlement LimiterStore.loadBudget
  cases store.budgets c <;> cases store.budgetUsages c <;> rfl

theorem entitlement_congr {store' : LimiterStore} (h : store'.budgets = store.budgets) (c : Int) :
    store'.entitlement c = store.entitlement c := by
  rw [entitlement_eq, entitlement_eq, h]

theorem entitlement_upsertBudget (store : LimiterStore) (b : StoredBudget) (c : Int) :
    (store.upsertBudget b).entitlement c =
      if c = b.companyId then b else store.entitlement c := by
  rw [entitlement_eq, entitlement_eq]
  unfold LimiterStore.upsertBudget
  split_ifs with hc
  · subst hc
    simp only [Function.update_self, Option.getD_some]
  · simp only [Function.update_of_ne hc]

/-! ### What each step does to the entitlements -/

section

variable {config : Config} {fates : Fates} {r : Request} {c t : Int} {now : ℕ} {p p' : Process}
  {l l' : RateLimiter} {b : CompanyBudgetState}

theorem Durable.kept {u : Int} (hp : Durable ⟨l, p.store⟩)
    (hkept : Kept config p.store c u t now l l') : Durable ⟨l', p.store⟩ := by
  intro c' b' hb'
  cases hb : l.budgets.lookup c' with
  | some b =>
    obtain ⟨b₁, hb₁, hold⟩ := hkept.budgets.kept c' b hb
    obtain rfl : b₁ = b' := Option.some.inj (hb₁.symm.trans hb')
    exact hold.stored.trans (hp c' b hb)
  | none =>
    obtain ⟨b, hread, hold⟩ := hkept.budgets.came c' b' hb hb'
    exact hold.stored.trans hread.stored

theorem Durable.debit (hp : Durable ⟨l, store⟩) (hdebit : Debit r t l l') :
    Durable ⟨l', store⟩ := by
  cases hdebit with
  | subject | usage | platform => exact hp
  | budget b b' hb hgrown =>
    intro c' b₁ hb₁
    replace hb₁ : (l.budgets.insert r.companyId b').lookup c' = some b₁ := hb₁
    rw [lookup_insert_eq] at hb₁
    split_ifs at hb₁ with hc
    · cases hb₁
      subst hc
      exact hgrown.stored.trans (hp _ b hb)
    · exact hp c' b₁ hb₁

theorem Durable.debits (hp : Durable ⟨l, store⟩) (hdebits : ReflTransGen (Debit r t) l l') :
    Durable ⟨l', store⟩ := by
  induction hdebits with
  | refl => exact hp
  | tail _ hdebit ih => exact ih.debit hdebit

theorem charged_stored (b : CompanyBudgetState) (requested : Credits) (extra : ℕ) :
    (b.charged requested extra).stored = b.stored := by
  unfold CompanyBudgetState.charged
  split_ifs <;> rfl

theorem Durable.charged {extra : ℕ} {company user : SubjectState} (hp : Durable ⟨l, store⟩)
    (hready : Ready config r t now extra l company user b)
    (hcharged : Charged r t extra l l' company user b) : Durable ⟨l', store⟩ := by
  intro c' b' hb'
  by_cases hc : c' = r.companyId
  · subst hc
    obtain rfl := Option.some.inj (hcharged.budget.symm.trans hb')
    exact (charged_stored _ _ _).trans (hp _ b hready.budgetAt)
  · exact hp c' b' ((hcharged.budgets c' hc).symm.trans hb')

/-- An admission writes no entitlement, whatever its end. -/
theorem Durable.admits {outcome : Except Failure Admission} (hp : Durable p)
    (hadmits : Admits config fates r t now p outcome l') : Durable ⟨l', p.store⟩ := by
  cases hadmits with
  | refused hpath => exact hp.kept (.of_moves hpath)
  | allowed hpath hready hcharged => exact (hp.kept (.of_moves hpath)).charged hready hcharged
  | overflowed hpath hready hdebit => exact (hp.kept (.of_moves hpath)).debits hdebit

theorem Durable.budgetAt (hp : Durable p) (hb : BudgetAt p.store p.limiter c t b) :
    b.stored = p.store.entitlement c := by
  rcases hb with hb | ⟨-, hb⟩
  · exact hp c b hb
  · exact hb.stored

theorem refreshMonth_stored (b : CompanyBudgetState) (month : Int) :
    (b.refreshMonth month).stored = b.stored := by
  unfold CompanyBudgetState.refreshMonth
  split_ifs <;> rfl

theorem Durable.setBudget (hp : Durable p) (hb : b.stored = p.store.entitlement c) :
    Durable ⟨p.limiter.setBudget c b, p.store⟩ := by
  intro c' b' hb'
  replace hb' : (p.limiter.budgets.insert c b).lookup c' = some b' := hb'
  rw [lookup_insert_eq] at hb'
  split_ifs at hb' with hc
  · obtain rfl := Option.some.inj hb'
    rw [hc, hb]
  · exact hp c' b' hb'

/-- A mutation changes the entitlement of its company only. -/
theorem mutatedBudget_companyId {month : Int} (h : mutatedBudget b m month = .ok stored) :
    stored.companyId = b.stored.companyId := by
  unfold mutatedBudget at h
  split at h
  · injection h with h
    rw [← h]
  · split at h
    · cases h
    · split_ifs at h
      injection h with h
      rw [← h]
  · split_ifs at h
    split at h
    · split_ifs at h
      injection h with h
      rw [← h]
    · cases h

/-- The row and its copy are written together. -/
theorem Durable.written (hp : Durable p) (hc : stored.companyId = c) (hb : b.stored = stored) :
    Durable ⟨p.limiter.setBudget c b, p.store.upsertBudget stored⟩ := by
  intro c' b' hb'
  replace hb' : (p.limiter.budgets.insert c b).lookup c' = some b' := hb'
  rw [entitlement_upsertBudget, hc]
  rw [lookup_insert_eq] at hb'
  split_ifs at hb' ⊢ with hc'
  · obtain rfl := Option.some.inj hb'
    exact hb
  · exact hp c' b' hb'

theorem Durable.mutates {outcome : Except Failure BudgetMutationReply} (hp : Durable p)
    (hanswered : (fates .budgetWrite).landed = false) (hmutates : Mutates fates m t p outcome p') :
    Durable p' := by
  have hrefreshed : ∀ {b}, BudgetAt p.store p.limiter m.companyId t b →
      (b.refreshMonth (TimeFrame.monthOf t)).stored = p.store.entitlement m.companyId :=
    fun hb => (refreshMonth_stored _ _).trans (hp.budgetAt hb)
  cases hmutates with
  | unfound => exact hp
  | refused hb => exact hp.setBudget (hrefreshed hb)
  | failed hb hstore =>
    rcases hstore with rfl | ⟨hlanded, -⟩
    · exact hp.setBudget (hrefreshed hb)
    · rw [hanswered] at hlanded
      cases hlanded
  | written hb hstored =>
    refine hp.written ?_ rfl
    rw [mutatedBudget_companyId hstored, hrefreshed hb]
    rfl

theorem markUsageFlushed_stored (b : CompanyBudgetState) (version : ℕ) :
    (b.markUsageFlushed version).stored = b.stored := by
  unfold CompanyBudgetState.markUsageFlushed
  split_ifs <;> rfl

theorem Durable.markUsageFlushed {version : ℕ} (hp : Durable p) :
    Durable ⟨p.limiter.markUsageFlushed c version, p.store⟩ := by
  unfold RateLimiter.markUsageFlushed
  split
  · next b hb => exact hp.setBudget ((markUsageFlushed_stored b version).trans (hp c b hb))
  · exact hp

theorem markFlushed_budgets (l : RateLimiter) (snapshot : UsageSnapshot) :
    (l.markFlushed snapshot).budgets = l.budgets := by
  unfold RateLimiter.markFlushed
  split_ifs <;> split <;> rfl

theorem invalidateAccess_budgets (l : RateLimiter) (c u : Int) :
    (invalidateAccess l c u).budgets = l.budgets := by
  unfold invalidateAccess
  split_ifs <;> rfl

theorem Durable.congr {p' : Process} (hp : Durable p) (hl : p'.limiter.budgets = p.limiter.budgets)
    (hs : p'.store.budgets = p.store.budgets) : Durable p' := by
  intro c' b' hb'
  rw [hl] at hb'
  rw [hp c' b' hb', entitlement_congr hs]

/-- A flush writes usage only. -/
theorem Durable.flushes {action : FlushAction} (hp : Durable w.process)
    (hflush : Flushes config w action w') : Durable w'.process := by
  cases hflush with
  | write | budgetWrite =>
    dsimp only
    split_ifs
    · exact hp.congr rfl rfl
    · exact hp
  | mark => exact hp.congr (markFlushed_budgets _ _) rfl
  | pruneShard | prunePlatform => exact hp.congr rfl rfl
  | budgetMark => exact hp.markUsageFlushed
  | _ => exact hp

theorem Durable.steps {a : Action} (hp : Durable w.process) (ha : a.Answered)
    (h : Steps config w a w') : Durable w'.process := by
  cases h with
  | admission _ hadmits => exact hp.admits hadmits
  | mutation _ hmutates => exact hp.mutates ha hmutates
  | invalidation => exact hp.congr (invalidateAccess_budgets _ _ _) rfl
  | flush hflush => exact hp.flushes hflush
  | restart => exact fun _ _ h => by cases h

end

/-- **The entitlement in force is the one in the store.** In every run in which no mutation's write
takes effect without returning, from any store, the entitlement that `ensure_budget` gives the next
admission of a company is the one in the company's row. -/
theorem enforced_entitlement_durable {config : Config} {store : LimiterStore} {w : World}
    (h : Reaches (step config) (fun _ a => a.Parsed ∧ a.Answered) (World.boot store) w)
    (fates : Fates) (c t : Int) :
    (ensureBudget fates c t).wp w.process fun _ p => p.store = w.process.store ∧
      ∀ b, p.limiter.budgets.lookup c = some b → b.stored = w.process.store.entitlement c := by
  have hdurable : Durable w.process := by
    refine h.invariant (I := fun w => Durable w.process) (fun _ _ h => by cases h) ?_
    rintro w a w' - hp ⟨hparsed, hanswered⟩ hs
    exact hp.steps hanswered (step_spec hparsed hs)
  refine Op.wp_mono (ensureBudget_cases c w.process) ?_
  intro res p' hres
  cases res with
  | error =>
    obtain rfl : p' = w.process := hres
    exact ⟨rfl, hdurable c⟩
  | ok =>
    obtain ⟨b, hb, rfl⟩ := hres
    exact ⟨rfl, hdurable.setBudget (hdurable.budgetAt hb) c⟩

/-- Company 7 is given 100 credits a day of each kind. -/
def grant : BudgetMutation := ⟨7, .setDaily, ⟨100, 100⟩⟩

theorem enforced_entitlement_durable_granted :
    ∃ w, Reaches (step sampleConfig) (fun _ a => a.Parsed ∧ a.Answered) (World.boot .empty) w ∧
      (w.process.store.entitlement 7).daily = ⟨100, 100⟩ ∧
      (ensureBudget (fun _ => .done) 7 1800000000).wp w.process fun _ p =>
        p.store = w.process.store ∧
          ∀ b, p.limiter.budgets.lookup 7 = some b → b.stored = w.process.store.entitlement 7 := by
  exact exists_and_of_runList [.mutation grant 1800000000 fun _ => .done,
    .mutation ⟨7, .setDaily, ⟨9, 9⟩⟩ 1800000000 fun _ => .failed false] (by decide +kernel)
    fun _ hreach _ => enforced_entitlement_durable hreach _ _ _

/-- The write of the grant times out after it took effect: the row says 100 a day, and the company
is still judged by zero. -/
theorem grant_landed_unanswered :
    ∃ w, Reaches (step sampleConfig) (fun _ a => a.Parsed) (World.boot .empty) w ∧
      (w.process.store.entitlement 7).daily = ⟨100, 100⟩ ∧
      w.process.limiter.daily 7 = ⟨0, 0⟩ ∧
      (ensureBudget (fun _ => .done) 7 1800000000).wp w.process fun _ p =>
        p.limiter.daily 7 = ⟨0, 0⟩ := by
  unfold Op.wp
  exact exists_of_runList [.mutation grant 1800000000 fun point =>
    if point = .budgetWrite then .failed true else .done] (by decide +kernel)

end Fareward.Limiter
