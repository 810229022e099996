import Fareward.Limiter.Equiv.Labels

/-!
# Two runs that differ by a refused charge

A refused charge refills the buckets and rolls the periods of two subjects and a budget over, and
nothing else that a later call could see. `SubjectAgrees` and `BudgetAgrees` relate the states
without and with it: every later refresh makes them the same, because refills add up and a rollover
is absorbed by a later one. `Alike` extends this to the whole process, and the calls of the limiter
answer the same in processes that are alike and leave processes that are alike.

The flush of the budget rows depends on the periods; it writes columns that no call reads as long as
the budget is in memory. So `flushedVersion` and the stored columns may differ.
-/

namespace Fareward.Limiter

/-! ### Refreshes are absorbed -/

theorem refill_absorb {b : TokenBucket} {limit now now' : ℕ} (h : b.lastRefill ≤ now)
    (h' : now ≤ now') : (b.refill limit now).refill limit now' = b.refill limit now' := by
  have hsum : (now' - b.lastRefill) * limit =
      (now - b.lastRefill) * limit + (now' - now) * limit := by
    rw [← Nat.add_mul]
    congr 1
    omega
  unfold TokenBucket.refill
  dsimp only
  rw [hsum]
  congr 1
  omega

/-- A rollover is absorbed by a later one. -/
theorem rollover_absorb {α : Type} {label p q : Int} (zero used : α) (h : label ≤ p) (h' : p ≤ q) :
    (if p ≠ q then zero else if label ≠ p then zero else used) =
      if label ≠ q then zero else used := by
  by_cases hpq : p = q
  · subst hpq
    rw [if_neg (not_not.mpr rfl)]
  · rw [if_pos hpq, if_pos (by omega)]

/-- Later refreshes do not tell the states apart. -/
def SubjectAgrees (limits : ScopeLimits) (t : Int) (now : ℕ) (s₁ s₂ : SubjectState) : Prop :=
  ∀ t' now', t ≤ t' → now ≤ now' →
    s₁.refreshPeriods limits t' (TimeFrame.dayOf t') now' =
      s₂.refreshPeriods limits t' (TimeFrame.dayOf t') now'

theorem SubjectAgrees.refl (limits : ScopeLimits) (t : Int) (now : ℕ) (s : SubjectState) :
    SubjectAgrees limits t now s s := fun _ _ _ _ => rfl

theorem SubjectAgrees.refresh {s : SubjectState} {t : Int} {now : ℕ} (limits : ScopeLimits)
    (h : s.Behind t now) :
    SubjectAgrees limits t now s (s.refreshPeriods limits t (TimeFrame.dayOf t) now) := by
  intro t' now' ht hnow
  have hhour := rollover_absorb Credits.zero s.hourUsed h.hour (TimeFrame.hourOf_mono ht)
  have hday := rollover_absorb Credits.zero s.dayUsed h.day (TimeFrame.dayOf_mono ht)
  have hcpu : s.cpuBucket.lastRefill ≤ now := h.bucket .cpu
  have hinference : s.inferenceBucket.lastRefill ≤ now := h.bucket .inference
  unfold SubjectState.refreshPeriods
  congr 1
  · exact (refill_absorb hcpu hnow).symm
  · exact (refill_absorb hinference hnow).symm
  · exact hhour.symm
  · exact hday.symm

namespace CompanyBudgetState

def monthPart (b : CompanyBudgetState) : Int × Credits × ℕ :=
  (b.usageMonthStartDay, b.monthUsed, b.monthExtraUsed)

def dayPart (b : CompanyBudgetState) : Int × ℕ := (b.extraDayPeriod, b.dayExtraUsed)

/-- The budgets differ at most in what is known to be durable. -/
def SameCounts (b₁ b₂ : CompanyBudgetState) : Prop := ∃ v, b₂ = { b₁ with flushedVersion := v }

theorem SameCounts.refl (b : CompanyBudgetState) : SameCounts b b := ⟨b.flushedVersion, rfl⟩

theorem monthPart_refreshMonth (b : CompanyBudgetState) (m : Int) :
    (b.refreshMonth m).monthPart =
      (m, if b.usageMonthStartDay ≠ m then (.zero, 0) else (b.monthUsed, b.monthExtraUsed)) := by
  unfold refreshMonth
  split_ifs with h
  · rfl
  · rw [← not_not.mp h]
    rfl

theorem dayPart_refreshDay (b : CompanyBudgetState) (d : Int) :
    (b.refreshDay d).dayPart = (d, if b.extraDayPeriod ≠ d then 0 else b.dayExtraUsed) := by
  unfold refreshDay
  split_ifs with h
  · rfl
  · rw [← not_not.mp h]
    rfl

theorem dayPart_refreshMonth (b : CompanyBudgetState) (m : Int) :
    (b.refreshMonth m).dayPart = b.dayPart := by
  unfold refreshMonth
  split_ifs <;> rfl

theorem monthPart_refreshDay (b : CompanyBudgetState) (d : Int) :
    (b.refreshDay d).monthPart = b.monthPart := by
  unfold refreshDay
  split_ifs <;> rfl

theorem stored_refreshDay (b : CompanyBudgetState) (d : Int) :
    (b.refreshDay d).stored = b.stored := by
  unfold refreshDay
  split_ifs <;> rfl

theorem version_refreshMonth (b : CompanyBudgetState) (m : Int) :
    (b.refreshMonth m).version = b.version := by
  unfold refreshMonth
  split_ifs <;> rfl

theorem version_refreshDay (b : CompanyBudgetState) (d : Int) :
    (b.refreshDay d).version = b.version := by
  unfold refreshDay
  split_ifs <;> rfl

theorem SameCounts.of_parts {b₁ b₂ : CompanyBudgetState} (hstored : b₁.stored = b₂.stored)
    (hversion : b₁.version = b₂.version) (hmonth : b₁.monthPart = b₂.monthPart)
    (hday : b₁.dayPart = b₂.dayPart) : SameCounts b₁ b₂ := by
  obtain ⟨hlabel, hused, hextra⟩ := by simpa only [monthPart, Prod.mk.injEq] using hmonth
  obtain ⟨hdayLabel, hdayUsed⟩ := by simpa only [dayPart, Prod.mk.injEq] using hday
  refine ⟨b₂.flushedVersion, ?_⟩
  cases b₁
  cases b₂
  simp_all

end CompanyBudgetState

open CompanyBudgetState (SameCounts)

/-- Later refreshes tell the budgets apart at most in what is known to be durable. -/
structure BudgetAgrees (t : Int) (b₁ b₂ : CompanyBudgetState) : Prop where
  stored : b₁.stored = b₂.stored
  version : b₁.version = b₂.version
  month : ∀ t', t ≤ t' → (b₁.refreshMonth (TimeFrame.monthOf t')).monthPart =
    (b₂.refreshMonth (TimeFrame.monthOf t')).monthPart
  day : ∀ t', t ≤ t' → (b₁.refreshDay (TimeFrame.dayOf t')).dayPart =
    (b₂.refreshDay (TimeFrame.dayOf t')).dayPart

namespace BudgetAgrees

variable {t t' : Int} {b b₁ b₂ b₃ : CompanyBudgetState}

theorem refl (t : Int) (b : CompanyBudgetState) : BudgetAgrees t b b :=
  ⟨rfl, rfl, fun _ _ => rfl, fun _ _ => rfl⟩

theorem trans (h : BudgetAgrees t b₁ b₂) (h' : BudgetAgrees t b₂ b₃) : BudgetAgrees t b₁ b₃ :=
  ⟨h.stored.trans h'.stored, h.version.trans h'.version,
    fun t' ht => (h.month t' ht).trans (h'.month t' ht),
    fun t' ht => (h.day t' ht).trans (h'.day t' ht)⟩

theorem of_sameCounts (h : SameCounts b₁ b₂) : BudgetAgrees t b₁ b₂ := by
  obtain ⟨v, rfl⟩ := h
  refine ⟨rfl, rfl, fun t' _ => ?_, fun t' _ => ?_⟩
  · rw [CompanyBudgetState.monthPart_refreshMonth, CompanyBudgetState.monthPart_refreshMonth]
  · rw [CompanyBudgetState.dayPart_refreshDay, CompanyBudgetState.dayPart_refreshDay]

theorem refreshMonth (h : b.usageMonthStartDay ≤ TimeFrame.monthOf t) :
    BudgetAgrees t b (b.refreshMonth (TimeFrame.monthOf t)) := by
  refine ⟨(refreshMonth_stored b _).symm, (b.version_refreshMonth _).symm, fun t' ht => ?_,
    fun t' _ => ?_⟩
  · have habsorb := rollover_absorb (Credits.zero, 0) (b.monthUsed, b.monthExtraUsed) h
      (TimeFrame.monthOf_mono ht)
    have hparts := b.monthPart_refreshMonth (TimeFrame.monthOf t)
    obtain ⟨hlabel, hused⟩ := Prod.mk.inj hparts
    rw [CompanyBudgetState.monthPart_refreshMonth, CompanyBudgetState.monthPart_refreshMonth,
      hused, hlabel, habsorb]
  · rw [CompanyBudgetState.dayPart_refreshDay, CompanyBudgetState.dayPart_refreshDay]
    have hday := b.dayPart_refreshMonth (TimeFrame.monthOf t)
    obtain ⟨hlabel, hused⟩ := Prod.mk.inj hday
    rw [hlabel, hused]

theorem refreshDay (h : b.extraDayPeriod ≤ TimeFrame.dayOf t) :
    BudgetAgrees t b (b.refreshDay (TimeFrame.dayOf t)) := by
  refine ⟨(b.stored_refreshDay _).symm, (b.version_refreshDay _).symm, fun t' _ => ?_,
    fun t' ht => ?_⟩
  · rw [CompanyBudgetState.monthPart_refreshMonth, CompanyBudgetState.monthPart_refreshMonth]
    have hmonth := b.monthPart_refreshDay (TimeFrame.dayOf t)
    obtain ⟨hlabel, hused⟩ := Prod.mk.inj hmonth
    rw [hlabel, hused]
  · have habsorb := rollover_absorb 0 b.dayExtraUsed h (TimeFrame.dayOf_mono ht)
    have hparts := b.dayPart_refreshDay (TimeFrame.dayOf t)
    obtain ⟨hlabel, hused⟩ := Prod.mk.inj hparts
    rw [CompanyBudgetState.dayPart_refreshDay, CompanyBudgetState.dayPart_refreshDay, hlabel,
      hused, habsorb]

/-- The same rollover of the month on both sides. -/
theorem refreshMonth_both (h : BudgetAgrees t b₁ b₂) (ht : t ≤ t') :
    BudgetAgrees t (b₁.refreshMonth (TimeFrame.monthOf t'))
      (b₂.refreshMonth (TimeFrame.monthOf t')) := by
  refine ⟨?_, ?_, fun t'' _ => ?_, fun t'' ht'' => ?_⟩
  · rw [refreshMonth_stored, refreshMonth_stored, h.stored]
  · rw [CompanyBudgetState.version_refreshMonth, CompanyBudgetState.version_refreshMonth,
      h.version]
  · obtain ⟨hlabel, hused⟩ := Prod.mk.inj (h.month t' ht)
    rw [CompanyBudgetState.monthPart_refreshMonth, CompanyBudgetState.monthPart_refreshMonth,
      hlabel, hused]
  · have hday := h.day t'' ht''
    obtain ⟨hlabel₁, hused₁⟩ := Prod.mk.inj (b₁.dayPart_refreshMonth (TimeFrame.monthOf t'))
    obtain ⟨hlabel₂, hused₂⟩ := Prod.mk.inj (b₂.dayPart_refreshMonth (TimeFrame.monthOf t'))
    rw [CompanyBudgetState.dayPart_refreshDay, CompanyBudgetState.dayPart_refreshDay] at hday ⊢
    rw [hlabel₁, hused₁, hlabel₂, hused₂]
    exact hday

/-- After a whole refresh the budgets are the same. -/
theorem sameCounts (h : BudgetAgrees t b₁ b₂) (ht : t ≤ t') :
    SameCounts ((b₁.refreshMonth (TimeFrame.monthOf t')).refreshDay (TimeFrame.dayOf t'))
      ((b₂.refreshMonth (TimeFrame.monthOf t')).refreshDay (TimeFrame.dayOf t')) := by
  have hmonth := h.refreshMonth_both ht
  refine .of_parts ?_ ?_ ?_ (hmonth.day t' ht)
  · rw [CompanyBudgetState.stored_refreshDay, CompanyBudgetState.stored_refreshDay, hmonth.stored]
  · rw [CompanyBudgetState.version_refreshDay, CompanyBudgetState.version_refreshDay,
      hmonth.version]
  · rw [CompanyBudgetState.monthPart_refreshDay, CompanyBudgetState.monthPart_refreshDay]
    exact h.month t' ht

end BudgetAgrees

/-! ### Processes that are alike -/

/-- What the two runs are compared on: company `c`, the readings `t` and `now` of its refused
charge, and the users whose subjects were resident then. -/
structure Scene where
  c : Int
  t : Int
  now : ℕ
  resident : Int → Bool

namespace Scene

/-- A later call may work on the subject, its usage records included. -/
def Used (scene : Scene) (c u : Int) : Prop := c ≠ scene.c ∨ scene.resident u

/-- A call with these readings is later than the refused charge, if it is for the same company. -/
def After (scene : Scene) (c t : Int) (now : ℕ) : Prop :=
  c = scene.c → scene.t ≤ t ∧ scene.now ≤ now

/-- The subjects of the two runs under a key. -/
def SubjectsAgree (scene : Scene) (config : Config) (key : Int × Int) (s₁ s₂ : SubjectState) :
    Prop :=
  (key.1 ≠ scene.c → s₁ = s₂) ∧
    SubjectAgrees (config.policy.limitsOf key.2) scene.t scene.now s₁ s₂

/-- The budgets of the two runs of a company. -/
def BudgetsAgree (scene : Scene) (c : Int) (b₁ b₂ : CompanyBudgetState) : Prop :=
  (c ≠ scene.c → SameCounts b₁ b₂) ∧ BudgetAgrees scene.t b₁ b₂

end Scene

/-- The process without the refused charge and the process with it. -/
structure Alike (scene : Scene) (config : Config) (p₁ p₂ : Process) : Prop where
  access : p₁.limiter.access = p₂.limiter.access
  platform : p₁.limiter.platformUsage = p₂.limiter.platformUsage
  subjects : ∀ key, scene.Used key.1 key.2 → Option.Rel (scene.SubjectsAgree config key)
    (p₁.limiter.subjects.lookup key) (p₂.limiter.subjects.lookup key)
  residents : ∀ u, scene.resident u → (p₁.limiter.subjects.lookup (scene.c, u)).isSome
  budgets : ∀ c, Option.Rel (scene.BudgetsAgree c)
    (p₁.limiter.budgets.lookup c) (p₂.limiter.budgets.lookup c)
  budget : (p₁.limiter.budgets.lookup scene.c).isSome
  usage : ∀ key, scene.Used key.companyId key.userId →
    p₁.limiter.usage.lookup key = p₂.limiter.usage.lookup key
  /-- The refused charge may have loaded records, which no later call works on. -/
  loaded : ∀ key, p₁.limiter.usage.lookup key = p₂.limiter.usage.lookup key ∨
    p₁.limiter.usage.lookup key = none ∧
      ∃ record, p₂.limiter.usage.lookup key = some record ∧ record.isClean = true
  storedUsage : p₁.store.usage = p₂.store.usage
  storedBudgets : p₁.store.budgets = p₂.store.budgets
  storedUsers : p₁.store.users = p₂.store.users
  /-- The budget row of a company that is not loaded. -/
  storedExtras : ∀ c, p₁.limiter.budgets.lookup c = none →
    p₁.store.budgetUsages c = p₂.store.budgetUsages c

theorem optionRel_cases {α : Type} {rel : α → α → Prop} {a b : Option α} (h : Option.Rel rel a b) :
    a = none ∧ b = none ∨ ∃ x y, a = some x ∧ b = some y ∧ rel x y := by
  cases h with
  | none => exact .inl ⟨rfl, rfl⟩
  | some h => exact .inr ⟨_, _, rfl, rfl, h⟩

theorem isSome_of_optionRel {α : Type} {rel : α → α → Prop} {a b : Option α}
    (h : Option.Rel rel a b) : a.isSome = b.isSome := by
  cases h <;> rfl

namespace Alike

variable {scene : Scene} {config : Config} {p₁ p₂ : Process}

theorem setSubject {key : Int × Int} {s₁ s₂ : SubjectState} (h : Alike scene config p₁ p₂)
    (hs : scene.SubjectsAgree config key s₁ s₂) :
    Alike scene config { p₁ with limiter := p₁.limiter.setSubject key s₁ }
      { p₂ with limiter := p₂.limiter.setSubject key s₂ } := by
  refine { h with subjects := fun key' hused => ?_, residents := fun u hu => ?_ }
  · show Option.Rel _ ((p₁.limiter.subjects.insert key s₁).lookup key')
      ((p₂.limiter.subjects.insert key s₂).lookup key')
    rw [lookup_insert_eq, lookup_insert_eq]
    split_ifs with heq
    · subst heq
      exact .some hs
    · exact h.subjects key' hused
  · show ((p₁.limiter.subjects.insert key s₁).lookup (scene.c, u)).isSome
    rw [lookup_insert_eq]
    split_ifs
    · rfl
    · exact h.residents u hu

theorem setBudget {c : Int} {b₁ b₂ : CompanyBudgetState} (h : Alike scene config p₁ p₂)
    (hb : scene.BudgetsAgree c b₁ b₂) :
    Alike scene config { p₁ with limiter := p₁.limiter.setBudget c b₁ }
      { p₂ with limiter := p₂.limiter.setBudget c b₂ } := by
  refine { h with budgets := fun c' => ?_, budget := ?_, storedExtras := fun c' hnone => ?_ }
  · show Option.Rel _ ((p₁.limiter.budgets.insert c b₁).lookup c')
      ((p₂.limiter.budgets.insert c b₂).lookup c')
    rw [lookup_insert_eq, lookup_insert_eq]
    split_ifs with heq
    · subst heq
      exact .some hb
    · exact h.budgets c'
  · show ((p₁.limiter.budgets.insert c b₁).lookup scene.c).isSome
    rw [lookup_insert_eq]
    split_ifs
    · rfl
    · exact h.budget
  · have hnone : (p₁.limiter.budgets.insert c b₁).lookup c' = none := hnone
    rw [lookup_insert_eq] at hnone
    split_ifs at hnone
    exact h.storedExtras c' hnone

theorem insertUsage (h : Alike scene config p₁ p₂) (key : UsageKey) (record : UsageRecord) :
    Alike scene config
      { p₁ with limiter := p₁.limiter.setUsage (p₁.limiter.usage.insert key record) }
      { p₂ with limiter := p₂.limiter.setUsage (p₂.limiter.usage.insert key record) } := by
  refine { h with usage := fun key' hused => ?_, loaded := fun key' => ?_ }
  · show (p₁.limiter.usage.insert key record).lookup key' =
      (p₂.limiter.usage.insert key record).lookup key'
    rw [lookup_insert_eq, lookup_insert_eq, h.usage key' hused]
  · show (p₁.limiter.usage.insert key record).lookup key' =
      (p₂.limiter.usage.insert key record).lookup key' ∨ _
    rw [lookup_insert_eq, lookup_insert_eq]
    by_cases heq : key' = key
    · rw [if_pos heq, if_pos heq]
      exact .inl rfl
    · rw [if_neg heq, if_neg heq]
      rcases h.loaded key' with hsame | ⟨hnone, record', hrecord, hclean⟩
      · exact .inl hsame
      · refine .inr ⟨?_, record', ?_, hclean⟩
        · exact (Finmap.lookup_insert_of_ne _ heq).trans hnone
        · exact (Finmap.lookup_insert_of_ne _ heq).trans hrecord

theorem mergeUsage (h : Alike scene config p₁ p₂) (key : UsageKey)
    (hused : scene.Used key.companyId key.userId) (routes : RoutedCredits) :
    Alike scene config { p₁ with limiter := p₁.limiter.mergeUsage key routes }
      { p₂ with limiter := p₂.limiter.mergeUsage key routes } := by
  have hsame := h.usage key hused
  unfold RateLimiter.mergeUsage mergeLoaded
  cases hlookup : p₁.limiter.usage.lookup key with
  | none =>
    rw [← hsame, hlookup]
    exact h.insertUsage key _
  | some =>
    rw [← hsame, hlookup]
    exact h

theorem setAccess (h : Alike scene config p₁ p₂) (key : Int × Int) (state : UserAccessState) :
    Alike scene config { p₁ with limiter := p₁.limiter.setAccess key state }
      { p₂ with limiter := p₂.limiter.setAccess key state } := by
  refine { h with access := ?_ }
  exact congrArg (fun access => access.insert key state) h.access

theorem setPlatformUsage (h : Alike scene config p₁ p₂) (platform : UsageMap) :
    Alike scene config { p₁ with limiter := p₁.limiter.setPlatformUsage platform }
      { p₂ with limiter := p₂.limiter.setPlatformUsage platform } := { h with platform := rfl }

theorem isSome_budget (h : Alike scene config p₁ p₂) (c : Int) :
    (p₁.limiter.budgets.lookup c).isSome = (p₂.limiter.budgets.lookup c).isSome := by
  exact isSome_of_optionRel (h.budgets c)

theorem isSome_subject (h : Alike scene config p₁ p₂) (key : Int × Int)
    (hused : scene.Used key.1 key.2) :
    (p₁.limiter.subjects.lookup key).isSome = (p₂.limiter.subjects.lookup key).isSome := by
  exact isSome_of_optionRel (h.subjects key hused)

end Alike

end Fareward.Limiter
