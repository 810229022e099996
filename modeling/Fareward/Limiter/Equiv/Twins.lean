import Fareward.Limiter.Equiv.Absorb

/-!
# The calls of the limiter in two runs

Each call answers the same in processes that are `Alike` and leaves processes that are, if it is
later than the refused charge and works on subjects that were resident then. The loads find the
same rows; the refresh makes the states of the call the same in both runs (`Level`), and from there
on the gates and the debits see no difference.
-/

namespace Fareward.Limiter

open CompanyBudgetState (SameCounts)

variable {f : RateLimiter → RateLimiter} {limits : ScopeLimits} {key : Int × Int}
  {b₁ b₂ : CompanyBudgetState} {expect : String} {policy : LimitPolicy} {route now : ℕ}
  {credits : Credits} {m : BudgetMutation} {scene : Scene} {config : Config} {fates : Fates}
  {r : Request} {c u t : Int} {p₁ p₂ : Process}

theorem sim_modifyLimiter {Q : Except Failure Unit → Process → Process → Prop}
    (h : Q (.ok ()) { p₁ with limiter := f p₁.limiter } { p₂ with limiter := f p₂.limiter }) :
    Op.sim (modifyLimiter f) (modifyLimiter f) p₁ p₂ Q := ⟨rfl, h⟩

theorem sim_modifyLimiter_bind {β : Type} {g g' : Unit → Call β}
    {Q : Except Failure β → Process → Process → Prop}
    (h : Op.sim (g ()) (g' ()) { p₁ with limiter := f p₁.limiter }
      { p₂ with limiter := f p₂.limiter } Q) :
    Op.sim (modifyLimiter f >>= g) (modifyLimiter f >>= g') p₁ p₂ Q := by
  unfold Op.sim at h ⊢
  rw [Op.exec_bind, Op.exec_bind]
  exact h

/-! ### Loads -/

theorem ensureAccess_sim (h : Alike scene config p₁ p₂) :
    Op.sim (ensureAccess config fates c u t) (ensureAccess config fates c u t) p₁ p₂
      fun _ => Alike scene config := by
  refine Op.sim_get_bind ?_
  have husers : p₂.store.loadUserAccess c u = p₁.store.loadUserAccess c u :=
    congrFun h.storedUsers.symm (c, u)
  dsimp only
  rw [← h.access, husers]
  split_ifs
  · exact Op.sim_pure h
  · refine Op.sim_lift_bind (fun _ _ => h) fun _ _ => ?_
    refine Op.sim_lift_bind (fun _ _ => h) fun state _ => ?_
    exact sim_modifyLimiter (h.setAccess _ _)

theorem authorize_sim (h : Alike scene config p₁ p₂) :
    Op.sim (authorize config fates r t) (authorize config fates r t) p₁ p₂
      fun _ => Alike scene config := by
  unfold authorize
  split_ifs
  · refine Op.sim_call (ensureAccess_sim h) (fun _ _ _ h => h) fun _ p₁' p₂' h => ?_
    refine Op.sim_get_bind ?_
    rw [← h.access]
    exact Op.sim_lift_bind (fun _ _ => h) fun _ _ => Op.sim_pure h
  · exact Op.sim_pure h

theorem Alike.loadRange (h : Alike scene config p₁ p₂) (c u first last : Int) :
    p₂.store.loadRange c u first last = p₁.store.loadRange c u first last := by
  unfold LimiterStore.loadRange
  rw [h.storedUsage]

theorem Alike.recoverBudget (h : Alike scene config p₁ p₂)
    (hnone : p₁.limiter.budgets.lookup c = none) :
    Limiter.recoverBudget fates p₂.store c t = Limiter.recoverBudget fates p₁.store c t := by
  have hload : p₂.store.loadBudget c = p₁.store.loadBudget c := by
    unfold LimiterStore.loadBudget
    rw [h.storedBudgets, h.storedExtras c hnone]
  unfold Limiter.recoverBudget
  simp only [hload, h.loadRange]

theorem ensureBudget_sim (h : Alike scene config p₁ p₂) :
    Op.sim (ensureBudget fates c t) (ensureBudget fates c t) p₁ p₂
      fun _ => Alike scene config := by
  refine Op.sim_get_bind ?_
  rw [← h.isSome_budget c]
  split_ifs with hsome
  · exact Op.sim_pure h
  · have hnone := Option.not_isSome_iff_eq_none.mp hsome
    have hother : c ≠ scene.c := by
      rintro rfl
      exact hsome h.budget
    rw [h.recoverBudget hnone]
    refine Op.sim_lift_bind (fun _ _ => h) fun b _ => ?_
    exact sim_modifyLimiter (h.setBudget ⟨fun _ => .refl b, .refl _ b⟩)

theorem mergeRows_sim (hused : scene.Used c u) :
    ∀ (rows : List (Int × List UInt8)) (hourUsed : Credits) {p₁ p₂ : Process},
      Alike scene config p₁ p₂ →
      Op.sim (mergeRows c u hourUsed rows) (mergeRows c u hourUsed rows) p₁ p₂
        fun _ => Alike scene config
  | [], _, _, _, h => Op.sim_pure h
  | row :: rows, _, _, _, h => by
    refine Op.sim_lift_bind (fun _ _ => h) fun routed _ => ?_
    have hmerge := h.mergeUsage ⟨c, u, row.1⟩ hused routed.1
    exact sim_modifyLimiter_bind (mergeRows_sim hused rows _ hmerge)

/-- A subject that is used is resident if it is one of the company of the scene. -/
theorem Alike.other_of_none (h : Alike scene config p₁ p₂) (hused : scene.Used c u)
    (hnone : p₁.limiter.subjects.lookup (c, u) = none) : c ≠ scene.c := by
  rintro rfl
  rcases hused with hne | hresident
  · exact hne rfl
  · have hsome := h.residents u hresident
    rw [hnone] at hsome
    cases hsome

theorem ensureSubject_sim {pool₁ pool₂ : ℕ} (h : Alike scene config p₁ p₂) (hused : scene.Used c u)
    (hpool : c ≠ scene.c → pool₁ = pool₂) :
    Op.sim (ensureSubject fates c u limits t now pool₁) (ensureSubject fates c u limits t now pool₂)
      p₁ p₂ fun _ => Alike scene config := by
  refine Op.sim_get_bind ?_
  rw [← h.isSome_subject (c, u) hused]
  split_ifs with hsome
  · exact Op.sim_pure h
  · have hother := h.other_of_none hused (Option.not_isSome_iff_eq_none.mp hsome)
    obtain rfl := hpool hother
    have hexact : ∀ key, p₂.store.loadExact key = p₁.store.loadExact key := fun key =>
      congrFun h.storedUsage.symm key
    simp only [hexact, h.loadRange]
    refine Op.sim_lift_bind (fun _ _ => h) fun frame _ => ?_
    refine Op.sim_lift_bind (fun _ _ => h) fun _ _ => ?_
    refine Op.sim_lift_bind (fun _ _ => h) fun routes _ => ?_
    refine sim_modifyLimiter_bind ?_
    have hdaily := h.mergeUsage ⟨c, u, frame⟩ hused routes
    refine Op.sim_lift_bind (fun _ _ => hdaily) fun range _ => ?_
    refine Op.sim_lift_bind (fun _ _ => hdaily) fun _ _ => ?_
    refine Op.sim_call (mergeRows_sim hused _ _ hdaily) (fun _ _ _ h => h) fun hourUsed _ _ h => ?_
    refine Op.sim_lift_bind (fun _ _ => h) fun dayUsed _ => ?_
    refine Op.sim_lift_bind (fun _ _ => h) fun dayPeriod _ => ?_
    exact sim_modifyLimiter (h.setSubject ⟨fun _ => rfl, .refl _ _ _ _⟩)

/-- The call works on the subjects of the request. -/
structure Scene.Uses (scene : Scene) (r : Request) : Prop where
  company : scene.Used r.companyId companyAggregateUserId
  user : scene.Used r.companyId r.userId

theorem loadStates_sim (h : Alike scene config p₁ p₂) (huses : scene.Uses r) :
    Op.sim (loadStates config fates r t now) (loadStates config fates r t now) p₁ p₂
      fun _ => Alike scene config := by
  refine Op.sim_call (ensureBudget_sim h) (fun _ _ _ h => h) fun _ p₁' p₂' h => ?_
  refine Op.sim_get_bind ?_
  rcases optionRel_cases (h.budgets r.companyId) with ⟨hnone₁, hnone₂⟩ | ⟨b₁, b₂, hb₁, hb₂, hb⟩
  · rw [hnone₁, hnone₂]
    exact Op.sim_lift_bind (fun _ _ => h) fun _ hb => by cases hb
  · rw [hb₁, hb₂]
    have hpool : r.companyId ≠ scene.c → b₁.dayExtraUsed = b₂.dayExtraUsed := by
      intro hother
      obtain ⟨v, rfl⟩ := hb.1 hother
      rfl
    refine Op.sim_ok_bind (Op.sim_call (ensureSubject_sim h huses.company hpool)
      (fun _ _ _ h => h) fun _ _ _ h => ?_)
    exact ensureSubject_sim h huses.user hpool

/-! ### From the refresh on -/

/-- The states of the request are the same in both runs. -/
structure Level (scene : Scene) (config : Config) (r : Request) (p₁ p₂ : Process) : Prop where
  alike : Alike scene config p₁ p₂
  company : ∃ s, p₁.limiter.subjects.lookup (r.companyId, companyAggregateUserId) = some s ∧
    p₂.limiter.subjects.lookup (r.companyId, companyAggregateUserId) = some s
  user : ∃ s, p₁.limiter.subjects.lookup (r.companyId, r.userId) = some s ∧
    p₂.limiter.subjects.lookup (r.companyId, r.userId) = some s
  budget : ∃ b₁ b₂, p₁.limiter.budgets.lookup r.companyId = some b₁ ∧
    p₂.limiter.budgets.lookup r.companyId = some b₂ ∧ SameCounts b₁ b₂

theorem Scene.SubjectsAgree.refresh {s₁ s₂ : SubjectState}
    (h : scene.SubjectsAgree config key s₁ s₂) (hafter : scene.After key.1 t now) :
    s₁.refreshPeriods (config.policy.limitsOf key.2) t (TimeFrame.dayOf t) now =
      s₂.refreshPeriods (config.policy.limitsOf key.2) t (TimeFrame.dayOf t) now := by
  by_cases hc : key.1 = scene.c
  · obtain ⟨ht, hnow⟩ := hafter hc
    exact h.2 t now ht hnow
  · rw [h.1 hc]

theorem Scene.BudgetsAgree.refresh (h : scene.BudgetsAgree c b₁ b₂)
    (hafter : c = scene.c → scene.t ≤ t) :
    SameCounts ((b₁.refreshMonth (TimeFrame.monthOf t)).refreshDay (TimeFrame.dayOf t))
      ((b₂.refreshMonth (TimeFrame.monthOf t)).refreshDay (TimeFrame.dayOf t)) := by
  by_cases hc : c = scene.c
  · exact h.2.sameCounts (hafter hc)
  · exact (BudgetAgrees.of_sameCounts (h.1 hc)).sameCounts (le_refl t)

theorem Alike.setSubject_same (h : Alike scene config p₁ p₂) (key : Int × Int) (s : SubjectState) :
    Alike scene config { p₁ with limiter := p₁.limiter.setSubject key s }
      { p₂ with limiter := p₂.limiter.setSubject key s } :=
  h.setSubject ⟨fun _ => rfl, .refl _ _ _ s⟩

theorem Alike.setBudget_same (h : Alike scene config p₁ p₂) (hb : SameCounts b₁ b₂) :
    Alike scene config { p₁ with limiter := p₁.limiter.setBudget c b₁ }
      { p₂ with limiter := p₂.limiter.setBudget c b₂ } :=
  h.setBudget ⟨fun _ => hb, .of_sameCounts hb⟩

theorem refreshSubject_sim (h : Alike scene config p₁ p₂) (hused : scene.Used key.1 key.2)
    (hlimits : limits = config.policy.limitsOf key.2) (hafter : scene.After key.1 t now) :
    Op.sim (onSubject key expect (modify (·.refreshPeriods limits t (TimeFrame.dayOf t) now)))
      (onSubject key expect (modify (·.refreshPeriods limits t (TimeFrame.dayOf t) now))) p₁ p₂
      fun res p₁' p₂' =>
        match res with
        | .ok _ => ∃ s, p₁' = { p₁ with limiter := p₁.limiter.setSubject key s } ∧
            p₂' = { p₂ with limiter := p₂.limiter.setSubject key s }
        | .error _ => p₁' = p₁ ∧ p₂' = p₂ := by
  rcases optionRel_cases (h.subjects key hused) with ⟨hnone₁, hnone₂⟩ | ⟨s₁, s₂, hs₁, hs₂, hs⟩
  · exact Op.sim_onEntry_none hnone₁ hnone₂ ⟨rfl, rfl⟩
  · subst hlimits
    refine Op.sim_onEntry hs₁ hs₂ (Op.sim_modify ⟨_, rfl, ?_⟩)
    rw [hs.refresh hafter]

theorem refreshStates_sim (h : Alike scene config p₁ p₂) (huses : scene.Uses r)
    (hafter : scene.After r.companyId t now) (hu : r.userId ≠ companyAggregateUserId) :
    Op.sim (refreshStates config r t now) (refreshStates config r t now) p₁ p₂
      fun res p₁' p₂' => Alike scene config p₁' p₂' ∧
        (res = .ok () → Level scene config r p₁' p₂') := by
  refine Op.sim_lift_bind (fun _ _ => ⟨h, nofun⟩) fun day hday => ?_
  obtain ⟨rfl, -⟩ := TimeFrame.localUnixDay_ok (frameResult_ok hday)
  refine Op.sim_call (refreshSubject_sim h huses.company (limitsOf_company _) hafter) ?_ ?_
  · rintro e _ _ ⟨rfl, rfl⟩
    exact ⟨h, nofun⟩
  rintro _ _ _ ⟨company, rfl, rfl⟩
  have h := h.setSubject_same (r.companyId, companyAggregateUserId) company
  refine Op.sim_call (refreshSubject_sim h huses.user (limitsOf_user _ hu) hafter) ?_ ?_
  · rintro e _ _ ⟨rfl, rfl⟩
    exact ⟨h, nofun⟩
  rintro _ _ _ ⟨user, rfl, rfl⟩
  have h := h.setSubject_same (r.companyId, r.userId) user
  refine Op.sim_lift_bind (fun _ _ => ⟨h, nofun⟩) fun month hmonth => ?_
  obtain ⟨rfl, -⟩ := TimeFrame.monthStartDay_ok (frameResult_ok hmonth)
  rcases optionRel_cases (h.budgets r.companyId) with ⟨hnone₁, hnone₂⟩ | ⟨b₁, b₂, hb₁, hb₂, hb⟩
  · exact Op.sim_onEntry_none hnone₁ hnone₂ ⟨h, nofun⟩
  · refine Op.sim_onEntry hb₁ hb₂ (Op.sim_modify ?_)
    have hsame := hb.refresh fun hc => (hafter hc).1
    have h := h.setBudget_same (c := r.companyId) hsame
    have hne : (r.companyId, companyAggregateUserId) ≠ (r.companyId, r.userId) := fun heq =>
      hu (Prod.mk.inj heq).2.symm
    refine ⟨h, fun _ => ⟨h, ⟨company, ?_, ?_⟩, ⟨user, Finmap.lookup_insert _,
      Finmap.lookup_insert _⟩, _, _, Finmap.lookup_insert _, Finmap.lookup_insert _, hsame⟩⟩
    · exact (Finmap.lookup_insert_of_ne _ hne).trans (Finmap.lookup_insert _)
    · exact (Finmap.lookup_insert_of_ne _ hne).trans (Finmap.lookup_insert _)

theorem gates_sameCounts {company user : SubjectState} (hb : SameCounts b₁ b₂) :
    gates policy company user b₂ r = gates policy company user b₁ r := by
  obtain ⟨v, rfl⟩ := hb
  rfl

theorem judge_sim (h : Level scene config r p₁ p₂) :
    Op.sim (judge policy r) (judge policy r) p₁ p₂ fun _ => Level scene config r := by
  obtain ⟨company, hcompany₁, hcompany₂⟩ := h.company
  obtain ⟨user, huser₁, huser₂⟩ := h.user
  obtain ⟨b₁, b₂, hb₁, hb₂, hb⟩ := h.budget
  refine Op.sim_get_bind ?_
  rw [hcompany₁, hcompany₂]
  refine Op.sim_lift_bind (fun _ _ => h) fun company' hcompany => ?_
  rw [huser₁, huser₂]
  refine Op.sim_lift_bind (fun _ _ => h) fun user' huser => ?_
  rw [hb₁, hb₂]
  exact Op.sim_ok_bind ⟨congrArg Except.ok (gates_sameCounts hb).symm, h⟩

/-! ### Debits -/

namespace Level

theorem setSubject (h : Level scene config r p₁ p₂) (key : Int × Int) (s : SubjectState) :
    Level scene config r { p₁ with limiter := p₁.limiter.setSubject key s }
      { p₂ with limiter := p₂.limiter.setSubject key s } := by
  have hkept : ∀ {key' : Int × Int}, (∃ s', p₁.limiter.subjects.lookup key' = some s' ∧
      p₂.limiter.subjects.lookup key' = some s') →
      ∃ s', (p₁.limiter.subjects.insert key s).lookup key' = some s' ∧
        (p₂.limiter.subjects.insert key s).lookup key' = some s' := by
    rintro key' ⟨s', hs₁, hs₂⟩
    rw [lookup_insert_eq, lookup_insert_eq]
    split_ifs
    · exact ⟨s, rfl, rfl⟩
    · exact ⟨s', hs₁, hs₂⟩
  exact ⟨h.alike.setSubject_same key s, hkept h.company, hkept h.user, h.budget⟩

theorem setBudget (h : Level scene config r p₁ p₂) (hb : SameCounts b₁ b₂) :
    Level scene config r { p₁ with limiter := p₁.limiter.setBudget r.companyId b₁ }
      { p₂ with limiter := p₂.limiter.setBudget r.companyId b₂ } :=
  ⟨h.alike.setBudget_same hb, h.company, h.user, b₁, b₂, Finmap.lookup_insert _,
    Finmap.lookup_insert _, hb⟩

theorem insertUsage (h : Level scene config r p₁ p₂) (key : UsageKey) (record : UsageRecord) :
    Level scene config r
      { p₁ with limiter := p₁.limiter.setUsage (p₁.limiter.usage.insert key record) }
      { p₂ with limiter := p₂.limiter.setUsage (p₂.limiter.usage.insert key record) } :=
  ⟨h.alike.insertUsage key record, h.company, h.user, h.budget⟩

theorem setPlatformUsage (h : Level scene config r p₁ p₂) (platform : UsageMap) :
    Level scene config r { p₁ with limiter := p₁.limiter.setPlatformUsage platform }
      { p₂ with limiter := p₂.limiter.setPlatformUsage platform } :=
  ⟨h.alike.setPlatformUsage platform, h.company, h.user, h.budget⟩

/-- A method of a subject that is the same in both runs. -/
theorem onSubject {x : Op Failure SubjectState Unit} (h : Level scene config r p₁ p₂)
    (hs : ∃ s, p₁.limiter.subjects.lookup key = some s ∧
      p₂.limiter.subjects.lookup key = some s) :
    Op.sim (onSubject key expect x) (onSubject key expect x) p₁ p₂
      fun _ => Level scene config r := by
  obtain ⟨s, hs₁, hs₂⟩ := hs
  exact Op.sim_onEntry hs₁ hs₂ (Op.sim_self (h.setSubject key _))

end Level

theorem addExtraUsed_sim (cpu : ℕ) (hb : SameCounts b₁ b₂) :
    Op.sim (CompanyBudgetState.addExtraUsed cpu) (CompanyBudgetState.addExtraUsed cpu) b₁ b₂
      fun _ => SameCounts := by
  obtain ⟨v, rfl⟩ := hb
  refine Op.sim_get_bind (Op.sim_lift_bind (fun _ _ => ⟨v, rfl⟩) fun dayExtraUsed _ => ?_)
  refine Op.sim_set_bind (Op.sim_get_bind ?_)
  refine Op.sim_lift_bind (fun _ _ => ⟨v, rfl⟩) fun monthExtraUsed _ => ?_
  refine Op.sim_set_bind (Op.sim_get_bind ?_)
  exact Op.sim_lift_bind (fun _ _ => ⟨v, rfl⟩) fun version _ => Op.sim_set ⟨v, rfl⟩

theorem addMonthUsed_sim (credits : Credits) (hb : SameCounts b₁ b₂) :
    Op.sim (CompanyBudgetState.addMonthUsed credits) (CompanyBudgetState.addMonthUsed credits)
      b₁ b₂ fun _ => SameCounts := by
  obtain ⟨v, rfl⟩ := hb
  refine Op.sim_get_bind (Op.sim_lift_bind (fun _ _ => ⟨v, rfl⟩) fun monthUsed _ => ?_)
  refine Op.sim_set_bind (Op.sim_get_bind ?_)
  exact Op.sim_lift_bind (fun _ _ => ⟨v, rfl⟩) fun version _ => Op.sim_set ⟨v, rfl⟩

theorem incrementRecord_sim {key : UsageKey} (h : Level scene config r p₁ p₂)
    (hused : scene.Used key.companyId key.userId) :
    Op.sim (incrementRecord key route credits) (incrementRecord key route credits) p₁ p₂
      fun _ => Level scene config r := by
  refine Op.sim_get_bind ?_
  rw [← h.alike.usage key hused]
  exact sim_modifyLimiter_bind (Op.sim_lift (h.insertUsage key _))

theorem incrementRecords_sim :
    ∀ {keys : List UsageKey} {p₁ p₂ : Process}, Level scene config r p₁ p₂ →
      (∀ key ∈ keys, scene.Used key.companyId key.userId) →
      Op.sim (incrementRecords route credits keys) (incrementRecords route credits keys) p₁ p₂
        fun _ => Level scene config r
  | [], _, _, h, _ => Op.sim_pure h
  | key :: keys, _, _, h, hused => by
    refine Op.sim_call (incrementRecord_sim h (hused key List.mem_cons_self)) (fun _ _ _ h => h)
      fun _ _ _ h => incrementRecords_sim h fun key' hmem => ?_
    exact hused key' (List.mem_cons_of_mem _ hmem)

theorem incrementPlatformUsage_sim (h : Level scene config r p₁ p₂) :
    Op.sim (incrementPlatformUsage r t) (incrementPlatformUsage r t) p₁ p₂
      fun _ => Level scene config r := by
  refine Op.sim_lift_bind (fun _ _ => h) fun key _ => Op.sim_get_bind ?_
  rw [← h.alike.platform]
  refine Op.sim_lift_bind (fun _ _ => h) fun record _ => ?_
  have hset : ∀ platform, Level scene config r
      { p₁ with limiter := p₁.limiter.setPlatformUsage platform }
      { p₂ with limiter := p₂.limiter.setPlatformUsage platform } := h.setPlatformUsage
  refine Op.sim_call (sim_modifyLimiter (Q := fun _ => Level scene config r) ?_)
    (fun _ _ _ h => h) fun _ _ _ h => Op.sim_lift h
  rw [← h.alike.platform]
  exact hset _

theorem commit_sim {extraCpu : ℕ} (h : Level scene config r p₁ p₂) (huses : scene.Uses r) :
    Op.sim (commit r t extraCpu) (commit r t extraCpu) p₁ p₂ fun _ => Level scene config r := by
  refine Op.sim_call (h.onSubject h.company) (fun _ _ _ h => h) fun _ _ _ h => ?_
  refine Op.sim_call (h.onSubject h.user) (fun _ _ _ h => h) fun _ _ _ h => ?_
  obtain ⟨b₁, b₂, hb₁, hb₂, hb⟩ := h.budget
  refine Op.sim_call (Q := fun _ => Level scene config r) (Op.sim_onEntry hb₁ hb₂ ?_)
    (fun _ _ _ h => h) fun _ _ _ h => ?_
  · split
    · exact Op.sim_mono (addExtraUsed_sim extraCpu hb) fun _ _ _ hb => h.setBudget hb
    · exact Op.sim_mono (addMonthUsed_sim r.credits hb) fun _ _ _ hb => h.setBudget hb
  refine Op.sim_call (Q := fun _ => Level scene config r) ?_ (fun _ _ _ h => h)
    fun _ _ _ h => incrementPlatformUsage_sim h
  refine Op.sim_lift_bind (fun _ _ => h) fun fiveMinute _ => ?_
  refine Op.sim_lift_bind (fun _ _ => h) fun daily _ => incrementRecords_sim h ?_
  intro key hmem
  simp only [List.mem_cons, List.not_mem_nil, or_false] at hmem
  rcases hmem with rfl | rfl | rfl | rfl
  · exact huses.user
  · exact huses.user
  · exact huses.company
  · exact huses.company

theorem ensurePlatformUsage_sim (h : Level scene config r p₁ p₂) :
    Op.sim (ensurePlatformUsage fates t) (ensurePlatformUsage fates t) p₁ p₂
      fun _ => Level scene config r := by
  refine Op.sim_lift_bind (fun _ _ => h) fun key _ => Op.sim_get_bind ?_
  have hexact : p₂.store.loadExact key = p₁.store.loadExact key :=
    congrFun h.alike.storedUsage.symm key
  rw [← h.alike.platform, hexact]
  split_ifs
  · exact Op.sim_pure h
  · refine Op.sim_lift_bind (fun _ _ => h) fun _ _ => ?_
    refine Op.sim_lift_bind (fun _ _ => h) fun routes _ => sim_modifyLimiter ?_
    rw [← h.alike.platform]
    exact h.setPlatformUsage _

/-- **An admission** that is later than the refused charge answers the same in both runs. -/
theorem admitAt_sim (h : Alike scene config p₁ p₂) (huses : scene.Uses r)
    (hafter : scene.After r.companyId t now) (hu : r.userId ≠ companyAggregateUserId) :
    Op.sim (admitAt config fates r t now) (admitAt config fates r t now) p₁ p₂
      fun _ => Alike scene config := by
  have hbefore : Op.sim (beforeDebit config fates r t now) (beforeDebit config fates r t now) p₁ p₂
      fun res p₁' p₂' => Alike scene config p₁' p₂' ∧
        ∀ verdict, res = .ok (.ok verdict) → Level scene config r p₁' p₂' := by
    refine Op.sim_lift_bind (fun _ _ => ⟨h, nofun⟩) fun _ _ => ?_
    refine Op.sim_call (authorize_sim h) (fun _ _ _ h => ⟨h, nofun⟩) fun verdict _ _ h => ?_
    cases verdict with
    | error => exact Op.sim_pure ⟨h, nofun⟩
    | ok =>
      refine Op.sim_call (loadStates_sim h huses) (fun _ _ _ h => ⟨h, nofun⟩) fun _ _ _ h => ?_
      refine Op.sim_call (refreshStates_sim h huses hafter hu) (fun _ _ _ h => ⟨h.1, nofun⟩)
        fun _ _ _ h => ?_
      refine Op.sim_call (judge_sim (h.2 rfl)) (fun _ _ _ h => ⟨h.alike, nofun⟩)
        fun judged _ _ h => ?_
      cases judged with
      | error => exact Op.sim_pure ⟨h.alike, nofun⟩
      | ok =>
        refine Op.sim_lift_bind (fun _ _ => ⟨h.alike, nofun⟩) fun _ _ => ?_
        refine Op.sim_call (ensurePlatformUsage_sim h) (fun _ _ _ h => ⟨h.alike, nofun⟩)
          fun _ _ _ h => ?_
        exact Op.sim_pure ⟨h.alike, fun _ _ => h⟩
  refine Op.sim_call hbefore (fun _ _ _ h => h.1) ?_
  rintro (decision | ⟨verdict, extraCpu⟩) _ _ ⟨halike, hlevel⟩
  · exact Op.sim_pure halike
  · refine Op.sim_call (commit_sim (hlevel _ rfl) huses) (fun _ _ _ h => h.alike) fun _ _ _ h => ?_
    exact Op.sim_pure h.alike

/-! ### Mutations -/

theorem Scene.BudgetsAgree.refreshMonth (h : scene.BudgetsAgree c b₁ b₂)
    (hafter : c = scene.c → scene.t ≤ t) :
    scene.BudgetsAgree c (b₁.refreshMonth (TimeFrame.monthOf t))
        (b₂.refreshMonth (TimeFrame.monthOf t)) ∧
      (b₁.refreshMonth (TimeFrame.monthOf t)).monthPart =
        (b₂.refreshMonth (TimeFrame.monthOf t)).monthPart := by
  by_cases hc : c = scene.c
  · have ht := hafter hc
    exact ⟨⟨fun hne => absurd hc hne, h.2.refreshMonth_both ht⟩, h.2.month t ht⟩
  · obtain ⟨v, rfl⟩ := h.1 hc
    have hsame : SameCounts (b₁.refreshMonth (TimeFrame.monthOf t))
        ({ b₁ with flushedVersion := v }.refreshMonth (TimeFrame.monthOf t)) := by
      refine ⟨v, ?_⟩
      unfold CompanyBudgetState.refreshMonth
      split_ifs <;> rfl
    refine ⟨⟨fun _ => hsame, .of_sameCounts hsame⟩, ?_⟩
    rw [CompanyBudgetState.monthPart_refreshMonth, CompanyBudgetState.monthPart_refreshMonth]

theorem Scene.BudgetsAgree.setStored (h : scene.BudgetsAgree c b₁ b₂) (stored : StoredBudget) :
    scene.BudgetsAgree c { b₁ with stored } { b₂ with stored } := by
  refine ⟨fun hc => ?_, rfl, h.2.version, fun t' ht => ?_, fun t' ht => ?_⟩
  · obtain ⟨v, rfl⟩ := h.1 hc
    exact ⟨v, rfl⟩
  · have hmonth := h.2.month t' ht
    rw [CompanyBudgetState.monthPart_refreshMonth, CompanyBudgetState.monthPart_refreshMonth]
      at hmonth ⊢
    exact hmonth
  · have hday := h.2.day t' ht
    rw [CompanyBudgetState.dayPart_refreshDay, CompanyBudgetState.dayPart_refreshDay] at hday ⊢
    exact hday

theorem mutatedBudget_congr {month : Int} (hstored : b₁.stored = b₂.stored)
    (hused : b₁.monthUsed = b₂.monthUsed) :
    mutatedBudget b₂ m month = mutatedBudget b₁ m month := by
  unfold mutatedBudget
  rw [hstored, hused]

theorem Alike.upsertBudget (h : Alike scene config p₁ p₂) (stored : StoredBudget) :
    Alike scene config { p₁ with store := p₁.store.upsertBudget stored }
      { p₂ with store := p₂.store.upsertBudget stored } := by
  refine { h with storedBudgets := ?_ }
  exact congrArg (Function.update · stored.companyId (some stored)) h.storedBudgets

theorem writeBudget_sim {stored : StoredBudget} (h : Alike scene config p₁ p₂) :
    Op.sim (writeBudget fates stored) (writeBudget fates stored) p₁ p₂
      fun _ p₁' p₂' => Alike scene config p₁' p₂' ∧ p₁'.limiter = p₁.limiter ∧
        p₂'.limiter = p₂.limiter := by
  have hwrite := h.upsertBudget stored
  unfold writeBudget
  cases fates .budgetWrite with
  | done => exact ⟨rfl, hwrite, rfl, rfl⟩
  | failed landed | cancelled landed =>
    cases landed with
    | true => exact ⟨rfl, hwrite, rfl, rfl⟩
    | false => exact ⟨rfl, h, rfl, rfl⟩

/-- **A mutation** that is later than the refused charge answers the same in both runs. -/
theorem mutateBudgetAt_sim (h : Alike scene config p₁ p₂)
    (hafter : m.companyId = scene.c → scene.t ≤ t) :
    Op.sim (mutateBudgetAt fates m t) (mutateBudgetAt fates m t) p₁ p₂
      fun _ => Alike scene config := by
  refine Op.sim_lift_bind (fun _ _ => h) fun _ _ => ?_
  refine Op.sim_call (ensureBudget_sim h) (fun _ _ _ h => h) fun _ p₁ p₂ h => ?_
  refine Op.sim_lift_bind (fun _ _ => h) fun month hmonth => ?_
  obtain ⟨rfl, -⟩ := TimeFrame.monthStartDay_ok (frameResult_ok hmonth)
  rcases optionRel_cases (h.budgets m.companyId) with ⟨hnone₁, hnone₂⟩ | ⟨b₁, b₂, hb₁, hb₂, hb⟩
  · exact Op.sim_call (Op.sim_onEntry_none (Q := fun res p₁' p₂' => Alike scene config p₁' p₂' ∧
      ∀ a, res ≠ .ok a) hnone₁ hnone₂ ⟨h, nofun⟩) (fun _ _ _ h => h.1)
      fun _ _ _ h => absurd rfl (h.2 _)
  obtain ⟨hb, hparts⟩ := hb.refreshMonth hafter
  refine Op.sim_call (Op.sim_onEntry (Q := fun _ p₁' p₂' => p₁' = _ ∧ p₂' = _) hb₁ hb₂
    (Op.sim_modify ⟨rfl, rfl⟩)) ?_ ?_
  · rintro _ _ _ ⟨rfl, rfl⟩
    exact h.setBudget hb
  rintro _ _ _ ⟨rfl, rfl⟩
  have h := h.setBudget hb
  refine Op.sim_get_bind ?_
  have hlookup : ∀ (l : RateLimiter) (b : CompanyBudgetState),
      (l.setBudget m.companyId b).budgets.lookup m.companyId = some b :=
    fun _ _ => Finmap.lookup_insert _
  rw [hlookup, hlookup]
  refine Op.sim_ok_bind ?_
  rw [mutatedBudget_congr hb.2.stored (Prod.mk.inj (Prod.mk.inj hparts).2).1]
  split
  · exact Op.sim_pure h
  · refine Op.sim_lift_bind (fun _ _ => h) fun updated _ => ?_
    refine Op.sim_call (writeBudget_sim h) (fun _ _ _ h => h.1) ?_
    rintro _ p₁' p₂' ⟨h, hlimiter₁, hlimiter₂⟩
    have hb₁ : p₁'.limiter.budgets.lookup m.companyId =
        some (b₁.refreshMonth (TimeFrame.monthOf t)) := by
      rw [hlimiter₁, hlookup]
    have hb₂ : p₂'.limiter.budgets.lookup m.companyId =
        some (b₂.refreshMonth (TimeFrame.monthOf t)) := by
      rw [hlimiter₂, hlookup]
    refine Op.sim_call (Q := fun _ => Alike scene config) (Op.sim_onEntry hb₁ hb₂
      (Op.sim_modify ?_)) (fun _ _ _ h => h) fun _ _ _ h => Op.sim_pure h
    exact h.setBudget (hb.setStored _)

end Fareward.Limiter
