import Fareward.Limiter.Equiv.Recovery

/-!
# The limiter before the first debit

`Move` lists everything a call can do to the memory before its first debit: fill a cache, load a
budget, a usage row or a subject from the store, refresh the periods of a subject or a budget.
`ensure_budget`, `ensure_subject` and the others make such moves only, whether they succeed or fail
(`Path`), and the specifications say what they have achieved when they succeed. Every invariant of
the limiter is shown to survive `Move` and follows for whole calls.
-/

namespace Fareward.Limiter

open Relation

variable {p : Process} {Q : Except Failure Unit → Process → Prop} {key : UsageKey}
  {userId companyId : Int} {limits : ScopeLimits} {expect : String}
  {x : Op Failure SubjectState Unit}

/-- The limits a subject is judged by. -/
def LimitPolicy.limitsOf (policy : LimitPolicy) (userId : Int) : ScopeLimits :=
  if userId = companyAggregateUserId then policy.company else policy.user

/-- The five-minute frames of the hour of a reading. -/
def hourFrames (t : Int) : List Int :=
  LimiterStore.framesBetween (TimeFrame.fiveMinutePrefix + TimeFrame.hourOf t * 12)
    (TimeFrame.fiveMinutePrefix + TimeFrame.hourOf t * 12 + 11)

/-- The five-minute frame of a reading is one of its hour. -/
theorem fiveMinuteOf_mem_hourFrames (t : Int) : TimeFrame.fiveMinuteOf t ∈ hourFrames t := by
  unfold hourFrames LimiterStore.framesBetween TimeFrame.fiveMinuteOf TimeFrame.hourOf
  exact List.mem_map.mpr ⟨((t / 300) % 12).toNat, List.mem_range.mpr (by omega), by omega⟩

/-- A subject as `ensure_subject` recovers it over the memory `l`: full buckets, the hour from the
stored rows of the hour, the day from the stored daily row less what the pool paid. The rows it
was recovered from are in memory. -/
structure RecoveredSubject (store : LimiterStore) (companyId userId t : Int) (now : ℕ)
    (limits : ScopeLimits) (l : RateLimiter) (s : SubjectState) : Prop where
  eq : s = .recovered limits t (TimeFrame.dayOf t) now s.hourUsed s.dayUsed
  hour : ∀ d, s.hourUsed.of d = store.sumOver companyId userId (hourFrames t) d
  inference : s.dayUsed.inference = store.sum ⟨companyId, userId, TimeFrame.dailyOf t⟩ .inference
  cpu : ∃ b, l.budgets.lookup companyId = some b ∧
    s.dayUsed.cpu = store.sum ⟨companyId, userId, TimeFrame.dailyOf t⟩ .cpu - b.dayExtraUsed
  daily : (l.usage.lookup ⟨companyId, userId, TimeFrame.dailyOf t⟩).isSome
  hours : ∀ f ∈ hourFrames t, (store.usage ⟨companyId, userId, f⟩).isSome →
    (l.usage.lookup ⟨companyId, userId, f⟩).isSome

section

variable (config : Config) (store : LimiterStore) (c u t : Int) (now : ℕ)

/-- What a call of user `u` of company `c` at the reading `t` can do before its first debit. -/
inductive Move : RateLimiter → RateLimiter → Prop
  | access (l : RateLimiter) (key : Int × Int) (a : UserAccessState) : Move l (l.setAccess key a)
  | budget (l : RateLimiter) (b : CompanyBudgetState) (hnone : l.budgets.lookup c = none)
      (hb : RecoveredBudget store c t b) : Move l (l.setBudget c b)
  | usage (l : RateLimiter) (key : UsageKey) (hc : key.companyId = c)
      (hsubject : l.subjects.lookup (c, key.userId) = none) (hnone : l.usage.lookup key = none)
      (hkey : key.timeFrame = TimeFrame.dailyOf t ∨ (store.usage key).isSome) :
      Move l (l.setUsage (l.usage.insert key (.loaded (store.routes key))))
  | subject (l : RateLimiter) (userId : Int) (s : SubjectState)
      (hu : userId = companyAggregateUserId ∨ userId = u)
      (hnone : l.subjects.lookup (c, userId) = none)
      (hs : RecoveredSubject store c userId t now (config.policy.limitsOf userId) l s) :
      Move l (l.setSubject (c, userId) s)
  | refreshSubject (l : RateLimiter) (userId : Int) (s : SubjectState)
      (hu : userId = companyAggregateUserId ∨ userId = u)
      (hs : l.subjects.lookup (c, userId) = some s) :
      Move l (l.setSubject (c, userId)
        (s.refreshPeriods (config.policy.limitsOf userId) t (TimeFrame.dayOf t) now))
  | refreshMonth (l : RateLimiter) (b : CompanyBudgetState) (hb : l.budgets.lookup c = some b) :
      Move l (l.setBudget c (b.refreshMonth (TimeFrame.monthOf t)))
  | refreshDay (l : RateLimiter) (b : CompanyBudgetState) (hb : l.budgets.lookup c = some b) :
      Move l (l.setBudget c (b.refreshDay (TimeFrame.dayOf t)))
  | platform (l : RateLimiter) (key : UsageKey)
      (hkey : key = ⟨platformAggregateCompanyId, companyAggregateUserId, TimeFrame.fiveMinuteOf t⟩)
      (hnone : l.platformUsage.lookup key = none) :
      Move l (l.setPlatformUsage (l.platformUsage.insert key (.loaded (store.routes key))))

/-- Moves over an unchanged store. -/
def Path (p p' : Process) : Prop :=
  p'.store = p.store ∧
    ReflTransGen (Move config p.store c u t now) p.limiter p'.limiter

end

variable {config : Config} {c u t : Int} {now : ℕ} {fates : Fates}

namespace Path

theorem refl (p : Process) : Path config c u t now p p := ⟨rfl, .refl⟩

theorem trans {p' p'' : Process} (h : Path config c u t now p p')
    (h' : Path config c u t now p' p'') : Path config c u t now p p'' := by
  obtain ⟨hs, hm⟩ := h
  obtain ⟨hs', hm'⟩ := h'
  rw [hs] at hs' hm'
  exact ⟨hs', hm.trans hm'⟩

theorem single {l : RateLimiter} (h : Move config p.store c u t now p.limiter l) :
    Path config c u t now p { p with limiter := l } :=
  ⟨rfl, .single h⟩

end Path

/-! ### Loads -/

theorem wp_modifyLimiter {f : RateLimiter → RateLimiter}
    (h : Q (.ok ()) { p with limiter := f p.limiter }) :
    (modifyLimiter f).wp p Q := h

theorem wp_modifyLimiter_bind {β : Type} {f : RateLimiter → RateLimiter} {g : Unit → Call β}
    {Q : Except Failure β → Process → Prop} (h : (g ()).wp { p with limiter := f p.limiter } Q) :
    (modifyLimiter f >>= g).wp p Q :=
  Op.wp_bind h

theorem ensureAccess_spec (userId : Int) (p : Process) :
    (ensureAccess config fates c userId t).wp p fun _ p' => Path config c u t now p p' := by
  apply Op.wp_get_bind
  simp only
  split_ifs
  · exact .refl p
  · refine Op.wp_lift_bind (fun _ _ => .refl p) fun _ _ => ?_
    refine Op.wp_lift_bind (fun _ _ => .refl p) fun state _ => ?_
    exact wp_modifyLimiter (.single (.access p.limiter (c, userId) state))

theorem authorize_spec {r : Request} (p : Process) (hc : r.companyId = c) :
    (authorize config fates r t).wp p fun _ p' => Path config c u t now p p' := by
  unfold authorize
  split_ifs
  · rw [hc]
    refine Op.wp_call (ensureAccess_spec r.userId p) (fun _ _ h => h) fun _ p' h => ?_
    apply Op.wp_get_bind
    exact Op.wp_lift_bind (fun _ _ => h) fun _ _ => h
  · exact .refl p

theorem ensureBudget_spec (p : Process) :
    (ensureBudget fates c t).wp p fun res p' => Path config c u t now p p' ∧
      (res = .ok () → ∃ b, p'.limiter.budgets.lookup c = some b) := by
  apply Op.wp_get_bind
  split_ifs with hsome
  · exact ⟨.refl p, fun _ => Option.isSome_iff_exists.mp hsome⟩
  · refine Op.wp_lift_bind (fun e _ => ⟨.refl p, fun h => by cases h⟩) fun b hb => ?_
    refine wp_modifyLimiter
      ⟨.single (.budget p.limiter b ?_ (recoverBudget_ok hb)), fun _ => ⟨b, ?_⟩⟩
    · rwa [Option.not_isSome_iff_eq_none] at hsome
    · exact Finmap.lookup_insert _

/-- `merge_loaded` of what the store holds is a move. -/
theorem mergeLoaded_path (p : Process) {routes : RoutedCredits} (hc : key.companyId = c)
    (hsubject : p.limiter.subjects.lookup (c, key.userId) = none)
    (hroutes : routes = p.store.routes key)
    (hkey : key.timeFrame = TimeFrame.dailyOf t ∨ (p.store.usage key).isSome) :
    Path config c u t now p { p with limiter := p.limiter.mergeUsage key routes } := by
  unfold RateLimiter.mergeUsage mergeLoaded
  cases hl : p.limiter.usage.lookup key with
  | some => exact .refl p
  | none =>
    subst hroutes
    exact .single (.usage p.limiter key hc hsubject hl hkey)

theorem lookup_mergeLoaded_isSome (m : UsageMap) (key : UsageKey) (routes : RoutedCredits)
    (j : UsageKey) (h : j = key ∨ (m.lookup j).isSome) :
    ((mergeLoaded m key routes).lookup j).isSome := by
  unfold mergeLoaded
  cases hl : m.lookup key with
  | some =>
    rcases h with rfl | h
    · simp [hl]
    · exact h
  | none =>
    simp only [lookup_insert_eq]
    split_ifs with hj
    · rfl
    · exact h.resolve_left hj

/-- Records, budgets and subjects do not go away, and budgets and subjects stay as they are. -/
structure LoadsUsage (l l' : RateLimiter) : Prop where
  budgets : l'.budgets = l.budgets
  subjects : l'.subjects = l.subjects
  usage : ∀ key, (l.usage.lookup key).isSome → (l'.usage.lookup key).isSome

/-- What the loop over the hourly rows has done: their sum is added, and they are in memory. -/
def RowsMerged (config : Config) (c u t : Int) (now : ℕ) (userId : Int) (frames : List Int)
    (total : Credits) (p : Process) (res : Except Failure Credits) (p' : Process) : Prop :=
  Path config c u t now p p' ∧ LoadsUsage p.limiter p'.limiter ∧
    ∀ total', res = .ok total' →
      (∀ d, total'.of d = total.of d + p.store.sumOver c userId frames d) ∧
      ∀ f ∈ frames, (p.store.usage ⟨c, userId, f⟩).isSome →
        (p'.limiter.usage.lookup ⟨c, userId, f⟩).isSome

theorem mergeRows_spec (userId : Int) (frames : List Int) :
    ∀ (total : Credits) (p : Process), p.limiter.subjects.lookup (c, userId) = none →
      (mergeRows c userId total (p.store.rowsAt c userId frames)).wp p
        (RowsMerged config c u t now userId frames total p) := by
  induction frames with
  | nil =>
    intro total p _
    refine Op.wp_pure ⟨.refl p, ⟨rfl, rfl, fun _ h => h⟩, fun total' h => ?_⟩
    injection h with h
    subst h
    exact ⟨fun d => rfl, fun f hf => by cases hf⟩
  | cons f frames ih =>
    intro total p hsubject
    cases hs : p.store.usage ⟨c, userId, f⟩ with
    | none =>
      -- a frame without a row
      have hrows : p.store.rowsAt c userId (f :: frames) = p.store.rowsAt c userId frames :=
        List.filterMap_cons_none (by simp [hs])
      have hsum : ∀ d, p.store.sum ⟨c, userId, f⟩ d = 0 := by
        intro d
        unfold LimiterStore.sum
        rw [LimiterStore.routes_of_none hs]
        rfl
      rw [hrows]
      apply Op.wp_mono (ih total p hsubject)
      rintro res p' ⟨hpath, hloads, hok⟩
      refine ⟨hpath, hloads, fun total' h => ?_⟩
      obtain ⟨hsum', hin⟩ := hok total' h
      refine ⟨fun d => ?_, fun g hg hgs => ?_⟩
      · rw [hsum' d, LimiterStore.sumOver_cons, hsum d, Nat.zero_add]
      · rcases List.mem_cons.mp hg with rfl | hg
        · rw [hs] at hgs
          cases hgs
        · exact hin g hg hgs
    | some bytes =>
      have hrows : p.store.rowsAt c userId (f :: frames) =
          (f, bytes) :: p.store.rowsAt c userId frames := List.filterMap_cons_some (by simp [hs])
      rw [hrows]
      refine Op.wp_lift_bind (fun e _ => ⟨.refl p, ⟨rfl, rfl, fun _ h => h⟩, fun _ h => by cases h⟩)
        fun ⟨routes, next⟩ hrow => ?_
      obtain ⟨hdecode, hnext⟩ := addRow_ok hrow
      have hroutes : routes = p.store.routes ⟨c, userId, f⟩ :=
        (LimiterStore.routes_of_decode hs hdecode).symm
      apply wp_modifyLimiter_bind
      have hmerge : Path config c u t now p
          { p with limiter := p.limiter.mergeUsage ⟨c, userId, f⟩ routes } :=
        mergeLoaded_path p rfl hsubject hroutes (.inr (by rw [hs]; rfl))
      apply Op.wp_mono (ih next { p with limiter := p.limiter.mergeUsage ⟨c, userId, f⟩ routes }
        hsubject)
      rintro res p' ⟨hpath, hloads, hok⟩
      refine ⟨hmerge.trans hpath, ⟨hloads.budgets, hloads.subjects, fun key hkey => ?_⟩,
        fun total' h => ?_⟩
      · exact hloads.usage key (lookup_mergeLoaded_isSome _ _ _ _ (.inr hkey))
      · obtain ⟨hsum', hin⟩ := hok total' h
        refine ⟨fun d => ?_, fun g hg hgs => ?_⟩
        · rw [hsum' d, LimiterStore.sumOver_cons, hnext d, hroutes, Nat.add_assoc]
          rfl
        · rcases List.mem_cons.mp hg with rfl | hg
          · exact hloads.usage _ (lookup_mergeLoaded_isSome _ _ _ _ (.inl rfl))
          · exact hin g hg hgs

/-- What loading a subject has done: no other subject is lost, and after a success it is there. -/
def SubjectEnsured (config : Config) (c u t : Int) (now : ℕ) (userId : Int) (p : Process)
    (res : Except Failure Unit) (p' : Process) : Prop :=
  Path config c u t now p p' ∧ p'.limiter.budgets = p.limiter.budgets ∧
    (∀ key, (p.limiter.subjects.lookup key).isSome → (p'.limiter.subjects.lookup key).isSome) ∧
    (res = .ok () → (p'.limiter.subjects.lookup (c, userId)).isSome)

theorem SubjectEnsured.of_error {p p' : Process} {e : Failure} (hpath : Path config c u t now p p')
    (hbudgets : p'.limiter.budgets = p.limiter.budgets)
    (hsubjects : p'.limiter.subjects = p.limiter.subjects) :
    SubjectEnsured config c u t now userId p (.error e) p' :=
  ⟨hpath, hbudgets, fun key h => by rw [hsubjects]; exact h, fun h => by cases h⟩

theorem ensureSubject_spec {extra : ℕ} (p : Process)
    (hu : userId = companyAggregateUserId ∨ userId = u)
    (hlimits : limits = config.policy.limitsOf userId)
    (hextra : ∃ b, p.limiter.budgets.lookup c = some b ∧ b.dayExtraUsed = extra) :
    (ensureSubject fates c userId limits t now extra).wp p
      (SubjectEnsured config c u t now userId p) := by
  apply Op.wp_get_bind
  split_ifs with hsome
  · exact ⟨.refl p, rfl, fun _ h => h, fun _ => hsome⟩
  rw [Option.not_isSome_iff_eq_none] at hsome
  refine Op.wp_lift_bind (fun e _ => .of_error (.refl p) rfl rfl) fun frame hframe => ?_
  refine Op.wp_lift_bind (fun e _ => .of_error (.refl p) rfl rfl) fun _ _ => ?_
  refine Op.wp_lift_bind (fun e _ => .of_error (.refl p) rfl rfl) fun routes hroutes => ?_
  obtain ⟨rfl, -⟩ := TimeFrame.daily_ok (frameResult_ok hframe)
  -- the daily row is in memory from here on, also when the hourly rows cannot be read
  apply wp_modifyLimiter_bind
  have hdaily : Path config c u t now p { p with
      limiter := p.limiter.mergeUsage ⟨c, userId, TimeFrame.dailyOf t⟩ routes } :=
    mergeLoaded_path p rfl hsome (decodeOptional_ok hroutes) (.inl rfl)
  have hdailyIn : ((p.limiter.mergeUsage ⟨c, userId, TimeFrame.dailyOf t⟩ routes).usage.lookup
      ⟨c, userId, TimeFrame.dailyOf t⟩).isSome :=
    lookup_mergeLoaded_isSome _ _ _ _ (.inl rfl)
  refine Op.wp_lift_bind (fun e _ => .of_error hdaily rfl rfl) fun ⟨first, last⟩ hrange => ?_
  refine Op.wp_lift_bind (fun e _ => .of_error hdaily rfl rfl) fun _ _ => ?_
  obtain ⟨rfl, rfl⟩ := TimeFrame.hourFiveMinuteRange_ok (frameResult_ok hrange)
  have hmerge : ∀ p : Process, p.limiter.subjects.lookup (c, userId) = none →
      (mergeRows c userId .zero (p.store.rowsAt c userId (hourFrames t))).wp p
        (RowsMerged config c u t now userId (hourFrames t) .zero p) :=
    mergeRows_spec userId (hourFrames t) .zero
  refine Op.wp_call (hmerge { p with
      limiter := p.limiter.mergeUsage ⟨c, userId, TimeFrame.dailyOf t⟩ routes } hsome)
    (fun e p' ⟨hpath, hloads, _⟩ => .of_error (hdaily.trans hpath) hloads.budgets hloads.subjects)
    fun hourUsed p' ⟨hpath, hloads, hrows⟩ => ?_
  obtain ⟨hhour, hin⟩ := hrows hourUsed rfl
  have hpath := hdaily.trans hpath
  have hkeep : ∀ e, SubjectEnsured config c u t now userId p (.error e) p' :=
    fun e => .of_error hpath hloads.budgets hloads.subjects
  refine Op.wp_lift_bind (fun e _ => hkeep e) fun dayUsed hday => ?_
  refine Op.wp_lift_bind (fun e _ => hkeep e) fun dayPeriod hperiod => ?_
  obtain ⟨rfl, -⟩ := TimeFrame.localUnixDay_ok (frameResult_ok hperiod)
  have hsum := CreditsBlob.of_sum (mapError_ok hday)
  have hroutesEq := decodeOptional_ok hroutes
  obtain ⟨b, hb, rfl⟩ := hextra
  have hrecovered : RecoveredSubject p.store c userId t now (config.policy.limitsOf userId)
      p'.limiter (.recovered limits t (TimeFrame.dayOf t) now hourUsed
        { dayUsed with cpu := dayUsed.cpu - b.dayExtraUsed }) := by
    subst hlimits
    refine ⟨rfl, fun d => ?_, ?_, ⟨b, ?_, ?_⟩, ?_, hin⟩
    · have := hhour d
      rwa [Credits.of_zero, Nat.zero_add] at this
    · exact (hsum .inference).trans (by rw [hroutesEq]; rfl)
    · rw [hloads.budgets]
      exact hb
    · exact congrArg (· - b.dayExtraUsed) ((hsum .cpu).trans (by rw [hroutesEq]; rfl))
    · exact hloads.usage _ hdailyIn
  refine wp_modifyLimiter ⟨hpath.trans (.single ?_), hloads.budgets, fun key h => ?_, fun _ => ?_⟩
  · rw [hpath.1]
    refine .subject p'.limiter userId _ hu ?_ hrecovered
    rw [hloads.subjects]
    exact hsome
  · show ((p'.limiter.subjects.insert _ _).lookup key).isSome
    rw [lookup_insert_eq]
    split_ifs
    · rfl
    · rw [hloads.subjects]
      exact h
  · show ((p'.limiter.subjects.insert _ _).lookup _).isSome
    rw [Finmap.lookup_insert]
    rfl

/-! ### The states of an admission -/

/-- The states an admission of request `r` at the reading `t` is judged on, after the rollovers. -/
structure Refreshed (r : Request) (t : Int) (now : ℕ) (l : RateLimiter)
    (company user : SubjectState) (budget : CompanyBudgetState) : Prop where
  companyAt : l.subjects.lookup (r.companyId, companyAggregateUserId) = some company
  userAt : l.subjects.lookup (r.companyId, r.userId) = some user
  budgetAt : l.budgets.lookup r.companyId = some budget
  companyHour : company.hourPeriod = TimeFrame.hourOf t
  companyDay : company.dayPeriod = TimeFrame.dayOf t
  userHour : user.hourPeriod = TimeFrame.hourOf t
  userDay : user.dayPeriod = TimeFrame.dayOf t
  month : budget.usageMonthStartDay = TimeFrame.monthOf t
  extraDay : budget.extraDayPeriod = TimeFrame.dayOf t
  daily : TimeFrame.daily t = .ok (TimeFrame.dailyOf t)

/-- The states are loaded. -/
structure Loaded (r : Request) (l : RateLimiter) : Prop where
  company : (l.subjects.lookup (r.companyId, companyAggregateUserId)).isSome
  user : (l.subjects.lookup (r.companyId, r.userId)).isSome
  budget : (l.budgets.lookup r.companyId).isSome

theorem limitsOf_company (policy : LimitPolicy) :
    policy.company = policy.limitsOf companyAggregateUserId := rfl

theorem limitsOf_user (policy : LimitPolicy) (h : userId ≠ companyAggregateUserId) :
    policy.user = policy.limitsOf userId := (if_neg h).symm

section

variable {r : Request}

theorem loadStates_spec (hu : r.userId ≠ companyAggregateUserId) (p : Process) :
    (loadStates config fates r t now).wp p fun res p' =>
      Path config r.companyId r.userId t now p p' ∧ (res = .ok () → Loaded r p'.limiter) := by
  refine Op.wp_call (ensureBudget_spec p) (fun e p' h => ⟨h.1, fun h => by cases h⟩)
    fun _ p₁ ⟨hp₁, hbudget⟩ => ?_
  obtain ⟨b, hb⟩ := hbudget rfl
  apply Op.wp_get_bind
  rw [hb]
  refine Op.wp_lift_bind (fun e h => by cases h) fun b' h => ?_
  obtain rfl : b = b' := by injection h
  refine Op.wp_call (ensureSubject_spec p₁ (.inl rfl) (limitsOf_company _) ⟨b, hb, rfl⟩)
    (fun e p' h => ⟨hp₁.trans h.1, fun h => by cases h⟩) fun _ p₂ ⟨hp₂, hb₂, _, hcompany⟩ => ?_
  refine Op.wp_mono (ensureSubject_spec p₂ (.inr rfl) (limitsOf_user _ hu)
    ⟨b, by rw [hb₂]; exact hb, rfl⟩) fun res p₃ ⟨hp₃, hb₃, hkeep, huser⟩ => ?_
  refine ⟨(hp₁.trans hp₂).trans hp₃, fun h => ⟨hkeep _ (hcompany rfl), huser h, ?_⟩⟩
  rw [hb₃, hb₂, hb]
  rfl

theorem wp_onSubject {key : Int × Int} {s : SubjectState}
    (hs : p.limiter.subjects.lookup key = some s)
    (hx : x.wp s fun res s' => Q res { p with limiter := p.limiter.setSubject key s' }) :
    (onSubject key expect x).wp p Q := Op.wp_onEntry hs hx

theorem wp_onBudget {b : CompanyBudgetState} {x : Op Failure CompanyBudgetState Unit}
    (hb : p.limiter.budgets.lookup companyId = some b)
    (hx : x.wp b fun res b' => Q res { p with limiter := p.limiter.setBudget companyId b' }) :
    (onBudget companyId x).wp p Q := Op.wp_onEntry hb hx

theorem refreshMonth_month (b : CompanyBudgetState) (m : Int) :
    (b.refreshMonth m).usageMonthStartDay = m := by
  unfold CompanyBudgetState.refreshMonth
  split_ifs with h
  · rfl
  · exact not_not.mp h

theorem refreshDay_day (b : CompanyBudgetState) (d : Int) :
    (b.refreshDay d).extraDayPeriod = d := by
  unfold CompanyBudgetState.refreshDay
  split_ifs with h
  · rfl
  · exact not_not.mp h

theorem refreshDay_month (b : CompanyBudgetState) (d : Int) :
    (b.refreshDay d).usageMonthStartDay = b.usageMonthStartDay := by
  unfold CompanyBudgetState.refreshDay
  split_ifs <;> rfl

theorem setBudget_setBudget (l : RateLimiter) (companyId : Int) (b b' : CompanyBudgetState) :
    (l.setBudget companyId b).setBudget companyId b' = l.setBudget companyId b' := by
  unfold RateLimiter.setBudget
  rw [Finmap.insert_insert]

theorem refreshStates_spec (hu : r.userId ≠ companyAggregateUserId) (hloaded : Loaded r p.limiter) :
    (refreshStates config r t now).wp p fun res p' =>
      Path config r.companyId r.userId t now p p' ∧
        (res = .ok () → ∃ company user budget, Refreshed r t now p'.limiter company user budget) ∧
        ∀ e, res = .error e → ∀ m, TimeFrame.monthStartDay t ≠ .ok m := by
  obtain ⟨company, hcompany⟩ := Option.isSome_iff_exists.mp hloaded.company
  obtain ⟨user, huser⟩ := Option.isSome_iff_exists.mp hloaded.user
  obtain ⟨budget, hbudget⟩ := Option.isSome_iff_exists.mp hloaded.budget
  have hne : (r.companyId, r.userId) ≠ (r.companyId, companyAggregateUserId) :=
    fun h => hu (Prod.mk.inj h).2
  refine Op.wp_lift_bind (fun e he => ⟨.refl p, nofun, fun _ _ m hm => ?_⟩) fun d hd => ?_
  · rw [(TimeFrame.of_monthStartDay_ok hm).1] at he
    cases he
  obtain ⟨rfl, -⟩ := TimeFrame.localUnixDay_ok (frameResult_ok hd)
  -- the company
  apply Op.wp_bind
  refine wp_onSubject hcompany (Op.wp_modify ?_)
  have hpath₁ : Path config r.companyId r.userId t now p
      ⟨p.limiter.setSubject (r.companyId, companyAggregateUserId)
        (company.refreshPeriods config.policy.company t (TimeFrame.dayOf t) now), p.store⟩ :=
    .single (.refreshSubject p.limiter companyAggregateUserId company (.inl rfl) hcompany)
  -- the user
  apply Op.wp_bind
  refine wp_onSubject ((Finmap.lookup_insert_of_ne _ hne).trans huser) (Op.wp_modify ?_)
  have hpath₂ := hpath₁.trans (.single (.refreshSubject _ r.userId user (.inr rfl)
    ((Finmap.lookup_insert_of_ne _ hne).trans huser)))
  rw [← limitsOf_user _ hu] at hpath₂
  -- the budget
  refine Op.wp_lift_bind (fun e he => ⟨hpath₂, nofun, fun _ _ m hm => ?_⟩) fun m hm => ?_
  · rw [hm] at he
    cases he
  have hdaily := (TimeFrame.of_monthStartDay_ok (frameResult_ok hm)).2
  obtain ⟨rfl, -⟩ := TimeFrame.monthStartDay_ok (frameResult_ok hm)
  refine wp_onBudget hbudget (Op.wp_modify ⟨?_, fun _ => ⟨
    company.refreshPeriods config.policy.company t (TimeFrame.dayOf t) now,
    user.refreshPeriods config.policy.user t (TimeFrame.dayOf t) now,
    (budget.refreshMonth (TimeFrame.monthOf t)).refreshDay (TimeFrame.dayOf t), ?_⟩, nofun⟩)
  · have hpath₃ := hpath₂.trans (.single (.refreshMonth _ budget hbudget))
    have hpath₄ := hpath₃.trans (.single (.refreshDay _ _ (Finmap.lookup_insert _)))
    rw [setBudget_setBudget] at hpath₄
    exact hpath₄
  · refine ⟨(Finmap.lookup_insert_of_ne _ hne.symm).trans (Finmap.lookup_insert _),
      Finmap.lookup_insert _, Finmap.lookup_insert _, rfl, rfl, rfl, rfl, ?_, ?_, hdaily⟩
    · rw [refreshDay_month, refreshMonth_month]
    · exact refreshDay_day _ _

/-- The gates leave everything as it is. -/
theorem judge_spec {company user : SubjectState} {budget : CompanyBudgetState}
    (h : Refreshed r t now p.limiter company user budget) :
    (judge config.policy r).wp p fun res p' =>
      p' = p ∧ res = .ok (gates config.policy company user budget r) := by
  apply Op.wp_get_bind
  rw [h.companyAt]
  refine Op.wp_lift_bind (fun e he => by cases he) fun s hs => ?_
  obtain rfl : company = s := by injection hs
  rw [h.userAt]
  refine Op.wp_lift_bind (fun e he => by cases he) fun s hs => ?_
  obtain rfl : user = s := by injection hs
  rw [h.budgetAt]
  refine Op.wp_lift_bind (fun e he => by cases he) fun b hb => ?_
  obtain rfl : budget = b := by injection hb
  exact ⟨rfl, rfl⟩

/-- The key of the platform record of a reading. -/
def platformKeyOf (t : Int) : UsageKey :=
  ⟨platformAggregateCompanyId, companyAggregateUserId, TimeFrame.fiveMinuteOf t⟩

theorem platformUsageKey_ok (h : platformUsageKey t = .ok key) :
    key = platformKeyOf t ∧ TimeFrame.fiveMinute t = .ok (TimeFrame.fiveMinuteOf t) := by
  obtain ⟨f, hf, h⟩ := bind_eq_ok.mp h
  injection h with h
  have hf := frameResult_ok hf
  obtain ⟨rfl, -, -⟩ := TimeFrame.fiveMinute_ok hf
  exact ⟨h.symm, hf⟩

theorem ensurePlatformUsage_spec (p : Process) :
    (ensurePlatformUsage fates t).wp p fun res p' =>
      Path config c u t now p p' ∧ p'.limiter.subjects = p.limiter.subjects ∧
        p'.limiter.budgets = p.limiter.budgets ∧
        (res = .ok () → (p'.limiter.platformUsage.lookup (platformKeyOf t)).isSome ∧
          TimeFrame.fiveMinute t = .ok (TimeFrame.fiveMinuteOf t)) := by
  refine Op.wp_lift_bind (fun e _ => ⟨.refl p, rfl, rfl, fun h => by cases h⟩) fun key hkey => ?_
  obtain ⟨rfl, hframe⟩ := platformUsageKey_ok hkey
  apply Op.wp_get_bind
  split_ifs with hsome
  · exact ⟨.refl p, rfl, rfl, fun _ => ⟨hsome, hframe⟩⟩
  rw [Option.not_isSome_iff_eq_none] at hsome
  refine Op.wp_lift_bind (fun e _ => ⟨.refl p, rfl, rfl, fun h => by cases h⟩) fun _ _ => ?_
  refine Op.wp_lift_bind (fun e _ => ⟨.refl p, rfl, rfl, fun h => by cases h⟩) fun routes hr => ?_
  have hmerge : mergeLoaded p.limiter.platformUsage (platformKeyOf t) routes =
      p.limiter.platformUsage.insert (platformKeyOf t)
        (.loaded (p.store.routes (platformKeyOf t))) := by
    unfold mergeLoaded
    rw [hsome, decodeOptional_ok hr]
  refine wp_modifyLimiter ?_
  rw [hmerge]
  refine ⟨.single (.platform p.limiter (platformKeyOf t) rfl hsome), rfl, rfl,
    fun _ => ⟨?_, hframe⟩⟩
  show ((p.limiter.platformUsage.insert _ _).lookup _).isSome
  rw [Finmap.lookup_insert]
  rfl

/-- The state in which an admission debits: the states it was judged on, with the gates passed,
and the platform record in memory. `extra` is what the pool pays. -/
structure Ready (config : Config) (r : Request) (t : Int) (now extra : ℕ) (l : RateLimiter)
    (company user : SubjectState) (budget : CompanyBudgetState) : Prop
    extends Refreshed r t now l company user budget where
  passed : gates config.policy company user budget r = .ok extra
  platform : (l.platformUsage.lookup (platformKeyOf t)).isSome
  fiveMinute : TimeFrame.fiveMinute t = .ok (TimeFrame.fiveMinuteOf t)

/-- What an admission has come to when it debits or ends before that. -/
def Judged (config : Config) (r : Request) (t : Int) (now : ℕ) (p : Process)
    (res : Except Failure (Except Decision (AccessVerdict × ℕ))) (p' : Process) : Prop :=
  Path config r.companyId r.userId t now p p' ∧
    match res with
    | .error _ => True
    | .ok (.error (.allowed _)) => False
    | .ok (.error (.accessDenied _)) => True
    | .ok (.error (.creditViolation violation)) =>
      ∃ company user budget, Refreshed r t now p'.limiter company user budget ∧
        gates config.policy company user budget r = .error violation
    | .ok (.ok (_, extra)) =>
      ∃ company user budget, Ready config r t now extra p'.limiter company user budget

/-- **Before the first debit** an admission only loads and refreshes; when it goes on to debit, the
gates have passed, and when it answers a violation, they have refused. -/
theorem beforeDebit_spec (hu : r.userId ≠ companyAggregateUserId) (p : Process) :
    (beforeDebit config fates r t now).wp p (Judged config r t now p) := by
  refine Op.wp_lift_bind (fun e _ => ⟨.refl p, trivial⟩) fun _ _ => ?_
  refine Op.wp_call (authorize_spec p rfl) (fun e p' h => ⟨h, trivial⟩) fun verdict p₁ hp₁ => ?_
  cases verdict with
  | error => exact ⟨hp₁, trivial⟩
  | ok verdict =>
    refine Op.wp_call (loadStates_spec hu p₁) (fun e p' h => ⟨hp₁.trans h.1, trivial⟩)
      fun _ p₂ ⟨hp₂, hloaded⟩ => ?_
    have hp₂ := hp₁.trans hp₂
    refine Op.wp_call (refreshStates_spec hu (hloaded rfl))
      (fun e p' h => ⟨hp₂.trans h.1, trivial⟩) fun _ p₃ ⟨hp₃, hrefreshed, _⟩ => ?_
    have hp₃ := hp₂.trans hp₃
    obtain ⟨company, user, budget, href⟩ := hrefreshed rfl
    refine Op.wp_call (judge_spec href) (fun e p' h => by cases h.2) fun verdict p₄ h => ?_
    obtain ⟨rfl, hgates⟩ := h
    injection hgates with hgates
    subst hgates
    cases hg : gates config.policy company user budget r with
    | error => exact ⟨hp₃, company, user, budget, href, hg⟩
    | ok =>
      refine Op.wp_lift_bind (fun e _ => ⟨hp₃, trivial⟩) fun _ _ => ?_
      refine Op.wp_call (ensurePlatformUsage_spec p₄) (fun e p' h => ⟨hp₃.trans h.1, trivial⟩)
        fun _ p₅ ⟨hp₅, hsubjects, hbudgets, hplatform⟩ => ?_
      obtain ⟨hplatform, hframe⟩ := hplatform rfl
      refine Op.wp_pure ⟨hp₃.trans hp₅, company, user, budget, ?_⟩
      refine ⟨⟨?_, ?_, ?_, href.companyHour, href.companyDay, href.userHour, href.userDay,
        href.month, href.extraDay, href.daily⟩, hg, hplatform, hframe⟩
      · rw [hsubjects]
        exact href.companyAt
      · rw [hsubjects]
        exact href.userAt
      · rw [hbudgets]
        exact href.budgetAt

end

/-! ### Frames -/

/-- The value depends neither on the subjects nor on the budgets nor on the usage records. -/
structure Untouched {τ : Type} (f : Process → τ) : Prop where
  subject : ∀ (p : Process) (key : Int × Int) (s : SubjectState),
    f { p with limiter := p.limiter.setSubject key s } = f p
  budget : ∀ (p : Process) (companyId : Int) (b : CompanyBudgetState),
    f { p with limiter := p.limiter.setBudget companyId b } = f p
  usage : ∀ (p : Process) (usage : UsageMap),
    f { p with limiter := p.limiter.setUsage usage } = f p

section

variable {τ : Type} {f : Process → τ} {r : Request}

theorem keeps_onSubject (hf : Untouched f) {key : Int × Int} : (onSubject key expect x).Keeps f :=
  .onEntry fun _ _ => hf.subject _ _ _

theorem keeps_onBudget (hf : Untouched f) {x : Op Failure CompanyBudgetState Unit} :
    (onBudget companyId x).Keeps f :=
  .onEntry fun _ _ => hf.budget _ _ _

theorem keeps_ensureBudget (hf : Untouched f) : (ensureBudget fates companyId t).Keeps f := by
  refine .bind .get fun p => ?_
  split_ifs
  · exact .pure _
  · exact .bind (.lift _) fun b => .modify fun _ => hf.budget _ _ _

theorem keeps_mergeRows (hf : ∀ (p : Process) (usage : UsageMap),
      f { p with limiter := p.limiter.setUsage usage } = f p) :
    ∀ (rows : List (Int × List UInt8)) (hourUsed : Credits),
      (mergeRows companyId userId hourUsed rows).Keeps f
  | [], _ => .pure _
  | _ :: rows, _ => by
    refine .bind (.lift _) fun routed => ?_
    exact .bind (.modify fun _ => hf _ _) fun _ => keeps_mergeRows hf rows _

theorem keeps_ensureSubject (hf : Untouched f) {pool : ℕ} :
    (ensureSubject fates companyId userId limits t now pool).Keeps f := by
  refine .bind .get fun p => ?_
  split_ifs
  · exact .pure _
  · refine .bind (.lift _) fun _ => .bind (.lift _) fun _ => .bind (.lift _) fun _ => ?_
    refine .bind (.modify fun _ => hf.usage _ _) fun _ => .bind (.lift _) fun _ => ?_
    refine .bind (.lift _) fun _ => .bind (keeps_mergeRows hf.usage _ _) fun _ => ?_
    exact .bind (.lift _) fun _ => .bind (.lift _) fun _ => .modify fun _ => hf.subject _ _ _

theorem keeps_loadStates (hf : Untouched f) : (loadStates config fates r t now).Keeps f := by
  refine .bind (keeps_ensureBudget hf) fun _ => .bind .get fun p => .bind (.lift _) fun b => ?_
  exact .bind (keeps_ensureSubject hf) fun _ => keeps_ensureSubject hf

theorem keeps_refreshStates (hf : Untouched f) : (refreshStates config r t now).Keeps f := by
  refine .bind (.lift _) fun _ => .bind (keeps_onSubject hf) fun _ => ?_
  refine .bind (keeps_onSubject hf) fun _ => .bind (.lift _) fun _ => keeps_onBudget hf

theorem keeps_judge (f : Process → τ) {policy : LimitPolicy} : (judge policy r).Keeps f := by
  refine .bind .get fun p => .bind (.lift _) fun _ => .bind (.lift _) fun _ => ?_
  exact .bind (.lift _) fun _ => .pure _

end

end Fareward.Limiter
