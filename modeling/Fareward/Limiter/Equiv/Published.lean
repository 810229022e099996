import Fareward.Limiter.Equiv.Calendar
import Fareward.Limiter.Equiv.Metering

/-!
# The labels of the published counters

The row that the flush writes for a company carries the day of the company's subject, the pool
counter of its budget and the month of its budget. The three are refreshed by one admission, and
between the first and the last of the refreshes there is no await and, if the month of the reading
can be told, nothing that fails. So an admission loads what is missing and goes no further
(`Fills`), or leaves all three labelled with its own reading (`Labelled`); and only then does it
charge. A mutation moves the month alone.
-/

namespace Fareward.Limiter

open Relation
open Gregorian (dateOf dateOf_sub_day)

variable {company user : SubjectState} {m day c u t : Int} {outcome : Except Failure Admission}
  {w w' : World} {a : Action} {row : StoredBudgetUsage} {config : Config} {store : LimiterStore}
  {fates : Fates} {r : Request} {now : ℕ} {p p' : Process} {l l' l'' : RateLimiter}
  {b : CompanyBudgetState}

/-! ### What an admission does to the labels -/

/-- What was loaded stays as it is, and a budget that is loaded has nothing to publish. -/
structure Fills (l l' : RateLimiter) : Prop where
  subjects : ∀ key s, l.subjects.lookup key = some s → l'.subjects.lookup key = some s
  budgets : ∀ c b, l.budgets.lookup c = some b → l'.budgets.lookup c = some b
  fresh : ∀ c b, l.budgets.lookup c = none → l'.budgets.lookup c = some b →
    b.version = b.flushedVersion ∧ 0 ≤ b.extraDayPeriod ∧
      b.usageMonthStartDay = TimeFrame.monthStartOf b.extraDayPeriod

namespace Fills

theorem of_eq (hsubjects : l'.subjects = l.subjects) (hbudgets : l'.budgets = l.budgets) :
    Fills l l' where
  subjects _ _ h := hsubjects ▸ h
  budgets _ _ h := hbudgets ▸ h
  fresh c b hnone hb := by
    rw [hbudgets, hnone] at hb
    cases hb

theorem refl (l : RateLimiter) : Fills l l := of_eq rfl rfl

theorem trans (h : Fills l l') (h' : Fills l' l'') : Fills l l'' where
  subjects key s hs := h'.subjects key s (h.subjects key s hs)
  budgets c b hb := h'.budgets c b (h.budgets c b hb)
  fresh c b hnone hb := by
    cases hl : l'.budgets.lookup c with
    | none => exact h'.fresh c b hl hb
    | some b' =>
      obtain rfl := Option.some.inj ((h'.budgets c b' hl).symm.trans hb)
      exact h.fresh c b' hnone hl

theorem setBudget (hnone : l.budgets.lookup c = none) (hb : RecoveredBudget store c t b)
    (ht : 18000 ≤ t) : Fills l (l.setBudget c b) where
  subjects _ _ h := h
  budgets c' b' hb' := by
    have hne : c' ≠ c := by
      rintro rfl
      rw [hnone] at hb'
      cases hb'
    exact (Finmap.lookup_insert_of_ne _ hne).trans hb'
  fresh c' b' hnone' hb' := by
    replace hb' : (l.budgets.insert c b).lookup c' = some b' := hb'
    rw [lookup_insert_eq] at hb'
    split_ifs at hb' with hc
    · obtain rfl := Option.some.inj hb'
      refine ⟨hb.version.trans hb.flushedVersion.symm, ?_, ?_⟩
      · rw [hb.day]
        exact TimeFrame.dayOf_nonneg ht
      · rw [hb.day, hb.month]
        rfl
    · rw [hnone'] at hb'
      cases hb'

theorem setSubject {key : Int × Int} (hnone : l.subjects.lookup key = none) (s : SubjectState) :
    Fills l (l.setSubject key s) where
  subjects key' s' hs' := by
    have hne : key' ≠ key := by
      rintro rfl
      rw [hnone] at hs'
      cases hs'
    exact (Finmap.lookup_insert_of_ne _ hne).trans hs'
  budgets _ _ h := h
  fresh c b hnone hb := by
    rw [show (l.setSubject key s).budgets = l.budgets from rfl, hnone] at hb
    cases hb

end Fills

/-- The states that an admission is judged on. -/
def Process.states (p : Process) :
    (Finmap fun _ : Int × Int => SubjectState) × (Finmap fun _ : Int => CompanyBudgetState) :=
  (p.limiter.subjects, p.limiter.budgets)

theorem Fills.of_states (h : p'.states = p.states) : Fills p.limiter p'.limiter :=
  .of_eq (congrArg Prod.fst h) (congrArg Prod.snd h)

theorem ensureAccess_states (c u t : Int) :
    (ensureAccess config fates c u t).Keeps Process.states := by
  refine .bind .get fun p => ?_
  simp only
  split_ifs
  · exact .pure _
  · exact .bind (.lift _) fun _ => .bind (.lift _) fun _ => .modify fun _ => rfl

theorem authorize_states (r : Request) (t : Int) :
    (authorize config fates r t).Keeps Process.states := by
  unfold authorize
  split_ifs
  · exact .bind (ensureAccess_states _ _ _) fun _ => .bind .get fun _ =>
      .bind (.lift _) fun _ => .pure _
  · exact .pure _

theorem ensurePlatformUsage_states (t : Int) :
    (ensurePlatformUsage fates t).Keeps Process.states := by
  refine .bind (.lift _) fun key => .bind .get fun p => ?_
  split_ifs
  · exact .pure _
  · exact .bind (.lift _) fun _ => .bind (.lift _) fun _ => .modify fun _ => rfl

theorem ensureBudget_fills (c t : Int) (p : Process) :
    (ensureBudget fates c t).wp p fun _ p' => Fills p.limiter p'.limiter := by
  apply Op.wp_get_bind
  split_ifs with hsome
  · exact .refl _
  · refine Op.wp_lift_bind (fun _ _ => .refl _) fun b hb => ?_
    obtain ⟨m, hm, -⟩ := bind_eq_ok.mp hb
    rw [Option.not_isSome_iff_eq_none] at hsome
    exact wp_modifyLimiter (.setBudget hsome (recoverBudget_ok hb)
      (TimeFrame.monthStartDay_ok (frameResult_ok hm)).2)

theorem ensureSubject_fills (c u t : Int) (limits : ScopeLimits) (now pool : ℕ) (p : Process) :
    (ensureSubject fates c u limits t now pool).wp p fun _ p' => Fills p.limiter p'.limiter := by
  apply Op.wp_get_bind
  split_ifs with hsome
  · exact .refl _
  rw [Option.not_isSome_iff_eq_none] at hsome
  refine Op.wp_lift_bind (fun _ _ => .refl _) fun frame _ => ?_
  refine Op.wp_lift_bind (fun _ _ => .refl _) fun _ _ => ?_
  refine Op.wp_lift_bind (fun _ _ => .refl _) fun routes _ => ?_
  apply wp_modifyLimiter_bind
  refine Op.wp_lift_bind (fun _ _ => .of_eq rfl rfl) fun range _ => ?_
  refine Op.wp_lift_bind (fun _ _ => .of_eq rfl rfl) fun _ _ => ?_
  have hrows : (mergeRows c u .zero (p.store.loadRange c u range.1 range.2)).Keeps Process.states :=
    keeps_mergeRows (fun _ _ => rfl) _ _
  refine Op.wp_call (hrows _) (fun _ _ h => .of_states h) fun hourUsed p₁ hp₁ => ?_
  have hstates : p₁.states = p.states := hp₁
  refine Op.wp_lift_bind (fun _ _ => .of_states hstates) fun dayUsed _ => ?_
  refine Op.wp_lift_bind (fun _ _ => .of_states hstates) fun dayPeriod _ => ?_
  refine wp_modifyLimiter ((Fills.of_states hstates).trans (.setSubject ?_ _))
  rw [show p₁.limiter.subjects = p.limiter.subjects from congrArg Prod.fst hstates]
  exact hsome

theorem loadStates_fills (r : Request) (t : Int) (now : ℕ) (p : Process) :
    (loadStates config fates r t now).wp p fun _ p' => Fills p.limiter p'.limiter := by
  refine Op.wp_call (ensureBudget_fills _ _ p) (fun _ _ h => h) fun _ p₁ h₁ => ?_
  apply Op.wp_get_bind
  refine Op.wp_lift_bind (fun _ _ => h₁) fun b _ => ?_
  refine Op.wp_call (ensureSubject_fills _ _ _ _ _ _ p₁) (fun _ _ h => h₁.trans h)
    fun _ p₂ h₂ => ?_
  exact Op.wp_mono (ensureSubject_fills _ _ _ _ _ _ p₂) fun _ _ h₃ => (h₁.trans h₂).trans h₃

/-- What a call of user `u` of company `c` works on is labelled with the reading `t`. -/
def Labelled (c u t : Int) (l : RateLimiter) : Prop :=
  ∀ g : Gauge, g.Touched c u → ∃ m, l.gauge g = some m ∧ m.label = g.periodOf t

theorem Labelled.of_states (h : Labelled c u t p.limiter) (hstates : p'.states = p.states) :
    Labelled c u t p'.limiter := by
  intro g hg
  rw [gauge_congr (congrArg Prod.fst hstates) (congrArg Prod.snd hstates)]
  exact h g hg

theorem Refreshed.labelled (h : Refreshed r t now l company user b) :
    Labelled r.companyId r.userId t l :=
  fun _ hg => h.label hg

/-- **An admission loads and goes no further, or labels everything with its reading.** -/
theorem beforeDebit_labels (hm : TimeFrame.monthStartDay t = .ok m)
    (hu : r.userId ≠ companyAggregateUserId) (p : Process) :
    (beforeDebit config fates r t now).wp p fun _ p' =>
      Fills p.limiter p'.limiter ∨ Labelled r.companyId r.userId t p'.limiter := by
  refine Op.wp_lift_bind (fun _ _ => .inl (.refl _)) fun _ _ => ?_
  refine Op.wp_call (authorize_states r t p) (fun _ _ h => .inl (.of_states h))
    fun verdict p₁ h₁ => ?_
  have h₁ : Fills p.limiter p₁.limiter := .of_states h₁
  cases verdict with
  | error => exact .inl h₁
  | ok =>
    refine Op.wp_call (Op.wp_and (loadStates_fills r t now p₁) (loadStates_spec hu p₁))
      (fun _ _ h => .inl (h₁.trans h.1)) fun _ p₂ ⟨h₂, _, hloaded⟩ => ?_
    have h₂ := h₁.trans h₂
    -- nothing fails between the first and the last refresh
    refine Op.wp_call (refreshStates_spec hu (hloaded rfl)) (fun e _ h => absurd hm (h.2.2 e rfl m))
      fun _ p₃ ⟨_, hrefreshed, _⟩ => ?_
    obtain ⟨company, user, budget, href⟩ := hrefreshed rfl
    refine Op.wp_call (judge_spec href) (fun e p' h => by cases h.2) fun gate p₄ h => ?_
    obtain ⟨rfl, -⟩ := h
    cases gate with
    | error => exact .inr href.labelled
    | ok =>
      refine Op.wp_lift_bind (fun _ _ => .inr href.labelled) fun _ _ => ?_
      exact Op.wp_call (ensurePlatformUsage_states t p₄)
        (fun _ _ h => .inr (href.labelled.of_states h))
        fun _ _ h => .inr (href.labelled.of_states h)

theorem Labelled.debits (h : Labelled r.companyId r.userId t l)
    (hpath : ReflTransGen (Debit r t) l l') : Labelled r.companyId r.userId t l' := by
  induction hpath with
  | refl => exact h
  | tail _ hdebit ih =>
    intro g hg
    obtain ⟨m, hm, hlabel⟩ := ih g hg
    rcases hdebit.gauge g with hsame | ⟨-, m', v, hm', -, hset⟩
    · exact ⟨m, hsame.trans hm, hlabel⟩
    · obtain rfl := Option.some.inj (hm.symm.trans hm')
      exact ⟨_, hset, hlabel⟩

theorem Labelled.charged {extra : ℕ} (hready : Ready config r t now extra l company user b)
    (hcharged : Charged r t extra l l' company user b) : Labelled r.companyId r.userId t l' := by
  intro g hg
  obtain ⟨m, hm, hlabel⟩ := hready.label hg
  have hgauge := gauge_charged hready hcharged g
  rw [if_pos hg, hm] at hgauge
  exact ⟨_, hgauge, hlabel⟩

theorem admitAt_labels (hm : TimeFrame.monthStartDay t = .ok m)
    (hu : r.userId ≠ companyAggregateUserId) (p : Process) :
    (admitAt config fates r t now).wp p fun _ p' =>
      Fills p.limiter p'.limiter ∨ Labelled r.companyId r.userId t p'.limiter := by
  refine Op.wp_call (Op.wp_and (beforeDebit_labels hm hu p) (beforeDebit_spec hu p))
    (fun _ _ h => h.1) fun verdict p₁ ⟨hlabels, hjudged⟩ => ?_
  cases verdict with
  | error => exact hlabels
  | ok =>
    obtain ⟨-, company, user, budget, hready⟩ := hjudged
    have hlabelled := hready.toRefreshed.labelled
    exact Op.wp_call (commit_spec hu hready) (fun _ _ h => .inr (hlabelled.debits h.2.1))
      fun _ _ h => .inr (hlabelled.debits h.2.1)

/-- The admission got as far as the gates. -/
def AdmissionRecord.Judged (a : AdmissionRecord) : Prop :=
  ∃ answer, a.outcome = .ok answer ∧ ∀ denial, answer.decision ≠ .accessDenied denial

theorem labelled_of_judged {record : AdmissionRecord}
    (hadmits : Admits config fates r t now p outcome l')
    (hrecord : Records r t now outcome p.limiter l' record) (hjudged : record.Judged) :
    Labelled r.companyId r.userId t l' := by
  obtain ⟨answer, hanswer, hdenied⟩ := hjudged
  rw [hrecord.outcome] at hanswer
  cases hadmits with
  | refused _ hrefused hviolation =>
    obtain ⟨decision, extra⟩ := answer
    cases decision with
    | allowed verdict => exact absurd hanswer (hrefused verdict extra)
    | accessDenied denial => exact absurd rfl (hdenied denial)
    | creditViolation violation =>
      obtain ⟨company, user, budget, hrefreshed, -⟩ := hviolation violation extra hanswer
      exact hrefreshed.labelled
  | allowed _ hready hcharged => exact .charged hready hcharged
  | overflowed => cases hanswer

/-! ### The labels of a company over a run -/

/-- The event is an admission of the company that got as far as the gates. -/
def Event.Judges (c : Int) : Event → Prop
  | .admission a => a.request.companyId = c ∧ a.Judged
  | _ => False

/-- A mutation of the company, later than every admission of it that was judged, has set the
month. -/
def RolledLater (trace : List Event) (c month : Int) : Prop :=
  ∃ newer m t outcome older, trace = newer ++ .mutation m t outcome :: older ∧
    m.companyId = c ∧ month = TimeFrame.monthOf t ∧ ∀ e ∈ newer, ¬e.Judges c

theorem RolledLater.cons {trace : List Event} {month : Int} {e : Event}
    (h : RolledLater trace c month) (he : ¬e.Judges c) : RolledLater (e :: trace) c month := by
  obtain ⟨newer, m, t, outcome, older, rfl, hc, hmonth, hnewer⟩ := h
  exact ⟨e :: newer, m, t, outcome, older, rfl, hc, hmonth, List.forall_mem_cons.mpr ⟨he, hnewer⟩⟩

/-- The labels of a company agree. -/
structure Consistent (trace : List Event) (l : RateLimiter) (c : Int) : Prop where
  day : ∀ b, l.budgets.lookup c = some b → b.version ≠ b.flushedVersion →
    ∃ s, l.subjects.lookup (c, companyAggregateUserId) = some s ∧ s.dayPeriod = b.extraDayPeriod
  month : ∀ b, l.budgets.lookup c = some b →
    (0 ≤ b.extraDayPeriod ∧ b.usageMonthStartDay = TimeFrame.monthStartOf b.extraDayPeriod) ∨
      RolledLater trace c b.usageMonthStartDay

namespace Consistent

variable {trace trace' : List Event}

theorem new (c : Int) : Consistent trace .new c where
  day b hb := by cases (Finmap.lookup_empty c).symm.trans hb
  month b hb := by cases (Finmap.lookup_empty c).symm.trans hb

theorem of_same (h : Consistent trace l c) (hsame : SameStates c l l')
    (htrace : ∀ month, RolledLater trace c month → RolledLater trace' c month) :
    Consistent trace' l' c where
  day b hb hdirty := by
    rw [hsame.subject]
    exact h.day b (hsame.budget.symm.trans hb) hdirty
  month b hb := (h.month b (hsame.budget.symm.trans hb)).imp_right (htrace _)

/-- A load leaves a dirty budget and its subject alone. -/
theorem fills (h : Consistent trace l c) (hfills : Fills l l')
    (htrace : ∀ month, RolledLater trace c month → RolledLater trace' c month) :
    Consistent trace' l' c where
  day b hb hdirty := by
    cases hl : l.budgets.lookup c with
    | none => exact absurd (hfills.fresh c b hl hb).1 hdirty
    | some b' =>
      obtain rfl := Option.some.inj ((hfills.budgets c b' hl).symm.trans hb)
      obtain ⟨s, hs, hday⟩ := h.day b' hl hdirty
      exact ⟨s, hfills.subjects _ s hs, hday⟩
  month b hb := by
    cases hl : l.budgets.lookup c with
    | none => exact .inl (hfills.fresh c b hl hb).2
    | some b' =>
      obtain rfl := Option.some.inj ((hfills.budgets c b' hl).symm.trans hb)
      exact (h.month b' hl).imp_right (htrace _)

theorem of_labelled (h : Labelled c u t l) (ht : 18000 ≤ t) : Consistent trace l c := by
  obtain ⟨m, hm, hday⟩ := h (.day (c, companyAggregateUserId) .cpu) (.inl rfl)
  obtain ⟨m', hm', hextra⟩ := h (.dayExtra c) rfl
  obtain ⟨m'', hm'', hmonth⟩ := h (.month c .cpu) rfl
  obtain ⟨s, hs, rfl⟩ := Option.map_eq_some_iff.mp hm
  obtain ⟨b, hb, rfl⟩ := Option.map_eq_some_iff.mp hm'
  obtain ⟨b', hb', rfl⟩ := Option.map_eq_some_iff.mp hm''
  obtain rfl := Option.some.inj (hb.symm.trans hb')
  have hday : s.dayPeriod = TimeFrame.dayOf t := hday
  have hextra : b.extraDayPeriod = TimeFrame.dayOf t := hextra
  have hmonth : b.usageMonthStartDay = TimeFrame.monthOf t := hmonth
  refine ⟨fun b' hb' _ => ?_, fun b' hb' => ?_⟩
  · obtain rfl := Option.some.inj (hb.symm.trans hb')
    exact ⟨s, hs, hday.trans hextra.symm⟩
  · obtain rfl := Option.some.inj (hb.symm.trans hb')
    rw [hextra, hmonth]
    exact .inl ⟨TimeFrame.dayOf_nonneg ht, rfl⟩

theorem setBudget {b' : CompanyBudgetState} (h : Consistent trace l c)
    (hb : BudgetAt store l c t b) (hday : b'.extraDayPeriod = b.extraDayPeriod)
    (hversion : b'.version = b.version) (hflushed : b'.flushedVersion = b.flushedVersion)
    (hmonth : RolledLater trace' c b'.usageMonthStartDay) :
    Consistent trace' (l.setBudget c b') c := by
  have hlookup : ∀ b'', (l.setBudget c b').budgets.lookup c = some b'' → b'' = b' :=
    fun b'' hb'' => Option.some.inj (hb''.symm.trans (Finmap.lookup_insert _))
  refine ⟨fun b'' hb'' hdirty => ?_, fun b'' hb'' => ?_⟩
  · obtain rfl := hlookup b'' hb''
    rw [hversion, hflushed] at hdirty
    rw [hday]
    rcases hb with hb | ⟨-, hb⟩
    · exact h.day b hb hdirty
    · exact absurd (hb.version.trans hb.flushedVersion.symm) hdirty
  · obtain rfl := hlookup b'' hb''
    exact .inr hmonth

theorem refreshMonth_other (b : CompanyBudgetState) (month : Int) :
    (b.refreshMonth month).extraDayPeriod = b.extraDayPeriod ∧
      (b.refreshMonth month).version = b.version ∧
      (b.refreshMonth month).flushedVersion = b.flushedVersion := by
  unfold CompanyBudgetState.refreshMonth
  split_ifs <;> exact ⟨rfl, rfl, rfl⟩

/-- A mutation moves the month and nothing else. -/
theorem mutates {m : BudgetMutation} {outcome : Except Failure BudgetMutationReply}
    (h : Consistent trace p.limiter c) (hmutates : Mutates fates m t p outcome p') :
    Consistent (.mutation m t outcome :: trace) p'.limiter c := by
  by_cases hc : m.companyId = c
  · subst hc
    have hrolled : ∀ b : CompanyBudgetState, RolledLater (.mutation m t outcome :: trace)
        m.companyId (b.refreshMonth (TimeFrame.monthOf t)).usageMonthStartDay := fun b =>
      ⟨[], m, t, outcome, trace, rfl, rfl, refreshMonth_month _ _, List.forall_mem_nil _⟩
    have hother := fun b => refreshMonth_other b (TimeFrame.monthOf t)
    cases hmutates with
    | unfound => exact h.of_same (.of_eq rfl rfl) fun _ hlater => hlater.cons id
    | refused hb | failed hb | written hb =>
      exact h.setBudget hb (hother _).1 (hother _).2.1 (hother _).2.2 (hrolled _)
  · exact h.of_same (.mutates hc hmutates) fun _ hlater => hlater.cons id

theorem markUsageFlushed (h : Consistent trace l c) (c' : Int) (version : ℕ) :
    Consistent trace (l.markUsageFlushed c' version) c := by
  unfold RateLimiter.markUsageFlushed
  split
  · next b hb =>
    by_cases hc : c' = c
    · subst hc
      unfold CompanyBudgetState.markUsageFlushed
      split_ifs with hversion
      · refine ⟨fun b' hb' hdirty => ?_, fun b' hb' => ?_⟩
        · obtain rfl := Option.some.inj (hb'.symm.trans (Finmap.lookup_insert _))
          exact absurd hversion hdirty
        · obtain rfl := Option.some.inj (hb'.symm.trans (Finmap.lookup_insert _))
          exact h.month b hb
      · rw [setBudget_self hb]
        exact h
    · exact h.of_same (.setBudget hc _) fun _ hlater => hlater
  · exact h

theorem flushes {action : FlushAction} (h : Consistent w.trace w.process.limiter c)
    (hflush : Flushes config w action w') : Consistent w'.trace w'.process.limiter c := by
  cases hflush with
  | write | budgetWrite =>
    dsimp only
    split_ifs <;> exact h
  | mark =>
    exact h.of_same (.of_eq (markFlushed_subjects _ _) (markFlushed_budgets _ _))
      fun _ hlater => hlater
  | pruneShard => exact h.of_same (.of_eq rfl rfl) fun _ hlater => hlater.cons id
  | prunePlatform => exact h.of_same (.of_eq rfl rfl) fun _ hlater => hlater
  | budgetMark => exact h.markUsageFlushed _ _
  | _ => exact h

end Consistent

/-- The month of the reading of an admission can be told. -/
def Action.Dated : Action → Prop
  | .admission _ t _ _ => ∃ m, TimeFrame.monthStartDay t = .ok m
  | _ => True

instance decidableExistsOk {ε α : Type} : (x : Except ε α) → Decidable (∃ a, x = .ok a)
  | .ok a => .isTrue ⟨a, rfl⟩
  | .error _ => .isFalse fun ⟨_, h⟩ => by cases h

instance : DecidablePred Action.Dated
  | .admission _ t _ _ => inferInstanceAs (Decidable (∃ m, TimeFrame.monthStartDay t = .ok m))
  | .mutation _ _ _ | .invalidation _ _ | .flush _ | .restart => .isTrue trivial

theorem Consistent.step (h : Consistent w.trace w.process.limiter c) (hparsed : a.Parsed)
    (hdated : a.Dated) (hs : step config w a = some w') :
    Consistent w'.trace w'.process.limiter c := by
  cases a with
  | admission r t now fates =>
    obtain ⟨m, hm⟩ := hdated
    obtain ⟨-, ht⟩ := TimeFrame.monthStartDay_ok hm
    have hlabels : (admitAt config fates r t now).wp w.process _ :=
      admitAt_labels hm hparsed.user_ne w.process
    have hprocess : w'.process = ((admitAt config fates r t now).exec w.process).2 := by
      cases hs
      rfl
    unfold Op.wp at hlabels
    rw [← hprocess] at hlabels
    cases step_spec hparsed hs with
    | admission _ hadmits hrecord =>
      by_cases hc : r.companyId = c
      · subst hc
        rcases hlabels with hfills | hlabelled
        · rename_i record _
          by_cases hjudged : record.Judged
          · exact .of_labelled (labelled_of_judged hadmits hrecord hjudged) ht
          · exact h.fills hfills fun _ hlater => hlater.cons fun hjudges => hjudged hjudges.2
        · exact .of_labelled hlabelled ht
      · refine h.of_same (.admits hc hadmits) fun _ hlater => hlater.cons fun hjudges => ?_
        exact hc (hrecord.request ▸ hjudges.1)
  | mutation =>
    cases step_spec hparsed hs with
    | mutation _ hmutates => exact h.mutates hmutates
  | invalidation =>
    cases step_spec hparsed hs with
    | invalidation =>
      exact h.of_same (.of_eq (invalidateAccess_subjects _ _ _) (invalidateAccess_budgets _ _ _))
        fun _ hlater => hlater
  | flush => exact h.flushes (flushStep_spec hs)
  | restart =>
    cases step_spec hparsed hs with
    | restart => exact .new c

theorem consistent_of_reaches
    (h : Reaches (step config) (fun _ a => a.Parsed ∧ a.Dated) (World.boot store) w) (c : Int) :
    Consistent w.trace w.process.limiter c :=
  h.invariant (I := fun w => Consistent w.trace w.process.limiter c) (.new c)
    fun _ _ _ _ ih ha hs => ih.step ha.1 ha.2 hs

/-! ### The rows -/

/-- The row is on its way to the store, or it has been written since the store was `store`. -/
def World.Publishes (store : LimiterStore) (w : World) (row : StoredBudgetUsage) : Prop :=
  (∃ version, (row, version) ∈ w.flush.pendingBudgets) ∨
    ∃ c, w.process.store.budgetUsages c = some row ∧ store.budgetUsages c ≠ some row

/-- The row carries the counters of the company's subject and budget, both under their own day. -/
def RateLimiter.Shows (l : RateLimiter) (row : StoredBudgetUsage) : Prop :=
  ∃ s b, l.subjects.lookup (row.companyId, companyAggregateUserId) = some s ∧
    l.budgets.lookup row.companyId = some b ∧
    row.dayUsed = s.dayUsed ∧ row.dayPeriod = s.dayPeriod ∧
    row.dayExtraCpu = b.dayExtraUsed ∧ row.dayPeriod = b.extraDayPeriod

theorem Consistent.shows {trace : List Event} {row : StoredBudgetUsage × ℕ}
    (h : Consistent trace l c) (hrow : l.budgetSnapshot t day c = some row) : l.Shows row.1 := by
  obtain ⟨b, dayUsed, dayPeriod, updated, hb, hdirty, rfl, hsubject⟩ := budgetSnapshot_some hrow
  obtain ⟨s, hs, hday⟩ := h.day b hb hdirty
  obtain ⟨rfl, rfl⟩ := hsubject s hs
  exact ⟨s, b, hs, hb, rfl, rfl, rfl, hday⟩

/-- A row that is published after a step was so before, or the step has taken it. -/
theorem publishes_of_steps (hsteps : Steps config w a w') (h : w'.Publishes store row) :
    w.Publishes store row ∨
      ∃ t day c version, w.process.limiter.budgetSnapshot t day c = some (row, version) := by
  cases hsteps with
  | admission | invalidation => exact .inl h
  | restart => exact .inl (.inr (h.resolve_left fun ⟨_, hrow⟩ => by cases hrow))
  | mutation _ hmutates =>
    refine .inl (h.imp_right ?_)
    rintro ⟨c, hrow, hnew⟩
    refine ⟨c, ?_, hnew⟩
    cases hmutates with
    | unfound | refused | written => exact hrow
    | failed _ hstore =>
      rcases hstore with rfl | ⟨-, stored, updated, -, rfl⟩
      · exact hrow
      · exact hrow
  | flush hflush =>
    rcases h with ⟨version, hrow⟩ | ⟨c, hrow, hnew⟩
    · refine (pendingBudgets_flushes hflush _ hrow).imp (fun hrow => .inl ⟨version, hrow⟩) ?_
      rintro ⟨t, day, c, hrow⟩
      exact ⟨t, day, c, version, hrow⟩
    · refine .inl ((budgetUsages_flushes hflush hrow).symm.imp id fun hrow => ⟨c, hrow, hnew⟩)

/-- Every row was taken in a state of the run that shows it. -/
theorem shows_of_publishes
    (h : Reaches (step config) (fun _ a => a.Parsed ∧ a.Dated) (World.boot store) w)
    (hrow : w.Publishes store row) :
    ∃ w₀, Reaches (step config) (fun _ a => a.Parsed ∧ a.Dated) (World.boot store) w₀ ∧
      Reaches (step config) (fun _ a => a.Parsed ∧ a.Dated) w₀ w ∧
      w₀.process.limiter.Shows row := by
  induction h with
  | refl =>
    rcases hrow with ⟨version, hpending⟩ | ⟨c, hstored, hnew⟩
    · cases hpending
    · exact absurd hstored hnew
  | @tail w _ _ hreach ha hs ih =>
    rcases publishes_of_steps (step_spec ha.1 hs) hrow with hrow | ⟨t, day, c, version, hrow⟩
    · obtain ⟨w₀, hw₀, hrun, hshows⟩ := ih hrow
      exact ⟨w₀, hw₀, hrun.tail ha hs, hshows⟩
    · exact ⟨w, hreach, .tail .refl ha hs, (consistent_of_reaches hreach c).shows hrow⟩

/-! ### What a counter counts -/

/-- The gauge is as it was, or at the period of the reading `t`. -/
def Regauged (t : Int) (l l' : RateLimiter) (g : Gauge) : Prop :=
  l'.gauge g = l.gauge g ∨ ∃ m, l'.gauge g = some m ∧ m.label = g.periodOf t

namespace Regauged

variable {g : Gauge}

theorem trans (h : Regauged t l l' g) (h' : Regauged t l' l'' g) : Regauged t l l'' g := by
  rcases h' with hsame | hset
  · refine h.imp hsame.trans fun ⟨m, hm, hlabel⟩ => ⟨m, hsame.trans hm, hlabel⟩
  · exact .inr hset

theorem of_moved (h : GaugeMoved store c u t l g (l'.gauge g)) : Regauged t l l' g := by
  unfold Regauged
  generalize l'.gauge g = x at h ⊢
  cases h with
  | same => exact .inl rfl
  | rolled => exact .inr ⟨_, rfl, Meter.roll_label _ _⟩
  | loaded => exact .inr ⟨_, rfl, rfl⟩

theorem moves (hpath : ReflTransGen (Move config store c u t now) l l') (g : Gauge) :
    Regauged t l l' g := by
  induction hpath with
  | refl => exact .inl rfl
  | tail _ hmove ih => exact ih.trans (of_moved (hmove.gauge g))

theorem debits (h : Labelled r.companyId r.userId t l)
    (hpath : ReflTransGen (Debit r t) l l') (g : Gauge) : Regauged t l l' g := by
  by_cases hg : g.Touched r.companyId r.userId
  · exact .inr (h.debits hpath g hg)
  · induction hpath with
    | refl => exact .inl rfl
    | tail _ hdebit ih =>
      refine ih.trans (.inl ?_)
      exact (hdebit.gauge g).resolve_right fun ⟨htouched, _⟩ => hg htouched

theorem admits (hadmits : Admits config fates r t now p outcome l') (g : Gauge) :
    Regauged t p.limiter l' g := by
  cases hadmits with
  | refused hpath => exact moves hpath g
  | overflowed hpath hready hdebit =>
    exact (moves hpath g).trans (debits hready.toRefreshed.labelled hdebit g)
  | allowed hpath hready hcharged =>
    refine (moves hpath g).trans ?_
    by_cases hg : g.Touched r.companyId r.userId
    · exact .inr (Labelled.charged hready hcharged g hg)
    · have hgauge := gauge_charged hready hcharged g
      rw [if_neg hg] at hgauge
      exact .inl hgauge

theorem budgetAt (hb : BudgetAt store l c t b) (g : Gauge) :
    Regauged t l (l.setBudget c (b.refreshMonth (TimeFrame.monthOf t))) g := by
  rcases hb with hb | ⟨hnone, hb⟩
  · exact of_moved (.refreshMonth hb g : GaugeMoved store c 0 t l g _)
  · have hloaded : Regauged t l (l.setBudget c b) g :=
      of_moved (GaugeMoved.recoverBudget (u := 0) hnone hb g)
    have hrefreshed := hloaded.trans (of_moved
      (.refreshMonth (Finmap.lookup_insert _) g : GaugeMoved store c 0 t (l.setBudget c b) g _))
    rwa [setBudget_setBudget] at hrefreshed

theorem mutates {m : BudgetMutation} {outcome : Except Failure BudgetMutationReply}
    (hmutates : Mutates fates m t p outcome p') (g : Gauge) :
    Regauged t p.limiter p'.limiter g := by
  rcases gauge_mutates hmutates with hsame | ⟨b, hb, hgauge⟩
  · rw [hsame]
    exact .inl rfl
  · exact (budgetAt hb g).trans (.inl (hgauge g))

end Regauged

/-- The reading of a call. -/
def Action.reading : Action → Option Int
  | .admission _ t _ _ | .mutation _ t _ => some t
  | _ => none

/-- Only a call whose reading falls in the period of a gauge changes what it shows. -/
theorem label_of_changed {g : Gauge} {m : Meter Int} (hsteps : Steps config w a w')
    (hm : w'.process.limiter.gauge g = some m) (hchanged : w.process.limiter.gauge g ≠ some m) :
    ∃ t, a.reading = some t ∧ m.label = g.periodOf t := by
  have hreading : ∀ {t}, Regauged t w.process.limiter w'.process.limiter g →
      m.label = g.periodOf t := by
    rintro t (hsame | ⟨m', hm', hlabel⟩)
    · exact absurd (hsame.symm.trans hm) hchanged
    · obtain rfl := Option.some.inj (hm'.symm.trans hm)
      exact hlabel
  cases hsteps with
  | admission _ hadmits => exact ⟨_, rfl, hreading (.admits hadmits g)⟩
  | mutation _ hmutates => exact ⟨_, rfl, hreading (.mutates hmutates g)⟩
  | invalidation => exact absurd ((gauge_invalidateAccess _ _ _ g).symm.trans hm) hchanged
  | flush hflush => exact absurd ((gauge_flushes hflush g).symm.trans hm) hchanged
  | restart =>
    rw [show (RateLimiter.new.gauge g) = none by cases g <;> rfl] at hm
    cases hm

/-- `month` is the first day of the month that contains `day`. -/
structure StartsMonthOf (day month : Int) : Prop where
  day_nonneg : 0 ≤ day
  month_nonneg : 0 ≤ month
  first : dateOf month.toNat = (dateOf day.toNat).firstOfMonth

theorem startsMonthOf_monthStartOf (hday : 0 ≤ day) :
    StartsMonthOf day (TimeFrame.monthStartOf day) := by
  obtain ⟨n, rfl⟩ := Int.eq_ofNat_of_zero_le hday
  rw [TimeFrame.monthStartOf_eq_firstOfMonth]
  refine ⟨hday, Int.natCast_nonneg _, ?_⟩
  rw [Int.toNat_natCast, Int.toNat_natCast]
  exact (dateOf_sub_day n).2

/-- **Published counters carry one label.** In every run in which the months of the admissions can
be told, whatever the order of the readings and however loads fail, a budget with something to
publish has a company subject of the same day, and its month is the month of that day unless a
mutation has rolled it since. So a row that is flushed carries both day counters under the day of
either, and a counter only ever changes at a reading of the day it is labelled with. -/
theorem published_counters_labelled {w : World}
    (h : Reaches (step config) (fun _ a => a.Parsed ∧ a.Dated) (World.boot store) w) :
    (∀ c b, w.process.limiter.budgets.lookup c = some b → b.version ≠ b.flushedVersion →
      ∃ s, w.process.limiter.subjects.lookup (c, companyAggregateUserId) = some s ∧
        s.dayPeriod = b.extraDayPeriod ∧
        (StartsMonthOf b.extraDayPeriod b.usageMonthStartDay ∨
          RolledLater w.trace c b.usageMonthStartDay)) ∧
    (∀ row, w.Publishes store row → ∃ w₀,
      Reaches (step config) (fun _ a => a.Parsed ∧ a.Dated) (World.boot store) w₀ ∧
      Reaches (step config) (fun _ a => a.Parsed ∧ a.Dated) w₀ w ∧
      w₀.process.limiter.Shows row) ∧
    ∀ a w' g m, a.Parsed → step config w a = some w' → w'.process.limiter.gauge g = some m →
      w.process.limiter.gauge g ≠ some m → ∃ t, a.reading = some t ∧ m.label = g.periodOf t := by
  refine ⟨fun c b hb hdirty => ?_, fun row hrow => shows_of_publishes h hrow,
    fun a w' g m ha hs hm hchanged => label_of_changed (step_spec ha hs) hm hchanged⟩
  have hconsistent := consistent_of_reaches h c
  obtain ⟨s, hs, hday⟩ := hconsistent.day b hb hdirty
  refine ⟨s, hs, hday, (hconsistent.month b hb).imp_left ?_⟩
  rintro ⟨hnonneg, hmonth⟩
  rw [hmonth]
  exact startsMonthOf_monthStartOf hnonneg

/-- The pool pays 25 credits, a mutation of a later month rolls the month, and the flush, none of
whose usage rows can be written, comes to the budget of the company. -/
def publishingRun : List Action :=
  [.admission sampleRequest 1800000000 0 fun _ => .done,
    .mutation grant 1803000000 fun _ => .done,
    .flush .start, .flush (.collect (chargeKeys sampleRequest 1800000000)),
    .flush (.collectPlatform [platformKeyOf 1800000000]),
    .flush (.write false false), .flush (.write false false), .flush (.write false false),
    .flush (.write false false), .flush (.write false false),
    .flush (.prune none), .flush (.budget (some 1803000000)), .flush (.budgetCollect [7])]

theorem published_counters_labelled_pool :
    ∃ w w₀ row, Reaches (step sampleConfig) (fun _ a => a.Parsed ∧ a.Dated) (World.boot .empty) w ∧
      w.Publishes .empty row ∧ row.dayExtraCpu = 25 ∧ row.dayPeriod = 20833 ∧
      Reaches (step sampleConfig) (fun _ a => a.Parsed ∧ a.Dated) w₀ w ∧
      w₀.process.limiter.Shows row := by
  obtain ⟨w, hreach, hrows⟩ : ∃ w,
      Reaches (step sampleConfig) (fun _ a => a.Parsed ∧ a.Dated) (World.boot .empty) w ∧
      (w.flush.pendingBudgets.map fun row => (row.1.dayExtraCpu, row.1.dayPeriod)) =
        [(25, 20833)] :=
    exists_of_runList publishingRun (by decide +kernel)
  obtain ⟨⟨row, version⟩, rows, hpending, hrow, -⟩ := List.map_eq_cons_iff.mp hrows
  obtain ⟨hextra, hday⟩ := Prod.mk.inj hrow
  have hpublishes : w.Publishes .empty row := .inl ⟨version, hpending ▸ List.mem_cons_self⟩
  obtain ⟨w₀, -, hlater, hshows⟩ := (published_counters_labelled hreach).2.1 row hpublishes
  exact ⟨w, w₀, row, hreach, hpublishes, hextra, hday, hlater, hshows⟩

end Fareward.Limiter
