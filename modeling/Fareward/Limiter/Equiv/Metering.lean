import Fareward.Limiter.Equiv.Gauges
import Fareward.Limiter.Equiv.Labels

/-!
# Gauges over runs

`Metered rel` relates a gauge to the accepted charges of a trace: what it shows is `rel`-related to
the total of its period, and a gauge that is not loaded has been charged nothing. `Tracks` adds that
the gauge is not past the reading `t`, which is what a call at `t` needs to keep it so. A call rolls
the gauge forward, loads it or charges it, and the total moves with it. `Follows` is what is left of
`Tracks` between two calls: the gauge is not past the readings of the run.
-/

namespace Fareward.Limiter

open Relation

variable {m : BudgetMutation} {verdict : AccessVerdict} {extra now : ℕ} {record : AdmissionRecord}
  {outcome : Except Failure Admission} {b : CompanyBudgetState} {w w' : World}
  {action : FlushAction} {c' c u t : Int} {rel : ℕ → ℕ → Prop} {config : Config}
  {store : LimiterStore} {fates : Fates} {r : Request} {p p' : Process} {l l' l'' : RateLimiter}
  {g : Gauge} {trace trace' : List Event}

/-- The gauge has counted the accepted charges of the trace. -/
def Metered (rel : ℕ → ℕ → Prop) (trace : List Event) (l : RateLimiter) (g : Gauge) : Prop :=
  match l.gauge g with
  | none => ∀ q, total trace g q = 0
  | some m => m.Counts rel (total trace g)

theorem metered_of_some {m : Meter Int} (hm : l.gauge g = some m) :
    Metered rel trace l g ↔ m.Counts rel (total trace g) := by
  unfold Metered
  rw [hm]

theorem metered_of_none (hnone : l.gauge g = none) :
    Metered rel trace l g ↔ ∀ q, total trace g q = 0 := by
  unfold Metered
  rw [hnone]

theorem Metered.congr (h : Metered rel trace l g) (hgauge : l'.gauge g = l.gauge g)
    (htotal : ∀ q, total trace' g q = total trace g q) : Metered rel trace' l' g := by
  cases hm : l.gauge g with
  | none =>
    rw [metered_of_none (hgauge.trans hm)]
    intro q
    rw [htotal]
    exact (metered_of_none hm).mp h q
  | some =>
    rw [metered_of_some (hgauge.trans hm)]
    exact ((metered_of_some hm).mp h).congr htotal

/-- The gauge counts, and it is not past the reading `t`. -/
structure Tracks (rel : ℕ → ℕ → Prop) (trace : List Event) (t : Int) (l : RateLimiter) (g : Gauge) :
    Prop where
  metered : Metered rel trace l g
  label : ∀ m, l.gauge g = some m → m.label ≤ g.periodOf t ∨ ∀ q, total trace g q = 0

namespace Tracks

theorem congr (h : Tracks rel trace t l g) (hgauge : l'.gauge g = l.gauge g)
    (htotal : ∀ q, total trace' g q = total trace g q) : Tracks rel trace' t l' g := by
  refine ⟨h.metered.congr hgauge htotal, fun m hm => ?_⟩
  refine (h.label m (hgauge.symm.trans hm)).imp_right fun hzero q => ?_
  rw [htotal]
  exact hzero q

/-- Before the first debit. -/
theorem moved (hrel : Meter.Keepable rel) (h : Tracks rel trace t l g)
    (hload : ∀ v, l.gauge g = none → g.Read store t l v → rel 0 v)
    (hmoved : GaugeMoved store c u t l g (l'.gauge g)) : Tracks rel trace t l' g := by
  generalize hg : l'.gauge g = x at hmoved
  cases hmoved with
  | same => exact h.congr hg fun _ => rfl
  | rolled htouched hm =>
    refine ⟨(metered_of_some hg).mpr (((metered_of_some hm).mp h.metered).roll hrel (h.label _ hm)),
      fun m' hm' => .inl ?_⟩
    obtain rfl := Option.some.inj (hg.symm.trans hm')
    exact (Meter.roll_label _ _).le
  | loaded htouched hnone hread =>
    have hzero := (metered_of_none hnone).mp h.metered
    refine ⟨(metered_of_some hg).mpr (.of_zero hzero (hload _ hnone hread)), fun _ _ => .inr hzero⟩

theorem moves (hrel : Meter.Keepable rel) (h : Tracks rel trace t l g)
    (hload : ∀ l v, l.gauge g = none → g.Read store t l v → rel 0 v)
    (hpath : ReflTransGen (Move config store c u t now) l l') : Tracks rel trace t l' g := by
  induction hpath with
  | refl => exact h
  | tail _ hmove ih => exact ih.moved hrel (hload _) (hmove.gauge g)

end Tracks

/-! ### Admissions -/

theorem counted_of_allowed (h : Records r t now (.ok ⟨.allowed verdict, extra⟩) l l' record) :
    record.counted g =
      if g.Touched r.companyId r.userId then g.weight r.credits extra else 0 := by
  unfold AdmissionRecord.counted
  rw [h.outcome, h.request]

theorem counted_of_not_allowed (h : Records r t now outcome l l' record)
    (hnot : ∀ verdict extra, outcome ≠ .ok ⟨.allowed verdict, extra⟩) : record.counted g = 0 := by
  unfold AdmissionRecord.counted
  rw [h.outcome]
  split
  · exact absurd rfl (hnot _ _)
  · rfl

theorem total_of_counted_eq_zero (h : record.counted g = 0) (q : Int) :
    total (.admission record :: trace) g q = total trace g q := by
  rw [total_cons]
  unfold Event.counted
  dsimp only
  rw [h, ite_self, Nat.zero_add]

theorem total_of_period (q : Int) :
    total (.admission record :: trace) g q =
      if q = g.periodOf record.unixSeconds then total trace g q + record.counted g
      else total trace g q := by
  rw [total_cons]
  unfold Event.counted
  dsimp only
  by_cases hq : q = g.periodOf record.unixSeconds
  · rw [if_pos hq, if_pos hq.symm, Nat.add_comm]
  · rw [if_neg hq, if_neg (Ne.symm hq), Nat.zero_add]

namespace Tracks

theorem charged {company user : SubjectState} {l₀ : RateLimiter} (hrel : Meter.Keepable rel)
    (h : Tracks rel trace t l g) (hready : Ready config r t now extra l company user b)
    (hcharged : Charged r t extra l l' company user b)
    (hrecord : Records r t now (.ok ⟨.allowed verdict, extra⟩) l₀ l' record) :
    Tracks rel (.admission record :: trace) t l' g := by
  have hgauge := gauge_charged hready hcharged g
  have hcounted : record.counted g = _ := counted_of_allowed hrecord
  by_cases htouched : g.Touched r.companyId r.userId
  · obtain ⟨m, hm, hlabel⟩ := hready.label htouched
    rw [if_pos htouched, hm, Option.map_some] at hgauge
    rw [if_pos htouched] at hcounted
    refine ⟨(metered_of_some hgauge).mpr
      (((metered_of_some hm).mp h.metered).add hrel _ fun q => ?_), fun m' hm' => .inl ?_⟩
    · rw [total_of_period, hrecord.unixSeconds, hcounted, hlabel]
    · obtain rfl := Option.some.inj (hgauge.symm.trans hm')
      exact hlabel.le
  · rw [if_neg htouched] at hgauge hcounted
    exact h.congr hgauge (total_of_counted_eq_zero hcounted)

/-- Debits that stopped half-way, for a gauge that may count too much. -/
theorem debits (hgrow : ∀ a v v', rel a v → v ≤ v' → rel a v') (h : Tracks rel trace t l g)
    (hpath : ReflTransGen (Debit r t) l l') : Tracks rel trace t l' g := by
  induction hpath with
  | refl => exact h
  | tail _ hdebit ih =>
    rcases hdebit.gauge g with hsame | ⟨-, m, v, hm, hv, hm'⟩
    · exact ih.congr hsame fun _ => rfl
    · have hcounts := (metered_of_some hm).mp ih.metered
      refine ⟨(metered_of_some hm').mpr ⟨hgrow _ _ _ hcounts.current hv, hcounts.later⟩,
        fun m'' hm'' => ?_⟩
      obtain rfl := Option.some.inj (hm'.symm.trans hm'')
      exact ih.label m hm

/-- **An admission** keeps a gauge, if it completes or the gauge may count too much. -/
theorem admits (hrel : Meter.Keepable rel) (h : Tracks rel trace t p.limiter g)
    (hload : ∀ l v, l.gauge g = none → g.Read p.store t l v → rel 0 v)
    (hends : (∀ a v v', rel a v → v ≤ v' → rel a v') ∨ Completes config fates r t now p)
    (hadmits : Admits config fates r t now p outcome l')
    (hrecord : Records r t now outcome p.limiter l' record) :
    Tracks rel (.admission record :: trace) t l' g := by
  cases hadmits with
  | refused hpath hrefused =>
    have hcounted : record.counted g = 0 := counted_of_not_allowed hrecord hrefused
    exact (h.moves hrel hload hpath).congr rfl (total_of_counted_eq_zero hcounted)
  | allowed hpath hready hcharged =>
    exact (h.moves hrel hload hpath).charged hrel hready hcharged hrecord
  | overflowed hpath _ hdebit _ _ hincomplete =>
    rcases hends with hgrow | hcompletes
    · have hcounted : record.counted g = 0 := counted_of_not_allowed hrecord nofun
      exact ((h.moves hrel hload hpath).debits hgrow hdebit).congr rfl
        (total_of_counted_eq_zero hcounted)
    · exact absurd hcompletes hincomplete

end Tracks

/-! ### Mutations -/

theorem total_mutation (m : BudgetMutation) (t : Int) (outcome : Except Failure BudgetMutationReply)
    (trace : List Event) (g : Gauge) (q : Int) :
    total (.mutation m t outcome :: trace) g q = total trace g q := by
  rw [total_cons]
  exact Nat.zero_add _

theorem total_prune (shard : ℕ) (t : Int) (trace : List Event) (g : Gauge) (q : Int) :
    total (.prune shard t :: trace) g q = total trace g q := by
  rw [total_cons]
  exact Nat.zero_add _

theorem gauge_setBudget_congr {b' : CompanyBudgetState}
    (hmonth : ∀ d, b'.monthMeter d = b.monthMeter d)
    (hmonthExtra : b'.monthExtraMeter = b.monthExtraMeter)
    (hdayExtra : b'.dayExtraMeter = b.dayExtraMeter) (l : RateLimiter) (c : Int) (g : Gauge) :
    (l.setBudget c b').gauge g = (l.setBudget c b).gauge g := by
  rw [gauge_setBudget, gauge_setBudget]
  cases g <;> simp only [hmonth, hmonthExtra, hdayExtra]

/-- What a mutation does to the gauges: those of the budget it has loaded and rolled. -/
theorem gauge_mutates {outcome : Except Failure BudgetMutationReply}
    (hmutates : Mutates fates m t p outcome p') :
    p'.limiter = p.limiter ∨ ∃ b, BudgetAt p.store p.limiter m.companyId t b ∧
      ∀ g, p'.limiter.gauge g =
        (p.limiter.setBudget m.companyId (b.refreshMonth (TimeFrame.monthOf t))).gauge g := by
  cases hmutates with
  | unfound => exact .inl rfl
  | refused hb | failed hb => exact .inr ⟨_, hb, fun _ => rfl⟩
  | written hb =>
    refine .inr ⟨_, hb, fun g => ?_⟩
    refine gauge_setBudget_congr (fun _ => ?_) ?_ ?_ _ _ g <;> rfl

/-! ### Steps that move no gauge -/

theorem gauge_markUsageFlushed (l : RateLimiter) (c : Int) (version : ℕ) (g : Gauge) :
    (l.markUsageFlushed c version).gauge g = l.gauge g := by
  unfold RateLimiter.markUsageFlushed
  split
  · next b hb =>
    have hself : l.gauge g = (l.setBudget c b).gauge g := by rw [setBudget_self hb]
    rw [hself]
    unfold CompanyBudgetState.markUsageFlushed
    split_ifs
    · refine gauge_setBudget_congr (fun _ => ?_) ?_ ?_ _ _ g <;> rfl
    · rfl
  · rfl

theorem gauge_flushes (hflush : Flushes config w action w') (g : Gauge) :
    w'.process.limiter.gauge g = w.process.limiter.gauge g := by
  cases hflush with
  | write | budgetWrite =>
    dsimp only
    split_ifs <;> rfl
  | mark => exact gauge_congr (markFlushed_subjects _ _) (markFlushed_budgets _ _) g
  | pruneShard | prunePlatform => exact gauge_congr rfl rfl g
  | budgetMark => exact gauge_markUsageFlushed _ _ _ g
  | _ => rfl

theorem total_flushes (hflush : Flushes config w action w') (g : Gauge) (q : Int) :
    total w'.trace g q = total w.trace g q := by
  cases hflush with
  | pruneShard => exact total_prune _ _ _ _ _
  | _ => rfl

theorem gauge_invalidateAccess (l : RateLimiter) (c u : Int) (g : Gauge) :
    (invalidateAccess l c u).gauge g = l.gauge g :=
  gauge_congr (invalidateAccess_subjects _ _ _) (invalidateAccess_budgets _ _ _) g

/-! ### The states of the other companies -/

/-- The states of the company are as they were. -/
structure SameStates (c : Int) (l l' : RateLimiter) : Prop where
  budget : l'.budgets.lookup c = l.budgets.lookup c
  subject : ∀ u, l'.subjects.lookup (c, u) = l.subjects.lookup (c, u)

namespace SameStates

theorem of_eq (hsubjects : l'.subjects = l.subjects) (hbudgets : l'.budgets = l.budgets) :
    SameStates c l l' :=
  ⟨by rw [hbudgets], fun _ => by rw [hsubjects]⟩

theorem trans (h : SameStates c l l') (h' : SameStates c l' l'') : SameStates c l l'' :=
  ⟨h'.budget.trans h.budget, fun u => (h'.subject u).trans (h.subject u)⟩

theorem setSubject {key : Int × Int} (hc : key.1 ≠ c) (s : SubjectState) :
    SameStates c l (l.setSubject key s) := by
  refine ⟨rfl, fun u => Finmap.lookup_insert_of_ne _ ?_⟩
  rintro rfl
  exact hc rfl

theorem setBudget (hc : c' ≠ c) (b : CompanyBudgetState) :
    SameStates c l (l.setBudget c' b) :=
  ⟨Finmap.lookup_insert_of_ne _ hc.symm, fun _ => rfl⟩

theorem moves (hc : c' ≠ c) (hpath : ReflTransGen (Move config store c' u t now) l l') :
    SameStates c l l' := by
  have hkept := Kept.of_moves hpath
  refine ⟨hkept.otherBudgets c hc.symm, fun v => hkept.otherSubjects _ ?_ ?_⟩
  · exact fun h => hc (Prod.mk.inj h).1.symm
  · exact fun h => hc (Prod.mk.inj h).1.symm

theorem debits (hc : r.companyId ≠ c) (hpath : ReflTransGen (Debit r t) l l') :
    SameStates c l l' := by
  induction hpath with
  | refl => exact of_eq rfl rfl
  | tail _ hdebit ih =>
    refine ih.trans ?_
    cases hdebit with
    | subject userId s s' => exact setSubject hc s'
    | budget b b' => exact setBudget hc b'
    | usage | platform => exact of_eq rfl rfl

theorem admits (hc : r.companyId ≠ c) (hadmits : Admits config fates r t now p outcome l') :
    SameStates c p.limiter l' := by
  cases hadmits with
  | refused hpath => exact moves hc hpath
  | overflowed hpath _ hdebit => exact (moves hc hpath).trans (debits hc hdebit)
  | allowed hpath hready hcharged =>
    refine (moves hc hpath).trans ⟨hcharged.budgets c hc.symm, fun v => ?_⟩
    refine hcharged.subjects _ ?_ ?_
    · exact fun h => hc (Prod.mk.inj h).1.symm
    · exact fun h => hc (Prod.mk.inj h).1.symm

theorem mutates {outcome : Except Failure BudgetMutationReply} (hc : m.companyId ≠ c)
    (hmutates : Mutates fates m t p outcome p') : SameStates c p.limiter p'.limiter := by
  cases hmutates with
  | unfound => exact of_eq rfl rfl
  | refused | failed | written => exact setBudget hc _

theorem gauge (h : SameStates c l l') (hg : g.company = c) : l'.gauge g = l.gauge g := by
  subst hg
  cases g with
  | hour key | day key => exact congrArg (Option.map _) (h.subject key.2)
  | month | monthExtra | dayExtra => exact congrArg (Option.map _) h.budget

end SameStates

/-! ### Gauges and the readings of a run -/

/-- The gauge counts, and it is not past all the readings that `reads` tells of. -/
structure Follows (rel : ℕ → ℕ → Prop) (reads : Int → Prop) (trace : List Event) (l : RateLimiter)
    (g : Gauge) : Prop where
  metered : Metered rel trace l g
  dated : ∀ m, l.gauge g = some m →
    (∃ t, reads t ∧ m.label ≤ g.periodOf t) ∨ ∀ q, total trace g q = 0

namespace Follows

variable {reads reads' : Int → Prop}

theorem tracks (h : Follows rel reads trace l g) (hbefore : ∀ t', reads t' → t' ≤ t) :
    Tracks rel trace t l g := by
  refine ⟨h.metered, fun m hm => (h.dated m hm).imp_left ?_⟩
  rintro ⟨t', ht', hlabel⟩
  exact hlabel.trans (g.periodOf_mono (hbefore t' ht'))

theorem of_tracks (h : Tracks rel trace t l g) (ht : reads t) : Follows rel reads trace l g :=
  ⟨h.metered, fun m hm => (h.label m hm).imp_left fun hlabel => ⟨t, ht, hlabel⟩⟩

theorem congr (h : Follows rel reads trace l g) (hgauge : l'.gauge g = l.gauge g)
    (htotal : ∀ q, total trace' g q = total trace g q) (hreads : ∀ t, reads t → reads' t) :
    Follows rel reads' trace' l' g := by
  refine ⟨h.metered.congr hgauge htotal, fun m hm => ?_⟩
  refine (h.dated m (hgauge.symm.trans hm)).imp ?_ fun hzero q => ?_
  · rintro ⟨t, ht, hlabel⟩
    exact ⟨t, hreads t ht, hlabel⟩
  · rw [htotal]
    exact hzero q

theorem of_zero (hzero : ∀ q, total trace g q = 0)
    (hrel : ∀ m, l.gauge g = some m → rel 0 m.value) : Follows rel reads trace l g := by
  refine ⟨?_, fun _ _ => .inr hzero⟩
  cases hm : l.gauge g with
  | none => exact (metered_of_none hm).mpr hzero
  | some m => exact (metered_of_some hm).mpr (.of_zero hzero (hrel m hm))

end Follows

end Fareward.Limiter
