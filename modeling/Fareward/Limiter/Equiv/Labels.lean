import Fareward.Limiter.Equiv.Entitlement

/-!
# Periods and readings

The periods of the counters and the refill times of the buckets come from the readings of calls of
the company. So they are not past any time that no reading of the company is past (`Behind`,
`ReadBefore`), in every state a process reaches.
-/

namespace Fareward.Limiter

open Relation

variable {limits : ScopeLimits} {w w' : World} {action : FlushAction} {fates : Fates} {p : Process}

/-- The state was last refreshed at readings that are not later. -/
structure SubjectState.Behind (s : SubjectState) (t : Int) (now : ℕ) : Prop where
  hour : s.hourPeriod ≤ TimeFrame.hourOf t
  day : s.dayPeriod ≤ TimeFrame.dayOf t
  bucket : ∀ d, (s.bucket d).lastRefill ≤ now

/-- The budget was last refreshed at a reading that is not later. -/
structure CompanyBudgetState.Behind (b : CompanyBudgetState) (t : Int) : Prop where
  month : b.usageMonthStartDay ≤ TimeFrame.monthOf t
  day : b.extraDayPeriod ≤ TimeFrame.dayOf t

/-- All states of the company are. -/
structure RateLimiter.Behind (l : RateLimiter) (c t : Int) (now : ℕ) : Prop where
  subjects : ∀ u s, l.subjects.lookup (c, u) = some s → s.Behind t now
  budget : ∀ b, l.budgets.lookup c = some b → b.Behind t

/-- The event is not a reading of the company past `t` and `now`. -/
def Event.Before (c t : Int) (now : ℕ) : Event → Prop
  | .admission a => a.request.companyId = c → a.unixSeconds ≤ t ∧ a.now ≤ now
  | .mutation m t' _ => m.companyId = c → t' ≤ t
  | .prune _ _ => True

/-- No call of the company has read a later time. -/
def ReadBefore (trace : List Event) (c t : Int) (now : ℕ) : Prop :=
  ∀ event ∈ trace, event.Before c t now

instance (c t : Int) (now : ℕ) : DecidablePred (Event.Before c t now)
  | .admission a => inferInstanceAs (Decidable (a.request.companyId = c → _ ∧ _))
  | .mutation m _ _ => inferInstanceAs (Decidable (m.companyId = c → _ ≤ _))
  | .prune _ _ => .isTrue trivial

instance (trace : List Event) (c t : Int) (now : ℕ) : Decidable (ReadBefore trace c t now) :=
  inferInstanceAs (Decidable (∀ event ∈ trace, _))

theorem readBefore_cons {event : Event} {trace : List Event} {c t : Int} {now : ℕ} :
    ReadBefore (event :: trace) c t now ↔ event.Before c t now ∧ ReadBefore trace c t now :=
  List.forall_mem_cons

variable {config : Config} {store : LimiterStore} {r : Request} {c c' u t t' : Int} {now now' : ℕ}
  {l l' : RateLimiter} {s s' : SubjectState} {b b' : CompanyBudgetState}

theorem SubjectState.behind_refreshPeriods (ht : t' ≤ t) (hnow : now' ≤ now) :
    (s.refreshPeriods limits t' (TimeFrame.dayOf t') now').Behind t now :=
  ⟨TimeFrame.hourOf_mono ht, TimeFrame.dayOf_mono ht, fun d => by cases d <;> exact hnow⟩

theorem SubjectState.behind_recovered {hourUsed dayUsed : Credits} (ht : t' ≤ t)
    (hnow : now' ≤ now) :
    (SubjectState.recovered limits t' (TimeFrame.dayOf t') now' hourUsed dayUsed).Behind t now :=
  ⟨TimeFrame.hourOf_mono ht, TimeFrame.dayOf_mono ht, fun d => by cases d <;> exact hnow⟩

theorem SubjectState.Behind.grown (h : s.Behind t now) (hgrown : SubjectGrown s s') :
    s'.Behind t now := by
  refine ⟨?_, ?_, fun d => ?_⟩
  · rw [hgrown.hourPeriod]
    exact h.hour
  · rw [hgrown.dayPeriod]
    exact h.day
  · rw [hgrown.lastRefill d]
    exact h.bucket d

theorem TokenBucket.lastRefill_debited (bucket : TokenBucket) (amount : ℕ) :
    (bucket.debited amount).lastRefill = bucket.lastRefill := mk_lastRefill _ _

theorem SubjectState.Behind.setBuckets {cpu inference : TokenBucket} (h : s.Behind t now)
    (hcpu : cpu.lastRefill = s.cpuBucket.lastRefill)
    (hinference : inference.lastRefill = s.inferenceBucket.lastRefill)
    (hourUsed dayUsed : Credits) :
    (SubjectState.mk cpu inference s.hourPeriod s.dayPeriod hourUsed dayUsed).Behind t now := by
  refine ⟨h.hour, h.day, fun d => ?_⟩
  cases d with
  | cpu => exact hcpu.trans_le (h.bucket .cpu)
  | inference => exact hinference.trans_le (h.bucket .inference)

theorem SubjectState.Behind.charged (h : s.Behind t now) (requested : Credits)
    (countDaily : Bool) : (s.charged requested countDaily).Behind t now :=
  h.setBuckets (TokenBucket.lastRefill_debited _ _) (TokenBucket.lastRefill_debited _ _) _ _

namespace CompanyBudgetState

theorem Behind.refreshMonth (h : b.Behind t) (ht : t' ≤ t) :
    (b.refreshMonth (TimeFrame.monthOf t')).Behind t := by
  unfold CompanyBudgetState.refreshMonth
  split_ifs
  · exact ⟨TimeFrame.monthOf_mono ht, h.day⟩
  · exact h

theorem Behind.refreshDay (h : b.Behind t) (ht : t' ≤ t) :
    (b.refreshDay (TimeFrame.dayOf t')).Behind t := by
  unfold CompanyBudgetState.refreshDay
  split_ifs
  · exact ⟨h.month, TimeFrame.dayOf_mono ht⟩
  · exact h

theorem Behind.congr (h : b.Behind t) (hmonth : b'.usageMonthStartDay = b.usageMonthStartDay)
    (hday : b'.extraDayPeriod = b.extraDayPeriod) : b'.Behind t :=
  ⟨hmonth ▸ h.month, hday ▸ h.day⟩

theorem behind_recovered (h : RecoveredBudget store c t' b) (ht : t' ≤ t) : b.Behind t :=
  ⟨h.month.trans_le (TimeFrame.monthOf_mono ht), h.day.trans_le (TimeFrame.dayOf_mono ht)⟩

end CompanyBudgetState

theorem ReadBefore.of_flushes (h : ReadBefore w'.trace c t now)
    (hflush : Flushes config w action w') : ReadBefore w.trace c t now := by
  cases hflush with
  | pruneShard => exact (readBefore_cons.mp h).2
  | _ => exact h

namespace RateLimiter.Behind

theorem new : RateLimiter.new.Behind c t now where
  subjects u s hs := by cases (Finmap.lookup_empty (c, u)).symm.trans hs
  budget b hb := by cases (Finmap.lookup_empty c).symm.trans hb

theorem congr (h : l.Behind c t now) (hsubjects : l'.subjects = l.subjects)
    (hbudgets : l'.budgets = l.budgets) : l'.Behind c t now :=
  ⟨hsubjects ▸ h.subjects, hbudgets ▸ h.budget⟩

theorem setSubject {key : Int × Int} (h : l.Behind c t now)
    (hs : key.1 = c → s.Behind t now) : (l.setSubject key s).Behind c t now := by
  refine ⟨fun u s' hs' => ?_, h.budget⟩
  replace hs' : (l.subjects.insert key s).lookup (c, u) = some s' := hs'
  rw [lookup_insert_eq] at hs'
  split_ifs at hs' with hkey
  · obtain rfl := Option.some.inj hs'
    exact hs (hkey ▸ rfl)
  · exact h.subjects u s' hs'

theorem setBudget (h : l.Behind c t now) (hb : c' = c → b.Behind t) :
    (l.setBudget c' b).Behind c t now := by
  refine ⟨h.subjects, fun b' hb' => ?_⟩
  replace hb' : (l.budgets.insert c' b).lookup c = some b' := hb'
  rw [lookup_insert_eq] at hb'
  split_ifs at hb' with hc
  · obtain rfl := Option.some.inj hb'
    exact hb hc.symm
  · exact h.budget b' hb'

theorem markUsageFlushed (h : l.Behind c t now) (c' : Int) (version : ℕ) :
    (l.markUsageFlushed c' version).Behind c t now := by
  unfold RateLimiter.markUsageFlushed
  split
  · next b hb =>
    refine h.setBudget fun hc => ?_
    subst hc
    refine (h.budget b hb).congr ?_ ?_
    all_goals
      unfold CompanyBudgetState.markUsageFlushed
      split_ifs <;> rfl
  · exact h

/-- The moves of a call at the readings `t'` and `now'`. -/
theorem move (h : l.Behind c t now) (hbefore : c' = c → t' ≤ t ∧ now' ≤ now)
    (hmove : Move config store c' u t' now' l l') : l'.Behind c t now := by
  cases hmove with
  | access | usage | platform => exact h.congr rfl rfl
  | budget b _ hb => exact h.setBudget fun hc =>
      CompanyBudgetState.behind_recovered hb (hbefore hc).1
  | subject userId s _ _ hs =>
    refine h.setSubject fun hc => ?_
    rw [hs.eq]
    exact SubjectState.behind_recovered (hbefore hc).1 (hbefore hc).2
  | refreshSubject =>
    exact h.setSubject fun hc =>
      SubjectState.behind_refreshPeriods (hbefore hc).1 (hbefore hc).2
  | refreshMonth b hb =>
    refine h.setBudget fun hc => ?_
    subst hc
    exact (h.budget b hb).refreshMonth (hbefore rfl).1
  | refreshDay b hb =>
    refine h.setBudget fun hc => ?_
    subst hc
    exact (h.budget b hb).refreshDay (hbefore rfl).1

theorem moves (h : l.Behind c t now) (hbefore : c' = c → t' ≤ t ∧ now' ≤ now)
    (hpath : ReflTransGen (Move config store c' u t' now') l l') : l'.Behind c t now := by
  induction hpath with
  | refl => exact h
  | tail _ hmove ih => exact ih.move hbefore hmove

theorem debits (h : l.Behind c t now) (hpath : ReflTransGen (Debit r t') l l') :
    l'.Behind c t now := by
  induction hpath with
  | refl => exact h
  | tail _ hdebit ih =>
    cases hdebit with
    | usage | platform => exact ih.congr rfl rfl
    | subject userId s s' _ hs hgrown =>
      refine ih.setSubject fun hc => ?_
      subst hc
      exact (ih.subjects userId s hs).grown hgrown
    | budget b b' hb hgrown =>
      refine ih.setBudget fun hc => ?_
      subst hc
      exact (ih.budget b hb).congr hgrown.month hgrown.day

theorem charged {extra : ℕ} {company user : SubjectState} (h : l.Behind c t now)
    (hready : Ready config r t' now' extra l company user b)
    (hcharged : Charged r t' extra l l' company user b) : l'.Behind c t now := by
  have hsubject : ∀ {u s}, l.subjects.lookup (r.companyId, u) = some s →
      l'.subjects.lookup (r.companyId, u) = some (s.charged r.credits !decide (0 < extra)) →
      r.companyId = c → ∀ s', l'.subjects.lookup (r.companyId, u) = some s' →
      s'.Behind t now := by
    rintro u s hs hs' rfl s'' hs''
    obtain rfl := Option.some.inj (hs'.symm.trans hs'')
    exact (h.subjects u s hs).charged _ _
  refine ⟨fun u s hs => ?_, fun b' hb' => ?_⟩
  · by_cases hcompany : (c, u) = (r.companyId, companyAggregateUserId)
    · obtain ⟨rfl, rfl⟩ := Prod.mk.inj hcompany
      exact hsubject hready.companyAt hcharged.company rfl s hs
    by_cases huser : (c, u) = (r.companyId, r.userId)
    · obtain ⟨rfl, rfl⟩ := Prod.mk.inj huser
      exact hsubject hready.userAt hcharged.user rfl s hs
    · exact h.subjects u s ((hcharged.subjects _ hcompany huser).symm.trans hs)
  · by_cases hc : c = r.companyId
    · subst hc
      obtain rfl := Option.some.inj (hcharged.budget.symm.trans hb')
      refine (h.budget b hready.budgetAt).congr ?_ ?_
      all_goals
        unfold CompanyBudgetState.charged
        split_ifs <;> rfl
    · exact h.budget b' ((hcharged.budgets c hc).symm.trans hb')

theorem admits {outcome : Except Failure Admission} (h : p.limiter.Behind c t now)
    (hbefore : r.companyId = c → t' ≤ t ∧ now' ≤ now)
    (hadmits : Admits config fates r t' now' p outcome l') : l'.Behind c t now := by
  cases hadmits with
  | refused hpath => exact h.moves hbefore hpath
  | allowed hpath hready hcharged => exact (h.moves hbefore hpath).charged hready hcharged
  | overflowed hpath _ hdebit => exact (h.moves hbefore hpath).debits hdebit

theorem mutates {m : BudgetMutation} {p' : Process} {outcome : Except Failure BudgetMutationReply}
    (h : p.limiter.Behind c t now) (hbefore : m.companyId = c → t' ≤ t)
    (hmutates : Mutates fates m t' p outcome p') : p'.limiter.Behind c t now := by
  have hrefreshed : ∀ {b}, BudgetAt p.store p.limiter m.companyId t' b → m.companyId = c →
      (b.refreshMonth (TimeFrame.monthOf t')).Behind t := by
    rintro b hb rfl
    refine CompanyBudgetState.Behind.refreshMonth ?_ (hbefore rfl)
    rcases hb with hb | ⟨-, hb⟩
    · exact h.budget b hb
    · exact CompanyBudgetState.behind_recovered hb (hbefore rfl)
  cases hmutates with
  | unfound => exact h
  | refused hb | failed hb => exact h.setBudget (hrefreshed hb)
  | written hb => exact h.setBudget fun hc => (hrefreshed hb hc).congr rfl rfl

theorem flushes (h : w.process.limiter.Behind c t now) (hflush : Flushes config w action w') :
    w'.process.limiter.Behind c t now := by
  cases hflush with
  | write | budgetWrite =>
    dsimp only
    split_ifs <;> exact h
  | mark => exact h.congr (markFlushed_subjects _ _) (markFlushed_budgets _ _)
  | pruneShard | prunePlatform => exact h.congr rfl rfl
  | budgetMark => exact h.markUsageFlushed _ _
  | _ => exact h

end RateLimiter.Behind

/-- **No period is past the readings that made it.** -/
theorem behind_of_readBefore
    (h : Reaches (step config) (fun _ a => a.Parsed) (World.boot store) w) :
    ∀ c t now, ReadBefore w.trace c t now → w.process.limiter.Behind c t now := by
  refine h.invariant (I := fun w => ∀ c t now, ReadBefore w.trace c t now →
    w.process.limiter.Behind c t now) (fun _ _ _ _ => .new) ?_
  intro w a w' _ ih ha hs c t now hread
  cases step_spec ha hs with
  | admission _ hadmits hrecord =>
    obtain ⟨hevent, hread⟩ := readBefore_cons.mp hread
    refine (ih c t now hread).admits (fun hc => ?_) hadmits
    have hbefore := hevent (hrecord.request ▸ hc)
    rwa [hrecord.unixSeconds, hrecord.now] at hbefore
  | mutation _ hmutates =>
    obtain ⟨hevent, hread⟩ := readBefore_cons.mp hread
    exact (ih c t now hread).mutates hevent hmutates
  | invalidation =>
    exact (ih c t now hread).congr (invalidateAccess_subjects _ _ _)
      (invalidateAccess_budgets _ _ _)
  | flush hflush => exact (ih c t now (hread.of_flushes hflush)).flushes hflush
  | restart => exact .new

end Fareward.Limiter
