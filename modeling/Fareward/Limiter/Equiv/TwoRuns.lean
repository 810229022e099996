import Fareward.Limiter.Equiv.Refused

/-!
# A refused charge leaves no trace

Two runs are taken side by side from the states without and with a refused charge (`twinStep`): the
same calls and the same flushes of usage, and flushes of the budget rows in each run on its own,
since the periods of the budgets may differ. `Twins` says that the processes stay `Alike` and that
the calls have answered the same.
-/

namespace Fareward.Limiter

open Relation
open CompanyBudgetState (SameCounts)

variable {action a₁ a₂ : FlushAction} {p₁' p₂' p p₁ p₂ p' : Process} {record : UsageRecord}
  {scene : Scene} {config : Config} {fates : Fates} {r : Request} {c t : Int} {now : ℕ}
  {store : LimiterStore} {l l' : RateLimiter} {w w' w₁ w₂ w₁' w₂' : World}

/-! ### The two runs -/

/-- What a call answered, and when. -/
inductive Answer
  | admission (request : Request) (unixSeconds : Int) (now : ℕ) (outcome : Except Failure Admission)
  | mutation (mutation : BudgetMutation) (unixSeconds : Int)
      (outcome : Except Failure BudgetMutationReply)
  deriving DecidableEq

def Event.answer : Event → Option Answer
  | .admission a => some (.admission a.request a.unixSeconds a.now a.outcome)
  | .mutation m t outcome => some (.mutation m t outcome)
  | .prune _ _ => none

/-- The answers of a trace, newest first. -/
def answers (trace : List Event) : List Answer := trace.filterMap Event.answer

/-- A step of two runs: the same call in both, a step of the flush in both, or a step of the flush
in one of them. -/
inductive TwinAction
  | call (a : Action)
  | flush (left right : FlushAction)
  | left (a : FlushAction)
  | right (a : FlushAction)

def twinStep (config : Config) (w : World × World) : TwinAction → Option (World × World)
  | .call a => do return (← step config w.1 a, ← step config w.2 a)
  | .flush a₁ a₂ => do return (← flushStep config w.1 a₁, ← flushStep config w.2 a₂)
  | .left a => do return (← flushStep config w.1 a, w.2)
  | .right a => do return (w.1, ← flushStep config w.2 a)

/-- The steps of `flush_dirty_budget_usage`. -/
def FlushAction.ofBudget : FlushAction → Bool
  | .budget _ | .budgetCollect _ | .budgetWrite _ _ | .budgetMark => true
  | _ => false

/-- Where the flush stands from the end of the usage records on. -/
def FlushPhase.ofBudget : FlushPhase → Bool
  | .idle | .budget | .budgetCollect _ _ _ _ | .budgetWrite _ | .budgetMark _ _ _ => true
  | _ => false

/-- The dirty records in an order of iteration. -/
def UsageMap.dirty (records : UsageMap) (order : List UsageKey) : List UsageKey :=
  order.filter fun key => (records.lookup key).any (!·.isClean)

/-- What both runs do after the refused charge: calls that are later than it and work on subjects
that were resident, and flushes that visit the dirty records in the same order and to which the
store answers the same. What they do with the budget rows may differ. -/
def Later (scene : Scene) (w : World × World) : TwinAction → Prop
  | .call (.admission r t now _) => r.Parsed ∧ scene.Uses r ∧ scene.After r.companyId t now
  | .call (.mutation m t _) => m.Parsed ∧ (m.companyId = scene.c → scene.t ≤ t)
  | .call (.invalidation _ _) => True
  | .call (.flush _) | .call .restart => False
  | .flush (.collect order₁) (.collect order₂) =>
    w.1.process.limiter.usage.dirty order₁ = w.2.process.limiter.usage.dirty order₂
  | .flush (.collectPlatform order₁) (.collectPlatform order₂) =>
    w.1.process.limiter.platformUsage.dirty order₁ = w.2.process.limiter.platformUsage.dirty order₂
  | .flush a₁ a₂ => a₁ = a₂ ∧ a₁.ofBudget = false
  | .left a | .right a => a.ofBudget = true

/-! ### Budgets that are being flushed -/

/-- The budgets whose rows are to be written or marked are in memory. -/
def World.Holds (w : World) : Prop :=
  ∀ row ∈ w.flush.pendingBudgets, (w.process.limiter.budgets.lookup row.1.companyId).isSome

theorem isSome_setBudget {b : CompanyBudgetState} (c' : Int)
    (h : (l.budgets.lookup c).isSome) : ((l.setBudget c' b).budgets.lookup c).isSome := by
  show ((l.budgets.insert c' b).lookup c).isSome
  rw [lookup_insert_eq]
  split_ifs
  · rfl
  · exact h

theorem isSome_budget_of_moves {u : Int} (h : (l.budgets.lookup c).isSome)
    (hpath : ReflTransGen (Move config store r.companyId u t now) l l') :
    (l'.budgets.lookup c).isSome := by
  obtain ⟨b, hb⟩ := Option.isSome_iff_exists.mp h
  obtain ⟨b', hb', -⟩ := (Kept.of_moves hpath).budgets.kept c b hb
  exact Option.isSome_iff_exists.mpr ⟨b', hb'⟩

theorem isSome_budget_of_admits {outcome : Except Failure Admission}
    (h : (p.limiter.budgets.lookup c).isSome)
    (hadmits : Admits config fates r t now p outcome l') : (l'.budgets.lookup c).isSome := by
  cases hadmits with
  | refused hpath => exact isSome_budget_of_moves h hpath
  | allowed hpath _ hcharged =>
    have h := isSome_budget_of_moves h hpath
    by_cases hc : c = r.companyId
    · rw [hc, hcharged.budget]
      rfl
    · rwa [hcharged.budgets c hc]
  | overflowed hpath _ hdebit =>
    have h := isSome_budget_of_moves h hpath
    induction hdebit with
    | refl => exact h
    | tail _ hdebit ih =>
      cases hdebit with
      | usage | platform | subject => exact ih
      | budget => exact isSome_setBudget _ ih

theorem isSome_budget_of_mutates {m : BudgetMutation} {outcome : Except Failure BudgetMutationReply}
    (h : (p.limiter.budgets.lookup c).isSome) (hmutates : Mutates fates m t p outcome p') :
    (p'.limiter.budgets.lookup c).isSome := by
  cases hmutates with
  | unfound => exact h
  | refused | failed | written => exact isSome_setBudget _ h

theorem isSome_markUsageFlushed (c' : Int) (version : ℕ) (h : (l.budgets.lookup c).isSome) :
    ((l.markUsageFlushed c' version).budgets.lookup c).isSome := by
  unfold RateLimiter.markUsageFlushed
  split
  · exact isSome_setBudget _ h
  · exact h

theorem isSome_budget_of_flushes (h : (w.process.limiter.budgets.lookup c).isSome)
    (hflush : Flushes config w action w') : (w'.process.limiter.budgets.lookup c).isSome := by
  cases hflush with
  | write | budgetWrite =>
    dsimp only
    split_ifs <;> exact h
  | mark =>
    dsimp only
    rwa [markFlushed_budgets]
  | budgetMark => exact isSome_markUsageFlushed _ _ h
  | _ => exact h

namespace World.Holds

theorem congr (h : w.Holds) (hpending : w'.flush.pendingBudgets ⊆ w.flush.pendingBudgets)
    (hbudgets : ∀ c, (w.process.limiter.budgets.lookup c).isSome →
      (w'.process.limiter.budgets.lookup c).isSome) : w'.Holds :=
  fun row hrow => hbudgets _ (h row (hpending hrow))

theorem of_nil (h : w.flush.pendingBudgets = []) : w.Holds := by
  intro row hrow
  rw [h] at hrow
  cases hrow

theorem flushes (h : w.Holds) (hflush : Flushes config w action w') : w'.Holds := by
  intro row hrow
  refine isSome_budget_of_flushes ?_ hflush
  rcases pendingBudgets_flushes hflush row hrow with hrow | ⟨t, day, c, hrow⟩
  · exact h row hrow
  · obtain ⟨b, dayUsed, dayPeriod, updated, hb, -, rfl, -⟩ := budgetSnapshot_some hrow
    exact Option.isSome_iff_exists.mpr ⟨b, hb⟩

theorem steps {a : Action} (h : w.Holds) (hstep : Steps config w a w') : w'.Holds := by
  cases hstep with
  | admission _ hadmits =>
    exact h.congr (List.Subset.refl _) fun c hc => isSome_budget_of_admits hc hadmits
  | mutation _ hmutates =>
    exact h.congr (List.Subset.refl _) fun c hc => isSome_budget_of_mutates hc hmutates
  | invalidation =>
    refine h.congr (List.Subset.refl _) fun c hc => ?_
    rwa [invalidateAccess_budgets]
  | flush hflush => exact h.flushes hflush
  | restart => exact of_nil rfl

end World.Holds

/-! ### The budget rows -/

namespace CompanyBudgetState.SameCounts

variable {b₁ b₂ b₃ : CompanyBudgetState}

theorem symm (h : SameCounts b₁ b₂) : SameCounts b₂ b₁ := by
  obtain ⟨v, rfl⟩ := h
  exact ⟨b₁.flushedVersion, rfl⟩

theorem trans (h : SameCounts b₁ b₂) (h' : SameCounts b₂ b₃) : SameCounts b₁ b₃ := by
  obtain ⟨v, rfl⟩ := h
  obtain ⟨v', rfl⟩ := h'
  exact ⟨v', rfl⟩

theorem mark (b : CompanyBudgetState) (version : ℕ) :
    SameCounts b (b.markUsageFlushed version) := by
  unfold markUsageFlushed
  split_ifs
  · exact ⟨version, rfl⟩
  · exact .refl b

end CompanyBudgetState.SameCounts

theorem Scene.BudgetsAgree.of_sameCounts {b₁ b₂ b₁' b₂' : CompanyBudgetState}
    (h : scene.BudgetsAgree c b₁ b₂) (h₁ : SameCounts b₁' b₁) (h₂ : SameCounts b₂ b₂') :
    scene.BudgetsAgree c b₁' b₂' :=
  ⟨fun hc => (h₁.trans (h.1 hc)).trans h₂,
    ((BudgetAgrees.of_sameCounts h₁).trans h.2).trans (.of_sameCounts h₂)⟩

theorem optionRel_symm {α : Type} {rel : α → α → Prop} (hsymm : ∀ a b, rel a b → rel b a)
    {x y : Option α} (h : Option.Rel rel x y) : Option.Rel rel y x := by
  cases h with
  | none => exact .none
  | some h => exact .some (hsymm _ _ h)

theorem optionRel_comp {α : Type} {rel rel' rel'' : α → α → Prop} {x y z : Option α}
    (h : Option.Rel rel x y) (h' : Option.Rel rel' y z)
    (hcomp : ∀ a b c, rel a b → rel' b c → rel'' a c) : Option.Rel rel'' x z := by
  cases h with
  | none =>
    cases h'
    exact .none
  | some h =>
    cases h' with
    | some h' => exact .some (hcomp _ _ _ h h')

/-- The flush of a budget row changes no count. -/
theorem sameCounts_markUsageFlushed (l : RateLimiter) (c' : Int) (version : ℕ) (c : Int) :
    Option.Rel SameCounts (l.budgets.lookup c)
      ((l.markUsageFlushed c' version).budgets.lookup c) := by
  unfold RateLimiter.markUsageFlushed
  split
  · next b hb =>
    show Option.Rel _ _ ((l.budgets.insert c' (b.markUsageFlushed version)).lookup c)
    rw [lookup_insert_eq]
    split_ifs with hc
    · subst hc
      rw [hb]
      exact .some (.mark b version)
    · exact optionRel_refl .refl _
  · exact optionRel_refl .refl _

/-- The processes have the same counts and records, and the same rows where they can still be
read. -/
structure SameRows (p p' : Process) : Prop where
  budgets : ∀ c, Option.Rel SameCounts (p.limiter.budgets.lookup c) (p'.limiter.budgets.lookup c)
  limiter : p'.limiter = { p.limiter with budgets := p'.limiter.budgets }
  extras : ∀ c, p.limiter.budgets.lookup c = none →
    p'.store.budgetUsages c = p.store.budgetUsages c
  store : p'.store = { p.store with budgetUsages := p'.store.budgetUsages }

theorem SameRows.refl (p : Process) : SameRows p p :=
  ⟨fun _ => optionRel_refl .refl _, rfl, fun _ _ => rfl, rfl⟩

theorem ofBudget_afterBudgetWrites (snapshots : List (StoredBudgetUsage × ℕ)) :
    (FlushPhase.afterBudgetWrites snapshots).ofBudget = true := by
  cases snapshots <;> rfl

theorem sameRows_of_flushes (hw : w.Holds) (ha : action.ofBudget = true)
    (hflush : Flushes config w action w') : SameRows w.process w'.process := by
  cases hflush with
  | budget | noBudget | budgetCollect => exact .refl _
  | @budgetWrite usage version snapshots succeeds landed hphase =>
    dsimp only
    split_ifs
    · refine ⟨fun _ => optionRel_refl .refl _, rfl, fun c hc => ?_, rfl⟩
      refine Function.update_of_ne ?_ _ _
      rintro rfl
      have hsome := hw (usage, version) (by rw [hphase]; exact List.mem_cons_self)
      rw [hc] at hsome
      cases hsome
    · exact .refl _
  | budgetMark =>
    refine ⟨sameCounts_markUsageFlushed _ _ _, ?_, fun _ _ => rfl, rfl⟩
    dsimp only
    unfold RateLimiter.markUsageFlushed
    split <;> rfl
  | _ => cases ha

theorem ofBudget_of_flushes (ha : action.ofBudget = true) (hflush : Flushes config w action w') :
    w.flush.ofBudget = true ∧ w'.flush.ofBudget = true ∧ w'.trace = w.trace := by
  cases hflush with
  | budget hphase | noBudget hphase =>
    rw [hphase]
    exact ⟨rfl, rfl, rfl⟩
  | budgetCollect hphase | budgetWrite hphase =>
    rw [hphase]
    refine ⟨rfl, ?_, rfl⟩
    dsimp only
    split_ifs
    · rfl
    · exact ofBudget_afterBudgetWrites _
  | budgetMark hphase =>
    rw [hphase]
    exact ⟨rfl, ofBudget_afterBudgetWrites _, rfl⟩
  | _ => cases ha

theorem Alike.sameRows (h : Alike scene config p₁ p₂) (h₁ : SameRows p₁ p₁')
    (h₂ : SameRows p₂ p₂') : Alike scene config p₁' p₂' where
  access := by
    rw [h₁.limiter, h₂.limiter]
    exact h.access
  platform := by
    rw [h₁.limiter, h₂.limiter]
    exact h.platform
  subjects := by
    rw [h₁.limiter, h₂.limiter]
    exact h.subjects
  residents := by
    rw [h₁.limiter]
    exact h.residents
  budgets c := by
    have hback := optionRel_symm (fun _ _ => SameCounts.symm) (h₁.budgets c)
    have hleft : Option.Rel (scene.BudgetsAgree c) (p₁'.limiter.budgets.lookup c)
        (p₂.limiter.budgets.lookup c) := optionRel_comp hback (h.budgets c)
      fun _ _ _ hsame hagree => hagree.of_sameCounts hsame (.refl _)
    exact optionRel_comp hleft (h₂.budgets c)
      fun _ _ _ hagree hsame => hagree.of_sameCounts (.refl _) hsame
  budget := (isSome_of_optionRel (h₁.budgets scene.c)).symm.trans h.budget
  usage := by
    rw [h₁.limiter, h₂.limiter]
    exact h.usage
  loaded := by
    rw [h₁.limiter, h₂.limiter]
    exact h.loaded
  storedUsage := by
    rw [h₁.store, h₂.store]
    exact h.storedUsage
  storedBudgets := by
    rw [h₁.store, h₂.store]
    exact h.storedBudgets
  storedUsers := by
    rw [h₁.store, h₂.store]
    exact h.storedUsers
  storedExtras c hnone := by
    have hnone₁ : p₁.limiter.budgets.lookup c = none := by
      have hsome := isSome_of_optionRel (h₁.budgets c)
      rw [hnone] at hsome
      exact Option.isNone_iff_eq_none.mp (Option.isSome_eq_false_iff.mp hsome)
    have hnone₂ : p₂.limiter.budgets.lookup c = none := by
      have hsome := h.isSome_budget c
      rw [hnone₁] at hsome
      exact Option.isNone_iff_eq_none.mp (Option.isSome_eq_false_iff.mp hsome.symm)
    rw [h₁.extras c hnone₁, h₂.extras c hnone₂]
    exact h.storedExtras c hnone₁

/-! ### The usage records -/

theorem snapshot_of_clean (key : UsageKey) (h : record.isClean = true) :
    record.snapshot key = none := if_neg (not_not.mpr (of_decide_eq_true h))

/-- Only dirty records have a snapshot. -/
theorem filterMap_dirty (records : UsageMap) (order : List UsageKey) :
    (order.filterMap fun key => (records.lookup key).bind (·.snapshot key)) =
      (records.dirty order).filterMap fun key => (records.lookup key).bind (·.snapshot key) := by
  unfold UsageMap.dirty
  rw [List.filterMap_filter]
  congr 1
  funext key
  cases records.lookup key with
  | none => rfl
  | some record =>
    by_cases hclean : record.isClean = true
    · have hnone := snapshot_of_clean key hclean
      simp [hnone]
    · simp [hclean]

/-- Runs that visit the dirty records in the same order collect the same. -/
theorem snapshots_congr {records₁ records₂ : UsageMap} {order₁ order₂ : List UsageKey}
    (hdirty : records₁.dirty order₁ = records₂.dirty order₂)
    (hsame : ∀ key, records₁.lookup key = records₂.lookup key ∨ records₁.lookup key = none) :
    (order₁.filterMap fun key => (records₁.lookup key).bind (·.snapshot key)) =
      order₂.filterMap fun key => (records₂.lookup key).bind (·.snapshot key) := by
  rw [filterMap_dirty, filterMap_dirty records₂, ← hdirty]
  refine List.filterMap_congr fun key hkey => ?_
  have hany := (List.mem_filter.mp hkey).2
  rcases hsame key with hsame | hnone
  · rw [hsame]
  · rw [hnone] at hany
    cases hany

namespace Alike

theorem lookup_usage (h : Alike scene config p₁ p₂) (key : UsageKey) :
    p₁.limiter.usage.lookup key = p₂.limiter.usage.lookup key ∨
      p₁.limiter.usage.lookup key = none :=
  (h.loaded key).imp_right And.left

theorem upsert (h : Alike scene config p₁ p₂) (key : UsageKey) (bytes : List UInt8) :
    Alike scene config { p₁ with store := p₁.store.upsert key bytes }
      { p₂ with store := p₂.store.upsert key bytes } := by
  refine { h with storedUsage := ?_ }
  exact congrArg (Function.update · key (some bytes)) h.storedUsage

/-- A clean record that only the second run has is replaced by another one. -/
theorem replaceClean {key : UsageKey} (h : Alike scene config p₁ p₂)
    (hnone : p₁.limiter.usage.lookup key = none) (hsome : (p₂.limiter.usage.lookup key).isSome)
    (hclean : record.isClean = true) :
    Alike scene config p₁
      { p₂ with limiter := p₂.limiter.setUsage (p₂.limiter.usage.insert key record) } := by
  have hlookup : ∀ key', (p₂.limiter.usage.insert key record).lookup key' =
      if key' = key then some record else p₂.limiter.usage.lookup key' :=
    lookup_insert_eq _ _ _
  refine { h with usage := fun key' hused => ?_, loaded := fun key' => ?_ }
  · have hne : key' ≠ key := by
      rintro rfl
      rw [← h.usage key' hused, hnone] at hsome
      cases hsome
    exact (h.usage key' hused).trans ((hlookup key').trans (if_neg hne)).symm
  · by_cases heq : key' = key
    · subst heq
      exact .inr ⟨hnone, record, (hlookup key').trans (if_pos rfl), hclean⟩
    · have hloaded := h.loaded key'
      rw [← (hlookup key').trans (if_neg heq)] at hloaded
      exact hloaded

theorem markFlushed (h : Alike scene config p₁ p₂) (snapshot : UsageSnapshot) :
    Alike scene config { p₁ with limiter := p₁.limiter.markFlushed snapshot }
      { p₂ with limiter := p₂.limiter.markFlushed snapshot } := by
  unfold RateLimiter.markFlushed
  split_ifs with hplatform
  · rw [← h.platform]
    cases p₁.limiter.platformUsage.lookup snapshot.key with
    | none => exact h
    | some => exact h.setPlatformUsage _
  · rcases h.loaded snapshot.key with hsame | ⟨hnone, record, hrecord, hclean⟩
    · rw [← hsame]
      cases p₁.limiter.usage.lookup snapshot.key with
      | none => exact h
      | some => exact h.insertUsage _ _
    · rw [hnone, hrecord]
      refine h.replaceClean hnone (Option.isSome_iff_exists.mpr ⟨record, hrecord⟩) ?_
      unfold UsageRecord.markFlushed
      split_ifs with hversion
      · exact decide_eq_true hversion
      · exact hclean

theorem pruneShard (h : Alike scene config p₁ p₂) (fiveMinute day : Int) (shard : ℕ) :
    Alike scene config { p₁ with limiter := p₁.limiter.pruneShard config fiveMinute day shard }
      { p₂ with limiter := p₂.limiter.pruneShard config fiveMinute day shard } := by
  unfold RateLimiter.pruneShard
  refine { h with usage := fun key hused => ?_, loaded := fun key => ?_ }
  · show (retain _ p₁.limiter.usage).lookup key = (retain _ p₂.limiter.usage).lookup key
    rw [lookup_retain, lookup_retain, h.usage key hused]
  · show (retain _ p₁.limiter.usage).lookup key = (retain _ p₂.limiter.usage).lookup key ∨
      (retain _ p₁.limiter.usage).lookup key = none ∧
        ∃ record, (retain _ p₂.limiter.usage).lookup key = some record ∧ record.isClean = true
    rw [lookup_retain, lookup_retain]
    rcases h.loaded key with hsame | ⟨hnone, record, hrecord, hclean⟩
    · rw [hsame]
      exact .inl rfl
    · rw [hnone, hrecord, Option.filter_none, Option.filter_some]
      split_ifs
      · exact .inr ⟨rfl, record, rfl, hclean⟩
      · exact .inl rfl

theorem prunePlatform (h : Alike scene config p₁ p₂) (fiveMinute : Int) :
    Alike scene config { p₁ with limiter := p₁.limiter.prunePlatform fiveMinute }
      { p₂ with limiter := p₂.limiter.prunePlatform fiveMinute } := by
  unfold RateLimiter.prunePlatform
  rw [← h.platform]
  exact h.setPlatformUsage _

theorem invalidate (h : Alike scene config p₁ p₂) (c u : Int) :
    Alike scene config { p₁ with limiter := invalidateAccess p₁.limiter c u }
      { p₂ with limiter := invalidateAccess p₂.limiter c u } := by
  unfold invalidateAccess
  rw [← h.access]
  split_ifs
  all_goals exact { h with access := rfl }

end Alike

/-! ### The runs stay alike -/

/-- Two runs from the traces that `past₁` and `past₂` are the answers of. -/
structure Twins (scene : Scene) (config : Config) (past₁ past₂ : List Answer) (w : World × World) :
    Prop where
  alike : Alike scene config w.1.process w.2.process
  phase : w.1.flush = w.2.flush ∨ w.1.flush.ofBudget = true ∧ w.2.flush.ofBudget = true
  holds₁ : w.1.Holds
  holds₂ : w.2.Holds
  later : ∃ later, answers w.1.trace = later ++ past₁ ∧ answers w.2.trace = later ++ past₂

theorem answers_cons (event : Event) (trace : List Event) :
    answers (event :: trace) = event.answer.toList ++ answers trace := by
  cases event <;> rfl

/-- A flush answers nobody. -/
theorem answers_of_flushes (hflush : Flushes config w action w') :
    answers w'.trace = answers w.trace := by
  cases hflush <;> rfl

theorem Later.flush_cases {w : World × World} (h : Later scene w (.flush a₁ a₂)) :
    (∃ order₁ order₂, a₁ = .collect order₁ ∧ a₂ = .collect order₂ ∧
      w.1.process.limiter.usage.dirty order₁ = w.2.process.limiter.usage.dirty order₂) ∨
    (∃ order₁ order₂, a₁ = .collectPlatform order₁ ∧ a₂ = .collectPlatform order₂ ∧
      w.1.process.limiter.platformUsage.dirty order₁ =
        w.2.process.limiter.platformUsage.dirty order₂) ∨
    a₁ = a₂ ∧ a₁.ofBudget = false ∧ ∀ order, a₁ ≠ .collect order ∧ a₁ ≠ .collectPlatform order := by
  cases a₁ with
  | collect order₁ =>
    cases a₂ with
    | collect order₂ => exact .inl ⟨order₁, order₂, rfl, rfl, h⟩
    | _ => cases h.1
  | collectPlatform order₁ =>
    cases a₂ with
    | collectPlatform order₂ => exact .inr (.inl ⟨order₁, order₂, rfl, rfl, h⟩)
    | _ => cases h.1
  | _ => exact .inr (.inr ⟨h.1, h.2, fun _ => ⟨nofun, nofun⟩⟩)

namespace Twins

variable {past₁ past₂ : List Answer}

theorem ofBudget_eq (h : Twins scene config past₁ past₂ (w₁, w₂)) :
    w₁.flush.ofBudget = w₂.flush.ofBudget := by
  rcases h.phase with heq | ⟨hbudget₁, hbudget₂⟩
  · exact congrArg FlushPhase.ofBudget heq
  · exact hbudget₁.trans hbudget₂.symm

theorem phase_eq (h : Twins scene config past₁ past₂ (w₁, w₂)) {phase : FlushPhase}
    (hphase : w₁.flush = phase) (hnot : phase.ofBudget = false) : w₂.flush = phase := by
  rcases h.phase with heq | ⟨hbudget, -⟩
  · exact heq.symm.trans hphase
  · rw [hphase, hnot] at hbudget
    cases hbudget

theorem call {event₁ event₂ : Event} (h : Twins scene config past₁ past₂ (w₁, w₂))
    (halike : Alike scene config p₁' p₂') (hanswer : event₁.answer = event₂.answer)
    (hholds₁ : World.Holds ⟨p₁', w₁.flush, event₁ :: w₁.trace⟩)
    (hholds₂ : World.Holds ⟨p₂', w₂.flush, event₂ :: w₂.trace⟩) :
    Twins scene config past₁ past₂
      (⟨p₁', w₁.flush, event₁ :: w₁.trace⟩, ⟨p₂', w₂.flush, event₂ :: w₂.trace⟩) := by
  obtain ⟨later, hlater₁, hlater₂⟩ := h.later
  refine ⟨halike, h.phase, hholds₁, hholds₂, event₁.answer.toList ++ later, ?_, ?_⟩
  · rw [answers_cons, hlater₁, List.append_assoc]
  · rw [answers_cons, hlater₂, hanswer, List.append_assoc]

/-- Steps of the flush in one or both runs. -/
theorem flushed (h : Twins scene config past₁ past₂ (w₁, w₂))
    (halike : Alike scene config w₁'.process w₂'.process)
    (hphase : w₁'.flush = w₂'.flush ∨ w₁'.flush.ofBudget = true ∧ w₂'.flush.ofBudget = true)
    (hholds₁ : w₁'.Holds) (hholds₂ : w₂'.Holds) (htrace₁ : answers w₁'.trace = answers w₁.trace)
    (htrace₂ : answers w₂'.trace = answers w₂.trace) :
    Twins scene config past₁ past₂ (w₁', w₂') := by
  obtain ⟨later, hlater₁, hlater₂⟩ := h.later
  exact ⟨halike, hphase, hholds₁, hholds₂, later, htrace₁.trans hlater₁, htrace₂.trans hlater₂⟩

theorem flush (h : Twins scene config past₁ past₂ (w₁, w₂))
    (ha : Later scene (w₁, w₂) (.flush a₁ a₂)) (h₁ : Flushes config w₁ a₁ w₁')
    (h₂ : Flushes config w₂ a₂ w₂') : Twins scene config past₁ past₂ (w₁', w₂') := by
  suffices hboth : Alike scene config w₁'.process w₂'.process ∧ w₁'.flush = w₂'.flush from
    h.flushed hboth.1 (.inl hboth.2) (h.holds₁.flushes h₁) (h.holds₂.flushes h₂)
      (answers_of_flushes h₁) (answers_of_flushes h₂)
  rcases ha.flush_cases with ⟨order₁, order₂, rfl, rfl, hdirty⟩ |
    ⟨order₁, order₂, rfl, rfl, hdirty⟩ | ⟨rfl, hbudget, hcollect⟩
  · cases h₁ with
    | collect hphase₁ =>
      cases h₂ with
      | collect hphase₂ =>
        obtain ⟨rfl, rfl⟩ := FlushPhase.collect.inj (hphase₂.symm.trans (h.phase_eq hphase₁ rfl))
        refine ⟨h.alike, ?_⟩
        dsimp only
        rw [snapshots_congr hdirty h.alike.lookup_usage]
  · cases h₁ with
    | collectPlatform hphase₁ =>
      cases h₂ with
      | collectPlatform hphase₂ =>
        obtain rfl := FlushPhase.collectPlatform.inj (hphase₂.symm.trans (h.phase_eq hphase₁ rfl))
        refine ⟨h.alike, ?_⟩
        dsimp only
        rw [snapshots_congr hdirty fun key => .inl (by rw [h.alike.platform])]
  · cases h₁ with
    | start =>
      cases h₂ with
      | start => exact ⟨h.alike, rfl⟩
    | unencodable hphase₁ hencode₁ =>
      cases h₂ with
      | unencodable hphase₂ =>
        obtain ⟨rfl, rfl⟩ := List.cons.inj
          (FlushPhase.write.inj (hphase₂.symm.trans (h.phase_eq hphase₁ rfl)))
        exact ⟨h.alike, rfl⟩
      | write hphase₂ hencode₂ =>
        obtain ⟨rfl, rfl⟩ := List.cons.inj
          (FlushPhase.write.inj (hphase₂.symm.trans (h.phase_eq hphase₁ rfl)))
        rw [hencode₁] at hencode₂
        cases hencode₂
    | write hphase₁ hencode₁ =>
      cases h₂ with
      | unencodable hphase₂ hencode₂ =>
        obtain ⟨rfl, rfl⟩ := List.cons.inj
          (FlushPhase.write.inj (hphase₂.symm.trans (h.phase_eq hphase₁ rfl)))
        rw [hencode₁] at hencode₂
        cases hencode₂
      | write hphase₂ hencode₂ =>
        obtain ⟨rfl, rfl⟩ := List.cons.inj
          (FlushPhase.write.inj (hphase₂.symm.trans (h.phase_eq hphase₁ rfl)))
        obtain rfl := Except.ok.inj (hencode₁.symm.trans hencode₂)
        refine ⟨?_, rfl⟩
        dsimp only
        split_ifs
        · exact h.alike.upsert _ _
        · exact h.alike
    | mark hphase₁ =>
      cases h₂ with
      | mark hphase₂ =>
        obtain ⟨rfl, rfl⟩ := FlushPhase.mark.inj (hphase₂.symm.trans (h.phase_eq hphase₁ rfl))
        exact ⟨h.alike.markFlushed _, rfl⟩
    | prune hphase₁ hframe hdaily =>
      cases h₂ with
      | prune => exact ⟨h.alike, rfl⟩
      | noPrune _ hclock => exact absurd hdaily (hclock _ rfl hframe)
    | noPrune hphase₁ hclock =>
      cases h₂ with
      | prune _ hframe hdaily => exact absurd hdaily (hclock _ rfl hframe)
      | noPrune => exact ⟨h.alike, rfl⟩
    | pruneShard hphase₁ =>
      cases h₂ with
      | pruneShard hphase₂ =>
        obtain ⟨rfl, rfl, rfl, rfl⟩ :=
          FlushPhase.pruneShard.inj (hphase₂.symm.trans (h.phase_eq hphase₁ rfl))
        exact ⟨h.alike.pruneShard _ _ _, rfl⟩
    | prunePlatform hphase₁ =>
      cases h₂ with
      | prunePlatform hphase₂ =>
        obtain rfl := FlushPhase.prunePlatform.inj (hphase₂.symm.trans (h.phase_eq hphase₁ rfl))
        exact ⟨h.alike.prunePlatform _, rfl⟩
    | collect => exact absurd rfl (hcollect _).1
    | collectPlatform => exact absurd rfl (hcollect _).2
    | _ => cases hbudget

theorem step {a : TwinAction} {w w' : World × World} (h : Twins scene config past₁ past₂ w)
    (ha : Later scene w a) (hs : twinStep config w a = some w') :
    Twins scene config past₁ past₂ w' := by
  obtain ⟨w₁, w₂⟩ := w
  cases a with
  | call a =>
    obtain ⟨w₁', hs₁, hs⟩ := Option.bind_eq_some_iff.mp hs
    obtain ⟨w₂', hs₂, hs⟩ := Option.bind_eq_some_iff.mp hs
    cases hs
    cases a with
    | admission r t now fates =>
      obtain ⟨hr, huses, hafter⟩ := ha
      have hholds₁ := h.holds₁.steps (step_spec (a := .admission r t now fates) hr hs₁)
      have hholds₂ := h.holds₂.steps (step_spec (a := .admission r t now fates) hr hs₂)
      cases hs₁
      cases hs₂
      have hsim : Op.sim (admitAt config fates r t now) (admitAt config fates r t now) w₁.process
          w₂.process fun _ => Alike scene config := admitAt_sim h.alike huses hafter hr.user_ne
      exact h.call hsim.2 (congrArg (some ∘ Answer.admission r t now) hsim.1) hholds₁ hholds₂
    | mutation m t fates =>
      obtain ⟨hm, hafter⟩ := ha
      have hholds₁ := h.holds₁.steps (step_spec (a := .mutation m t fates) hm hs₁)
      have hholds₂ := h.holds₂.steps (step_spec (a := .mutation m t fates) hm hs₂)
      cases hs₁
      cases hs₂
      have hsim : Op.sim (mutateBudgetAt fates m t) (mutateBudgetAt fates m t) w₁.process
          w₂.process fun _ => Alike scene config := mutateBudgetAt_sim h.alike hafter
      exact h.call hsim.2 (congrArg (some ∘ Answer.mutation m t) hsim.1) hholds₁ hholds₂
    | invalidation c u =>
      have hholds₁ := h.holds₁.steps (step_spec (a := .invalidation c u) trivial hs₁)
      have hholds₂ := h.holds₂.steps (step_spec (a := .invalidation c u) trivial hs₂)
      cases hs₁
      cases hs₂
      exact h.flushed (h.alike.invalidate c u) h.phase hholds₁ hholds₂ rfl rfl
    | flush | restart => exact ha.elim
  | flush =>
    obtain ⟨w₁', hs₁, hs⟩ := Option.bind_eq_some_iff.mp hs
    obtain ⟨w₂', hs₂, hs⟩ := Option.bind_eq_some_iff.mp hs
    cases hs
    exact h.flush ha (flushStep_spec hs₁) (flushStep_spec hs₂)
  | left =>
    obtain ⟨w₁', hs₁, hs⟩ := Option.bind_eq_some_iff.mp hs
    cases hs
    have hflush := flushStep_spec hs₁
    obtain ⟨hbefore, hafter, htrace⟩ := ofBudget_of_flushes ha hflush
    have halike := h.alike.sameRows (sameRows_of_flushes h.holds₁ ha hflush) (.refl _)
    exact h.flushed halike (.inr ⟨hafter, h.ofBudget_eq.symm.trans hbefore⟩)
      (h.holds₁.flushes hflush) h.holds₂ (by rw [htrace]) rfl
  | right =>
    obtain ⟨w₂', hs₂, hs⟩ := Option.bind_eq_some_iff.mp hs
    cases hs
    have hflush := flushStep_spec hs₂
    obtain ⟨hbefore, hafter, htrace⟩ := ofBudget_of_flushes ha hflush
    have halike := h.alike.sameRows (.refl _) (sameRows_of_flushes h.holds₂ ha hflush)
    exact h.flushed halike (.inr ⟨h.ofBudget_eq.trans hbefore, hafter⟩) h.holds₁
      (h.holds₂.flushes hflush) rfl (by rw [htrace])

end Twins

/-- **A refused charge leaves no trace.** In any state of a run, let a charge that asks for no
access be refused with a credit violation, at readings that no call of its company was past, its
budget being in memory. Two runs that go on from the states without and with it, with the same
later calls on subjects that were resident, have the same answers but for the refused one. -/
theorem refused_charge_leaves_no_trace {w₀ : World} {violation : LimitViolation} {extra : ℕ}
    {w : World × World} (hrun : Reaches (step config) (fun _ a => a.Parsed) (World.boot store) w₀)
    (hbefore : ReadBefore w₀.trace r.companyId t now)
    (hbudget : (w₀.process.limiter.budgets.lookup r.companyId).isSome)
    (hr : r.Parsed) (hplain : r.requestsAuthorization = false)
    (hrefused : ((admitAt config fates r t now).exec w₀.process).1 =
      .ok ⟨.creditViolation violation, extra⟩)
    (hlater : Reaches (twinStep config) (Later (w₀.process.sceneOf r.companyId t now))
      (w₀, admissionStep config w₀ r t now fates) w) :
    ∃ later, answers w.1.trace = later ++ answers w₀.trace ∧
      answers w.2.trace = later ++ .admission r t now (.ok ⟨.creditViolation violation, extra⟩) ::
        answers w₀.trace := by
  have hholds : w₀.Holds := by
    refine hrun.invariant (I := World.Holds) (.of_nil rfl) ?_
    exact fun w a w' _ h ha hs => h.steps (step_spec ha hs)
  have hbehind := behind_of_readBefore hrun _ _ _ hbefore
  have hsteps : Steps config w₀ (.admission r t now fates)
      (admissionStep config w₀ r t now fates) := step_spec hr rfl
  have hexec : (admitAt config fates r t now).exec w₀.process =
      (.ok ⟨.creditViolation violation, extra⟩,
        ((admitAt config fates r t now).exec w₀.process).2) := Prod.ext hrefused rfl
  have hanswers : answers (admissionStep config w₀ r t now fates).trace =
      .admission r t now ((admitAt config fates r t now).exec w₀.process).1 :: answers w₀.trace :=
    rfl
  rw [hrefused] at hanswers
  have htwins : Twins (w₀.process.sceneOf r.companyId t now) config (answers w₀.trace)
      (.admission r t now (.ok ⟨.creditViolation violation, extra⟩) :: answers w₀.trace)
      (w₀, admissionStep config w₀ r t now fates) :=
    ⟨alike_of_refused hr hplain hbehind hbudget hexec, .inl rfl, hholds, hholds.steps hsteps, [],
      rfl, hanswers⟩
  exact (hlater.invariant htwins fun w a w' _ h ha hs => h.step ha hs).later

/-- A charge that only the pool could pay is refused; a grant and, the hour after, a charge that the
pool may pay are answered as without it. -/
theorem refused_charge_leaves_no_trace_pool :
    ∃ (w₀ : World) (w : World × World) (later : List Answer),
      Reaches (step sampleConfig) (fun _ a => a.Parsed) (World.boot .empty) w₀ ∧
      (answers w.1.trace).length = 3 ∧ answers w.1.trace = later ++ answers w₀.trace ∧
      answers w.2.trace = later ++ .admission { sampleRequest with extraCreditsAllowed := false }
        1800000005 5 (.ok ⟨.creditViolation ⟨.company, .day, true, false⟩, 0⟩) ::
          answers w₀.trace := by
  let done : Fates := fun _ => .done
  let refused : Request := { sampleRequest with extraCreditsAllowed := false }
  have hrun : ((runList (step sampleConfig) (fun _ a => a.Parsed) (World.boot .empty)
      [.admission sampleRequest 1800000000 0 fun _ => .done]).map fun w =>
        ((decide (ReadBefore w.trace 7 1800000005 5) &&
          (w.process.limiter.budgets.lookup 7).isSome &&
          (w.process.sceneOf 7 1800000005 5).resident companyAggregateUserId &&
          (w.process.sceneOf 7 1800000005 5).resident 42), (answers w.trace).length,
          ((admitAt sampleConfig done refused 1800000005 5).exec w.process).1)) =
      some (true, 1, .ok ⟨.creditViolation ⟨.company, .day, true, false⟩, 0⟩) := by decide +kernel
  obtain ⟨w₀, hw₀, hfacts⟩ := Option.map_eq_some_iff.mp hrun
  obtain ⟨hfacts, hlength, hrefused⟩ := by simpa only [Prod.mk.injEq] using hfacts
  obtain ⟨⟨⟨hbefore, hbudget⟩, hcompany⟩, huser⟩ := by simpa only [Bool.and_eq_true] using hfacts
  let scene := w₀.process.sceneOf 7 1800000005 5
  let charged (w : World) : World := admissionStep sampleConfig w sampleRequest 1800003600 3600 done
  let w₀' := admissionStep sampleConfig w₀ refused 1800000005 5 done
  let w₁ := mutationStep w₀ grant 1800000005 done
  let w₁' := mutationStep w₀' grant 1800000005 done
  have hgrant : Reaches (twinStep sampleConfig) (Later scene) (w₀, w₀') (w₁, w₁') :=
    .tail (a := .call (.mutation grant 1800000005 done)) .refl ⟨by decide, fun _ => le_rfl⟩ rfl
  have hafter : scene.After 7 1800003600 3600 :=
    fun _ => (by decide : (1800000005 : Int) ≤ 1800003600 ∧ (5 : ℕ) ≤ 3600)
  have hcharge : Reaches (twinStep sampleConfig) (Later scene) (w₀, w₀')
      (charged w₁, charged w₁') :=
    .tail (a := .call (.admission sampleRequest 1800003600 3600 done)) hgrant
      ⟨sampleRequest_parsed, ⟨.inr hcompany, .inr huser⟩, hafter⟩ rfl
  obtain ⟨later, hlater₁, hlater₂⟩ := refused_charge_leaves_no_trace (.of_runList hw₀)
    (of_decide_eq_true hbefore) hbudget ⟨⟨7, 42, 3, 25, 0, false, 0, 0, 0, 0⟩, rfl⟩ rfl hrefused
    hcharge
  have hthree : (answers (charged w₁).trace).length = (answers w₀.trace).length + 2 := rfl
  exact ⟨w₀, (charged w₁, charged w₁'), later, .of_runList hw₀, by rw [hthree, hlength], hlater₁,
    hlater₂⟩

end Fareward.Limiter
