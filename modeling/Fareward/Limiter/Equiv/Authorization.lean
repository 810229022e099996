import Fareward.Limiter.Authorization
import Fareward.Limiter.Equiv.Violation

/-!
# Which grants a verdict is computed from

A cached entry is `Backed` by the history: the row it was made from is one that was read at the
entry's `loadedAt`, and no invalidation since covers its key. An admission puts such an entry in the
cache and an invalidation takes out all it covers, so the entry an admission finds fresh, or has
just read, is backed (`verdict_fresh`).
-/

namespace Fareward.Limiter

variable {config : Config} {fates : Fates} {r : Request} {t : Int} {now : ℕ}

/-! ### Frames -/

/-- What authorization depends on. -/
def Process.grants (p : Process) :
    (Finmap fun _ : Int × Int => UserAccessState) × (Int × Int → Option StoredUserAccess) :=
  (p.limiter.access, p.store.users)

theorem untouched_grants : Untouched Process.grants :=
  ⟨fun _ _ _ => rfl, fun _ _ _ => rfl, fun _ _ => rfl⟩

theorem keeps_ensurePlatformUsage : (ensurePlatformUsage fates t).Keeps Process.grants := by
  refine .bind (.lift _) fun key => .bind .get fun p => ?_
  split_ifs
  · exact .pure _
  · exact .bind (.lift _) fun _ => .bind (.lift _) fun _ => Op.Keeps.modify fun _ => rfl

theorem keeps_incrementRecord {key : UsageKey} {route : ℕ} {credits : Credits} :
    (incrementRecord key route credits).Keeps Process.grants :=
  .bind .get fun _ => .bind (Op.Keeps.modify fun _ => rfl) fun _ => .lift _

theorem keeps_incrementRecords {route : ℕ} {credits : Credits} :
    ∀ keys : List UsageKey, (incrementRecords route credits keys).Keeps Process.grants
  | [] => .pure _
  | _ :: keys => .bind keeps_incrementRecord fun _ => keeps_incrementRecords keys

theorem keeps_commit {extraCpu : ℕ} : (commit r t extraCpu).Keeps Process.grants := by
  refine .bind (keeps_onSubject untouched_grants) fun _ => ?_
  refine .bind (keeps_onSubject untouched_grants) fun _ => ?_
  refine .bind (keeps_onBudget untouched_grants) fun _ => .bind ?_ fun _ => ?_
  · exact .bind (.lift _) fun _ => .bind (.lift _) fun _ => keeps_incrementRecords _
  · refine .bind (.lift _) fun key => .bind .get fun p => .bind (.lift _) fun record => ?_
    exact .bind (Op.Keeps.modify fun _ => rfl) fun _ => .lift _

theorem keeps_writeBudget {stored : StoredBudget} :
    (writeBudget fates stored).Keeps Process.grants := by
  have hwrite : Op.Keeps (modify fun p => { p with store := p.store.upsertBudget stored } :
      Call PUnit) Process.grants := .modify fun _ => rfl
  unfold writeBudget
  cases fates .budgetWrite with
  | done => exact hwrite
  | failed landed | cancelled landed =>
    cases landed with
    | true => exact .bind hwrite fun _ => .throw _
    | false => exact .throw _

theorem keeps_mutateBudgetAt {m : BudgetMutation} :
    (mutateBudgetAt fates m t).Keeps Process.grants := by
  refine .bind (.lift _) fun _ => .bind (keeps_ensureBudget untouched_grants) fun _ => ?_
  refine .bind (.lift _) fun _ => ?_
  refine .bind (keeps_onBudget untouched_grants) fun _ => .bind .get fun p => ?_
  refine .bind (.lift _) fun budget => ?_
  split
  · exact .pure _
  · refine .bind (.lift _) fun _ => .bind keeps_writeBudget fun _ => ?_
    exact .bind (keeps_onBudget untouched_grants) fun _ => .pure _

/-! ### The verdict -/

/-- Every end of an admission at its verdict: `cached` when it does not come to a row. -/
inductive Authorizes (config : Config) (fates : Fates) (r : Request) (t : Int) (p : Process) :
    Except Failure (Except AccessDenial AccessVerdict) → Process → Prop
  | cached {res : Except Failure (Except AccessDenial AccessVerdict)}
      (hreads : readsAccess config fates r t p.limiter = false)
      (hverdict : r.requestsAuthorization = true → ∀ verdict, res = .ok verdict → ∃ state,
        p.limiter.access.lookup r.accessKey = some state ∧
        state.isFresh t config.accessCacheSeconds = true ∧
        verdict = state.verdict r.requiredAccess) : Authorizes config fates r t p res p
  | corrupt {e : Failure} (hreads : readsAccess config fates r t p.limiter = true) :
      Authorizes config fates r t p (.error e) p
  | loaded {state : UserAccessState} (hreads : readsAccess config fates r t p.limiter = true)
      (hstate : UserAccessState.fromRow (p.store.users r.accessKey) t = .ok state) :
      Authorizes config fates r t p (.ok (state.verdict r.requiredAccess))
        { p with limiter := p.limiter.setAccess r.accessKey state }

/-- `readsAccess` of a request that asks for authorization and gets the lock. -/
theorem readsAccess_eq (hrequests : r.requestsAuthorization = true)
    (hlock : fates.lock .shard = .ok ()) (l : RateLimiter) :
    readsAccess config fates r t l = (!(l.access.lookup r.accessKey).any
      (·.isFresh t config.accessCacheSeconds) && decide (fates .userAccess = .done)) := by
  unfold readsAccess
  rw [hrequests, hlock]
  rfl

theorem authorizeAt_authorizes (p : Process) :
    (authorizeAt config fates r t).wp p (Authorizes config fates r t p) := by
  refine Op.wp_lift_bind (fun e hlock => ?_) fun _ hlock => ?_
  · refine .cached ?_ fun _ verdict hres => by cases hres
    unfold readsAccess
    rw [hlock]
    simp [Except.toBool]
  unfold authorize
  split_ifs with hrequests
  · have hreads : readsAccess config fates r t p.limiter = _ :=
      readsAccess_eq hrequests hlock p.limiter
    apply Op.wp_bind
    unfold ensureAccess
    apply Op.wp_get_bind
    dsimp only
    split_ifs with hfresh
    · obtain ⟨state, hstate, hfresh⟩ := (Option.any_eq_true _ _).mp hfresh
      refine Op.wp_pure (Op.wp_get_bind ?_)
      rw [hstate]
      refine .cached ?_ fun _ verdict hres => ⟨state, hstate, hfresh, ?_⟩
      · rw [hreads, show p.limiter.access.lookup r.accessKey = some state from hstate,
          Option.any_some, hfresh]
        rfl
      · exact (Except.ok.inj hres).symm
    · have hstale : (p.limiter.access.lookup r.accessKey).any
          (·.isFresh t config.accessCacheSeconds) = false := Bool.eq_false_iff.mpr hfresh
      rw [hstale, Bool.not_false, Bool.true_and] at hreads
      refine Op.wp_lift_bind (fun e he => ?_) fun _ hread => ?_
      · refine .cached ?_ fun _ verdict hres => by cases hres
        rw [hreads, decide_eq_false_iff_not]
        intro hdone
        unfold Fates.read at he
        rw [hdone] at he
        cases he
      · have hdone : fates .userAccess = .done := by
          unfold Fates.read at hread
          split at hread
          · assumption
          all_goals cases hread
        have hreads := hreads.trans (decide_eq_true hdone)
        refine Op.wp_lift_bind (fun e _ => .corrupt hreads) fun state hstate => ?_
        have hstate : UserAccessState.fromRow (p.store.users r.accessKey) t = .ok state :=
          mapError_ok hstate
        refine wp_modifyLimiter (Op.wp_get_bind ?_)
        have hlookup : (p.limiter.setAccess r.accessKey state).access.lookup r.accessKey =
            some state := Finmap.lookup_insert _
        refine Op.wp_lift_bind (fun e he => ?_) fun state' hstate' => ?_
        · cases (congrArg (expectSome _) hlookup).symm.trans he
        · obtain rfl := Except.ok.inj ((congrArg (expectSome _) hlookup).symm.trans hstate')
          exact .loaded hreads hstate
  · refine .cached ?_ fun h => absurd h hrequests
    unfold readsAccess
    simp [hrequests]

/-- What becomes of the verdict in the part of `admit_at` before the first debit. -/
theorem beforeDebit_authorizes (p : Process) :
    (beforeDebit config fates r t now).wp p fun res p' =>
      p'.grants = ((authorizeAt config fates r t).exec p).2.grants ∧
      match res with
      | .ok (.error (.accessDenied denial)) =>
        ((authorizeAt config fates r t).exec p).1 = .ok (.error denial)
      | .ok (.ok (verdict, _)) => ((authorizeAt config fates r t).exec p).1 = .ok (.ok verdict)
      | .ok (.error (.allowed _)) => False
      | _ => True := by
  refine Op.wp_lift_bind (fun e hlock => ?_) fun _ hlock => ?_
  · have heq : (authorizeAt config fates r t).exec p = (.error e, p) := by
      unfold authorizeAt
      rw [Op.exec_bind, hlock]
      rfl
    rw [heq]
    exact ⟨rfl, trivial⟩
  have heq : (authorizeAt config fates r t).exec p = (authorize config fates r t).exec p := by
    unfold authorizeAt
    rw [Op.exec_bind, hlock]
    rfl
  rw [heq]
  refine Op.wp_call (Op.wp_exec _ _) (fun e p₁ hexec => ?_) fun verdict p₁ hexec => ?_
  · rw [hexec]
    exact ⟨rfl, trivial⟩
  rw [hexec]
  cases verdict with
  | error => exact ⟨rfl, rfl⟩
  | ok =>
    refine Op.wp_call (keeps_loadStates untouched_grants p₁) (fun _ _ h => ⟨h, trivial⟩)
      fun _ p₂ h₂ => ?_
    refine Op.wp_call (keeps_refreshStates untouched_grants p₂) (fun _ _ h => ⟨h.trans h₂, trivial⟩)
      fun _ p₃ h₃ => ?_
    refine Op.wp_call (keeps_judge Process.grants p₃)
      (fun _ _ h => ⟨h.trans (h₃.trans h₂), trivial⟩) fun judged p₄ h₄ => ?_
    have h₄ := h₄.trans (h₃.trans h₂)
    cases judged with
    | error => exact ⟨h₄, trivial⟩
    | ok =>
      refine Op.wp_lift_bind (fun _ _ => ⟨h₄, trivial⟩) fun _ _ => ?_
      refine Op.wp_call (keeps_ensurePlatformUsage p₄) (fun _ _ h => ⟨h.trans h₄, trivial⟩)
        fun _ p₅ h₅ => ?_
      exact ⟨h₅.trans h₄, rfl⟩

/-- An admission leaves the cache as its authorization has left it, and its decision carries the
verdict. -/
theorem admitAt_authorizes (p : Process) :
    (admitAt config fates r t now).wp p fun outcome p' =>
      p'.grants = ((authorizeAt config fates r t).exec p).2.grants ∧
      (∀ denial extra, outcome = .ok ⟨.accessDenied denial, extra⟩ →
        ((authorizeAt config fates r t).exec p).1 = .ok (.error denial)) ∧
      ∀ verdict extra, outcome = .ok ⟨.allowed verdict, extra⟩ →
        ((authorizeAt config fates r t).exec p).1 = .ok (.ok verdict) := by
  refine Op.wp_call (beforeDebit_authorizes p) (fun e p' h => ⟨h.1, nofun, nofun⟩) ?_
  rintro (decision | ⟨verdict, extraCpu⟩) p₁ ⟨hgrants, hverdict⟩
  · refine ⟨hgrants, fun denial extra h => ?_, fun verdict extra h => ?_⟩
    · cases h
      exact hverdict
    · cases h
      exact hverdict.elim
  · refine Op.wp_call (keeps_commit p₁) (fun e p' h => ⟨h.trans hgrants, nofun, nofun⟩)
      fun _ p₂ h₂ => ⟨h₂.trans hgrants, fun denial extra h => ?_, fun verdict' extra h => ?_⟩
    · cases h
    · cases h
      exact hverdict

/-! ### The cache and the history -/

/-- A cached entry was made from a row that was read at its `loadedAt`, and no invalidation since
covers its key. -/
def Backed (history : List AccessEvent) (key : Int × Int) (state : UserAccessState) : Prop :=
  ∃ between before row, history = between ++ .read key row state.loadedAt :: before ∧
    (∀ c u, .invalidated c u ∈ between → covers c u key = false) ∧
    UserAccessState.fromRow row state.loadedAt = .ok state

variable {history : List AccessEvent} {event : AccessEvent} {key : Int × Int}
  {row : Option StoredUserAccess} {state : UserAccessState}

theorem Backed.cons (h : Backed history key state)
    (hevent : ∀ c u, event = .invalidated c u → covers c u key = false) :
    Backed (event :: history) key state := by
  obtain ⟨between, before, row, rfl, hbetween, hstate⟩ := h
  refine ⟨event :: between, before, row, rfl, fun c u hmem => ?_, hstate⟩
  rcases List.mem_cons.mp hmem with heq | hmem
  · exact hevent c u heq.symm
  · exact hbetween c u hmem

theorem fromRow_loadedAt (h : UserAccessState.fromRow row t = .ok state) : state.loadedAt = t := by
  unfold UserAccessState.fromRow at h
  cases row with
  | none => exact (Except.ok.inj h) ▸ rfl
  | some =>
    obtain ⟨_, -, h⟩ := bind_eq_ok.mp h
    obtain ⟨_, -, h⟩ := bind_eq_ok.mp h
    exact (Except.ok.inj h) ▸ rfl

theorem Backed.read (h : UserAccessState.fromRow row t = .ok state) :
    Backed (.read key row t :: history) key state := by
  obtain rfl := fromRow_loadedAt h
  exact ⟨[], history, row, rfl, fun _ _ hmem => absurd hmem List.not_mem_nil, h⟩

/-- The verdict at the reading is that of an entry the history backs, and which is not out of
date. -/
def Current (config : Config) (history : List AccessEvent) (r : Request) (t : Int)
    (verdict : Except AccessDenial AccessVerdict) : Prop :=
  ∃ state, Backed history r.accessKey state ∧ t - max config.accessCacheSeconds 0 ≤ state.loadedAt ∧
    state.loadedAt ≤ t ∧ verdict = state.verdict r.requiredAccess

/-- The cache and the users table agree with the history. -/
structure Authentic (config : Config) (users : Int × Int → Option StoredUserAccess)
    (access : Finmap fun _ : Int × Int => UserAccessState)
    (stored : Int × Int → Option StoredUserAccess) (history : List AccessEvent) : Prop where
  cached : ∀ key state, access.lookup key = some state → Backed history key state
  stored : ∀ key, stored key = AccessWorld.storedRow users key history
  reads : ∀ key row t before, (.read key row t :: before) <:+ history →
    row = AccessWorld.storedRow users key before
  verdicts : ∀ r t verdict before, (.verdict r t verdict :: before) <:+ history →
    Current config before r t verdict

variable {users stored stored' : Int × Int → Option StoredUserAccess}
  {access access' : Finmap fun _ : Int × Int => UserAccessState}

theorem Authentic.cons (h : Authentic config users access stored history)
    (hcached : ∀ key state, access'.lookup key = some state → Backed (event :: history) key state)
    (hstored : ∀ key, stored' key = AccessWorld.storedRow users key (event :: history))
    (hread : ∀ key row t, event = .read key row t → row = AccessWorld.storedRow users key history)
    (hverdict : ∀ r t verdict, event = .verdict r t verdict → Current config history r t verdict) :
    Authentic config users access' stored' (event :: history) := by
  refine ⟨hcached, hstored, fun key row t before hsuffix => ?_,
    fun r t verdict before hsuffix => ?_⟩
  · rcases List.suffix_cons_iff.mp hsuffix with heq | hsuffix
    · obtain ⟨rfl, rfl⟩ := List.cons.inj heq
      exact hread key row t rfl
    · exact h.reads key row t before hsuffix
  · rcases List.suffix_cons_iff.mp hsuffix with heq | hsuffix
    · obtain ⟨rfl, rfl⟩ := List.cons.inj heq
      exact hverdict r t verdict rfl
    · exact h.verdicts r t verdict before hsuffix

theorem Authentic.verdict {verdict : Except AccessDenial AccessVerdict}
    (h : Authentic config users access stored history)
    (hverdict : Current config history r t verdict) :
    Authentic config users access stored (.verdict r t verdict :: history) := by
  refine h.cons (fun key state hkey => (h.cached key state hkey).cons nofun) h.stored nofun ?_
  rintro _ _ _ heq
  cases heq
  exact hverdict

theorem Authentic.read (h : Authentic config users access stored history)
    (hcached : ∀ state, access'.lookup key = some state → access.lookup key = some state ∨
      UserAccessState.fromRow (stored key) t = .ok state)
    (hothers : ∀ key', key' ≠ key → access'.lookup key' = access.lookup key') :
    Authentic config users access' stored (.read key (stored key) t :: history) := by
  refine h.cons (fun key' state hkey => ?_) h.stored ?_ nofun
  · by_cases hne : key' = key
    · subst hne
      rcases hcached state hkey with hkey | hstate
      · exact (h.cached _ state hkey).cons nofun
      · exact .read hstate
    · rw [hothers key' hne] at hkey
      exact (h.cached key' state hkey).cons nofun
  · rintro _ _ _ heq
    cases heq
    exact h.stored key

theorem lookup_invalidateAccess (l : RateLimiter) (c u : Int) (key : Int × Int) :
    (invalidateAccess l c u).access.lookup key =
      if covers c u key then none else l.access.lookup key := by
  unfold invalidateAccess covers
  split_ifs with hu hcovers hcovers
  · simp only [decide_eq_true_eq] at hcovers
    rw [lookup_retain]
    simp [hcovers.1]
  · simp only [decide_eq_true_eq, hu, true_or, and_true] at hcovers
    rw [lookup_retain]
    cases l.access.lookup key with
    | none => rfl
    | some => simp [Option.filter, hcovers]
  · simp only [decide_eq_true_eq, hu, false_or] at hcovers
    obtain rfl : key = (c, u) := Prod.ext hcovers.1 hcovers.2
    exact Finmap.lookup_erase _ _
  · simp only [decide_eq_true_eq, hu, false_or] at hcovers
    refine Finmap.lookup_erase_ne fun heq => hcovers ?_
    rw [heq]
    exact ⟨rfl, rfl⟩

theorem Authentic.invalidated {c u : Int}
    (h : Authentic config users access stored history)
    (hcached : ∀ key, access'.lookup key = if covers c u key then none else access.lookup key) :
    Authentic config users access' stored (.invalidated c u :: history) := by
  refine h.cons (fun key state hkey => ?_) h.stored nofun nofun
  rw [hcached] at hkey
  split_ifs at hkey with hcovers
  refine (h.cached key state hkey).cons ?_
  rintro _ _ heq
  cases heq
  exact Bool.eq_false_iff.mpr hcovers

/-- A row is read that does not pass its checks. -/
theorem Authentic.readOnly (h : Authentic config users access stored history) (key : Int × Int)
    (t : Int) : Authentic config users access stored (.read key (stored key) t :: history) :=
  h.read (fun _ hstate => .inl hstate) fun _ _ => rfl

theorem Authentic.load (h : Authentic config users access stored history)
    (hstate : UserAccessState.fromRow (stored key) t = .ok state) :
    Authentic config users (access.insert key state) stored
      (.read key (stored key) t :: history) := by
  refine h.read (fun state' hkey => .inr ?_) fun key' hne => Finmap.lookup_insert_of_ne _ hne
  obtain rfl := Option.some.inj ((Finmap.lookup_insert _).symm.trans hkey)
  exact hstate

theorem Current.of_isFresh (h : Backed history r.accessKey state)
    (hfresh : state.isFresh t config.accessCacheSeconds = true) :
    Current config history r t (state.verdict r.requiredAccess) := by
  unfold UserAccessState.isFresh at hfresh
  simp only [decide_eq_true_eq] at hfresh
  have := le_max_left config.accessCacheSeconds 0
  exact ⟨state, h, by omega, hfresh.1, rfl⟩

theorem Current.of_read (hstate : UserAccessState.fromRow row t = .ok state) :
    Current config (.read r.accessKey row t :: history) r t (state.verdict r.requiredAccess) := by
  have hloadedAt := fromRow_loadedAt hstate
  have := le_max_right config.accessCacheSeconds 0
  exact ⟨state, .read hstate, by omega, hloadedAt.le, rfl⟩

theorem Authentic.authorizeAt (p : Process)
    (h : Authentic config users p.limiter.access p.store.users history) :
    (authorizeAt config fates r t).wp p fun _ p' => Authentic config users p'.limiter.access
      p'.store.users (accessEvents config fates r t p ++ history) := by
  have hends : (Limiter.authorizeAt config fates r t).wp p (Authorizes config fates r t p) :=
    authorizeAt_authorizes p
  unfold Op.wp at hends ⊢
  unfold accessEvents
  cases hexec : (Limiter.authorizeAt config fates r t).exec p with
  | mk =>
    rw [hexec] at hends
    dsimp only at hends ⊢
    cases hends with
    | cached hreads hverdict =>
      rw [if_neg (Bool.eq_false_iff.mp hreads), List.append_nil]
      split
      · next verdict hrequests =>
        obtain ⟨state, hstate, hfresh, rfl⟩ := hverdict hrequests verdict rfl
        exact h.verdict (.of_isFresh (h.cached _ state hstate) hfresh)
      · exact h
    | corrupt hreads =>
      rw [if_pos hreads]
      split
      · next hres => cases hres
      · exact h.readOnly r.accessKey t
    | loaded hreads hstate =>
      rw [if_pos hreads]
      split
      · next hres =>
        obtain rfl := Except.ok.inj hres
        exact (h.load hstate).verdict (.of_read hstate)
      · exact h.load hstate

/-! ### The machine -/

theorem markFlushed_access (l : RateLimiter) (snapshot : UsageSnapshot) :
    (l.markFlushed snapshot).access = l.access := by
  unfold RateLimiter.markFlushed
  split
  all_goals
    split
    all_goals rfl

theorem markUsageFlushed_access (l : RateLimiter) (companyId : Int) (version : ℕ) :
    (l.markUsageFlushed companyId version).access = l.access := by
  unfold RateLimiter.markUsageFlushed
  split
  all_goals rfl

theorem flushStep_grants {w w' : World} {action : FlushAction}
    (hs : flushStep config w action = some w') : w'.process.grants = w.process.grants := by
  cases flushStep_spec hs with
  | start | collect | collectPlatform | unencodable | prune | noPrune | pruneShard
  | prunePlatform | budget | noBudget | budgetCollect => rfl
  | write | budgetWrite =>
    dsimp only
    split_ifs
    all_goals rfl
  | mark => exact congrArg (·, w.process.store.users) (markFlushed_access _ _)
  | budgetMark => exact congrArg (·, w.process.store.users) (markUsageFlushed_access _ _ _)

namespace AccessWorld

/-- The cache and the users table of a world agree with its history. -/
def Inv (config : Config) (users : Int × Int → Option StoredUserAccess) (w : AccessWorld) : Prop :=
  Authentic config users w.world.process.limiter.access w.world.process.store.users w.history

variable {w w' : AccessWorld} {action : Action}

theorem Inv.boot (store : LimiterStore) : Inv config store.users (boot store) where
  cached key state hkey := by cases (Finmap.lookup_empty key).symm.trans hkey
  stored _ := rfl
  reads _ _ _ _ hsuffix := absurd (List.eq_nil_of_suffix_nil hsuffix) nofun
  verdicts _ _ _ _ hsuffix := absurd (List.eq_nil_of_suffix_nil hsuffix) nofun

/-- The history says as much of a state that depends on the same. -/
theorem Inv.congr {p : Process} (h : Inv config users w)
    (hgrants : p.grants = w.world.process.grants) :
    Authentic config users p.limiter.access p.store.users w.history := by
  obtain ⟨haccess, husers⟩ := Prod.mk.inj hgrants
  rw [haccess, husers]
  exact h

theorem Inv.admission (h : Inv config users w) :
    Inv config users ⟨admissionStep config w.world r t now fates,
      accessEvents config fates r t w.world.process ++ w.history⟩ := by
  have hadmits : (admitAt config fates r t now).wp w.world.process _ := admitAt_authorizes _
  have hauthentic : (authorizeAt config fates r t).wp w.world.process _ := h.authorizeAt _
  obtain ⟨haccess, husers⟩ := Prod.mk.inj hadmits.1
  show Authentic config users ((admitAt config fates r t now).exec w.world.process).2.limiter.access
    ((admitAt config fates r t now).exec w.world.process).2.store.users _
  rw [haccess, husers]
  exact hauthentic

theorem Inv.step (h : Inv config users w) (hs : step config w action = some w') :
    Inv config users w' := by
  cases action with
  | change key row =>
    cases hs
    refine h.cons (fun key' state hkey => (h.cached key' state hkey).cons nofun) (fun key' => ?_)
      nofun nofun
    show Function.update w.world.process.store.users key row key' = if key' = key then row else _
    rw [Function.update_apply, h.stored key']
  | limiter action =>
    obtain ⟨world, hworld, rfl⟩ := Option.map_eq_some_iff.mp hs
    cases action with
    | admission =>
      cases hworld
      exact h.admission
    | mutation =>
      cases hworld
      exact h.congr (keeps_mutateBudgetAt w.world.process)
    | invalidation c u =>
      cases hworld
      exact h.invalidated (lookup_invalidateAccess _ c u)
    | flush => exact h.congr (flushStep_grants hworld)
    | restart =>
      cases hworld
      refine ⟨fun key state hkey => ?_, h.stored, h.reads, h.verdicts⟩
      cases (Finmap.lookup_empty key).symm.trans hkey

/-- The decision of an admission that asks for authorization carries the verdict in the history. -/
theorem step_admission_verdict (hrequests : r.requestsAuthorization = true)
    (hs : step config w (.limiter (.admission r t now fates)) = some w') {extra : ℕ} :
    (∀ denial, ((admitAt config fates r t now).exec w.world.process).1 =
        .ok ⟨.accessDenied denial, extra⟩ →
      w'.history.head? = some (.verdict r t (.error denial))) ∧
    ∀ verdict, ((admitAt config fates r t now).exec w.world.process).1 =
        .ok ⟨.allowed verdict, extra⟩ →
      w'.history.head? = some (.verdict r t (.ok verdict)) := by
  cases hs
  have hadmits : (admitAt config fates r t now).wp w.world.process _ := admitAt_authorizes _
  refine ⟨fun denial houtcome => ?_, fun verdict houtcome => ?_⟩
  · unfold events accessEvents
    dsimp only
    rw [hrequests, hadmits.2.1 denial extra houtcome]
    rfl
  · unfold events accessEvents
    dsimp only
    rw [hrequests, hadmits.2.2 verdict extra houtcome]
    rfl

/-- **Verdicts are fresh.** In every run, every verdict is that of a row, or of its absence, which
was in the users table when an admission read it; the reading of that admission is at most the
lifetime of an entry before that of the verdict, and not after it; and no invalidation that covers
the user came between. The decision an admission answers carries its verdict, and an invalidation
leaves the grants it does not cover. -/
theorem verdict_fresh {store : LimiterStore}
    (hreach : Reaches (step config) (fun _ _ => True) (boot store) w) :
    (∀ r t verdict before, (.verdict r t verdict :: before) <:+ w.history →
      ∃ between earlier row loadedAt state,
        before = between ++ .read r.accessKey row loadedAt :: earlier ∧
        row = storedRow store.users r.accessKey earlier ∧
        (∀ c u, .invalidated c u ∈ between → covers c u r.accessKey = false) ∧
        t - max config.accessCacheSeconds 0 ≤ loadedAt ∧ loadedAt ≤ t ∧
        UserAccessState.fromRow row loadedAt = .ok state ∧
        verdict = state.verdict r.requiredAccess) ∧
    (∀ r t now fates w', r.requestsAuthorization = true →
      step config w (.limiter (.admission r t now fates)) = some w' → ∀ extra,
      (∀ denial, ((admitAt config fates r t now).exec w.world.process).1 =
          .ok ⟨.accessDenied denial, extra⟩ →
        w'.history.head? = some (.verdict r t (.error denial))) ∧
      ∀ verdict, ((admitAt config fates r t now).exec w.world.process).1 =
          .ok ⟨.allowed verdict, extra⟩ →
        w'.history.head? = some (.verdict r t (.ok verdict))) ∧
    ∀ c u w', step config w (.limiter (.invalidation c u)) = some w' →
      ∀ key, covers c u key = false →
        w'.world.process.limiter.access.lookup key = w.world.process.limiter.access.lookup key := by
  have hinv : Inv config store.users w := by
    refine hreach.invariant (.boot store) ?_
    rintro w action w' - hw - hs
    exact hw.step hs
  refine ⟨fun r t verdict before hsuffix => ?_,
    fun r t now fates w' hrequests hs extra => step_admission_verdict hrequests hs,
    fun c u w' hs key hcovers => ?_⟩
  · obtain ⟨state, ⟨between, earlier, row, rfl, hbetween, hstate⟩, hlower, hupper, hverdict⟩ :=
      hinv.verdicts r t verdict before hsuffix
    have hread : (.read r.accessKey row state.loadedAt :: earlier) <:+ w.history :=
      (List.suffix_append between _).trans ((List.suffix_cons _ _).trans hsuffix)
    exact ⟨between, earlier, row, state.loadedAt, state, rfl, hinv.reads _ _ _ _ hread, hbetween,
      hlower, hupper, hstate, hverdict⟩
  · cases hs
    exact (lookup_invalidateAccess _ c u key).trans (by rw [hcovers]; rfl)

/-- User 42 is authorized, deleted and asks again, before and after an invalidation. -/
def deletedUser : List Action :=
  [.limiter (.admission authorizeOnly 1800000000 0 fun _ => .done), .change (7, 42) none,
    .limiter (.admission authorizeOnly 1800000030 0 fun _ => .done),
    .limiter (.invalidation 7 0),
    .limiter (.admission authorizeOnly 1800000040 0 fun _ => .done)]

theorem verdict_fresh_deletedUser : ∃ w,
    Reaches (step sampleConfig) (fun _ _ => True) (boot grantedStore) w ∧
    w.history = [.verdict authorizeOnly 1800000040 (.error .unknownUser),
      .read (7, 42) none 1800000040, .invalidated 7 0,
      .verdict authorizeOnly 1800000030 (.ok ⟨1, 0, []⟩), .changed (7, 42) none,
      .verdict authorizeOnly 1800000000 (.ok ⟨1, 0, []⟩),
      .read (7, 42) (some ⟨[0, 5], [], 1⟩) 1800000000] ∧
    ∃ between earlier row loadedAt state,
      w.history.tail = between ++ .read authorizeOnly.accessKey row loadedAt :: earlier ∧
      row = storedRow grantedStore.users authorizeOnly.accessKey earlier ∧
      (∀ c u, .invalidated c u ∈ between → covers c u authorizeOnly.accessKey = false) ∧
      1800000040 - max sampleConfig.accessCacheSeconds 0 ≤ loadedAt ∧ loadedAt ≤ 1800000040 ∧
      UserAccessState.fromRow row loadedAt = .ok state ∧
      .error .unknownUser = state.verdict authorizeOnly.requiredAccess := by
  refine exists_and_of_runList deletedUser (by decide +kernel) fun w hreach hhistory => ?_
  refine (verdict_fresh hreach).1 _ _ _ _ ?_
  rw [hhistory]
  exact List.suffix_rfl

end AccessWorld

end Fareward.Limiter
