import Fareward.Limiter.Equiv.Records

/-!
# What an admission does to the usage records

Before its first debit an admission only brings records in, as they are stored (`Move.record_eq`).
Then it raises the records of five keys one after the other, and stops where a `u64` overflows: so
each of them has been raised at most once, also when the admission fails (`Raised`).

`UsageSteps` says what a step of the machine can do to the records, the rows and the pass.
-/

namespace Fareward.Limiter

open Relation

variable {config : Config} {store : LimiterStore} {r : Request} {c u t : Int} {now : ℕ}
  {l l₁ l' : RateLimiter} {w w' : World} {a : Action} {key : UsageKey} {keys keys' : List UsageKey}
  {snapshots : List UsageSnapshot} {fates : Fates}

/-! ### Loads -/

theorem Move.record_eq (hc : c ≠ platformAggregateCompanyId)
    (hmove : Move config store c u t now l l') :
    l'.record = l.record ∨ ∃ key, l.record key = none ∧
      l'.record = Function.update l.record key (some (.loaded (store.routes key))) := by
  cases hmove with
  | usage key hkey _ hnone =>
    have hkey : key.companyId ≠ platformAggregateCompanyId := hkey ▸ hc
    exact .inr ⟨key, (record_of_usage hkey).trans hnone, record_setUsage hkey _⟩
  | platform key hkey hnone =>
    have hkey : key.companyId = platformAggregateCompanyId := by rw [hkey]
    exact .inr ⟨key, (record_of_platform hkey).trans hnone, record_setPlatformUsage hkey _⟩
  | _ => exact .inl (record_congr rfl rfl)

/-- The record under a key, or the empty one that a charge starts from. -/
def RateLimiter.recordAt (l : RateLimiter) (key : UsageKey) : UsageRecord :=
  (l.record key).getD (.loaded ∅)

/-- The keys of the five records of a charge. -/
def chargedKeys (r : Request) (t : Int) : List UsageKey := chargeKeys r t ++ [platformKeyOf t]

/-- Some of the records under the keys have been raised, each at most once. -/
def Raised (r : Request) (keys : List UsageKey) (l l' : RateLimiter) : Prop :=
  ∀ key, l'.record key = l.record key ∨
    key ∈ keys ∧ l'.record key = some ((l.recordAt key).increment r.routeId r.credits).2

namespace Raised

theorem of_eq (h : l'.record = l.record) : Raised r keys l l' := fun key => .inl (congrFun h key)

theorem mono (hsub : keys ⊆ keys') (h : Raised r keys l l') : Raised r keys' l l' :=
  fun key => (h key).imp_right fun ⟨hmem, hraised⟩ => ⟨hsub hmem, hraised⟩

theorem of_left (hsame : l₁.record = l.record) (h : Raised r keys l₁ l') : Raised r keys l l' := by
  intro key
  have := h key
  unfold RateLimiter.recordAt at this
  rwa [hsame] at this

theorem single (h : l'.record = Function.update l.record key
    (some ((l.recordAt key).increment r.routeId r.credits).2)) : Raised r [key] l l' := by
  intro j
  rw [h]
  by_cases hj : j = key
  · subst hj
    exact .inr ⟨List.mem_singleton_self j, Function.update_self _ _ _⟩
  · exact .inl (Function.update_of_ne hj _ _)

theorem trans (hdisjoint : keys.Disjoint keys') (h : Raised r keys l l₁)
    (h' : Raised r keys' l₁ l') : Raised r (keys ++ keys') l l' := by
  intro key
  rcases h' key with hsame' | ⟨hmem', hraised'⟩
  · rw [hsame']
    exact (h key).imp_right fun ⟨hmem, hraised⟩ => ⟨List.mem_append_left _ hmem, hraised⟩
  · -- the first part of the charge has left this record alone
    have hsame := (h key).resolve_right fun ⟨hmem, _⟩ => hdisjoint hmem hmem'
    refine .inr ⟨List.mem_append_right _ hmem', ?_⟩
    rw [hraised']
    unfold RateLimiter.recordAt
    rw [hsame]

end Raised

theorem recordAt_of_usage (h : key.companyId ≠ platformAggregateCompanyId) :
    l.usage.recordAt key = l.recordAt key := by
  unfold UsageMap.recordAt RateLimiter.recordAt
  rw [record_of_usage h]

theorem incrementRecords_raised :
    ∀ {keys : List UsageKey} {l : RateLimiter}, keys.Nodup →
      (∀ key ∈ keys, key.companyId ≠ platformAggregateCompanyId) →
      (incrementRecords r.routeId r.credits keys).wp ⟨l, store⟩
        fun _ p' => Raised r keys l p'.limiter
  | [], l, _, _ => .of_eq rfl
  | key :: keys, l, hnodup, hcompany => by
    obtain ⟨hkey, hnodup⟩ := List.nodup_cons.mp hnodup
    obtain ⟨hhead, hcompany⟩ := List.forall_mem_cons.mp hcompany
    apply Op.wp_bind
    apply wp_incrementRecord
    have hfirst : Raised r [key] l (l.setUsage (l.usage.insert key
        ((l.usage.recordAt key).increment r.routeId r.credits).2)) := by
      refine .single ?_
      rw [record_setUsage hhead, recordAt_of_usage hhead]
    have hdisjoint : [key].Disjoint keys := List.singleton_disjoint.mpr hkey
    cases ((l.usage.recordAt key).increment r.routeId r.credits).1.mapError Failure.overflow with
    | error => exact hfirst.trans hdisjoint (.of_eq rfl)
    | ok =>
      apply Op.wp_mono (incrementRecords_raised hnodup hcompany)
      intro _ p' hrest
      exact hfirst.trans hdisjoint hrest

theorem incrementPlatformUsage_raised (p : Process) :
    (incrementPlatformUsage r t).wp p
      fun _ p' => Raised r [platformKeyOf t] p.limiter p'.limiter := by
  unfold incrementPlatformUsage platformUsageKey
  refine Op.wp_lift_bind (fun e _ => .of_eq rfl) fun key hkey => ?_
  obtain ⟨f, hf, hkey⟩ := bind_eq_ok.mp hkey
  obtain ⟨rfl, -, -⟩ := TimeFrame.fiveMinute_ok (frameResult_ok hf)
  obtain rfl : platformKeyOf t = key := by injection hkey
  apply Op.wp_get_bind
  refine Op.wp_lift_bind (fun e _ => .of_eq rfl) fun record hrecord => ?_
  have hrecord : p.limiter.record (platformKeyOf t) = some record := by
    rw [record_of_platform (company_platformKeyOf t)]
    cases hlookup : p.limiter.platformUsage.lookup (platformKeyOf t) with
    | none =>
      rw [hlookup] at hrecord
      cases hrecord
    | some =>
      rw [hlookup] at hrecord
      rw [Except.ok.inj hrecord]
  refine wp_modifyLimiter_bind (Op.wp_lift (.single ?_))
  rw [record_setPlatformUsage (company_platformKeyOf t), RateLimiter.recordAt, hrecord]
  rfl

theorem chargeKeys_disjoint (hc : r.companyId ≠ platformAggregateCompanyId) :
    (chargeKeys r t).Disjoint [platformKeyOf t] := by
  intro key hkey hplatform
  rw [List.mem_singleton.mp hplatform] at hkey
  exact hc (company_of_mem_chargeKeys hkey).symm

theorem incrementUsage_raised (hr : r.Parsed) (p : Process) :
    (incrementUsage r t).wp p fun _ p' => Raised r (chargeKeys r t) p.limiter p'.limiter := by
  unfold incrementUsage
  refine Op.wp_lift_bind (fun e _ => .of_eq rfl) fun f hf => ?_
  refine Op.wp_lift_bind (fun e _ => .of_eq rfl) fun f' hf' => ?_
  have hframe := frameResult_ok hf
  have hdaily := frameResult_ok hf'
  obtain ⟨rfl, -, -⟩ := TimeFrame.fiveMinute_ok hframe
  obtain ⟨rfl, -⟩ := TimeFrame.daily_ok hdaily
  refine incrementRecords_raised
    (chargeKeys_nodup hr.user_ne (fiveMinuteOf_ne_dailyOf hframe hdaily)) fun key hkey => ?_
  rw [company_of_mem_chargeKeys hkey]
  exact hr.company_ne

/-- The debits raise each of the five records at most once, also where one of them fails. -/
theorem commit_raised (hr : r.Parsed) (extra : ℕ) (p : Process) :
    (commit r t extra).wp p fun _ p' => Raised r (chargedKeys r t) p.limiter p'.limiter := by
  unfold commit
  have hsubject : ∀ (key : Int × Int) (message : String) (x : Op Failure SubjectState Unit)
      (p : Process), (onSubject key message x).wp p
        fun _ p' => p'.limiter.record = p.limiter.record := fun key message x =>
    Op.Keeps.onEntry fun _ _ => record_congr rfl rfl
  have hbudget : ∀ (x : Op Failure CompanyBudgetState Unit) (p : Process),
      (onBudget r.companyId x).wp p fun _ p' => p'.limiter.record = p.limiter.record := fun x =>
    Op.Keeps.onEntry fun _ _ => record_congr rfl rfl
  refine Op.wp_call (hsubject _ _ _ p) (fun _ _ h => .of_eq h) fun _ p₁ h₁ => ?_
  refine Op.wp_call (hsubject _ _ _ p₁) (fun _ _ h => .of_eq (h.trans h₁)) fun _ p₂ h₂ => ?_
  refine Op.wp_call (hbudget _ p₂) (fun _ _ h => .of_eq ((h.trans h₂).trans h₁)) fun _ p₃ h₃ => ?_
  have hsame : p₃.limiter.record = p.limiter.record := (h₃.trans h₂).trans h₁
  refine Op.wp_call (incrementUsage_raised hr p₃)
    (fun _ _ h => (h.of_left hsame).mono (List.subset_append_left _ _)) fun _ p₄ h₄ => ?_
  apply Op.wp_mono (incrementPlatformUsage_raised p₄)
  intro _ p₅ h₅
  exact (h₄.trans (chargeKeys_disjoint hr.company_ne) h₅).of_left hsame

/-- The debits leave the other subjects as they are. -/
theorem commit_subjects {k : Int × Int} (hcompany : k ≠ (r.companyId, companyAggregateUserId))
    (huser : k ≠ (r.companyId, r.userId)) (extra : ℕ) :
    (commit r t extra).Keeps fun p => p.limiter.subjects.lookup k := by
  have hrecords (keys : List UsageKey) : (incrementRecords r.routeId r.credits keys).Keeps
      fun p => p.limiter.subjects.lookup k := by
    induction keys with
    | nil => exact .pure _
    | cons _ _ ih =>
      exact .bind (.bind .get fun _ => .bind (Op.Keeps.modify fun _ => rfl) fun _ => .lift _)
        fun _ => ih
  refine .bind (.onEntry fun _ _ => Finmap.lookup_insert_of_ne _ hcompany) fun _ => ?_
  refine .bind (.onEntry fun _ _ => Finmap.lookup_insert_of_ne _ huser) fun _ => ?_
  refine .bind (.onEntry fun _ _ => rfl) fun _ => .bind ?_ fun _ => ?_
  · exact .bind (.lift _) fun _ => .bind (.lift _) fun _ => hrecords _
  · refine .bind (.lift _) fun _ => .bind .get fun _ => .bind (.lift _) fun _ => ?_
    exact .bind (Op.Keeps.modify fun _ => rfl) fun _ => .lift _

/-- What the debits of an admission leave, if it comes to them. -/
structure Debited (config : Config) (r : Request) (t : Int) (now : ℕ) (l l' : RateLimiter) :
    Prop where
  raised : Raised r (chargedKeys r t) l l'
  subjects : ∀ k, k ≠ (r.companyId, companyAggregateUserId) → k ≠ (r.companyId, r.userId) →
    l'.subjects.lookup k = l.subjects.lookup k
  ready : l' = l ∨ ∃ extra company user b, Ready config r t now extra l company user b

theorem Debited.refl (l : RateLimiter) : Debited config r t now l l :=
  ⟨.of_eq rfl, fun _ _ _ => rfl, .inl rfl⟩

/-- The request passes every gate, so that its debits follow. -/
def passes (config : Config) (fates : Fates) (r : Request) (t : Int) (now : ℕ) (p : Process) :
    Bool :=
  match ((beforeDebit config fates r t now).exec p).1 with
  | .ok (.ok _) => true
  | _ => false

/-- **An admission loads records and then raises those of its keys, each at most once**, if it
passes its gates. -/
theorem admitAt_debited (hr : r.Parsed) (p : Process) :
    (admitAt config fates r t now).wp p fun _ p' => ∃ l₁,
      ReflTransGen (Move config p.store r.companyId r.userId t now) p.limiter l₁ ∧
        Debited config r t now l₁ p'.limiter ∧
        (passes config fates r t now p = true ∨ p'.limiter = l₁) := by
  unfold admitAt
  have hbefore : (beforeDebit config fates r t now).wp p fun res p' =>
      Judged config r t now p res p' ∧ res = ((beforeDebit config fates r t now).exec p).1 :=
    ⟨beforeDebit_spec hr.user_ne p, rfl⟩
  refine Op.wp_call hbefore ?_ ?_
  · rintro e p' ⟨⟨⟨-, hpath⟩, -⟩, -⟩
    exact ⟨_, hpath, .refl _, .inr rfl⟩
  · rintro (decision | ⟨verdict, extra⟩) p₁ ⟨⟨⟨-, hpath⟩, hready⟩, hres⟩
    · exact Op.wp_pure ⟨_, hpath, .refl _, .inr rfl⟩
    · have hpasses : passes config fates r t now p = true := by
        unfold passes
        rw [← hres]
      obtain ⟨company, user, b, hready⟩ := hready
      have hcommit : (commit r t extra).wp p₁
          fun _ p' => Debited config r t now p₁.limiter p'.limiter :=
        ⟨commit_raised hr extra p₁,
          fun k hcompany huser => commit_subjects hcompany huser extra p₁,
          .inr ⟨extra, company, user, b, hready⟩⟩
      exact Op.wp_call hcommit (fun _ _ h => ⟨_, hpath, h, .inl hpasses⟩)
        fun _ _ h => Op.wp_pure ⟨_, hpath, h, .inl hpasses⟩

/-! ### Steps -/

/-- What a step does to the usage records, the stored rows and the pass. -/
inductive UsageSteps (config : Config) (w : World) : Action → World → Prop
  | admission {r : Request} {t : Int} {now : ℕ} {fates : Fates} {l₁ l' : RateLimiter}
      {record : AdmissionRecord} (hr : r.Parsed)
      (hmoves : ReflTransGen (Move config w.process.store r.companyId r.userId t now)
        w.process.limiter l₁)
      (hdebited : Debited config r t now l₁ l') (hrequest : record.request = r)
      (htime : record.unixSeconds = t)
      (hpasses : passes config fates r t now w.process = true ∨ l' = l₁) :
      UsageSteps config w (.admission r t now fates)
        ⟨⟨l', w.process.store⟩, w.flush, .admission record :: w.trace⟩
  | other {a : Action} {w' : World} (husage : w'.process.limiter.usage = w.process.limiter.usage)
      (hplatform : w'.process.limiter.platformUsage = w.process.limiter.platformUsage)
      (hsubjects : w'.process.limiter.subjects = w.process.limiter.subjects)
      (hstore : w'.process.store.usage = w.process.store.usage) (hflush : w'.flush = w.flush)
      (htrace : w.trace ⊆ w'.trace) :
      UsageSteps config w a w'
  | flush {action : FlushAction} {w' : World} (hflush : Flushes config w action w') :
      UsageSteps config w (.flush action) w'
  | restart {trace : List Event} :
      UsageSteps config w .restart ⟨⟨.new, w.process.store⟩, .idle, trace⟩

theorem usageStep_spec (ha : a.Parsed) (h : step config w a = some w') :
    UsageSteps config w a w' := by
  cases a with
  | admission r t now fates =>
    have hr : r.Parsed := ha
    have hdebited : (admitAt config fates r t now).wp w.process _ := admitAt_debited hr w.process
    have hspec : (admitAt config fates r t now).wp w.process _ := admitAt_spec hr.user_ne w.process
    obtain ⟨l₁, hmoves, hdebited, hpasses⟩ := hdebited
    obtain ⟨hstore, -⟩ := hspec
    cases h
    unfold admissionStep
    cases hexec : (admitAt config fates r t now).exec w.process with
    | mk outcome p' =>
      rw [hexec] at hstore hdebited hpasses
      obtain ⟨l', store⟩ := p'
      obtain rfl : store = w.process.store := hstore
      exact .admission hr hmoves hdebited rfl rfl hpasses
  | mutation =>
    cases step_spec ha h with
    | mutation hm hmutates =>
      cases hmutates with
      | unfound | refused | written =>
        exact .other rfl rfl rfl rfl rfl (List.subset_cons_self _ _)
      | failed _ hstore =>
        refine .other rfl rfl rfl ?_ rfl (List.subset_cons_self _ _)
        rcases hstore with rfl | ⟨-, _, _, -, rfl⟩ <;> rfl
  | invalidation c u =>
    cases h
    have hkeeps : (invalidateAccess w.process.limiter c u).usage = w.process.limiter.usage ∧
        (invalidateAccess w.process.limiter c u).platformUsage =
          w.process.limiter.platformUsage := by
      unfold invalidateAccess
      split_ifs <;> exact ⟨rfl, rfl⟩
    exact .other hkeeps.1 hkeeps.2 (invalidateAccess_subjects _ c u) rfl rfl (List.Subset.refl _)
  | flush => exact .flush (flushStep_spec h)
  | restart =>
    cases h
    exact .restart

theorem World.Filed.congr (h : w.Filed config)
    (husage : w'.process.limiter.usage = w.process.limiter.usage)
    (hplatform : w'.process.limiter.platformUsage = w.process.limiter.platformUsage)
    (hstore : w'.process.store.usage = w.process.store.usage) (hflush : w'.flush = w.flush) :
    w'.Filed config := by
  refine ⟨⟨?_, ?_⟩, ?_, ?_⟩
  · rw [husage]
    exact h.usage
  · rw [hplatform]
    exact h.platform
  · rw [hflush]
    exact h.distinct
  · have hstanding := h.standing
    rw [hflush]
    cases hphase : w.flush with
    | mark s =>
      rw [hphase] at hstanding
      show w'.process.store.total s.key = _
      rw [total_congr hstore]
      exact hstanding
    | _ =>
      rw [hphase] at hstanding
      exact hstanding

/-- The records are filed under the right keys in every run. -/
theorem World.Filed.step (h : w.Filed config) (ha : a.Parsed)
    (hstep : Limiter.step config w a = some w') : w'.Filed config := by
  cases step_spec ha hstep with
  | admission hr hadmits => exact ⟨h.toFiled.admits hr hadmits, h.distinct, h.standing⟩
  | flush hflush => exact h.flushes hflush
  | restart => exact ⟨.new, .nil, trivial⟩
  | mutation | invalidation =>
    cases usageStep_spec ha hstep with
    | other husage hplatform _ hstore hflush => exact h.congr husage hplatform hstore hflush

theorem World.Filed.boot (store : LimiterStore) : (World.boot store).Filed config :=
  ⟨.new, .nil, trivial⟩

end Fareward.Limiter
