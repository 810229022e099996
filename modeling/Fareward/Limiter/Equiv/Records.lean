import Fareward.Limiter.Equiv.Steps

/-!
# The usage records and the flush

The usage records of the shards and the platform records are a write-back cache over the stored
rows: a pass takes snapshots of the dirty records, writes them one after the other and marks what
it has written.

* The records are filed under the right keys, and a pass has collected each at most once
  (`World.Filed`).
* No step of the flush makes new totals: a record is dropped or keeps its routes, and a snapshot is
  an older one or a copy of a record (`FlushFrame`).
-/

namespace Fareward.Limiter

open Relation

variable {s : UsageSnapshot} {m : UsageMap} {order : List UsageKey} {shard now : ℕ}
  {fiveMinute c u t : Int} {config : Config} {store : LimiterStore} {r : Request}
  {l l' : RateLimiter} {w w' : World} {a : Action} {action : FlushAction} {key : UsageKey}
  {snapshots : List UsageSnapshot}

/-- The record under a key; the platform's are kept apart. -/
def RateLimiter.record (l : RateLimiter) (key : UsageKey) : Option UsageRecord :=
  if key.companyId = platformAggregateCompanyId then l.platformUsage.lookup key
  else l.usage.lookup key

/-! ### Records -/

theorem record_of_platform (h : key.companyId = platformAggregateCompanyId) :
    l.record key = l.platformUsage.lookup key := if_pos h

theorem record_of_usage (h : key.companyId ≠ platformAggregateCompanyId) :
    l.record key = l.usage.lookup key := if_neg h

theorem record_congr (husage : l'.usage = l.usage)
    (hplatform : l'.platformUsage = l.platformUsage) :
    l'.record = l.record := by
  funext key
  unfold RateLimiter.record
  rw [husage, hplatform]

theorem record_setUsage (h : key.companyId ≠ platformAggregateCompanyId) (record : UsageRecord) :
    (l.setUsage (l.usage.insert key record)).record =
      Function.update l.record key (some record) := by
  funext j
  rw [Function.update_apply]
  split_ifs with hj
  · rw [hj, record_of_usage h]
    exact Finmap.lookup_insert _
  · unfold RateLimiter.record
    split_ifs
    · rfl
    · exact Finmap.lookup_insert_of_ne _ hj

theorem record_setPlatformUsage (h : key.companyId = platformAggregateCompanyId)
    (record : UsageRecord) :
    (l.setPlatformUsage (l.platformUsage.insert key record)).record =
      Function.update l.record key (some record) := by
  funext j
  rw [Function.update_apply]
  split_ifs with hj
  · rw [hj, record_of_platform h]
    exact Finmap.lookup_insert _
  · unfold RateLimiter.record
    split_ifs
    · exact Finmap.lookup_insert_of_ne _ hj
    · rfl

theorem snapshot_eq_some {record : UsageRecord} (h : record.snapshot key = some s) :
    s = ⟨key, record.routes, record.version⟩ ∧ record.version ≠ record.flushedVersion := by
  unfold UsageRecord.snapshot at h
  split_ifs at h with hdirty
  exact ⟨(Option.some.inj h).symm, hdirty⟩

theorem record_markFlushed (l : RateLimiter) (s : UsageSnapshot) :
    (l.markFlushed s).record =
      Function.update l.record s.key ((l.record s.key).map (·.markFlushed s.version)) := by
  unfold RateLimiter.markFlushed
  split_ifs with hkey
  · rw [record_of_platform hkey]
    split
    · next record hrecord =>
      rw [hrecord]
      exact record_setPlatformUsage hkey _
    · next hnone =>
      rw [hnone, Option.map_none, ← hnone, ← record_of_platform hkey, Function.update_eq_self]
  · rw [record_of_usage hkey]
    split
    · next record hrecord =>
      rw [hrecord]
      exact record_setUsage hkey _
    · next hnone =>
      rw [hnone, Option.map_none, ← hnone, ← record_of_usage hkey, Function.update_eq_self]

/-! ### Rows -/

theorem total_congr {store' : LimiterStore} (h : store'.usage = store.usage) :
    store'.total = store.total := by
  funext key route d
  unfold LimiterStore.total LimiterStore.routes
  rw [h]

/-- An upsert stores the totals it was made from. -/
theorem total_upsert {routes : RoutedCredits} {bytes : List UInt8}
    (h : CreditsBlob.encode routes = .ok bytes) (store : LimiterStore) (key : UsageKey) :
    (store.upsert key bytes).total = Function.update store.total key routes.total := by
  obtain ⟨routes', hdecode, htotal, -⟩ := CreditsBlob.total_decode_encode h
  funext j
  rw [Function.update_apply]
  split_ifs with hj
  · subst hj
    have hroutes : (store.upsert j bytes).routes j = routes' :=
      LimiterStore.routes_of_decode (Function.update_self _ _ _) hdecode
    funext route d
    unfold LimiterStore.total
    rw [hroutes, htotal]
  · funext route d
    unfold LimiterStore.total LimiterStore.routes
    have husage : (store.upsert key bytes).usage j = store.usage j := Function.update_of_ne hj _ _
    rw [husage]

/-! ### Where the records are filed -/

/-- The platform's records are apart from those of the companies. -/
structure RateLimiter.Filed (l : RateLimiter) : Prop where
  usage : ∀ key, (l.usage.lookup key).isSome → key.companyId ≠ platformAggregateCompanyId
  platform : ∀ key, (l.platformUsage.lookup key).isSome →
    key.companyId = platformAggregateCompanyId

/-- Where a pass stands: it has been at the shards below, what it has stored is stored, and the
frames it prunes by are those of its reading. -/
def FlushPhase.Standing (config : Config) (store : LimiterStore) : FlushPhase → Prop
  | .collect shard snapshots => ∀ s ∈ snapshots,
      s.key.companyId ≠ platformAggregateCompanyId ∧ config.shardIndex s.key.companyId < shard
  | .collectPlatform snapshots => ∀ s ∈ snapshots, s.key.companyId ≠ platformAggregateCompanyId
  | .mark s _ => store.total s.key = s.routes.total
  | .pruneShard t fiveMinute day _ =>
      fiveMinute = TimeFrame.fiveMinuteOf t ∧ day = TimeFrame.dailyOf t
  | _ => True

/-- The records are filed under the right keys, and a pass has collected each at most once. -/
structure World.Filed (config : Config) (w : World) : Prop extends w.process.limiter.Filed where
  distinct : (w.flush.pending.map UsageSnapshot.key).Nodup
  standing : w.flush.Standing config w.process.store

namespace RateLimiter.Filed

theorem new : RateLimiter.new.Filed where
  usage key h := by cases (Finmap.lookup_empty key) ▸ h
  platform key h := by cases (Finmap.lookup_empty key) ▸ h

theorem record_usage {record : UsageRecord} (h : l.Filed)
    (hrecord : l.usage.lookup key = some record) :
    l.record key = some record := by
  rw [record_of_usage (h.usage key (by rw [hrecord]; rfl)), hrecord]

theorem record_platform {record : UsageRecord} (h : l.Filed)
    (hrecord : l.platformUsage.lookup key = some record) : l.record key = some record := by
  rw [record_of_platform (h.platform key (by rw [hrecord]; rfl)), hrecord]

/-- No record has come in. -/
theorem of_le (h : l.Filed)
    (husage : ∀ key, (l'.usage.lookup key).isSome → (l.usage.lookup key).isSome)
    (hplatform : ∀ key, (l'.platformUsage.lookup key).isSome →
      (l.platformUsage.lookup key).isSome) : l'.Filed :=
  ⟨fun key hkey => h.usage key (husage key hkey),
    fun key hkey => h.platform key (hplatform key hkey)⟩

theorem setUsage (h : l.Filed) (hkey : key.companyId ≠ platformAggregateCompanyId)
    (record : UsageRecord) : (l.setUsage (l.usage.insert key record)).Filed := by
  refine ⟨fun j hj => ?_, h.platform⟩
  by_cases hjk : j = key
  · rwa [hjk]
  · exact h.usage j ((Finmap.lookup_insert_of_ne l.usage hjk) ▸ hj)

theorem setPlatformUsage (h : l.Filed) (hkey : key.companyId = platformAggregateCompanyId)
    (record : UsageRecord) : (l.setPlatformUsage (l.platformUsage.insert key record)).Filed := by
  refine ⟨h.usage, fun j hj => ?_⟩
  by_cases hjk : j = key
  · rwa [hjk]
  · exact h.platform j ((Finmap.lookup_insert_of_ne l.platformUsage hjk) ▸ hj)

theorem move (h : l.Filed) (hc : c ≠ platformAggregateCompanyId)
    (hmove : Move config store c u t now l l') : l'.Filed := by
  cases hmove with
  | usage key hkey => exact h.setUsage (hkey ▸ hc) _
  | platform key hkey => exact h.setPlatformUsage (by rw [hkey]) _
  | _ => exact ⟨h.usage, h.platform⟩

theorem moves (h : l.Filed) (hc : c ≠ platformAggregateCompanyId)
    (hpath : ReflTransGen (Move config store c u t now) l l') : l'.Filed := by
  induction hpath with
  | refl => exact h
  | tail _ hmove ih => exact ih.move hc hmove

end RateLimiter.Filed

theorem company_of_mem_chargeKeys (h : key ∈ chargeKeys r t) : key.companyId = r.companyId := by
  unfold chargeKeys at h
  simp only [List.mem_cons, List.not_mem_nil, or_false] at h
  rcases h with rfl | rfl | rfl | rfl <;> rfl

theorem company_platformKeyOf (t : Int) :
    (platformKeyOf t).companyId = platformAggregateCompanyId := rfl

namespace RateLimiter.Filed

theorem debit (h : l.Filed) (hc : r.companyId ≠ platformAggregateCompanyId)
    (hdebit : Debit r t l l') : l'.Filed := by
  cases hdebit with
  | usage key hkey => exact h.setUsage (company_of_mem_chargeKeys hkey ▸ hc) _
  | platform => exact h.setPlatformUsage (company_platformKeyOf t) _
  | _ => exact ⟨h.usage, h.platform⟩

theorem debits (h : l.Filed) (hc : r.companyId ≠ platformAggregateCompanyId)
    (hpath : ReflTransGen (Debit r t) l l') : l'.Filed := by
  induction hpath with
  | refl => exact h
  | tail _ hdebit ih => exact ih.debit hc hdebit

theorem charged {extra : ℕ} {company user : SubjectState} {b : CompanyBudgetState} (h : l.Filed)
    (hc : r.companyId ≠ platformAggregateCompanyId)
    (hcharged : Charged r t extra l l' company user b) : l'.Filed := by
  refine ⟨fun key hkey => ?_, fun key hkey => ?_⟩
  · by_cases hmem : key ∈ chargeKeys r t
    · exact company_of_mem_chargeKeys hmem ▸ hc
    · rw [hcharged.otherUsage key hmem] at hkey
      exact h.usage key hkey
  · by_cases hplatform : key = platformKeyOf t
    · rw [hplatform, company_platformKeyOf]
    · rw [hcharged.otherPlatform key hplatform] at hkey
      exact h.platform key hkey

theorem admits {fates : Fates} {p : Process} {outcome : Except Failure Admission}
    (h : p.limiter.Filed) (hr : r.Parsed) (hadmits : Admits config fates r t now p outcome l') :
    l'.Filed := by
  have hc := hr.company_ne
  cases hadmits with
  | refused hpath => exact h.moves hc hpath
  | allowed hpath _ hcharged => exact (h.moves hc hpath).charged hc hcharged
  | overflowed hpath _ hdebit => exact (h.moves hc hpath).debits hc hdebit

end RateLimiter.Filed

/-! ### What a pass collects -/

theorem pending_afterWrites (snapshots : List UsageSnapshot) :
    (FlushPhase.afterWrites snapshots).pending = snapshots := by
  cases snapshots <;> rfl

theorem pending_afterBudgetWrites (snapshots : List (StoredBudgetUsage × ℕ)) :
    (FlushPhase.afterBudgetWrites snapshots).pending = [] := by
  cases snapshots <;> rfl

theorem standing_afterWrites (snapshots : List UsageSnapshot) :
    (FlushPhase.afterWrites snapshots).Standing config store := by
  cases snapshots <;> trivial

theorem standing_afterBudgetWrites (snapshots : List (StoredBudgetUsage × ℕ)) :
    (FlushPhase.afterBudgetWrites snapshots).Standing config store := by
  cases snapshots <;> trivial

theorem nodup_afterWrites {snapshot : UsageSnapshot}
    (h : ((snapshot :: snapshots).map UsageSnapshot.key).Nodup) :
    ((FlushPhase.afterWrites snapshots).pending.map UsageSnapshot.key).Nodup := by
  rw [pending_afterWrites]
  exact (List.nodup_cons.mp h).2

theorem nodup_afterBudgetWrites (rows : List (StoredBudgetUsage × ℕ)) :
    ((FlushPhase.afterBudgetWrites rows).pending.map UsageSnapshot.key).Nodup := by
  rw [pending_afterBudgetWrites]
  exact .nil

/-- The snapshots of the dirty records of a map, in the order in which it is iterated. -/
def UsageMap.dirtySnapshots (m : UsageMap) (order : List UsageKey) : List UsageSnapshot :=
  order.filterMap fun key => (m.lookup key).bind (·.snapshot key)

theorem mem_dirtySnapshots :
    s ∈ m.dirtySnapshots order ↔ s.key ∈ order ∧ ∃ record, m.lookup s.key = some record ∧
      record.version ≠ record.flushedVersion ∧ s = ⟨s.key, record.routes, record.version⟩ := by
  unfold UsageMap.dirtySnapshots
  rw [List.mem_filterMap]
  constructor
  · rintro ⟨key, hkey, hs⟩
    obtain ⟨record, hrecord, hs⟩ := Option.bind_eq_some_iff.mp hs
    obtain ⟨rfl, hdirty⟩ := snapshot_eq_some hs
    exact ⟨hkey, record, hrecord, hdirty, rfl⟩
  · rintro ⟨hkey, record, hrecord, hdirty, hs⟩
    refine ⟨s.key, hkey, ?_⟩
    rw [hrecord, Option.bind_some]
    unfold UsageRecord.snapshot
    rw [if_pos hdirty, ← hs]

theorem keys_dirtySnapshots (m : UsageMap) :
    ∀ order : List UsageKey, ((m.dirtySnapshots order).map UsageSnapshot.key).Sublist order
  | [] => .slnil
  | key :: order => by
    unfold UsageMap.dirtySnapshots
    cases hs : (m.lookup key).bind (·.snapshot key) with
    | none =>
      rw [List.filterMap_cons_none (by exact hs)]
      exact (keys_dirtySnapshots m order).cons key
    | some =>
      obtain ⟨record, -, hsnapshot⟩ := Option.bind_eq_some_iff.mp hs
      obtain ⟨rfl, -⟩ := snapshot_eq_some hsnapshot
      rw [List.filterMap_cons_some (by exact hs), List.map_cons]
      exact (keys_dirtySnapshots m order).cons_cons key

/-- Collecting the records of keys that are new keeps the snapshots apart. -/
theorem nodup_collect (hdistinct : (snapshots.map UsageSnapshot.key).Nodup) (horder : order.Nodup)
    (hnew : ∀ s ∈ snapshots, s.key ∉ order) :
    ((snapshots ++ m.dirtySnapshots order).map UsageSnapshot.key).Nodup := by
  rw [List.map_append]
  refine hdistinct.append (horder.sublist (keys_dirtySnapshots m order)) ?_
  intro key hold hkey
  obtain ⟨s, hs, rfl⟩ := List.mem_map.mp hold
  exact hnew s hs ((keys_dirtySnapshots m order).subset hkey)

theorem shard_of_enumerates (horder : Enumerates order (l.usageKeys config shard))
    (hkey : key ∈ order) :
    config.shardIndex key.companyId = shard ∧ (l.usage.lookup key).isSome := by
  have hmem : key ∈ l.usageKeys config shard := horder.2 ▸ List.mem_toFinset.mpr hkey
  obtain ⟨hkeys, hshard⟩ := Finset.mem_filter.mp hmem
  exact ⟨hshard, Finmap.lookup_isSome.mpr (Finmap.mem_keys.mp hkeys)⟩

theorem platform_of_enumerates (horder : Enumerates order l.platformUsage.keys)
    (hkey : key ∈ order) : (l.platformUsage.lookup key).isSome := by
  have hmem : key ∈ l.platformUsage.keys := horder.2 ▸ List.mem_toFinset.mpr hkey
  exact Finmap.lookup_isSome.mpr (Finmap.mem_keys.mp hmem)

/-! ### The steps of the flush -/

theorem isSome_markFlushed (l : RateLimiter) (s : UsageSnapshot) (key : UsageKey) :
    (((l.markFlushed s).usage.lookup key).isSome → (l.usage.lookup key).isSome) ∧
      (((l.markFlushed s).platformUsage.lookup key).isSome →
        (l.platformUsage.lookup key).isSome) := by
  have hinsert : ∀ {m : UsageMap} {record record' : UsageRecord}, m.lookup s.key = some record →
      ((m.insert s.key record').lookup key).isSome → (m.lookup key).isSome := by
    intro m record record' hrecord h
    rw [lookup_insert_eq] at h
    split_ifs at h with hkey
    · rw [hkey, hrecord]
      rfl
    · exact h
  unfold RateLimiter.markFlushed
  split_ifs
  · split
    · next record hrecord => exact ⟨id, hinsert hrecord⟩
    · exact ⟨id, id⟩
  · split
    · next record hrecord => exact ⟨hinsert hrecord, id⟩
    · exact ⟨id, id⟩

theorem isSome_of_retain {p : UsageKey → UsageRecord → Bool}
    (h : ((retain p m).lookup key).isSome) : (m.lookup key).isSome := by
  rw [lookup_retain] at h
  exact Option.isSome_of_isSome_filter _ _ h

theorem markUsageFlushed_usage (l : RateLimiter) (c : Int) (version : ℕ) :
    (l.markUsageFlushed c version).usage = l.usage ∧
      (l.markUsageFlushed c version).platformUsage = l.platformUsage := by
  unfold RateLimiter.markUsageFlushed
  split <;> exact ⟨rfl, rfl⟩

theorem World.Filed.flushes (h : w.Filed config) (hflush : Flushes config w action w') :
    w'.Filed config := by
  have hkeep : w.process.limiter.Filed := h.toFiled
  cases hflush with
  | start => exact ⟨hkeep, .nil, List.forall_mem_nil _⟩
  | @collect shard snapshots order hphase horder =>
    have hstanding := h.standing
    have hdistinct := h.distinct
    rw [hphase] at hstanding hdistinct
    have hnodup : ((snapshots ++ w.process.limiter.usage.dirtySnapshots order).map
        UsageSnapshot.key).Nodup := by
      refine nodup_collect hdistinct horder.1 fun s hs hmem => ?_
      exact (hstanding s hs).2.ne (shard_of_enumerates horder hmem).1
    have hall : ∀ s ∈ snapshots ++ w.process.limiter.usage.dirtySnapshots order,
        s.key.companyId ≠ platformAggregateCompanyId ∧
          config.shardIndex s.key.companyId < shard + 1 := by
      intro s hs
      rcases List.mem_append.mp hs with hs | hs
      · exact (hstanding s hs).imp_right Nat.lt_succ_of_lt
      · obtain ⟨hshard, hsome⟩ := shard_of_enumerates horder (mem_dirtySnapshots.mp hs).1
        exact ⟨hkeep.usage _ hsome, hshard ▸ Nat.lt_succ_self _⟩
    by_cases hshards : shard + 1 < config.shards
    · simp only [if_pos hshards]
      exact ⟨hkeep, hnodup, hall⟩
    · simp only [if_neg hshards]
      exact ⟨hkeep, hnodup, fun s hs => (hall s hs).1⟩
  | @collectPlatform snapshots order hphase horder =>
    have hstanding := h.standing
    have hdistinct := h.distinct
    rw [hphase] at hstanding hdistinct
    have hnodup : ((snapshots ++ w.process.limiter.platformUsage.dirtySnapshots order).map
        UsageSnapshot.key).Nodup := by
      refine nodup_collect hdistinct horder.1 fun s hs hmem => ?_
      exact hstanding s hs (hkeep.platform _ (platform_of_enumerates horder hmem))
    by_cases hnil : snapshots ++ w.process.limiter.platformUsage.dirtySnapshots order = []
    · simp only [UsageMap.dirtySnapshots] at hnil
      simp only [if_pos hnil]
      exact ⟨hkeep, .nil, trivial⟩
    · simp only [UsageMap.dirtySnapshots] at hnil
      simp only [if_neg hnil]
      exact ⟨hkeep, hnodup, trivial⟩
  | unencodable hphase =>
    have hdistinct := h.distinct
    rw [hphase] at hdistinct
    exact ⟨hkeep, nodup_afterWrites hdistinct, standing_afterWrites _⟩
  | @write snapshot snapshots bytes succeeds landed hphase hencode =>
    have hdistinct := h.distinct
    rw [hphase] at hdistinct
    cases succeeds with
    | true =>
      refine ⟨hkeep, hdistinct, ?_⟩
      show (w.process.store.upsert snapshot.key bytes).total snapshot.key = _
      rw [total_upsert hencode, Function.update_self]
    | false =>
      refine ⟨?_, nodup_afterWrites hdistinct, standing_afterWrites _⟩
      cases landed <;> exact hkeep
  | @mark snapshot snapshots hphase =>
    have hdistinct := h.distinct
    rw [hphase] at hdistinct
    refine ⟨?_, nodup_afterWrites hdistinct, standing_afterWrites _⟩
    exact hkeep.of_le (fun key => (isSome_markFlushed _ _ key).1)
      fun key => (isSome_markFlushed _ _ key).2
  | prune => exact ⟨hkeep, .nil, rfl, rfl⟩
  | noPrune | budget | noBudget => exact ⟨hkeep, .nil, trivial⟩
  | @pruneShard t fiveMinute day shard hphase =>
    have hstanding := h.standing
    rw [hphase] at hstanding
    have hfiled : (w.process.limiter.pruneShard config fiveMinute day shard).Filed :=
      hkeep.of_le (fun key => isSome_of_retain) fun _ => id
    by_cases hshards : shard + 1 < config.shards
    · simp only [if_pos hshards]
      exact ⟨hfiled, .nil, hstanding⟩
    · simp only [if_neg hshards]
      exact ⟨hfiled, .nil, trivial⟩
  | prunePlatform => exact ⟨hkeep.of_le (fun _ => id) fun key => isSome_of_retain, .nil, trivial⟩
  | @budgetCollect t day shard =>
    by_cases hshards : shard + 1 < config.shards
    · simp only [if_pos hshards]
      exact ⟨hkeep, .nil, trivial⟩
    · simp only [if_neg hshards]
      exact ⟨hkeep, nodup_afterBudgetWrites _, standing_afterBudgetWrites _⟩
  | @budgetWrite usage version rows succeeds landed =>
    cases succeeds with
    | true => exact ⟨hkeep, .nil, trivial⟩
    | false =>
      refine ⟨?_, nodup_afterBudgetWrites rows, standing_afterBudgetWrites _⟩
      cases landed <;> exact hkeep
  | @budgetMark usage version rows =>
    obtain ⟨husage, hplatform⟩ := markUsageFlushed_usage w.process.limiter usage.companyId version
    refine ⟨hkeep.of_le (fun key hkey => ?_) fun key hkey => ?_, nodup_afterBudgetWrites rows,
      standing_afterBudgetWrites _⟩
    · rwa [← husage]
    · rwa [← hplatform]

theorem record_pruneShard (config : Config) (l : RateLimiter) (fiveMinute day : Int) (shard : ℕ)
    (key : UsageKey) : (l.pruneShard config fiveMinute day shard).record key = l.record key ∨
      (l.pruneShard config fiveMinute day shard).record key = none ∧
        ∀ record, l.record key = some record → record.isClean ∧
          config.shardIndex key.companyId = shard ∧ key.timeFrame ≠ fiveMinute ∧
            key.timeFrame ≠ day := by
  unfold RateLimiter.record
  split_ifs with hplatform
  · exact .inl rfl
  · have hprune : (l.pruneShard config fiveMinute day shard).usage.lookup key =
        (l.usage.lookup key).filter fun record =>
          config.shardIndex key.companyId ≠ shard || !record.isClean ||
            key.timeFrame = fiveMinute || key.timeFrame = day := lookup_retain _ _ _
    rw [hprune]
    cases hrecord : l.usage.lookup key with
    | none => exact .inl rfl
    | some =>
      rw [Option.filter_some]
      split_ifs with hkeep
      · exact .inl rfl
      · refine .inr ⟨rfl, ?_⟩
        rintro _ ⟨⟩
        simp only [Bool.not_eq_true, Bool.or_eq_false_iff, decide_eq_false_iff_not, not_not,
          Bool.not_eq_false'] at hkeep
        obtain ⟨⟨⟨hshard, hclean⟩, hframe⟩, hday⟩ := hkeep
        exact ⟨hclean, hshard, hframe, hday⟩

theorem record_prunePlatform (key : UsageKey) :
    (l.prunePlatform fiveMinute).record key = l.record key ∨
      (l.prunePlatform fiveMinute).record key = none ∧
        ∀ record, l.record key = some record → record.isClean := by
  unfold RateLimiter.record
  split_ifs with hplatform
  · have hprune : (l.prunePlatform fiveMinute).platformUsage.lookup key =
        (l.platformUsage.lookup key).filter fun record =>
          !record.isClean || key.timeFrame = fiveMinute := lookup_retain _ _ _
    rw [hprune]
    cases hrecord : l.platformUsage.lookup key with
    | none => exact .inl rfl
    | some =>
      rw [Option.filter_some]
      split_ifs with hkeep
      · exact .inl rfl
      · refine .inr ⟨rfl, ?_⟩
        rintro _ ⟨⟩
        simp only [Bool.not_eq_true, Bool.or_eq_false_iff, Bool.not_eq_false'] at hkeep
        exact hkeep.1
  · exact .inl rfl

/-! ### No new totals -/

theorem isSome_record_markFlushed (l : RateLimiter) (s : UsageSnapshot) (key : UsageKey) :
    ((l.markFlushed s).record key).isSome = (l.record key).isSome := by
  rw [record_markFlushed, Function.update_apply]
  split_ifs with hkey
  · rw [hkey, Option.isSome_map]
  · rfl

/-- The records of the later world have the routes they had, a snapshot is an older one or a copy of
a record, and what has a snapshot has kept its record. -/
structure FlushFrame (w w' : World) : Prop where
  records : ∀ key record', w'.process.limiter.record key = some record' →
    ∃ record, w.process.limiter.record key = some record ∧ record'.routes = record.routes
  pending : ∀ s ∈ w'.flush.pending, s ∈ w.flush.pending ∨
    ∃ record, w.process.limiter.record s.key = some record ∧ s.routes = record.routes
  kept : ∀ s ∈ w'.flush.pending, (w.process.limiter.record s.key).isSome →
    (w'.process.limiter.record s.key).isSome

namespace FlushFrame

/-- The records are the same, and there is no new snapshot. -/
theorem of_subset (hrecord : w'.process.limiter.record = w.process.limiter.record)
    (hsub : ∀ s ∈ w'.flush.pending, s ∈ w.flush.pending) : FlushFrame w w' :=
  ⟨fun _ record' h => ⟨record', hrecord ▸ h, rfl⟩, fun s hs => .inl (hsub s hs),
    fun _ _ h => hrecord ▸ h⟩

/-- Records are dropped while there is no snapshot. -/
theorem of_nil (hrecord : ∀ key, w'.process.limiter.record key = w.process.limiter.record key ∨
      w'.process.limiter.record key = none) (hnil : w'.flush.pending = []) : FlushFrame w w' := by
  refine ⟨fun key record' h => ?_, fun s hs => ?_, fun s hs => ?_⟩
  · rcases hrecord key with hsame | hnone
    · exact ⟨record', hsame ▸ h, rfl⟩
    · rw [hnone] at h
      cases h
  · rw [hnil] at hs
    cases hs
  · rw [hnil] at hs
    cases hs

theorem of_collect (order : List UsageKey) (hrecord : ∀ key record, m.lookup key = some record →
      w.process.limiter.record key = some record) {phase : FlushPhase}
    (hpending : ∀ s ∈ phase.pending, s ∈ w.flush.pending ++ m.dirtySnapshots order) :
    FlushFrame w { w with flush := phase } := by
  refine ⟨fun _ record' h => ⟨record', h, rfl⟩, fun s hs => ?_, fun _ _ h => h⟩
  refine (List.mem_append.mp (hpending s hs)).imp_right fun hs => ?_
  obtain ⟨-, record, hlookup, -, hsnapshot⟩ := mem_dirtySnapshots.mp hs
  exact ⟨record, hrecord _ _ hlookup, congrArg UsageSnapshot.routes hsnapshot⟩

theorem of_flushes (h : w.Filed config) (hflush : Flushes config w action w') :
    FlushFrame w w' := by
  cases hflush with
  | start | prune | noPrune | budget | noBudget => exact of_nil (fun _ => .inl rfl) rfl
  | @collect shard snapshots order hphase =>
    refine of_collect (m := w.process.limiter.usage) order (fun _ _ => h.record_usage)
      fun s hs => ?_
    rw [hphase]
    split_ifs at hs <;> exact hs
  | @collectPlatform snapshots order hphase =>
    refine of_collect (m := w.process.limiter.platformUsage) order
      (fun _ _ => h.record_platform) fun s hs => ?_
    rw [hphase]
    split_ifs at hs
    · cases hs
    · exact hs
  | unencodable hphase =>
    refine of_subset rfl fun s hs => ?_
    rw [pending_afterWrites] at hs
    rw [hphase]
    exact List.mem_cons_of_mem _ hs
  | @write snapshot snapshots bytes succeeds landed hphase =>
    refine of_subset ?_ fun s hs => ?_
    · dsimp only
      split_ifs <;> rfl
    · rw [hphase]
      cases succeeds with
      | true => exact hs
      | false => exact List.mem_cons_of_mem _ ((pending_afterWrites snapshots) ▸ hs)
  | @mark snapshot snapshots hphase =>
    refine ⟨fun key record' hrecord => ?_, fun s hs => .inl ?_, fun s _ hsome => ?_⟩
    · rw [record_markFlushed, Function.update_apply] at hrecord
      split_ifs at hrecord with hkey
      · obtain ⟨record, hold, rfl⟩ := Option.map_eq_some_iff.mp hrecord
        refine ⟨record, hkey ▸ hold, ?_⟩
        unfold UsageRecord.markFlushed
        split_ifs <;> rfl
      · exact ⟨record', hrecord, rfl⟩
    · rw [pending_afterWrites] at hs
      rw [hphase]
      exact List.mem_cons_of_mem _ hs
    · exact (isSome_record_markFlushed _ _ _).trans hsome
  | pruneShard =>
    refine of_nil (fun key => (record_pruneShard _ _ _ _ _ key).imp_right And.left) ?_
    dsimp only
    split_ifs <;> rfl
  | prunePlatform =>
    exact of_nil (fun key => (record_prunePlatform key).imp_right And.left) rfl
  | budgetCollect =>
    refine of_nil (fun _ => .inl rfl) ?_
    dsimp only
    split_ifs
    · rfl
    · exact pending_afterBudgetWrites _
  | @budgetWrite usage version rows succeeds landed =>
    refine of_nil (fun key => .inl ?_) ?_
    · dsimp only
      split_ifs <;> rfl
    · cases succeeds
      · exact pending_afterBudgetWrites _
      · rfl
  | @budgetMark usage version =>
    obtain ⟨husage, hplatform⟩ := markUsageFlushed_usage w.process.limiter usage.companyId version
    exact of_nil (fun key => .inl (by rw [record_congr husage hplatform]))
      (pending_afterBudgetWrites _)

end FlushFrame

end Fareward.Limiter
