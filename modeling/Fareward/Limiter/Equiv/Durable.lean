import Fareward.Lib.Machine
import Fareward.Limiter.Equiv.Charges

/-!
# The stored totals only grow

A flush writes absolute totals. They are not below what is stored as long as a record in memory is
not (`Rising`), and the only record that can be is one that a charge makes anew while its row is
stored. A charge does not look for the row of a company's key: it relies on `ensure_subject` having
loaded the rows of the reading when the subject came in.

So the rows matter that are stored but not in memory. They are of frames earlier than every reading
still to come (`Dated`), if the readings do not go back in the order in which the lock of a shard is
taken (`stored_totals_rise`). `admit` reads the clock before it waits for that lock; a charge that
waits through a flush and its prune makes the record of the old frame again, from zero
(`late_charge_lowers_total`).
-/

namespace Fareward.Limiter

open Relation

variable {config : Config} {store : LimiterStore} {r : Request} {c u t : Int} {now : ℕ}
  {l l₁ l' : RateLimiter} {w w' : World} {a : Action} {key : UsageKey} {action : FlushAction}
  {snapshots : List UsageSnapshot}

/-! ### Growth -/

theorem total_le_increment (record : UsageRecord) (route : ℕ) (credits : Credits) :
    record.routes.total ≤ (record.increment route credits).2.routes.total := by
  unfold UsageRecord.increment
  dsimp only
  split
  · exact le_rfl
  · next updated hadd =>
    have hinsert : record.routes.total ≤
        RoutedCredits.total (record.routes.insert route updated) := by
      intro route' d
      rw [RoutedCredits.total_insert]
      split_ifs with hroute
      · subst hroute
        rw [Credits.of_checkedAdd hadd]
        exact Nat.le_add_right _ _
      · exact le_rfl
    split <;> exact hinsert

/-- A row is not above its record or a snapshot of it, and a snapshot is not above its record. -/
structure Rising (l : RateLimiter) (store : LimiterStore) (snapshots : List UsageSnapshot) :
    Prop where
  records : ∀ key record, l.record key = some record → store.total key ≤ record.routes.total
  rows : ∀ s ∈ snapshots, store.total s.key ≤ s.routes.total
  pending : ∀ s ∈ snapshots, ∃ record, l.record s.key = some record ∧
    s.routes.total ≤ record.routes.total

namespace Rising

/-- Records grow, and those that come in are not below their rows. -/
theorem grow (h : Rising l store snapshots)
    (hgrow : ∀ key record, l.record key = some record →
      ∃ record', l'.record key = some record' ∧ record.routes.total ≤ record'.routes.total)
    (hnew : ∀ key record', l.record key = none → l'.record key = some record' →
      store.total key ≤ record'.routes.total) : Rising l' store snapshots := by
  refine ⟨fun key record' hrecord' => ?_, h.rows, fun s hs => ?_⟩
  · cases hrecord : l.record key with
    | none => exact hnew key record' hrecord hrecord'
    | some record =>
      obtain ⟨_, hsome, hle⟩ := hgrow key record hrecord
      obtain rfl := Option.some.inj (hsome.symm.trans hrecord')
      exact (h.records key record hrecord).trans hle
  · obtain ⟨record, hrecord, hle⟩ := h.pending s hs
    obtain ⟨record', hrecord', hle'⟩ := hgrow s.key record hrecord
    exact ⟨record', hrecord', hle.trans hle'⟩

theorem moves (h : Rising l store snapshots) (hc : c ≠ platformAggregateCompanyId)
    (hpath : ReflTransGen (Move config store c u t now) l l') : Rising l' store snapshots := by
  induction hpath with
  | refl => exact h
  | tail _ hmove ih =>
    rcases hmove.record_eq hc with hsame | ⟨k, hnone, hload⟩
    · exact ⟨hsame ▸ ih.records, ih.rows, hsame ▸ ih.pending⟩
    · refine ih.grow (fun key record hrecord => ⟨record, ?_, le_rfl⟩)
        fun key record' hkey hnew => ?_
      · rw [hload, Function.update_of_ne, hrecord]
        rintro rfl
        rw [hnone] at hrecord
        cases hrecord
      · rw [hload, Function.update_apply] at hnew
        split_ifs at hnew with hk
        · rw [← Option.some.inj hnew, hk]
          exact le_rfl
        · rw [hkey] at hnew
          cases hnew

theorem raised {keys : List UsageKey} (h : Rising l store snapshots) (hraised : Raised r keys l l')
    (hnew : ∀ key ∈ keys, l.record key = none → store.total key = 0) :
    Rising l' store snapshots := by
  refine h.grow (fun key record hrecord => ?_) fun key record' hnone hsome => ?_
  · rcases hraised key with hsame | ⟨-, hraised⟩
    · exact ⟨record, hsame.trans hrecord, le_rfl⟩
    · refine ⟨_, hraised, ?_⟩
      unfold RateLimiter.recordAt
      rw [hrecord]
      exact total_le_increment record _ _
  · rcases hraised key with hsame | ⟨hmem, -⟩
    · rw [hsame, hnone] at hsome
      cases hsome
    · rw [hnew key hmem hnone]
      exact fun _ _ => Nat.zero_le _

/-- A pass copies records into snapshots and keeps their routes. -/
theorem framed (h : Rising w.process.limiter store w.flush.pending) (hframe : FlushFrame w w') :
    Rising w'.process.limiter store w'.flush.pending := by
  have hpending : ∀ s ∈ w'.flush.pending, store.total s.key ≤ s.routes.total ∧
      ∃ record, w.process.limiter.record s.key = some record ∧
        s.routes.total ≤ record.routes.total := by
    intro s hs
    rcases hframe.pending s hs with hold | ⟨record, hrecord, hroutes⟩
    · exact ⟨h.rows s hold, h.pending s hold⟩
    · rw [hroutes]
      exact ⟨h.records s.key record hrecord, record, hrecord, le_rfl⟩
  refine ⟨fun key record hrecord => ?_, fun s hs => (hpending s hs).1, fun s hs => ?_⟩
  · obtain ⟨_, hold, hroutes⟩ := hframe.records key record hrecord
    exact hroutes ▸ h.records key _ hold
  · obtain ⟨-, record, hrecord, hle⟩ := hpending s hs
    obtain ⟨record', hrecord'⟩ := Option.isSome_iff_exists.mp
      (hframe.kept s hs (Option.isSome_of_mem hrecord))
    obtain ⟨_, hold, hroutes⟩ := hframe.records s.key record' hrecord'
    obtain rfl := Option.some.inj (hrecord.symm.trans hold)
    exact ⟨record', hrecord', hroutes ▸ hle⟩

/-- A snapshot is written; the pass holds no other of its key. -/
theorem upsert {snapshot : UsageSnapshot} {bytes : List UInt8} (h : Rising l store snapshots)
    (hdistinct : (snapshots.map UsageSnapshot.key).Nodup) (hmem : snapshot ∈ snapshots)
    (hencode : CreditsBlob.encode snapshot.routes = .ok bytes) :
    Rising l (store.upsert snapshot.key bytes) snapshots := by
  refine ⟨fun key record hrecord => ?_, fun s hs => ?_, h.pending⟩
  · rw [total_upsert hencode, Function.update_apply]
    split_ifs with hkey
    · obtain ⟨_, hrecord', hle⟩ := h.pending snapshot hmem
      obtain rfl := Option.some.inj ((hkey ▸ hrecord').symm.trans hrecord)
      exact hle
    · exact h.records key record hrecord
  · rw [total_upsert hencode, Function.update_apply]
    split_ifs with hkey
    · rw [List.inj_on_of_nodup_map hdistinct hs hmem hkey]
    · exact h.rows s hs

theorem flushes (h : Rising w.process.limiter w.process.store w.flush.pending)
    (hfiled : w.Filed config) (hflush : Flushes config w action w') :
    Rising w'.process.limiter w'.process.store w'.flush.pending := by
  refine framed (w := w) ?_ (.of_flushes hfiled hflush)
  cases hflush with
  | write hphase hencode =>
    dsimp only
    split_ifs
    · exact h.upsert hfiled.distinct (by rw [hphase]; exact List.mem_cons_self) hencode
    · exact h
  | budgetWrite =>
    dsimp only
    split_ifs
    · exact ⟨h.records, h.rows, h.pending⟩
    · exact h
  | _ => exact h

end Rising

/-! ### The readings of a shard -/

/-- The frame of a reading in the series that the frame `f` belongs to. -/
def TimeFrame.inSeries (f t : Int) : Int := if f < dailyPrefix then fiveMinuteOf t else dailyOf t

theorem TimeFrame.inSeries_mono (f : Int) {t t' : Int} (h : t ≤ t') :
    inSeries f t ≤ inSeries f t' := by
  have hday := dayOf_mono h
  unfold inSeries fiveMinuteOf dailyOf
  split_ifs <;> omega

/-- The event is no admission to the shard and no prune of it with a reading past `t`. -/
def Event.ReadBy (config : Config) (shard : ℕ) (t : Int) : Event → Prop
  | .admission a => config.shardIndex a.request.companyId = shard → a.unixSeconds ≤ t
  | .prune s t' => s = shard → t' ≤ t
  | .mutation _ _ _ => True

/-- No event of the history is a reading of the shard past `t`. -/
def ReadBy (config : Config) (trace : List Event) (shard : ℕ) (t : Int) : Prop :=
  ∀ event ∈ trace, event.ReadBy config shard t

/-- The reading under which a pass prunes a shard, and the shard. -/
def FlushPhase.pruning : FlushPhase → Option (Int × ℕ)
  | .pruneShard t _ _ shard => some (t, shard)
  | _ => none

/-- The readings of admissions and prunes are not before `start`, and they do not go back in the
order in which the lock of a shard is taken; the process does not restart. -/
def Action.InLockOrder (config : Config) (start : Int) (w : World) : Action → Prop
  | .admission r t _ _ => start ≤ t ∧ ReadBy config w.trace (config.shardIndex r.companyId) t
  | .flush _ => ∀ p ∈ w.flush.pruning, start ≤ p.1 ∧ ReadBy config w.trace p.2 p.1
  | .mutation _ _ _ | .invalidation _ _ => True
  | .restart => False

instance (config : Config) (shard : ℕ) (t : Int) : DecidablePred (Event.ReadBy config shard t)
  | .admission a => inferInstanceAs (Decidable (config.shardIndex a.request.companyId = shard → _))
  | .prune s _ => inferInstanceAs (Decidable (s = shard → _))
  | .mutation _ _ _ => .isTrue trivial

instance (config : Config) (trace : List Event) (shard : ℕ) (t : Int) :
    Decidable (ReadBy config trace shard t) :=
  inferInstanceAs (Decidable (∀ event ∈ trace, _))

instance (config : Config) (start : Int) (w : World) :
    DecidablePred (Action.InLockOrder config start w)
  | .admission _ t _ _ => inferInstanceAs (Decidable (start ≤ t ∧ _))
  | .flush _ => inferInstanceAs (Decidable (∀ p ∈ w.flush.pruning, _))
  | .mutation _ _ _ => .isTrue trivial
  | .invalidation _ _ => .isTrue trivial
  | .restart => .isFalse id

/-! ### The frames of the rows -/

/-- What is known about the key of a company at a time that no reading of its shard is past: nothing
has been recorded or stored under a later frame, and a row that a charge would not find in memory is
of an earlier one. -/
structure Dated (l : RateLimiter) (store : LimiterStore) (t : Int) (key : UsageKey) : Prop where
  upTo : (l.usage.lookup key).isSome ∨ (store.usage key).isSome →
    key.timeFrame ≤ TimeFrame.inSeries key.timeFrame t
  settled : (l.subjects.lookup (key.companyId, key.userId)).isSome → l.usage.lookup key = none →
    store.total key = 0 ∨ key.timeFrame < TimeFrame.inSeries key.timeFrame t

theorem total_of_none (h : store.usage key = none) : store.total key = 0 := by
  funext route d
  unfold LimiterStore.total
  rw [LimiterStore.routes_of_none h]
  exact RoutedCredits.total_empty route d

namespace Dated

variable {t' : Int}

theorem mono (h : Dated l store t key) (ht : t ≤ t') : Dated l store t' key := by
  have hle := TimeFrame.inSeries_mono key.timeFrame ht
  exact ⟨fun hkey => (h.upTo hkey).trans hle, fun hsubject hnone =>
    (h.settled hsubject hnone).imp_right fun hlt => hlt.trans_le hle⟩

theorem congr {store' : LimiterStore} (h : Dated l store t key)
    (hsubjects : l'.subjects = l.subjects)
    (hsome : (l'.usage.lookup key).isSome = (l.usage.lookup key).isSome)
    (hstore : store'.usage key = store.usage key) : Dated l' store' t key := by
  have htotal : store'.total key = store.total key := by
    funext route d
    unfold LimiterStore.total LimiterStore.routes
    rw [hstore]
  refine ⟨?_, fun hsubject hnone => ?_⟩
  · rw [hsome, hstore]
    exact h.upTo
  · rw [hsubjects] at hsubject
    rw [htotal]
    refine h.settled hsubject ?_
    rw [← Option.not_isSome_iff_eq_none, ← hsome, hnone]
    exact Bool.false_ne_true

/-- The record of the key is in memory, and its frame is not a later one. -/
theorem of_isSome (hrecord : (l.usage.lookup key).isSome)
    (hframe : key.timeFrame ≤ TimeFrame.inSeries key.timeFrame t) : Dated l store t key :=
  ⟨fun _ => hframe, fun _ hnone => by rw [hnone] at hrecord; cases hrecord⟩

/-- A subject is loaded with the rows of the reading. -/
theorem subject {s : SubjectState} {limits : ScopeLimits} (h : Dated l store t key)
    (hs : RecoveredSubject store key.companyId key.userId t now limits l s)
    (hnone : l.usage.lookup key = none) :
    store.total key = 0 ∨ key.timeFrame < TimeFrame.inSeries key.timeFrame t := by
  cases hstored : store.usage key with
  | none => exact .inl (total_of_none hstored)
  | some =>
    refine .inr (lt_of_le_of_ne (h.upTo (.inr (by rw [hstored]; rfl))) fun heq => ?_)
    have hloaded : (l.usage.lookup key).isSome := by
      obtain ⟨c, u, f⟩ := key
      unfold TimeFrame.inSeries at heq
      split_ifs at heq
      · refine hs.hours f ?_ (by rw [hstored]; rfl)
        obtain rfl : f = _ := heq
        exact fiveMinuteOf_mem_hourFrames t
      · have hdaily := hs.daily
        rwa [← heq] at hdaily
    rw [hnone] at hloaded
    cases hloaded

theorem move (h : Dated l store t key) (ht : 18000 ≤ t) (hc : key.companyId = c → t' = t)
    (hmove : Move config store c u t' now l l') : Dated l' store t key := by
  cases hmove with
  | access | budget | refreshMonth | refreshDay | platform => exact ⟨h.upTo, h.settled⟩
  | usage k hk hsubject hnone hstored =>
    by_cases hkk : key = k
    · subst hkk
      refine of_isSome (by rw [RateLimiter.setUsage, Finmap.lookup_insert]; rfl) ?_
      rcases hstored with hdaily | hstored
      · have hday := TimeFrame.dayOf_nonneg ht
        rw [hdaily, hc hk]
        unfold TimeFrame.inSeries TimeFrame.dailyOf
        rw [if_neg (by omega)]
      · exact h.upTo (.inr hstored)
    · have hsame : (l.setUsage (l.usage.insert k (.loaded (store.routes k)))).usage.lookup key =
          l.usage.lookup key := Finmap.lookup_insert_of_ne _ hkk
      refine ⟨fun hkey => h.upTo (hsame ▸ hkey), fun hsome hnone' => h.settled hsome ?_⟩
      rw [← hsame, hnone']
  | subject userId s hu hnone hs =>
    refine ⟨h.upTo, fun hsome hnone' => ?_⟩
    by_cases hk : (key.companyId, key.userId) = (c, userId)
    · obtain ⟨hcompany, rfl⟩ := Prod.mk.inj hk
      subst hcompany
      obtain rfl := hc rfl
      exact h.subject hs hnone'
    · exact h.settled ((Finmap.lookup_insert_of_ne l.subjects hk) ▸ hsome) hnone'
  | refreshSubject userId s hu hs =>
    refine ⟨h.upTo, fun hsome hnone => h.settled ?_ hnone⟩
    by_cases hk : (key.companyId, key.userId) = (c, userId)
    · rw [hk, hs]
      rfl
    · exact (Finmap.lookup_insert_of_ne l.subjects hk) ▸ hsome

theorem moves (h : Dated l store t key) (ht : 18000 ≤ t) (hc : key.companyId = c → t' = t)
    (hpath : ReflTransGen (Move config store c u t' now) l l') : Dated l' store t key := by
  induction hpath with
  | refl => exact h
  | tail _ hmove ih => exact ih.move ht hc hmove

end Dated

/-- The frames of the keys of a charge are those of its reading. -/
theorem inSeries_of_mem_chargeKeys
    (hframe : TimeFrame.fiveMinute t = .ok (TimeFrame.fiveMinuteOf t))
    (hdaily : TimeFrame.daily t = .ok (TimeFrame.dailyOf t)) (hmem : key ∈ chargeKeys r t) :
    key.timeFrame = TimeFrame.inSeries key.timeFrame t := by
  obtain ⟨-, -, hlt⟩ := TimeFrame.fiveMinute_ok hframe
  have hday := TimeFrame.dayOf_nonneg (TimeFrame.daily_ok hdaily).2
  have hge : ¬TimeFrame.dailyOf t < TimeFrame.dailyPrefix := by
    unfold TimeFrame.dailyOf
    omega
  unfold chargeKeys at hmem
  simp only [List.mem_cons, List.not_mem_nil, or_false] at hmem
  rcases hmem with rfl | rfl | rfl | rfl
  · exact (if_pos hlt).symm
  · exact (if_neg hge).symm
  · exact (if_pos hlt).symm
  · exact (if_neg hge).symm

theorem mem_chargeKeys_of_company (hkey : key.companyId ≠ platformAggregateCompanyId)
    (hmem : key ∈ chargedKeys r t) : key ∈ chargeKeys r t := by
  refine (List.mem_append.mp hmem).resolve_right fun hplatform => hkey ?_
  rw [List.mem_singleton.mp hplatform, company_platformKeyOf]

theorem Dated.debited {t' : Int} (h : Dated l store t' key)
    (hkey : key.companyId ≠ platformAggregateCompanyId) (hc : key.companyId = r.companyId → t' = t)
    (hdebited : Debited config r t now l l') : Dated l' store t' key := by
  rcases hdebited.ready with rfl | ⟨extra, company, user, b, hready⟩
  · exact h
  have hsubjects : (l'.subjects.lookup (key.companyId, key.userId)).isSome →
      (l.subjects.lookup (key.companyId, key.userId)).isSome := by
    intro hsome
    by_cases hcompany : (key.companyId, key.userId) = (r.companyId, companyAggregateUserId)
    · rw [hcompany, hready.companyAt]
      rfl
    by_cases huser : (key.companyId, key.userId) = (r.companyId, r.userId)
    · rw [huser, hready.userAt]
      rfl
    · rwa [hdebited.subjects _ hcompany huser] at hsome
  have hraised := hdebited.raised key
  rw [record_of_usage hkey, record_of_usage hkey] at hraised
  rcases hraised with hsame | ⟨hmem, hraised⟩
  · exact ⟨fun hsome => h.upTo (hsame ▸ hsome), fun hsome hnone =>
      h.settled (hsubjects hsome) (hsame ▸ hnone)⟩
  · have hmem := mem_chargeKeys_of_company hkey hmem
    obtain rfl := hc (company_of_mem_chargeKeys hmem)
    exact .of_isSome (by rw [hraised]; rfl)
      (inSeries_of_mem_chargeKeys hready.fiveMinute hready.daily hmem).le

/-- A record that a charge makes has no stored row. -/
theorem Ready.total_eq_zero {extra : ℕ} {company user : SubjectState} {b : CompanyBudgetState}
    (hready : Ready config r t now extra l company user b) (hr : r.Parsed)
    (hdated : ∀ key : UsageKey, key.companyId = r.companyId → Dated l store t key)
    (hmem : key ∈ chargedKeys r t) (hnone : l.record key = none) : store.total key = 0 := by
  by_cases hkey : key.companyId = platformAggregateCompanyId
  · have hplatform := hready.platform
    rcases List.mem_append.mp hmem with hmem | hmem
    · exact absurd ((company_of_mem_chargeKeys hmem).symm.trans hkey) hr.company_ne
    · rw [← List.mem_singleton.mp hmem, ← record_of_platform hkey, hnone] at hplatform
      cases hplatform
  · have hmem := mem_chargeKeys_of_company hkey hmem
    have hcompany := company_of_mem_chargeKeys hmem
    have hframe := inSeries_of_mem_chargeKeys hready.fiveMinute hready.daily hmem
    rw [record_of_usage hkey] at hnone
    refine ((hdated key hcompany).settled ?_ hnone).resolve_right fun hlt => hlt.ne hframe
    unfold chargeKeys at hmem
    simp only [List.mem_cons, List.not_mem_nil, or_false] at hmem
    rcases hmem with rfl | rfl | rfl | rfl
    · rw [hready.userAt]; rfl
    · rw [hready.userAt]; rfl
    · rw [hready.companyAt]; rfl
    · rw [hready.companyAt]; rfl

/-! ### The invariant -/

/-- What a process keeps whose readings do not go back. -/
structure World.Durable (config : Config) (start : Int) (w : World) : Prop where
  filed : w.Filed config
  rising : Rising w.process.limiter w.process.store w.flush.pending
  dated : ∀ key t, key.companyId ≠ platformAggregateCompanyId → start ≤ t →
    ReadBy config w.trace (config.shardIndex key.companyId) t →
    Dated w.process.limiter w.process.store t key

variable {start : Int}

theorem World.Durable.admission {fates : Fates} {record : AdmissionRecord} (hstart : 18000 ≤ start)
    (h : w.Durable config start) (hr : r.Parsed)
    (hok : (Action.admission r t now fates).InLockOrder config start w)
    (hmoves : ReflTransGen (Move config w.process.store r.companyId r.userId t now)
      w.process.limiter l₁)
    (hdebited : Debited config r t now l₁ l') (hrequest : record.request = r)
    (htime : record.unixSeconds = t)
    (hfiled : World.Filed config ⟨⟨l', w.process.store⟩, w.flush, .admission record :: w.trace⟩) :
    World.Durable config start ⟨⟨l', w.process.store⟩, w.flush, .admission record :: w.trace⟩ := by
  obtain ⟨hle, hbefore⟩ := hok
  have hdated₁ : ∀ key : UsageKey, key.companyId = r.companyId →
      Dated l₁ w.process.store t key := by
    intro key hkey
    refine (h.dated key t (hkey ▸ hr.company_ne) hle ?_).moves (hstart.trans hle) (fun _ => rfl)
      hmoves
    rw [hkey]
    exact hbefore
  refine ⟨hfiled, ?_, fun key t' hkey ht' hread => ?_⟩
  · have hrising := h.rising.moves hr.company_ne hmoves
    rcases hdebited.ready with rfl | ⟨extra, company, user, b, hready⟩
    · exact hrising
    · exact hrising.raised hdebited.raised fun key => hready.total_eq_zero hr hdated₁
  · obtain ⟨hrecord, hread⟩ := List.forall_mem_cons.mp hread
    by_cases hc : key.companyId = r.companyId
    · refine ((hdated₁ key hc).debited hkey (fun _ => rfl) hdebited).mono ?_
      rw [← htime]
      refine hrecord ?_
      rw [hrequest, hc]
    · refine ((h.dated key t' hkey ht' hread).moves (hstart.trans ht') ?_ hmoves).debited hkey ?_
        hdebited
      · exact fun hc' => absurd hc' hc
      · exact fun hc' => absurd hc' hc

theorem Dated.pruneShard {t' : Int} {shard : ℕ} (h : Dated l store t' key)
    (hdated : config.shardIndex key.companyId = shard → t ≤ t' ∧ Dated l store t key)
    (hkey : key.companyId ≠ platformAggregateCompanyId) :
    Dated (l.pruneShard config (TimeFrame.fiveMinuteOf t) (TimeFrame.dailyOf t) shard) store t'
      key := by
  have hprune :=
    record_pruneShard config l (TimeFrame.fiveMinuteOf t) (TimeFrame.dailyOf t) shard key
  rw [record_of_usage hkey, record_of_usage hkey] at hprune
  rcases hprune with hsame | ⟨hnone, hpruned⟩
  · exact h.congr rfl (by rw [hsame]) rfl
  · refine ⟨fun hsome => h.upTo (hsome.imp_left fun hsome => ?_), fun hsubject _ => ?_⟩
    · rw [hnone] at hsome
      cases hsome
    · cases hrecord : l.usage.lookup key with
      | none => exact h.settled hsubject hrecord
      | some record =>
        -- a record that is pruned is of an earlier frame than the reading of the prune
        obtain ⟨-, hshard, hframe, hday⟩ := hpruned record hrecord
        obtain ⟨ht, hdated⟩ := hdated hshard
        have hle := hdated.upTo (.inl (by rw [hrecord]; rfl))
        refine .inr (lt_of_lt_of_le (lt_of_le_of_ne hle ?_) (TimeFrame.inSeries_mono _ ht))
        unfold TimeFrame.inSeries
        split_ifs <;> assumption

theorem World.Durable.flush {action : FlushAction} (h : w.Durable config start)
    (hok : (Action.flush action).InLockOrder config start w) (hflush : Flushes config w action w') :
    w'.Durable config start := by
  refine ⟨h.filed.flushes hflush, h.rising.flushes h.filed hflush,
    fun key t' hkey ht' hread => ?_⟩
  cases hflush with
  | start | collect | collectPlatform | unencodable | prune | noPrune | budget | noBudget
  | budgetCollect => exact h.dated key t' hkey ht' hread
  | @write snapshot snapshots bytes succeeds landed hphase =>
    have hdated := h.dated key t' hkey ht' hread
    by_cases hs : key = snapshot.key
    · -- what is written is in memory
      obtain ⟨record, hrecord, -⟩ :=
        h.rising.pending snapshot (by rw [hphase]; exact List.mem_cons_self)
      have hsome : (w.process.limiter.usage.lookup key).isSome := by
        rw [← record_of_usage hkey, hs, hrecord]
        rfl
      dsimp only
      split_ifs <;> exact .of_isSome hsome (hdated.upTo (.inl hsome))
    · dsimp only
      split_ifs
      · exact hdated.congr rfl rfl (Function.update_of_ne hs _ _)
      · exact hdated
  | mark =>
    refine (h.dated key t' hkey ht' hread).congr (markFlushed_subjects _ _) ?_ rfl
    rw [← record_of_usage hkey, ← record_of_usage hkey]
    exact isSome_record_markFlushed _ _ key
  | @pruneShard t fiveMinute day shard hphase =>
    obtain ⟨hprune, hbefore⟩ := List.forall_mem_cons.mp hread
    have hstanding := h.filed.standing
    obtain ⟨hle, horder⟩ := hok (t, shard) (by rw [hphase]; rfl)
    rw [hphase] at hstanding
    obtain ⟨rfl, rfl⟩ := hstanding
    exact (h.dated key t' hkey ht' hbefore).pruneShard
      (fun hs => ⟨hprune hs.symm, h.dated key t hkey hle (hs ▸ horder)⟩) hkey
  | prunePlatform => exact (h.dated key t' hkey ht' hread).congr rfl rfl rfl
  | budgetWrite =>
    have hdated := h.dated key t' hkey ht' hread
    dsimp only
    split_ifs
    · exact hdated.congr rfl rfl rfl
    · exact hdated
  | @budgetMark usage version =>
    refine (h.dated key t' hkey ht' hread).congr ?_ ?_ rfl
    · unfold RateLimiter.markUsageFlushed
      dsimp only
      split <;> rfl
    · rw [(markUsageFlushed_usage w.process.limiter usage.companyId version).1]

theorem World.Durable.step (hstart : 18000 ≤ start) (h : w.Durable config start) (ha : a.Parsed)
    (hok : a.InLockOrder config start w) (hstep : Limiter.step config w a = some w') :
    w'.Durable config start := by
  have hfiled := h.filed.step ha hstep
  cases usageStep_spec ha hstep with
  | admission hr hmoves hdebited hrequest htime =>
    exact h.admission hstart hr hok hmoves hdebited hrequest htime hfiled
  | other husage hplatform hsubjects hstore hflush htrace =>
    refine ⟨hfiled, ?_, fun key t hkey ht hread => ?_⟩
    · have hrecord := record_congr husage hplatform
      have htotal := total_congr hstore
      rw [hflush]
      exact ⟨hrecord ▸ htotal ▸ h.rising.records, htotal ▸ h.rising.rows,
        hrecord ▸ h.rising.pending⟩
    · refine (h.dated key t hkey ht fun event he => hread event (htrace he)).congr hsubjects ?_ ?_
      · rw [husage]
      · rw [hstore]
  | flush hflush => exact h.flush hok hflush
  | restart => exact hok.elim

/-- Nothing is stored under a frame later than those of `start`. -/
def LimiterStore.NotAfter (store : LimiterStore) (start : Int) : Prop :=
  ∀ key, (store.usage key).isSome → key.timeFrame ≤ TimeFrame.inSeries key.timeFrame start

theorem World.Durable.boot (hstore : store.NotAfter start) :
    (World.boot store).Durable config start := by
  refine ⟨.boot store, ⟨fun key record hrecord => ?_, List.forall_mem_nil _, List.forall_mem_nil _⟩,
    fun key t _ ht _ => ⟨fun hsome => ?_, fun hsome => ?_⟩⟩
  · have hnone : RateLimiter.new.record key = none := by
      unfold RateLimiter.record
      split_ifs <;> exact Finmap.lookup_empty key
    cases hnone.symm.trans hrecord
  · refine (hstore key (hsome.resolve_left fun hsome => ?_)).trans (TimeFrame.inSeries_mono _ ht)
    cases (Finmap.lookup_empty key) ▸ hsome
  · cases (Finmap.lookup_empty (key.companyId, key.userId)) ▸ hsome

/-! ### Runs -/

/-- A pass collects the records of the sample charge. -/
def collectSample : List Action :=
  [.flush .start, .flush (.collect (chargeKeys sampleRequest 1800000000)),
    .flush (.collectPlatform [platformKeyOf 1800000000])]

/-- The pass goes on with its writes, all of which succeed, and prunes at the reading `t`. -/
def writeSample (t : Int) : List Action :=
  (List.replicate 5 [.flush (.write true true), .flush .mark]).flatten ++
    [.flush (.prune (some t)), .flush .pruneShard, .flush .prunePlatform, .flush (.budget none)]

/-- **Stored totals never go down** in a run of one process in which the readings do not go back in
the order of the locks. -/
theorem stored_totals_rise {start : Int} (hstart : 18000 ≤ start) (hstore : store.NotAfter start)
    (h : Reaches (step config) (fun w a => a.Parsed ∧ a.InLockOrder config start w)
      (World.boot store) w) {snapshot : UsageSnapshot}
    (hwrite : w.flush = .write (snapshot :: snapshots)) (route : ℕ) (d : Resource) :
    w.process.store.total snapshot.key route d ≤ snapshot.routes.total route d := by
  have hinv : w.Durable config start :=
    h.invariant (I := fun w => w.Durable config start) (.boot hstore)
      fun w a w' _ hinv hok hstep => hinv.step hstart hok.1 hok.2 hstep
  exact hinv.rising.rows snapshot (by rw [hwrite]; exact List.mem_cons_self) route d

theorem stored_totals_rise_twice :
    ∃ w, Reaches (step sampleConfig)
        (fun w a => a.Parsed ∧ a.InLockOrder sampleConfig 1800000000 w) (World.boot .empty) w ∧
      ∃ snapshot rest, w.flush = .write (snapshot :: rest) ∧
        w.process.store.total snapshot.key 3 .cpu = 25 ∧
        w.process.store.total snapshot.key 3 .cpu ≤ snapshot.routes.total 3 .cpu := by
  obtain ⟨w, hreach, hw⟩ : ∃ w, Reaches (step sampleConfig)
      (fun w a => a.Parsed ∧ a.InLockOrder sampleConfig 1800000000 w) (World.boot .empty) w ∧
      ∃ snapshot ∈ w.flush.pending.head?, w.flush = .write w.flush.pending ∧
        w.process.store.total snapshot.key 3 .cpu = 25 :=
    exists_of_runList (.admission sampleRequest 1800000000 0 (fun _ => .done) :: collectSample ++
      writeSample 1800000000 ++ [.admission sampleRequest 1800000001 0 fun _ => .done] ++
      collectSample) (by decide +kernel)
  obtain ⟨snapshot, hhead, hphase, htotal⟩ := hw
  obtain ⟨rest, hrest⟩ := List.head?_eq_some_iff.mp hhead
  rw [hrest] at hphase
  exact ⟨w, hreach, snapshot, rest, hphase, htotal,
    stored_totals_rise (by decide) (fun key h => by cases h) hreach hphase 3 .cpu⟩

/-- Two charges of the last second of a frame are stored, and pruned in the next second; then a
third gets the lock that read the clock when the first two did. -/
def lateCharge : List Action :=
  List.replicate 2 (.admission sampleRequest 1800000299 0 fun _ => .done) ++ collectSample ++
    writeSample 1800000300 ++ [.admission sampleRequest 1800000299 0 fun _ => .done] ++
    collectSample

theorem late_charge_lowers_total :
    ∃ w, runList (step sampleConfig) (fun _ a => a.Parsed) (World.boot .empty) lateCharge = some w ∧
      ∃ snapshot rest, w.flush = .write (snapshot :: rest) ∧
        snapshot.routes.total 3 .cpu = 25 ∧ w.process.store.total snapshot.key 3 .cpu = 50 := by
  obtain ⟨w, hrun, hw⟩ : ∃ w ∈ runList (step sampleConfig) (fun _ a => a.Parsed) (World.boot .empty)
      lateCharge, ∃ snapshot ∈ w.flush.pending.head?, w.flush = .write w.flush.pending ∧
        snapshot.routes.total 3 .cpu = 25 ∧ w.process.store.total snapshot.key 3 .cpu = 50 := by
    decide +kernel
  obtain ⟨snapshot, hhead, hphase, htotals⟩ := hw
  obtain ⟨rest, hrest⟩ := List.head?_eq_some_iff.mp hhead
  exact ⟨w, hrun, snapshot, rest, hrest ▸ hphase, htotals⟩

/-- **A pass marks only what is stored.** In every run over any store, restarts, failed writes and
charges during the pass included, a pass has collected each record once, and when it marks one as
flushed, the row in the store has the totals of its snapshot. -/
theorem pass_marks_stored (h : Reaches (step config) (fun _ a => a.Parsed) (World.boot store) w) :
    (w.flush.pending.map UsageSnapshot.key).Nodup ∧
      ∀ s rest, w.flush = .mark s rest → w.process.store.total s.key = s.routes.total := by
  have hfiled : w.Filed config :=
    h.invariant (I := World.Filed config) (.boot store) fun _ _ _ _ hf ha hs => hf.step ha hs
  refine ⟨hfiled.distinct, fun s rest hmark => ?_⟩
  have hstanding := hfiled.standing
  rwa [hmark] at hstanding

/-- A second charge comes while the pass writes; the first record is then to be marked. -/
theorem pass_marks_stored_charged :
    ∃ w s rest, Reaches (step sampleConfig) (fun _ a => a.Parsed) (World.boot .empty) w ∧
      w.flush = .mark s rest ∧ s.routes.total 3 .cpu = 25 ∧
      (w.flush.pending.map UsageSnapshot.key).Nodup ∧
      w.process.store.total s.key = s.routes.total := by
  obtain ⟨w, hreach, s, -, hmark, htotal⟩ : ∃ w, Reaches (step sampleConfig) (fun _ a => a.Parsed)
      (World.boot .empty) w ∧ ∃ s ∈ w.flush.pending.head?,
        w.flush = .mark s w.flush.pending.tail ∧ s.routes.total 3 .cpu = 25 :=
    exists_of_runList (.admission sampleRequest 1800000000 0 (fun _ => .done) :: collectSample ++
      [.admission sampleRequest 1800000000 0 fun _ => .done, .flush (.write true true)])
      (by decide +kernel)
  obtain ⟨hnodup, hstored⟩ := pass_marks_stored hreach
  exact ⟨w, s, _, hreach, hmark, htotal, hnodup, hstored s _ hmark⟩

end Fareward.Limiter
