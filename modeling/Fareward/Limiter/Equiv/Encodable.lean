import Fareward.Lib.Machine
import Fareward.Limiter.Equiv.Canonical
import Fareward.Limiter.Equiv.Charges

/-!
# Whether a row can hold the totals

A record counts in `u64` and its row has thirty-two bits for a route. No gate looks at what a
record has come to: the hourly and daily windows start again, the pool and every entitlement may be
as large as an `i64`, and the platform's row adds up all companies. So a charge can be accepted
that no pass will ever store (`accepted_charge_unencodable`).

The routes are no obstacle, since `parse_charge` refuses those past fourteen bits. So as long as
what a charge that passes its gates finds under its keys leaves room for it (`Action.HasRoom`),
every record and every snapshot can be encoded, and a pass fails for no other reason than the store
(`encodable_of_fits`). Refused requests raise nothing and need no room.
-/

namespace Fareward.Limiter

open Relation

variable {config : Config} {store : LimiterStore} {r : Request} {c u t : Int} {now : ℕ}
  {l l' : RateLimiter} {w w' : World} {a : Action} {action : FlushAction} {key : UsageKey}
  {routes : RoutedCredits}

/-! ### What is in memory and on its way to the store -/

/-- The routes of every record and of every snapshot have the property. -/
structure World.All (P : RoutedCredits → Prop) (w : World) : Prop where
  records : ∀ key record, w.process.limiter.record key = some record → P record.routes
  pending : ∀ s ∈ w.flush.pending, P s.routes

section

variable {P : RoutedCredits → Prop}

theorem records_of_none :
    ∀ key record, RateLimiter.new.record key = some record → P record.routes := by
  intro key record hrecord
  have hnone : RateLimiter.new.record key = none := by
    unfold RateLimiter.record
    split_ifs <;> exact Finmap.lookup_empty key
  rw [hnone] at hrecord
  cases hrecord

/-- No step of the flush makes new totals. -/
theorem World.All.flushes (hfiled : w.Filed config) (h : w.All P)
    (hflush : Flushes config w action w') : w'.All P := by
  have hframe := FlushFrame.of_flushes hfiled hflush
  refine ⟨fun key record' hrecord => ?_, fun s hs => ?_⟩
  · obtain ⟨record, hold, hroutes⟩ := hframe.records key record' hrecord
    exact hroutes ▸ h.records key record hold
  · rcases hframe.pending s hs with hold | ⟨record, hrecord, hroutes⟩
    · exact h.pending s hold
    · exact hroutes ▸ h.records s.key record hrecord

end

/-! ### Charges that fit -/

/-- The totals can be written as a row. -/
def RoutedCredits.Encodable (routes : RoutedCredits) : Prop :=
  ∃ bytes, CreditsBlob.encode routes = .ok bytes

/-- What the limiter counts for a route under a key: the total in memory, or else the stored one. -/
def RateLimiter.held (l : RateLimiter) (store : LimiterStore) (key : UsageKey) :
    ℕ → Resource → ℕ :=
  ((l.record key).map (·.routes.total)).getD (store.total key)

/-- What a charge that passes its gates finds under its keys leaves room for it. -/
def Action.HasRoom (config : Config) (w : World) : Action → Prop
  | .admission r t now fates => passes config fates r t now w.process = true →
      ∀ key ∈ chargedKeys r t, ∀ d ∈ [Resource.cpu, .inference],
        w.process.limiter.held w.process.store key r.routeId d + r.credits.of d < 2 ^ 32
  | _ => True

instance (w : World) : (a : Action) → Decidable (a.HasRoom config w)
  | .admission .. =>
    inferInstanceAs (Decidable (_ → ∀ key ∈ _, ∀ d ∈ [Resource.cpu, .inference], _))
  | .mutation .. | .invalidation .. | .flush _ | .restart => inferInstanceAs (Decidable True)

theorem encodable_empty : RoutedCredits.Encodable ∅ := ⟨[], rfl⟩

/-- Every row that decodes can be written again. -/
theorem encodable_routes (store : LimiterStore) (key : UsageKey) :
    (store.routes key).Encodable := by
  unfold LimiterStore.routes
  split
  · exact encodable_empty
  · next bytes _ =>
    cases hdecode : CreditsBlob.decode bytes with
    | error => exact encodable_empty
    | ok => exact ⟨bytes, CreditsBlob.encode_decode hdecode⟩

theorem RoutedCredits.Encodable.insert {route : ℕ} {credits : Credits} (h : routes.Encodable)
    (hroute : route ≤ maxRouteId) (hcredits : ∀ d, credits.of d < 2 ^ 32) :
    RoutedCredits.Encodable (routes.insert route credits) := by
  refine (CreditsBlob.encode_ok_iff _).mpr fun e he => ?_
  rcases SortedMap.mem_insertEntry he with rfl | he
  · exact ⟨hroute, hcredits .cpu, hcredits .inference⟩
  · exact (CreditsBlob.encode_ok_iff routes).mp h e he

theorem Request.Parsed.route_le (h : r.Parsed) : r.routeId ≤ maxRouteId := by
  obtain ⟨frame, h⟩ := h
  unfold parseCharge at h
  simp only at h
  split_ifs at h with _ _ hroute
  injection h with h
  subst h
  exact not_lt.mp hroute

/-- A record that is raised stays encodable if there is room for the charge. -/
theorem encodable_increment {record : UsageRecord} (hr : r.Parsed)
    (h : record.routes.Encodable)
    (hfits : ∀ d, record.routes.total r.routeId d + r.credits.of d < 2 ^ 32) :
    (record.increment r.routeId r.credits).2.routes.Encodable := by
  unfold UsageRecord.increment
  dsimp only
  split
  · exact h
  · next updated hadd =>
    have hinsert : RoutedCredits.Encodable (record.routes.insert r.routeId updated) := by
      refine h.insert hr.route_le fun d => ?_
      rw [Credits.of_checkedAdd hadd]
      exact hfits d
    split <;> exact hinsert

/-- Loads change nothing that the limiter counts. -/
theorem held_move (hc : c ≠ platformAggregateCompanyId)
    (hmove : Move config store c u t now l l') : l'.held store = l.held store := by
  funext key
  unfold RateLimiter.held
  rcases hmove.record_eq hc with hsame | ⟨j, hnone, hload⟩
  · rw [hsame]
  · rw [hload, Function.update_apply]
    split_ifs with hj
    · rw [hj, hnone]
      rfl
    · rfl

theorem held_moves (hc : c ≠ platformAggregateCompanyId)
    (hpath : ReflTransGen (Move config store c u t now) l l') : l'.held store = l.held store := by
  induction hpath with
  | refl => rfl
  | tail _ hmove ih => exact (held_move hc hmove).trans ih

theorem encodable_moves (hc : c ≠ platformAggregateCompanyId)
    (hpath : ReflTransGen (Move config store c u t now) l l')
    (h : ∀ key record, l.record key = some record → record.routes.Encodable) :
    ∀ key record, l'.record key = some record → record.routes.Encodable := by
  induction hpath with
  | refl => exact h
  | tail _ hmove ih =>
    rcases hmove.record_eq hc with hsame | ⟨j, -, hload⟩
    · rw [hsame]
      exact ih
    · intro key record hrecord
      rw [hload, Function.update_apply] at hrecord
      split_ifs at hrecord with hj
      · rw [← Option.some.inj hrecord]
        exact encodable_routes store j
      · exact ih key record hrecord

/-- What a charge starts from is no more than what the limiter counts. -/
theorem total_recordAt_le (l : RateLimiter) (store : LimiterStore) (key : UsageKey) (route : ℕ)
    (d : Resource) : (l.recordAt key).routes.total route d ≤ l.held store key route d := by
  unfold RateLimiter.recordAt RateLimiter.held
  cases l.record key with
  | none =>
    show RoutedCredits.total ∅ route d ≤ _
    rw [RoutedCredits.total_empty]
    exact Nat.zero_le _
  | some => exact le_rfl

theorem encodable_raised (store : LimiterStore) (hr : r.Parsed)
    (h : ∀ key record, l.record key = some record → record.routes.Encodable)
    (hfits : ∀ key ∈ chargedKeys r t, ∀ d, l.held store key r.routeId d + r.credits.of d < 2 ^ 32)
    (hraised : Raised r (chargedKeys r t) l l') :
    ∀ key record, l'.record key = some record → record.routes.Encodable := by
  intro key record hrecord
  rcases hraised key with hsame | ⟨hmem, hincrement⟩
  · exact h key record (hsame ▸ hrecord)
  · rw [hincrement] at hrecord
    rw [← Option.some.inj hrecord]
    have hold : (l.recordAt key).routes.Encodable := by
      unfold RateLimiter.recordAt
      cases hkey : l.record key with
      | none => exact encodable_empty
      | some old => exact h key old hkey
    refine encodable_increment hr hold fun d => ?_
    have hle := total_recordAt_le l store key r.routeId d
    have := hfits key hmem d
    omega

/-- **Charges that fit leave everything encodable.** -/
theorem World.All.step (hfiled : w.Filed config) (h : w.All RoutedCredits.Encodable)
    (ha : a.Parsed) (hfits : a.HasRoom config w) (hstep : Limiter.step config w a = some w') :
    w'.All RoutedCredits.Encodable := by
  cases usageStep_spec ha hstep with
  | @admission r t now fates l₁ l' record hr hmoves hdebited _ _ hpasses =>
    refine ⟨?_, h.pending⟩
    have hloaded := encodable_moves hr.company_ne hmoves h.records
    rcases hpasses with hpasses | rfl
    · refine encodable_raised w.process.store hr hloaded ?_ hdebited.raised
      intro key hkey d
      rw [held_moves hr.company_ne hmoves]
      refine hfits hpasses key hkey d ?_
      cases d <;> simp
    · exact hloaded
  | other husage hplatform _ _ hflush =>
    refine ⟨?_, ?_⟩
    · rw [record_congr husage hplatform]
      exact h.records
    · rw [hflush]
      exact h.pending
  | flush hflush => exact h.flushes hfiled hflush
  | restart => exact ⟨records_of_none, List.forall_mem_nil _⟩

/-- **Every accepted charge can be stored, as long as the totals have room for it.** In every run
over any store in which each charge that passes its gates finds, under each of its five keys, a
total of its route that with the charge stays below `2 ^ 32`, every record in memory can be encoded,
and so can every snapshot that a pass has taken. -/
theorem encodable_of_fits
    (h : Reaches (step config) (fun w a => a.Parsed ∧ a.HasRoom config w) (World.boot store) w) :
    (∀ key record, w.process.limiter.record key = some record →
      ∃ bytes, CreditsBlob.encode record.routes = .ok bytes) ∧
    ∀ snapshot ∈ w.flush.pending, ∃ bytes, CreditsBlob.encode snapshot.routes = .ok bytes := by
  have hinv : w.Filed config ∧ w.All RoutedCredits.Encodable := by
    refine h.invariant (I := fun w => w.Filed config ∧ w.All RoutedCredits.Encodable)
      ⟨.boot store, records_of_none, List.forall_mem_nil _⟩ ?_
    rintro w a w' - ⟨hfiled, hall⟩ ⟨ha, hfits⟩ hstep
    exact ⟨hfiled.step ha hstep, hall.step hfiled ha hfits hstep⟩
  exact ⟨hinv.2.records, hinv.2.pending⟩

/-- A platform row whose total of route 3 is the largest that a row can hold. -/
def fullPlatformRow : LimiterStore :=
  LimiterStore.empty.upsert (platformKeyOf 1800000000) [0, 15, 255, 255, 255, 255, 0, 0, 0, 0]

/-- The platform's row has no room for a request that needs a grant: it is refused. A charge of the
next five minutes fits, and so do the snapshots of a pass after it. -/
theorem encodable_of_fits_charge :
    ∃ w, Reaches (step sampleConfig) (fun w a => a.Parsed ∧ a.HasRoom sampleConfig w)
        (World.boot fullPlatformRow) w ∧
      w.flush.pending.length = 4 ∧
      ∀ snapshot ∈ w.flush.pending, ∃ bytes, CreditsBlob.encode snapshot.routes = .ok bytes := by
  exact exists_and_of_runList [
    .admission { sampleRequest with requiredAccess := [5, 0, 0, 0] } 1800000000 0 fun _ => .done,
    .admission sampleRequest 1800000300 0 fun _ => .done, .flush .start,
    .flush (.collect (chargeKeys sampleRequest 1800000300))] (by decide +kernel)
    fun _ hreach _ => (encodable_of_fits hreach).2

/-- **A charge is accepted that no pass can store.** The platform's row is full, the policy is
valid, the row decodes; the charge of 25 credits is allowed, and the platform record cannot be
encoded from then on. -/
theorem accepted_charge_unencodable :
    validatePolicy sampleConfig.policy = .ok () ∧ sampleRequest.Parsed ∧
    (∀ key bytes, fullPlatformRow.usage key = some bytes →
      ∃ routes, CreditsBlob.decode bytes = .ok routes) ∧
    ((admitAt sampleConfig (fun _ => .done) sampleRequest 1800000000 0).exec
      (World.boot fullPlatformRow).process).1 = .ok ⟨.allowed .none, 25⟩ ∧
    ∃ w, Reaches (step sampleConfig) (fun _ a => a.Parsed) (World.boot fullPlatformRow) w ∧
      ∃ record, w.process.limiter.record (platformKeyOf 1800000000) = some record ∧
        CreditsBlob.encode record.routes = .error .creditsOverflow := by
  refine ⟨rfl, sampleRequest_parsed, ?_, by decide +kernel, ?_⟩
  · intro key bytes hbytes
    unfold fullPlatformRow LimiterStore.upsert at hbytes
    dsimp only at hbytes
    rw [Function.update_apply] at hbytes
    split_ifs at hbytes
    · cases hbytes
      exact ⟨_, rfl⟩
    · cases hbytes
  · obtain ⟨w, hreach, record, hrecord, hencode⟩ : ∃ w,
        Reaches (step sampleConfig) (fun _ a => a.Parsed) (World.boot fullPlatformRow) w ∧
        ∃ record ∈ w.process.limiter.record (platformKeyOf 1800000000),
          CreditsBlob.encode record.routes = .error .creditsOverflow :=
      exists_of_runList [.admission sampleRequest 1800000000 0 fun _ => .done] (by decide +kernel)
    exact ⟨w, hreach, record, hrecord, hencode⟩

end Fareward.Limiter
