import Fareward.Lib.Machine
import Fareward.Reqlog.Errors

/-!
# What the gate of the error rows answers

`Writes` lists what a call of `should_write` can do. From it follows, along every run with
nondecreasing times, that the map of the gate is what its history says: under each key stands the
time of the last true answer, unless the key has been evicted since (`lastTrue`). The answers are
then described by the history alone (`Answer.Spec`).

A key is evicted only when more keys are in use than the gate can track. So as long as there are no
more keys than its capacity, true answers for a key are at least the freshness apart.
-/

namespace Fareward.Reqlog

variable {answer : Bool} {freshness capacity now t : ℕ} {gate gate' : ErrorWriteGate}
  {key k : ErrorKey} {order : List ErrorKey} {run run' : GateRun} {call : GateCall} {e : Answer}
  {history : List Answer}

/-! ### One call -/

/-- What a call of `should_write` can do. -/
inductive Writes (gate : ErrorWriteGate) (key : ErrorKey) (now : ℕ) : Bool → ErrorWriteGate → Prop
  | suppressed {t : ℕ} (hlast : gate.lastWritten.lookup key = some t)
      (hfresh : now - t < gate.freshness) : Writes gate key now false gate
  | written (hstale : ∀ t, gate.lastWritten.lookup key = some t → gate.freshness ≤ now - t)
      (hroom : (gate.lastWritten.lookup key).isSome ∨
        gate.lastWritten.keys.card < gate.capacity) :
      Writes gate key now true { gate with lastWritten := gate.lastWritten.insert key now }
  | evicting {k : ErrorKey} {t : ℕ} (hnew : gate.lastWritten.lookup key = none)
      (hfull : gate.capacity ≤ gate.lastWritten.keys.card)
      (hk : gate.lastWritten.lookup k = some t)
      (holdest : ∀ k' t', gate.lastWritten.lookup k' = some t' → t ≤ t') :
      Writes gate key now true
        { gate with lastWritten := (gate.lastWritten.erase k).insert key now }

theorem mem_iter (horder : Enumerates order gate.lastWritten.keys) {x : ErrorKey × ℕ} :
    x ∈ gate.iter order ↔ gate.lastWritten.lookup x.1 = some x.2 := by
  unfold ErrorWriteGate.iter
  rw [List.mem_filterMap]
  constructor
  · rintro ⟨key, -, hx⟩
    obtain ⟨t, ht, rfl⟩ := Option.map_eq_some_iff.mp hx
    exact ht
  · intro hx
    have hmem : x.1 ∈ gate.lastWritten.keys := mem_keys_iff.mpr (by rw [hx]; rfl)
    rw [← horder.2] at hmem
    refine ⟨x.1, List.mem_toFinset.mp hmem, ?_⟩
    rw [hx]
    rfl

/-- A map that is not empty loses an entry of the smallest time. -/
theorem evictOldest_spec (horder : Enumerates order gate.lastWritten.keys)
    (hpos : 0 < gate.lastWritten.keys.card) :
    ∃ k t, gate.lastWritten.lookup k = some t ∧
      (∀ k' t', gate.lastWritten.lookup k' = some t' → t ≤ t') ∧
      gate.evictOldest order = { gate with lastWritten := gate.lastWritten.erase k } := by
  unfold ErrorWriteGate.evictOldest
  cases hmin : (gate.iter order).argmin Prod.snd with
  | none =>
    -- an entry of the map is among those that are iterated
    obtain ⟨k, hk⟩ := Finset.card_pos.mp hpos
    obtain ⟨t, ht⟩ := Option.isSome_iff_exists.mp (mem_keys_iff.mp hk)
    have hmem : (k, t) ∈ gate.iter order := (mem_iter horder).mpr ht
    rw [List.argmin_eq_none.mp hmin] at hmem
    cases hmem
  | some x =>
    refine ⟨x.1, x.2, (mem_iter horder).mp (List.argmin_mem hmin), ?_, rfl⟩
    intro k' t' hk'
    have hmem : (k', t') ∈ gate.iter order := (mem_iter horder).mpr hk'
    exact List.le_of_mem_argmin hmem hmin

/-- **Every end of a call.** -/
theorem shouldWrite_spec (horder : Enumerates order gate.lastWritten.keys)
    (hcapacity : 0 < gate.capacity) (key : ErrorKey) (now : ℕ) :
    Writes gate key now (gate.shouldWrite order key now).1 (gate.shouldWrite order key now).2 := by
  unfold ErrorWriteGate.shouldWrite
  by_cases hfresh : (gate.lastWritten.lookup key).any fun t => now - t < gate.freshness
  · rw [if_pos hfresh]
    obtain ⟨t, ht, hlt⟩ := (Option.any_eq_true _ _).mp hfresh
    exact .suppressed ht (of_decide_eq_true hlt)
  · rw [if_neg hfresh]
    have hstale : ∀ t, gate.lastWritten.lookup key = some t → gate.freshness ≤ now - t := by
      intro t ht
      rw [ht] at hfresh
      exact not_lt.mp fun hlt => hfresh (decide_eq_true hlt)
    dsimp only
    split_ifs with hfull
    · obtain ⟨hcard, hnew⟩ := hfull
      obtain ⟨k, t, hk, holdest, hevict⟩ := evictOldest_spec horder (hcapacity.trans_le hcard)
      rw [hevict]
      exact .evicting (Finmap.lookup_eq_none.mpr hnew) hcard hk holdest
    · refine .written hstale ?_
      by_cases hmem : key ∈ gate.lastWritten
      · exact .inl (Finmap.lookup_isSome.mpr hmem)
      · exact .inr (not_le.mp fun hle => hfull ⟨hle, hmem⟩)

theorem writes_of_eq (horder : Enumerates order gate.lastWritten.keys)
    (hcapacity : 0 < gate.capacity) (h : gate.shouldWrite order key now = (answer, gate')) :
    Writes gate key now answer gate' := by
  have hspec := shouldWrite_spec horder hcapacity key now
  rw [h] at hspec
  exact hspec

namespace Writes

theorem freshness_eq (h : Writes gate key now answer gate') : gate'.freshness = gate.freshness := by
  cases h <;> rfl

theorem capacity_eq (h : Writes gate key now answer gate') : gate'.capacity = gate.capacity := by
  cases h <;> rfl

/-- Another key is not touched, unless it is evicted. -/
theorem lookup_of_ne (h : Writes gate key now answer gate') (hne : k ≠ key)
    (hk : gate'.lastWritten.lookup k = some t) : gate.lastWritten.lookup k = some t := by
  cases h with
  | suppressed => exact hk
  | written =>
    rw [Finmap.lookup_insert_of_ne _ hne] at hk
    exact hk
  | @evicting k' =>
    rw [Finmap.lookup_insert_of_ne _ hne] at hk
    by_cases hevicted : k = k'
    · rw [hevicted, Finmap.lookup_erase] at hk
      cases hk
    · rw [Finmap.lookup_erase_ne hevicted] at hk
      exact hk

theorem lookup_self (h : Writes gate key now true gate') :
    gate'.lastWritten.lookup key = some now := by
  cases h with
  | written | evicting => exact Finmap.lookup_insert _

theorem of_false (h : Writes gate key now false gate') :
    gate' = gate ∧ ∃ t, gate.lastWritten.lookup key = some t ∧ now - t < gate.freshness := by
  cases h with
  | suppressed hlast hfresh => exact ⟨rfl, _, hlast, hfresh⟩

end Writes

/-! ### The history -/

/-- The time of the last true answer for a key that has not been evicted since. -/
def lastTrue : List Answer → ErrorKey → Option ℕ
  | [], _ => none
  | e :: before, k =>
    if e.written = true ∧ e.key = k then some e.now
    else if k ∈ e.evicted then none
    else lastTrue before k

/-- The keys with such an answer. -/
def tracked : List Answer → Finset ErrorKey
  | [] => ∅
  | e :: before =>
    if e.written then insert e.key (tracked before \ e.evicted) else tracked before \ e.evicted

theorem mem_tracked : k ∈ tracked history ↔ (lastTrue history k).isSome := by
  induction history with
  | nil => exact iff_of_false (Finset.notMem_empty k) Bool.false_ne_true
  | cons e before ih =>
    unfold tracked lastTrue
    by_cases hk : e.written = true ∧ e.key = k
    · obtain ⟨hw, rfl⟩ := hk
      rw [if_pos hw, if_pos ⟨hw, rfl⟩]
      exact iff_of_true (Finset.mem_insert_self _ _) rfl
    · have hother : k ∈ (if e.written then insert e.key (tracked before \ e.evicted)
          else tracked before \ e.evicted) ↔ k ∈ tracked before \ e.evicted := by
        split_ifs with hw
        · rw [Finset.mem_insert]
          exact or_iff_right fun h => hk ⟨hw, h.symm⟩
        · rfl
      rw [if_neg hk, hother, Finset.mem_sdiff, ih]
      by_cases he : k ∈ e.evicted <;> simp [he]

theorem lastTrue_time (h : lastTrue history k = some t) :
    ∃ e ∈ history, e.written = true ∧ e.key = k ∧ e.now = t := by
  induction history with
  | nil => cases h
  | cons e before ih =>
    unfold lastTrue at h
    split_ifs at h with hw he
    · exact ⟨e, List.mem_cons_self, hw.1, hw.2, Option.some.inj h⟩
    · obtain ⟨e', he', h'⟩ := ih h
      exact ⟨e', List.mem_cons_of_mem e he', h'⟩

/-- What an answer is, given the answers before it. -/
structure Answer.Spec (freshness capacity : ℕ) (e : Answer) (before : List Answer) : Prop where
  suppressed_iff : e.written = false ↔
    ∃ t, lastTrue before e.key = some t ∧ e.now < t + freshness
  evicts_iff : e.evicted ≠ ∅ ↔ e.key ∉ tracked before ∧ (tracked before).card = max capacity 1
  evicted_one : e.evicted.card ≤ 1
  evicted_oldest : ∀ k ∈ e.evicted, ∃ t, lastTrue before k = some t ∧
    ∀ k' t', lastTrue before k' = some t' → t ≤ t'

/-- The gate holds what its history says, and every answer is as described. -/
structure GateRun.Inv (freshness capacity : ℕ) (run : GateRun) : Prop where
  freshness_eq : run.gate.freshness = freshness
  capacity_eq : run.gate.capacity = max capacity 1
  lookup_eq : ∀ k, run.gate.lastWritten.lookup k = lastTrue run.history k
  bounded : run.gate.lastWritten.keys.card ≤ max capacity 1
  ordered : run.history.Pairwise fun later earlier => earlier.now ≤ later.now
  spec : ∀ e before, e :: before <:+ run.history → e.Spec freshness capacity before

/-- The clock does not go back. -/
def GateRun.Timely (run : GateRun) (call : GateCall) : Prop :=
  ∀ e ∈ run.history, e.now ≤ call.now

instance (run : GateRun) (call : GateCall) : Decidable (run.Timely call) :=
  inferInstanceAs (Decidable (∀ _ ∈ _, _))

theorem GateRun.Inv.keys_eq (h : run.Inv freshness capacity) :
    run.gate.lastWritten.keys = tracked run.history := by
  ext k
  rw [mem_keys_iff, h.lookup_eq, mem_tracked]

theorem GateRun.inv_new : (GateRun.new freshness capacity).Inv freshness capacity where
  freshness_eq := rfl
  capacity_eq := rfl
  lookup_eq _ := Finmap.lookup_empty _
  bounded := Nat.zero_le _
  ordered := .nil
  spec e before h := by cases List.suffix_nil.mp h

/-- One more answer, once its description and the new map are known. -/
theorem GateRun.Inv.cons (h : run.Inv freshness capacity)
    (htimely : ∀ e' ∈ run.history, e'.now ≤ e.now)
    (hfreshness : gate'.freshness = run.gate.freshness)
    (hcapacity : gate'.capacity = run.gate.capacity)
    (hlookup : ∀ k, gate'.lastWritten.lookup k = lastTrue (e :: run.history) k)
    (hbounded : gate'.lastWritten.keys.card ≤ max capacity 1)
    (hspec : e.Spec freshness capacity run.history) :
    GateRun.Inv freshness capacity ⟨gate', e :: run.history⟩ where
  freshness_eq := hfreshness.trans h.freshness_eq
  capacity_eq := hcapacity.trans h.capacity_eq
  lookup_eq := hlookup
  bounded := hbounded
  ordered := List.pairwise_cons.mpr ⟨htimely, h.ordered⟩
  spec e' before hsuffix := by
    rcases List.suffix_cons_iff.mp hsuffix with heq | hsuffix
    · obtain ⟨rfl, rfl⟩ := List.cons.inj heq
      exact hspec
    · exact h.spec e' before hsuffix

/-! ### The steps -/

/-- A time the map holds is no later than the call's. -/
theorem GateRun.Inv.le_now (h : run.Inv freshness capacity) (htimely : run.Timely call)
    (ht : run.gate.lastWritten.lookup k = some t) : t ≤ call.now := by
  rw [h.lookup_eq] at ht
  obtain ⟨e, he, -, -, rfl⟩ := lastTrue_time ht
  exact htimely e he

theorem GateRun.Inv.suppressed (h : run.Inv freshness capacity) (htimely : run.Timely call)
    (hlast : run.gate.lastWritten.lookup call.key = some t)
    (hfresh : call.now - t < run.gate.freshness) :
    GateRun.Inv freshness capacity
      ⟨run.gate, ⟨call.key, call.now, false, ∅⟩ :: run.history⟩ := by
  have hle := h.le_now htimely hlast
  have hlast' := hlast
  rw [h.lookup_eq] at hlast'
  rw [h.freshness_eq] at hfresh
  have hlt : call.now < t + freshness := by omega
  refine h.cons htimely rfl rfl h.lookup_eq h.bounded ⟨?_, ?_, Nat.zero_le _, ?_⟩
  · exact iff_of_true rfl ⟨t, hlast', hlt⟩
  · refine iff_of_false (fun hne => hne rfl) fun hnew => hnew.1 ?_
    exact mem_tracked.mpr (by rw [hlast']; rfl)
  · intro k hk
    cases hk

/-- A stale answer is no reason to suppress. -/
theorem GateRun.Inv.not_fresh (h : run.Inv freshness capacity) (htimely : run.Timely call)
    (hstale : ∀ t, run.gate.lastWritten.lookup call.key = some t →
      run.gate.freshness ≤ call.now - t) :
    ¬ ∃ t, lastTrue run.history call.key = some t ∧ call.now < t + freshness := by
  rintro ⟨t, ht, hlt⟩
  rw [← h.lookup_eq] at ht
  have hpast := h.le_now htimely ht
  have hle := hstale t ht
  rw [h.freshness_eq] at hle
  omega

theorem GateRun.Inv.written (h : run.Inv freshness capacity) (htimely : run.Timely call)
    (hstale : ∀ t, run.gate.lastWritten.lookup call.key = some t →
      run.gate.freshness ≤ call.now - t)
    (hroom : (run.gate.lastWritten.lookup call.key).isSome ∨
      run.gate.lastWritten.keys.card < run.gate.capacity) :
    GateRun.Inv freshness capacity
      ⟨{ run.gate with lastWritten := run.gate.lastWritten.insert call.key call.now },
        ⟨call.key, call.now, true, ∅⟩ :: run.history⟩ := by
  rw [← mem_keys_iff, h.capacity_eq] at hroom
  refine h.cons htimely rfl rfl ?_ ?_ ⟨?_, ?_, Nat.zero_le _, ?_⟩
  · intro k
    rw [lookup_insert_eq]
    unfold lastTrue
    by_cases hk : k = call.key
    · rw [if_pos hk, if_pos ⟨rfl, hk.symm⟩]
    · rw [if_neg hk, if_neg fun hc => hk hc.2.symm, if_neg (Finset.notMem_empty k),
        h.lookup_eq]
  · rw [keys_insert]
    rcases hroom with hmem | hroom
    · rw [Finset.insert_eq_of_mem hmem]
      exact h.bounded
    · exact (Finset.card_insert_le _ _).trans hroom
  · exact iff_of_false Bool.true_eq_false.mp (h.not_fresh htimely hstale)
  · refine iff_of_false (fun hne => hne rfl) ?_
    rw [← h.keys_eq]
    rintro ⟨hnew, hfull⟩
    rcases hroom with hmem | hroom
    · exact hnew hmem
    · exact hroom.ne hfull
  · intro k hk
    cases hk

theorem GateRun.Inv.evicting (h : run.Inv freshness capacity) (htimely : run.Timely call)
    (hnew : run.gate.lastWritten.lookup call.key = none)
    (hfull : run.gate.capacity ≤ run.gate.lastWritten.keys.card)
    (hk : run.gate.lastWritten.lookup k = some t)
    (holdest : ∀ k' t', run.gate.lastWritten.lookup k' = some t' → t ≤ t') :
    GateRun.Inv freshness capacity
      ⟨{ run.gate with
          lastWritten := (run.gate.lastWritten.erase k).insert call.key call.now },
        ⟨call.key, call.now, true, {k}⟩ :: run.history⟩ := by
  have hmem : k ∈ run.gate.lastWritten.keys := mem_keys_iff.mpr (by rw [hk]; rfl)
  rw [h.capacity_eq] at hfull
  refine h.cons htimely rfl rfl ?_ ?_ ⟨?_, ?_, ?_, ?_⟩
  · intro j
    rw [lookup_insert_eq]
    unfold lastTrue
    by_cases hj : j = call.key
    · rw [if_pos hj, if_pos ⟨rfl, hj.symm⟩]
    · rw [if_neg hj, if_neg fun hc => hj hc.2.symm]
      by_cases hjk : j = k
      · rw [if_pos (Finset.mem_singleton.mpr hjk), hjk, Finmap.lookup_erase]
      · rw [if_neg fun hc => hjk (Finset.mem_singleton.mp hc), Finmap.lookup_erase_ne hjk,
          h.lookup_eq]
  · rw [keys_insert, Finmap.keys_erase]
    have hcard := Finset.card_erase_add_one hmem
    have hle := Finset.card_insert_le call.key (run.gate.lastWritten.keys.erase k)
    have hbound := h.bounded
    omega
  · refine iff_of_false Bool.true_eq_false.mp (h.not_fresh htimely fun t ht => ?_)
    rw [hnew] at ht
    cases ht
  · refine iff_of_true (Finset.singleton_ne_empty k) ?_
    rw [← h.keys_eq, mem_keys_iff, hnew]
    exact ⟨Bool.false_ne_true, h.bounded.antisymm hfull⟩
  · exact (Finset.card_singleton k).le
  · intro j hj
    obtain rfl := Finset.mem_singleton.mp hj
    refine ⟨t, (h.lookup_eq j).symm.trans hk, fun k' t' hk' => ?_⟩
    exact holdest k' t' ((h.lookup_eq k').trans hk')

theorem sdiff_keys_insert (m : Finmap fun _ : ErrorKey => ℕ) (key : ErrorKey) (now : ℕ) :
    m.keys \ (m.insert key now).keys = ∅ := by
  rw [keys_insert, Finset.sdiff_eq_empty_iff_subset]
  exact Finset.subset_insert key m.keys

theorem sdiff_keys_evict {m : Finmap fun _ : ErrorKey => ℕ} (hnew : m.lookup key = none)
    (hk : m.lookup k = some t) (now : ℕ) :
    m.keys \ ((m.erase k).insert key now).keys = {k} := by
  ext j
  have hmem : k ∈ m.keys := mem_keys_iff.mpr (by rw [hk]; rfl)
  have hkey : key ∉ m.keys := fun hc => by
    rw [mem_keys_iff, hnew] at hc
    cases hc
  rw [keys_insert, Finmap.keys_erase, Finset.mem_sdiff, Finset.mem_insert, Finset.mem_erase,
    Finset.mem_singleton]
  constructor
  · rintro ⟨hj, hout⟩
    by_contra hne
    exact hout (.inr ⟨hne, hj⟩)
  · rintro rfl
    refine ⟨hmem, ?_⟩
    rintro (rfl | hc)
    · exact hkey hmem
    · exact hc.1 rfl

/-- **Every call keeps the gate in step with its history.** -/
theorem GateRun.Inv.step (h : run.Inv freshness capacity) (htimely : run.Timely call)
    (hs : run.step call = some run') : run'.Inv freshness capacity := by
  unfold GateRun.step at hs
  obtain ⟨horder, hs⟩ := Option.ite_none_right_eq_some.mp hs
  have hcapacity : 0 < run.gate.capacity := by
    rw [h.capacity_eq]
    omega
  have hwrites := shouldWrite_spec horder hcapacity call.key call.now
  generalize run.gate.shouldWrite call.order call.key call.now = answer at hs hwrites
  obtain ⟨written, gate'⟩ := answer
  cases hs
  dsimp only at hwrites ⊢
  cases hwrites with
  | suppressed hlast hfresh =>
    rw [Finset.sdiff_self]
    exact h.suppressed htimely hlast hfresh
  | written hstale hroom =>
    rw [sdiff_keys_insert]
    exact h.written htimely hstale hroom
  | evicting hnew hfull hk holdest =>
    rw [sdiff_keys_evict hnew hk]
    exact h.evicting htimely hnew hfull hk holdest

theorem GateRun.inv_of_reaches
    (h : Reaches GateRun.step GateRun.Timely (GateRun.new freshness capacity) run) :
    run.Inv freshness capacity :=
  h.invariant (I := GateRun.Inv freshness capacity) GateRun.inv_new
    fun _ _ _ _ hinv htimely hs => hinv.step htimely hs

/-! ### True answers of one key -/

/-- The keys the gate has been asked about. -/
def keysOf (history : List Answer) : Finset ErrorKey := (history.map Answer.key).toFinset

theorem tracked_subset_keysOf : tracked history ⊆ keysOf history := by
  intro k hk
  obtain ⟨t, ht⟩ := Option.isSome_iff_exists.mp (mem_tracked.mp hk)
  obtain ⟨e, he, -, rfl, -⟩ := lastTrue_time ht
  exact List.mem_toFinset.mpr (List.mem_map_of_mem he)

/-- Nothing is evicted as long as the gate has room for all keys. -/
theorem Answer.Spec.evicted_eq_empty (h : e.Spec freshness capacity history)
    (hkeys : (keysOf (e :: history)).card ≤ max capacity 1) : e.evicted = ∅ := by
  by_contra hne
  obtain ⟨hnew, hfull⟩ := h.evicts_iff.mp hne
  have hsub : insert e.key (tracked history) ⊆ keysOf (e :: history) := by
    unfold keysOf
    rw [List.map_cons, List.toFinset_cons]
    exact Finset.insert_subset_insert _ tracked_subset_keysOf
  have hcard := Finset.card_le_card hsub
  rw [Finset.card_insert_of_notMem hnew, hfull] at hcard
  omega

theorem keysOf_subset_of_suffix {history' : List Answer} (h : history' <:+ history) :
    keysOf history' ⊆ keysOf history := by
  intro k hk
  obtain ⟨e, he, rfl⟩ := List.mem_map.mp (List.mem_toFinset.mp hk)
  exact List.mem_toFinset.mpr (List.mem_map_of_mem (h.subset he))

/-- Without evictions the last true answer is no earlier than any other one. -/
theorem le_lastTrue (hordered : history.Pairwise fun later earlier => earlier.now ≤ later.now)
    (hkept : ∀ e' ∈ history, e'.evicted = ∅) (he : e ∈ history) (hw : e.written = true) :
    ∃ t, lastTrue history e.key = some t ∧ e.now ≤ t := by
  induction history with
  | nil => cases he
  | cons e' before ih =>
    obtain ⟨hle, hordered⟩ := List.pairwise_cons.mp hordered
    obtain ⟨hkept', hkept⟩ := List.forall_mem_cons.mp hkept
    unfold lastTrue
    rw [hkept']
    rcases List.mem_cons.mp he with rfl | he
    · exact ⟨e.now, if_pos ⟨hw, rfl⟩, le_rfl⟩
    · split_ifs with hlast hnone
      · exact ⟨e'.now, rfl, hle e he⟩
      · cases hnone
      · exact ih hordered hkept he

/-- `later` and `earlier` are not both true answers for one key within the freshness. -/
def Apart (freshness : ℕ) (later earlier : Answer) : Prop :=
  later.written = true → earlier.written = true → later.key = earlier.key →
    earlier.now + freshness ≤ later.now

theorem pairwise_apart (hordered : history.Pairwise fun later earlier => earlier.now ≤ later.now)
    (hspec : ∀ e before, e :: before <:+ history → e.Spec freshness capacity before)
    (hkeys : (keysOf history).card ≤ max capacity 1) :
    history.Pairwise (Apart freshness) ∧ ∀ e ∈ history, e.evicted = ∅ := by
  induction history with
  | nil => exact ⟨.nil, List.forall_mem_nil _⟩
  | cons e before ih =>
    have hsuffix : before <:+ e :: before := List.suffix_cons e before
    have he := hspec e before List.suffix_rfl
    have hkeys' := (Finset.card_le_card (keysOf_subset_of_suffix hsuffix)).trans hkeys
    obtain ⟨hle, hordered⟩ := List.pairwise_cons.mp hordered
    obtain ⟨hapart, hkept⟩ :=
      ih hordered (fun e' b hb => hspec e' b (hb.trans hsuffix)) hkeys'
    refine ⟨List.pairwise_cons.mpr ⟨?_, hapart⟩,
      List.forall_mem_cons.mpr ⟨he.evicted_eq_empty hkeys, hkept⟩⟩
    intro e' he' hw hw' hkey
    obtain ⟨t, ht, hle⟩ := le_lastTrue hordered hkept he' hw'
    rw [← hkey] at ht
    -- the later answer is true, so the last one before it is stale
    have hstale : ¬ e.now < t + freshness := fun hlt => by
      have hfalse := he.suppressed_iff.mpr ⟨t, ht, hlt⟩
      rw [hw] at hfalse
      cases hfalse
    omega

/-- **The gate of the error rows.** In every run with nondecreasing times the gate tracks at most
`max capacity 1` keys. It answers false exactly when the key's last true answer is less than the
freshness ago and the key has not been evicted since. Exactly a new key that finds the gate full
evicts, and it evicts one key, with the oldest last true answer. While no more keys are in use than
it can track, the true answers for a key are at least the freshness apart. -/
theorem error_gate_answers
    (h : Reaches GateRun.step GateRun.Timely (GateRun.new freshness capacity) run) :
    (run.gate.lastWritten.keys = tracked run.history ∧
      run.gate.lastWritten.keys.card ≤ max capacity 1) ∧
    (∀ e before, e :: before <:+ run.history →
      (e.written = false ↔ ∃ t, lastTrue before e.key = some t ∧ e.now < t + freshness) ∧
      (e.evicted ≠ ∅ ↔ e.key ∉ tracked before ∧ (tracked before).card = max capacity 1) ∧
      e.evicted.card ≤ 1 ∧
      ∀ k ∈ e.evicted, ∃ t, lastTrue before k = some t ∧
        ∀ k' t', lastTrue before k' = some t' → t ≤ t') ∧
    ((keysOf run.history).card ≤ max capacity 1 → run.history.Pairwise (Apart freshness)) := by
  have hinv := GateRun.inv_of_reaches h
  refine ⟨⟨hinv.keys_eq, hinv.bounded⟩, fun e before hsuffix => ?_, fun hkeys => ?_⟩
  · have hspec := hinv.spec e before hsuffix
    exact ⟨hspec.suppressed_iff, hspec.evicts_iff, hspec.evicted_one, hspec.evicted_oldest⟩
  · exact (pairwise_apart hinv.ordered hinv.spec hkeys).1

/-- Three calls for two keys on a gate that tracks one: the second evicts the first key, so the
third, for the first key again, is true. -/
theorem error_gate_answers_evicting :
    ∃ run, Reaches GateRun.step GateRun.Timely (GateRun.new 10 1) run ∧
      run.history.map (·.written) = [true, true, true] ∧
      run.gate.lastWritten.keys.card ≤ max 1 1 := by
  exact exists_and_of_runList
    [⟨(1, "a"), 0, []⟩, ⟨(2, "b"), 5, [(1, "a")]⟩, ⟨(1, "a"), 6, [(2, "b")]⟩] (by decide +kernel)
    fun _ hreach _ => (error_gate_answers hreach).1.2

end Fareward.Reqlog
