import Mathlib.Data.Finmap
import Fareward.Lib.Count

/-!
# Tables of reference-counted entries

A sharded map hands out handles of the entries it stores. An entry is an allocation with a strong
count; it is created on demand, cloned from the map inside the critical section of its key's shard,
dropped at any time without a lock, and removed from the map by a task that has seen, in that
critical section, that no other task has a handle of it. `HandleTable` is the view of such a map
and of the tasks that use it, and `HandleTable.Inv` what holds of it along every run: a handle is
always one of the entry that the map stores for the key, so that two tasks of one key share their
entry even though entries come and go.

The operations are rules from `Inv` to `Inv`:

* `Inv.move`: task `i` locks or unlocks its shard, clones, drops or looks at an entry;
* `Inv.insert`, `Inv.erase`: task `i` stores a new entry, or removes one;
* `Inv.spawn`, `Inv.empty`: a task arrives; the table of a process that has just started.
-/

namespace Fareward

universe u

/-- What one task has to do with the table. -/
structure Slot (K : Type u) where
  key : K
  /-- The entry that the task owns a handle of. -/
  handle : Option Nat
  /-- The handle is on the entry the map stores. -/
  bound : Bool
  /-- The task is in a critical section of its key's shard. -/
  locks : Bool
  /-- In that critical section it has found its key absent. -/
  inserts : Bool
  /-- In that critical section it has found an entry that no other task has a handle of. -/
  removes : Option (K × Nat)

/-- A task that owns nothing. -/
def Slot.idle {K : Type u} (key : K) : Slot K := ⟨key, none, true, false, false, none⟩

/-- The task owns a handle of `e`. -/
def Slot.owns {K : Type u} (s : Slot K) (e : Nat) : Bool := s.handle = some e

theorem Slot.owns_iff {K : Type u} {s : Slot K} {e : Nat} :
    s.owns e = true ↔ s.handle = some e := by
  simp [Slot.owns]

@[ext]
structure HandleTable (K : Type u) where
  entries : Finmap fun _ : K => Nat
  /-- The task in the critical section of a shard. -/
  owner : Nat → Option Nat
  strong : Nat → Nat
  /-- The number of entries ever allocated. -/
  allocated : Nat
  slots : List (Slot K)

namespace HandleTable

variable {K : Type u} [DecidableEq K] {shard : K → Nat} {t : HandleTable K} {i j e : Nat} {k : K}
  {s s' : Slot K} {owner' : Nat → Option Nat} {strong' : Nat → Nat}

/-- The number of tasks that own a handle of `e`. -/
def handles (t : HandleTable K) (e : Nat) : Nat := t.slots.countP fun s => s.owns e

/-- Task `i` is the only one that may own a handle of `e`. -/
def Alone (t : HandleTable K) (i e : Nat) : Prop :=
  ∀ j s, t.slots[j]? = some s → s.handle = some e → j = i

structure SlotInv (shard : K → Nat) (t : HandleTable K) (i : Nat) (s : Slot K) : Prop where
  owner : s.locks = true → t.owner (shard s.key) = some i
  absent : s.inserts = true → s.locks = true ∧ t.entries.lookup s.key = none
  bound : ∀ e, s.handle = some e → s.bound = true → t.entries.lookup s.key = some e
  allocated : ∀ e, s.handle = some e → e < t.allocated
  alone : ∀ k e, s.removes = some (k, e) → s.locks = true ∧ shard k = shard s.key ∧
    t.entries.lookup k = some e ∧ t.Alone i e

structure Inv (shard : K → Nat) (t : HandleTable K) : Prop where
  slots : ∀ i s, t.slots[i]? = some s → SlotInv shard t i s
  /-- An entry is stored under one key. -/
  injective : ∀ k k' e, t.entries.lookup k = some e → t.entries.lookup k' = some e → k = k'
  allocated : ∀ k e, t.entries.lookup k = some e → e < t.allocated
  /-- The strong count of a stored entry is one more than the handles of the tasks. -/
  strong : ∀ k e, t.entries.lookup k = some e → t.strong e = t.handles e + 1

namespace Inv

/-- Two tasks in critical sections of one shard are one task. -/
theorem eq_of_locks (h : Inv shard t) (hi : t.slots[i]? = some s) (hj : t.slots[j]? = some s')
    (li : s.locks = true) (lj : s'.locks = true) (hshard : shard s.key = shard s'.key) :
    i = j := by
  have hi := (h.slots i s hi).owner li
  have hj := (h.slots j s' hj).owner lj
  rw [hshard, hj] at hi
  exact (Option.some.inj hi).symm

/-- A stored entry with one handle outside the map has one owner at most. -/
theorem alone_of_strong (h : Inv shard t) (hi : t.slots[i]? = some s) (hs : s.handle = some e)
    (hk : t.entries.lookup k = some e) (htwo : t.strong e = 2) : t.Alone i e := by
  intro j u hj hu
  have := h.strong k e hk
  refine eq_of_countP_le_one (p := fun s : Slot K => s.owns e) (l := t.slots) ?_ hj
    (Slot.owns_iff.mpr hu) hi (Slot.owns_iff.mpr hs)
  rw [handles] at this
  omega

theorem strong_of_alone (h : Inv shard t) (hi : t.slots[i]? = some s) (hs : s.handle = some e)
    (hk : t.entries.lookup k = some e) (halone : t.Alone i e) : t.strong e = 2 := by
  have hone : t.handles e = 1 :=
    countP_eq_one (p := fun s : Slot K => s.owns e) hi (Slot.owns_iff.mpr hs)
      fun j u hj hu => halone j u hj (Slot.owns_iff.mp hu)
  rw [h.strong k e hk, hone]

/-- A stored entry that only the map refers to has no owner. -/
theorem not_owned_of_strong (h : Inv shard t) (hk : t.entries.lookup k = some e)
    (hone : t.strong e = 1) :
    ∀ (j : Nat) (s : Slot K), t.slots[j]? = some s → s.handle ≠ some e := by
  intro j s hj hs
  have := h.strong k e hk
  have : 0 < t.handles e :=
    countP_pos_of_getElem? (p := fun s : Slot K => s.owns e) hj (Slot.owns_iff.mpr hs)
  omega

theorem handles_fresh (h : Inv shard t) : t.handles t.allocated = 0 := by
  refine List.countP_eq_zero.mpr fun s hs => ?_
  obtain ⟨i, hi⟩ := List.getElem?_of_mem hs
  intro hown
  exact lt_irrefl _ ((h.slots i s hi).allocated _ (Slot.owns_iff.mp hown))

/-- A task moves and the map stays. Only its own critical section begins or ends, the strong
counts follow its handle, and a handle that it gains is cloned in its critical section. -/
theorem move (h : Inv shard t) (hi : t.slots[i]? = some s) (s' : Slot K) (hkey : s'.key = s.key)
    (howner : ∀ q j, j ≠ i → t.owner q = some j → owner' q = some j)
    (hstrong : ∀ k e, t.entries.lookup k = some e →
      strong' e + (s.owns e).toNat = t.strong e + (s'.owns e).toNat)
    (hlocks : s'.locks = true → owner' (shard s.key) = some i)
    (habsent : s'.inserts = true → s'.locks = true ∧ t.entries.lookup s.key = none)
    (hhandle : ∀ e, s'.handle = some e →
      (s.handle = some e ∧ (s'.bound = true → s.bound = true)) ∨
        (s.locks = true ∧ t.entries.lookup s.key = some e))
    (halone : ∀ k e, s'.removes = some (k, e) → s'.locks = true ∧ shard k = shard s.key ∧
      t.entries.lookup k = some e ∧ t.Alone i e) :
    Inv shard { t with owner := owner', strong := strong', slots := t.slots.set i s' } := by
  have hself := h.slots i s hi
  refine ⟨fun j u hj => ?_, h.injective, h.allocated, fun k e hk => ?_⟩
  · simp only [getElem?_set_of_some hi] at hj
    split_ifs at hj with hij
    · subst hij
      cases hj
      refine ⟨?_, ?_, fun e he hb => ?_, fun e he => ?_, fun k e hr => ?_⟩
      · rw [hkey]
        exact hlocks
      · rw [hkey]
        exact habsent
      · rw [hkey]
        rcases hhandle e he with ⟨he', hb'⟩ | ⟨_, he'⟩
        · exact hself.bound e he' (hb' hb)
        · exact he'
      · rcases hhandle e he with ⟨he', _⟩ | ⟨_, he'⟩
        · exact hself.allocated e he'
        · exact h.allocated _ e he'
      · obtain ⟨hl, hs, hk, ha⟩ := halone k e hr
        refine ⟨hl, by rw [hkey, hs], hk, fun j u hj hu => ?_⟩
        simp only [getElem?_set_of_some hi] at hj
        split_ifs at hj with hij
        · exact hij.symm
        · exact ha j u hj hu
    · have hj' := h.slots j u hj
      refine ⟨fun hl => howner _ j (Ne.symm hij) (hj'.owner hl), hj'.absent, hj'.bound,
        hj'.allocated, fun k e hr => ?_⟩
      obtain ⟨hl, hs, hk, ha⟩ := hj'.alone k e hr
      refine ⟨hl, hs, hk, fun j' u' hj'' hu' => ?_⟩
      simp only [getElem?_set_of_some hi] at hj''
      split_ifs at hj'' with hij'
      · -- the task that moves would have cloned the entry in the other's critical section
        obtain rfl := Option.some.inj hj''
        rcases hhandle e hu' with ⟨he, _⟩ | ⟨hli, he⟩
        · exact absurd (ha i s hi he) hij
        · have : s.key = k := h.injective _ _ e he hk
          exact absurd (h.eq_of_locks hi hj hli hl (by rw [this, hs])) hij
      · exact ha j' u' hj'' hu'
  · have := h.strong k e hk
    have := hstrong k e hk
    have := countP_set_add (p := fun s : Slot K => s.owns e) hi s'
    simp only [handles] at *
    omega

/-- Task `i` stores a fresh entry under its key, which it has found absent. -/
theorem insert (h : Inv shard t) (hi : t.slots[i]? = some s) (hins : s.inserts = true)
    (hnone : s.handle = none) (s' : Slot K) (hkey : s'.key = s.key)
    (hhandle : s'.handle = some t.allocated) (hinserts : s'.inserts = false)
    (hremoves : s'.removes = none) (hfresh : strong' t.allocated = 2)
    (hstrong : ∀ e, e < t.allocated → strong' e = t.strong e) :
    Inv shard { t with
      entries := t.entries.insert s.key t.allocated
      strong := strong'
      allocated := t.allocated + 1
      slots := t.slots.set i s' } := by
  have hself := h.slots i s hi
  obtain ⟨hlocks, habsent⟩ := hself.absent hins
  have hne {k : K} {e : Nat} (hk : t.entries.lookup k = some e) : k ≠ s.key := by
    rintro rfl
    rw [habsent] at hk
    cases hk
  have hold {k : K} {e : Nat} (hk : t.entries.lookup k = some e) :
      (t.entries.insert s.key t.allocated).lookup k = some e :=
    (Finmap.lookup_insert_of_ne _ (hne hk)).trans hk
  have hcases {k : K} {e : Nat}
      (hk : (t.entries.insert s.key t.allocated).lookup k = some e) :
      (k = s.key ∧ e = t.allocated) ∨ t.entries.lookup k = some e := by
    by_cases hk' : k = s.key
    · rw [hk', Finmap.lookup_insert] at hk
      exact .inl ⟨hk', (Option.some.inj hk).symm⟩
    · rw [Finmap.lookup_insert_of_ne _ hk'] at hk
      exact .inr hk
  have hcount (e : Nat) : (t.slots.set i s').countP (fun s => s.owns e) =
      t.handles e + (decide (t.allocated = e)).toNat := by
    have := countP_set_add (p := fun s : Slot K => s.owns e) hi s'
    simpa [handles, Slot.owns, hnone, hhandle] using this
  refine ⟨fun j u hj => ?_, fun k k' e hk hk' => ?_, fun k e hk => ?_, fun k e hk => ?_⟩
  · simp only [getElem?_set_of_some hi] at hj
    split_ifs at hj with hij
    · subst hij
      cases hj
      refine ⟨fun _ => ?_, fun hc => ?_, fun e he _ => ?_, fun e he => ?_, fun k e hr => ?_⟩
      · rw [hkey]
        exact hself.owner hlocks
      · rw [hinserts] at hc
        cases hc
      · rw [hkey]
        rw [hhandle] at he
        cases he
        exact Finmap.lookup_insert _
      · rw [hhandle] at he
        cases he
        exact Nat.lt_succ_self _
      · rw [hremoves] at hr
        cases hr
    · have hj' := h.slots j u hj
      refine ⟨hj'.owner, fun hc => ?_, fun e he hb => hold (hj'.bound e he hb),
        fun e he => Nat.lt_succ_of_lt (hj'.allocated e he), fun k e hr => ?_⟩
      · -- another task about to insert the key would be in the same critical section
        obtain ⟨hl, hnone'⟩ := hj'.absent hc
        have hk : u.key ≠ s.key := fun hk =>
          hij (h.eq_of_locks hi hj hlocks hl (by rw [hk]))
        exact ⟨hl, (Finmap.lookup_insert_of_ne _ hk).trans hnone'⟩
      · obtain ⟨hl, hs, hk, ha⟩ := hj'.alone k e hr
        refine ⟨hl, hs, hold hk, fun j' u' hj'' hu' => ?_⟩
        simp only [getElem?_set_of_some hi] at hj''
        split_ifs at hj'' with hij'
        · obtain rfl := Option.some.inj hj''
          rw [hhandle] at hu'
          obtain rfl := Option.some.inj hu'
          exact absurd (h.allocated _ _ hk) (lt_irrefl _)
        · exact ha j' u' hj'' hu'
  · rcases hcases hk with ⟨rfl, rfl⟩ | hk₁ <;> rcases hcases hk' with ⟨rfl, he⟩ | hk₂
    · rfl
    · exact absurd (h.allocated _ _ hk₂) (lt_irrefl _)
    · subst he
      exact absurd (h.allocated _ _ hk₁) (lt_irrefl _)
    · exact h.injective _ _ _ hk₁ hk₂
  · rcases hcases hk with ⟨_, rfl⟩ | hk₁
    · exact Nat.lt_succ_self _
    · exact Nat.lt_succ_of_lt (h.allocated _ _ hk₁)
  · rw [handles, hcount]
    rcases hcases hk with ⟨_, rfl⟩ | hk₁
    · simp [hfresh, h.handles_fresh]
    · have := h.allocated _ _ hk₁
      simp [hstrong e this, Nat.ne_of_gt this, h.strong _ _ hk₁]

/-- Task `i` removes an entry that no other task has a handle of. -/
theorem erase (h : Inv shard t) (hi : t.slots[i]? = some s) (hr : s.removes = some (k, e))
    (s' : Slot K) (hkey : s'.key = s.key) (hhandle : s'.handle = s.handle)
    (hbound : s'.handle = some e → s'.bound = false) (hbound' : s'.bound = true → s.bound = true)
    (hinserts : s'.inserts = true → s.inserts = true ∧ s'.locks = true)
    (hremoves : s'.removes = none)
    (hstrong : ∀ e', e' ≠ e → strong' e' = t.strong e') :
    Inv shard { t with
      entries := t.entries.erase k
      strong := strong'
      slots := t.slots.set i s' } := by
  have hself := h.slots i s hi
  obtain ⟨hlocks, hshard, hstored, halone⟩ := hself.alone k e hr
  have hold {k' : K} {e' : Nat} (hk : (t.entries.erase k).lookup k' = some e') :
      t.entries.lookup k' = some e' ∧ e' ≠ e := by
    have hne : k' ≠ k := by
      rintro rfl
      rw [Finmap.lookup_erase] at hk
      cases hk
    rw [Finmap.lookup_erase_ne hne] at hk
    refine ⟨hk, fun he => hne ?_⟩
    subst he
    exact h.injective _ _ _ hk hstored
  have hkeep {k' : K} {e' : Nat} (hk : t.entries.lookup k' = some e') (hne : e' ≠ e) :
      (t.entries.erase k).lookup k' = some e' := by
    have : k' ≠ k := by
      rintro rfl
      rw [hstored] at hk
      exact hne (Option.some.inj hk).symm
    rw [Finmap.lookup_erase_ne this, hk]
  have hnone {k' : K} (hk : t.entries.lookup k' = none) :
      (t.entries.erase k).lookup k' = none := by
    by_cases hne : k' = k
    · rw [hne, Finmap.lookup_erase]
    · rw [Finmap.lookup_erase_ne hne, hk]
  have hcount (e' : Nat) : (t.slots.set i s').countP (fun s => s.owns e') = t.handles e' := by
    have := countP_set_add (p := fun s : Slot K => s.owns e') hi s'
    simpa [handles, Slot.owns, hhandle] using this
  refine ⟨fun j u hj => ?_, fun k₁ k₂ e' hk₁ hk₂ => ?_, fun k' e' hk => ?_, fun k' e' hk => ?_⟩
  · simp only [getElem?_set_of_some hi] at hj
    split_ifs at hj with hij
    · subst hij
      cases hj
      refine ⟨fun _ => ?_, fun hc => ?_, fun e' he hb => ?_, fun e' he => ?_, fun k' e' hr' => ?_⟩
      · rw [hkey]
        exact hself.owner hlocks
      · obtain ⟨hins, hl⟩ := hinserts hc
        rw [hkey]
        exact ⟨hl, hnone (hself.absent hins).2⟩
      · rw [hkey]
        refine hkeep (hself.bound e' (hhandle ▸ he) (hbound' hb)) fun hee => ?_
        subst hee
        rw [hbound he] at hb
        cases hb
      · exact hself.allocated e' (hhandle ▸ he)
      · rw [hremoves] at hr'
        cases hr'
    · have hj' := h.slots j u hj
      refine ⟨hj'.owner, fun hc => ⟨(hj'.absent hc).1, hnone (hj'.absent hc).2⟩,
        fun e' he hb => ?_, hj'.allocated, fun k' e' hr' => ?_⟩
      · refine hkeep (hj'.bound e' he hb) fun hee => ?_
        subst hee
        exact hij (halone j u hj he).symm
      · obtain ⟨hl, hs, hk, ha⟩ := hj'.alone k' e' hr'
        have hne : e' ≠ e := by
          rintro rfl
          have : k' = k := h.injective _ _ _ hk hstored
          subst this
          exact hij (h.eq_of_locks hi hj hlocks hl (by rw [← hshard, hs]))
        refine ⟨hl, hs, hkeep hk hne, fun j' u' hj'' hu' => ?_⟩
        simp only [getElem?_set_of_some hi] at hj''
        split_ifs at hj'' with hij'
        · obtain rfl := Option.some.inj hj''
          rw [← hij']
          exact ha i s hi (hhandle ▸ hu')
        · exact ha j' u' hj'' hu'
  · exact h.injective _ _ _ (hold hk₁).1 (hold hk₂).1
  · exact h.allocated _ _ (hold hk).1
  · obtain ⟨hk', hne⟩ := hold hk
    rw [handles, hcount]
    exact (hstrong e' hne).trans (h.strong _ _ hk')

theorem spawn (h : Inv shard t) (key : K) :
    Inv shard { t with slots := t.slots ++ [.idle key] } := by
  refine ⟨fun j u hj => ?_, h.injective, h.allocated, fun k e hk => ?_⟩
  · rcases lt_or_ge j t.slots.length with hlt | hge
    · have hj' := h.slots j u ((List.getElem?_append_left hlt).symm.trans hj)
      refine ⟨hj'.owner, hj'.absent, hj'.bound, hj'.allocated, fun k e hr => ?_⟩
      obtain ⟨hl, hs, hk, ha⟩ := hj'.alone k e hr
      refine ⟨hl, hs, hk, fun j' u' hj'' hu' => ?_⟩
      rcases lt_or_ge j' t.slots.length with hlt' | hge'
      · exact ha j' u' ((List.getElem?_append_left hlt').symm.trans hj'') hu'
      · rw [List.getElem?_append_right hge'] at hj''
        obtain rfl := List.mem_singleton.mp (List.mem_of_getElem? hj'')
        cases hu'
    · rw [List.getElem?_append_right hge] at hj
      obtain rfl := List.mem_singleton.mp (List.mem_of_getElem? hj)
      exact ⟨nofun, nofun, nofun, nofun, nofun⟩
  · rw [h.strong k e hk]
    simp [handles, List.countP_append, Slot.owns, Slot.idle]

/-- The table of a process that has just started. -/
theorem empty (strong : Nat → Nat) (owner : Nat → Option Nat) (allocated : Nat) :
    Inv shard (⟨∅, owner, strong, allocated, []⟩ : HandleTable K) := by
  refine ⟨?_, ?_, ?_, ?_⟩
  · intro i s hi
    cases hi
  · intro k k' e hk
    cases hk
  · intro k e hk
    cases hk
  · intro k e hk
    cases hk

end Inv

end HandleTable

end Fareward
