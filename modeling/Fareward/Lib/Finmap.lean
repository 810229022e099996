import Mathlib.Data.Finmap
import Mathlib.Data.Finset.Dedup

/-!
# Finite maps: `retain` and maps that evolve

`HashMap::retain` over Mathlib's `Finmap`, and the lookups in the maps it and `insert` give.

`Evolves old new m m'` says that the entries of `m` are still in `m'`, each related to what it was
by `old`, and that an entry only `m'` has came in as `new` allows.

A `HashMap` is iterated in no particular order: `Enumerates` says that a list is one of the orders.
-/

namespace Fareward

universe u v

variable {K : Type u} {V : Type v} [DecidableEq K]

theorem dlookup_filter (p : K → V → Bool) (k : K) :
    ∀ {es : List (Sigma fun _ : K => V)}, es.NodupKeys →
      List.dlookup k (es.filter fun e => p e.1 e.2) = (List.dlookup k es).filter (p k)
  | [], _ => rfl
  | e :: es, h => by
    obtain ⟨hnot, hes⟩ := List.nodupKeys_cons.mp h
    have ih := dlookup_filter p k hes
    by_cases hk : k = e.1
    · subst hk
      by_cases hp : p e.1 e.2
      · rw [List.filter_cons_of_pos (by exact hp), List.dlookup_cons_eq, List.dlookup_cons_eq,
          Option.filter_some_pos hp]
      · rw [List.filter_cons_of_neg (by exact hp), ih, List.dlookup_cons_eq,
          List.dlookup_eq_none.mpr hnot, Option.filter_some_neg (Bool.not_eq_true _ ▸ hp),
          Option.filter_none]
    · by_cases hp : p e.1 e.2
      · rw [List.filter_cons_of_pos (by exact hp), List.dlookup_cons_ne _ _ hk, ih,
          List.dlookup_cons_ne _ _ hk]
      · rw [List.filter_cons_of_neg (by exact hp), ih, List.dlookup_cons_ne _ _ hk]

/-- `HashMap::retain`: the entries that satisfy `p`. -/
def retain (p : K → V → Bool) (m : Finmap fun _ : K => V) : Finmap fun _ : K => V :=
  m.liftOn
    (fun l => AList.toFinmap
      ⟨l.entries.filter fun e => p e.1 e.2, l.nodupKeys.sublist List.filter_sublist⟩)
    fun _ _ h => AList.toFinmap_eq.mpr (List.Perm.filter _ h)

@[simp] theorem lookup_retain (p : K → V → Bool) (m : Finmap fun _ : K => V) (k : K) :
    (retain p m).lookup k = (m.lookup k).filter (p k) := by
  induction m using Finmap.induction_on with
  | H l => exact dlookup_filter p k l.nodupKeys

theorem lookup_insert_eq (m : Finmap fun _ : K => V) (k : K) (v : V) (j : K) :
    (m.insert k v).lookup j = if j = k then some v else m.lookup j := by
  split_ifs with h
  · subst h
    exact Finmap.lookup_insert m
  · exact Finmap.lookup_insert_of_ne m h

theorem mem_keys_iff {m : Finmap fun _ : K => V} {k : K} : k ∈ m.keys ↔ (m.lookup k).isSome := by
  rw [Finmap.mem_keys, Finmap.lookup_isSome]

theorem keys_insert (m : Finmap fun _ : K => V) (k : K) (v : V) :
    (m.insert k v).keys = insert k m.keys := by
  ext j
  rw [Finmap.mem_keys, Finmap.mem_insert, Finset.mem_insert, Finmap.mem_keys]

/-- Entries stay, changed by `old` only, and come in by `new` only. -/
structure Evolves (old : K → V → V → Prop) (new : K → V → Prop)
    (m m' : Finmap fun _ : K => V) : Prop where
  kept : ∀ k v, m.lookup k = some v → ∃ v', m'.lookup k = some v' ∧ old k v v'
  came : ∀ k v', m.lookup k = none → m'.lookup k = some v' → ∃ v, new k v ∧ old k v v'

namespace Evolves

variable {old : K → V → V → Prop} {new : K → V → Prop} {m m' m'' : Finmap fun _ : K => V}

theorem refl (hrefl : ∀ k v, old k v v) (m : Finmap fun _ : K => V) : Evolves old new m m where
  kept k v h := ⟨v, h, hrefl k v⟩
  came k v' hnone h := by
    rw [hnone] at h
    cases h

theorem trans (htrans : ∀ k v₁ v₂ v₃, old k v₁ v₂ → old k v₂ v₃ → old k v₁ v₃)
    (h : Evolves old new m m') (h' : Evolves old new m' m'') : Evolves old new m m'' where
  kept k v hv := by
    obtain ⟨v', hv', hold⟩ := h.kept k v hv
    obtain ⟨v'', hv'', hold'⟩ := h'.kept k v' hv'
    exact ⟨v'', hv'', htrans k v v' v'' hold hold'⟩
  came k v'' hnone hv'' := by
    cases hv' : m'.lookup k with
    | none => exact h'.came k v'' hv' hv''
    | some v' =>
      obtain ⟨v, hnew, hold⟩ := h.came k v' hnone hv'
      obtain ⟨w, hw, hold'⟩ := h'.kept k v' hv'
      obtain rfl : w = v'' := Option.some.inj (hw.symm.trans hv'')
      exact ⟨v, hnew, htrans k v v' w hold hold'⟩

theorem update (hrefl : ∀ k v, old k v v) {k : K} {v v' : V} (hv : m.lookup k = some v)
    (hold : old k v v') : Evolves old new m (m.insert k v') where
  kept j w hw := by
    rw [lookup_insert_eq]
    split_ifs with hj
    · subst hj
      obtain rfl : v = w := Option.some.inj (hv.symm.trans hw)
      exact ⟨v', rfl, hold⟩
    · exact ⟨w, hw, hrefl j w⟩
  came j w hnone hw := by
    rw [lookup_insert_eq] at hw
    split_ifs at hw with hj
    · subst hj
      rw [hv] at hnone
      cases hnone
    · rw [hnone] at hw
      cases hw

theorem load (hrefl : ∀ k v, old k v v) {k : K} {v : V} (hnone : m.lookup k = none)
    (hnew : new k v) : Evolves old new m (m.insert k v) where
  kept j w hw := by
    have hj : j ≠ k := by
      rintro rfl
      rw [hnone] at hw
      cases hw
    exact ⟨w, (Finmap.lookup_insert_of_ne _ hj).trans hw, hrefl j w⟩
  came j w hnone' hw := by
    rw [lookup_insert_eq] at hw
    split_ifs at hw with hj
    · subst hj
      cases hw
      exact ⟨v, hnew, hrefl j v⟩
    · rw [hnone'] at hw
      cases hw

end Evolves

/-- Whether a list is an order in which a map with these keys may be iterated. -/
def Enumerates (order : List K) (keys : Finset K) : Prop :=
  order.Nodup ∧ order.toFinset = keys

instance (order : List K) (keys : Finset K) : Decidable (Enumerates order keys) :=
  inferInstanceAs (Decidable (_ ∧ _))

end Fareward
