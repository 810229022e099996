import Mathlib.Data.List.Basic
import Mathlib.Order.Lattice

/-!
# Items grouped under keys that do not go down

Items come one after another, each under a key. `Grouped key f b items groups` says that `groups`
lists the keys of `items`, in their order and each once, and with each key what folding `f` over the
items under it gives.

If the keys do not go down, an item either belongs to the last group, which it extends (`extend`),
or it comes under a new key and opens a group (`snoc`).
-/

namespace Fareward

variable {τ κ β : Type*} [LinearOrder κ] {key : τ → κ} {f : β → τ → β} {b : β}

/-- The items under a key. -/
def itemsUnder (key : τ → κ) (items : List τ) (k : κ) : List τ := items.filter (key · = k)

theorem itemsUnder_concat (items : List τ) (item : τ) (k : κ) :
    itemsUnder key (items ++ [item]) k =
      itemsUnder key items k ++ if key item = k then [item] else [] := by
  unfold itemsUnder
  rw [List.filter_append, List.filter_singleton]
  by_cases h : key item = k <;> simp [h]

theorem itemsUnder_eq_nil {items : List τ} {k : κ} (h : ∀ item ∈ items, key item < k) :
    itemsUnder key items k = [] :=
  List.filter_eq_nil_iff.mpr fun item hitem =>
    Bool.not_eq_true _ ▸ decide_eq_false (h item hitem).ne

variable (key f b) in
/-- The groups of a list of items. -/
structure Grouped (items : List τ) (groups : List (κ × β)) : Prop where
  sorted : (groups.map Prod.fst).Pairwise (· < ·)
  mem_keys : ∀ k, k ∈ groups.map Prod.fst ↔ ∃ item ∈ items, key item = k
  fold : ∀ group ∈ groups, group.2 = (itemsUnder key items group.1).foldl f b

namespace Grouped

variable {items : List τ} {groups : List (κ × β)} {item : τ}

theorem nil : Grouped key f b [] [] where
  sorted := List.Pairwise.nil
  mem_keys _ := by simp
  fold := List.forall_mem_nil _

theorem key_mem (h : Grouped key f b items groups) {group : κ × β} (hgroup : group ∈ groups) :
    ∃ item ∈ items, key item = group.1 :=
  (h.mem_keys _).mp (List.mem_map_of_mem hgroup)

/-- The last key is the highest. -/
theorem key_le_last {k : κ} {acc : β} (h : Grouped key f b items (groups ++ [(k, acc)]))
    (hitem : item ∈ items) : key item ≤ k := by
  have hmem := (h.mem_keys (key item)).mpr ⟨item, hitem, rfl⟩
  have hsorted := h.sorted
  rw [List.map_append] at hmem hsorted
  rcases List.mem_append.mp hmem with hmem | hmem
  · exact ((List.pairwise_append.mp hsorted).2.2 _ hmem k (List.mem_singleton_self _)).le
  · exact (List.mem_singleton.mp hmem).le

/-- An item with a new key opens a group. -/
theorem snoc (h : Grouped key f b items groups) (hlt : ∀ i ∈ items, key i < key item) :
    Grouped key f b (items ++ [item]) (groups ++ [(key item, f b item)]) where
  sorted := by
    rw [List.map_append, List.pairwise_append]
    refine ⟨h.sorted, List.pairwise_singleton _ _, fun k hk k' hk' => ?_⟩
    obtain ⟨i, hi, rfl⟩ := (h.mem_keys k).mp hk
    rw [List.mem_singleton.mp hk']
    exact hlt i hi
  mem_keys k := by
    simp only [List.map_append, List.mem_append, h.mem_keys, List.map_cons, List.map_nil,
      List.mem_singleton, or_and_right, exists_or, exists_eq_left]
    exact or_congr_right eq_comm
  fold group hgroup := by
    rw [itemsUnder_concat]
    rcases List.mem_append.mp hgroup with hgroup | hgroup
    · obtain ⟨i, hi, hkey⟩ := h.key_mem hgroup
      rw [if_neg (hkey ▸ (hlt i hi).ne'), List.append_nil]
      exact h.fold group hgroup
    · rw [List.mem_singleton.mp hgroup, if_pos rfl, itemsUnder_eq_nil hlt]
      rfl

/-- An item under the last key extends the last group. -/
theorem extend {acc : β} (h : Grouped key f b items (groups ++ [(key item, acc)])) :
    Grouped key f b (items ++ [item]) (groups ++ [(key item, f acc item)]) where
  sorted := by simpa using h.sorted
  mem_keys k := by
    have hkey : key item ∈ (groups ++ [(key item, acc)]).map Prod.fst := by simp
    have hk := h.mem_keys k
    simp only [List.map_append, List.map_cons, List.map_nil] at hk ⊢
    rw [hk]
    simp only [List.mem_append, List.mem_singleton, or_and_right, exists_or, exists_eq_left]
    constructor
    · exact .inl
    · rintro (hk | rfl)
      · exact hk
      · exact (h.mem_keys _).mp hkey
  fold group hgroup := by
    have hlast := h.fold (key item, acc) (List.mem_append_right _ (List.mem_singleton_self _))
    have hsorted := h.sorted
    rw [List.map_append, List.pairwise_append] at hsorted
    rw [itemsUnder_concat]
    rcases List.mem_append.mp hgroup with hgroup | hgroup
    · have hlt := hsorted.2.2 group.1 (List.mem_map_of_mem hgroup) (key item)
        (List.mem_singleton_self _)
      rw [if_neg hlt.ne', List.append_nil]
      exact h.fold group (List.mem_append_left _ hgroup)
    · rw [List.mem_singleton.mp hgroup, if_pos rfl, List.foldl_append, ← hlast]
      rfl

end Grouped

end Fareward
