import Mathlib.Order.Lattice
import Mathlib.Algebra.BigOperators.Group.List.Basic
import Mathlib.Algebra.GroupWithZero.Nat

/-!
# Sorted maps

The ordered map of the standard library (`BTreeMap`): a list of entries that strictly ascends by
key, so that a map has one representation and its iteration order is the order of the list.
-/

namespace Fareward

universe u v

variable {K : Type u} {V : Type v} [LinearOrder K]

/-- `BTreeMap<K, V>`. -/
structure SortedMap (K : Type u) (V : Type v) [LinearOrder K] where
  /-- The entries in iteration order. -/
  entries : List (K × V)
  sorted : entries.Pairwise fun a b => a.1 < b.1
  deriving DecidableEq

namespace SortedMap

def empty : SortedMap K V := ⟨[], .nil⟩

instance : EmptyCollection (SortedMap K V) := ⟨empty⟩

def find (k : K) : List (K × V) → Option V
  | [] => none
  | e :: es => if e.1 = k then some e.2 else find k es

def insertEntry (k : K) (v : V) : List (K × V) → List (K × V)
  | [] => [(k, v)]
  | e :: es =>
    if k < e.1 then (k, v) :: e :: es
    else if k = e.1 then (k, v) :: es
    else e :: insertEntry k v es

theorem mem_insertEntry {k : K} {v : V} {e : K × V} :
    ∀ {es : List (K × V)}, e ∈ insertEntry k v es → e = (k, v) ∨ e ∈ es
  | [], h => by simpa [insertEntry] using h
  | d :: es, h => by
    unfold insertEntry at h
    split_ifs at h with hlt heq
    · simpa using h
    · rcases List.mem_cons.mp h with h | h
      · exact .inl h
      · exact .inr (List.mem_cons_of_mem _ h)
    · rcases List.mem_cons.mp h with h | h
      · exact .inr (by rw [h]; exact List.mem_cons_self)
      · exact (mem_insertEntry h).imp_right (List.mem_cons_of_mem _)

theorem sorted_insertEntry {k : K} {v : V} :
    ∀ {es : List (K × V)}, es.Pairwise (fun a b => a.1 < b.1) →
      (insertEntry k v es).Pairwise fun a b => a.1 < b.1
  | [], _ => List.pairwise_singleton _ _
  | d :: es, h => by
    obtain ⟨hd, hes⟩ := List.pairwise_cons.mp h
    unfold insertEntry
    split_ifs with hlt heq
    · refine List.pairwise_cons.mpr ⟨?_, h⟩
      intro e he
      rcases List.mem_cons.mp he with rfl | he
      · exact hlt
      · exact hlt.trans (hd e he)
    · subst heq
      exact List.pairwise_cons.mpr ⟨hd, hes⟩
    · refine List.pairwise_cons.mpr ⟨?_, sorted_insertEntry hes⟩
      intro e he
      rcases mem_insertEntry he with rfl | he
      · exact lt_of_le_of_ne (not_lt.mp hlt) (Ne.symm heq)
      · exact hd e he

/-- `get`. -/
def get? (m : SortedMap K V) (k : K) : Option V := find k m.entries

/-- `insert`: the old value, if any, is replaced. -/
def insert (m : SortedMap K V) (k : K) (v : V) : SortedMap K V :=
  ⟨insertEntry k v m.entries, sorted_insertEntry m.sorted⟩

theorem find_eq_none {k : K} :
    ∀ {es : List (K × V)}, (∀ e ∈ es, e.1 ≠ k) → find k es = none
  | [], _ => rfl
  | e :: es, h => by
    rw [find, if_neg (h e List.mem_cons_self)]
    exact find_eq_none fun d hd => h d (List.mem_cons_of_mem _ hd)

theorem find_insertEntry (k : K) (v : V) (j : K) :
    ∀ es : List (K × V), find j (insertEntry k v es) = if k = j then some v else find j es
  | [] => rfl
  | e :: es => by
    unfold insertEntry
    by_cases hj : k = j
    · rw [if_pos hj]
      subst hj
      split_ifs with hlt heq
      · simp [find]
      · simp [find]
      · rw [find, if_neg (Ne.symm heq), find_insertEntry, if_pos rfl]
    · rw [if_neg hj]
      split_ifs with hlt heq
      · simp [find, hj]
      · have he : e.1 ≠ j := fun h => hj (heq.trans h)
        simp [find, hj, he]
      · rw [find, find, find_insertEntry, if_neg hj]

@[simp] theorem get?_empty (k : K) : (∅ : SortedMap K V).get? k = none := rfl

theorem get?_insert (m : SortedMap K V) (k : K) (v : V) (j : K) :
    (m.insert k v).get? j = if k = j then some v else m.get? j :=
  find_insertEntry k v j m.entries

/-! ### Sums over the values -/

/-- The sum of a quantity over the entries. -/
def sumOf (f : V → ℕ) (m : SortedMap K V) : ℕ := (m.entries.map fun e => f e.2).sum

end SortedMap

end Fareward
