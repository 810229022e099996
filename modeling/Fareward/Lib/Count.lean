import Mathlib.Data.List.AList

/-!
# Counting the entries of a table

A table of tasks is a list addressed by index, and a step rewrites one of its rows. The lemmas
say what that does to the number of rows with a property, which is how reference counts and permit
counts are related to the rows that hold them. `countP_kerase` and `countP_insert` say the same of
the entries of an association list.
-/

namespace Fareward

variable {α : Type*} {p : α → Bool} {l : List α} {x y : α} {i j : Nat}

/-- Replacing row `i` moves the count by what the row was and what it becomes. -/
theorem countP_set_add (h : l[i]? = some x) (y : α) :
    (l.set i y).countP p + (p x).toNat = l.countP p + (p y).toNat := by
  induction l generalizing i with
  | nil => simp at h
  | cons z l ih =>
    cases i with
    | zero =>
      obtain rfl : z = x := by simpa using h
      rw [List.set_cons_zero, List.countP_cons, List.countP_cons]
      cases p z <;> cases p y <;> simp
    | succ i =>
      have hi := ih (i := i) (by simpa using h)
      rw [List.set_cons_succ, List.countP_cons, List.countP_cons]
      omega

theorem getElem?_set_of_some (h : l[i]? = some x) (y : α) (j : Nat) :
    (l.set i y)[j]? = if i = j then some y else l[j]? := by
  have hlt : i < l.length := (List.getElem?_eq_some_iff.mp h).1
  rw [List.getElem?_set]
  split_ifs <;> simp_all

/-- The rows of a table one of which is replaced. -/
theorem getElem?_set_some (h : (l.set i y)[j]? = some x) :
    i = j ∧ x = y ∨ i ≠ j ∧ l[j]? = some x := by
  rw [List.getElem?_set] at h
  split_ifs at h with hij hlt
  · exact .inl ⟨hij, (Option.some.inj h).symm⟩
  · exact .inr ⟨hij, h⟩

theorem getElem?_concat_some (h : (l ++ [y])[i]? = some x) :
    l[i]? = some x ∨ i = l.length ∧ x = y := by
  rcases Nat.lt_or_ge i l.length with hlt | hge
  · exact .inl ((List.getElem?_append_left hlt).symm.trans h)
  · rw [List.getElem?_append_right hge] at h
    have hi := (List.getElem?_eq_some_iff.mp h).1
    have heq : i = l.length := by
      rw [List.length_singleton] at hi
      omega
    rw [heq, Nat.sub_self] at h
    exact .inr ⟨heq, (Option.some.inj h).symm⟩

theorem set_of_getElem? (h : l[i]? = some x) : l.set i x = l := by
  refine List.ext_getElem? fun j => ?_
  rw [getElem?_set_of_some h]
  split_ifs with hij
  · rw [← hij, h]
  · rfl

theorem modify_eq_set (h : l[i]? = some x) (f : α → α) : l.modify i f = l.set i (f x) := by
  refine List.ext_getElem? fun j => ?_
  rw [getElem?_set_of_some h, List.getElem?_modify]
  split_ifs with hij
  · rw [← hij, h]
    rfl
  · simp

theorem modify_of_getElem?_eq_none (h : l[i]? = none) (f : α → α) : l.modify i f = l := by
  refine List.ext_getElem? fun j => ?_
  rw [List.getElem?_modify]
  split_ifs with hij
  · rw [← hij, h]
    rfl
  · simp

theorem countP_pos_of_getElem? (h : l[i]? = some x) (hp : p x = true) : 0 < l.countP p :=
  List.countP_pos_iff.mpr ⟨x, List.mem_of_getElem? h, hp⟩

/-- A property that one row at most has picks out that row. -/
theorem eq_of_countP_le_one (hc : l.countP p ≤ 1) (hi : l[i]? = some x) (hx : p x = true)
    (hj : l[j]? = some y) (hy : p y = true) : i = j := by
  induction l generalizing i j with
  | nil => simp at hi
  | cons z l ih =>
    rw [List.countP_cons] at hc
    cases i with
    | zero =>
      obtain rfl : z = x := by simpa using hi
      cases j with
      | zero => rfl
      | succ =>
        have : 0 < l.countP p := countP_pos_of_getElem? (by simpa using hj) hy
        rw [if_pos hx] at hc
        omega
    | succ i =>
      have : 0 < l.countP p := countP_pos_of_getElem? (by simpa using hi) hx
      cases j with
      | zero =>
        obtain rfl : z = y := by simpa using hj
        rw [if_pos hy] at hc
        omega
      | succ j =>
        have : i = j := ih (by omega) (by simpa using hi) (by simpa using hj)
        rw [this]

/-- A property of one row and of no other is counted once. -/
theorem countP_eq_one (hi : l[i]? = some x) (hx : p x = true)
    (halone : ∀ j y, l[j]? = some y → p y = true → j = i) : l.countP p = 1 := by
  induction l generalizing i with
  | nil => simp at hi
  | cons z l ih =>
    rw [List.countP_cons]
    cases i with
    | zero =>
      obtain rfl : z = x := by simpa using hi
      have hnone : l.countP p = 0 := by
        refine List.countP_eq_zero.mpr fun y hy hp => ?_
        obtain ⟨j, hj⟩ := List.getElem?_of_mem hy
        exact absurd (halone (j + 1) y (by simpa using hj) hp) (by omega)
      rw [hnone, if_pos hx]
    | succ i =>
      have hz : ¬p z = true := fun hz => absurd (halone 0 z (by simp) hz) (by omega)
      have hrest : l.countP p = 1 := by
        refine ih (i := i) (by simpa using hi) fun j y hj hp => ?_
        have := halone (j + 1) y (by simpa using hj) hp
        omega
      rw [hrest, if_neg hz]

/-- A property that no two rows share is counted once at most. -/
theorem countP_le_one (h : ∀ (i j : Nat) (x y : α), l[i]? = some x → l[j]? = some y → p x = true →
    p y = true → i = j) : l.countP p ≤ 1 := by
  by_cases hex : ∃ x ∈ l, p x = true
  · obtain ⟨x, hmem, hx⟩ := hex
    obtain ⟨i, hi⟩ := List.getElem?_of_mem hmem
    exact le_of_eq (countP_eq_one hi hx fun j y hj hy => h j i y x hj hi hy hx)
  · have hnone : l.countP p = 0 :=
      List.countP_eq_zero.mpr fun x hmem hx => hex ⟨x, hmem, hx⟩
    omega

/-- What has one of two exclusive properties is counted by one of the two. -/
theorem countP_add_of_exclusive {q r : α → Bool}
    (h : ∀ x ∈ l, (r x).toNat = (p x).toNat + (q x).toNat) :
    l.countP r = l.countP p + l.countP q := by
  induction l with
  | nil => rfl
  | cons x l ih =>
    have hx := h x List.mem_cons_self
    have hl := ih fun y hy => h y (List.mem_cons_of_mem _ hy)
    rw [List.countP_cons, List.countP_cons, List.countP_cons, hl]
    cases hp : p x <;> cases hq : q x <;> cases hr : r x
    all_goals
      simp only [hp, hq, hr, Bool.toNat_true, Bool.toNat_false] at hx
      simp only [Bool.false_eq_true, if_true, if_false]
      omega

section AList

variable {K V : Type*} [DecidableEq K] {key : K} {v : V}

theorem countP_kerase {q : V → Bool} {m : List (Σ _ : K, V)} (h : m.dlookup key = some v) :
    (m.kerase key).countP (fun e => q e.2) + (q v).toNat = m.countP fun e => q e.2 := by
  induction m with
  | nil => cases h
  | cons e m ih =>
    obtain ⟨k, u⟩ := e
    rw [List.countP_cons]
    by_cases hk : key = k
    · subst hk
      rw [List.dlookup_cons_eq] at h
      obtain rfl := Option.some.inj h
      have herase : List.kerase key (⟨key, u⟩ :: m) = m := List.kerase_cons_eq rfl
      rw [herase]
      cases q u <;> simp
    · rw [List.dlookup_cons_ne _ _ hk] at h
      rw [List.kerase_cons_ne hk, List.countP_cons]
      have := ih h
      omega

theorem countP_insert {q : V → Bool} {m : AList fun _ : K => V} (h : m.lookup key = none) (v : V) :
    (m.insert key v).entries.countP (fun e => q e.2) =
      m.entries.countP (fun e => q e.2) + (q v).toNat := by
  rw [AList.entries_insert_of_notMem (AList.lookup_eq_none.mp h), List.countP_cons]
  cases q v <;> simp

/-- What is left after an erasure was there before. -/
theorem lookup_of_lookup_erase {key' : K} {m : AList fun _ : K => V}
    (h : (m.erase key).lookup key' = some v) : key' ≠ key ∧ m.lookup key' = some v := by
  have hne : key' ≠ key := by
    rintro rfl
    rw [AList.lookup_erase] at h
    cases h
  exact ⟨hne, AList.lookup_erase_ne hne ▸ h⟩

end AList

end Fareward
