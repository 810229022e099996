import Mathlib.Order.Lattice
import Mathlib.Order.Nat

/-!
# Meters: counters with a period

A meter adds up what happens in its period. It does not remember earlier periods: when it is asked
about another period it *rolls* there and starts from zero.

`total p` is what really happened in period `p`. `m.Counts rel total` relates the meter to it: its
value is `rel`-related to the total of its period, and nothing has happened in a later one. With
`rel` an equation the meter is exact, with `≤` it has counted at least everything. Rolling forward
keeps this, and so does an addition to the meter and to the total of its period.
-/

namespace Fareward

universe u

/-- A counter for one period. -/
@[ext]
structure Meter (ι : Type u) where
  label : ι
  value : ℕ
  deriving DecidableEq

namespace Meter

variable {ι : Type u}

/-- The meter in period `p`. -/
def roll [DecidableEq ι] (m : Meter ι) (p : ι) : Meter ι := if m.label = p then m else ⟨p, 0⟩

/-- The meter after `n` more. -/
def add (m : Meter ι) (n : ℕ) : Meter ι := ⟨m.label, m.value + n⟩

@[simp] theorem roll_label [DecidableEq ι] (m : Meter ι) (p : ι) : (m.roll p).label = p := by
  unfold roll
  split_ifs with h
  · exact h
  · rfl

theorem roll_of_eq [DecidableEq ι] {m : Meter ι} {p : ι} (h : m.label = p) : m.roll p = m :=
  if_pos h

theorem roll_of_ne [DecidableEq ι] {m : Meter ι} {p : ι} (h : m.label ≠ p) : m.roll p = ⟨p, 0⟩ :=
  if_neg h

/-- The relations between a total and a value that a meter can keep. -/
structure Keepable (rel : ℕ → ℕ → Prop) : Prop where
  zero : rel 0 0
  add : ∀ {a b : ℕ} (n : ℕ), rel a b → rel (a + n) (b + n)

theorem keepable_le : Keepable (· ≤ ·) := ⟨le_rfl, fun n h => Nat.add_le_add_right h n⟩

/-- The meter has counted the total of its period, and nothing happened later. -/
structure Counts [LT ι] (rel : ℕ → ℕ → Prop) (total : ι → ℕ) (m : Meter ι) : Prop where
  current : rel (total m.label) m.value
  later : ∀ q, m.label < q → total q = 0

namespace Counts

variable [LinearOrder ι] {rel : ℕ → ℕ → Prop} {total total' : ι → ℕ} {m : Meter ι} {p : ι}

theorem of_zero (htotal : ∀ q, total q = 0) (hrel : rel 0 m.value) : m.Counts rel total :=
  ⟨by rwa [htotal], fun q _ => htotal q⟩

theorem congr (h : m.Counts rel total) (htotal : ∀ q, total' q = total q) : m.Counts rel total' :=
  ⟨by rw [htotal]; exact h.current, fun q hq => by rw [htotal]; exact h.later q hq⟩

/-- What the meter says of a period it has not passed. -/
theorem roll_value (hrel : Keepable rel) (h : m.Counts rel total) (hp : m.label ≤ p) :
    rel (total p) (m.roll p).value := by
  rcases hp.eq_or_lt with rfl | hlt
  · rw [roll_of_eq rfl]
    exact h.current
  · rw [roll_of_ne hlt.ne, h.later p hlt]
    exact hrel.zero

/-- A meter rolls forward, or anywhere as long as nothing has happened. -/
theorem roll (hrel : Keepable rel) (h : m.Counts rel total)
    (hp : m.label ≤ p ∨ ∀ q, total q = 0) : (m.roll p).Counts rel total := by
  rcases hp with hp | hzero
  · refine ⟨?_, fun q hq => ?_⟩
    · rw [roll_label]
      exact h.roll_value hrel hp
    · rw [roll_label] at hq
      exact h.later q (hp.trans_lt hq)
  · by_cases hlabel : m.label = p
    · rwa [roll_of_eq hlabel]
    · rw [roll_of_ne hlabel]
      exact of_zero hzero hrel.zero

/-- What happens in the period of the meter is added to both. -/
theorem add (hrel : Keepable rel) (h : m.Counts rel total) (n : ℕ)
    (htotal : ∀ q, total' q = if q = m.label then total q + n else total q) :
    (m.add n).Counts rel total' := by
  refine ⟨?_, fun q hq => ?_⟩
  · show rel (total' m.label) (m.value + n)
    rw [htotal, if_pos rfl]
    exact hrel.add n h.current
  · have hq : m.label < q := hq
    rw [htotal, if_neg hq.ne']
    exact h.later q hq

end Counts

end Meter

end Fareward
