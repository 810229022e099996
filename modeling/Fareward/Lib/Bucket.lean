import Mathlib.Algebra.BigOperators.Group.List.Basic
import Mathlib.Algebra.Order.Ring.Nat

/-!
# Buckets

A bucket fills at a constant rate up to its capacity, and a draw takes out at most what is in it.
What is drawn in a window is then at most the capacity and what flows in during the window. The
potential is the level: from any moment on, the draws up to a time are paid by the level at that
moment and the inflow until that time (`drawn_le_level`); at the first draw of the window the level
is at most the capacity.
-/

namespace Fareward.Bucket

variable {a b now : ℕ}

/-- `Draws capacity rate time level draws time' level'`: a bucket with `level` at `time` serves the
`draws`, each a time and an amount, and is left with `level'` at `time'`. -/
inductive Draws (capacity rate : ℕ) : ℕ → ℕ → List (ℕ × ℕ) → ℕ → ℕ → Prop
  | nil (time level : ℕ) : Draws capacity rate time level [] time level
  | cons {time level now filled amount time' level' : ℕ} {draws : List (ℕ × ℕ)}
      (hnow : time ≤ now) (hinflow : filled ≤ level + rate * (now - time))
      (hcapacity : filled ≤ capacity) (hamount : amount ≤ filled)
      (hdraws : Draws capacity rate now (filled - amount) draws time' level') :
      Draws capacity rate time level ((now, amount) :: draws) time' level'

/-- What is drawn in a window, with its ends. -/
def drawn (a b : ℕ) (draws : List (ℕ × ℕ)) : ℕ :=
  ((draws.filter fun d => a ≤ d.1 ∧ d.1 ≤ b).map Prod.snd).sum

theorem drawn_cons_of_mem (amount : ℕ) (draws : List (ℕ × ℕ)) (ha : a ≤ now) (hb : now ≤ b) :
    drawn a b ((now, amount) :: draws) = amount + drawn a b draws := by
  unfold drawn
  rw [List.filter_cons_of_pos (by simpa using ⟨ha, hb⟩), List.map_cons, List.sum_cons]

theorem drawn_cons_of_notMem (amount : ℕ) (draws : List (ℕ × ℕ)) (h : ¬(a ≤ now ∧ now ≤ b)) :
    drawn a b ((now, amount) :: draws) = drawn a b draws := by
  unfold drawn
  rw [List.filter_cons_of_neg (by simpa using h)]

variable {capacity rate time level time' level' : ℕ} {draws : List (ℕ × ℕ)}

theorem Draws.level_le (h : Draws capacity rate time level draws time' level')
    (hlevel : level ≤ capacity) : level' ≤ capacity := by
  induction h with
  | nil => exact hlevel
  | cons _ _ hcapacity _ _ ih => exact ih ((Nat.sub_le _ _).trans hcapacity)

theorem Draws.drawn_eq_zero (h : Draws capacity rate time level draws time' level') (hb : b < time)
    (a : ℕ) : drawn a b draws = 0 := by
  induction h with
  | nil => rfl
  | cons hnow _ _ _ _ ih =>
    rw [drawn_cons_of_notMem _ _ fun hmem => absurd hmem.2 (hb.trans_le hnow).not_ge]
    exact ih (hb.trans_le hnow)

theorem Draws.drawn_le_level (h : Draws capacity rate time level draws time' level') (hb : time ≤ b)
    (a : ℕ) : drawn a b draws ≤ level + rate * (b - time) := by
  induction h with
  | nil => exact Nat.zero_le _
  | @cons time level now filled amount _ _ draws hnow hinflow _ hamount hdraws ih =>
    rcases Nat.lt_or_ge b now with hlate | hearly
    · rw [drawn_cons_of_notMem _ _ fun hmem => absurd hmem.2 hlate.not_ge,
        hdraws.drawn_eq_zero hlate]
      exact Nat.zero_le _
    · have hsplit : rate * (b - time) = rate * (now - time) + rate * (b - now) := by
        rw [← Nat.mul_add]
        congr 1
        omega
      have hcount : drawn a b ((now, amount) :: draws) ≤ amount + drawn a b draws := by
        by_cases hmem : a ≤ now ∧ now ≤ b
        · exact (drawn_cons_of_mem amount draws hmem.1 hmem.2).le
        · rw [drawn_cons_of_notMem amount draws hmem]
          exact Nat.le_add_left _ _
      have hrest := ih hearly
      omega

/-- **The rate bound.** -/
theorem Draws.drawn_le (h : Draws capacity rate time level draws time' level') (hab : a ≤ b) :
    drawn a b draws ≤ capacity + rate * (b - a) := by
  induction h with
  | nil => exact Nat.zero_le _
  | @cons time level now filled amount _ _ draws hnow _ hcapacity hamount hdraws ih =>
    by_cases hmem : a ≤ now ∧ now ≤ b
    · -- the first draw of the window, or a later one: the level is at most the capacity
      have hrest := hdraws.drawn_le_level hmem.2 a
      have hmono : rate * (b - now) ≤ rate * (b - a) := Nat.mul_le_mul_left _ (by omega)
      rw [drawn_cons_of_mem amount draws hmem.1 hmem.2]
      omega
    · rw [drawn_cons_of_notMem amount draws hmem]
      exact ih

end Fareward.Bucket
