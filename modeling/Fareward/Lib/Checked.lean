import Mathlib.Algebra.Group.Int.Defs
import Mathlib.Algebra.Group.Nat.Defs

/-!
# Machine integers over the mathematical ones

An `i64` is an `Int` and a `u64` a `Nat`; the operations that can leave the range say so. A
`checked_*` of the source is the exact result passed through `checkedI64` or `checkedU64`, and a
plain operation of a release build is the exact result passed through `wrapI64`.
-/

namespace Fareward

def i64Min : Int := -2 ^ 63

def i64Max : Int := 2 ^ 63 - 1

/-- The value if it fits an `i64`. -/
def checkedI64 (x : Int) : Option Int := if i64Min ≤ x ∧ x ≤ i64Max then some x else none

def u64Max : ℕ := 2 ^ 64 - 1

/-- The value if it fits a `u64`. -/
def checkedU64 (x : ℕ) : Option ℕ := if x ≤ u64Max then some x else none

/-- The value modulo `2^64`, as an `i64`. -/
def wrapI64 (x : Int) : Int := Int.bmod x (2 ^ 64)

theorem checkedI64_eq_some {x y : Int} (h : checkedI64 x = some y) :
    y = x ∧ i64Min ≤ x ∧ x ≤ i64Max := by
  obtain ⟨hx, hxy⟩ := Option.ite_none_right_eq_some.mp h
  exact ⟨(Option.some.inj hxy).symm, hx⟩

theorem checkedU64_eq_some {x y : ℕ} : checkedU64 x = some y ↔ x = y ∧ x ≤ u64Max := by
  rw [checkedU64, Option.ite_none_right_eq_some, Option.some.injEq, and_comm]

theorem wrapI64_of_mem {x : Int} (hmin : i64Min ≤ x) (hmax : x ≤ i64Max) : wrapI64 x = x := by
  unfold wrapI64
  unfold i64Min at hmin
  unfold i64Max at hmax
  exact Int.bmod_eq_of_le (by omega) (by omega)

end Fareward
