import Mathlib.Order.Monotone.Basic
import Mathlib.Order.Nat

/-!
# The Gregorian calendar

The calendar as its rules say it: the lengths of the months, the leap years, and the day after a
day. `dateOf n` is the date `n` days after the first of January 1970. Dates never repeat
(`dateOf_injective`), and every day has the first of its month at or before it
(`dateOf_sub_day`).
-/

namespace Fareward.Gregorian

/-- Every fourth year, but of the centuries only every fourth. -/
def IsLeap (year : ℕ) : Prop := year % 4 = 0 ∧ (year % 100 ≠ 0 ∨ year % 400 = 0)

instance (year : ℕ) : Decidable (IsLeap year) := inferInstanceAs (Decidable (_ ∧ _))

def daysInMonth (year : ℕ) : ℕ → ℕ
  | 2 => if IsLeap year then 29 else 28
  | 4 | 6 | 9 | 11 => 30
  | _ => 31

@[ext]
structure Date where
  year : ℕ
  month : ℕ
  day : ℕ
  deriving DecidableEq, Repr

namespace Date

/-- The next day. -/
def next (d : Date) : Date :=
  if d.day < daysInMonth d.year d.month then { d with day := d.day + 1 }
  else if d.month < 12 then ⟨d.year, d.month + 1, 1⟩
  else ⟨d.year + 1, 1, 1⟩

/-- The first day of the month. -/
def firstOfMonth (d : Date) : Date := { d with day := 1 }

/-- A date of the calendar. -/
structure Valid (d : Date) : Prop where
  month_pos : 1 ≤ d.month
  month_le : d.month ≤ 12
  day_pos : 1 ≤ d.day
  day_le : d.day ≤ daysInMonth d.year d.month

end Date

theorem daysInMonth_two (year : ℕ) : daysInMonth year 2 = if IsLeap year then 29 else 28 := rfl

theorem daysInMonth_bounds (year month : ℕ) :
    28 ≤ daysInMonth year month ∧ daysInMonth year month ≤ 31 := by
  unfold daysInMonth
  split
  · split_ifs <;> omega
  all_goals omega

theorem one_le_daysInMonth (year month : ℕ) : 1 ≤ daysInMonth year month :=
  le_trans (by decide) (daysInMonth_bounds year month).1

theorem Date.Valid.next {d : Date} (h : d.Valid) : d.next.Valid := by
  obtain ⟨hm1, hm12, hd1, -⟩ := h
  unfold Date.next
  split_ifs with hday hmonth
  · exact ⟨hm1, hm12, Nat.le_add_left 1 _, hday⟩
  · exact ⟨Nat.le_add_left 1 _, hmonth, le_rfl, one_le_daysInMonth _ _⟩
  · exact ⟨le_rfl, show 1 ≤ 12 by omega, le_rfl, one_le_daysInMonth _ _⟩

/-- The date of a day, counted from the first of January 1970. -/
def dateOf : ℕ → Date
  | 0 => ⟨1970, 1, 1⟩
  | n + 1 => (dateOf n).next

theorem valid_dateOf : ∀ n, (dateOf n).Valid
  | 0 => ⟨by decide, by decide, by decide, by decide⟩
  | n + 1 => (valid_dateOf n).next

/-- A number that grows with the date. -/
def Date.rank (d : Date) : ℕ := d.year * 512 + d.month * 32 + d.day

theorem Date.Valid.rank_lt_next {d : Date} (h : d.Valid) : d.rank < d.next.rank := by
  have hday := daysInMonth_bounds d.year d.month
  obtain ⟨-, hm12, -, hd⟩ := h
  unfold Date.next
  split_ifs with hlt hmonth
  · show _ < d.year * 512 + d.month * 32 + (d.day + 1)
    exact Nat.lt_succ_self _
  · show d.year * 512 + d.month * 32 + d.day < d.year * 512 + (d.month + 1) * 32 + 1
    omega
  · show d.year * 512 + d.month * 32 + d.day < (d.year + 1) * 512 + 1 * 32 + 1
    omega

theorem dateOf_injective : Function.Injective dateOf := by
  have hmono : StrictMono fun n => (dateOf n).rank :=
    strictMono_nat_of_lt_succ fun n => (valid_dateOf n).rank_lt_next
  intro n m h
  exact hmono.injective (congrArg Date.rank h)

/-- The first day of the month lies `day - 1` days before a day. -/
theorem dateOf_sub_day (n : ℕ) :
    (dateOf n).day ≤ n + 1 ∧ dateOf (n + 1 - (dateOf n).day) = (dateOf n).firstOfMonth := by
  induction n with
  | zero => exact ⟨by decide, rfl⟩
  | succ n ih =>
    obtain ⟨hle, hfirst⟩ := ih
    have hnext : dateOf (n + 1) = (dateOf n).next := rfl
    by_cases hday : (dateOf n).day < daysInMonth (dateOf n).year (dateOf n).month
    · have heq : dateOf (n + 1) = { dateOf n with day := (dateOf n).day + 1 } := by
        rw [hnext, Date.next, if_pos hday]
      rw [heq]
      refine ⟨by dsimp only; omega, ?_⟩
      rw [show n + 1 + 1 - ((dateOf n).day + 1) = n + 1 - (dateOf n).day by omega, hfirst]
      rfl
    · -- a new month begins
      have hone : (dateOf (n + 1)).day = 1 := by
        rw [hnext, Date.next, if_neg hday]
        split_ifs <;> rfl
      refine ⟨by omega, ?_⟩
      rw [hone, Nat.add_sub_cancel]
      exact Date.ext rfl rfl hone

theorem dateOf_eq_firstOfMonth_iff (n m : ℕ) :
    dateOf m = (dateOf n).firstOfMonth ↔ m = n + 1 - (dateOf n).day := by
  rw [← (dateOf_sub_day n).2]
  exact dateOf_injective.eq_iff

/-- Two days have the same first of the month exactly when year and month agree. -/
theorem firstOfMonth_eq_iff (d d' : Date) :
    d.firstOfMonth = d'.firstOfMonth ↔ d.year = d'.year ∧ d.month = d'.month := by
  constructor
  · intro h
    obtain ⟨hyear, hmonth, -⟩ := Date.mk.inj h
    exact ⟨hyear, hmonth⟩
  · rintro ⟨hyear, hmonth⟩
    exact Date.ext hyear hmonth rfl

end Fareward.Gregorian
