import Fareward.Lib.Op
import Fareward.Limiter.TimeFrame
import Mathlib.Tactic.IntervalCases

/-!
# The periods of a clock reading

`hourOf`, `dayOf`, `monthOf`, `fiveMinuteOf` and `dailyOf` are the periods a reading falls in, as
total functions: what the functions of `Limiter/TimeFrame.lean` return whenever they return
something. All of them are monotone, which is what nondecreasing readings are worth to the
limiter; for months this is a fact about the civil-date algorithm.
-/

namespace Fareward.Limiter.TimeFrame

variable {t f m t' n day day' : Int}

/-- The UTC hour. -/
def hourOf (t : Int) : Int := t / 3600

/-- The local business day. -/
def dayOf (t : Int) : Int := (t - 18000) / 86400

/-- The first day of the month that a day lies in. -/
def monthStartOf (day : Int) : Int := day - dayOfMonth day + 1

/-- The first day of the local month. -/
def monthOf (t : Int) : Int := monthStartOf (dayOf t)

def fiveMinuteOf (t : Int) : Int := fiveMinutePrefix + t / 300

def dailyOf (t : Int) : Int := dailyPrefix + dayOf t

/-! ### What the functions return -/

theorem localDaySeconds_ok {s : Int} (h : localDaySeconds t = .ok s) :
    s = t - 18000 ∧ 18000 ≤ t := by
  unfold localDaySeconds at h
  split at h
  next shifted hs =>
    obtain ⟨rfl, -, -⟩ := checkedI64_eq_some hs
    split_ifs at h with h0
    injection h with h
    unfold dayZoneOffsetSeconds at h h0
    omega
  next => cases h

theorem encode_ok {base divisor : Int} (h : encode base t divisor = .ok f) :
    f = base + t / divisor ∧ 0 ≤ t ∧ f < base + 100000000 := by
  unfold encode at h
  simp only at h
  split_ifs at h with h0 h1
  injection h with h
  rw [not_or] at h1
  exact ⟨h.symm, by omega, by omega⟩

theorem localUnixDay_ok {d : Int} (h : localUnixDay t = .ok d) : d = dayOf t ∧ 18000 ≤ t := by
  obtain ⟨s, hs, h⟩ := bind_eq_ok.mp h
  obtain ⟨rfl, h0⟩ := localDaySeconds_ok hs
  injection h with h
  exact ⟨h.symm, h0⟩

theorem fiveMinute_ok (h : fiveMinute t = .ok f) :
    f = fiveMinuteOf t ∧ 0 ≤ t ∧ f < dailyPrefix := by
  obtain ⟨hf, h0, hlt⟩ := encode_ok h
  exact ⟨hf, h0, hlt⟩

theorem daily_ok (h : daily t = .ok f) : f = dailyOf t ∧ 18000 ≤ t := by
  obtain ⟨s, hs, h⟩ := bind_eq_ok.mp h
  obtain ⟨rfl, h0⟩ := localDaySeconds_ok hs
  obtain ⟨hf, -, -⟩ := encode_ok h
  exact ⟨hf, h0⟩

theorem monthStartDay_ok (h : monthStartDay t = .ok m) : m = monthOf t ∧ 18000 ≤ t := by
  unfold monthStartDay at h
  split_ifs at h with h0
  obtain ⟨d, hd, h⟩ := bind_eq_ok.mp h
  obtain ⟨rfl, ht⟩ := localUnixDay_ok hd
  simp only at h
  split_ifs at h
  injection h with h
  exact ⟨h.symm, ht⟩

/-- The frames of the hour of a reading are the twelve from its first one on. -/
theorem hourFiveMinuteRange_ok {first last : Int} (h : hourFiveMinuteRange t = .ok (first, last)) :
    first = fiveMinutePrefix + hourOf t * 12 ∧ last = first + 11 := by
  unfold hourFiveMinuteRange at h
  split_ifs at h with h0
  obtain ⟨f, hf, h⟩ := bind_eq_ok.mp h
  obtain ⟨l, hl, h⟩ := bind_eq_ok.mp h
  injection h with h
  obtain ⟨rfl, rfl⟩ := Prod.mk.inj h
  obtain ⟨rfl, -, -⟩ := fiveMinute_ok hf
  obtain ⟨rfl, -, -⟩ := fiveMinute_ok hl
  unfold fiveMinuteOf hourOf
  omega

/-! ### Monotonicity -/

theorem hourOf_mono (h : t ≤ t') : hourOf t ≤ hourOf t' := by
  unfold hourOf
  omega

theorem dayOf_mono (h : t ≤ t') : dayOf t ≤ dayOf t' := by
  unfold dayOf
  omega

theorem dayOf_nonneg (h : 18000 ≤ t) : 0 ≤ dayOf t := by
  unfold dayOf
  omega

/-! ### The civil calendar

The algorithm counts years from the first of March within eras of 400 years. `yearOfEra` and
`yearStart` are its two halves: the year of a day of the era, and the first day of a year. -/

def yearOfEra (n : Int) : Int := (n - n / 1460 + n / 36524 - n / 146096) / 365

def yearStart (y : Int) : Int := 365 * y + y / 4 - y / 100

/-- A day of the era lies in its year. The last year of the era has its leap day at its end. -/
theorem yearOfEra_bounds (h0 : 0 ≤ n) (h1 : n ≤ 146096) :
    yearStart (yearOfEra n) ≤ n ∧ 0 ≤ yearOfEra n ∧ yearOfEra n ≤ 399 ∧
      n < yearStart (yearOfEra n + 1) + if yearOfEra n = 399 then 1 else 0 := by
  -- four years are 1460 or 1461 days, so a day lies in one of five years
  obtain ⟨k, hk⟩ : ∃ k, yearOfEra n - 4 * (n / 1460) = k := ⟨_, rfl⟩
  obtain ⟨c, hc⟩ : ∃ c, n / 36524 = c := ⟨_, rfl⟩
  have hy : yearOfEra n * 365 ≤ n - n / 1460 + c - n / 146096 ∧
      n - n / 1460 + c - n / 146096 < (yearOfEra n + 1) * 365 := by
    unfold yearOfEra
    omega
  have hk1 : -1 ≤ k := by omega
  have hk2 : k ≤ 3 := by omega
  have hc1 : 0 ≤ c := by omega
  have hc2 : c ≤ 4 := by omega
  unfold yearStart
  generalize yearOfEra n = y at *
  interval_cases c <;> interval_cases k <;> (split_ifs <;> omega)

theorem yearStart_mono {y y' : Int} (h : y ≤ y') : yearStart y ≤ yearStart y' := by
  unfold yearStart
  omega

/-- Two days of the era with no first day of a year between them lie in one year. -/
theorem yearOfEra_pred (h0 : 0 < n) (h1 : n ≤ 146096) (hstart : yearStart (yearOfEra n) < n) :
    yearOfEra (n - 1) = yearOfEra n := by
  obtain ⟨-, hy0, hy1, hlt⟩ := yearOfEra_bounds h0.le h1
  obtain ⟨hle', hy0', hy1', hlt'⟩ := yearOfEra_bounds (show 0 ≤ n - 1 by omega) (by omega)
  rcases lt_trichotomy (yearOfEra (n - 1)) (yearOfEra n) with h | h | h
  · have := yearStart_mono (show yearOfEra (n - 1) + 1 ≤ yearOfEra n by omega)
    rw [if_neg (by omega)] at hlt'
    omega
  · exact h
  · have := yearStart_mono (show yearOfEra n + 1 ≤ yearOfEra (n - 1) by omega)
    rw [if_neg (by omega)] at hlt
    omega

theorem dayOfMonth_eq (day : Int) :
    dayOfMonth day =
      let n := (day + 719468) % 146097
      let m := n - yearStart (yearOfEra n)
      m - (153 * ((5 * m + 2) / 153) + 2) / 5 + 1 := by
  have hn : day + 719468 - (day + 719468) / 146097 * 146097 = (day + 719468) % 146097 := by omega
  unfold dayOfMonth yearStart yearOfEra
  simp only [hn]

theorem dayOfMonth_pos (day : Int) : 1 ≤ dayOfMonth day := by
  rw [dayOfMonth_eq]
  have h0 : 0 ≤ (day + 719468) % 146097 := by omega
  have h1 : (day + 719468) % 146097 ≤ 146096 := by omega
  obtain ⟨hle, -, -, -⟩ := yearOfEra_bounds h0 h1
  simp only
  omega

theorem dayOfMonth_le (day : Int) : dayOfMonth day ≤ 31 := by
  rw [dayOfMonth_eq]
  simp only
  omega

/-- Within a year counted from March, the day before a day that is not the first of a month lies in
the same month. -/
theorem monthPart_pred (h : m - (153 * ((5 * m + 2) / 153) + 2) / 5 + 1 ≠ 1) :
    (5 * (m - 1) + 2) / 153 = (5 * m + 2) / 153 := by
  by_contra hne
  obtain ⟨k, hk⟩ : ∃ k, (5 * m + 2) / 153 = k := ⟨_, rfl⟩
  rw [hk] at h
  have : (5 * (m - 1) + 2) / 153 = k - 1 := by omega
  omega

/-- The day before a day that is not the first of its month lies in the same month. -/
theorem dayOfMonth_pred (h : dayOfMonth day ≠ 1) : dayOfMonth (day - 1) = dayOfMonth day - 1 := by
  rw [dayOfMonth_eq] at h ⊢
  rw [dayOfMonth_eq]
  have h0 : 0 ≤ (day + 719468) % 146097 := by omega
  have h1 : (day + 719468) % 146097 ≤ 146096 := by omega
  obtain ⟨hle, hy0, -, -⟩ := yearOfEra_bounds h0 h1
  simp only at h ⊢
  -- the first day of a year is the first of a month
  have hstart : yearStart (yearOfEra ((day + 719468) % 146097)) < (day + 719468) % 146097 := by
    omega
  have hzero : 0 ≤ yearStart (yearOfEra ((day + 719468) % 146097)) := by
    unfold yearStart
    omega
  have hn : (day - 1 + 719468) % 146097 = (day + 719468) % 146097 - 1 := by omega
  have hm : (day + 719468) % 146097 - 1 - yearStart (yearOfEra ((day + 719468) % 146097)) =
      (day + 719468) % 146097 - yearStart (yearOfEra ((day + 719468) % 146097)) - 1 := by omega
  rw [hn, yearOfEra_pred (by omega) h1 hstart, hm, monthPart_pred h]
  omega

theorem monthStartOf_le (day : Int) : monthStartOf day ≤ day := by
  have := dayOfMonth_pos day
  unfold monthStartOf
  omega

/-- The days from the first of a month on to a day of it lie in that month. -/
theorem monthStartOf_eq (h : monthStartOf day' ≤ day) (hle : day ≤ day') :
    monthStartOf day = monthStartOf day' := by
  -- downwards from `day'`, one day at a time
  obtain ⟨k, rfl⟩ : ∃ k : ℕ, day = day' - k := ⟨(day' - day).toNat, by omega⟩
  clear hle
  induction k with
  | zero => simp
  | succ k ih =>
    have hk := ih (by push_cast at h ⊢; omega)
    have hne : dayOfMonth (day' - k) ≠ 1 := by
      intro h1
      unfold monthStartOf at hk h
      push_cast at h
      omega
    have hpred := dayOfMonth_pred hne
    have hsub : day' - ((k + 1 : ℕ) : Int) = day' - k - 1 := by push_cast; omega
    rw [← hk, hsub]
    unfold monthStartOf
    rw [hpred]
    omega

theorem monthStartOf_mono (h : day ≤ day') : monthStartOf day ≤ monthStartOf day' := by
  by_cases hstart : monthStartOf day' ≤ day
  · exact (monthStartOf_eq hstart h).le
  · have := monthStartOf_le day
    omega

theorem monthOf_mono (h : t ≤ t') : monthOf t ≤ monthOf t' :=
  monthStartOf_mono (dayOf_mono h)

/-- A reading whose month can be told has a day and a daily frame. -/
theorem of_monthStartDay_ok (h : monthStartDay t = .ok m) :
    localUnixDay t = .ok (dayOf t) ∧ daily t = .ok (dailyOf t) := by
  unfold monthStartDay at h
  split_ifs at h with h0
  obtain ⟨d, hd, h⟩ := bind_eq_ok.mp h
  obtain ⟨s, hs, hsd⟩ := bind_eq_ok.mp hd
  obtain ⟨rfl, ht⟩ := localUnixDay_ok hd
  obtain ⟨rfl, -⟩ := localDaySeconds_ok hs
  simp only at h
  split_ifs at h with hrange
  refine ⟨hd, ?_⟩
  have hle := dayOfMonth_le (dayOf t)
  unfold i16Max at hrange
  unfold daily encode
  rw [hs]
  show (if t - 18000 < 0 then _ else _) = _
  rw [if_neg (by omega), if_neg]
  · rfl
  · unfold dayOf at hle hrange
    unfold dailyPrefix daySeconds i32Max
    omega

end Fareward.Limiter.TimeFrame
