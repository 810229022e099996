import Fareward.Lib.Gregorian
import Fareward.Limiter.Equiv.TimeFrame

/-!
# The months of the limiter are those of the calendar

`month_start_day` finds the day of the month by the civil-date formulas, which count years from the
first of March in eras of 400 years. `civilYear` and `civilMonth` complete the conversion, and one
day at a time it makes the same steps as the calendar of `Lib/Gregorian.lean` (`civil_next`): within
a month, to the next month of the same year, or over the end of February to the next year or era.
-/

namespace Fareward.Limiter.TimeFrame

open Gregorian

variable {y m day era s t : Int} {d : Date}

/-! ### Positions in an era -/

/-- The days of a year that begins in March; the last one of an era is a leap year. -/
def yearLength (y : Int) : Int := yearStart (y + 1) - yearStart y + if y = 399 then 1 else 0

/-- `At day era y m`: the day is the `m`-th of the `y`-th year of the era. -/
structure At (day era y m : Int) : Prop where
  year_nonneg : 0 ≤ y
  year_le : y ≤ 399
  nonneg : 0 ≤ m
  lt : m < yearLength y
  eq : day + 719468 = era * 146097 + yearStart y + m

theorem yearStart_bounds (h0 : 0 ≤ y) (h1 : y ≤ 399) :
    0 ≤ yearStart y ∧ yearStart y + yearLength y ≤ 146097 := by
  unfold yearLength yearStart
  split_ifs <;> omega

/-- A day of the era lies in no other year than its own. -/
theorem yearOfEra_unique (h0 : 0 ≤ y) (h1 : y ≤ 399) (hm : 0 ≤ m) (hlt : m < yearLength y) :
    yearOfEra (yearStart y + m) = y := by
  obtain ⟨hstart, hend⟩ := yearStart_bounds h0 h1
  obtain ⟨hle', hy0, hy1, hlt'⟩ := yearOfEra_bounds (show 0 ≤ yearStart y + m by omega) (by omega)
  unfold yearLength at hlt
  rcases lt_trichotomy (yearOfEra (yearStart y + m)) y with h | h | h
  · have := yearStart_mono (show yearOfEra (yearStart y + m) + 1 ≤ y by omega)
    rw [if_neg (by omega)] at hlt'
    omega
  · exact h
  · have := yearStart_mono (show y + 1 ≤ yearOfEra (yearStart y + m) by omega)
    rw [if_neg (by omega)] at hlt
    omega

/-- The month, counted from March, of a day of a year that begins in March. -/
def monthPart (m : Int) : Int := (5 * m + 2) / 153

theorem At.dayOfMonth_eq (h : At day era y m) :
    dayOfMonth day = m - (153 * monthPart m + 2) / 5 + 1 := by
  obtain ⟨hstart, hend⟩ := yearStart_bounds h.year_nonneg h.year_le
  have heq := h.eq
  have hlt := h.lt
  have hm := h.nonneg
  have hn : (day + 719468) % 146097 = yearStart y + m := by omega
  rw [TimeFrame.dayOfMonth_eq]
  simp only
  rw [hn, yearOfEra_unique h.year_nonneg h.year_le hm hlt, add_sub_cancel_left, monthPart]

/-! ### One day later -/

/-- The date of the `m`-th day of the `y`-th year of the era. -/
structure DateAt (d : Date) (era y m : Int) : Prop where
  year : (d.year : Int) = era * 400 + y + if monthPart m < 10 then 0 else 1
  month : (d.month : Int) = if monthPart m < 10 then monthPart m + 3 else monthPart m - 9
  day : (d.day : Int) = m - (153 * monthPart m + 2) / 5 + 1

/-- The first day of a month, counted from March, in a year that begins in March. -/
def partStart (k : Int) : Int := (153 * k + 2) / 5

theorem yearLength_bounds (y : Int) : 365 ≤ yearLength y ∧ yearLength y ≤ 366 := by
  unfold yearLength yearStart
  split_ifs <;> omega

theorem monthPart_bounds (hm : 0 ≤ m) (hlt : m < 366) :
    0 ≤ monthPart m ∧ monthPart m ≤ 11 ∧
      partStart (monthPart m) ≤ m ∧ m < partStart (monthPart m + 1) := by
  unfold partStart monthPart
  omega

theorem monthPart_eq {k : Int} (h : partStart k ≤ m) (h' : m < partStart (k + 1)) :
    monthPart m = k := by
  unfold partStart at h h'
  unfold monthPart
  omega

/-- February, the last month of such a year, ends with the year; the others have the length that
the formula gives them. -/
theorem DateAt.daysInMonth_eq (h : DateAt d era y m) (h0 : 0 ≤ y) (h1 : y ≤ 399) (hm : 0 ≤ m)
    (hlt : m < yearLength y) :
    (daysInMonth d.year d.month : Int) =
      min (partStart (monthPart m + 1)) (yearLength y) - partStart (monthPart m) := by
  have hlen := yearLength_bounds y
  obtain ⟨hk0, hk1, -, -⟩ := monthPart_bounds hm (by omega)
  obtain ⟨hyear, hmonth, -⟩ := h
  obtain ⟨k, hk⟩ : ∃ k, monthPart m = k := ⟨_, rfl⟩
  rw [hk] at hk0 hk1 hyear hmonth ⊢
  by_cases hfeb : k = 11
  · subst hfeb
    have hmonth : d.month = 2 := by
      rw [if_neg (by omega)] at hmonth
      omega
    rw [if_neg (by omega)] at hyear
    rw [hmonth, daysInMonth_two]
    by_cases hleap : IsLeap d.year
    · rw [if_pos hleap]
      unfold IsLeap at hleap
      unfold partStart yearLength yearStart
      split_ifs <;> omega
    · rw [if_neg hleap]
      unfold IsLeap at hleap
      unfold partStart yearLength yearStart
      split_ifs <;> omega
  · have hmin : min (partStart (k + 1)) (yearLength y) = partStart (k + 1) := by
      apply min_eq_left
      unfold partStart
      omega
    obtain ⟨j, hj⟩ : ∃ j, d.month = j := ⟨_, rfl⟩
    rw [hmin, hj]
    rw [hj] at hmonth
    unfold partStart
    have hk11 : k ≤ 10 := by omega
    clear hlen hlt hmin hk hfeb hyear
    interval_cases k
    all_goals
      simp only [Int.reduceLT, if_true, if_false, Int.reduceAdd, Int.reduceSub] at hmonth
      norm_cast at hmonth
      subst hmonth
      rfl

/-- The next day of the same year. -/
theorem DateAt.next_day (h : DateAt d era y m) (h0 : 0 ≤ y) (h1 : y ≤ 399) (hm : 0 ≤ m)
    (hlt : m + 1 < yearLength y) : DateAt d.next era y (m + 1) := by
  have hlen := yearLength_bounds y
  have hdays := h.daysInMonth_eq h0 h1 hm (by omega)
  obtain ⟨hk0, hk1, hstart, hend⟩ := monthPart_bounds hm (by omega)
  obtain ⟨hyear, hmonth, hday⟩ := h
  change (d.day : Int) = m - partStart (monthPart m) + 1 at hday
  by_cases hsame : m + 1 < partStart (monthPart m + 1)
  · -- the same month
    have hk : monthPart (m + 1) = monthPart m := monthPart_eq (by omega) hsame
    have hnext : d.next = { d with day := d.day + 1 } := if_pos (by omega)
    rw [hnext]
    refine ⟨by rw [hk]; exact hyear, by rw [hk]; exact hmonth, ?_⟩
    rw [hk]
    change ((d.day + 1 : ℕ) : Int) = m + 1 - partStart (monthPart m) + 1
    omega
  · -- the first day of the next month
    have hk10 : monthPart m ≤ 10 := by
      by_contra hk
      rw [show monthPart m = 11 by omega] at hsame
      unfold partStart at hsame
      omega
    have hk : monthPart (m + 1) = monthPart m + 1 := by
      apply monthPart_eq (by omega)
      unfold partStart at *
      omega
    have hfirst : m + 1 - partStart (monthPart (m + 1)) + 1 = 1 := by
      rw [hk]
      omega
    by_cases hdecember : monthPart m = 9
    · have hnext : d.next = ⟨d.year + 1, 1, 1⟩ := by
        unfold Date.next
        rw [if_neg (by omega), if_neg (by rw [if_pos (by omega)] at hmonth; omega)]
      rw [hnext]
      rw [if_pos (by omega)] at hyear
      exact ⟨by rw [hk, if_neg (by omega)]; push_cast; omega,
        by rw [hk, if_neg (by omega)]; push_cast; omega, hfirst.symm⟩
    · have hnext : d.next = ⟨d.year, d.month + 1, 1⟩ := by
        unfold Date.next
        rw [if_neg (by omega), if_pos (by split_ifs at hmonth <;> omega)]
      rw [hnext]
      refine ⟨?_, ?_, hfirst.symm⟩
      · rw [hk, hyear]
        split_ifs <;> omega
      · rw [hk]
        push_cast
        rw [hmonth]
        split_ifs <;> omega

/-- The first of March comes after the last day of February. -/
theorem DateAt.next_year (h : DateAt d era y m) (h0 : 0 ≤ y) (h1 : y ≤ 399) (hm : 0 ≤ m)
    (hlast : m + 1 = yearLength y) {era' y' : Int} (hyears : era' * 400 + y' = era * 400 + y + 1) :
    DateAt d.next era' y' 0 := by
  have hlen := yearLength_bounds y
  have hdays := h.daysInMonth_eq h0 h1 hm (by omega)
  obtain ⟨hk0, hk1, hstart, hend⟩ := monthPart_bounds hm (by omega)
  obtain ⟨hyear, hmonth, hday⟩ := h
  change (d.day : Int) = m - partStart (monthPart m) + 1 at hday
  have hk : monthPart m = 11 := by
    unfold monthPart
    omega
  rw [hk] at hyear hmonth hday hdays
  rw [if_neg (by omega)] at hyear hmonth
  have hmin : min (partStart (11 + 1)) (yearLength y) = yearLength y := by
    apply min_eq_right
    unfold partStart
    omega
  rw [hmin] at hdays
  have hnext : d.next = ⟨d.year, d.month + 1, 1⟩ := by
    unfold Date.next
    rw [if_neg (by omega), if_pos (by omega)]
  have hzero : monthPart 0 = 0 := rfl
  rw [hnext]
  refine ⟨?_, ?_, rfl⟩
  · rw [hzero, if_pos (by omega)]
    dsimp only
    omega
  · rw [hzero, if_pos (by omega)]
    push_cast
    omega

/-! ### The calendar -/

/-- The civil-date formulas give the date of the calendar, for every day. -/
theorem dateOf_at : ∀ n : ℕ, ∃ era y m, At n era y m ∧ DateAt (dateOf n) era y m
  | 0 => by
    refine ⟨4, 369, 306, ⟨by decide, by decide, by decide, by decide, by decide⟩, ?_, ?_, ?_⟩
    all_goals decide
  | n + 1 => by
    obtain ⟨era, y, m, hat, hdate⟩ := dateOf_at n
    obtain ⟨h0, h1, hm, hlt, heq⟩ := hat
    have hnext : dateOf (n + 1) = (dateOf n).next := rfl
    rw [hnext]
    by_cases hsame : m + 1 < yearLength y
    · exact ⟨era, y, m + 1, ⟨h0, h1, by omega, hsame, by push_cast; omega⟩,
        hdate.next_day h0 h1 hm hsame⟩
    · have hlast : m + 1 = yearLength y := by omega
      by_cases hera : y = 399
      · subst hera
        refine ⟨era + 1, 0, 0, ⟨le_rfl, by decide, le_rfl, by decide, ?_⟩,
          hdate.next_year h0 h1 hm hlast (by omega)⟩
        have hlen : yearLength 399 = 366 := by decide
        have hstart : yearStart 399 = 145731 := by decide
        have hzero : yearStart 0 = 0 := rfl
        push_cast
        omega
      · refine ⟨era, y + 1, 0, ⟨by omega, by omega, le_rfl, ?_, ?_⟩,
          hdate.next_year h0 h1 hm hlast (by omega)⟩
        · have := yearLength_bounds (y + 1)
          omega
        · unfold yearLength at hlast
          rw [if_neg hera] at hlast
          push_cast
          omega

theorem day_dateOf (n : ℕ) : ((dateOf n).day : Int) = dayOfMonth n := by
  obtain ⟨era, y, m, hat, hdate⟩ := dateOf_at n
  rw [hat.dayOfMonth_eq, hdate.day]

/-- The first day of the month, as the limiter computes it and as the calendar has it. -/
theorem monthStartOf_eq_firstOfMonth (n : ℕ) :
    monthStartOf n = ((n + 1 - (dateOf n).day : ℕ) : Int) := by
  have hday := day_dateOf n
  have hle := (dateOf_sub_day n).1
  unfold monthStartOf
  omega

theorem monthStartOf_eq_iff (n n' : ℕ) :
    monthStartOf n = monthStartOf n' ↔
      (dateOf n).year = (dateOf n').year ∧ (dateOf n).month = (dateOf n').month := by
  rw [monthStartOf_eq_firstOfMonth, monthStartOf_eq_firstOfMonth, Int.natCast_inj,
    ← firstOfMonth_eq_iff, ← (dateOf_sub_day n).2, ← (dateOf_sub_day n').2,
    dateOf_injective.eq_iff]

/-! ### The calendar of the usage rows -/

/-- The date of a reading in the zone of the business day. -/
def localDate (t : Int) : Date := dateOf (dayOf t).toNat

theorem monthOf_eq_iff (hs : 18000 ≤ s) (ht : 18000 ≤ t) :
    monthOf s = monthOf t ↔
      (localDate s).year = (localDate t).year ∧ (localDate s).month = (localDate t).month := by
  have h := monthStartOf_eq_iff (dayOf s).toNat (dayOf t).toNat
  rwa [Int.toNat_of_nonneg (dayOf_nonneg hs), Int.toNat_of_nonneg (dayOf_nonneg ht)] at h

theorem monthOf_nonneg (h : 18000 ≤ t) : 0 ≤ monthOf t := by
  have hfirst := monthStartOf_eq_firstOfMonth (dayOf t).toNat
  rw [Int.toNat_of_nonneg (dayOf_nonneg h)] at hfirst
  unfold monthOf
  omega

theorem monthStartDay_le (h : monthStartDay t = .ok m) : m ≤ i16Max := by
  unfold monthStartDay at h
  split_ifs at h with h0
  obtain ⟨d, _, h⟩ := bind_eq_ok.mp h
  simp only at h
  split_ifs at h with hrange
  injection h with h
  rw [← h]
  exact hrange.2

/-- A reading has a month unless the number of its first day is past `i16`. -/
theorem monthStartDay_eq (h : 18000 ≤ t) :
    if monthOf t ≤ i16Max then monthStartDay t = .ok (monthOf t)
    else ∃ e, monthStartDay t = .error e := by
  have hle := dayOfMonth_le (dayOf t)
  have hday : dayOf t = (t - 18000) / 86400 := rfl
  have hmonth : monthOf t = dayOf t - dayOfMonth (dayOf t) + 1 := rfl
  split_ifs with hfits
  · unfold i16Max at hfits
    have hseconds : localDaySeconds t = .ok (t - 18000) := by
      unfold localDaySeconds checkedI64 dayZoneOffsetSeconds i64Min i64Max
      rw [if_pos (by omega)]
      dsimp only
      rw [if_pos (by omega)]
      rfl
    have hunix : localUnixDay t = .ok (dayOf t) := by
      unfold localUnixDay
      rw [hseconds]
      rfl
    have hpos := monthOf_nonneg h
    unfold monthStartDay
    rw [if_neg (by omega), hunix]
    show (if _ then _ else _) = _
    rw [← hmonth, if_pos (by unfold i16Max; omega)]
    rfl
  · cases hm : monthStartDay t with
    | error e => exact ⟨e, rfl⟩
    | ok =>
      obtain ⟨rfl, _⟩ := monthStartDay_ok hm
      exact absurd (monthStartDay_le hm) hfits

/-- **`month_start_day` is the first day of the Gregorian month.** For every time at or after the
first local midnight, let `first` be the only day with the first date of the month of the local
day. It is returned if it fits an `i16`, and nothing is returned otherwise. So two times that
get a value get the same exactly if the year and the month of their local dates agree. -/
theorem month_start_day_gregorian :
    (∀ t : Int, 18000 ≤ t → ∃ first : ℕ,
        (∀ n, dateOf n = (dateOf ((t - 18000) / 86400).toNat).firstOfMonth ↔ n = first) ∧
        if (first : Int) ≤ i16Max then monthStartDay t = .ok first
        else ∃ e, monthStartDay t = .error e) ∧
      ∀ s t m m' : Int, monthStartDay s = .ok m → monthStartDay t = .ok m' →
        (m = m' ↔ (localDate s).year = (localDate t).year ∧
          (localDate s).month = (localDate t).month) := by
  refine ⟨fun t ht => ?_, fun s t m m' hs ht => ?_⟩
  · have hmonth := monthStartDay_eq ht
    have hday := Int.toNat_of_nonneg (dayOf_nonneg ht)
    refine ⟨_, dateOf_eq_firstOfMonth_iff _, ?_⟩
    have hfirst := monthStartOf_eq_firstOfMonth (dayOf t).toNat
    rw [hday] at hfirst
    change monthOf t = _ at hfirst
    rw [hfirst] at hmonth
    exact hmonth
  · obtain ⟨rfl, hs'⟩ := monthStartDay_ok hs
    obtain ⟨rfl, ht'⟩ := monthStartDay_ok ht
    exact monthOf_eq_iff hs' ht'

/-! ### The ranges of the recovery -/

theorem localUnixDay_of_daily {f : Int} (h : daily t = .ok f) : localUnixDay t = .ok (dayOf t) := by
  obtain ⟨s, hs, -⟩ := bind_eq_ok.mp h
  obtain ⟨rfl, -⟩ := localDaySeconds_ok hs
  unfold localUnixDay
  rw [hs]
  rfl

theorem fiveMinuteOf_mem_hour (s t : Int) :
    (fiveMinutePrefix + hourOf t * 12 ≤ fiveMinuteOf s ∧
        fiveMinuteOf s ≤ fiveMinutePrefix + hourOf t * 12 + 11) ↔ s / 3600 = t / 3600 := by
  unfold fiveMinuteOf hourOf
  omega

/-- The days from the first of a month to a day of it are those of the month up to the day. -/
theorem monthStartOf_le_iff {day' : Int} (h : day ≤ day') :
    monthStartOf day' ≤ day ↔ monthStartOf day = monthStartOf day' := by
  constructor
  · intro hstart
    exact monthStartOf_eq hstart h
  · intro heq
    rw [← heq]
    exact monthStartOf_le day

theorem dailyOf_mem_month (hs : 18000 ≤ s) (ht : 18000 ≤ t) :
    (dailyPrefix + monthOf t ≤ dailyOf s ∧ dailyOf s ≤ dailyOf t) ↔
      ((localDate s).year = (localDate t).year ∧ (localDate s).month = (localDate t).month) ∧
        dayOf s ≤ dayOf t := by
  unfold dailyOf
  rw [← monthOf_eq_iff hs ht, add_le_add_iff_left, add_le_add_iff_left]
  constructor
  · rintro ⟨hmonth, hday⟩
    exact ⟨(monthStartOf_le_iff hday).mp hmonth, hday⟩
  · rintro ⟨hmonth, hday⟩
    exact ⟨(monthStartOf_le_iff hday).mpr hmonth, hday⟩

/-- **The ranges of the recovery are the windows of the counters.** Whenever the functions return
something: a five-minute frame lies in the range of an hour exactly if the times share the UTC hour;
a daily frame lies between the first day of the month and the day of `t` exactly if its local date
lies in the local month of `t` and not after its day; two times share a frame exactly if they share
the five minutes, or the local day; and no frame is of both kinds. -/
theorem recovery_ranges_are_windows :
    (∀ s t f first last : Int, fiveMinute s = .ok f → hourFiveMinuteRange t = .ok (first, last) →
        ((first ≤ f ∧ f ≤ last) ↔ s / 3600 = t / 3600)) ∧
      (∀ s t f f' m d d' : Int, daily s = .ok f → daily t = .ok f' → monthStartDay t = .ok m →
        localUnixDay s = .ok d → localUnixDay t = .ok d' →
        ((dailyPrefix + m ≤ f ∧ f ≤ f') ↔
          ((localDate s).year = (localDate t).year ∧ (localDate s).month = (localDate t).month) ∧
            d ≤ d')) ∧
      (∀ s t f f' : Int, fiveMinute s = .ok f → fiveMinute t = .ok f' →
        (f = f' ↔ s / 300 = t / 300)) ∧
      (∀ s t f f' : Int, daily s = .ok f → daily t = .ok f' →
        (f = f' ↔ localUnixDay s = localUnixDay t)) ∧
      ∀ s t f f' : Int, fiveMinute s = .ok f → daily t = .ok f' → f ≠ f' := by
  refine ⟨?_, ?_, ?_, ?_, ?_⟩
  · intro s t f first last hf hrange
    obtain ⟨rfl, -, -⟩ := fiveMinute_ok hf
    obtain ⟨rfl, rfl⟩ := hourFiveMinuteRange_ok hrange
    exact fiveMinuteOf_mem_hour s t
  · intro s t f f' m d d' hf hf' hm hd hd'
    obtain ⟨rfl, hs⟩ := daily_ok hf
    obtain ⟨rfl, ht⟩ := daily_ok hf'
    obtain ⟨rfl, -⟩ := monthStartDay_ok hm
    obtain ⟨rfl, -⟩ := localUnixDay_ok hd
    obtain ⟨rfl, -⟩ := localUnixDay_ok hd'
    exact dailyOf_mem_month hs ht
  · intro s t f f' hf hf'
    obtain ⟨rfl, -, -⟩ := fiveMinute_ok hf
    obtain ⟨rfl, -, -⟩ := fiveMinute_ok hf'
    exact add_right_inj _
  · intro s t f f' hf hf'
    obtain ⟨hfs, -⟩ := daily_ok hf
    obtain ⟨hft, -⟩ := daily_ok hf'
    rw [localUnixDay_of_daily hf, localUnixDay_of_daily hf', hfs, hft]
    unfold dailyOf
    rw [add_right_inj, Except.ok.injEq]
  · intro s t f f' hf hf'
    obtain ⟨-, -, hlt⟩ := fiveMinute_ok hf
    obtain ⟨rfl, ht⟩ := daily_ok hf'
    have hday := dayOf_nonneg ht
    unfold dailyOf
    omega

end Fareward.Limiter.TimeFrame
