import Fareward.Lib.Groups
import Fareward.Lib.Op
import Fareward.Sysmetrics.Writer
import Mathlib.Algebra.Group.Int.Defs
import Mathlib.Data.Int.Order.Basic
import Mathlib.Data.List.Induction
import Mathlib.Tactic.SplitIfs

/-!
# Every sample lands in one row

The accumulator is a fold over the samples, and in each column that is the highest measured value
(`isPeak_foldl`). It counts in 32 bits, so it tells whether it is empty unless it has absorbed a
multiple of `2 ^ 32` samples.

If the clock does not go back, the windows of the ticks do not either, and the calls of
`write_window`, with the pending window, are the groups of the ticks under their windows: a tick
extends the group of the pending window, or it closes that one and opens its own (`Collected.tick`).
When the loop has ended every group has had its call.

The rows divide the day, so the date and the slot give the window back (`windowKey_inj`).
-/

namespace Fareward.Sysmetrics

variable {column : MetricsSample → Int16}

/-! ### Settings -/

theorem rowSeconds_of_load {valueText : String → String → Option String}
    {config : ServerMetricsConfig} (h : loadServerMetrics valueText = .ok config) :
    3 ≤ config.rowSeconds ∧ config.rowSeconds ∣ 86400 := by
  unfold loadServerMetrics at h
  obtain ⟨sampleSeconds, -, h⟩ := bind_eq_ok.mp h
  obtain ⟨rowSeconds, -, h⟩ := bind_eq_ok.mp h
  obtain ⟨ttlDays, -, h⟩ := bind_eq_ok.mp h
  dsimp only at h
  split_ifs at h with hpositive hrow hsample httl
  rw [not_or, not_lt, not_not] at hrow
  rw [← Except.ok.inj h]
  exact ⟨Int.ofNat_le.mpr hrow.1, Int.natCast_dvd_natCast.mpr (Nat.dvd_of_mod_eq_zero hrow.2)⟩

/-! ### Peaks -/

/-- The columns of a row, after the date and the slot. -/
def columns : List (MetricsSample → Int16) :=
  [(·.cpuPercent), (·.memoryPercent), (·.diskPercent), (·.networkRxRate), (·.networkTxRate),
    (·.backend.memoryMb), (·.backend.cpuPercent), (·.fareward.memoryMb), (·.fareward.cpuPercent),
    (·.scylla.memoryMb), (·.scylla.cpuPercent)]

/-- The highest of the measured readings, and `NOT_MEASURED` if there is none. -/
structure IsPeak (value : Int16) (readings : List Int16) : Prop where
  mem : value ≠ notMeasured → value ∈ readings
  le : ∀ reading ∈ readings, reading ≠ notMeasured → reading ≤ value
  notMeasured_iff : value = notMeasured ↔ ∀ reading ∈ readings, reading = notMeasured

namespace IsPeak

variable {value : Int16} {readings : List Int16}

theorem of_mem (hmeasured : value ≠ notMeasured) (hmem : value ∈ readings)
    (hle : ∀ reading ∈ readings, reading ≠ notMeasured → reading ≤ value) :
    IsPeak value readings :=
  ⟨fun _ => hmem, hle, iff_of_false hmeasured fun h => hmeasured (h value hmem)⟩

theorem peak (h : IsPeak value readings) (candidate : Int16) :
    IsPeak (peak value candidate) (readings ++ [candidate]) := by
  have hlast : candidate ∈ readings ++ [candidate] := by simp
  unfold Sysmetrics.peak
  split_ifs with hcandidate hvalue
  · refine ⟨fun hmeasured => List.mem_append_left _ (h.mem hmeasured), ?_, ?_⟩
    · simpa [or_imp, forall_and, hcandidate] using h.le
    · simpa [or_imp, forall_and, hcandidate] using h.notMeasured_iff
  · have hreadings := h.notMeasured_iff.mp hvalue
    refine of_mem hcandidate hlast fun reading hreading hmeasured => ?_
    rcases List.mem_append.mp hreading with hreading | hreading
    · exact absurd (hreadings reading hreading) hmeasured
    · exact List.mem_singleton.mp hreading ▸ Int16.le_refl _
  · show IsPeak (if value ≤ candidate then candidate else value) _
    split_ifs with hhigher
    · refine of_mem hcandidate hlast fun reading hreading hmeasured => ?_
      rcases List.mem_append.mp hreading with hreading | hreading
      · exact Int16.le_trans (h.le reading hreading hmeasured) hhigher
      · exact List.mem_singleton.mp hreading ▸ Int16.le_refl _
    · refine of_mem hvalue (List.mem_append_left _ (h.mem hvalue))
        fun reading hreading hmeasured => ?_
      rcases List.mem_append.mp hreading with hreading | hreading
      · exact h.le reading hreading hmeasured
      · exact List.mem_singleton.mp hreading ▸ Int16.le_of_lt (Int16.not_le.mp hhigher)

end IsPeak

theorem isPeak_foldl (readings : List Int16) :
    IsPeak (readings.foldl peak notMeasured) readings := by
  induction readings using List.reverseRecOn with
  | nil => exact ⟨fun h => absurd rfl h, List.forall_mem_nil _, by simp⟩
  | append_singleton readings candidate ih =>
    rw [List.foldl_append]
    exact ih.peak candidate

namespace WindowPeaks

/-- The accumulator after some samples. -/
def absorbAll (samples : List MetricsSample) : WindowPeaks := samples.foldl absorb {}

theorem absorbAll_concat (samples : List MetricsSample) (sample : MetricsSample) :
    absorbAll (samples ++ [sample]) = (absorbAll samples).absorb sample :=
  List.foldl_concat ..

theorem column_absorb (h : column ∈ columns) (window : WindowPeaks) (sample : MetricsSample) :
    column (window.absorb sample).peaks = peak (column window.peaks) (column sample) := by
  simp only [columns, List.mem_cons, List.not_mem_nil, or_false] at h
  rcases h with rfl | rfl | rfl | rfl | rfl | rfl | rfl | rfl | rfl | rfl | rfl <;> rfl

theorem column_default (h : column ∈ columns) : column {} = notMeasured := by
  simp only [columns, List.mem_cons, List.not_mem_nil, or_false] at h
  rcases h with rfl | rfl | rfl | rfl | rfl | rfl | rfl | rfl | rfl | rfl | rfl <;> rfl

/-- **In each column the accumulator holds the peak of its samples.** -/
theorem isPeak_absorbAll (h : column ∈ columns) (samples : List MetricsSample) :
    IsPeak (column (absorbAll samples).peaks) (samples.map column) := by
  have hfold : column (absorbAll samples).peaks =
      (samples.map column).foldl peak notMeasured := by
    induction samples using List.reverseRecOn with
    | nil => exact column_default h
    | append_singleton samples sample ih =>
      rw [absorbAll_concat, column_absorb h, ih, List.map_append, List.foldl_append]
      rfl
  rw [hfold]
  exact isPeak_foldl _

theorem absorbed_absorbAll (samples : List MetricsSample) :
    (absorbAll samples).absorbed = .ofNat samples.length := by
  induction samples using List.reverseRecOn with
  | nil => rfl
  | append_singleton samples sample ih =>
    rw [absorbAll_concat, absorb, ih, List.length_append, UInt32.ofNat_add]
    rfl

/-- The accumulator counts as empty after a multiple of `2 ^ 32` samples. -/
theorem dvd_of_isEmpty {samples : List MetricsSample} (h : (absorbAll samples).isEmpty = true) :
    2 ^ 32 ∣ samples.length := by
  rw [isEmpty, beq_iff_eq, absorbed_absorbAll, ← UInt32.toNat_inj, UInt32.toNat_ofNat'] at h
  exact Nat.dvd_of_mod_eq_zero h

end WindowPeaks

open WindowPeaks (absorbAll)

/-! ### A call of `write_window` -/

/-- What a call inserts is the row of its window, if it was given any sample. -/
def Call.Sound (rowSeconds : ℤ) (call : Call) : Prop :=
  ∀ values ∈ call.values, call.peaks.isEmpty = false ∧
    values = rowValues (windowDate call.rowIndex rowSeconds) (windowSlot call.rowIndex rowSeconds)
      call.peaks.peaks

namespace Sampling

/-- A call is recorded, and the accumulator is left empty or as it was, if it counts as empty. -/
theorem writeWindow_spec (s : Sampling) (rowIndex rowSeconds : ℤ) (answers : Answers) :
    ∃ values, Call.Sound rowSeconds ⟨rowIndex, s.peaks, values⟩ ∧
      (s.writeWindow rowIndex rowSeconds answers).calls =
        s.calls ++ [⟨rowIndex, s.peaks, values⟩] ∧
      (s.writeWindow rowIndex rowSeconds answers).peaks =
        if s.peaks.isEmpty then s.peaks else {} := by
  unfold writeWindow
  by_cases hempty : s.peaks.isEmpty
  · rw [if_pos hempty]
    exact ⟨none, nofun, rfl, (if_pos hempty).symm⟩
  · rw [if_neg hempty]
    have hrow : Call.Sound rowSeconds ⟨rowIndex, s.peaks, some (rowValues
        (windowDate rowIndex rowSeconds) (windowSlot rowIndex rowSeconds) s.peaks.peaks)⟩ :=
      fun values hvalues => ⟨Bool.eq_false_iff.mpr hempty, (Option.some.inj hvalues).symm⟩
    rw [if_neg hempty]
    dsimp only [WindowPeaks.take]
    split
    · exact ⟨none, nofun, rfl, rfl⟩
    · split
      · exact ⟨none, nofun, rfl, rfl⟩
      · split <;> exact ⟨_, hrow, rfl, rfl⟩

/-! ### The loop -/

variable {rowSeconds : ℤ} {ticks : List Tick} {s : Sampling}

/-- The samples of the ticks in a window. -/
def samplesIn (rowSeconds : ℤ) (ticks : List Tick) (window : ℤ) : List MetricsSample :=
  (itemsUnder (rowIndex rowSeconds) ticks window).filterMap Tick.sample

/-- The samples of the window are no positive multiple of `2 ^ 32`. -/
def Counted (rowSeconds : ℤ) (ticks : List Tick) (window : ℤ) : Prop :=
  2 ^ 32 ∣ (samplesIn rowSeconds ticks window).length → samplesIn rowSeconds ticks window = []

theorem foldl_absorbTick (peaks : WindowPeaks) (ticks : List Tick) :
    ticks.foldl absorbTick peaks = (ticks.filterMap Tick.sample).foldl .absorb peaks := by
  induction ticks generalizing peaks with
  | nil => rfl
  | cons tick ticks ih =>
    rw [List.foldl_cons, ih, List.filterMap_cons, absorbTick]
    cases tick.sample <;> rfl

/-- The windows that are done and the pending one, with their accumulators. -/
def windows (s : Sampling) : List (ℤ × WindowPeaks) :=
  s.calls.map (fun call => (call.rowIndex, call.peaks)) ++
    s.pendingRowIndex.toList.map fun pending => (pending, s.peaks)

/-- Where the loop stands after some ticks. -/
structure Collected (rowSeconds : ℤ) (ticks : List Tick) (s : Sampling) : Prop where
  grouped : Grouped (rowIndex rowSeconds) absorbTick {} ticks s.windows
  sound : ∀ call ∈ s.calls, call.Sound rowSeconds
  fresh : s.pendingRowIndex = none → ticks = [] ∧ s.calls = [] ∧ s.peaks = {}

/-- The pending window is written. -/
theorem Collected.writeWindow (h : Collected rowSeconds ticks s) {pending : ℤ}
    (hpending : s.pendingRowIndex = some pending)
    (hcount : Counted rowSeconds ticks pending) (answers : Answers) :
    Grouped (rowIndex rowSeconds) absorbTick {} ticks
      ((s.writeWindow pending rowSeconds answers).calls.map fun call =>
        (call.rowIndex, call.peaks)) ∧
    (∀ call ∈ (s.writeWindow pending rowSeconds answers).calls, call.Sound rowSeconds) ∧
    (s.writeWindow pending rowSeconds answers).peaks = {} := by
  obtain ⟨values, hsound, hcalls, hpeaks⟩ := s.writeWindow_spec pending rowSeconds answers
  have hgrouped := h.grouped
  rw [windows, hpending] at hgrouped
  have hfold : s.peaks = absorbAll (samplesIn rowSeconds ticks pending) := by
    have hlast := hgrouped.fold _ (List.mem_append_right _ (List.mem_singleton_self _))
    rwa [foldl_absorbTick] at hlast
  refine ⟨?_, ?_, ?_⟩
  · rw [hcalls, List.map_append]
    exact hgrouped
  · rw [hcalls]
    exact List.forall_mem_append.mpr ⟨h.sound, List.forall_mem_singleton.mpr hsound⟩
  · rw [hpeaks]
    split_ifs with hempty
    · rw [hfold] at hempty ⊢
      rw [hcount (WindowPeaks.dvd_of_isEmpty hempty)]
      rfl
    · rfl

/-- **A tick of the loop.** -/
theorem Collected.tick (h : Collected rowSeconds ticks s) (hrow : 0 < rowSeconds) {tick : Tick}
    (hclock : ∀ earlier ∈ ticks, earlier.unixSeconds ≤ tick.unixSeconds)
    (hcount : ∀ window < rowIndex rowSeconds tick, Counted rowSeconds ticks window) :
    Collected rowSeconds (ticks ++ [tick]) (s.tick rowSeconds tick) := by
  cases hpending : s.pendingRowIndex with
  | none =>
    obtain ⟨rfl, hcalls, hpeaks⟩ := h.fresh hpending
    have hturn : s.turn rowSeconds tick = s := by rw [turn, hpending]
    refine ⟨?_, ?_, nofun⟩
    · rw [windows, Sampling.tick, hturn, hcalls, hpeaks]
      exact Grouped.nil.snoc (List.forall_mem_nil _)
    · rw [Sampling.tick, hturn]
      exact h.sound
  | some pending =>
    have hgrouped := h.grouped
    rw [windows, hpending] at hgrouped
    by_cases hsame : pending = rowIndex rowSeconds tick
    · subst hsame
      have hturn : s.turn rowSeconds tick = s := by rw [turn, hpending]; exact if_neg (· rfl)
      refine ⟨?_, ?_, nofun⟩
      · rw [windows, Sampling.tick, hturn]
        exact hgrouped.extend
      · rw [Sampling.tick, hturn]
        exact h.sound
    · have hturn : s.turn rowSeconds tick = s.writeWindow pending rowSeconds tick.answers := by
        rw [turn, hpending]
        exact if_pos hsame
      -- the pending window is of an earlier tick, and the last of those before this one
      obtain ⟨earlier, hearlier, hkey⟩ : ∃ earlier ∈ ticks, rowIndex rowSeconds earlier = pending :=
        hgrouped.key_mem (List.mem_append_right _ (List.mem_singleton_self _))
      have hlt : pending < rowIndex rowSeconds tick :=
        lt_of_le_of_ne (hkey ▸ Int.tdiv_le_tdiv hrow (hclock earlier hearlier)) hsame
      obtain ⟨hgroups, hsound, hpeaks⟩ := h.writeWindow hpending (hcount pending hlt) tick.answers
      refine ⟨?_, ?_, nofun⟩
      · rw [windows, Sampling.tick, hturn, hpeaks]
        exact hgroups.snoc fun i hi => (hgrouped.key_le_last hi).trans_lt hlt
      · rw [Sampling.tick, hturn]
        exact hsound

theorem counted_of_concat {tick : Tick} {window : ℤ} (hlt : window < rowIndex rowSeconds tick)
    (h : Counted rowSeconds (ticks ++ [tick]) window) : Counted rowSeconds ticks window := by
  unfold Counted samplesIn at h
  rwa [itemsUnder_concat, if_neg hlt.ne', List.append_nil] at h

/-- The loop over all its ticks. The windows that are done have been counted. -/
theorem collected_foldl (writer : ServerMetricsWriter) (hrow : 0 < rowSeconds)
    (hclock : (ticks.map Tick.unixSeconds).Pairwise (· ≤ ·))
    (hcount : ∀ window, ∀ later ∈ ticks, window < rowIndex rowSeconds later →
      Counted rowSeconds ticks window) :
    Collected rowSeconds ticks (ticks.foldl (·.tick rowSeconds ·) { writer := writer }) := by
  induction ticks using List.reverseRecOn with
  | nil => exact ⟨Grouped.nil, List.forall_mem_nil _, fun _ => ⟨rfl, rfl, rfl⟩⟩
  | append_singleton ticks tick ih =>
    rw [List.map_append, List.pairwise_append] at hclock
    have hle : ∀ earlier ∈ ticks, earlier.unixSeconds ≤ tick.unixSeconds := fun earlier hearlier =>
      hclock.2.2 _ (List.mem_map_of_mem hearlier) _ (List.mem_singleton_self _)
    have hcount' : ∀ window < rowIndex rowSeconds tick, Counted rowSeconds ticks window :=
      fun window hlt => counted_of_concat hlt (hcount window tick (by simp) hlt)
    rw [List.foldl_concat]
    refine (ih hclock.1 fun window later hlater hlt => hcount' window ?_).tick hrow hle hcount'
    exact hlt.trans_le (Int.tdiv_le_tdiv hrow (hle later hlater))

/-- The calls of a loop that has ended are the windows of its ticks. -/
theorem Collected.stop (h : Collected rowSeconds ticks s)
    (hcount : ∀ window, Counted rowSeconds ticks window) (last : Answers) :
    Grouped (rowIndex rowSeconds) absorbTick {} ticks
      ((s.stop rowSeconds last).calls.map fun call => (call.rowIndex, call.peaks)) ∧
    ∀ call ∈ (s.stop rowSeconds last).calls, call.Sound rowSeconds := by
  unfold Sampling.stop
  cases hpending : s.pendingRowIndex with
  | none =>
    have hgrouped := h.grouped
    rw [windows, hpending] at hgrouped
    exact ⟨by simpa using hgrouped, h.sound⟩
  | some pending =>
    obtain ⟨hgrouped, hsound, -⟩ := h.writeWindow hpending (hcount pending) last
    exact ⟨hgrouped, hsound⟩

end Sampling

open Sampling

/-! ### Dates and slots -/

/-- The start of a window from its date and slot. -/
theorem start_eq {rowSeconds window : ℤ} (hrow : 3 ≤ rowSeconds) (hday : rowSeconds ∣ 86400)
    (hwindow : 0 ≤ window) (hrange : window * rowSeconds / 86400 < 2 ^ 15) :
    window * rowSeconds = 86400 * (windowDate window rowSeconds).toInt +
      rowSeconds * (windowSlot window rowSeconds).toInt := by
  have hstart : 0 ≤ window * rowSeconds := Int.mul_nonneg hwindow (by omega)
  have hdate : (windowDate window rowSeconds).toInt = window * rowSeconds / 86400 := by
    rw [windowDate, secondsPerDay, Int.tdiv_eq_ediv_of_nonneg hstart]
    exact Int16.toInt_ofInt_of_le (by omega) hrange
  have hslot : (windowSlot window rowSeconds).toInt =
      window * rowSeconds % 86400 / rowSeconds := by
    have hlt : window * rowSeconds % 86400 / rowSeconds < 2 ^ 15 :=
      Int.ediv_lt_of_lt_mul (by omega) (by omega)
    have hpos : 0 ≤ window * rowSeconds % 86400 / rowSeconds :=
      Int.ediv_nonneg (by omega) (by omega)
    rw [windowSlot, secondsPerDay, Int.tmod_eq_emod_of_nonneg hstart,
      Int.tdiv_eq_ediv_of_nonneg (by omega)]
    exact Int16.toInt_ofInt_of_le (by omega) hlt
  have hdvd : rowSeconds ∣ window * rowSeconds % 86400 := by
    rw [Int.emod_def]
    exact Int.dvd_sub (Int.dvd_mul_left _ _) (Int.dvd_trans hday (Int.dvd_mul_right _ _))
  rw [hdate, hslot, Int.mul_ediv_cancel' hdvd]
  omega

/-- **The date and the slot tell the window.** -/
theorem windowKey_inj {rowSeconds w₁ w₂ : ℤ} (hrow : 3 ≤ rowSeconds) (hday : rowSeconds ∣ 86400)
    (h₁ : 0 ≤ w₁ ∧ w₁ * rowSeconds / 86400 < 2 ^ 15)
    (h₂ : 0 ≤ w₂ ∧ w₂ * rowSeconds / 86400 < 2 ^ 15)
    (hdate : windowDate w₁ rowSeconds = windowDate w₂ rowSeconds)
    (hslot : windowSlot w₁ rowSeconds = windowSlot w₂ rowSeconds) : w₁ = w₂ := by
  have hstart := start_eq hrow hday h₁.1 h₁.2
  rw [hdate, hslot, ← start_eq hrow hday h₂.1 h₂.2] at hstart
  exact Int.eq_of_mul_eq_mul_right (by omega) hstart

/-- The window of a reading in the range of the days. -/
theorem rowIndex_range {rowSeconds : ℤ} {tick : Tick} (hrow : 3 ≤ rowSeconds)
    (h : 0 ≤ tick.unixSeconds ∧ tick.unixSeconds / secondsPerDay < 2 ^ 15) :
    0 ≤ rowIndex rowSeconds tick ∧ rowIndex rowSeconds tick * rowSeconds / 86400 < 2 ^ 15 := by
  have hle := Int.ediv_mul_le tick.unixSeconds (show rowSeconds ≠ 0 by omega)
  rw [rowIndex, Int.tdiv_eq_ediv_of_nonneg h.1]
  exact ⟨Int.ediv_nonneg h.1 (by omega),
    (Int.ediv_le_ediv (by decide) hle).trans_lt h.2⟩

/-! ### Runs -/

/-- The ticks before the loop ends. -/
def ticksOf : List Event → List Tick
  | [] => []
  | .changed gone shutdown :: events => if gone || shutdown then [] else ticksOf events
  | .tick tick :: events => tick :: ticksOf events

theorem eq_stop_of_samplingLoop {rowSeconds : ℤ} {last : Answers} {s s' : Sampling}
    {events : List Event} (h : samplingLoop rowSeconds last s events = some s') :
    s' = ((ticksOf events).foldl (·.tick rowSeconds ·) s).stop rowSeconds last := by
  induction events generalizing s with
  | nil => cases h
  | cons event events ih =>
    cases event with
    | changed =>
      unfold samplingLoop at h
      unfold ticksOf
      split_ifs at h ⊢ with hends
      · exact (Option.some.inj h).symm
      · exact ih h
    | tick => exact ih h

/-- For every run of the loop that ends, whatever the database answers, under settings that are
accepted, a clock that does not go back and stays in the days of an `i16`, and no positive multiple
of `2 ^ 32` samples in any window:

each window some tick fell in has one call of `write_window`, and no other has any; the accumulator
of the call has absorbed the samples taken in the window and no others; what it inserts is the row
of the window, with the peak of these samples in each column; and no two inserts have the same date
and slot. -/
theorem samples_land_once {valueText : String → String → Option String}
    {config : ServerMetricsConfig} (hload : loadServerMetrics valueText = .ok config)
    {events : List Event} {last : Answers} {s : Sampling}
    (hrun : spawn config events last = some s)
    (hclock : ((ticksOf events).map Tick.unixSeconds).Pairwise (· ≤ ·))
    (hdays : ∀ tick ∈ ticksOf events,
      0 ≤ tick.unixSeconds ∧ tick.unixSeconds / secondsPerDay < 2 ^ 15)
    (hcount : ∀ window, Counted config.rowSeconds (ticksOf events) window) :
    (s.calls.map Call.rowIndex).Nodup ∧
    (∀ window, window ∈ s.calls.map Call.rowIndex ↔
      ∃ tick ∈ ticksOf events, rowIndex config.rowSeconds tick = window) ∧
    (∀ call ∈ s.calls,
      call.peaks = absorbAll (samplesIn config.rowSeconds (ticksOf events) call.rowIndex) ∧
      ∀ values ∈ call.values, ∃ row : MetricsSample,
        values = rowValues (windowDate call.rowIndex config.rowSeconds)
          (windowSlot call.rowIndex config.rowSeconds) row ∧
        samplesIn config.rowSeconds (ticksOf events) call.rowIndex ≠ [] ∧
        ∀ column ∈ columns, IsPeak (column row)
          ((samplesIn config.rowSeconds (ticksOf events) call.rowIndex).map column)) ∧
    ((s.calls.filterMap Call.values).map (List.take 2)).Nodup := by
  obtain ⟨hrow, hday⟩ := rowSeconds_of_load hload
  obtain ⟨hgrouped, hsound⟩ : Grouped (rowIndex config.rowSeconds) absorbTick {} (ticksOf events)
      (s.calls.map fun call => (call.rowIndex, call.peaks)) ∧
      ∀ call ∈ s.calls, call.Sound config.rowSeconds := by
    rw [eq_stop_of_samplingLoop hrun]
    exact (collected_foldl _ (by omega) hclock fun window _ _ _ => hcount window).stop hcount last
  have hsorted : (s.calls.map Call.rowIndex).Pairwise (· < ·) := by
    have := hgrouped.sorted
    rwa [List.map_map] at this
  have hwindows : ∀ window, window ∈ s.calls.map Call.rowIndex ↔
      ∃ tick ∈ ticksOf events, rowIndex config.rowSeconds tick = window := by
    intro window
    have := hgrouped.mem_keys window
    rwa [List.map_map] at this
  have hpeaks : ∀ call ∈ s.calls, call.peaks =
      absorbAll (samplesIn config.rowSeconds (ticksOf events) call.rowIndex) := by
    intro call hcall
    have := hgrouped.fold _ (List.mem_map_of_mem hcall)
    rwa [foldl_absorbTick] at this
  refine ⟨hsorted.imp (fun h => h.ne), hwindows, fun call hcall => ⟨hpeaks call hcall, ?_⟩, ?_⟩
  · intro values hvalues
    obtain ⟨hnonempty, hrowValues⟩ := hsound call hcall values hvalues
    rw [hpeaks call hcall] at hnonempty hrowValues
    refine ⟨_, hrowValues, fun hnil => ?_, fun column hcolumn =>
      WindowPeaks.isPeak_absorbAll hcolumn _⟩
    rw [hnil] at hnonempty
    cases hnonempty
  · refine List.pairwise_map.mpr (List.pairwise_filterMap.mpr ?_)
    refine (List.pairwise_map.mp hsorted).imp_of_mem ?_
    intro c₁ c₂ hc₁ hc₂ hlt v₁ hv₁ v₂ hv₂ hkey
    rw [(hsound c₁ hc₁ v₁ hv₁).2, (hsound c₂ hc₂ v₂ hv₂).2] at hkey
    obtain ⟨hdate, hslot⟩ := List.cons.inj hkey
    obtain ⟨t₁, ht₁, hw₁⟩ := (hwindows _).mp (List.mem_map_of_mem hc₁)
    obtain ⟨t₂, ht₂, hw₂⟩ := (hwindows _).mp (List.mem_map_of_mem hc₂)
    exact hlt.ne (windowKey_inj hrow hday (hw₁ ▸ rowIndex_range hrow (hdays t₁ ht₁))
      (hw₂ ▸ rowIndex_range hrow (hdays t₂ ht₂)) hdate (List.cons.inj hslot).1)

/-- The settings when nothing is set. -/
def defaultConfig : ServerMetricsConfig where
  enabled := true
  sampleInterval := 1
  rowSeconds := 5
  rowTtl := 2592000
  diskMount := "/"
  networkInterface := ""
  backendUnit := "genix.service"
  farewardUnit := "fareward.service"
  scyllaUnit := "scylla-server.service"

theorem load_default : loadServerMetrics (fun _ _ => none) = .ok defaultConfig := rfl

/-- A tick that reads a CPU load; the database works. -/
def loadTick (unixSeconds : ℤ) (cpuPercent : Int16) : Tick :=
  ⟨unixSeconds, some { cpuPercent }, ⟨0, 0, true, true⟩⟩

/-- Three ticks in two windows, and the end of the loop. -/
def shortRun : List Event :=
  [.tick (loadTick 2 300), .changed false false, .tick (loadTick 3 200), .tick (loadTick 6 100),
    .changed false true]

theorem samples_land_once_shortRun :
    ∃ s, spawn defaultConfig shortRun ⟨7, 7, true, false⟩ = some s ∧
      (s.calls.map Call.rowIndex).Nodup := by
  have hcount : ∀ window, Counted 5 (ticksOf shortRun) window := fun _ hdvd =>
    List.eq_nil_of_length_eq_zero (Nat.eq_zero_of_dvd_of_lt hdvd
      ((List.length_filterMap_le _ _).trans_lt ((List.length_filter_le _ _).trans_lt (by decide))))
  exact ⟨_, rfl, (samples_land_once load_default rfl (by decide) (by decide) hcount).1⟩

/-! ### A window that is too full -/

/-- The events of a loop that ends after some ticks. -/
def runOf (ticks : List Tick) : List Event := ticks.map .tick ++ [.changed false true]

theorem ticksOf_runOf (ticks : List Tick) : ticksOf (runOf ticks) = ticks := by
  induction ticks with
  | nil => rfl
  | cons tick ticks ih => exact congrArg (tick :: ·) ih

theorem samplingLoop_runOf (rowSeconds : ℤ) (last : Answers) (s : Sampling) (ticks : List Tick) :
    samplingLoop rowSeconds last s (runOf ticks) =
      some ((ticks.foldl (·.tick rowSeconds ·) s).stop rowSeconds last) := by
  induction ticks generalizing s with
  | nil => rfl
  | cons tick ticks ih => exact ih _

/-- The accumulator of a window with `n + 1` ticks. -/
theorem foldl_replicate (n : ℕ) :
    (List.replicate (n + 1) (loadTick 0 500)).foldl (fun s tick => Sampling.tick s 5 tick)
      { writer := .new defaultConfig } =
    { writer := .new defaultConfig, peaks := ⟨{ cpuPercent := 500 }, .ofNat (n + 1)⟩,
      pendingRowIndex := some 0 } := by
  induction n with
  | zero => rfl
  | succ n ih =>
    rw [List.replicate_succ', List.foldl_concat, ih, UInt32.ofNat_add (n + 1)]
    rfl

/-- As many ticks in the first window as bring its counter back to zero, and one in the second. -/
def fullWindow : List Tick := List.replicate (2 ^ 32) (loadTick 0 500) ++ [loadTick 5 300]

/-- The first window then counts as empty: it gets no row, its peaks stay in the accumulator, and
the row of the second window holds them, although its one sample reads less. -/
theorem full_window_leaks : loadServerMetrics (fun _ _ => none) = .ok defaultConfig ∧
    (fullWindow.map Tick.unixSeconds).Pairwise (· ≤ ·) ∧
    (∀ tick ∈ fullWindow, 0 ≤ tick.unixSeconds ∧ tick.unixSeconds / secondsPerDay < 2 ^ 15) ∧
    ∃ s, spawn defaultConfig (runOf fullWindow) ⟨6, 6, true, true⟩ = some s ∧
      ticksOf (runOf fullWindow) = fullWindow ∧
      samplesIn 5 fullWindow 0 ≠ [] ∧ samplesIn 5 fullWindow 1 = [{ cpuPercent := 300 }] ∧
      s.calls.map (fun call => (call.rowIndex, call.values)) =
        [(0, none), (1, some (rowValues 0 1 { cpuPercent := 500 }))] := by
  have hfirst : ∀ tick ∈ List.replicate (2 ^ 32) (loadTick 0 500), tick = loadTick 0 500 :=
    fun _ => List.eq_of_mem_replicate
  have hmem : loadTick 0 500 ∈ fullWindow :=
    List.mem_append_left _ (List.mem_replicate.mpr ⟨by decide, rfl⟩)
  refine ⟨rfl, ?_, ?_, _, samplingLoop_runOf .., ticksOf_runOf _, ?_, ?_, ?_⟩
  · refine List.pairwise_map.mpr (List.pairwise_append.mpr
      ⟨List.pairwise_replicate.mpr (.inr (le_refl _)), List.pairwise_singleton _ _, ?_⟩)
    intro tick htick tick' htick'
    rw [hfirst tick htick, List.mem_singleton.mp htick']
    decide
  · refine List.forall_mem_append.mpr ⟨fun tick htick => ?_, by decide⟩
    rw [hfirst tick htick]
    decide
  · exact List.ne_nil_of_mem (List.mem_filterMap.mpr ⟨_, List.mem_filter.mpr ⟨hmem, rfl⟩, rfl⟩)
  · rw [samplesIn, fullWindow, itemsUnder_concat, itemsUnder_eq_nil]
    · rfl
    · intro tick htick
      rw [hfirst tick htick]
      decide
  · have hfull := foldl_replicate (2 ^ 32 - 1)
    rw [show (UInt32.ofNat (2 ^ 32 - 1 + 1)) = 0 from rfl] at hfull
    show List.map _ ((List.foldl (fun s tick => Sampling.tick s 5 tick) _ _).stop 5 _).calls = _
    rw [fullWindow, List.foldl_concat, show (2 ^ 32 : ℕ) = 2 ^ 32 - 1 + 1 from rfl, hfull]
    rfl

end Fareward.Sysmetrics
