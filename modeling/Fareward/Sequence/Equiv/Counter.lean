import Fareward.Sequence.Allocator

/-!
# One counter

What the allocator is for, counter by counter: the durable value, the block in memory if there is
one, and the reservations of the current *epoch*, that is, since the last successful `set`.

* `Counter.Sound`: the durable value covers every reservation of the epoch, and a live block lies
  above all of them and below the durable value;
* `Counter.Pending`: what a `reserve` has secured at each of its awaits;
* `WellIssued`: a log whose reservations are positive, covered when they are made and disjoint
  from those of their epoch, and `WellIssued.segment`, what it says about any stretch of the log
  without a `set`.
-/

namespace Fareward.Sequence

variable {newer log older : List Event} {name : String} {value block reached : Int} {phase : Phase}
  {entry : Nat}

/-! ### Reservations and epochs -/

/-- The values `[start, start + increment)`, returned while the durable counter was `counter`. -/
structure Reservation where
  start : Int
  increment : UInt32
  counter : Int
  deriving DecidableEq

/-- The last value of the range. -/
def Reservation.last (r : Reservation) : Int := r.start + r.increment.toNat - 1

/-- No value is in both ranges. -/
def Reservation.Disjoint (r s : Reservation) : Prop := r.last < s.start ∨ s.last < r.start

/-- The reservation of `name` that an event records. -/
def Event.reservation? (name : String) : Event → Option Reservation
  | .issued other start increment counter =>
    if other = name then some ⟨start, increment, counter⟩ else none
  | .set _ _ => none

/-- The reservations of `name` since its last successful `set`, newest first. -/
def epoch (name : String) : List Event → List Reservation
  | [] => []
  | .issued other start increment counter :: log =>
    if other = name then ⟨start, increment, counter⟩ :: epoch name log else epoch name log
  | .set other _ :: log => if other = name then [] else epoch name log

/-- Every reservation is positive, at most the durable counter of its moment, and disjoint from
the earlier ones of its epoch. -/
def WellIssued : List Event → Prop
  | [] => True
  | .issued name start increment counter :: log =>
    0 < start ∧ start + increment.toNat - 1 ≤ counter ∧
      (∀ r ∈ epoch name log, r.Disjoint ⟨start, increment, counter⟩) ∧ WellIssued log
  | .set _ _ :: log => WellIssued log

theorem Reservation.Disjoint.symm {r s : Reservation} (h : r.Disjoint s) : s.Disjoint r :=
  Or.symm h

theorem WellIssued.suffix (h : WellIssued (newer ++ log)) : WellIssued log := by
  induction newer with
  | nil => exact h
  | cons event newer ih =>
    cases event with
    | issued => exact ih h.2.2.2
    | set => exact ih h

theorem WellIssued.epoch (h : WellIssued log) (name : String) :
    (epoch name log).Pairwise Reservation.Disjoint ∧
      ∀ r ∈ Sequence.epoch name log, 0 < r.start ∧ r.last ≤ r.counter := by
  induction log with
  | nil => exact ⟨.nil, nofun⟩
  | cons event log ih =>
    cases event with
    | issued =>
      obtain ⟨hpos, hcovered, hdisjoint, hlog⟩ := h
      obtain ⟨hpairwise, hall⟩ := ih hlog
      rw [Sequence.epoch]
      split_ifs with hname
      · subst hname
        refine ⟨.cons (fun r hr => (hdisjoint r hr).symm) hpairwise, fun r hr => ?_⟩
        rcases List.mem_cons.mp hr with rfl | hr
        · exact ⟨hpos, hcovered⟩
        · exact hall r hr
      · exact ⟨hpairwise, hall⟩
    | set =>
      rw [Sequence.epoch]
      split_ifs
      · exact ⟨.nil, nofun⟩
      · exact ih h

/-- A stretch without a `set` belongs to the epoch of what comes before it. -/
theorem epoch_append {segment : List Event} (h : ∀ value, Event.set name value ∉ segment) :
    epoch name (segment ++ older) =
      segment.filterMap (Event.reservation? name) ++ epoch name older := by
  induction segment with
  | nil => rfl
  | cons event segment ih =>
    have ih := ih fun value hv => h value (List.mem_cons_of_mem _ hv)
    cases event with
    | issued =>
      rw [List.cons_append, epoch, List.filterMap_cons, Event.reservation?, ih]
      split_ifs <;> rfl
    | set other value =>
      have hother : other ≠ name := by
        rintro rfl
        exact h value List.mem_cons_self
      rw [List.cons_append, epoch, List.filterMap_cons, Event.reservation?, ih, if_neg hother]

/-- In a stretch of the log without a `set` of `name`, the reservations of `name` are pairwise
disjoint, positive and at most the durable counter of their moment. -/
theorem WellIssued.segment {segment : List Event} (h : WellIssued log)
    (hlog : log = newer ++ segment ++ older) (hset : ∀ value, Event.set name value ∉ segment) :
    (segment.filterMap (Event.reservation? name)).Pairwise Reservation.Disjoint ∧
      ∀ r ∈ segment.filterMap (Event.reservation? name), 0 < r.start ∧ r.last ≤ r.counter := by
  rw [hlog, List.append_assoc] at h
  obtain ⟨hpairwise, hall⟩ := h.suffix.epoch name
  rw [epoch_append hset] at hpairwise hall
  exact ⟨(List.pairwise_append.mp hpairwise).1, fun r hr => hall r (List.mem_append_left _ hr)⟩

/-! ### The state of a counter -/

/-- A counter as the allocator sees it. -/
structure Counter where
  /-- The durable value. -/
  value : Int
  /-- The block in memory. -/
  block : Option SequenceState
  /-- The reservations of the current epoch. -/
  epoch : List Reservation

namespace Counter

variable {c : Counter} {s s' : SequenceState} {start : Int} {increment : UInt32}

/-- A block from which reservations may be taken. -/
structure Free (c : Counter) (s : SequenceState) : Prop where
  pos : 0 < s.next
  owned : s.end_ ≤ c.value
  above : ∀ r ∈ c.epoch, r.last < s.next

structure Sound (c : Counter) : Prop where
  covered : ∀ r ∈ c.epoch, r.last ≤ c.value
  live : ∀ s, c.block = some s → s.isSpent = false → c.Free s

/-- What a `reserve` has secured at each of its awaits. -/
def Pending (c : Counter) : Phase → Prop
  | .bump _ block landed =>
    0 < block ∧ (landed = true → ∀ r ∈ c.epoch, r.last ≤ c.value - block)
  | .read _ block => 0 < block ∧ ∀ r ∈ c.epoch, r.last ≤ c.value - block
  | .claim _ block reached =>
    0 < block ∧ reached ≤ c.value ∧ ∀ r ∈ c.epoch, r.last ≤ reached - block
  | .repair _ block correction landed =>
    0 < correction ∧ c.epoch = [] ∧ block ≤ c.value + if landed then 0 else correction
  | _ => True

theorem Sound.grow (h : c.Sound) (hv : c.value ≤ value) : Sound { c with value } := by
  refine ⟨fun r hr => (h.covered r hr).trans hv, fun s hs hlive => ?_⟩
  obtain ⟨hpos, howned, habove⟩ := h.live s hs hlive
  exact ⟨hpos, howned.trans hv, habove⟩

/-- Losing the block, or having one that is spent instead, does no harm. -/
theorem Sound.reblock (h : c.Sound) {block : Option SequenceState}
    (hb : ∀ s, block = some s → s.isSpent = true ∨ c.block = some s) : Sound { c with block } := by
  refine ⟨h.covered, fun s hs hlive => ?_⟩
  rcases hb s hs with hspent | hold
  · rw [hspent] at hlive
    cases hlive
  · obtain ⟨hpos, howned, habove⟩ := h.live s hold hlive
    exact ⟨hpos, howned, habove⟩

theorem Sound.reset (value : Int) : Sound ⟨value, some .empty, []⟩ := by
  refine ⟨nofun, fun s hs hlive => ?_⟩
  cases hs
  cases hlive

theorem Pending.grow (h : c.Pending phase) (hv : c.value ≤ value) :
    Pending { c with value } phase := by
  cases phase with
  | bump => exact ⟨h.1, fun hl r hr => (h.2 hl r hr).trans (by simpa using hv)⟩
  | read => exact ⟨h.1, fun r hr => (h.2 r hr).trans (by simpa using hv)⟩
  | claim => exact ⟨h.1, h.2.1.trans hv, h.2.2⟩
  | repair => exact ⟨h.1, h.2.1, h.2.2.trans (by simpa using hv)⟩
  | _ => trivial

theorem Pending.reblock (h : c.Pending phase) {block : Option SequenceState} :
    Pending { c with block } phase := by
  cases phase <;> exact h

/-! ### Taking from a block -/

theorem take_eq_some {increment : Int} (h : s.take increment = some (start, s')) :
    start = s.next ∧ s.next + (increment - 1) ≤ s.end_ ∧
      s' = { s with next := wrapI64 (s.next + (increment - 1) + 1) } := by
  obtain ⟨last, hlast, htake⟩ := Option.bind_eq_some_iff.mp h
  obtain ⟨rfl, _⟩ := checkedI64_eq_some hlast
  obtain ⟨hle, heq⟩ := Option.ite_none_left_eq_some.mp htake
  obtain ⟨rfl, rfl⟩ := Prod.mk.inj (Option.some.inj heq)
  exact ⟨rfl, not_lt.mp hle, rfl⟩

/-- A reservation that succeeds comes from a live block. -/
theorem live_of_take (hinc : 0 < increment) (h : s.take increment.toNat = some (start, s')) :
    s.isSpent = false := by
  obtain ⟨_, hle, _⟩ := take_eq_some h
  have : 0 < increment.toNat := hinc
  simp only [SequenceState.isSpent, decide_eq_false_iff_not]
  omega

/-- **One reservation.** From a free block it is positive, covered and disjoint from its epoch,
and leaves the counter sound. -/
theorem Free.take (h : c.Free s) (hcovered : ∀ r ∈ c.epoch, r.last ≤ c.value)
    (hinc : 0 < increment) (hmax : c.value < i64Max)
    (htake : s.take increment.toNat = some (start, s')) :
    0 < start ∧ start + increment.toNat - 1 ≤ c.value ∧
      (∀ r ∈ c.epoch, r.Disjoint ⟨start, increment, c.value⟩) ∧
      Sound ⟨c.value, some s', ⟨start, increment, c.value⟩ :: c.epoch⟩ := by
  obtain ⟨rfl, hle, rfl⟩ := take_eq_some htake
  have hpos := h.pos
  have howned := h.owned
  have hinc : 0 < increment.toNat := hinc
  -- no wrapping: the block ends below `i64::MAX`
  have hwrap : wrapI64 (s.next + (increment.toNat - 1) + 1) = s.next + increment.toNat := by
    rw [wrapI64_of_mem (by unfold i64Min; omega) (by omega)]
    omega
  refine ⟨hpos, by omega, fun r hr => .inl (h.above r hr), fun r hr => ?_, fun s' hs' _ => ?_⟩
  · rcases List.mem_cons.mp hr with rfl | hr
    · simp only [Reservation.last]
      omega
    · exact hcovered r hr
  · obtain rfl := Option.some.inj hs'
    refine ⟨?_, howned, fun r hr => ?_⟩
    · simp only [hwrap]
      omega
    · simp only [hwrap]
      rcases List.mem_cons.mp hr with rfl | hr
      · simp only [Reservation.last]
        omega
      · have := h.above r hr
        omega

/-! ### Claiming a block -/

/-- The range that a counter update has just created is free. -/
theorem Pending.free (h : c.Pending (.claim entry block reached))
    (hfirst : 0 < reached - block + 1) : c.Free ⟨reached - block + 1, reached⟩ :=
  ⟨hfirst, h.2.1, fun r hr => Int.lt_add_one_of_le (h.2.2 r hr)⟩

/-- A counter is repaired only while nothing is issued in its epoch. -/
theorem Pending.repair (h : c.Pending (.claim entry block reached))
    (hfirst : ¬ 0 < reached - block + 1) (hpos : ∀ r ∈ c.epoch, 0 < r.start) :
    c.Pending (.repair entry block (block - reached) false) := by
  obtain ⟨_, hreached, hlast⟩ := h
  refine ⟨by omega, List.eq_nil_iff_forall_not_mem.mpr fun r hr => ?_, ?_⟩
  · have := hlast r hr
    have := hpos r hr
    unfold Reservation.last at *
    omega
  · simp only [Bool.false_eq_true, if_false]
    omega

theorem Pending.repaired {correction : Int} (h : c.Pending (.repair entry block correction true)) :
    c.Free ⟨1, block⟩ := by
  obtain ⟨_, hepoch, hblock⟩ := h
  refine ⟨Int.one_pos, by simpa using hblock, ?_⟩
  rw [hepoch]
  exact nofun

end Counter

end Fareward.Sequence
