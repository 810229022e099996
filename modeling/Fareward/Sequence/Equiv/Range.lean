import Fareward.Sequence.Equiv.Counter
import Fareward.Sequence.Equiv.Handles

/-!
# The top of the range

One `reserve` of a counter from the moment it has the mutex, against a store that may answer
anything: `SequenceState.reserve`. The additions of `claim_block` are checked, and so is the one
that finds the last value; `last + 1` in `take` is not. When the value `i64::MAX` is handed out the
block's `next` wraps to `i64::MIN`, the block is not spent any more and the following reservations
get negative values (`reserve_after_max`). No other reservation leaves the range
(`sequence_values_in_range`).

`run_reserve` connects this to the allocator: undisturbed, a call of the allocator does what
`SequenceState.reserve` does with the answers of the counter.
-/

namespace Fareward.Sequence

variable {a' : SequenceAllocator} {length : Int}

/-- What the store answers to the calls of one `reserve` or `set`. -/
structure StoreAnswers where
  /-- The counter update succeeds. -/
  bump : Bool
  /-- What the read returns. -/
  read : Option Int
  /-- The correcting update succeeds. -/
  repair : Bool
  deriving DecidableEq, Repr

namespace SequenceState

/-- `claim_block`. -/
def claimBlock (name : String) (reached block : Int) (repair : Bool) :
    Except String SequenceState :=
  match (checkedI64 (reached - block)).bind fun previous => checkedI64 (previous + 1) with
  | none => .error s!"sequences counter {name} overflowed at {reached}"
  | some firstOwned =>
    if 0 < firstOwned then .ok ⟨firstOwned, reached⟩
    else
      match checkedI64 (block - reached) with
      | none => .error s!"sequences counter {name} cannot be repaired from {reached}"
      | some _ =>
        if repair then .ok ⟨1, block⟩
        else .error s!"sequences counter update failed for {name}"

/-- The block that `reserve` loads: the counter is raised, read back and the range claimed. -/
def loadBlock (name : String) (block : Int) (store : StoreAnswers) : Except String SequenceState :=
  if store.bump then
    match store.read with
    | none => .error s!"sequences counter read failed for {name}"
    | some reached => claimBlock name reached block store.repair
  else .error s!"sequences counter update failed for {name}"

/-- The end of `reserve`: the request is taken out of the block that was claimed for it. -/
def takeFresh (fresh : SequenceState) (increment : UInt32) : Except String Int × SequenceState :=
  match fresh.take increment.toNat with
  | some (start, s') => (.ok start, s')
  | none => (.error "a freshly claimed block must cover the request that loaded it", fresh)

/-- `reserve` with the mutex: the answer, and the block that it leaves. -/
def reserve (s : SequenceState) (name : String) (blockSize increment : UInt32)
    (store : StoreAnswers) : Except String Int × SequenceState :=
  match s.take increment.toNat with
  | some (start, s') => (.ok start, s')
  | none =>
    match loadBlock name (max increment.toNat blockSize.toNat) store with
    | .error e => (.error e, s)
    | .ok fresh => fresh.takeFresh increment

/-- `set` with the mutex. -/
def set (s : SequenceState) (name : String) (value : Int) (store : StoreAnswers) :
    Except String Int × SequenceState :=
  match store.read with
  | none => (.error s!"sequences counter read failed for {name}", s)
  | some previous =>
    match checkedI64 (value - previous) with
    | none => (.error s!"sequences counter {name} cannot move from {previous} to {value}", s)
    | some delta =>
      if delta = 0 ∨ store.bump = true then (.ok previous, .empty)
      else (.error s!"sequences counter update failed for {name}", s)

end SequenceState

/-! ### What a fresh block is -/

namespace SequenceState

variable {s s' fresh : SequenceState} {name : String} {block reached start : Int}
  {increment blockSize : UInt32} {store : StoreAnswers} {repair : Bool}

/-- A claimed block ends at the counter or, repaired, at its length. -/
theorem claimBlock_ok (h : claimBlock name reached block repair = .ok fresh) :
    (fresh = ⟨reached - block + 1, reached⟩ ∧ 0 < reached - block + 1) ∨ fresh = ⟨1, block⟩ := by
  unfold claimBlock at h
  split at h
  · cases h
  · next firstOwned hfirst =>
    obtain ⟨previous, hprevious, hfirst⟩ := Option.bind_eq_some_iff.mp hfirst
    obtain ⟨rfl, -⟩ := checkedI64_eq_some hprevious
    obtain ⟨rfl, -⟩ := checkedI64_eq_some hfirst
    by_cases hpos : 0 < reached - block + 1
    · rw [if_pos hpos] at h
      exact .inl ⟨(Except.ok.inj h).symm, hpos⟩
    · rw [if_neg hpos] at h
      split at h
      · cases h
      · cases repair with
        | false => cases h
        | true => exact .inr (Except.ok.inj h).symm

theorem loadBlock_ok (h : loadBlock name block store = .ok fresh) :
    ∃ reached, store.read = some reached ∧
      ((fresh = ⟨reached - block + 1, reached⟩ ∧ 0 < reached - block + 1) ∨
        fresh = ⟨1, block⟩) := by
  unfold loadBlock at h
  split_ifs at h
  split at h
  · cases h
  · next reached hread => exact ⟨reached, hread, claimBlock_ok h⟩

/-- `set` drops the block or changes nothing. -/
theorem set_spec (s : SequenceState) (name : String) (value : Int) (store : StoreAnswers) :
    (∃ previous, s.set name value store = (.ok previous, .empty)) ∨
      ∃ e, s.set name value store = (.error e, s) := by
  unfold SequenceState.set
  cases store.read with
  | none => exact .inr ⟨_, rfl⟩
  | some previous =>
    dsimp only
    cases checkedI64 (value - previous) with
    | none => exact .inr ⟨_, rfl⟩
    | some =>
      dsimp only
      split_ifs
      · exact .inl ⟨_, rfl⟩
      · exact .inr ⟨_, rfl⟩

/-- A block with positive values inside the range, from which those before `next` were issued. -/
structure Proper (s : SequenceState) : Prop where
  pos : 0 < s.next
  le : s.next ≤ s.end_ + 1
  max : s.end_ ≤ i64Max

theorem proper_empty : Proper .empty := ⟨by decide, by decide, by decide⟩

/-- A reservation that does not take `i64::MAX` leaves the rest of the block. -/
theorem Proper.take (h : s.Proper) (hinc : 0 < increment)
    (hbelow : ¬(s.end_ = i64Max ∧ s.next + (increment.toNat - 1) = i64Max))
    (htake : s.take increment.toNat = some (start, s')) :
    start = s.next ∧ s'.next = start + increment.toNat ∧ s'.end_ = s.end_ ∧
      start + increment.toNat - 1 ≤ s.end_ ∧ s'.Proper := by
  obtain ⟨hpos, hle, hmax⟩ := h
  have hinc : 0 < increment.toNat := hinc
  obtain ⟨rfl, hlast, rfl⟩ := Counter.take_eq_some htake
  have hwrap : wrapI64 (s.next + ((increment.toNat : Int) - 1) + 1) =
      s.next + increment.toNat := by
    rw [wrapI64_of_mem (by unfold i64Min; omega) (by omega)]
    omega
  refine ⟨rfl, hwrap, rfl, by omega, ?_, ?_, hmax⟩
  · show 0 < wrapI64 _
    rw [hwrap]
    omega
  · show wrapI64 _ ≤ s.end_ + 1
    rw [hwrap]
    omega

/-- A block that covers a request serves it. -/
theorem Proper.exists_take (h : s.Proper) (hcovers : s.next + (increment.toNat - 1) ≤ s.end_) :
    ∃ taken, s.take increment.toNat = some taken := by
  obtain ⟨hpos, -, hmax⟩ := h
  have hlast : checkedI64 (s.next + ((increment.toNat : Int) - 1)) =
      some (s.next + (increment.toNat - 1)) := if_pos ⟨by unfold i64Min; omega, by omega⟩
  rw [SequenceState.take, hlast, Option.bind_some, if_neg (by omega)]
  exact ⟨_, rfl⟩

/-- The block that is loaded for a reservation, when the store answers in range. -/
theorem proper_loadBlock (hinc : 0 < increment)
    (hread : ∀ reached ∈ store.read, reached ≤ i64Max)
    (h : loadBlock name (max increment.toNat blockSize.toNat) store = .ok fresh) :
    fresh.Proper ∧ fresh.next + (increment.toNat - 1) ≤ fresh.end_ ∧
      (fresh.next + (increment.toNat - 1) = i64Max →
        store.read = some i64Max ∧ blockSize ≤ increment) := by
  have hinc : 0 < increment.toNat := hinc
  have hincLt := increment.toNat_lt
  have hsizeLt := blockSize.toNat_lt
  obtain ⟨reached, hreached, hfresh⟩ := loadBlock_ok h
  have hmax := hread reached hreached
  rcases hfresh with ⟨rfl, hpos⟩ | rfl
  · refine ⟨⟨hpos, ?_, hmax⟩, ?_, fun htop => ?_⟩
    · dsimp only
      omega
    · dsimp only
      omega
    · dsimp only at htop
      obtain rfl : reached = i64Max := by omega
      refine ⟨hreached, UInt32.le_iff_toNat_le.mpr ?_⟩
      omega
  · refine ⟨⟨one_pos, ?_, ?_⟩, ?_, fun htop => ?_⟩
    · dsimp only
      omega
    · unfold i64Max
      dsimp only
      omega
    · dsimp only
      omega
    · unfold i64Max at htop
      dsimp only at htop
      omega

end SequenceState

/-! ### Runs of one counter -/

/-- A call for one counter, with what the store answers. -/
inductive Request
  | set (value : Int) (store : StoreAnswers)
  | reserve (increment : UInt32) (store : StoreAnswers)
  deriving DecidableEq, Repr

/-- A reservation, with the block it was taken from as it was claimed. -/
structure Issue where
  start : Int
  increment : UInt32
  block : SequenceState
  deriving DecidableEq

/-- The last value of a reservation. -/
def Issue.last (issue : Issue) : Int := issue.start + (issue.increment.toNat - 1)

/-- The entry of one counter, with its history. -/
structure Owner where
  state : SequenceState
  /-- The block as it was claimed. -/
  block : SequenceState
  /-- Every value of the block was handed out. -/
  spent : Bool
  log : List Issue
  deriving DecidableEq

namespace Owner

/-- An entry that was never served. -/
def new : Owner := ⟨.empty, .empty, true, []⟩

/-- The block that the call leaves, as it was claimed. -/
def blockAfter (w : Owner) (name : String) (blockSize increment : UInt32) (store : StoreAnswers) :
    SequenceState :=
  match w.state.take increment.toNat with
  | some _ => w.block
  | none =>
    match SequenceState.loadBlock name (max increment.toNat blockSize.toNat) store with
    | .ok fresh => fresh
    | .error _ => w.block

/-- A `reserve`. -/
def reserve (w : Owner) (name : String) (blockSize increment : UInt32) (store : StoreAnswers) :
    Owner :=
  let block := w.blockAfter name blockSize increment store
  match w.state.reserve name blockSize increment store with
  | (.ok start, state) =>
    let issue : Issue := ⟨start, increment, block⟩
    ⟨state, block, issue.last = block.end_, issue :: w.log⟩
  | (.error _, state) => { w with state, block }

/-- A `set`, which drops the block when it succeeds. -/
def set (w : Owner) (name : String) (value : Int) (store : StoreAnswers) : Owner :=
  match w.state.set name value store with
  | (.ok _, state) => ⟨state, state, true, w.log⟩
  | (.error _, state) => { w with state }

/-- One call. -/
def step (name : String) (blockSize : UInt32) (w : Owner) : Request → Option Owner
  | .set value store => some (w.set name value store)
  | .reserve increment store => some (w.reserve name blockSize increment store)

/-- What the types and the parsers allow: a value to set is not negative, an increment is positive,
and the store answers with an `i64`. -/
def Admitted (_ : Owner) : Request → Prop
  | .set value store =>
    0 ≤ value ∧ value ≤ i64Max ∧ ∀ reached ∈ store.read, i64Min ≤ reached ∧ reached ≤ i64Max
  | .reserve increment store =>
    0 < increment ∧ ∀ reached ∈ store.read, i64Min ≤ reached ∧ reached ≤ i64Max

/-- The reservation does not reach `i64::MAX`: neither as the last value of the block in memory, nor
as that of a block which the store ends there and which is no longer than the reservation. -/
def Below (blockSize : UInt32) (w : Owner) (request : Request) : Prop :=
  w.Admitted request ∧
    match request with
    | .set _ _ => True
    | .reserve increment store =>
      ¬(w.state.end_ = i64Max ∧ w.state.next + (increment.toNat - 1) = i64Max) ∧
        ¬(store.read = some i64Max ∧ blockSize ≤ increment)

instance (w : Owner) : DecidablePred w.Admitted := fun request => by
  cases request <;> (unfold Admitted; infer_instance)

instance (blockSize : UInt32) (w : Owner) : DecidablePred (w.Below blockSize) := fun request => by
  cases request <;> (unfold Below; infer_instance)

/-- What holds of an entry whose reservations stay below `i64::MAX`. -/
structure Sound (w : Owner) : Prop where
  state : w.state.Proper
  first : 0 < w.block.next ∧ w.block.next ≤ w.state.next
  end_ : w.block.end_ = w.state.end_
  spent : w.spent = true → w.state.next = w.state.end_ + 1
  log : ∀ issue ∈ w.log, 0 < issue.start ∧ issue.block.next ≤ issue.start ∧
    issue.last ≤ issue.block.end_ ∧ issue.last ≤ i64Max

theorem sound_new : Sound new :=
  ⟨SequenceState.proper_empty, ⟨by decide, le_rfl⟩, rfl, fun _ => rfl, nofun⟩

variable {w w' : Owner} {name : String} {blockSize increment : UInt32} {store : StoreAnswers}

/-- Values are handed out from a block, in memory or just loaded. -/
theorem Sound.issue {block s s' : SequenceState} {start : Int} (h : w.Sound) (hs : s.Proper)
    (hfirst : 0 < block.next ∧ block.next ≤ s.next) (hend : block.end_ = s.end_)
    (hinc : 0 < increment)
    (hbelow : ¬(s.end_ = i64Max ∧ s.next + (increment.toNat - 1) = i64Max))
    (htake : s.take increment.toNat = some (start, s')) :
    Sound ⟨s', block, (⟨start, increment, block⟩ : Issue).last = block.end_,
      ⟨start, increment, block⟩ :: w.log⟩ := by
  obtain ⟨rfl, hnext, hend', hlast, hs'⟩ := hs.take hinc hbelow htake
  have hpos := hs.pos
  have hmax := hs.max
  refine ⟨hs', ⟨hfirst.1, ?_⟩, hend.trans hend'.symm, fun hspent => ?_, ?_⟩
  · show block.next ≤ s'.next
    omega
  · have hlast' : s.next + ((increment.toNat : Int) - 1) = block.end_ := of_decide_eq_true hspent
    show s'.next = s'.end_ + 1
    omega
  · intro issue hissue
    rcases List.mem_cons.mp hissue with rfl | hissue
    · refine ⟨hpos, hfirst.2, ?_, ?_⟩
      · show s.next + ((increment.toNat : Int) - 1) ≤ block.end_
        omega
      · show s.next + ((increment.toNat : Int) - 1) ≤ i64Max
        omega
    · exact h.log issue hissue

section Reserve

variable {fresh state : SequenceState} {start : Int}

theorem reserve_live (htake : w.state.take increment.toNat = some (start, state)) :
    w.reserve name blockSize increment store =
      ⟨state, w.block, (⟨start, increment, w.block⟩ : Issue).last = w.block.end_,
        ⟨start, increment, w.block⟩ :: w.log⟩ := by
  simp only [reserve, blockAfter, SequenceState.reserve, htake]

theorem reserve_error {e : String} (htake : w.state.take increment.toNat = none)
    (hload : SequenceState.loadBlock name (max increment.toNat blockSize.toNat) store = .error e) :
    w.reserve name blockSize increment store = w := by
  simp only [reserve, blockAfter, SequenceState.reserve, htake, hload]

theorem reserve_fresh (htake : w.state.take increment.toNat = none)
    (hload : SequenceState.loadBlock name (max increment.toNat blockSize.toNat) store = .ok fresh)
    (hfresh : fresh.take increment.toNat = some (start, state)) :
    w.reserve name blockSize increment store =
      ⟨state, fresh, (⟨start, increment, fresh⟩ : Issue).last = fresh.end_,
        ⟨start, increment, fresh⟩ :: w.log⟩ := by
  simp only [reserve, blockAfter, SequenceState.reserve, SequenceState.takeFresh, htake, hload,
    hfresh]

end Reserve

theorem Sound.reserve (h : w.Sound) (hok : w.Below blockSize (.reserve increment store)) :
    (w.reserve name blockSize increment store).Sound := by
  obtain ⟨⟨hinc, hread⟩, hbelow, htop⟩ := hok
  cases htake : w.state.take increment.toNat with
  | some =>
    rw [reserve_live htake]
    exact h.issue h.state h.first h.end_ hinc hbelow htake
  | none =>
    cases hload : SequenceState.loadBlock name (max increment.toNat blockSize.toNat) store with
    | error =>
      rw [reserve_error htake hload]
      exact h
    | ok =>
      obtain ⟨hfresh, hcovers, hmax⟩ := SequenceState.proper_loadBlock hinc
        (fun reached hr => (hread reached hr).2) hload
      obtain ⟨taken, htaken⟩ := hfresh.exists_take hcovers
      rw [reserve_fresh htake hload htaken]
      exact h.issue hfresh ⟨hfresh.pos, le_rfl⟩ rfl hinc (fun heq => htop (hmax heq.2)) htaken

theorem Sound.set (h : w.Sound) (value : Int) : (w.set name value store).Sound := by
  rcases w.state.set_spec name value store with ⟨previous, hset⟩ | ⟨e, hset⟩
  · simp only [Owner.set, hset]
    exact ⟨SequenceState.proper_empty, ⟨one_pos, le_rfl⟩, rfl, fun _ => rfl, h.log⟩
  · simp only [Owner.set, hset]
    exact h

theorem sound_step {request : Request} (h : w.Sound) (hok : w.Below blockSize request)
    (hs : w.step name blockSize request = some w') : w'.Sound := by
  cases request with
  | set value =>
    cases hs
    exact h.set value
  | reserve =>
    cases hs
    exact h.reserve hok

end Owner

/-! ### The range of the values -/

/-- In every run of calls in which no reservation takes the value `i64::MAX`, whatever the store
answers, the values handed out are positive, lie in the block they were taken from and fit an `i64`,
and a block whose values were all handed out stays spent until another one is claimed. -/
theorem sequence_values_in_range (name : String) (blockSize : UInt32) {w : Owner}
    (h : Reaches (Owner.step name blockSize) (Owner.Below blockSize) .new w) :
    (∀ issue ∈ w.log, 0 < issue.start ∧ issue.block.next ≤ issue.start ∧
      issue.last ≤ issue.block.end_ ∧ issue.last ≤ i64Max) ∧
      (w.spent = true → w.state.isSpent = true) := by
  have hsound : w.Sound :=
    h.invariant Owner.sound_new fun _ _ _ _ hI hok hs => Owner.sound_step hI hok hs
  refine ⟨hsound.log, fun hspent => decide_eq_true ?_⟩
  rw [hsound.spent hspent]
  exact Int.lt_succ _

/-- A counter is set to zero, a block of ten is loaded and handed out. -/
theorem sequence_values_in_range_ten :
    ∃ w, Reaches (Owner.step "orders" 10) (Owner.Below 10) .new w ∧
      w.log = [⟨4, 7, ⟨1, 10⟩⟩, ⟨1, 3, ⟨1, 10⟩⟩] ∧ w.spent = true ∧ w.state.isSpent = true := by
  refine exists_and_and_of_runList [.set 0 ⟨true, some 5, true⟩, .reserve 3 ⟨true, some 10, true⟩,
    .reserve 7 ⟨true, none, true⟩] (by decide +kernel) fun w hreach _ hspent => ?_
  exact (sequence_values_in_range "orders" 10 hreach).2 hspent

/-- A counter is set to `i64::MAX - 10`. The block of ten that follows ends at `i64::MAX`; once it
is handed out whole it is not spent, and the next value is `i64::MIN`. -/
theorem reserve_after_max :
    ∃ w w', Reaches (Owner.step "orders" 10) Owner.Admitted .new w ∧
      w.spent = true ∧ w.state.isSpent = false ∧
      w.step "orders" 10 (.reserve 1 ⟨true, none, true⟩) = some w' ∧
      w'.log.map Issue.start = [i64Min, i64Max - 9] := by
  obtain ⟨w, hreach, hspent, hlive, w', hw', hlog⟩ :
      ∃ w, Reaches (Owner.step "orders" 10) Owner.Admitted .new w ∧ w.spent = true ∧
        w.state.isSpent = false ∧ ∃ w' ∈ w.step "orders" 10 (.reserve 1 ⟨true, none, true⟩),
          w'.log.map Issue.start = [i64Min, i64Max - 9] :=
    exists_of_runList [.set (i64Max - 10) ⟨true, some 0, true⟩,
      .reserve 10 ⟨true, some i64Max, true⟩] (by decide +kernel)
  exact ⟨w, w', hreach, hspent, hlive, hw', hlog⟩

/-! ### The calls of the allocator -/

/-- How a call ends that returned `result`. -/
def Outcome.ofResult : Except String Int → Outcome
  | .ok start => .reserved start
  | .error message => .failed message

namespace SequenceAllocator

variable {a : SequenceAllocator} {i entry : Nat} {name : String} {increment : UInt32}
  {phase : Phase} {s block : SequenceState} {value : Int} {store : StoreAnswers}

/-- Task `i` is a `reserve` that stands at `phase`; its entry holds the block `s` and the counter of
its name is `value`. -/
structure Serving (a : SequenceAllocator) (i entry : Nat) (name : String) (increment : UInt32)
    (phase : Phase) (s : SequenceState) (value : Int) : Prop where
  task : a.tasks[i]? = some ⟨.reserve name increment, phase⟩
  state : (a.heap entry).state = s
  counter : a.counters name = value

namespace Serving

theorem setPhase (h : a.Serving i entry name increment phase s value) (phase' : Phase) :
    (a.setPhase i phase').Serving i entry name increment phase' s value :=
  ⟨(tasks_setPhase h.task phase' i).trans (if_pos rfl), h.state, h.counter⟩

theorem setState (h : a.Serving i entry name increment phase s value) (s' : SequenceState) :
    (a.setState entry s').Serving i entry name increment phase s' value :=
  ⟨h.task, by simp [SequenceAllocator.setState, modifyCell], h.counter⟩

theorem record (h : a.Serving i entry name increment phase s value) (event : Event) :
    (a.record event).Serving i entry name increment phase s value :=
  ⟨h.task, h.state, h.counter⟩

theorem addCounter (h : a.Serving i entry name increment phase s value) (by_ : Int) :
    (a.addCounter name by_).Serving i entry name increment phase s (value + by_) :=
  ⟨h.task, h.state, by simp [SequenceAllocator.addCounter, h.counter]⟩

theorem leaveBehind (h : a.Serving i entry name increment phase s value) (by_ : Int)
    (landed : Bool) :
    (a.leaveBehind name by_ landed).Serving i entry name increment phase s value := by
  cases landed
  · exact ⟨h.task, h.state, h.counter⟩
  · exact h

end Serving

/-- A step of task `i`, or an answer to it. -/
def OwnAction (i : Nat) (_ : SequenceAllocator) (action : Action) : Prop :=
  action = .run i ∨ action = .land i ∨ action = .fail i

/-- Alone, the task reaches the end of its call with `result`. -/
def Ends (a : SequenceAllocator) (i entry : Nat) (name : String) (increment : UInt32)
    (result : Except String Int × SequenceState) : Prop :=
  ∃ a' value, Reaches step (OwnAction i) a a' ∧
    a'.Serving i entry name increment (.unlock entry (.ofResult result.1)) result.2 value

variable {result : Except String Int × SequenceState}

theorem Ends.of_step {action : Action} (haction : OwnAction i a action)
    (hs : a.step action = some a') (h : a'.Ends i entry name increment result) :
    a.Ends i entry name increment result := by
  obtain ⟨a'', value, hreach, hserving⟩ := h
  exact ⟨a'', value, (Reaches.refl.tail haction hs).trans hreach, hserving⟩

theorem Ends.run (h : a.Serving i entry name increment phase s value)
    (hs : a.advance i (.reserve name increment) phase = some a')
    (hends : a'.Ends i entry name increment result) : a.Ends i entry name increment result := by
  refine hends.of_step (.inl rfl) ?_
  rw [step, h.task]
  exact hs

theorem Ends.land (h : a.Serving i entry name increment phase s value)
    (hs : a.land i name phase = some a') (hends : a'.Ends i entry name increment result) :
    a.Ends i entry name increment result := by
  refine hends.of_step (.inr (.inl rfl)) ?_
  rw [step, h.task]
  exact hs

theorem Ends.fail (h : a.Serving i entry name increment phase s value)
    (hs : a.abandon i name (.failed (storeError name phase)) phase = some a')
    (hends : a'.Ends i entry name increment result) : a.Ends i entry name increment result := by
  refine hends.of_step (.inr (.inr rfl)) ?_
  rw [step, h.task]
  exact hs

theorem ends_unlock {outcome : Except String Int}
    (h : a.Serving i entry name increment (.unlock entry (.ofResult outcome)) s value) :
    a.Ends i entry name increment (outcome, s) :=
  ⟨a, value, .refl, h⟩

theorem ends_install (h : a.Serving i entry name increment phase s value) :
    (a.install i name increment entry block).Ends i entry name increment
      (block.takeFresh increment) := by
  unfold install SequenceState.takeFresh
  cases block.take increment.toNat with
  | some taken => exact ends_unlock (((h.setState taken.2).record _).setPhase _)
  | none => exact ends_unlock ((h.setState block).setPhase _)

theorem ends_claimBlock {reached : Int} (h : a.Serving i entry name increment phase s value) :
    (a.claimBlock i name increment entry length reached).Ends i entry name increment
      (match SequenceState.claimBlock name reached length store.repair with
        | .error e => (.error e, s)
        | .ok fresh => fresh.takeFresh increment) := by
  unfold claimBlock SequenceState.claimBlock
  cases (checkedI64 (reached - length)).bind fun previous => checkedI64 (previous + 1) with
  | none => exact ends_unlock (h.setPhase _)
  | some firstOwned =>
    by_cases hpos : 0 < firstOwned
    · simp only [if_pos hpos]
      exact ends_install h
    · simp only [if_neg hpos]
      cases checkedI64 (length - reached) with
      | none => exact ends_unlock (h.setPhase _)
      | some correction =>
        dsimp only
        have hrepair := h.setPhase (.repair entry length correction false)
        cases store.repair with
        | false => exact .fail hrepair rfl (ends_unlock ((hrepair.leaveBehind _ _).setPhase _))
        | true =>
          have hlanded := (hrepair.addCounter correction).setPhase
            (.repair entry length correction true)
          exact .land hrepair rfl (.run hlanded rfl (ends_install hlanded))

theorem ends_bump (h : a.Serving i entry name increment (.bump entry length false) s value)
    (hread : ∀ reached ∈ store.read, reached = value + length) :
    a.Ends i entry name increment
      (match SequenceState.loadBlock name length store with
        | .error e => (.error e, s)
        | .ok fresh => fresh.takeFresh increment) := by
  unfold SequenceState.loadBlock
  cases store.bump with
  | false => exact .fail h rfl (ends_unlock ((h.leaveBehind _ _).setPhase _))
  | true =>
    have hlanded := (h.addCounter length).setPhase (.bump entry length true)
    have hreads := hlanded.setPhase (.read entry length)
    refine .land h rfl (.run hlanded rfl ?_)
    cases hanswer : store.read with
    | none => exact .fail hreads rfl (ends_unlock (hreads.setPhase _))
    | some reached =>
      obtain rfl := hread reached hanswer
      have hclaim := hreads.setPhase (.claim entry length (value + length))
      refine .run hreads ?_ (.run hclaim rfl (ends_claimBlock hclaim))
      show some (SequenceAllocator.setPhase _ i (.claim entry length _)) = _
      rw [hreads.counter]

/-- Undisturbed, a `reserve` of the allocator does what `SequenceState.reserve` does: every answer
of the store that reports the counter is one that its calls may get. -/
theorem run_reserve (h : a.Serving i entry name increment (.take entry) s value)
    (hread : ∀ reached ∈ store.read,
      reached = value + max (increment.toNat : Int) a.limits.blockSize.toNat) :
    a.Ends i entry name increment (s.reserve name a.limits.blockSize increment store) := by
  unfold SequenceState.reserve
  cases htake : s.take increment.toNat with
  | some taken =>
    obtain ⟨start, s'⟩ := taken
    refine .run h ?_ (ends_unlock (((h.setState s').record
      (.issued name start increment (a.counters name))).setPhase _))
    simp only [advance, advanceHeld, advanceReserve, h.state, htake]
    rfl
  | none =>
    have hbump := h.setPhase (.bump entry (max increment.toNat a.limits.blockSize.toNat) false)
    refine .run h ?_ (ends_bump hbump hread)
    simp only [advance, advanceHeld, advanceReserve, h.state, htake]

/-- The first two values of a counter. -/
theorem run_reserve_first :
    Ends { new 2 (fun _ => 0) ⟨10, 8⟩ fun _ => 0 with tasks := [⟨.reserve "orders" 2, .take 0⟩] } 0
      0 "orders" 2 (SequenceState.empty.reserve "orders" 10 2 ⟨true, some 10, true⟩) :=
  run_reserve ⟨rfl, rfl, rfl⟩ (by rintro _ ⟨⟩; rfl)

end SequenceAllocator

end Fareward.Sequence
