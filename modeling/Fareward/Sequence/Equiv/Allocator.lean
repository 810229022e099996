import Fareward.Sequence.Equiv.Counter
import Fareward.Sequence.Equiv.Handles

/-!
# Uniqueness of sequence values

The invariant of the allocator ties four things together along every run of calls, failures,
cancellations and crashes:

* `Inv.handles`: the map of entries is a `HandleTable`, so two calls for one name share their cell
  although cells are pruned and created again;
* `Inv.mutex`: a call past the await of its cell's mutex is that mutex's holder;
* `Inv.counters`: every counter is `Counter.Sound`, except while a `set` has moved it and has not
  dropped the block yet;
* `Inv.pending`: what each `reserve` has secured so far.

`reserved_ranges_disjoint` is the result: between two successful sets of a name all ranges returned
for it are disjoint, positive and covered by the durable counter.
-/

namespace Fareward.Sequence

variable {outcome : Outcome} {increment : UInt32} {value by_ reached : Int} {call : Call}
  {action : SequenceAllocator.Action} {update : String × Int}

namespace Phase

/-- A `set` that has lowered the counter and not dropped the block yet. -/
def resets : Phase → Bool
  | .setBump _ _ delta true => delta < 0
  | _ => false

/-- A `set` that has sent its counter update. -/
def setSent : Phase → Bool
  | .setBump _ _ _ _ => true
  | _ => false

theorem hasMutex_of_resets {phase : Phase} (h : phase.resets = true) :
    phase.hasMutex = true := by
  cases phase <;> first | rfl | cases h

theorem pending_of_not_hasMutex {phase : Phase} (h : phase.hasMutex = false) (c : Counter) :
    c.Pending phase := by
  cases phase <;> trivial

end Phase

/-- `reserve` is called with a positive increment. -/
def Call.Positive : Call → Prop
  | .reserve _ increment => 0 < increment
  | .set _ _ => True

namespace SequenceAllocator

variable {a a' : SequenceAllocator} {i j entry : Nat} {task task' : Task} {phase : Phase}
  {name : String}

/-- The counter called `name`. -/
def counter (a : SequenceAllocator) (name : String) : Counter where
  value := a.counters name
  block := (a.entries.lookup name).map fun entry => (a.heap entry).state
  epoch := epoch name a.log

/-- A `set` of `name` is between its counter update and the drop of the block. -/
def Resetting (a : SequenceAllocator) (name : String) : Prop :=
  ∃ (i : Nat) (task : Task),
    a.tasks[i]? = some task ∧ task.call.name = name ∧ task.phase.resets = true

/-- What holds of task `i`. -/
structure TaskInv (a : SequenceAllocator) (i : Nat) (task : Task) : Prop where
  positive : task.call.Positive
  todo : ∀ name ∈ task.phase.todo, a.shardIndex name = a.shardIndex task.call.name
  mutex : ∀ entry, task.phase.entry? = some entry → task.phase.hasMutex = true →
    (a.heap entry).holder = some i
  pending : (a.counter task.call.name).Pending task.phase

/-- What holds in every reachable state. -/
structure Inv (a : SequenceAllocator) : Prop where
  handles : a.table.Inv a.shardIndex
  tasks : ∀ i task, a.tasks[i]? = some task → TaskInv a i task
  counters : ∀ name, a.Resetting name ∨ (a.counter name).Sound
  bounded : ∀ name, a.counters name < i64Max
  log : WellIssued a.log

namespace Inv

theorem eq_of_mutex (h : Inv a) (hi : a.tasks[i]? = some task) (hj : a.tasks[j]? = some task')
    (mi : task.phase.hasMutex = true) (mj : task'.phase.hasMutex = true)
    (hname : task.call.name = task'.call.name) : i = j := by
  obtain ⟨e, he⟩ : ∃ e, task.phase.entry? = some e := by
    cases hp : task.phase <;> rw [hp] at mi <;> first | exact ⟨_, rfl⟩ | cases mi
  obtain ⟨e', he'⟩ : ∃ e, task'.phase.entry? = some e := by
    cases hp : task'.phase <;> rw [hp] at mj <;> first | exact ⟨_, rfl⟩ | cases mj
  have hbi : a.entries.lookup task.call.name = some e :=
    (h.handles.slots i _ (slots_getElem? hi)).bound e he rfl
  have hbj : a.entries.lookup task'.call.name = some e' :=
    (h.handles.slots j _ (slots_getElem? hj)).bound e' he' rfl
  obtain rfl : e = e' := by
    rw [hname, hbj] at hbi
    exact (Option.some.inj hbi).symm
  have hi := (h.tasks i task hi).mutex e he mi
  have hj := (h.tasks j task' hj).mutex e he' mj
  rw [hj] at hi
  exact (Option.some.inj hi).symm

/-- While a call has the mutex of its counter only it can be resetting it. -/
theorem sound_of_mutex (h : Inv a) (ht : a.tasks[i]? = some task)
    (hm : task.phase.hasMutex = true) (hr : task.phase.resets = false) :
    (a.counter task.call.name).Sound := by
  rcases h.counters task.call.name with ⟨j, task', hj, hname, hreset⟩ | hsound
  · obtain rfl := h.eq_of_mutex hj ht (Phase.hasMutex_of_resets hreset) hm hname
    rw [hj] at ht
    cases ht
    rw [hr] at hreset
    cases hreset
  · exact hsound

/-- A step of a call that has the mutex of its counter. It keeps its handle and touches no other
counter. -/
theorem of_held (h : Inv a) (ht : a.tasks[i]? = some task) (hm : task.phase.hasMutex = true)
    (phase : Phase) (htable : a'.table = { a.table with
      slots := a.table.slots.set i (Task.slot { task with phase }) })
    (hindex : a'.shardIndex = a.shardIndex) (htasks : a'.tasks = (a.setPhase i phase).tasks)
    (hslot : Task.slot { task with phase } = task.slot)
    (hholder : ∀ j e, j ≠ i → (a.heap e).holder = some j → (a'.heap e).holder = some j)
    (hmutex : ∀ e, phase.entry? = some e → phase.hasMutex = true → (a'.heap e).holder = some i)
    (htodo : phase.todo = [])
    (hothers : ∀ name, name ≠ task.call.name → a'.counter name = a.counter name)
    (hbounded : a'.counters task.call.name < i64Max) (hlog : WellIssued a'.log)
    (hsound : phase.resets = true ∨ (a'.counter task.call.name).Sound)
    (hpending : (a'.counter task.call.name).Pending phase) : Inv a' := by
  refine ⟨?_, fun j task' hj => ?_, fun name => ?_, fun name => ?_, hlog⟩
  · rw [htable, hindex, hslot, set_of_getElem? (slots_getElem? ht)]
    exact h.handles
  · rw [htasks, tasks_setPhase ht] at hj
    split_ifs at hj with hij
    · subst hij
      cases hj
      exact ⟨(h.tasks i task ht).positive, by simp [htodo], hmutex, hpending⟩
    · obtain ⟨hpositive, htodo', hmutex', hpending'⟩ := h.tasks j task' hj
      refine ⟨hpositive, hindex ▸ htodo', fun e he hm' => ?_, ?_⟩
      · exact hholder j e (Ne.symm hij) (hmutex' e he hm')
      · by_cases hname : task'.call.name = task.call.name
        · -- another call for this counter is not past the mutex
          cases hm' : task'.phase.hasMutex with
          | false => exact Phase.pending_of_not_hasMutex hm' _
          | true => exact absurd (h.eq_of_mutex ht hj hm hm' hname.symm) hij
        · rw [hothers _ hname]
          exact hpending'
  · by_cases hname : name = task.call.name
    · subst hname
      refine hsound.imp_left fun hreset => ⟨i, { task with phase }, ?_, rfl, hreset⟩
      rw [htasks, tasks_setPhase ht, if_pos rfl]
    · rw [hothers _ hname]
      refine (h.counters name).imp_left fun ⟨j, task', hj, hname', hreset⟩ => ?_
      refine ⟨j, task', ?_, hname', hreset⟩
      rw [htasks, tasks_setPhase ht, if_neg, hj]
      rintro rfl
      rw [ht] at hj
      cases hj
      exact hname hname'.symm
  · by_cases hname : name = task.call.name
    · rw [hname]
      exact hbounded
    · exact (congrArg Counter.value (hothers _ hname)).trans_lt (h.bounded name)

/-- A step of a call that does not have the mutex. The counters and the log stay, and a block
that appears is spent. -/
theorem of_free (h : Inv a) (ht : a.tasks[i]? = some task) (hm : task.phase.hasMutex = false)
    (phase : Phase) (hhandles : a'.table.Inv a'.shardIndex)
    (hindex : a'.shardIndex = a.shardIndex) (htasks : a'.tasks = (a.setPhase i phase).tasks)
    (hcounters : a'.counters = a.counters) (hlog : a'.log = a.log)
    (hblock : ∀ name s, (a'.counter name).block = some s →
      s.isSpent = true ∨ (a.counter name).block = some s)
    (hholder : ∀ j task' e, j ≠ i → a.tasks[j]? = some task' → task'.phase.entry? = some e →
      (a.heap e).holder = some j → (a'.heap e).holder = some j)
    (hmutex : ∀ e, phase.entry? = some e → phase.hasMutex = true → (a'.heap e).holder = some i)
    (htodo : ∀ name ∈ phase.todo, a.shardIndex name = a.shardIndex task.call.name)
    (hpending : ∀ c : Counter, c.Pending phase) : Inv a' := by
  have hsame (name : String) : a'.counter name =
      { a.counter name with block := (a'.counter name).block } := by
    rw [counter, counter, hcounters, hlog]
  refine ⟨hhandles, fun j task' hj => ?_, fun name => ?_, hcounters ▸ h.bounded, hlog ▸ h.log⟩
  · rw [htasks, tasks_setPhase ht] at hj
    split_ifs at hj with hij
    · subst hij
      cases hj
      exact ⟨(h.tasks i task ht).positive, hindex ▸ htodo, hmutex, hpending _⟩
    · obtain ⟨hpositive, htodo', hmutex', hpending'⟩ := h.tasks j task' hj
      refine ⟨hpositive, hindex ▸ htodo', fun e he hm' => ?_, ?_⟩
      · exact hholder j task' e (Ne.symm hij) hj he (hmutex' e he hm')
      · rw [hsame]
        exact hpending'.reblock
  · rcases h.counters name with ⟨j, task', hj, hname, hreset⟩ | hsound
    · refine .inl ⟨j, task', ?_, hname, hreset⟩
      rw [htasks, tasks_setPhase ht, if_neg, hj]
      rintro rfl
      rw [ht] at hj
      cases hj
      rw [Phase.hasMutex_of_resets hreset] at hm
      cases hm
    · refine .inr ?_
      rw [hsame]
      exact hsound.reblock (hblock name)

end Inv

/-! ### Steps with the mutex -/

/-- Writing the block of one counter leaves the others alone. -/
theorem counter_setState_of_ne (h : Inv a) (hk : a.entries.lookup name = some entry)
    (state : SequenceState) {other : String} (hne : other ≠ name) :
    (a.setState entry state).counter other = a.counter other := by
  have : ∀ e, a.entries.lookup other = some e → e ≠ entry := by
    rintro e he rfl
    exact hne (h.handles.injective _ _ _ he hk)
  simp only [counter, setState, modifyCell]
  congr 1
  cases hl : a.entries.lookup other with
  | none => rfl
  | some e => simp [this e hl]

theorem counter_setState (hk : a.entries.lookup name = some entry) (state : SequenceState) :
    (a.setState entry state).counter name = { a.counter name with block := some state } := by
  simp [counter, setState, modifyCell, hk]

theorem Inv.lookup_of_entry (h : Inv a) (ht : a.tasks[i]? = some task)
    (he : task.phase.entry? = some entry) : a.entries.lookup task.call.name = some entry :=
  (h.handles.slots i _ (slots_getElem? ht)).bound entry he rfl

/-- A step that only moves the call, and may leave an update behind. -/
theorem inv_private (h : Inv a) (ht : a.tasks[i]? = some task) (hm : task.phase.hasMutex = true)
    (hr : task.phase.resets = false) (late : List (String × Int)) (phase : Phase)
    (hslot : Task.slot { task with phase } = task.slot) (htodo : phase.todo = [])
    (hpending : (a.counter task.call.name).Pending phase) :
    Inv ({ a with late }.setPhase i phase) := by
  have hentry : phase.entry? = task.phase.entry? := congrArg Slot.handle hslot
  refine h.of_held ht hm phase (table_setPhase (a := { a with late }) ht phase) rfl rfl hslot
    (fun _ _ _ hj => hj) (fun e he _ => ?_) htodo (fun _ _ => rfl) (h.bounded _) h.log
    (.inr (h.sound_of_mutex ht hm hr)) hpending
  exact (h.tasks i task ht).mutex e (hentry ▸ he) hm

theorem inv_unlock (h : Inv a) (ht : a.tasks[i]? = some task)
    (hp : task.phase = .unlock entry outcome) :
    Inv ((a.setHolder entry none).setPhase i (.drop entry outcome)) := by
  have hm : task.phase.hasMutex = true := by rw [hp]; rfl
  have hown := (h.tasks i task ht).mutex entry (by rw [hp]; rfl) hm
  have hstate (name : String) : (a.setHolder entry none).counter name = a.counter name := by
    simp only [counter, setHolder, modifyCell]
    congr 2
    funext e
    by_cases he : e = entry <;> simp [he]
  refine h.of_held ht hm (.drop entry outcome) ?_ rfl rfl ?_ (fun j e hj he => ?_)
    (by rintro _ ⟨⟩ ⟨⟩) rfl
    (fun name _ => hstate name) (h.bounded _) h.log (.inr ?_) trivial
  · rw [table_setPhase (a := a.setHolder entry none) ht]
    rw [table_setHolder]
  · rw [Task.slot, Task.slot, hp]
    rfl
  · have hne : e ≠ entry := by
      rintro rfl
      rw [hown] at he
      exact hj (Option.some.inj he).symm
    simpa [setPhase, setHolder, modifyCell, hne] using he
  · exact (hstate _).symm ▸ h.sound_of_mutex ht hm (by rw [hp]; rfl)

/-- The block is written under the mutex, and the event logged. -/
theorem inv_setState (h : Inv a) (ht : a.tasks[i]? = some task) (hm : task.phase.hasMutex = true)
    (he : task.phase.entry? = some entry) (state : SequenceState) (log : List Event)
    (hothers : ∀ name, name ≠ task.call.name → epoch name log = epoch name a.log)
    (hlog : WellIssued log)
    (hsound : Counter.Sound ⟨a.counters task.call.name, some state, epoch task.call.name log⟩) :
    Inv ({ a.setState entry state with log }.setPhase i (.unlock entry outcome)) := by
  have hk := h.lookup_of_entry ht he
  have hslot : Task.slot { task with phase := .unlock entry outcome } = task.slot := by
    rw [Task.slot_of_mutex hm he]
    rfl
  refine h.of_held ht hm (.unlock entry outcome) ?_ rfl rfl hslot (fun j e _ he => ?_)
    (fun e he' _ => ?_) rfl (fun name hne => ?_) (h.bounded _) hlog (.inr ?_)
    trivial
  · rw [table_setPhase (a := { a.setState entry state with log }) ht]
    have hlog : table { a.setState entry state with log } = (a.setState entry state).table := rfl
    rw [hlog, table_setState]
  · exact (holder_setState state e).trans he
  · obtain rfl := Option.some.inj he'
    exact (holder_setState state entry).trans ((h.tasks i task ht).mutex entry he hm)
  · have := counter_setState_of_ne h hk state hne
    rw [← this]
    simp only [counter, setPhase, hothers name hne]
    rfl
  · have := counter_setState hk state
    simp only [counter, Counter.mk.injEq] at this
    simp only [counter, setPhase, this.2.1]
    exact hsound

/-- A reservation is taken from a free block. -/
theorem inv_issue (h : Inv a) {start : Int} {s state : SequenceState} (ht : a.tasks[i]? = some task)
    (hcall : task.call = .reserve name increment) (hm : task.phase.hasMutex = true)
    (hr : task.phase.resets = false) (he : task.phase.entry? = some entry)
    (hfree : (a.counter name).Free s) (htake : s.take increment.toNat = some (start, state)) :
    Inv (((a.setState entry state).record (.issued name start increment (a.counters name))).setPhase
      i (.unlock entry (.reserved start))) := by
  have hname : task.call.name = name := by rw [hcall]; rfl
  have hinc : 0 < increment := by
    have := (h.tasks i task ht).positive
    rw [hcall] at this
    exact this
  have hsound := hname ▸ h.sound_of_mutex ht hm hr
  obtain ⟨hpos, hcovered, hdisjoint, hsound'⟩ :=
    hfree.take hsound.covered hinc (h.bounded name) htake
  refine inv_setState h ht hm he state _ (fun other hne => ?_) ⟨hpos, hcovered, hdisjoint, h.log⟩ ?_
  · rw [hname] at hne
    rw [epoch, if_neg (Ne.symm hne)]
    rfl
  · rw [hname, epoch, if_pos rfl]
    exact hsound'

/-- The end of a `reserve` that has claimed a block. -/
theorem inv_install (h : Inv a) {block : SequenceState} (ht : a.tasks[i]? = some task)
    (hcall : task.call = .reserve name increment) (hm : task.phase.hasMutex = true)
    (hr : task.phase.resets = false) (he : task.phase.entry? = some entry)
    (hfree : (a.counter name).Free block) : Inv (a.install i name increment entry block) := by
  unfold install
  split
  case h_1 start state htake => exact inv_issue h ht hcall hm hr he hfree htake
  case h_2 =>
    have hname : task.call.name = name := by rw [hcall]; rfl
    have hsound := hname ▸ h.sound_of_mutex ht hm hr
    refine inv_setState h ht hm he block a.log (fun _ _ => rfl) h.log ?_
    rw [hname]
    refine ⟨hsound.covered, fun s hs _ => ?_⟩
    cases hs
    exact ⟨hfree.pos, hfree.owned, hfree.above⟩

/-- The end of a `set`: the block is dropped and a new epoch begins. -/
theorem inv_finishSet (h : Inv a) {previous : Int} (ht : a.tasks[i]? = some task)
    (hcall : task.call = .set name value) (hm : task.phase.hasMutex = true)
    (he : task.phase.entry? = some entry) : Inv (a.finishSet i name value entry previous) := by
  have hname : task.call.name = name := by rw [hcall]; rfl
  refine inv_setState h ht hm he .empty _ (fun other hne => ?_) h.log ?_
  · rw [hname] at hne
    rw [epoch, if_neg (Ne.symm hne)]
    rfl
  · rw [hname, epoch, if_pos rfl]
    exact .reset _

/-- The counter update of a call takes effect. -/
theorem inv_addCounter (h : Inv a) (ht : a.tasks[i]? = some task) (hm : task.phase.hasMutex = true)
    (phase : Phase) (hslot : Task.slot { task with phase } = task.slot) (htodo : phase.todo = [])
    (hbounded : a.counters task.call.name + by_ < i64Max) (hsound : phase.resets = true ∨
      Counter.Sound { a.counter task.call.name with value := a.counters task.call.name + by_ })
    (hpending : Counter.Pending
      { a.counter task.call.name with value := a.counters task.call.name + by_ } phase) :
    Inv ((a.addCounter task.call.name by_).setPhase i phase) := by
  have hentry : phase.entry? = task.phase.entry? := congrArg Slot.handle hslot
  have hself : ((a.addCounter task.call.name by_).setPhase i phase).counter task.call.name =
      { a.counter task.call.name with value := a.counters task.call.name + by_ } := by
    simp [counter, setPhase, addCounter]
  refine h.of_held ht hm phase (table_setPhase (a := a.addCounter task.call.name by_) ht phase) rfl
    rfl hslot (fun _ _ _ hj => hj) (fun e he _ => ?_) htodo (fun other hne => ?_)
    ?_ h.log ?_ ?_
  · exact (h.tasks i task ht).mutex e (hentry ▸ he) hm
  · simp [counter, setPhase, addCounter, hne]
  · simpa [setPhase, addCounter] using hbounded
  · rw [hself]
    exact hsound
  · rw [hself]
    exact hpending

/-! ### Steps without the mutex -/

/-- The holder of a mutex keeps it when another call takes a step without its own. -/
theorem FreeStep.holder (hfree : FreeStep a i task a') (h : a.table.Inv a.shardIndex) {e : Nat}
    (ht : a.tasks[j]? = some task') (he : task'.phase.entry? = some e)
    (hj : (a.heap e).holder = some j) : (a'.heap e).holder = some j := by
  cases hfree with
  | move phase hmove => exact (hmove.holder e).trans hj
  | @lock entry hp hnone =>
    have hne : e ≠ entry := by
      rintro rfl
      rw [hnone] at hj
      cases hj
    simpa [setPhase, setHolder, modifyCell, hne] using hj
  | insert =>
    have hlt : e < a.allocated := (h.slots j _ (slots_getElem? ht)).allocated e he
    simpa [setPhase, Nat.ne_of_lt hlt] using hj
  | @erase victim entry =>
    by_cases hne : e = entry
    · simpa [setPhase, dropHandle, modifyCell, hne] using hne ▸ hj
    · simpa [setPhase, dropHandle, modifyCell, hne] using hj

/-- A block that appears in a step without the mutex is spent. -/
theorem FreeStep.block (hfree : FreeStep a i task a') (h : a.table.Inv a.shardIndex)
    (name : String) (s : SequenceState) (hs : (a'.counter name).block = some s) :
    s.isSpent = true ∨ (a.counter name).block = some s := by
  cases hfree with
  | move phase hmove =>
    refine .inr ?_
    simpa only [counter, hmove.entries, hmove.state] using hs
  | @lock entry =>
    refine .inr ?_
    rw [← hs]
    simp only [counter, setPhase, setHolder, modifyCell]
    congr 1
    funext e
    by_cases he : e = entry <;> simp [he]
  | insert =>
    simp only [counter, setPhase] at hs ⊢
    by_cases hname : name = task.call.name
    · subst hname
      rw [Finmap.lookup_insert] at hs
      obtain rfl : SequenceState.empty = s := by simpa using hs
      exact .inl rfl
    · rw [Finmap.lookup_insert_of_ne _ hname] at hs
      refine .inr ?_
      cases hl : a.entries.lookup name with
      | none =>
        rw [hl] at hs
        cases hs
      | some e =>
        have hne : e ≠ a.allocated := Nat.ne_of_lt (h.allocated name e hl)
        rw [hl] at hs
        simpa [hne] using hs
  | @erase victim entry =>
    refine .inr ?_
    have hstate (e : Nat) :
        (({ a with entries := a.entries.erase victim }.dropHandle entry).heap e).state =
          (a.heap e).state := by
      by_cases he : e = entry <;> simp [dropHandle, modifyCell, he]
    have hs' : ((a.entries.erase victim).lookup name).map (fun e => (a.heap e).state) = some s := by
      rw [← hs]
      simp only [counter, setPhase, hstate]
      rfl
    by_cases hname : name = victim
    · rw [hname, Finmap.lookup_erase] at hs'
      cases hs'
    · rw [Finmap.lookup_erase_ne hname] at hs'
      exact hs'

theorem inv_freeStep (h : Inv a) (ht : a.tasks[i]? = some task) (hm : task.phase.hasMutex = false)
    (hfree : FreeStep a i task a') : Inv a' := by
  have hhandles := hfree.handles h.handles ht
  have hblock := hfree.block h.handles
  have hholder (j : Nat) (task' : Task) (e : Nat) (_ : j ≠ i) (hj : a.tasks[j]? = some task') :=
    hfree.holder (e := e) h.handles hj
  cases hfree with
  | move phase hmove =>
    refine h.of_free ht hm phase hhandles hmove.index hmove.tasks hmove.counters hmove.log hblock
      hholder (fun e _ hm' => ?_) hmove.todo (Phase.pending_of_not_hasMutex hmove.free)
    rw [hmove.free] at hm'
    cases hm'
  | @lock entry =>
    refine h.of_free ht hm (task.call.enter entry) hhandles rfl rfl rfl rfl hblock hholder
      (fun e he _ => ?_) ?_ ?_
    · have : e = entry := by
        cases hc : task.call <;> rw [hc] at he <;> exact (Option.some.inj he).symm
      simp [setPhase, setHolder, modifyCell, this]
    · cases task.call <;> rintro _ ⟨⟩
    · intro c
      cases task.call <;> trivial
  | insert =>
    exact h.of_free ht hm (.count a.allocated) hhandles rfl rfl rfl rfl hblock hholder
      (by rintro _ ⟨⟩ ⟨⟩) (by rintro _ ⟨⟩) fun _ => trivial
  | @erase victim entry todo removed hp =>
    refine h.of_free ht hm (.pruning todo (removed + 1)) hhandles rfl rfl rfl rfl hblock hholder
      (by rintro _ ⟨⟩) (fun name hname => (h.tasks i task ht).todo name ?_) (fun _ => trivial)
    rw [hp]
    exact hname

/-! ### The machine -/

theorem inv_call (h : Inv a) (hcall : call.Positive) :
    Inv { a with tasks := a.tasks ++ [⟨call, .start⟩] } := by
  refine ⟨?_, fun j task hj => ?_, fun name => ?_, h.bounded, h.log⟩
  · rw [table, List.map_append]
    exact h.handles.spawn call.name
  · rcases lt_or_ge j a.tasks.length with hlt | hge
    · obtain ⟨hpositive, htodo, hmutex, hpending⟩ :=
        h.tasks j task ((List.getElem?_append_left hlt).symm.trans hj)
      exact ⟨hpositive, htodo, hmutex, hpending⟩
    · rw [List.getElem?_append_right hge] at hj
      obtain rfl := List.mem_singleton.mp (List.mem_of_getElem? hj)
      refine ⟨hcall, fun _ h => ?_, fun _ h => ?_, trivial⟩ <;> cases h
  · refine (h.counters name).imp_left fun hlost => ?_
    obtain ⟨j, task, hj, hname, hreset⟩ := hlost
    refine ⟨j, task, ?_, hname, hreset⟩
    rw [← hj]
    exact List.getElem?_append_left (List.getElem?_eq_some_iff.mp hj).1

/-- A late update that does not lower its counter. -/
theorem inv_landLate (h : Inv a) (late : List (String × Int)) (hpos : 0 ≤ by_)
    (hbounded : a.counters name + by_ < i64Max) : Inv { a.addCounter name by_ with late } := by
  have hcounter (other : String) : ∃ value, (a.counter other).value ≤ value ∧
      counter { a.addCounter name by_ with late } other =
        { a.counter other with value } := by
    by_cases hother : other = name
    · refine ⟨a.counters name + by_, ?_, ?_⟩
      · rw [hother]
        simp only [counter]
        omega
      · simp [counter, addCounter, hother]
    · exact ⟨_, le_rfl, by simp [counter, addCounter, hother]⟩
  refine ⟨h.handles, fun j task hj => ?_, fun other => ?_, fun other => ?_, h.log⟩
  · obtain ⟨hpositive, htodo, hmutex, hpending⟩ := h.tasks j task hj
    obtain ⟨value, hle, heq⟩ := hcounter task.call.name
    exact ⟨hpositive, htodo, hmutex, heq ▸ hpending.grow hle⟩
  · obtain ⟨value, hle, heq⟩ := hcounter other
    exact (h.counters other).imp id fun hsound => heq ▸ hsound.grow hle
  · by_cases hother : other = name
    · simpa [addCounter, hother] using hbounded
    · simpa [addCounter, hother] using h.bounded other

theorem inv_restart (h : Inv a) (hset : ∀ task ∈ a.tasks, task.phase.resets = false) :
    Inv a.restart := by
  refine ⟨.empty _ _ _, nofun, fun name => .inr ?_, h.bounded, h.log⟩
  have hsound : (a.counter name).Sound := by
    rcases h.counters name with ⟨j, task, hj, _, hreset⟩ | hsound
    · rw [hset task (List.mem_of_getElem? hj)] at hreset
      cases hreset
    · exact hsound
  exact hsound.reblock nofun

theorem inv_abandon (h : Inv a) (ht : a.tasks[i]? = some task) (hset : task.phase.resets = false)
    (hs : a.abandon i task.call.name outcome task.phase = some a') : Inv a' := by
  obtain ⟨call, phase⟩ := task
  cases phase with
  | bump e block landed | repair e block correction landed =>
    cases hs
    cases landed <;> exact inv_private h ht rfl rfl _ _ rfl rfl trivial
  | read | setRead =>
    cases hs
    exact inv_private h ht rfl rfl a.late _ rfl rfl trivial
  | setBump e previous delta landed =>
    cases hs
    cases landed <;> exact inv_private h ht rfl hset _ _ rfl rfl trivial
  | _ => cases hs

theorem inv_land (h : Inv a) (ht : a.tasks[i]? = some task)
    (hs : a.land i task.call.name task.phase = some a')
    (hbounded : a'.counters task.call.name < i64Max) : Inv a' := by
  obtain ⟨call, phase⟩ := task
  have hpending := (h.tasks i _ ht).pending
  cases phase with
  | bump e block landed =>
    cases landed with
    | true => cases hs
    | false =>
      cases hs
      have hsound := h.sound_of_mutex ht rfl rfl
      have hpos : 0 < block := hpending.1
      refine inv_addCounter h ht rfl _ rfl rfl (by simpa [setPhase, addCounter] using hbounded)
        (.inr (hsound.grow (by simp only [counter]; omega))) ⟨hpos, fun _ r hr => ?_⟩
      have : r.last ≤ a.counters call.name := hsound.covered r hr
      show r.last ≤ a.counters call.name + block - block
      omega
  | repair e block correction landed =>
    cases landed with
    | true => cases hs
    | false =>
      cases hs
      obtain ⟨hpos, hepoch, hblock⟩ := hpending
      have hsound := h.sound_of_mutex ht rfl rfl
      refine inv_addCounter h ht rfl _ rfl rfl (by simpa [setPhase, addCounter] using hbounded)
        (.inr (hsound.grow (by simp only [counter]; omega))) ⟨hpos, hepoch, ?_⟩
      simpa [counter] using hblock
  | setBump e previous delta landed =>
    cases landed with
    | true => cases hs
    | false =>
      cases hs
      refine inv_addCounter h ht rfl _ rfl rfl (by simpa [setPhase, addCounter] using hbounded)
        ?_ trivial
      rcases lt_or_ge delta 0 with hneg | hpos
      · exact .inl (decide_eq_true hneg)
      · have hsound := h.sound_of_mutex ht rfl rfl
        exact .inr (hsound.grow (by simp only [counter]; omega))
  | _ => cases hs

theorem inv_claimBlock (h : Inv a) {block : Int}
    (ht : a.tasks[i]? = some ⟨.reserve name increment, .claim entry block reached⟩) :
    Inv (a.claimBlock i name increment entry block reached) := by
  have hpending := (h.tasks i _ ht).pending
  unfold claimBlock
  split
  case h_1 => exact inv_private h ht rfl rfl a.late _ rfl rfl trivial
  case h_2 firstOwned hfirst =>
    obtain ⟨previous, hprevious, hfirst⟩ := Option.bind_eq_some_iff.mp hfirst
    obtain ⟨rfl, _⟩ := checkedI64_eq_some hprevious
    obtain ⟨rfl, _⟩ := checkedI64_eq_some hfirst
    split_ifs with hpos
    · exact inv_install h ht rfl rfl rfl rfl (hpending.free hpos)
    · split
      case h_1 => exact inv_private h ht rfl rfl a.late _ rfl rfl trivial
      case h_2 correction hcorrection =>
        obtain ⟨rfl, _⟩ := checkedI64_eq_some hcorrection
        exact inv_private h ht rfl rfl a.late _ rfl rfl
          (hpending.repair hpos fun r hr => ((h.log.epoch name).2 r hr).1)

theorem inv_advanceReserve (h : Inv a) (ht : a.tasks[i]? = some ⟨.reserve name increment, phase⟩)
    (hs : a.advanceReserve i name increment phase = some a') : Inv a' := by
  have hpending := (h.tasks i _ ht).pending
  cases phase with
  | take e =>
    have hsound := h.sound_of_mutex ht rfl rfl
    have hinc : 0 < increment := (h.tasks i _ ht).positive
    have hblock : (a.counter name).block = some (a.heap e).state := by
      have hk : a.entries.lookup name = some e := h.lookup_of_entry ht rfl
      simp [counter, hk]
    simp only [advanceReserve] at hs
    split at hs
    case h_1 start state htake =>
      cases hs
      exact inv_issue h ht rfl rfl rfl rfl
        (hsound.live _ hblock (Counter.live_of_take hinc htake)) htake
    case h_2 =>
      cases hs
      refine inv_private h ht rfl rfl a.late _ rfl rfl ⟨?_, by rintro ⟨⟩⟩
      have hinc : 0 < increment.toNat := hinc
      omega
  | bump e block landed =>
    cases landed with
    | false => cases hs
    | true =>
      cases hs
      exact inv_private h ht rfl rfl a.late _ rfl rfl
        ⟨hpending.1, hpending.2 rfl⟩
  | read =>
    cases hs
    exact inv_private h ht rfl rfl a.late _ rfl rfl
      ⟨hpending.1, le_rfl, hpending.2⟩
  | claim =>
    cases hs
    exact inv_claimBlock h ht
  | repair e block correction landed =>
    cases landed with
    | false => cases hs
    | true =>
      cases hs
      exact inv_install h ht rfl rfl rfl rfl hpending.repaired
  | _ => cases hs

theorem inv_advanceSet (h : Inv a) (ht : a.tasks[i]? = some ⟨.set name value, phase⟩)
    (hs : a.advanceSet i name value phase = some a') : Inv a' := by
  cases phase with
  | setRead =>
    cases hs
    exact inv_private h ht rfl rfl a.late _ rfl rfl trivial
  | setDelta =>
    simp only [advanceSet] at hs
    split at hs
    case h_1 =>
      cases hs
      exact inv_private h ht rfl rfl a.late _ rfl rfl trivial
    case h_2 =>
      split_ifs at hs
      · cases hs
        exact inv_finishSet h ht rfl rfl rfl
      · cases hs
        exact inv_private h ht rfl rfl a.late _ rfl rfl trivial
  | setBump e previous delta landed =>
    cases landed with
    | false => cases hs
    | true =>
      cases hs
      exact inv_finishSet h ht rfl rfl rfl
  | _ => cases hs

theorem inv_advanceHeld (h : Inv a) (ht : a.tasks[i]? = some ⟨call, phase⟩)
    (hs : a.advanceHeld i call phase = some a') : Inv a' := by
  cases call with
  | reserve => exact inv_advanceReserve h ht hs
  | set => exact inv_advanceSet h ht hs

/-- Every atomic operation of a call keeps the invariant. -/
theorem inv_advance (h : Inv a) (ht : a.tasks[i]? = some task)
    (hs : a.advance i task.call task.phase = some a') : Inv a' := by
  cases hm : task.phase.hasMutex with
  | false =>
    exact inv_freeStep h ht hm (freeStep_of_advance h.handles ht (h.tasks i task ht).todo hm hs)
  | true =>
    obtain ⟨call, phase⟩ := task
    cases phase with
    | unlock =>
      cases hs
      exact inv_unlock h ht rfl
    | start | lookup | ceiling | pruning | pruneTest | recheck | insert | count | waiting | drop
    | done => cases hm
    | _ => exact inv_advanceHeld h ht hs

/-- The counter update that an action lets take effect. -/
def landing (a : SequenceAllocator) : Action → Option (String × Int)
  | .land i => a.tasks[i]?.bind Task.unlanded
  | .landLate k => a.late[k]?
  | _ => none

/-- What the runs of the result may do: the counters stay below `i64::MAX`, increments are
positive, and a `set` that has sent its counter update is not interrupted, so that it succeeds. -/
def Allowed (a : SequenceAllocator) (action : Action) : Prop :=
  (∀ update ∈ a.landing action, a.counters update.1 + update.2 < i64Max) ∧
    match action with
    | .call call => call.Positive
    | .fail i | .cancel i => ∀ task ∈ a.tasks[i]?, task.phase.setSent = false
    | .crash => ∀ task ∈ a.tasks, task.phase.setSent = false
    | _ => True

instance (call : Call) : Decidable call.Positive :=
  match call with
  | .reserve _ increment => inferInstanceAs (Decidable (0 < increment))
  | .set _ _ => .isTrue trivial

instance (a : SequenceAllocator) (action : Action) : Decidable (a.Allowed action) :=
  match action with
  | .call call => inferInstanceAs (Decidable (_ ∧ call.Positive))
  | .fail i | .cancel i =>
    inferInstanceAs (Decidable (_ ∧ ∀ task ∈ a.tasks[i]?, task.phase.setSent = false))
  | .crash => inferInstanceAs (Decidable (_ ∧ ∀ task ∈ a.tasks, task.phase.setSent = false))
  | .run _ | .retain _ _ | .land _ | .landLate _ => inferInstanceAs (Decidable (_ ∧ True))

theorem landed_counters (hs : a.land i task.call.name task.phase = some a') :
    ∃ by_, task.unlanded = some (task.call.name, by_) ∧
      a'.counters task.call.name = a.counters task.call.name + by_ := by
  obtain ⟨call, phase⟩ := task
  cases phase with
  | bump e block landed =>
    cases landed with
    | true => cases hs
    | false =>
      cases hs
      exact ⟨block, rfl, Function.update_self _ _ _⟩
  | repair e block correction landed =>
    cases landed with
    | true => cases hs
    | false =>
      cases hs
      exact ⟨correction, rfl, Function.update_self _ _ _⟩
  | setBump e previous delta landed =>
    cases landed with
    | true => cases hs
    | false =>
      cases hs
      exact ⟨delta, rfl, Function.update_self _ _ _⟩
  | _ => cases hs

/-- Counters stay below `i64::MAX` and increments are positive. -/
def Usual (a : SequenceAllocator) (action : Action) : Prop :=
  (∀ update ∈ a.landing action, a.counters update.1 + update.2 < i64Max) ∧
    match action with
    | .call call => call.Positive
    | _ => True

instance (a : SequenceAllocator) (action : Action) : Decidable (a.Usual action) :=
  match action with
  | .call call => inferInstanceAs (Decidable (_ ∧ call.Positive))
  | .run _ | .retain _ _ | .land _ | .fail _ | .cancel _ | .landLate _ | .crash =>
    inferInstanceAs (Decidable (_ ∧ True))

/-- No counter is lowered by a `set` that does not succeed: a `set` that has lowered its counter is
not interrupted, and an update that was left behind does not lower a counter later. -/
def Unlowered (a : SequenceAllocator) (action : Action) : Prop :=
  a.Usual action ∧
    match action with
    | .landLate k => ∀ update ∈ a.late[k]?, 0 ≤ update.2
    | .fail i | .cancel i => ∀ task ∈ a.tasks[i]?, task.phase.resets = false
    | .crash => ∀ task ∈ a.tasks, task.phase.resets = false
    | _ => True

instance (a : SequenceAllocator) (action : Action) : Decidable (a.Unlowered action) :=
  match action with
  | .landLate k => inferInstanceAs (Decidable (_ ∧ ∀ update ∈ a.late[k]?, 0 ≤ update.2))
  | .fail i | .cancel i =>
    inferInstanceAs (Decidable (_ ∧ ∀ task ∈ a.tasks[i]?, task.phase.resets = false))
  | .crash => inferInstanceAs (Decidable (_ ∧ ∀ task ∈ a.tasks, task.phase.resets = false))
  | .call _ | .run _ | .retain _ _ | .land _ => inferInstanceAs (Decidable (_ ∧ True))

/-- **Every step that lowers no counter for a failed `set` keeps the invariant.** -/
theorem inv_step (h : Inv a) (hok : a.Unlowered action) (hs : a.step action = some a') :
    Inv a' := by
  obtain ⟨⟨hbounded, hpositive⟩, hok⟩ := hok
  cases action with
  | call =>
    cases hs
    exact inv_call h hpositive
  | run =>
    obtain ⟨task, ht, hs⟩ := Option.bind_eq_some_iff.mp hs
    exact inv_advance h ht hs
  | retain =>
    obtain ⟨task, ht, hs⟩ := Option.bind_eq_some_iff.mp hs
    obtain ⟨⟨hp, _, horder⟩, hs'⟩ := Option.ite_none_right_eq_some.mp hs
    obtain rfl := Option.some.inj hs'
    exact inv_freeStep h ht (by rw [hp]; rfl) (.move _ (moves_retain h.handles ht hp horder))
  | land =>
    obtain ⟨task, ht, hs⟩ := Option.bind_eq_some_iff.mp hs
    obtain ⟨by_, hunlanded, hcounters⟩ := landed_counters hs
    refine inv_land h ht hs ?_
    rw [hcounters]
    exact hbounded (task.call.name, by_) (by simp [landing, ht, hunlanded])
  | fail =>
    obtain ⟨task, ht, hs⟩ := Option.bind_eq_some_iff.mp hs
    exact inv_abandon h ht (hok task ht) hs
  | cancel =>
    obtain ⟨⟨call, phase⟩, ht, hs⟩ := Option.bind_eq_some_iff.mp hs
    have hset := hok _ ht
    cases phase with
    | waiting =>
      cases hs
      exact inv_freeStep h ht rfl (.move _ (moves_cancel rfl))
    | _ => exact inv_abandon h ht hset hs
  | landLate =>
    obtain ⟨⟨name, by_⟩, hk, rfl⟩ := Option.map_eq_some_iff.mp hs
    exact inv_landLate h _ (hok _ hk) (hbounded (name, by_) hk)
  | crash =>
    cases hs
    exact inv_restart h hok

theorem inv_new {shardCount : Nat} {hash : String → UInt64} {limits : SequenceLimits}
    {counters : String → Int} (hcounters : ∀ name, counters name < i64Max) :
    Inv (new shardCount hash limits counters) :=
  ⟨.empty _ _ _, nofun, fun _ => .inr ⟨nofun, nofun⟩, hcounters, trivial⟩

/-! ### Runs without interrupted sets -/

theorem install_late {block : SequenceState} :
    (a.install i name increment entry block).late = a.late := by
  unfold install
  split <;> rfl

theorem claimBlock_late {block : Int} :
    (a.claimBlock i name increment entry block reached).late = a.late := by
  unfold claimBlock
  split
  · rfl
  · split_ifs
    · exact install_late
    · split <;> rfl

theorem advanceReserve_late (hs : a.advanceReserve i name increment phase = some a') :
    a'.late = a.late := by
  unfold advanceReserve at hs
  split at hs
  · split at hs <;> (obtain rfl := Option.some.inj hs; rfl)
  · cases hs
    rfl
  · cases hs
    rfl
  · cases hs
    exact claimBlock_late
  · cases hs
    exact install_late
  · cases hs

theorem advanceSet_late (hs : a.advanceSet i name value phase = some a') : a'.late = a.late := by
  unfold advanceSet at hs
  split at hs
  · cases hs
    rfl
  · split at hs
    · cases hs
      rfl
    · split_ifs at hs <;> (obtain rfl := Option.some.inj hs; rfl)
  · cases hs
    rfl
  · cases hs

/-- The atomic operations of a call leave no update behind. -/
theorem advance_late (hs : a.advance i call phase = some a') : a'.late = a.late := by
  unfold advance at hs
  split at hs
  case h_12 =>
    cases call with
    | reserve => exact advanceReserve_late hs
    | set => exact advanceSet_late hs
  all_goals
    repeat' split at hs
    all_goals first
      | (obtain rfl := Option.some.inj hs; rfl)
      | cases hs

/-- The update that a call without the counter update of a `set` has sent raises its counter. -/
theorem unlanded_pos (h : Inv a) (ht : a.tasks[i]? = some task) (hset : task.phase.setSent = false)
    (hu : task.unlanded = some update) : 0 < update.2 := by
  have hpending := (h.tasks i task ht).pending
  unfold Task.unlanded at hu
  split at hu
  case h_1 hp =>
    cases hu
    rw [hp] at hpending
    exact hpending.1
  case h_2 hp =>
    cases hu
    rw [hp] at hpending
    exact hpending.1
  case h_3 hp =>
    rw [hp] at hset
    cases hset
  case h_4 => cases hu

theorem mem_leaveBehind {landed : Bool} (hu : update ∈ (a.leaveBehind name by_ landed).late) :
    update ∈ a.late ∨ landed = false ∧ update = (name, by_) := by
  cases landed with
  | true => exact .inl hu
  | false => exact (List.mem_cons.mp hu).symm.imp_right fun hu => ⟨rfl, hu⟩

/-- What a call that gives up leaves behind is the update it has sent. -/
theorem mem_late_abandon (hs : a.abandon i task.call.name outcome task.phase = some a')
    (hu : update ∈ a'.late) : update ∈ a.late ∨ task.unlanded = some update := by
  obtain ⟨call, phase⟩ := task
  cases phase with
  | bump | repair | setBump =>
    cases hs
    refine (mem_leaveBehind hu).imp_right ?_
    rintro ⟨rfl, rfl⟩
    rfl
  | read | setRead =>
    cases hs
    exact .inl hu
  | _ => cases hs

theorem late_pos_abandon (h : Inv a) (hlate : ∀ update ∈ a.late, 0 < update.2)
    (ht : a.tasks[i]? = some task) (hset : task.phase.setSent = false)
    (hs : a.abandon i task.call.name outcome task.phase = some a') :
    ∀ update ∈ a'.late, 0 < update.2 := by
  intro update hu
  rcases mem_late_abandon hs hu with hu | hu
  · exact hlate update hu
  · exact unlanded_pos h ht hset hu

/-- Without interrupted sets every update that is left behind raises its counter. -/
theorem late_pos_step (h : Inv a) (hlate : ∀ update ∈ a.late, 0 < update.2) (hok : a.Allowed action)
    (hs : a.step action = some a') : ∀ update ∈ a'.late, 0 < update.2 := by
  obtain ⟨-, hok⟩ := hok
  cases action with
  | call =>
    cases hs
    exact hlate
  | run =>
    obtain ⟨task, ht, hs⟩ := Option.bind_eq_some_iff.mp hs
    rw [advance_late hs]
    exact hlate
  | retain =>
    obtain ⟨task, ht, hs⟩ := Option.bind_eq_some_iff.mp hs
    obtain ⟨-, hs⟩ := Option.ite_none_right_eq_some.mp hs
    cases hs
    exact hlate
  | land =>
    obtain ⟨task, ht, hs⟩ := Option.bind_eq_some_iff.mp hs
    unfold land at hs
    split at hs
    case h_4 => cases hs
    all_goals
      cases hs
      exact hlate
  | fail =>
    obtain ⟨task, ht, hs⟩ := Option.bind_eq_some_iff.mp hs
    exact late_pos_abandon h hlate ht (hok task ht) hs
  | cancel =>
    obtain ⟨task, ht, hs⟩ := Option.bind_eq_some_iff.mp hs
    split at hs
    · cases hs
      exact hlate
    · exact late_pos_abandon h hlate ht (hok task ht) hs
  | landLate =>
    obtain ⟨_, -, rfl⟩ := Option.map_eq_some_iff.mp hs
    exact fun update hu => hlate update (List.mem_of_mem_eraseIdx hu)
  | crash =>
    cases hs
    intro update hu
    rcases List.mem_append.mp hu with hu | hu
    · obtain ⟨task, ht, hunlanded⟩ := List.mem_filterMap.mp hu
      obtain ⟨i, hi⟩ := List.getElem?_of_mem ht
      exact unlanded_pos h hi (hok task ht) hunlanded
    · exact hlate update hu

theorem resets_of_not_setSent {phase : Phase} (h : phase.setSent = false) :
    phase.resets = false := by
  cases phase <;> first | rfl | cases h

theorem Allowed.unlowered (hok : a.Allowed action) (hlate : ∀ update ∈ a.late, 0 < update.2) :
    a.Unlowered action := by
  obtain ⟨hbounded, hok⟩ := hok
  cases action with
  | call => exact ⟨⟨hbounded, hok⟩, trivial⟩
  | landLate =>
    exact ⟨⟨hbounded, trivial⟩, fun update hu => (hlate update (List.mem_of_getElem? hu)).le⟩
  | fail | cancel | crash =>
    exact ⟨⟨hbounded, trivial⟩, fun task ht => resets_of_not_setSent (hok task ht)⟩
  | run | retain | land => exact ⟨⟨hbounded, trivial⟩, trivial⟩

/-- **Sequence uniqueness.** From any durable counters below `i64::MAX` and in every state that
allowed steps reach, take any stretch of the answers without a successful `set` of `name`: the
ranges it returned for `name` are pairwise disjoint and positive, and every value was at most the
durable counter when it was returned. -/
theorem reserved_ranges_disjoint {shardCount : Nat} {hash : String → UInt64}
    {limits : SequenceLimits} {counters : String → Int}
    (hcounters : ∀ name, counters name < i64Max)
    (h : Reaches step Allowed (new shardCount hash limits counters) a)
    (newer segment older : List Event) (hlog : a.log = newer ++ segment ++ older)
    (hset : ∀ value, Event.set name value ∉ segment) :
    (segment.filterMap (Event.reservation? name)).Pairwise Reservation.Disjoint ∧
      ∀ r ∈ segment.filterMap (Event.reservation? name), 0 < r.start ∧ r.last ≤ r.counter := by
  have hinv : Inv a ∧ ∀ update ∈ a.late, 0 < update.2 := by
    refine h.invariant (I := fun a => Inv a ∧ ∀ update ∈ a.late, 0 < update.2)
      ⟨inv_new hcounters, nofun⟩ ?_
    rintro a action a' - ⟨hi, hlate⟩ hok hs
    exact ⟨inv_step hi (hok.unlowered hlate) hs, late_pos_step hi hlate hok hs⟩
  exact hinv.1.log.segment hlog hset

/-- A reservation, one whose update takes effect and whose answer is lost, a crash, and a last
reservation. -/
def interrupted : List Action :=
  List.flatten [[.call (.reserve "orders" 2)], List.replicate 6 (.run 0), [.land 0],
    List.replicate 5 (.run 0), [.call (.reserve "orders" 9)], List.replicate 4 (.run 1),
    [.land 1, .fail 1, .crash, .call (.reserve "orders" 1)], List.replicate 6 (.run 0), [.land 0],
    List.replicate 3 (.run 0)]

theorem reserved_ranges_disjoint_interrupted :
    ∃ a, Reaches step Allowed (new 2 (fun _ => 0) ⟨10, 8⟩ fun _ => 0) a ∧
      a.log = [.issued "orders" 21 1 30, .issued "orders" 1 2 10] ∧
      (a.log.filterMap (Event.reservation? "orders")).Pairwise Reservation.Disjoint ∧
      ∀ r ∈ a.log.filterMap (Event.reservation? "orders"), 0 < r.start ∧ r.last ≤ r.counter := by
  refine exists_and_of_runList interrupted (by decide +kernel) fun a hreach hlog => ?_
  refine reserved_ranges_disjoint (fun _ => by decide) hreach [] a.log [] (by simp) fun value => ?_
  rw [hlog]
  simp

/-! ### Sets that fail -/

/-- **A failed set duplicates nothing** as long as it lowers nothing: in every run in which no
counter is lowered by a `set` that does not succeed, whatever else fails, is cancelled or crashes
after its update took effect or before, all ranges returned for `name` in any stretch of the answers
without a successful `set` of it are pairwise disjoint, and every value was at most the durable
counter when it was returned. -/
theorem reserved_after_failed_set {shardCount : Nat} {hash : String → UInt64}
    {limits : SequenceLimits} {counters : String → Int}
    (hcounters : ∀ name, counters name < i64Max)
    (h : Reaches step Unlowered (new shardCount hash limits counters) a)
    (newer segment older : List Event) (hlog : a.log = newer ++ segment ++ older)
    (hset : ∀ value, Event.set name value ∉ segment) :
    (segment.filterMap (Event.reservation? name)).Pairwise Reservation.Disjoint ∧
      ∀ r ∈ segment.filterMap (Event.reservation? name), 0 < r.start ∧ r.last ≤ r.counter := by
  have hinv : Inv a :=
    h.invariant (inv_new hcounters) fun _ _ _ _ hi hok hs => inv_step hi hok hs
  exact hinv.log.segment hlog hset

/-- A reservation of two values, a `set` to `value` whose update takes effect and whose answer is
lost, and three more reservations. -/
def failedSet (value : Int) : List Action :=
  List.flatten [[.call (.reserve "orders" 2)], List.replicate 6 (.run 0), [.land 0],
    List.replicate 5 (.run 0), [.call (.set "orders" value)], List.replicate 5 (.run 1),
    [.land 1, .fail 1], List.replicate 2 (.run 1), [.call (.reserve "orders" 2)],
    List.replicate 6 (.run 2), [.call (.reserve "orders" 6)], List.replicate 6 (.run 3),
    [.call (.reserve "orders" 2)], List.replicate 4 (.run 4), [.land 4], List.replicate 3 (.run 4)]

/-- The `set` raises the counter from 10 to 50. -/
theorem reserved_after_failed_set_raised :
    ∃ a, Reaches step Unlowered (new 2 (fun _ => 0) ⟨10, 8⟩ fun _ => 0) a ∧
      a.log = [.issued "orders" 51 2 60, .issued "orders" 5 6 50, .issued "orders" 3 2 50,
        .issued "orders" 1 2 10] ∧
      (a.log.filterMap (Event.reservation? "orders")).Pairwise Reservation.Disjoint ∧
      ∀ r ∈ a.log.filterMap (Event.reservation? "orders"), 0 < r.start ∧ r.last ≤ r.counter := by
  refine exists_and_of_runList (failedSet 50) (by decide +kernel) fun a hreach hlog => ?_
  refine reserved_after_failed_set (fun _ => by decide) hreach [] a.log [] (by simp) fun value => ?_
  rw [hlog]
  simp

/-- The `set` lowers the counter from 10 to 1 and fails: the block 3 to 10 stays live, 3 and 4 are
returned while the counter is 1, and the next block returns 3 again. -/
theorem failed_set_duplicates :
    ∃ a, Reaches step Usual (new 2 (fun _ => 0) ⟨10, 8⟩ fun _ => 0) a ∧
      a.tasks[1]? = some ⟨.set "orders" 1,
        .done (.failed "sequences counter update failed for orders")⟩ ∧
      a.log = [.issued "orders" 2 2 11, .issued "orders" 5 6 1, .issued "orders" 3 2 1,
        .issued "orders" 1 2 10] ∧
      ¬Reservation.Disjoint ⟨2, 2, 11⟩ ⟨3, 2, 1⟩ ∧ ¬Reservation.last ⟨3, 2, 1⟩ ≤ 1 := by
  unfold Reservation.Disjoint
  exact exists_of_runList (failedSet 1) (by decide +kernel)

end SequenceAllocator

end Fareward.Sequence
