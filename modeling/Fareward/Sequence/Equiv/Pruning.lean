import Fareward.Sequence.Equiv.Handles

/-!
# The ceiling on counter names

A call for a new name at the ceiling prunes the entries it can drop and is refused if there is still
no room. It prunes the shard of the new name only, while the ceiling counts the names of all
shards, so it is refused although a spent and idle entry could be dropped in another shard
(`refused_beside_droppable`).

Within the shard the refusal is justified: `Pruned` says that an entry `prune_spent` has passed
over still owns values or is in use. The shard is locked, so no call can take a handle of the entry
meanwhile; but a call that has one may drop it, since this takes no lock.
-/

namespace Fareward.Sequence

namespace Phase

/-- The call is in `prune_spent` or before the second look at the ceiling. -/
def prunes : Phase → Bool
  | .pruning _ _ | .pruneTest _ _ _ _ | .recheck => true
  | _ => false

/-- `prune_spent` has passed over the name. -/
def Passed (name : String) : Phase → Prop
  | .pruning todo _ => name ∉ todo
  | .pruneTest victim _ todo _ => name ∉ todo ∧ name ≠ victim
  | .recheck => True
  | _ => False

/-- A call that is about to drop its handle. -/
def drops : Phase → Bool
  | .drop _ _ => true
  | _ => false

theorem Passed.prunes {name : String} {phase : Phase} (h : phase.Passed name) :
    phase.prunes = true := by
  cases phase <;> first | rfl | exact absurd h id

theorem Passed.hasMutex {name : String} {phase : Phase} (h : phase.Passed name) :
    phase.hasMutex = false := by
  cases phase <;> first | rfl | exact absurd h id

end Phase

namespace SequenceAllocator

variable {a a' : SequenceAllocator} {i j e entry : Nat} {task task' : Task} {phase : Phase}
  {name : String}

/-- The entry still owns values that were not issued, or a call has a handle of it. -/
def InUse (a : SequenceAllocator) (e : Nat) : Prop :=
  (a.heap e).state.isSpent = false ∨ ∃ task ∈ a.tasks, task.phase.entry? = some e

/-- What a pruning call has passed over in its shard is in use. -/
def Pruned (a : SequenceAllocator) : Prop :=
  ∀ (i : Nat) (task : Task), a.tasks[i]? = some task → ∀ name e, a.entries.lookup name = some e →
    a.shardIndex name = a.shardIndex task.call.name → task.phase.Passed name → a.InUse e

/-! ### One step -/

/-- A step that keeps its call's handle and writes at most the entry of that handle. -/
theorem InUse.step (h : a.InUse e) (ht : a.tasks[i]? = some task)
    (htasks : a'.tasks = (a.setPhase i phase).tasks)
    (hkeeps : task.phase.entry? = some e → phase.entry? = some e)
    (hstate : (a'.heap e).state = (a.heap e).state ∨ phase.entry? = some e) : a'.InUse e := by
  have hself : phase.entry? = some e → a'.InUse e := by
    intro he
    refine .inr ⟨{ task with phase }, List.mem_of_getElem? (i := i) ?_, he⟩
    rw [htasks, tasks_setPhase ht, if_pos rfl]
  rcases h with hspent | ⟨task', hmem, he⟩
  · rcases hstate with hstate | he
    · exact .inl (hstate ▸ hspent)
    · exact hself he
  · obtain ⟨j, hj⟩ := List.getElem?_of_mem hmem
    by_cases hij : i = j
    · subst hij
      rw [ht] at hj
      cases hj
      exact hself (hkeeps he)
    · refine .inr ⟨task', List.mem_of_getElem? (i := j) ?_, he⟩
      rw [htasks, tasks_setPhase ht, if_neg hij, hj]

/-- A step of task `i` in which no entry falls out of use. -/
theorem Pruned.of_step (h : Pruned a) (ht : a.tasks[i]? = some task) (phase : Phase)
    (hindex : a'.shardIndex = a.shardIndex) (htasks : a'.tasks = (a.setPhase i phase).tasks)
    (hentries : ∀ name e, a'.entries.lookup name = some e →
      a.entries.lookup name = some e ∨ a'.InUse e)
    (hkept : ∀ name e, a.entries.lookup name = some e → a.InUse e → a'.InUse e)
    (hself : ∀ name e, a'.entries.lookup name = some e →
      a.shardIndex name = a.shardIndex task.call.name → phase.Passed name → a'.InUse e) :
    Pruned a' := by
  intro j task' hj name e hname hshard hpassed
  rw [htasks, tasks_setPhase ht] at hj
  rw [hindex] at hshard
  split_ifs at hj with hij
  · cases hj
    exact hself name e hname hshard hpassed
  · rcases hentries name e hname with hold | huse
    · exact hkept name e hold (h j task' hj name e hold hshard hpassed)
    · exact huse

/-- In a step that does not drop a handle every entry stays in use. -/
theorem Moves.inUse (hmove : Moves a i task phase a') (ht : a.tasks[i]? = some task)
    (hdrop : ∀ e o, task.phase ≠ .drop e o) (h : a.InUse e) : a'.InUse e := by
  refine h.step ht hmove.tasks (fun he => ?_) (.inl (hmove.state e))
  rcases hmove.keeps e he with he | ⟨o, ho⟩
  · exact he
  · exact absurd ho (hdrop e o)

theorem Pruned.of_moves (h : Pruned a) (ht : a.tasks[i]? = some task)
    (hmove : Moves a i task phase a') (hdrop : ∀ e o, task.phase ≠ .drop e o)
    (hself : ∀ name e, a.entries.lookup name = some e →
      a.shardIndex name = a.shardIndex task.call.name → phase.Passed name → a.InUse e) :
    Pruned a' := by
  refine h.of_step ht phase hmove.index hmove.tasks (fun name e hname => .inl ?_)
    (fun _ _ _ huse => hmove.inUse ht hdrop huse) fun name e hname hshard hpassed => ?_
  · rwa [hmove.entries] at hname
  · rw [hmove.entries] at hname
    exact hmove.inUse ht hdrop (hself name e hname hshard hpassed)

theorem HeldStep.pruned (hheld : HeldStep a i task phase a') (h : Pruned a)
    (ht : a.tasks[i]? = some task) : Pruned a' := by
  have hentries : a'.entries = a.entries := congrArg HandleTable.entries hheld.table
  refine h.of_step ht phase hheld.index hheld.tasks (fun name e hname => .inl ?_)
    (fun name e _ huse => huse.step ht hheld.tasks (fun he => hheld.entry.trans he) ?_)
    fun name e _ _ hpassed => ?_
  · rwa [hentries] at hname
  · by_cases he : task.phase.entry? = some e
    · exact .inr (hheld.entry.trans he)
    · exact .inl (hheld.state e he)
  · have hmutex := hpassed.hasMutex
    rw [hheld.after] at hmutex
    cases hmutex

/-- An entry with more than one handle is in use. -/
theorem inUse_of_strong (h : Handled a) (hname : a.entries.lookup name = some e)
    (hstrong : 1 < (a.heap e).strong) : a.InUse e := by
  have hcount : (a.heap e).strong = a.table.handles e + 1 := h.handles.strong name e hname
  have hpos : 0 < a.table.handles e := by omega
  obtain ⟨slot, hslot, howns⟩ := List.countP_pos_iff.mp hpos
  obtain ⟨task, hmem, rfl⟩ := List.mem_map.mp hslot
  exact .inr ⟨task, hmem, Slot.owns_iff.mp howns⟩

theorem inUse_of_holder (h : Handled a) (hholder : (a.heap e).holder ≠ none) : a.InUse e := by
  obtain ⟨j, hj⟩ := Option.ne_none_iff_exists'.mp hholder
  obtain ⟨task, ht, he, -⟩ := (h.holder e j).mp hj
  exact .inr ⟨task, List.mem_of_getElem? ht, he⟩

/-- What a call passes over in a step is in use. -/
theorem passed_of_advance (hh : Handled a) (ht : a.tasks[i]? = some task)
    (hm : task.phase.hasMutex = false) (hs : a.advance i task.call task.phase = some a')
    (ht' : a'.tasks[i]? = some task') (hpassed : task'.phase.Passed name)
    (hname : a.entries.lookup name = some e)
    (hname' : a'.entries.lookup name = some e) : task.phase.Passed name ∨ a.InUse e := by
  -- the phase the call goes to
  have hphase (a₁ : SequenceAllocator) (phase : Phase) (htasks : a₁.tasks = a.tasks)
      (h : (a₁.setPhase i phase).tasks[i]? = some task') : task'.phase = phase := by
    rw [tasks_setPhase (htasks ▸ ht), if_pos rfl] at h
    exact (congrArg Task.phase (Option.some.inj h)).symm
  obtain ⟨call, phase⟩ := task
  cases phase with
  | pruning todo =>
    cases todo with
    | nil => exact .inl List.not_mem_nil
    | cons victim =>
      simp only [advance] at hs
      by_cases hvictim : name = victim
      · subst hvictim
        rw [hname] at hs
        dsimp only at hs
        split_ifs at hs with hstrong
        · exact .inr (inUse_of_strong hh hname hstrong)
        · cases hs
          rw [hphase a _ rfl ht'] at hpassed
          exact absurd rfl hpassed.2
      · refine .inl (List.not_mem_cons_of_ne_of_not_mem hvictim ?_)
        split at hs
        · split_ifs at hs
          · cases hs
            rw [hphase a _ rfl ht'] at hpassed
            exact hpassed
          · cases hs
            rw [hphase a _ rfl ht'] at hpassed
            exact hpassed.1
        · cases hs
          rw [hphase a _ rfl ht'] at hpassed
          exact hpassed
  | pruneTest victim entry =>
    simp only [advance] at hs
    split_ifs at hs with hspent
    · cases hs
      have hne : name ≠ victim := by
        rintro rfl
        have hnone : (a.entries.erase name).lookup name = some e := hname'
        rw [Finmap.lookup_erase] at hnone
        cases hnone
      rw [hphase _ _ rfl ht'] at hpassed
      exact .inl ⟨hpassed, hne⟩
    · cases hs
      rw [hphase a _ rfl ht'] at hpassed
      by_cases hvictim : name = victim
      · -- the entry was kept
        subst hvictim
        have hstored : a.entries.lookup name = some entry :=
          ((hh.handles.slots i _ (slots_getElem? ht)).alone name entry rfl).2.2.1
        obtain rfl := Option.some.inj (hstored.symm.trans hname)
        by_cases hholder : (a.heap entry).holder = none
        · exact .inr (.inl (Bool.eq_false_iff.mpr fun h => hspent ⟨hholder, h⟩))
        · exact .inr (inUse_of_holder hh hholder)
      · exact .inl ⟨hpassed, hvictim⟩
  | recheck => exact .inl trivial
  | start =>
    obtain ⟨_, hs⟩ := Option.ite_none_right_eq_some.mp hs
    cases hs
    rw [hphase _ _ rfl ht'] at hpassed
    exact absurd hpassed id
  | lookup =>
    simp only [advance] at hs
    split at hs
    · cases hs
      rw [hphase _ _ rfl ht'] at hpassed
      exact absurd hpassed id
    · split_ifs at hs
      all_goals
        cases hs
        rw [hphase _ _ rfl ht'] at hpassed
        exact absurd hpassed id
  | waiting =>
    obtain ⟨_, hs⟩ := Option.ite_none_right_eq_some.mp hs
    cases hs
    rw [hphase _ _ rfl ht'] at hpassed
    cases call <;> exact absurd hpassed id
  | insert | count | drop =>
    cases hs
    rw [hphase _ _ rfl ht'] at hpassed
    exact absurd hpassed id
  | ceiling | done => cases call <;> cases hs
  | _ => cases hm

/-- The step of a call without the mutex that is not the drop of its handle. -/
theorem pruned_advance (h : Pruned a) (hh : Handled a) (ht : a.tasks[i]? = some task)
    (hm : task.phase.hasMutex = false) (hdrop : ∀ e o, task.phase ≠ .drop e o)
    (hs : a.advance i task.call task.phase = some a') : Pruned a' := by
  have hfree := freeStep_of_advance hh.handles ht (hh.todo i task ht) hm hs
  have hold := h i task ht
  cases hfree with
  | move phase hmove =>
    refine h.of_moves ht hmove hdrop fun name e hname hshard hpassed => ?_
    have ht' : a'.tasks[i]? = some { task with phase } := by
      rw [hmove.tasks, tasks_setPhase ht, if_pos rfl]
    have hname' : a'.entries.lookup name = some e := by rw [hmove.entries, hname]
    rcases passed_of_advance hh ht hm hs ht' hpassed hname hname' with hp | huse
    · exact hold name e hname hshard hp
    · exact huse
  | @lock entry hp =>
    have henter : Phase.entry? (task.call.enter entry) = some entry := by
      cases task.call <;> rfl
    have hstate (e : Nat) : (((a.setHolder entry (some i)).setPhase i
        (task.call.enter entry)).heap e).state = (a.heap e).state := by
      by_cases he : e = entry <;> simp [setPhase, setHolder, modifyCell, he]
    refine h.of_step ht _ rfl rfl (fun _ _ hname => .inl hname)
      (fun _ e _ huse => huse.step ht rfl (fun he => ?_) (.inl (hstate e)))
      fun _ _ _ _ hpassed => ?_
    · rw [henter, ← he, hp]
      rfl
    · cases hc : task.call <;> rw [hc] at hpassed <;> exact absurd hpassed id
  | insert hp =>
    refine h.of_step ht _ rfl rfl (fun name e hname => ?_) (fun name e hname huse => ?_)
      fun _ _ _ _ hpassed => absurd hpassed id
    · by_cases hnew : name = task.call.name
      · -- the new entry, which the call has a handle of
        subst hnew
        have hfresh : a.allocated = e :=
          Option.some.inj ((Finmap.lookup_insert a.entries).symm.trans hname)
        refine .inr (.inr ⟨{ task with phase := .count a.allocated },
          List.mem_of_getElem? (i := i) ?_, congrArg some hfresh⟩)
        exact (tasks_setPhase (a := a) ht (.count a.allocated) i).trans (if_pos rfl)
      · exact .inl ((Finmap.lookup_insert_of_ne _ hnew).symm.trans hname)
    · have hne : e ≠ a.allocated := Nat.ne_of_lt (hh.handles.allocated name e hname)
      refine huse.step ht rfl (fun he => ?_) (.inl ?_)
      · rw [hp] at he
        cases he
      · simp [setPhase, hne]
  | @erase victim entry todo removed hp =>
    have hstate (e : Nat) : ((({ a with entries := a.entries.erase victim }.dropHandle
        entry).setPhase i (.pruning todo (removed + 1))).heap e).state = (a.heap e).state := by
      by_cases he : e = entry <;> simp [setPhase, dropHandle, modifyCell, he]
    have hmem (name : String) (e : Nat) (hname : (a.entries.erase victim).lookup name = some e) :
        name ≠ victim ∧ a.entries.lookup name = some e := by
      have hne : name ≠ victim := by
        rintro rfl
        rw [Finmap.lookup_erase] at hname
        cases hname
      exact ⟨hne, (Finmap.lookup_erase_ne hne).symm.trans hname⟩
    have hkept (e : Nat) (huse : a.InUse e) :
        (({ a with entries := a.entries.erase victim }.dropHandle entry).setPhase i
          (.pruning todo (removed + 1))).InUse e :=
      huse.step ht rfl (fun he => by rw [hp] at he; cases he) (.inl (hstate e))
    refine h.of_step ht _ rfl rfl (fun name e hname => .inl (hmem name e hname).2)
      (fun _ e _ huse => hkept e huse) fun name e hname hshard hpassed => hkept e ?_
    obtain ⟨hne, hname⟩ := hmem name e hname
    refine hold name e hname hshard ?_
    rw [hp]
    exact ⟨hpassed, hne⟩

/-! ### Runs -/

/-- A call drops its handle only when no call prunes. -/
def Undisturbed (a : SequenceAllocator) : Action → Prop
  | .run i => ∀ task ∈ a.tasks[i]?, task.phase.drops = true →
    ∀ other ∈ a.tasks, other.phase.prunes = false
  | _ => True

instance (a : SequenceAllocator) (action : Action) : Decidable (a.Undisturbed action) :=
  match action with
  | .run i => inferInstanceAs (Decidable (∀ task ∈ a.tasks[i]?, task.phase.drops = true →
      ∀ other ∈ a.tasks, other.phase.prunes = false))
  | .call _ | .retain _ _ | .land _ | .fail _ | .cancel _ | .landLate _ | .crash => .isTrue trivial

theorem pruned_of_not_prunes (h : ∀ task ∈ a.tasks, task.phase.prunes = false) : Pruned a := by
  intro j task hj name e _ _ hpassed
  have hprunes := h task (List.mem_of_getElem? hj)
  rw [hpassed.prunes] at hprunes
  cases hprunes

theorem pruned_step {action : Action} (h : Pruned a) (hh : Handled a) (hok : a.Undisturbed action)
    (hs : a.step action = some a') : Pruned a' := by
  cases action with
  | call =>
    cases hs
    intro j task hj name e hname hshard hpassed
    have huse : a.InUse e := by
      rcases lt_or_ge j a.tasks.length with hlt | hge
      · exact h j task ((List.getElem?_append_left hlt).symm.trans hj) name e hname hshard hpassed
      · rw [List.getElem?_append_right hge] at hj
        obtain rfl := List.mem_singleton.mp (List.mem_of_getElem? hj)
        exact absurd hpassed id
    refine huse.imp_right fun hheld => ?_
    obtain ⟨task', hmem, he⟩ := hheld
    exact ⟨task', List.mem_append_left _ hmem, he⟩
  | run i =>
    obtain ⟨task, ht, hs⟩ := Option.bind_eq_some_iff.mp hs
    cases hm : task.phase.hasMutex with
    | true =>
      rcases heldStep_of_advance ht hm hs with ⟨phase, hheld⟩ | ⟨e, outcome, hp, rfl⟩
      · exact hheld.pruned h ht
      · have hstate (e' : Nat) : (((a.setHolder e none).setPhase i
            (.drop e outcome)).heap e').state = (a.heap e').state := by
          by_cases he : e' = e <;> simp [setPhase, setHolder, modifyCell, he]
        refine h.of_step ht _ rfl rfl (fun _ _ hname => .inl hname)
          (fun _ e' _ huse => huse.step ht rfl (fun he => ?_) (.inl (hstate e')))
          fun _ _ _ _ hpassed => absurd hpassed id
        rw [hp] at he
        exact he
    | false =>
      cases hdrops : task.phase.drops with
      | false =>
        refine pruned_advance h hh ht hm (fun e o hp => ?_) hs
        rw [hp] at hdrops
        cases hdrops
      | true =>
        -- nobody prunes, and the call itself is over
        have hnone := hok task ht hdrops
        obtain ⟨call, phase⟩ := task
        cases phase with
        | drop e =>
          cases hs
          refine pruned_of_not_prunes fun task' hmem => ?_
          obtain ⟨j, hj⟩ := List.getElem?_of_mem hmem
          rw [tasks_setPhase (a := a.dropHandle e) ht] at hj
          split_ifs at hj with hij
          · cases hj
            rfl
          · exact hnone task' (List.mem_of_getElem? hj)
        | _ => cases hdrops
  | retain =>
    obtain ⟨task, ht, hs⟩ := Option.bind_eq_some_iff.mp hs
    obtain ⟨⟨hp, _, horder⟩, hs'⟩ := Option.ite_none_right_eq_some.mp hs
    obtain rfl := Option.some.inj hs'
    refine h.of_moves ht (moves_retain hh.handles ht hp horder) (fun e o hd => ?_)
      fun name e hname hshard hpassed => absurd ?_ hpassed
    · rw [hp] at hd
      cases hd
    · have hmem : name ∈ a.shardNames task.call.name := by
        refine Finset.mem_filter.mpr ⟨?_, hshard⟩
        exact Finmap.mem_keys.mpr (Finmap.mem_of_lookup_eq_some hname)
      exact List.mem_toFinset.mp (horder ▸ hmem)
  | land =>
    obtain ⟨task, ht, hs⟩ := Option.bind_eq_some_iff.mp hs
    obtain ⟨phase, hheld⟩ := heldStep_land ht hs
    exact hheld.pruned h ht
  | fail =>
    obtain ⟨task, ht, hs⟩ := Option.bind_eq_some_iff.mp hs
    obtain ⟨phase, hheld⟩ := heldStep_abandon ht hs
    exact hheld.pruned h ht
  | cancel =>
    obtain ⟨⟨call, phase⟩, ht, hs⟩ := Option.bind_eq_some_iff.mp hs
    cases phase with
    | waiting =>
      cases hs
      exact h.of_moves ht (moves_cancel rfl) (by rintro _ _ ⟨⟩)
        fun _ _ _ _ hpassed => absurd hpassed id
    | _ =>
      obtain ⟨phase, hheld⟩ := heldStep_abandon ht hs
      exact hheld.pruned h ht
  | landLate =>
    obtain ⟨⟨name, by_⟩, hk, rfl⟩ := Option.map_eq_some_iff.mp hs
    exact h
  | crash =>
    cases hs
    exact pruned_of_not_prunes (by rintro _ ⟨⟩)

/-- **A refused call could drop nothing**, in every run in which a call drops its handle only when
no call prunes, if every tracked name is in the shard of the new one. The call `i` stands before its
second look at the ceiling. -/
theorem ceiling_refuses_in_use {shardCount : Nat} {hash : String → UInt64}
    {limits : SequenceLimits} {counters : String → Int}
    (hrun : Reaches step Undisturbed (new shardCount hash limits counters) a)
    (ht : a.tasks[i]? = some task) (hp : task.phase = .recheck)
    (hnames : ∀ name ∈ a.entries.keys, a.shardIndex name = a.shardIndex task.call.name) :
    ∀ name e, a.entries.lookup name = some e → a.InUse e := by
  have hinv : Handled a ∧ Pruned a := by
    refine hrun.invariant (I := fun a => Handled a ∧ Pruned a) ⟨handled_new, ?_⟩ ?_
    · exact pruned_of_not_prunes (by rintro _ ⟨⟩)
    · rintro s action s' _ ⟨hh, h⟩ hok hs
      exact ⟨handled_step hh hs, pruned_step h hh hok hs⟩
  intro name e hname
  have hmem : name ∈ a.entries.keys := Finmap.mem_keys.mpr (Finmap.mem_of_lookup_eq_some hname)
  refine hinv.2 i task ht name e hname (hnames name hmem) ?_
  rw [hp]
  trivial

/-- What `DefaultHasher` makes of four names. Of two shards, `products` is in the second and the
others are in the first. -/
def defaultHash : String → UInt64
  | "orders" => 0xbd845d2265b73990
  | "items" => 0x879f0ce0e7c0d6c9
  | "stock" => 0xd96a5d1811d9ea7d
  | "products" => 0xedf78ba55838d903
  | _ => 0

/-- A reservation of one value leaves nine in the block of `orders`, and one of `items` waits for
its write; a call for `stock` then prunes up to its second look at the ceiling of two names. -/
def pruneLive : List Action :=
  List.flatten [[.call (.reserve "orders" 1)], List.replicate 6 (.run 0), [.land 0],
    List.replicate 5 (.run 0), [.call (.reserve "items" 1)], List.replicate 6 (.run 1),
    [.call (.reserve "stock" 1), .run 2, .run 2, .retain 2 ["items", "orders"]],
    List.replicate 4 (.run 2)]

theorem ceiling_refuses_in_use_live :
    ∃ a task, Reaches step Undisturbed (new 2 defaultHash ⟨10, 2⟩ fun _ => 0) a ∧
      a.tasks[2]? = some task ∧ task.phase = .recheck ∧
      a.limits.maxTrackedNames ≤ a.trackedNames ∧ a.entries.keys = {"orders", "items"} ∧
      ∀ name e, a.entries.lookup name = some e → a.InUse e := by
  obtain ⟨a, hreach, ⟨task, ht, hp, hnames⟩, hceiling, hkeys⟩ :
      ∃ a, Reaches step Undisturbed (new 2 defaultHash ⟨10, 2⟩ fun _ => 0) a ∧
        (∃ task ∈ a.tasks[2]?, task.phase = .recheck ∧
          ∀ name ∈ a.entries.keys, a.shardIndex name = a.shardIndex task.call.name) ∧
        a.limits.maxTrackedNames ≤ a.trackedNames ∧ a.entries.keys = {"orders", "items"} :=
    exists_of_runList pruneLive (by decide +kernel)
  exact ⟨a, task, hreach, ht, hp, hceiling, hkeys, ceiling_refuses_in_use hreach ht hp hnames⟩

/-- The only value of a block of one is taken for `orders` and the call is over; a call for
`products` then prunes its own shard, where there is nothing, up to its second look at the
ceiling. -/
def pruneElsewhere : List Action :=
  List.flatten [[.call (.reserve "orders" 1)], List.replicate 6 (.run 0), [.land 0],
    List.replicate 5 (.run 0),
    [.call (.reserve "products" 1), .run 1, .run 1, .retain 1 [], .run 1]]

/-- **A call is refused beside an entry that could be dropped**: the entry of `orders` is spent and
no call has a handle of it. -/
theorem refused_beside_droppable :
    ∃ a task, Reaches step (fun _ _ => True) (new 2 defaultHash ⟨1, 1⟩ fun _ => 0) a ∧
      a.tasks[1]? = some task ∧ task.phase = .recheck ∧
      a.limits.maxTrackedNames ≤ a.trackedNames ∧
      (a.step (.run 1)).bind (fun a' => a'.tasks[1]?.map Task.phase) = some (.done (.failed
        "sequence allocator is tracking 1 counter names, its configured ceiling")) ∧
      ∃ e, a.entries.lookup "orders" = some e ∧ ¬a.InUse e := by
  obtain ⟨a, hreach, ⟨task, ht, hp, hceiling, hrefused⟩, hlookup, hspent, hidle⟩ :
      ∃ a, Reaches step (fun _ _ => True) (new 2 defaultHash ⟨1, 1⟩ fun _ => 0) a ∧
        (∃ task ∈ a.tasks[1]?, task.phase = .recheck ∧ a.limits.maxTrackedNames ≤ a.trackedNames ∧
          (a.step (.run 1)).bind (fun a' => a'.tasks[1]?.map Task.phase) = some (.done (.failed
            "sequence allocator is tracking 1 counter names, its configured ceiling"))) ∧
        a.entries.lookup "orders" = some 0 ∧ (a.heap 0).state.isSpent = true ∧
        ¬∃ task ∈ a.tasks, task.phase.entry? = some 0 :=
    exists_of_runList pruneElsewhere (by decide +kernel)
  refine ⟨a, task, hreach, ht, hp, hceiling, hrefused, 0, hlookup, ?_⟩
  rintro (hlive | hused)
  · rw [hspent] at hlive
    cases hlive
  · exact hidle hused

end SequenceAllocator

end Fareward.Sequence
