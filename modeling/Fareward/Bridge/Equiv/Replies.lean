import Fareward.Bridge.Equiv.Registry

/-!
# The waiters for replies

The table of pending replies is keyed by an id that the caller chooses, and an entry is taken out by
its id alone. So when two calls on one channel have the same id, the second drops the sender of the
first, and the first to finish takes out whatever entry there is
(`waiter_ended_by_another_call`).

`Unique` says that no two calls between their registration and their release share a channel and an
id, and that an entry belongs to the one that has its id. Every step keeps it but a registration,
which keeps it if the id is free (`FreeId`).
-/

namespace Fareward.Bridge.World

variable {w w' : World} {i j c t : ℕ} {id : UInt64} {call : Call} {phase : Phase}
  {action : Action} {fate : Fate} {heap' : ℕ → ClientChannel} {tasks' : ℕ → Task}
  {waiters : List ℕ} {signal : Signal Unit}

theorem call_spawn (w : World) (call : Call) (h : j ≠ w.spawned) :
    ((w.spawn call).tasks j).call = (w.tasks j).call := by
  simp [spawn, h]

/-- The entry of an id in the table of a channel. -/
def pending (w : World) (c : ℕ) (id : UInt64) : Option ℕ := (w.heap c).pendingReplies.lookup id

/-- Task `i` is between its registration on the channel and its release. -/
def Replying (w : World) (i c : ℕ) (id : UInt64) : Prop :=
  (w.tasks i).phase.repliesOn = some c ∧ (w.tasks i).call.id = id

theorem Replying.lt_spawned (h : w.Replying i c id) (hb : w.Bounded) : i < w.spawned := by
  by_contra hle
  have hphase := h.1
  rw [hb.unspawned i (not_lt.mp hle)] at hphase
  cases hphase

/-! ### Steps as seen from the tables -/

/-- Entries are of channels that exist. -/
def Entered (w : World) : Prop := ∀ c id t, w.pending c id = some t → c < w.allocated

/-- What a step does, as far as the tables are concerned. -/
inductive TableStep (w : World) : Action → World → Prop
  | same {action : Action} {w' : World} (hpending : ∀ c id, w'.pending c id = w.pending c id)
      (hreplying : ∀ j c id, w'.Replying j c id ↔ w.Replying j c id ∧ action ≠ .cancel j) :
      TableStep w action w'
  /-- The channel is closed or replaced. -/
  | failed {i c : ℕ} {fate : Fate} {w' : World}
      (hphase : (w.tasks i).phase = .failing c ∨
        ∃ d waiters, (w.tasks i).phase = .failingPrevious d c waiters)
      (hpending : ∀ c' id, w'.pending c' id = if c' = c then none else w.pending c' id)
      (hreplying : ∀ j c id, w'.Replying j c id ↔ w.Replying j c id) :
      TableStep w (.run i fate) w'
  | added {i c : ℕ} {fate : Fate} {w' : World} (hphase : (w.tasks i).phase = .awaitingReply c)
      (hpending : ∀ c' id, w'.pending c' id =
        if c' = c ∧ id = (w.tasks i).call.id then some i else w.pending c' id)
      (hreplying : ∀ j c' id, w'.Replying j c' id ↔
        w.Replying j c' id ∨ j = i ∧ c' = c ∧ id = (w.tasks i).call.id) :
      TableStep w (.run i fate) w'
  | released {i c : ℕ} {fate : Fate} {response : Response} {w' : World}
      (hphase : (w.tasks i).phase = .releasing c response)
      (hpending : ∀ c' id, w'.pending c' id =
        if c' = c ∧ id = (w.tasks i).call.id then none else w.pending c' id)
      (hreplying : ∀ j c' id, w'.Replying j c' id ↔ w.Replying j c' id ∧ j ≠ i) :
      TableStep w (.run i fate) w'
  | delivered {i c : ℕ} {fate : Fate} {key : String} {id : UInt64} {envelope : ReplyEnvelope}
      {w' : World} (hphase : (w.tasks i).phase = .delivering c)
      (hcall : (w.tasks i).call = .inbound key id envelope)
      (hreply : ∀ t, w.pending c id = some t → (w'.tasks t).reply = .sent envelope)
      (hpending : ∀ c' id', w'.pending c' id' =
        if c' = c ∧ id' = id then none else w.pending c' id')
      (hreplying : ∀ j c id, w'.Replying j c id ↔ w.Replying j c id) :
      TableStep w (.run i fate) w'

/-- A task that goes on between its registration and its release, or outside of it. -/
theorem Goes.replying_iff (htasks : Goes w.tasks w'.tasks i phase waiters signal)
    (hreplies : phase.repliesOn = (w.tasks i).phase.repliesOn) (j c : ℕ) (id : UInt64) :
    w'.Replying j c id ↔ w.Replying j c id := by
  unfold Replying
  rw [htasks.call]
  rcases htasks.cases j with ⟨rfl, hj⟩ | ⟨-, hj⟩
  · rw [hj, hreplies]
  · rw [hj]

theorem replying_run (hreplying : ∀ j c id, w'.Replying j c id ↔ w.Replying j c id) (i : ℕ)
    (fate : Fate) (j c : ℕ) (id : UInt64) :
    w'.Replying j c id ↔ w.Replying j c id ∧ Action.run i fate ≠ .cancel j :=
  (hreplying j c id).trans (and_iff_left nofun).symm

/-- A step of one task that changes no table. -/
theorem tableStep_run {from_ : Phase} (hphase : (w.tasks i).phase = from_)
    (htables : SameTables w.heap w'.heap)
    (htasks : Goes w.tasks w'.tasks i phase waiters signal)
    (hreplies : phase.repliesOn = from_.repliesOn) : TableStep w (.run i fate) w' :=
  .same (fun c id => congrArg (Finmap.lookup id) (htables c))
    (replying_run (htasks.replying_iff (hphase ▸ hreplies)) i fate)

theorem lookup_erase_eq (table : Finmap fun _ : UInt64 => ℕ) (id id' : UInt64) :
    (table.erase id).lookup id' = if id' = id then none else table.lookup id' := by
  split_ifs with h
  · rw [h, Finmap.lookup_erase]
  · exact Finmap.lookup_erase_ne h

theorem pending_erase (htables : Tables w.heap w'.heap c ((w.heap c).pendingReplies.erase id))
    (c' : ℕ) (id' : UInt64) :
    w'.pending c' id' = if c' = c ∧ id' = id then none else w.pending c' id' := by
  unfold pending
  rw [htables c']
  by_cases hc : c' = c
  · subst hc
    rw [if_pos rfl, lookup_erase_eq]
    by_cases hid : id' = id <;> simp [hid]
  · rw [if_neg hc, if_neg fun h => hc h.1]

theorem pending_clear (htables : Tables w.heap w'.heap c ∅) (c' : ℕ) (id : UInt64) :
    w'.pending c' id = if c' = c then none else w.pending c' id := by
  unfold pending
  rw [htables c']
  split_ifs
  · exact Finmap.lookup_empty id
  · rfl

theorem Steps.tableStep (h : Steps w action w') (hb : w.Bounded) (hentered : w.Entered) :
    TableStep w action w' := by
  cases h with
  | @spawned _ call heap' haction hheap htables =>
    refine .same (fun c id => congrArg (Finmap.lookup id) (htables c)) fun j c id => ?_
    rw [and_iff_left (haction j)]
    unfold Replying
    rw [phase_spawn]
    split_ifs with hj
    · -- the task did not exist before
      subst hj
      have hgone : (w.tasks w.spawned).phase = .gone := hb.unspawned w.spawned le_rfl
      rw [(start_spec call).2.2.1, hgone]
      exact iff_of_false (fun h => nomatch h.1) fun h => nomatch h.1
    · rw [call_spawn _ call hj]
  | polled hheap htables =>
    exact .same (fun c id => congrArg (Finmap.lookup id) (htables c))
      fun j c id => (and_iff_left nofun).symm
  | @cancelled i heap' tasks' hawait hheap htables htasks =>
    refine .same (fun c id => congrArg (Finmap.lookup id) (htables c)) fun j c id => ?_
    unfold Replying
    dsimp only
    rw [htasks.call]
    rcases htasks.cases j with ⟨rfl, hj⟩ | ⟨hne, hj⟩
    · rw [hj]
      exact iff_of_false (fun h => nomatch h.1) fun h => h.2 rfl
    · rw [hj]
      refine (and_iff_left fun heq => hne ?_).symm
      injection heq with heq
      exact heq.symm
  | moved hheap htables htasks hmoves => exact tableStep_run rfl htables htasks hmoves.repliesOn
  | @opened i fate tasks' hphase htasks =>
    refine .same (fun c id => ?_) (replying_run (htasks.replying_iff ?_) i fate)
    · unfold pending
      dsimp only
      by_cases hc : c = w.allocated
      · subst hc
        rw [Function.update_self]
        refine (Finmap.lookup_empty id).trans ?_
        cases hold : w.pending w.allocated id with
        | none => exact hold.symm
        | some t => exact absurd (hentered _ id t hold) (lt_irrefl _)
      · rw [Function.update_of_ne hc]
    · rw [hphase, repliesOn_afterOpen]
      rfl
  | evicted hphase hheap htables htasks | flagged hphase hheap htables htasks =>
    exact tableStep_run hphase htables htasks rfl
  | failedPrevious hphase hheap htables htasks =>
    exact .failed (.inr ⟨_, _, hphase⟩) (pending_clear htables)
      (htasks.replying_iff (by rw [hphase]; rfl))
  | woke hphase htasks | closed hphase htasks | registered hphase hfind htasks
  | expired hphase htasks => exact tableStep_run hphase (fun _ => rfl) htasks rfl
  | failed hphase hheap htables htasks =>
    exact .failed (.inl hphase) (pending_clear htables)
      (htasks.replying_iff (by rw [hphase]; rfl))
  | @replyAdded i c fate heap' tasks' hphase hheap htables htasks =>
    refine .added hphase (fun c' id => ?_) fun j c' id => ?_
    · unfold pending
      dsimp only
      rw [htables c']
      by_cases hc : c' = c
      · subst hc
        rw [if_pos rfl, lookup_insert_eq, lookup_erase_eq]
        by_cases hid : id = (w.tasks i).call.id <;> simp [hid]
      · rw [if_neg hc, if_neg fun h => hc h.1]
    · unfold Replying
      dsimp only
      rw [htasks.call]
      rcases htasks.cases j with ⟨rfl, hj⟩ | ⟨hne, hj⟩
      · rw [hj, hphase]
        refine ⟨fun h => .inr ⟨rfl, (Option.some.inj h.1).symm, h.2.symm⟩, ?_⟩
        rintro (h | ⟨-, rfl, rfl⟩)
        · cases h.1
        · exact ⟨rfl, rfl⟩
      · rw [hj]
        exact (or_iff_left fun h => hne h.1).symm
  | @released i c fate response heap' tasks' hphase hheap htables htasks =>
    refine .released hphase (pending_erase htables) fun j c' id => ?_
    unfold Replying
    dsimp only
    rw [htasks.call]
    rcases htasks.cases j with ⟨rfl, hj⟩ | ⟨hne, hj⟩
    · rw [hj]
      exact iff_of_false (fun h => nomatch h.1) fun h => h.2 rfl
    · rw [hj]
      exact (and_iff_left hne).symm
  | delivered hphase hcall hreply hheap htables htasks =>
    exact .delivered hphase hcall hreply (pending_erase htables)
      (htasks.replying_iff (by rw [hphase]; rfl))

theorem entered_step (h : w.Entered) (hb : w.Bounded) (hs : w.step action = some w') :
    w'.Entered := by
  have hle : w.allocated ≤ w'.allocated := by
    cases step_spec hs <;> first | exact le_rfl | exact Nat.le_succ _
  intro c id t ht
  refine lt_of_lt_of_le ?_ hle
  cases (step_spec hs).tableStep hb h with
  | same hpending => exact h c id t (hpending c id ▸ ht)
  | failed hphase hpending | released hphase hpending | delivered hphase hcall hreply hpending =>
    rw [hpending] at ht
    split_ifs at ht
    exact h c id t ht
  | @added i c₁ fate w' hphase hpending =>
    rw [hpending] at ht
    split_ifs at ht with hc
    · obtain ⟨rfl, -⟩ := hc
      exact hb.held i c (by rw [hphase]; exact List.mem_cons_self)
    · exact h c id t ht

/-! ### Ids that are free -/

instance (w : World) (i c : ℕ) (id : UInt64) : Decidable (w.Replying i c id) :=
  inferInstanceAs (Decidable (_ ∧ _))

/-- The task that registers for a reply in the step, and the channel. -/
def registers (w : World) : Action → Option (ℕ × ℕ)
  | .run i _ =>
    match (w.tasks i).phase with
    | .awaitingReply c => some (i, c)
    | _ => none
  | _ => none

/-- A call registers only under an id that is free on the channel: there is no entry under it, and
no other call with it is between its registration and its release. -/
def FreeId (w : World) (action : Action) : Prop :=
  ∀ r ∈ w.registers action, w.pending r.2 (w.tasks r.1).call.id = none ∧
    ∀ j < w.spawned, ¬ w.Replying j r.2 (w.tasks r.1).call.id

instance (w : World) (action : Action) : Decidable (w.FreeId action) :=
  inferInstanceAs (Decidable (∀ _ ∈ _, _))

theorem FreeId.free (hok : w.FreeId (.run i fate))
    (hphase : (w.tasks i).phase = .awaitingReply c) :
    w.pending c (w.tasks i).call.id = none ∧
      ∀ j < w.spawned, ¬ w.Replying j c (w.tasks i).call.id := by
  refine hok (i, c) ?_
  dsimp only [registers]
  rw [hphase]
  rfl

/-- The calls between registration and release have different ids on a channel, and an entry is of
the one that has its id. -/
structure Unique (w : World) : Prop where
  replying : ∀ c id i j, w.Replying i c id → w.Replying j c id → i = j
  pending : ∀ c id t i, w.pending c id = some t → w.Replying i c id → i = t

theorem unique_new : new.Unique where
  replying _ _ _ _ h := nomatch h.1
  pending _ _ _ _ _ h := nomatch h.1

/-- Entries and calls may go. -/
theorem Unique.mono (h : w.Unique)
    (hpending : ∀ c id t, w'.pending c id = some t → w.pending c id = some t)
    (hreplying : ∀ i c id, w'.Replying i c id → w.Replying i c id) : w'.Unique where
  replying c id i j hi hj := h.replying c id i j (hreplying i c id hi) (hreplying j c id hj)
  pending c id t i ht hi := h.pending c id t i (hpending c id t ht) (hreplying i c id hi)

theorem Unique.step (h : w.Unique) (hb : w.Bounded) (hok : w.FreeId action)
    (ht : TableStep w action w') : w'.Unique := by
  cases ht with
  | same hpending hreplying =>
    exact h.mono (fun c id t ht => hpending c id ▸ ht) fun i c id hi => ((hreplying i c id).mp hi).1
  | failed hphase hpending hreplying | delivered hphase hcall hreply hpending hreplying =>
    refine h.mono (fun c id t ht => ?_) fun i c id hi => (hreplying i c id).mp hi
    rw [hpending] at ht
    split_ifs at ht
    exact ht
  | @added i c fate w' hphase hpending hreplying =>
    obtain ⟨-, hfree⟩ := hok.free hphase
    -- nobody else replies on this channel with this id
    have hnone : ∀ j, ¬ w.Replying j c (w.tasks i).call.id :=
      fun j hj => hfree j (hj.lt_spawned hb) hj
    refine ⟨fun c' id j₁ j₂ h₁ h₂ => ?_, fun c' id t j htable hj => ?_⟩
    · rcases (hreplying j₁ c' id).mp h₁ with h₁ | ⟨rfl, rfl, rfl⟩
      · rcases (hreplying j₂ c' id).mp h₂ with h₂ | ⟨rfl, rfl, rfl⟩
        · exact h.replying c' id j₁ j₂ h₁ h₂
        · exact absurd h₁ (hnone j₁)
      · rcases (hreplying j₂ c' _).mp h₂ with h₂ | ⟨rfl, -⟩
        · exact absurd h₂ (hnone j₂)
        · rfl
    · rw [hpending] at htable
      split_ifs at htable with hc
      · cases htable
        obtain ⟨rfl, rfl⟩ := hc
        rcases (hreplying j c' _).mp hj with hj | ⟨rfl, -⟩
        · exact absurd hj (hnone j)
        · rfl
      · rcases (hreplying j c' id).mp hj with hj | ⟨-, hc', hid⟩
        · exact h.pending c' id t j htable hj
        · exact absurd ⟨hc', hid⟩ hc
  | released hphase hpending hreplying =>
    refine h.mono (fun c id t ht => ?_) fun i c id hi => ((hreplying i c id).mp hi).1
    rw [hpending] at ht
    split_ifs at ht
    exact ht

theorem entered_new : new.Entered := fun c id t h => by
  rw [pending, new, ClientChannel.new, Finmap.lookup_empty] at h
  cases h

theorem entered_of_reaches {ok : World → Action → Prop} (h : Reaches World.step ok new w) :
    w.Entered :=
  h.invariant (I := Entered) entered_new fun _ _ _ hreach hentered _ hs =>
    entered_step hentered (inv_of_reaches hreach).bounded hs

theorem unique_of_reaches (h : Reaches World.step FreeId new w) : w.Unique :=
  h.invariant (I := Unique) unique_new fun _ _ _ hreach hunique hok hs =>
    hunique.step (inv_of_reaches hreach).bounded hok
      ((step_spec hs).tableStep (inv_of_reaches hreach).bounded (entered_of_reaches hreach))

/-! ### What ends a waiter -/

/-- The waiter of call `t` is ended by the call itself, which releases it, by a reply with its id,
which it gets, or because its channel was closed or replaced. -/
def OwnEvent (w : World) (action : Action) (w' : World) (c : ℕ) (id : UInt64) (t : ℕ) : Prop :=
  (∃ fate response, action = .run t fate ∧ (w.tasks t).phase = .releasing c response) ∨
  (∃ i fate key envelope, action = .run i fate ∧ (w.tasks i).call = .inbound key id envelope ∧
    (w.tasks i).phase = .delivering c ∧ (w'.tasks t).reply = .sent envelope) ∨
  ∃ i fate, action = .run i fate ∧ ((w.tasks i).phase = .failing c ∨
    ∃ d waiters, (w.tasks i).phase = .failingPrevious d c waiters)

/-- **A waiter is ended by its own events only**, in every run in which calls register under ids
that are free: a step after which the entry of a call is no longer there is one of the call itself,
of a reply with its id that it gets, or of the closing of its channel. -/
theorem waiter_ended_by_own_event (h : Reaches World.step FreeId new w) (hok : w.FreeId action)
    (hs : w.step action = some w') (hbefore : w.pending c id = some t)
    (hafter : w'.pending c id ≠ some t) : w.OwnEvent action w' c id t := by
  have hb := (inv_of_reaches h).bounded
  cases (step_spec hs).tableStep hb (entered_of_reaches h) with
  | same hpending => exact absurd ((hpending c id).trans hbefore) hafter
  | @failed i c₁ fate w' hphase hpending =>
    rw [hpending] at hafter
    split_ifs at hafter with hc
    · subst hc
      exact .inr (.inr ⟨i, fate, rfl, hphase⟩)
    · exact absurd hbefore hafter
  | @added i c₁ fate w' hphase hpending =>
    rw [hpending] at hafter
    split_ifs at hafter with hc
    · -- the id is not free
      obtain ⟨rfl, rfl⟩ := hc
      have hfree := (hok.free hphase).1
      rw [hbefore] at hfree
      cases hfree
    · exact absurd hbefore hafter
  | @released i c₁ fate response w' hphase hpending =>
    rw [hpending] at hafter
    split_ifs at hafter with hc
    · obtain ⟨rfl, rfl⟩ := hc
      have hi : w.Replying i c (w.tasks i).call.id := ⟨by rw [hphase]; rfl, rfl⟩
      obtain rfl := (unique_of_reaches h).pending c _ t i hbefore hi
      exact .inl ⟨fate, response, rfl, hphase⟩
    · exact absurd hbefore hafter
  | @delivered i c₁ fate key id₁ envelope w' hphase hcall hreply hpending =>
    rw [hpending] at hafter
    split_ifs at hafter with hc
    · obtain ⟨rfl, rfl⟩ := hc
      exact .inr (.inl ⟨i, fate, key, envelope, rfl, hcall, hphase, hreply t hbefore⟩)
    · exact absurd hbefore hafter

/-- A tab is connected and a call with id 9 has registered on it. -/
def callRun : List Action :=
  .spawn (.stream "tab") :: openRun 0 ++
    [.spawn (.rpc "tab" 9 "command" 0 0), .run 1 .go, .run 1 .go]

/-- A call with id 8 is under way on the channel when the one with id 9 has timed out. -/
theorem waiter_ended_by_own_event_timeout :
    ∃ w w' : World, w.pending 0 9 = some 1 ∧ w'.pending 0 9 = none ∧ w'.pending 0 8 = some 2 ∧
      w.OwnEvent (.run 1 .go) w' 0 9 1 := by
  obtain ⟨w, hreach, hbefore, hok, w', hs, hafter, hother⟩ : ∃ w, Reaches World.step FreeId new w ∧
      w.pending 0 9 = some 1 ∧ w.FreeId (.run 1 .go) ∧
      ∃ w' ∈ w.step (.run 1 .go), w'.pending 0 9 = none ∧ w'.pending 0 8 = some 2 :=
    exists_of_runList (callRun ++ [.spawn (.rpc "tab" 8 "other" 0 0), .run 2 .go, .run 2 .go,
      .run 1 .go, .run 1 .expire]) (by decide +kernel)
  exact ⟨w, w', hbefore, hafter, hother,
    waiter_ended_by_own_event hreach hok hs hbefore (by rw [hafter]; nofun)⟩

/-- **Another call ends a waiter.** A second call with the same id registers on the channel, and
the entry of the first is gone. -/
theorem waiter_ended_by_another_call :
    ∃ (w w' : World) (action : Action) (c : ℕ) (id : UInt64) (t : ℕ),
      Reaches World.step (fun _ _ => True) new w ∧ w.step action = some w' ∧
      w.pending c id = some t ∧ w'.pending c id ≠ some t ∧ ¬ w.OwnEvent action w' c id t := by
  obtain ⟨w, hreach, hbefore, hcall, hphase, w', hs, hafter⟩ :
      ∃ w, Reaches World.step (fun _ _ => True) new w ∧ w.pending 0 9 = some 1 ∧
        (w.tasks 2).call = .rpc "tab" 9 "other" 0 0 ∧ (w.tasks 2).phase = .awaitingReply 0 ∧
        ∃ w' ∈ w.step (.run 2 .go), w'.pending 0 9 ≠ some 1 :=
    exists_of_runList (callRun ++ [.spawn (.rpc "tab" 9 "other" 0 0), .run 2 .go])
      (by decide +kernel)
  refine ⟨w, w', .run 2 .go, 0, 9, 1, hreach, hs, hbefore, hafter, ?_⟩
  rintro (⟨fate, response, haction, -⟩ | ⟨i, fate, key, envelope, haction, hinbound, -⟩ |
    ⟨i, fate, haction, hfailing⟩)
  · cases haction
  · cases haction
    cases hcall.symm.trans hinbound
  · cases haction
    rw [hphase] at hfailing
    rcases hfailing with h | ⟨_, _, h⟩ <;> cases h

end Fareward.Bridge.World
