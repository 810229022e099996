import Fareward.Client.Session
import Fareward.Client.Equiv.Grants

/-!
# The in-flight ceiling

The client has a slot for each permit of the daemon, and the requests that wait for their replies
have slots: so, as long as no caller stops waiting, there are at most as many frames without an
answer as there are permits (`Queued`). Two kinds of handlers have a permit and no slot: those that
have replied and not ended, and those of access invalidations, which are not answered.
`never_refused` says that the daemon refuses nothing while neither is about, or there is room for
them; `refused_at_ceiling` shows a run for each of the two in which it refuses a charge.
-/

namespace Fareward.Client

open Service

variable {frame : Frame} {sequence : Bool} {i : Nat} {cut : Option Nat} {opcode : Opcode}
  {payload : List UInt8} {lockAction : UInt16} {identifier : Int64} {reply : Reply}
  {refused : List Nat}

namespace MuxConnection

variable {makePayload : ReleaseRequest → Option (List UInt8)}
variable {conn conn' : MuxConnection} {action : Action} {k : Nat} {call call' : Call}

/-! ### Frames without an answer -/

/-- The frames of a class that went out whole and have no answer yet. -/
def unreplied (conn : MuxConnection) (sequence : Bool) : List Frame :=
  (conn.written.filter fun (frame, cut) => cut = none ∧ frame.opcode.expectsReply ∧
    frame.opcode.isSequence = sequence ∧ frame.sequence ∉ conn.answered).map Prod.fst

theorem mem_unreplied : frame ∈ conn.unreplied sequence ↔
    (frame, none) ∈ conn.written ∧ frame.opcode.expectsReply = true ∧
      frame.opcode.isSequence = sequence ∧ frame.sequence ∉ conn.answered := by
  unfold unreplied
  rw [List.mem_map]
  constructor
  · rintro ⟨⟨frame, cut⟩, hmem, rfl⟩
    obtain ⟨hwritten, hkept⟩ := List.mem_filter.mp hmem
    obtain ⟨rfl, hframe⟩ := of_decide_eq_true hkept
    exact ⟨hwritten, hframe⟩
  · rintro ⟨hwritten, hframe⟩
    exact ⟨(frame, none), List.mem_filter.mpr ⟨hwritten, decide_eq_true ⟨rfl, hframe⟩⟩, rfl⟩

/-- The frames are written in the order of their sequences. -/
theorem Signing.getElem?_written (h : Signing conn) (hi : conn.written[i]? = some (frame, cut)) :
    frame.sequence = i := by
  have hframe : conn.frames[i]? = some frame := by
    obtain ⟨rest, hrest⟩ := h.written_prefix
    have hmap : (conn.written.map Prod.fst)[i]? = some frame := by
      rw [List.getElem?_map, hi]
      rfl
    rw [← hrest, List.getElem?_append_left (List.getElem?_eq_some_iff.mp hmap).1, hmap]
  have hget : (conn.frames.map Frame.sequence)[i]? = some frame.sequence := by
    rw [List.getElem?_map, hframe]
    rfl
  rw [h.numbered] at hget
  obtain ⟨hlt, hget⟩ := List.getElem?_eq_some_iff.mp hget
  rw [← hget, List.getElem_range]

theorem Signing.written_nodup (h : Signing conn) : (conn.written.map Prod.fst).Nodup := by
  have hnodup : (conn.frames.map Frame.sequence).Nodup := h.numbered ▸ List.nodup_range
  exact (List.Nodup.of_map _ hnodup).sublist h.written_prefix.sublist

theorem Signing.unreplied_nodup (h : Signing conn) (sequence : Bool) :
    (conn.unreplied sequence).Nodup :=
  h.written_nodup.sublist (List.filter_sublist.map Prod.fst)

/-! ### Slots -/

/-- No caller has stopped waiting. -/
def Steady (conn : MuxConnection) : Prop :=
  ∀ call ∈ conn.calls, call.abandoned = false ∧ ∀ error, call.phase ≠ .abandoning error

/-- The action is not that of a caller that stops waiting. -/
def Action.isCalm : Action → Bool
  | .run _ (.leaveSlot .cancelled) | .run _ (.leaveSlot .timedOutBeforeSlot)
  | .run _ (.leaveReply .cancelled) | .run _ (.leaveReply .timedOutBeforeReply) => false
  | _ => true

theorem Steady.row (h : Steady conn) (hcalls : conn'.calls = conn.calls.set k call')
    (habandoned : call'.abandoned = false) (hphase : ∀ error, call'.phase ≠ .abandoning error) :
    Steady conn' := by
  intro call hmem
  rw [hcalls] at hmem
  rcases List.mem_or_eq_of_mem_set hmem with hmem | rfl
  · exact h call hmem
  · exact ⟨habandoned, hphase⟩

theorem Steady.spawn (h : Steady conn)
    (hcalls : conn'.calls = conn.calls ++ [Call.new opcode payload lockAction identifier]) :
    Steady conn' := by
  intro call hmem
  rw [hcalls] at hmem
  rcases List.mem_append.mp hmem with hmem | hnew
  · exact h call hmem
  · obtain rfl := List.mem_singleton.mp hnew
    exact ⟨rfl, by cases opcode <;> nofun⟩

theorem Transition.steady (htransition : Transition makePayload conn action conn')
    (hcalm : action.isCalm = true) (h : Steady conn) : Steady conn' := by
  have hkept : ∀ {k : Nat} {call : Call}, conn.calls[k]? = some call → call.abandoned = false :=
    fun hk => (h _ (List.mem_of_getElem? hk)).1
  cases htransition with
  | call | release => exact h.spawn rfl
  | takeSlot hk | leaveSlot hk | exhaust hk | refuse hk | leaveClosed hk | leave hk
  | forgetUnwritten hk | forgetClosed hk | receive hk | enterExchange hk | enterWrite hk =>
    have hclear := hkept hk
    exact h.row rfl hclear nofun
  | fail hk | writeWhole hk | writeCut _ hk =>
    have hclear := hkept hk
    refine h.row rfl hclear fun error => ?_
    dsimp only
    split_ifs <;> nofun
  | deliver _ hk =>
    have hcall := h _ (List.mem_of_getElem? hk)
    exact h.row rfl hcall.1 hcall.2
  | leaveReply _ _ _ herror => rcases herror with rfl | rfl <;> cases hcalm
  | abandon hk _ hp => exact absurd hp ((h _ (List.mem_of_getElem? hk)).2 _)
  | lookup | lookupNone | drop | read | readPush | answer | push | readFail | close => exact h

theorem Transition.maxInflight_eq
    (htransition : Transition makePayload conn action conn') :
    conn'.maxInflight = conn.maxInflight := by
  cases htransition with
  | abandon =>
    rcases abandon_cases (conn.setCall _ _) _ with heq | ⟨i, marked, -, heq⟩
    all_goals
      rw [heq]
      rfl
  | _ => rfl

/-- A step that gives no call a slot. -/
theorem slotsTaken_row (hk : conn.calls[k]? = some call)
    (hcalls : conn'.calls = conn.calls.set k call')
    (hslot : call'.hasSlot = true ∧ call'.opcode.isSequence = sequence →
      call.hasSlot = true ∧ call.opcode.isSequence = sequence) :
    conn'.slotsTaken sequence ≤ conn.slotsTaken sequence := by
  have hadd := countP_set_add (p := fun call : Call => call.hasSlot ∧
    call.opcode.isSequence = sequence) hk call'
  have hle : (decide (call'.hasSlot = true ∧ call'.opcode.isSequence = sequence)).toNat ≤
      (decide (call.hasSlot = true ∧ call.opcode.isSequence = sequence)).toNat := by
    by_cases hnew : call'.hasSlot = true ∧ call'.opcode.isSequence = sequence
    · rw [decide_eq_true (hslot hnew), decide_eq_true hnew]
    · rw [decide_eq_false hnew]
      exact Nat.zero_le _
  unfold slotsTaken
  rw [hcalls]
  omega

theorem slotsTaken_spawn
    (hcalls : conn'.calls = conn.calls ++ [Call.new opcode payload lockAction identifier]) :
    conn'.slotsTaken sequence = conn.slotsTaken sequence := by
  have hnone : (Call.new opcode payload lockAction identifier).hasSlot = false := by
    cases opcode <;> rfl
  unfold slotsTaken
  rw [hcalls, List.countP_append, List.countP_singleton, hnone]
  rfl

theorem hasSlot_of_phase (hreply : call.opcode.expectsReply = true)
    (hslot : call.phase ≠ .slot) (hreturned : ∀ outcome, call.phase ≠ .returned outcome) :
    call.hasSlot = true := by
  unfold Call.hasSlot
  rw [hreply, Bool.true_and]
  split
  · next hp => exact absurd hp hslot
  · next hp => exact absurd hp (hreturned _)
  · rfl

/-- A slot is taken only when one is free. -/
theorem Transition.slotsTaken_le (htransition : Transition makePayload conn action conn')
    (h : conn.slotsTaken sequence ≤ conn.maxInflight) :
    conn'.slotsTaken sequence ≤ conn'.maxInflight := by
  cases htransition with
  | call | release => exact (slotsTaken_spawn rfl).trans_le h
  | @takeSlot k call hk _ _ hfree =>
    by_cases hclass : call.opcode.isSequence = sequence
    · subst hclass
      have hadd := countP_set_add (p := fun c : Call => c.hasSlot ∧
        c.opcode.isSequence = call.opcode.isSequence) hk { call with phase := .entering }
      have hone := Bool.toNat_le (decide (({ call with phase := .entering } : Call).hasSlot ∧
        ({ call with phase := .entering } : Call).opcode.isSequence = call.opcode.isSequence))
      unfold slotsTaken at hfree ⊢
      show ((conn.calls.set k { call with phase := .entering }).countP _) ≤ conn.maxInflight
      omega
    · refine (slotsTaken_row hk rfl ?_).trans h
      rintro ⟨-, hnew⟩
      exact absurd hnew hclass
  | leaveSlot hk | leave hk =>
    refine (slotsTaken_row hk rfl ?_).trans h
    rintro ⟨hnone, -⟩
    unfold Call.hasSlot at hnone
    rw [Bool.and_false] at hnone
    cases hnone
  | exhaust hk hp | enterWrite hk _ hp | writeWhole hk hp | writeCut _ hk hp | fail hk hp =>
    refine (slotsTaken_row hk rfl ?_).trans h
    rintro ⟨hnew, hclass⟩
    refine ⟨hasSlot_of_phase ?_ ?_ ?_, hclass⟩
    · exact (Bool.and_eq_true_iff.mp hnew).1
    all_goals
      rw [hp]
      nofun
  | refuse hk hreply hp | enterExchange hk hreply hp | forgetUnwritten hk hreply hp
  | forgetClosed hk hreply hp | receive hk hreply hp | leaveClosed hk hreply hp
  | leaveReply hk hreply hp =>
    refine (slotsTaken_row hk rfl ?_).trans h
    rintro ⟨-, hclass⟩
    refine ⟨hasSlot_of_phase hreply ?_ ?_, hclass⟩
    all_goals
      rw [hp]
      nofun
  | deliver _ hk =>
    refine (slotsTaken_row hk rfl ?_).trans h
    exact id
  | @abandon k q call error hk hreply hp =>
    have hleft : (conn.setCall k { call with phase := .leaving (.error error) }).slotsTaken
        sequence ≤ conn.maxInflight := by
      refine (slotsTaken_row hk rfl ?_).trans h
      rintro ⟨-, hclass⟩
      refine ⟨hasSlot_of_phase hreply ?_ ?_, hclass⟩
      all_goals
        rw [hp]
        nofun
    rcases abandon_cases (conn.setCall k { call with phase := .leaving (.error error) })
      (correlationOf q) with heq | ⟨i, marked, hi, heq⟩
    · rw [heq]
      exact hleft
    · rw [heq]
      refine (slotsTaken_row hi rfl ?_).trans hleft
      exact id
  | lookup | lookupNone | drop | read | readPush | answer | push | readFail | close => exact h

/-- While the connection is open, a frame without an answer is that of a call with a slot. -/
theorem Sound.unreplied_le_slotsTaken (h : Sound conn) (hsteady : Steady conn)
    (hopen : conn.closed = false) (sequence : Bool) :
    (conn.unreplied sequence).length ≤ conn.slotsTaken sequence := by
  have hsub : conn.unreplied sequence ⊆ (conn.calls.filter fun call =>
      call.hasSlot ∧ call.opcode.isSequence = sequence).filterMap Call.frame? := by
    intro frame hframe
    obtain ⟨hwhole, hreply, hclass, hunanswered⟩ := mem_unreplied.mp hframe
    have hunread : frame.sequence ∉ conn.consumed := fun hmem =>
      hunanswered (h.base.wire.order ▸ List.mem_append_left _ hmem)
    obtain ⟨k, call, frame', hk, hout, hsame⟩ := h.base.exists_outstanding hopen
      (answerable_iff.mpr ⟨frame, hwhole, rfl, hreply⟩) hunread
    have hmem := List.mem_of_getElem? hk
    obtain rfl := h.base.frame_unique (h.base.numbered.placed call hmem frame' hout.1)
      (h.base.mem_frames_of_written hwhole) hsame
    obtain ⟨hsequence, hopcode⟩ := Call.frame?_eq_some hout.1
    refine List.mem_filterMap.mpr ⟨call, List.mem_filter.mpr ⟨hmem, decide_eq_true ⟨?_, ?_⟩⟩,
      hout.1⟩
    · unfold Call.hasSlot
      rw [hopcode, hreply, Bool.true_and]
      split
      · next hp =>
        have hnone := h.base.numbered.fresh call hmem (by rw [hp]; rfl)
        cases hsequence.symm.trans hnone
      · next hp =>
        have hmarked := h.heard.gone hopen k call _ hk hout (by rw [hp]; rfl)
        cases (hsteady call hmem).1.symm.trans hmarked
      · rfl
    · rw [hopcode]
      exact hclass
  calc (conn.unreplied sequence).length
      ≤ ((conn.calls.filter fun call => call.hasSlot ∧
          call.opcode.isSequence = sequence).filterMap Call.frame?).length :=
        (List.subperm_of_subset (h.base.signing.unreplied_nodup sequence) hsub).length_le
    _ ≤ (conn.calls.filter fun call => call.hasSlot ∧ call.opcode.isSequence = sequence).length :=
        List.length_filterMap_le _ _
    _ = conn.slotsTaken sequence := (List.countP_eq_length_filter ..).symm

/-- A frame goes out whole only while the connection is open. -/
theorem Transition.unreplied_le (htransition : Transition makePayload conn action conn')
    (hclosed : conn'.closed = true) (sequence : Bool) :
    (conn'.unreplied sequence).length ≤ (conn.unreplied sequence).length := by
  cases htransition with
  | writeWhole _ _ hopen => cases hopen.symm.trans hclosed
  | writeCut =>
    unfold unreplied
    rw [List.length_map, List.length_map]
    refine (congrArg List.length (List.filter_append ..)).trans_le ?_
    rw [List.length_append]
    exact le_rfl
  | answer =>
    unfold unreplied
    rw [List.length_map, List.length_map, ← List.countP_eq_length_filter,
      ← List.countP_eq_length_filter]
    refine List.countP_mono_left fun w _ hw => ?_
    obtain ⟨hcut, hreply, hclass, hunanswered⟩ := of_decide_eq_true hw
    exact decide_eq_true ⟨hcut, hreply, hclass,
      fun hmem => hunanswered (List.mem_append_left _ hmem)⟩
  | abandon =>
    rcases abandon_cases (conn.setCall _ _) _ with heq | ⟨i, marked, -, heq⟩
    all_goals
      rw [heq]
      exact le_rfl
  | _ => exact le_rfl

/-- As long as no caller stops waiting, the slots bound the frames without an answer. -/
structure Queued (conn : MuxConnection) : Prop where
  sound : Sound conn
  steady : Steady conn
  slots : ∀ sequence, conn.slotsTaken sequence ≤ conn.maxInflight
  unreplied : ∀ sequence, (conn.unreplied sequence).length ≤ conn.maxInflight

theorem Queued.new (nonce : Nonce) (maxInflight : Nat) : Queued (new nonce maxInflight) where
  sound := .new nonce maxInflight
  steady := fun _ hmem => absurd hmem List.not_mem_nil
  slots := fun _ => Nat.zero_le _
  unreplied := fun _ => Nat.zero_le _

theorem Queued.step (h : Queued conn) (hcalm : action.isCalm = true)
    (hs : conn.step makePayload action = some conn') : Queued conn' := by
  have htransition := step_spec hs
  have hsound := h.sound.step hs
  have hsteady := htransition.steady hcalm h.steady
  have hslots := fun sequence => htransition.slotsTaken_le (h.slots sequence)
  refine ⟨hsound, hsteady, hslots, fun sequence => ?_⟩
  cases hclosed : conn'.closed with
  | false => exact (hsound.unreplied_le_slotsTaken hsteady hclosed sequence).trans (hslots sequence)
  | true =>
    rw [htransition.maxInflight_eq]
    exact (htransition.unreplied_le hclosed sequence).trans (h.unreplied sequence)

theorem Transition.answered_eq (htransition : Transition makePayload conn action conn')
    (hother : ∀ sequence reply, action ≠ .answer sequence reply) :
    conn'.answered = conn.answered := by
  cases htransition with
  | answer => exact absurd rfl (hother _ _)
  | abandon =>
    rcases abandon_cases (conn.setCall _ _) _ with heq | ⟨i, marked, -, heq⟩
    all_goals
      rw [heq]
      rfl
  | _ => rfl

theorem step_answer {sequence : Nat}
    (hs : conn.step makePayload (.answer sequence reply) = some conn') :
    conn'.written = conn.written ∧ conn'.answered = conn.answered ++ [sequence] := by
  obtain ⟨-, hs⟩ := Option.ite_none_right_eq_some.mp hs
  cases hs
  exact ⟨rfl, rfl⟩

end MuxConnection

namespace Session

open MuxConnection (Sound Queued unreplied mem_unreplied)

variable {makePayload : ReleaseRequest → Option (List UInt8)}
variable {session session' : Session} {action : Action}

/-! ### What a step can do -/

/-- The frame takes a permit. -/
def needsPermit : Opcode → Bool
  | .logRequest | .lockRelease => false
  | _ => true

inductive Transition (makePayload : ReleaseRequest → Option (List UInt8))
    (session : Session) : Action → Session → Prop
  | client {action : MuxConnection.Action} {client : MuxConnection}
    (hother : ∀ sequence reply, action ≠ .answer sequence reply)
    (hs : session.client.step makePayload action = some client) :
    Transition makePayload session (.client action) { session with client }
  | log {frame : Frame} {reply : Reply}
    (hnext : session.client.written[session.taken]? = some (frame, none))
    (hopcode : needsPermit frame.opcode = false) :
    Transition makePayload session (.take reply)
      { session with taken := session.taken + 1 }
  | release {frame : Frame} {reply : Reply} {client : MuxConnection}
    (hnext : session.client.written[session.taken]? = some (frame, none))
    (hopcode : needsPermit frame.opcode = false)
    (hs : session.client.step makePayload (.answer frame.sequence reply) =
      some client) :
    Transition makePayload session (.take reply)
      { session with client, taken := session.taken + 1 }
  | spawn {frame : Frame} {reply : Reply}
    (hnext : session.client.written[session.taken]? = some (frame, none))
    (hopcode : needsPermit frame.opcode = true)
    (hpermit : session.inflight frame.opcode.isSequence < session.maxInflight) :
    Transition makePayload session (.take reply)
      { session with
        taken := session.taken + 1
        tasks := session.tasks ++ [⟨frame.sequence, frame.opcode, .running⟩] }
  | refuse {frame : Frame} {reply : Reply} {client : MuxConnection}
    (hnext : session.client.written[session.taken]? = some (frame, none))
    (hopcode : needsPermit frame.opcode = true)
    (hpermit : session.maxInflight ≤ session.inflight frame.opcode.isSequence)
    (hs : client = session.client ∨ ∃ answer,
      session.client.step makePayload (.answer frame.sequence answer) = some client) :
    Transition makePayload session (.take reply)
      { session with
        client
        taken := session.taken + 1
        refused := session.refused ++ [frame.sequence] }
  | reply {i : Nat} {task : Task} {reply : Reply} {client : MuxConnection}
    (hi : session.tasks[i]? = some task) (hphase : task.phase = .running)
    (hs : session.client.step makePayload (.answer task.sequence reply) =
      some client) :
    Transition makePayload session (.reply i reply)
      { session with client, tasks := session.tasks.set i { task with phase := .replied } }
  | drop {i : Nat} {task : Task} (hi : session.tasks[i]? = some task)
    (hphase : task.phase = .replied ∨
      task.phase = .running ∧ task.opcode.expectsReply = false) :
    Transition makePayload session (.drop i)
      { session with tasks := session.tasks.set i { task with phase := .ended } }

theorem take_spec (hnext : session.client.written[session.taken]? = some (frame, none))
    (hs : session.take makePayload frame reply = some session') :
    Transition makePayload session (.take reply) session' := by
  unfold take at hs
  split at hs
  · next hlog =>
    cases hs
    exact .log hnext (by rw [hlog]; rfl)
  · next hrelease =>
    obtain ⟨client, hclient, rfl⟩ := Option.map_eq_some_iff.mp hs
    exact .release hnext (by rw [hrelease]; rfl) hclient
  · next hlog hrelease =>
    have hneeds : needsPermit frame.opcode = true := by
      unfold needsPermit
      split
      · next h => exact absurd h hlog
      · next h => exact absurd h hrelease
      · rfl
    dsimp only at hs
    split_ifs at hs with hpermit
    · cases hs
      exact .spawn hnext hneeds hpermit
    · have hfull := Nat.le_of_not_lt hpermit
      split at hs
      · obtain ⟨client, hclient, rfl⟩ := Option.map_eq_some_iff.mp hs
        exact .refuse hnext hneeds hfull (.inr ⟨_, hclient⟩)
      · cases hs
        exact .refuse hnext hneeds hfull (.inl rfl)

theorem step_spec (hs : session.step makePayload action = some session') :
    Transition makePayload session action session' := by
  cases action with
  | client action =>
    have hother : ∀ sequence reply, action ≠ .answer sequence reply := by
      rintro sequence reply rfl
      cases hs
    have hs : (session.client.step makePayload action).map
        (fun client => { session with client }) = some session' := by
      cases action <;> first | exact hs | exact absurd rfl (hother _ _)
    obtain ⟨client, hclient, rfl⟩ := Option.map_eq_some_iff.mp hs
    exact .client hother hclient
  | take =>
    unfold step at hs
    dsimp only at hs
    split at hs
    · next frame hnext => exact take_spec hnext hs
    · cases hs
  | reply =>
    obtain ⟨task, hi, hs⟩ := Option.bind_eq_some_iff.mp hs
    obtain ⟨⟨hphase, -⟩, hs⟩ := Option.ite_none_right_eq_some.mp hs
    obtain ⟨session₁, hanswer, rfl⟩ := Option.map_eq_some_iff.mp hs
    obtain ⟨client, hclient, rfl⟩ := Option.map_eq_some_iff.mp hanswer
    exact .reply hi hphase hclient
  | drop =>
    obtain ⟨task, hi, hs⟩ := Option.bind_eq_some_iff.mp hs
    obtain ⟨hphase, hs⟩ := Option.ite_none_right_eq_some.mp hs
    cases hs
    exact .drop hi hphase

/-! ### Handlers -/

/-- The handlers are for frames that went out, each for its own. -/
structure Ordered (session : Session) : Prop where
  sound : Sound session.client
  tasks_lt : ∀ task ∈ session.tasks, task.sequence < session.taken
  nodup : (session.tasks.map Task.sequence).Nodup
  answered_lt : ∀ sequence ∈ session.client.answered, sequence < session.taken
  accepted : ∀ task ∈ session.tasks, ∃ frame, (frame, none) ∈ session.client.written ∧
    frame.sequence = task.sequence ∧ frame.opcode = task.opcode
  running : ∀ task ∈ session.tasks, task.phase = .running →
    task.sequence ∉ session.client.answered

namespace Ordered

theorem new (nonce : Nonce) (slots maxInflight : Nat) : Ordered (new nonce slots maxInflight) :=
  ⟨.new nonce slots, fun _ hmem => absurd hmem List.not_mem_nil, List.nodup_nil,
    fun _ hmem => absurd hmem List.not_mem_nil, fun _ hmem => absurd hmem List.not_mem_nil,
    fun _ hmem => absurd hmem List.not_mem_nil⟩

/-- The sequence of the frame that the daemon takes next. -/
theorem next_sequence (h : Ordered session)
    (hnext : session.client.written[session.taken]? = some (frame, cut)) :
    frame.sequence = session.taken :=
  h.sound.base.signing.getElem?_written hnext

/-- The loop takes the next frame and answers it itself, if at all. -/
theorem answered {client : MuxConnection} {answer : Reply} (h : Ordered session)
    (hnext : session.client.written[session.taken]? = some (frame, none))
    (hs : session.client.step makePayload (.answer frame.sequence answer) =
      some client) : Ordered { session with client, taken := session.taken + 1, refused } := by
  obtain ⟨hwritten, hanswered⟩ := MuxConnection.step_answer hs
  have hsequence := h.next_sequence hnext
  refine ⟨h.sound.step hs, fun task hmem => Nat.lt_succ_of_lt (h.tasks_lt task hmem), h.nodup,
    fun sequence hmem => ?_, fun task hmem => hwritten ▸ h.accepted task hmem,
    fun task hmem hphase hans => ?_⟩
  · show sequence < session.taken + 1
    rw [hanswered] at hmem
    rcases List.mem_append.mp hmem with hold | hnew
    · exact Nat.lt_succ_of_lt (h.answered_lt sequence hold)
    · rw [List.mem_singleton.mp hnew, hsequence]
      exact Nat.lt_succ_self _
  · rw [hanswered] at hans
    rcases List.mem_append.mp hans with hold | hnew
    · exact h.running task hmem hphase hold
    · have hlt := h.tasks_lt task hmem
      rw [List.mem_singleton.mp hnew, hsequence] at hlt
      exact Nat.lt_irrefl _ hlt

theorem skip (h : Ordered session) :
    Ordered { session with taken := session.taken + 1, refused } :=
  ⟨h.sound, fun task hmem => Nat.lt_succ_of_lt (h.tasks_lt task hmem), h.nodup,
    fun sequence hmem => Nat.lt_succ_of_lt (h.answered_lt sequence hmem), h.accepted, h.running⟩

theorem set {task : Task} {phase : TaskPhase} (h : Ordered session)
    (hi : session.tasks[i]? = some task) (hphase : phase ≠ .running) :
    Ordered { session with tasks := session.tasks.set i { task with phase } } := by
  have hmem := List.mem_of_getElem? hi
  refine ⟨h.sound, fun task₁ hmem₁ => ?_, ?_, h.answered_lt, fun task₁ hmem₁ => ?_,
    fun task₁ hmem₁ hrunning => ?_⟩
  · rcases List.mem_or_eq_of_mem_set hmem₁ with hold | rfl
    · exact h.tasks_lt task₁ hold
    · exact h.tasks_lt task hmem
  · show ((session.tasks.set i { task with phase }).map Task.sequence).Nodup
    have hsame : (session.tasks.map Task.sequence)[i]? = some task.sequence := by
      rw [List.getElem?_map, hi]
      rfl
    rw [List.map_set, set_of_getElem? hsame]
    exact h.nodup
  · rcases List.mem_or_eq_of_mem_set hmem₁ with hold | rfl
    · exact h.accepted task₁ hold
    · exact h.accepted task hmem
  · rcases List.mem_or_eq_of_mem_set hmem₁ with hold | rfl
    · exact h.running task₁ hold hrunning
    · exact absurd hrunning hphase

theorem step (h : Ordered session)
    (htransition : Transition makePayload session action session') :
    Ordered session' := by
  cases htransition with
  | client hother hs =>
    have htransition := MuxConnection.step_spec hs
    have hanswered := htransition.answered_eq hother
    refine ⟨h.sound.step hs, h.tasks_lt, h.nodup, fun sequence hmem => ?_, fun task hmem => ?_,
      fun task hmem hphase => ?_⟩
    · exact h.answered_lt sequence (hanswered ▸ hmem)
    · obtain ⟨frame, hwhole, hframe⟩ := h.accepted task hmem
      exact ⟨frame, htransition.written_subset hwhole, hframe⟩
    · rw [hanswered]
      exact h.running task hmem hphase
  | log => exact h.skip
  | release hnext _ hs => exact h.answered hnext hs
  | refuse hnext _ _ hs =>
    rcases hs with rfl | ⟨answer, hs⟩
    · exact h.skip
    · exact h.answered hnext hs
  | @spawn frame reply hnext =>
    have hsequence := h.next_sequence hnext
    have hnew : frame.sequence ∉ session.tasks.map Task.sequence := by
      intro hmem
      obtain ⟨task, htask, hsame⟩ := List.mem_map.mp hmem
      have hlt := h.tasks_lt task htask
      omega
    refine ⟨h.sound, fun task hmem => ?_, ?_, fun sequence hmem => ?_, fun task hmem => ?_,
      fun task hmem hphase => ?_⟩
    · rcases List.mem_append.mp hmem with hold | hlast
      · exact Nat.lt_succ_of_lt (h.tasks_lt task hold)
      · rw [List.mem_singleton.mp hlast]
        exact hsequence.trans_lt (Nat.lt_succ_self _)
    · show ((session.tasks ++ [_]).map Task.sequence).Nodup
      rw [List.map_append, List.nodup_append]
      refine ⟨h.nodup, List.nodup_singleton _, fun a ha b hb hab => ?_⟩
      obtain rfl : b = frame.sequence := List.mem_singleton.mp hb
      exact hnew (hab ▸ ha)
    · exact Nat.lt_succ_of_lt (h.answered_lt sequence hmem)
    · rcases List.mem_append.mp hmem with hold | hlast
      · exact h.accepted task hold
      · rw [List.mem_singleton.mp hlast]
        exact ⟨frame, List.mem_of_getElem? hnext, rfl, rfl⟩
    · rcases List.mem_append.mp hmem with hold | hlast
      · exact h.running task hold hphase
      · rw [List.mem_singleton.mp hlast]
        intro hans
        exact Nat.lt_irrefl _ (hsequence ▸ h.answered_lt _ hans)
  | @reply i task reply client hi hphase hs =>
    obtain ⟨hwritten, hanswered⟩ := MuxConnection.step_answer hs
    have hdone : TaskPhase.replied ≠ .running := nofun
    have hset := h.set hi hdone
    refine ⟨hset.sound.step hs, hset.tasks_lt, hset.nodup, fun sequence hmem => ?_,
      fun task₁ hmem => hwritten ▸ hset.accepted task₁ hmem, fun task₁ hmem hrunning hans => ?_⟩
    · rw [hanswered] at hmem
      rcases List.mem_append.mp hmem with hold | hnew
      · exact h.answered_lt sequence hold
      · rw [List.mem_singleton.mp hnew]
        exact h.tasks_lt task (List.mem_of_getElem? hi)
    · rw [hanswered] at hans
      rcases List.mem_append.mp hans with hold | hnew
      · exact hset.running task₁ hmem hrunning hold
      · -- each handler has its own sequence
        have hreplied : { task with phase := .replied } ∈
            session.tasks.set i { task with phase := .replied } :=
          List.mem_of_getElem? ((getElem?_set_of_some hi _ i).trans (if_pos rfl))
        obtain rfl := List.inj_on_of_nodup_map hset.nodup hmem hreplied
          (List.mem_singleton.mp hnew)
        cases hrunning
  | drop hi => exact h.set hi nofun

end Ordered

/-! ### The ceiling -/

/-- The handlers of a class that have a permit and whose frames have no slot: they have replied, or
are not to reply. -/
def lingering (session : Session) (sequence : Bool) : Nat :=
  session.tasks.countP fun task => task.opcode.isSequence = sequence ∧
    (task.phase = .replied ∨ task.phase = .running ∧ task.opcode.expectsReply = false)

/-- When the daemon takes a frame that is answered, no handler of its class lingers, or there is
room for the frames of the class without an answer, this one among them, and the handlers that
linger. An access invalidation has no slot and needs room beside them. -/
def roomy (session : Session) : Action → Bool
  | .take _ =>
    match session.client.written[session.taken]? with
    | some (⟨_, opcode, _⟩, none) =>
      !needsPermit opcode || opcode.expectsReply && session.lingering opcode.isSequence = 0 ||
        (session.client.unreplied opcode.isSequence).length + session.lingering opcode.isSequence <
          session.maxInflight + opcode.expectsReply.toNat
    | _ => true
  | _ => true

/-- No exchange times out or is cancelled. -/
def Action.isCalm : Action → Bool
  | .client action => action.isCalm
  | _ => true

/-- The handlers that are to reply, and the frame that is taken next, have no answer. -/
theorem Ordered.inflight_add_le (h : Ordered session)
    (hnext : session.client.written[session.taken]? = some (frame, none)) :
    session.inflight frame.opcode.isSequence + frame.opcode.expectsReply.toNat ≤
      (session.client.unreplied frame.opcode.isSequence).length +
        session.lingering frame.opcode.isSequence := by
  have hsequence := h.next_sequence hnext
  let working := session.tasks.filter fun task => task.opcode.isSequence = frame.opcode.isSequence ∧
    task.phase = .running ∧ task.opcode.expectsReply = true
  have hworking : ∀ task ∈ working, task ∈ session.tasks ∧
      task.opcode.isSequence = frame.opcode.isSequence ∧ task.phase = .running ∧
        task.opcode.expectsReply = true := by
    intro task hmem
    obtain ⟨hmem, htask⟩ := List.mem_filter.mp hmem
    exact ⟨hmem, of_decide_eq_true htask⟩
  have hinflight : session.inflight frame.opcode.isSequence =
      working.length + session.lingering frame.opcode.isSequence := by
    rw [← List.countP_eq_length_filter]
    refine countP_add_of_exclusive fun task _ => ?_
    by_cases hclass : task.opcode.isSequence = frame.opcode.isSequence
    · cases task.phase <;> cases task.opcode.expectsReply <;> simp [hclass]
    · simp [hclass]
  let next := List.replicate frame.opcode.expectsReply.toNat frame.sequence
  have hnodup : (next ++ working.map Task.sequence).Nodup := by
    refine List.nodup_append.mpr ⟨List.nodup_replicate.mpr (Bool.toNat_le _),
      h.nodup.sublist (List.filter_sublist.map _), fun sequence hmem _ htask hsame => ?_⟩
    obtain ⟨task, hworks, rfl⟩ := List.mem_map.mp htask
    have hlt := h.tasks_lt task (hworking task hworks).1
    rw [List.eq_of_mem_replicate hmem] at hsame
    omega
  have hsub : next ++ working.map Task.sequence ⊆
      (session.client.unreplied frame.opcode.isSequence).map Frame.sequence := by
    intro sequence hmem
    rcases List.mem_append.mp hmem with hmem | hmem
    · obtain ⟨hreply, rfl⟩ := List.mem_replicate.mp hmem
      refine List.mem_map_of_mem (mem_unreplied.mpr ⟨List.mem_of_getElem? hnext, ?_, rfl, ?_⟩)
      · exact Bool.eq_true_of_not_eq_false fun hnone => hreply (congrArg Bool.toNat hnone)
      · exact fun hans => Nat.lt_irrefl _ (hsequence ▸ h.answered_lt _ hans)
    · obtain ⟨task, htask, rfl⟩ := List.mem_map.mp hmem
      obtain ⟨hmem, hclass, hphase, hexpects⟩ := hworking task htask
      obtain ⟨frame', hwhole, hsame, hopcode⟩ := h.accepted task hmem
      rw [← hsame]
      refine List.mem_map_of_mem (mem_unreplied.mpr ⟨hwhole, hopcode ▸ hexpects, hopcode ▸ hclass,
        ?_⟩)
      rw [hsame]
      exact h.running task hmem hphase
  have hlength := (List.subperm_of_subset hnodup hsub).length_le
  rw [List.length_append, List.length_replicate, List.length_map, List.length_map] at hlength
  omega

/-- What a run keeps while no caller stops waiting. -/
structure Unrefused (session : Session) : Prop where
  ordered : Ordered session
  queued : Queued session.client
  ceiling : session.client.maxInflight = session.maxInflight
  refused : session.refused = []

theorem Unrefused.step (h : Unrefused session) (hcalm : action.isCalm = true)
    (hroomy : session.roomy action = true)
    (htransition : Transition makePayload session action session') :
    Unrefused session' := by
  have hordered := h.ordered.step htransition
  have hclient : ∀ {action : MuxConnection.Action} {client : MuxConnection},
      action.isCalm = true →
      session.client.step makePayload action = some client →
      Queued client ∧ client.maxInflight = session.maxInflight := by
    intro action client hcalm hs
    exact ⟨h.queued.step hcalm hs,
      (MuxConnection.step_spec hs).maxInflight_eq.trans h.ceiling⟩
  cases htransition with
  | client _ hs =>
    obtain ⟨hqueued, hceiling⟩ := hclient hcalm hs
    exact ⟨hordered, hqueued, hceiling, h.refused⟩
  | log | spawn | drop => exact ⟨hordered, h.queued, h.ceiling, h.refused⟩
  | release _ _ hs | reply _ _ hs =>
    obtain ⟨hqueued, hceiling⟩ := hclient rfl hs
    exact ⟨hordered, hqueued, hceiling, h.refused⟩
  | @refuse frame reply client hnext hneeds =>
    -- there is a permit
    exfalso
    have hadd := h.ordered.inflight_add_le hnext
    have hunreplied := h.queued.unreplied frame.opcode.isSequence
    rw [h.ceiling] at hunreplied
    unfold roomy at hroomy
    dsimp only at hroomy
    rw [hnext] at hroomy
    simp only [hneeds, Bool.not_true, Bool.false_or, Bool.or_eq_true, Bool.and_eq_true,
      decide_eq_true_eq] at hroomy
    rcases hroomy with ⟨hreply, hlingering⟩ | hroom
    · rw [hreply, hlingering, Bool.toNat_true] at hadd
      omega
    · omega

/-- **The in-flight ceiling.** The client has as many slots as the daemon has permits, no exchange
times out or is cancelled, and whenever the daemon takes a frame no handler of its class has replied
without having ended or works for an access invalidation, or there is room for those that do: then
no frame is ever refused. -/
theorem never_refused {nonce : Nonce} {maxInflight : Nat}
    (hreach : Reaches (step makePayload)
      (fun session action => action.isCalm = true ∧ session.roomy action = true)
      (new nonce maxInflight maxInflight) session) :
    session.refused = [] := by
  have hinv : Unrefused session := by
    refine hreach.invariant (I := Unrefused)
      ⟨.new nonce maxInflight maxInflight, .new nonce maxInflight, rfl, rfl⟩ ?_
    rintro session action session' - hsession ⟨hcalm, hroomy⟩ hs
    exact hsession.step hcalm hroomy (step_spec hs)
  exact hinv.refused

open MuxConnection (sampleNonce samplePayload)

/-- A charge that is written whole by call `k`. -/
def chargeWritten (k : Nat) : List Action :=
  [.client (.call .chargeCredits (samplePayload .chargeCredits) 0 0), .client (.run k .takeSlot),
    .client (.run k .enter), .client (.run k (.write none))]

/-- An access invalidation is being handled when the charge is taken. -/
def chargeBehindInvalidation : List Action :=
  [.client (.call .invalidateUserAccess (samplePayload .invalidateUserAccess) 0 0),
    .client (.run 0 .enter),
    .client (.run 0 (.write none))] ++ chargeWritten 1 ++ [.take .ack, .take .ack]

/-- With two permits there is room for both. -/
theorem never_refused_charge : ∃ session,
    Reaches (step fun _ => none)
      (fun session action => action.isCalm = true ∧ session.roomy action = true)
      (new sampleNonce 2 2) session ∧
    session.tasks = [⟨0, .invalidateUserAccess, .running⟩, ⟨1, .chargeCredits, .running⟩] ∧
    session.refused = [] := by
  exact exists_and_of_runList chargeBehindInvalidation (by decide +kernel)
    fun _ hreach _ => never_refused hreach

/-- The second charge is taken before the handler of the first, which has replied, ends. -/
def chargeBehindReply : List Action :=
  chargeWritten 0 ++
    [.take .ack, .reply 0 .chargeAllowed, .client (.reader .read), .client (.reader .lookup),
      .client (.reader .deliver), .client (.run 0 .receive), .client (.run 0 .leave)] ++
    chargeWritten 1 ++ [.take .ack]

/-- With one slot and one permit, the daemon refuses a charge in either run. -/
theorem refused_at_ceiling : ∃ session session',
    Reaches (step fun _ => none) (fun _ action => action.isCalm = true)
      (new sampleNonce 1 1) session ∧ session.refused = [1] ∧
    Reaches (step fun _ => none) (fun _ action => action.isCalm = true)
      (new sampleNonce 1 1) session' ∧ session'.refused = [1] := by
  have hrun (actions : List Action) (h : ∃ session ∈ runList (step fun _ => none)
      (fun _ action => action.isCalm = true) (new sampleNonce 1 1) actions,
        session.refused = [1]) := exists_of_runList actions h
  obtain ⟨session, h⟩ := hrun chargeBehindInvalidation (by decide +kernel)
  obtain ⟨session', h'⟩ := hrun chargeBehindReply (by decide +kernel)
  exact ⟨session, session', h.1, h.2, h'⟩

end Session

end Fareward.Client
