import Fareward.Client.Equiv.Stream

/-!
# The calls of a connection

Each signed frame is the frame of one call (`Numbered`), and the phase of a call says how far its
frame has come (`Staged`): it is not out whole while the call writes or has failed to, and it is out
whole once the call waits for the reply.
-/

namespace Fareward.Client

open Service

variable {frame : Frame} {sequence : Nat} {opcode : Opcode} {payload : List UInt8} {action : UInt16}
  {identifier : Int64} {phase : CallPhase}

theorem Call.frame?_eq_some {call : Call} (h : call.frame? = some frame) :
    call.sequence = some frame.sequence ∧ call.opcode = frame.opcode := by
  obtain ⟨sequence, hsequence, rfl⟩ := Option.map_eq_some_iff.mp h
  exact ⟨hsequence, rfl⟩

theorem Call.frame?_of_sequence {call : Call} (h : call.sequence = some sequence) :
    call.frame? = some ⟨sequence, call.opcode, call.payload⟩ := by
  unfold Call.frame?
  rw [h]
  rfl

/-- The call has not taken its sequence. -/
def CallPhase.isFresh : CallPhase → Bool
  | .slot | .entering => true
  | _ => false

/-- The call has its sequence, and its frame is not out whole. -/
def CallPhase.isUnsent : CallPhase → Bool
  | .writing | .unwritten => true
  | _ => false

/-- The frame is out whole and the call has not returned yet. -/
def CallPhase.isSent : CallPhase → Bool
  | .waiting | .forgetting | .abandoning _ => true
  | _ => false

namespace MuxConnection

variable {makePayload : ReleaseRequest → Option (List UInt8)}
variable {conn conn' : MuxConnection} {k : Nat} {call call' : Call}

/-! ### Frames and calls -/

structure Numbered (conn : MuxConnection) : Prop where
  fresh : ∀ call ∈ conn.calls, call.phase.isFresh = true → call.sequence = none
  placed : ∀ call ∈ conn.calls, ∀ frame, call.frame? = some frame → frame ∈ conn.frames
  owner : ∀ frame ∈ conn.frames, ∃ (k : Nat) (call : Call),
    conn.calls[k]? = some call ∧ call.frame? = some frame
  distinct : ∀ (k k' : Nat) (call call' : Call) (frame : Frame), conn.calls[k]? = some call →
    conn.calls[k']? = some call' → call.frame? = some frame → call'.frame? = some frame → k = k'

namespace Numbered

theorem new (nonce : Nonce) (maxInflight : Nat) : Numbered (new nonce maxInflight) where
  fresh _ hmem := absurd hmem List.not_mem_nil
  placed _ hmem := absurd hmem List.not_mem_nil
  owner _ hmem := absurd hmem List.not_mem_nil
  distinct k k' call call' frame hk := by
    rw [show (MuxConnection.new nonce maxInflight).calls = [] from rfl, List.getElem?_nil] at hk
    cases hk

theorem congr (h : Numbered conn) (hcalls : conn'.calls = conn.calls)
    (hframes : conn'.frames = conn.frames) : Numbered conn' := by
  refine ⟨?_, ?_, ?_, ?_⟩
  · rw [hcalls]
    exact h.fresh
  · rw [hcalls, hframes]
    exact h.placed
  · rw [hcalls, hframes]
    exact h.owner
  · rw [hcalls]
    exact h.distinct

theorem row (h : Numbered conn) (hk : conn.calls[k]? = some call)
    (hcalls : conn'.calls = conn.calls.set k call')
    (hfresh : call'.phase.isFresh = true → call.phase.isFresh = true)
    (hsequence : call'.sequence = call.sequence) (hframe : call'.frame? = call.frame?)
    (hframes : conn'.frames = conn.frames) : Numbered conn' := by
  have hmem : call ∈ conn.calls := List.mem_of_getElem? hk
  -- the frames are those of the calls before
  have hold : ∀ (j : Nat) (call₁ : Call), conn'.calls[j]? = some call₁ →
      ∃ call₀, conn.calls[j]? = some call₀ ∧ call₀.frame? = call₁.frame? := by
    intro j call₁ hj
    rw [hcalls] at hj
    rcases getElem?_set_some hj with ⟨rfl, rfl⟩ | ⟨-, hj⟩
    · exact ⟨call, hk, hframe.symm⟩
    · exact ⟨call₁, hj, rfl⟩
  refine ⟨fun call₁ hmem₁ hp => ?_, fun call₁ hmem₁ frame hf => ?_, fun frame hf => ?_,
    fun j j' call₁ call₁' frame hj hj' hf hf' => ?_⟩
  · rw [hcalls] at hmem₁
    rcases List.mem_or_eq_of_mem_set hmem₁ with hmem₁ | rfl
    · exact h.fresh call₁ hmem₁ hp
    · exact hsequence.trans (h.fresh call hmem (hfresh hp))
  · obtain ⟨j, hj⟩ := List.getElem?_of_mem hmem₁
    obtain ⟨call₀, hj₀, hframe₀⟩ := hold j call₁ hj
    rw [hframes]
    exact h.placed call₀ (List.mem_of_getElem? hj₀) frame (hframe₀.trans hf)
  · obtain ⟨j, call₀, hj, hf₀⟩ := h.owner frame (hframes ▸ hf)
    rw [hcalls]
    by_cases hjk : k = j
    · subst hjk
      obtain rfl := Option.some.inj (hj.symm.trans hk)
      exact ⟨k, call', by rw [getElem?_set_of_some hk, if_pos rfl], hframe.trans hf₀⟩
    · exact ⟨j, call₀, by rw [getElem?_set_of_some hk, if_neg hjk, hj], hf₀⟩
  · obtain ⟨call₀, hj₀, hframe₀⟩ := hold j call₁ hj
    obtain ⟨call₀', hj₀', hframe₀'⟩ := hold j' call₁' hj'
    exact h.distinct j j' call₀ call₀' frame hj₀ hj₀' (hframe₀.trans hf) (hframe₀'.trans hf')

theorem abandon (h : Numbered conn) (correlation : UInt16) :
    Numbered (conn.abandon correlation) := by
  rcases abandon_cases conn correlation with heq | ⟨k, call, hk, heq⟩
  · rw [heq]
    exact h
  · rw [heq]
    exact h.row hk rfl id rfl rfl rfl

theorem spawn (h : Numbered conn)
    (hcalls : conn'.calls = conn.calls ++ [Call.new opcode payload action identifier])
    (hframes : conn'.frames = conn.frames) : Numbered conn' := by
  refine ⟨fun call hmem hp => ?_, fun call hmem frame hf => ?_, fun frame hf => ?_,
    fun j j' call call' frame hj hj' hf hf' => ?_⟩
  · rw [hcalls] at hmem
    rcases List.mem_append.mp hmem with hold | hnew
    · exact h.fresh call hold hp
    · obtain rfl := List.mem_singleton.mp hnew
      rfl
  · rw [hcalls] at hmem
    rcases List.mem_append.mp hmem with hold | hnew
    · rw [hframes]
      exact h.placed call hold frame hf
    · obtain rfl := List.mem_singleton.mp hnew
      cases hf
  · obtain ⟨j, call, hj, hf⟩ := h.owner frame (hframes ▸ hf)
    rw [hcalls]
    exact ⟨j, call, List.getElem?_append_left (List.getElem?_eq_some_iff.mp hj).1 ▸ hj, hf⟩
  · rw [hcalls] at hj hj'
    rcases getElem?_concat_some hj with hj | ⟨-, rfl⟩
    · rcases getElem?_concat_some hj' with hj' | ⟨-, rfl⟩
      · exact h.distinct j j' call call' frame hj hj' hf hf'
      · cases hf'
    · cases hf

/-- The new frame is the new call's, and is no other's because its sequence is new. -/
theorem takeSequence (h : Numbered conn) (hsigning : Signing conn)
    (hk : conn.calls[k]? = some call) (hp : call.phase = .entering)
    (pending : AList fun _ : UInt16 => Nat) :
    Numbered { conn.takeSequence k call with pending } := by
  have hmem : call ∈ conn.calls := List.mem_of_getElem? hk
  have hnone : call.frame? = none := by
    unfold Call.frame?
    rw [h.fresh call hmem (by rw [hp]; rfl)]
    rfl
  have hnew : ∀ call₁ ∈ conn.calls,
      call₁.frame? ≠ some ⟨conn.sequence, call.opcode, call.payload⟩ :=
    fun call₁ hmem₁ hf => hsigning.next_not_signed _ _ (h.placed call₁ hmem₁ _ hf)
  refine ⟨fun call₁ hmem₁ hp₁ => ?_, fun call₁ hmem₁ frame hf => ?_, fun frame hf => ?_,
    fun j j' call₁ call₁' frame hj hj' hf hf' => ?_⟩
  · rcases List.mem_or_eq_of_mem_set hmem₁ with hmem₁ | rfl
    · exact h.fresh call₁ hmem₁ hp₁
    · cases hp₁
  · rcases List.mem_or_eq_of_mem_set hmem₁ with hmem₁ | rfl
    · exact List.mem_append_left _ (h.placed call₁ hmem₁ frame hf)
    · cases hf
      exact List.mem_append_right _ List.mem_cons_self
  · rcases List.mem_append.mp hf with hf | hf
    · obtain ⟨j, call₀, hj, hf₀⟩ := h.owner frame hf
      have hjk : k ≠ j := by
        rintro rfl
        rw [Option.some.inj (hk.symm.trans hj), hf₀] at hnone
        cases hnone
      exact ⟨j, call₀, (getElem?_set_of_some hk _ j).trans ((if_neg hjk).trans hj), hf₀⟩
    · obtain rfl := List.mem_singleton.mp hf
      exact ⟨k, _, (getElem?_set_of_some hk _ k).trans (if_pos rfl), rfl⟩
  · rcases getElem?_set_some hj with ⟨rfl, rfl⟩ | ⟨-, hj⟩
    · rcases getElem?_set_some hj' with ⟨rfl, rfl⟩ | ⟨-, hj'⟩
      · rfl
      · exact absurd (hf'.trans hf.symm) (hnew call₁' (List.mem_of_getElem? hj'))
    · rcases getElem?_set_some hj' with ⟨rfl, rfl⟩ | ⟨-, hj'⟩
      · exact absurd (hf.trans hf'.symm) (hnew call₁ (List.mem_of_getElem? hj))
      · exact h.distinct j j' call₁ call₁' frame hj hj' hf hf'

end Numbered

theorem Transition.numbered {action : Action}
    (htransition : Transition makePayload conn action conn') (hsigning : Signing conn)
    (h : Numbered conn) : Numbered conn' := by
  cases htransition with
  | call | release => exact h.spawn rfl rfl
  | takeSlot hk _ hp => exact h.row hk rfl (fun _ => by rw [hp]; rfl) rfl rfl rfl
  | leaveSlot hk | exhaust hk | refuse hk | forgetUnwritten hk | forgetClosed hk | receive hk
  | leaveClosed hk | leaveReply hk | leave hk => exact h.row hk rfl nofun rfl rfl rfl
  | fail hk | writeWhole hk | writeCut _ hk =>
    refine h.row hk rfl (fun hfresh => ?_) rfl rfl rfl
    dsimp only at hfresh
    split_ifs at hfresh <;> cases hfresh
  | enterExchange hk _ hp => exact h.takeSequence hsigning hk hp _
  | enterWrite hk _ hp => exact h.takeSequence hsigning hk hp conn.pending
  | abandon hk =>
    refine Numbered.abandon ?_ _
    exact h.row hk rfl nofun rfl rfl rfl
  | deliver _ hk => exact h.row hk rfl id rfl rfl rfl
  | readPush | read | lookup | lookupNone | drop | readFail | close | answer | push =>
    exact h.congr rfl rfl

/-! ### Phases and what is written -/

/-- A cut frame is not out whole. -/
theorem whole_of_append_cut {written : List (Frame × Option Nat)} {frame' : Frame} {count : Nat}
    (hmem : (frame, none) ∈ written ++ [(frame', some count)]) : (frame, none) ∈ written := by
  rcases List.mem_append.mp hmem with hmem | hnew
  · exact hmem
  · cases congrArg Prod.snd (List.mem_singleton.mp hnew)

/-- How far the frame of a call has come. -/
structure CallStaged (closed : Bool) (written : List (Frame × Option Nat)) (call : Call) :
    Prop where
  unsent : call.phase.isUnsent = true → ∀ frame, call.frame? = some frame →
    (frame, none) ∉ written
  sent : call.phase.isSent = true →
    ∃ frame, call.frame? = some frame ∧ (frame, none) ∈ written
  closing : call.phase = .forgetting → closed = true
  kept : call.phase.isFresh = true ∨ call.phase.isUnsent = true → call.forgotten = false
  /-- While the connection is open, only a frame that is not out whole is forgotten. -/
  gone : call.forgotten = true → closed = true ∨ ∀ frame, call.frame? = some frame →
    (frame, none) ∉ written

def Staged (conn : MuxConnection) : Prop :=
  ∀ call ∈ conn.calls, CallStaged conn.closed conn.written call

variable {closed closed' : Bool} {written written' : List (Frame × Option Nat)}

namespace CallStaged

theorem mono (h : CallStaged closed written call) (hclosed : closed = true → closed' = true)
    (hwritten : ∀ frame, call.frame? = some frame →
      ((frame, none) ∈ written' ↔ (frame, none) ∈ written)) :
    CallStaged closed' written' call where
  unsent hp frame hf := (hwritten frame hf).not.mpr (h.unsent hp frame hf)
  sent hp := by
    obtain ⟨frame, hf, hmem⟩ := h.sent hp
    exact ⟨frame, hf, (hwritten frame hf).mpr hmem⟩
  closing hp := hclosed (h.closing hp)
  kept := h.kept
  gone hforgotten := (h.gone hforgotten).imp hclosed fun hnot frame hf =>
    (hwritten frame hf).not.mpr (hnot frame hf)

/-- A call that goes on without its frame. -/
theorem past (hfresh : call.phase.isFresh = false) (hunsent : call.phase.isUnsent = false)
    (hsent : call.phase.isSent = false)
    (hgone : call.forgotten = true → closed = true ∨ ∀ frame, call.frame? = some frame →
      (frame, none) ∉ written) : CallStaged closed written call where
  unsent hp := absurd (hunsent.symm.trans hp) nofun
  sent hp := absurd (hsent.symm.trans hp) nofun
  closing hp := by
    rw [hp] at hsent
    cases hsent
  kept hp := by
    rcases hp with hp | hp
    · exact absurd (hfresh.symm.trans hp) nofun
    · exact absurd (hunsent.symm.trans hp) nofun
  gone := hgone

theorem stopWaiting (h : CallStaged closed written call) (hp : call.phase = .waiting)
    (hsent : phase.isSent = true) (hclosing : phase = .forgetting → closed = true) :
    CallStaged closed written { call with phase } where
  unsent hunsent := by
    cases phase <;> cases hsent <;> cases hunsent
  sent _ := h.sent (by rw [hp]; rfl)
  closing := hclosing
  kept hkept := by
    cases phase <;> cases hsent <;> rcases hkept with hkept | hkept <;> cases hkept
  gone := h.gone

end CallStaged

namespace Staged

theorem row (h : Staged conn) (hcalls : conn'.calls = conn.calls.set k call')
    (hclosed : conn.closed = true → conn'.closed = true) (hwritten : conn'.written = conn.written)
    (hcall : CallStaged conn'.closed conn'.written call') : Staged conn' := by
  intro call₁ hmem
  rw [hcalls] at hmem
  rcases List.mem_or_eq_of_mem_set hmem with hmem | rfl
  · exact (h call₁ hmem).mono hclosed fun frame _ => by rw [hwritten]
  · exact hcall

theorem congr (h : Staged conn) (hcalls : conn'.calls = conn.calls)
    (hclosed : conn.closed = true → conn'.closed = true) (hwritten : conn'.written = conn.written) :
    Staged conn' := by
  intro call hmem
  rw [hcalls] at hmem
  exact (h call hmem).mono hclosed fun frame _ => by rw [hwritten]

theorem abandon (h : Staged conn) (correlation : UInt16) : Staged (conn.abandon correlation) := by
  rcases abandon_cases conn correlation with heq | ⟨k, call, hk, heq⟩
  · rw [heq]
    exact h
  · have hcall := h call (List.mem_of_getElem? hk)
    rw [heq]
    exact h.row rfl id rfl ⟨hcall.unsent, hcall.sent, hcall.closing, hcall.kept, hcall.gone⟩

theorem spawn (h : Staged conn)
    (hcalls : conn'.calls = conn.calls ++ [Call.new opcode payload action identifier])
    (hclosed : conn.closed = true → conn'.closed = true) (hwritten : conn'.written = conn.written) :
    Staged conn' := by
  intro call hmem
  rw [hcalls] at hmem
  rcases List.mem_append.mp hmem with hmem | hnew
  · exact (h call hmem).mono hclosed fun frame _ => by rw [hwritten]
  · obtain rfl := List.mem_singleton.mp hnew
    refine ⟨fun _ _ hf => (by cases hf), fun hp => ?_, fun hp => ?_, fun _ => rfl, nofun⟩
    all_goals
      unfold Call.new at hp
      split_ifs at hp <;> cases hp

theorem takeSequence (h : Staged conn) (hsigning : Signing conn)
    (hk : conn.calls[k]? = some call) (hp : call.phase = .entering)
    (pending : AList fun _ : UInt16 => Nat) :
    Staged { conn.takeSequence k call with pending } := by
  have hcall := h call (List.mem_of_getElem? hk)
  refine h.row rfl id rfl
    ⟨fun _ frame hf hmem => ?_, nofun, nofun, fun _ => ?_, fun hforgotten => ?_⟩
  · cases hf
    exact hsigning.next_not_signed _ _
      (hsigning.written_prefix.subset (List.mem_map_of_mem hmem))
  · exact hcall.kept (.inl (by rw [hp]; rfl))
  · rw [hcall.kept (.inl (by rw [hp]; rfl))] at hforgotten
    cases hforgotten

theorem writeFrame {cut : Option Nat} (h : Staged conn) (hnumbered : Numbered conn)
    (hk : conn.calls[k]? = some call) (hsequence : call.sequence = some sequence)
    (hcall : CallStaged conn.closed
      (conn.written ++ [(⟨sequence, call.opcode, call.payload⟩, cut)]) { call with phase }) :
    Staged ((conn.writeFrame call sequence cut).setCall k { call with phase }) := by
  intro call₁ hmem
  obtain ⟨j, hj⟩ := List.getElem?_of_mem hmem
  rcases getElem?_set_some hj with ⟨rfl, rfl⟩ | ⟨hjk, hj⟩
  · exact hcall
  · refine (h call₁ (List.mem_of_getElem? hj)).mono id fun frame hf => ?_
    refine ⟨fun hmem => ?_, fun hmem => List.mem_append_left _ hmem⟩
    rcases List.mem_append.mp hmem with hmem | hnew
    · exact hmem
    · obtain rfl := congrArg Prod.fst (List.mem_singleton.mp hnew)
      have hframe := Call.frame?_of_sequence hsequence
      exact absurd (hnumbered.distinct k j call call₁ _ hk hj hframe hf) hjk

end Staged

theorem Transition.staged {action : Action}
    (htransition : Transition makePayload conn action conn') (hsigning : Signing conn)
    (hnumbered : Numbered conn) (h : Staged conn) : Staged conn' := by
  cases htransition with
  | call | release => exact h.spawn rfl id rfl
  | @takeSlot k call hk _ hp =>
    have hcall := h call (List.mem_of_getElem? hk)
    have hkept : call.forgotten = false := hcall.kept (.inl (by rw [hp]; rfl))
    exact h.row rfl id rfl ⟨nofun, nofun, nofun, fun _ => hkept, hcall.gone⟩
  | leaveSlot hk | exhaust hk | refuse hk | receive hk | leave hk =>
    exact h.row rfl id rfl (.past rfl rfl rfl (h _ (List.mem_of_getElem? hk)).gone)
  | fail =>
    refine h.row rfl (fun _ => rfl) rfl (.past ?_ ?_ ?_ fun _ => .inl rfl)
    all_goals
      dsimp only
      split_ifs <;> rfl
  | @forgetUnwritten k sequence call hk _ hp =>
    have hnot := (h call (List.mem_of_getElem? hk)).unsent (by rw [hp]; rfl)
    exact h.row rfl id rfl (.past rfl rfl rfl fun _ => .inr hnot)
  | @forgetClosed k sequence call hk _ hp =>
    have hclosed := (h call (List.mem_of_getElem? hk)).closing hp
    exact h.row rfl id rfl (.past rfl rfl rfl fun _ => .inl hclosed)
  | leaveClosed hk _ hp hclosed =>
    exact h.row rfl id rfl
      ((h _ (List.mem_of_getElem? hk)).stopWaiting hp rfl fun _ => hclosed)
  | leaveReply hk _ hp =>
    exact h.row rfl id rfl ((h _ (List.mem_of_getElem? hk)).stopWaiting hp rfl nofun)
  | abandon hk =>
    refine Staged.abandon ?_ _
    exact h.row rfl id rfl (.past rfl rfl rfl (h _ (List.mem_of_getElem? hk)).gone)
  | enterExchange hk _ hp => exact h.takeSequence hsigning hk hp _
  | enterWrite hk _ hp => exact h.takeSequence hsigning hk hp conn.pending
  | @writeWhole k sequence call hk hp _ hsequence =>
    have hkept := (h call (List.mem_of_getElem? hk)).kept (.inr (by rw [hp]; rfl))
    refine h.writeFrame hnumbered hk hsequence ?_
    cases call.opcode.expectsReply with
    | true =>
      refine ⟨nofun, fun _ => ⟨_, Call.frame?_of_sequence hsequence, ?_⟩, nofun, ?_, ?_⟩
      · exact List.mem_append_right _ List.mem_cons_self
      · rintro (hp | hp) <;> cases hp
      · exact fun hforgotten => absurd (hkept.symm.trans hforgotten) nofun
    | false => exact .past rfl rfl rfl fun hforgotten => absurd (hkept.symm.trans hforgotten) nofun
  | @writeCut k sequence call count hk hp hsequence =>
    have hcall := h call (List.mem_of_getElem? hk)
    have hkept := hcall.kept (.inr (by rw [hp]; rfl))
    refine h.writeFrame hnumbered hk hsequence ?_
    cases call.opcode.expectsReply with
    | true =>
      refine ⟨fun _ frame hf hmem => ?_, nofun, nofun, fun _ => hkept, ?_⟩
      · exact hcall.unsent (by rw [hp]; rfl) frame hf (whole_of_append_cut hmem)
      · exact fun hforgotten => absurd (hkept.symm.trans hforgotten) nofun
    | false => exact .past rfl rfl rfl fun hforgotten => absurd (hkept.symm.trans hforgotten) nofun
  | deliver _ hk =>
    have hcall := h _ (List.mem_of_getElem? hk)
    exact h.row rfl id rfl ⟨hcall.unsent, hcall.sent, hcall.closing, hcall.kept, hcall.gone⟩
  | readPush | read | lookup | lookupNone | drop | answer | push => exact h.congr rfl id rfl
  | readFail | close => exact h.congr rfl (fun _ => rfl) rfl

end MuxConnection

end Fareward.Client
