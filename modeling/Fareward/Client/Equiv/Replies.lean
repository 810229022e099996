import Fareward.Client.Equiv.Calls

/-!
# Which call a reply is handed to

A reply carries sixteen bits of the sequence of its frame. While a connection is open they are
enough: a request that is *outstanding* (its frame is signed, its reply not looked up, the request
itself not forgotten) has the slot of `pending` under its correlation to itself, because `exchange`
does not take a slot that is taken and only `readLoop`, with the reply, or the failed call itself
takes a request out. So when `readLoop` looks up a reply, what it finds is the request that the
reply answers. No arithmetic of the correlation is used, and the sequence may wrap it any number of
times.

Once the connection is closed the callers forget requests whose replies may be in the hands of
`readLoop`, and the slots are free to be taken: a reply can be handed to a call that it does not
answer (`stale_reply_handed_over`). That call has not written its frame, and as the write fails on
a closed connection, it never comes to look at its channel.
-/

namespace Fareward.Client

open Service

variable {action : Action} {reply : Reply} {opcode : Opcode} {payload : List UInt8}
  {identifier : Int64}

/-- The sequence of the frame that the reply of a call answers, once the call has got it. -/
def CallPhase.yields : CallPhase → Option Nat
  | .leaving (.reply sequence _) | .returned (.reply sequence _) => some sequence
  | _ => none

namespace MuxConnection

variable {makePayload : ReleaseRequest → Option (List UInt8)}
variable {conn conn' : MuxConnection} {k : Nat} {call call' : Call}

/-! ### Replies in transit -/

/-- The sequences of the frames whose replies are written and not looked up yet, in order. -/
def unread (conn : MuxConnection) : List Nat :=
  (match conn.reader with
    | .dispatching sequence _ => [sequence]
    | _ => []) ++ (conn.replies.filter fun r => !r.2.isPush).map Prod.fst

structure Wire (conn : MuxConnection) : Prop where
  /-- The replies are read in the order in which they are written. -/
  order : conn.consumed ++ conn.unread = conn.answered
  once : conn.answered.Nodup
  answerable : ∀ sequence ∈ conn.answered, conn.answerable sequence = true

theorem answerable_iff {sequence : Nat} : conn.answerable sequence = true ↔
    ∃ frame, (frame, none) ∈ conn.written ∧ frame.sequence = sequence ∧
      frame.opcode.expectsReply = true := by
  unfold answerable
  rw [List.any_eq_true]
  constructor
  · rintro ⟨⟨frame, cut⟩, hmem, hframe⟩
    obtain ⟨hsequence, rfl, hreply⟩ := of_decide_eq_true hframe
    exact ⟨frame, hmem, hsequence, hreply⟩
  · rintro ⟨frame, hmem, hsequence, hreply⟩
    exact ⟨(frame, none), hmem, decide_eq_true ⟨hsequence, rfl, hreply⟩⟩

namespace Wire

theorem new (nonce : Nonce) (maxInflight : Nat) : Wire (new nonce maxInflight) :=
  ⟨rfl, List.nodup_nil, fun _ hmem => absurd hmem List.not_mem_nil⟩

theorem congr (h : Wire conn)
    (horder : conn'.consumed ++ conn'.unread = conn.consumed ++ conn.unread)
    (hanswered : conn'.answered = conn.answered)
    (hwritten : ∀ w ∈ conn.written, w ∈ conn'.written) : Wire conn' := by
  refine ⟨?_, ?_, fun sequence hmem => ?_⟩
  · rw [horder, hanswered]
    exact h.order
  · rw [hanswered]
    exact h.once
  · obtain ⟨frame, hframe, hrest⟩ := answerable_iff.mp (h.answerable sequence (hanswered ▸ hmem))
    exact answerable_iff.mpr ⟨frame, hwritten _ hframe, hrest⟩

end Wire

theorem abandon_wire (conn : MuxConnection) (correlation : UInt16) :
    (conn.abandon correlation).consumed = conn.consumed ∧
      (conn.abandon correlation).unread = conn.unread ∧
      (conn.abandon correlation).answered = conn.answered ∧
      (conn.abandon correlation).written = conn.written := by
  rcases abandon_cases conn correlation with heq | ⟨k, call, -, heq⟩
  all_goals
    rw [heq]
    exact ⟨rfl, rfl, rfl, rfl⟩

theorem Transition.wire (htransition : Transition makePayload conn action conn')
    (h : Wire conn) : Wire conn' := by
  cases htransition with
  | call | takeSlot | leaveSlot | exhaust | refuse | enterExchange | enterWrite | forgetUnwritten
  | forgetClosed | receive | leaveClosed | leaveReply | fail | leave | close =>
    exact h.congr rfl rfl fun _ => id
  | writeWhole | writeCut => exact h.congr rfl rfl fun _ => List.mem_append_left _
  | abandon =>
    obtain ⟨hconsumed, hunread, hanswered, hwritten⟩ := abandon_wire _ _
    exact h.congr (by rw [hconsumed, hunread]; rfl) hanswered fun _ hmem => hwritten ▸ hmem
  | readPush hp hreplies _ hpush | read hp hreplies _ hpush =>
    refine h.congr ?_ rfl fun _ => id
    unfold unread
    rw [hp, hreplies]
    simp [hpush]
  | lookup hp | lookupNone hp =>
    refine h.congr ?_ rfl fun _ => id
    unfold unread
    rw [hp]
    simp [forget]
  | release hp | drop hp | deliver hp | readFail hp =>
    refine h.congr (congrArg (conn.consumed ++ ·) ?_) rfl fun _ => id
    simp only [unread, hp, setCall, MuxConnection.fail]
  | @answer sequence reply hanswerable honce hpush =>
    refine ⟨?_, ?_, fun s hmem => ?_⟩
    · show conn.consumed ++ unread _ = conn.answered ++ [sequence]
      rw [← h.order]
      unfold unread
      simp [hpush]
    · exact List.nodup_append.mpr ⟨h.once, List.nodup_singleton _, fun a ha b hb => by
        rw [List.mem_singleton.mp hb]
        exact fun heq => honce (heq ▸ ha)⟩
    · rcases List.mem_append.mp hmem with hmem | hnew
      · exact h.answerable s hmem
      · rw [List.mem_singleton.mp hnew]
        exact hanswerable
  | push hpush =>
    refine h.congr ?_ rfl fun _ => id
    unfold unread
    simp [hpush]

/-! ### Slots -/

/-- The frame of the call awaits its reply, and the call has not forgotten it. -/
def Outstanding (conn : MuxConnection) (call : Call) (frame : Frame) : Prop :=
  call.frame? = some frame ∧ frame.opcode.expectsReply = true ∧ call.forgotten = false ∧
    frame.sequence ∉ conn.consumed

/-- The reply to the frame with the sequence may be handed to the call: it answers the call's own
frame, or the connection is closed before the call's frame is out. -/
def MayGet (conn : MuxConnection) (call : Call) (sequence : Nat) : Prop :=
  ∃ frame, call.frame? = some frame ∧
    (frame.sequence = sequence ∨ conn.closed = true ∧ (frame, none) ∉ conn.written)

/-- The outstanding requests have their slots. -/
def Held (conn : MuxConnection) : Prop :=
  ∀ (k : Nat) call frame, conn.calls[k]? = some call → conn.Outstanding call frame →
    conn.pending.lookup (correlationOf frame.sequence) = some k

structure Slots (conn : MuxConnection) : Prop where
  filed : ∀ c k, conn.pending.lookup c = some k → ∃ call frame, conn.calls[k]? = some call ∧
    call.frame? = some frame ∧ correlationOf frame.sequence = c
  held : conn.closed = false → conn.Held
  /-- A frame that is out and filed where an unread reply looks for its request is the one that the
  reply answers, in a closed connection too. -/
  apart : ∀ sequence, conn.answerable sequence = true → sequence ∉ conn.consumed →
    ∀ (k : Nat) call frame, conn.pending.lookup (correlationOf sequence) = some k →
      conn.calls[k]? = some call → call.frame? = some frame → (frame, none) ∈ conn.written →
        frame.sequence = sequence
  delivering : ∀ k sequence reply, conn.reader = .delivering k sequence reply →
    ∃ call, conn.calls[k]? = some call ∧ conn.MayGet call sequence

/-- What every step keeps of the connection, the slots apart. -/
structure Base (conn : MuxConnection) : Prop where
  signing : Signing conn
  numbered : Numbered conn
  staged : Staged conn
  wire : Wire conn

theorem Base.new (nonce : Nonce) (maxInflight : Nat) : Base (new nonce maxInflight) :=
  ⟨.new nonce maxInflight, .new nonce maxInflight, fun _ hmem => absurd hmem List.not_mem_nil,
    .new nonce maxInflight⟩

theorem Transition.base (htransition : Transition makePayload conn action conn')
    (h : Base conn) :
    Base conn' :=
  ⟨htransition.signing h.signing, htransition.numbered h.signing h.numbered,
    htransition.staged h.signing h.numbered h.staged, htransition.wire h.wire⟩

namespace Base

/-- The frames are told apart by their sequences. -/
theorem frame_unique (h : Base conn) {frame frame' : Frame} (hmem : frame ∈ conn.frames)
    (hmem' : frame' ∈ conn.frames) (hsequence : frame.sequence = frame'.sequence) :
    frame = frame' := by
  have hget := h.signing.getElem?_sequence hmem
  rw [hsequence, h.signing.getElem?_sequence hmem'] at hget
  exact (Option.some.inj hget).symm

theorem mem_frames_of_written (h : Base conn) {frame : Frame} {cut : Option Nat}
    (hmem : (frame, cut) ∈ conn.written) : frame ∈ conn.frames :=
  h.signing.written_prefix.subset (List.mem_map_of_mem hmem)

/-- In an open connection, the request of a frame that went out and whose reply was not looked up is
outstanding. -/
theorem exists_outstanding (h : Base conn) (hopen : conn.closed = false) {sequence : Nat}
    (hanswerable : conn.answerable sequence = true) (hunread : sequence ∉ conn.consumed) :
    ∃ (k : Nat) (call : Call) (frame : Frame), conn.calls[k]? = some call ∧
      conn.Outstanding call frame ∧ frame.sequence = sequence := by
  obtain ⟨frame, hwhole, rfl, hreply⟩ := answerable_iff.mp hanswerable
  obtain ⟨k, call, hk, hframe⟩ := h.numbered.owner frame (h.mem_frames_of_written hwhole)
  refine ⟨k, call, frame, hk, ⟨hframe, hreply, ?_, hunread⟩, rfl⟩
  by_contra hforgotten
  rcases (h.staged call (List.mem_of_getElem? hk)).gone (Bool.eq_true_of_not_eq_false hforgotten)
    with hclosed | hcut
  · rw [hopen] at hclosed
    cases hclosed
  · exact hcut frame hframe hwhole

/-- A frame that is not out whole has no reply. -/
theorem not_consumed (h : Base conn) {frame : Frame} (hmem : frame ∈ conn.frames)
    (hcut : (frame, none) ∉ conn.written) : frame.sequence ∉ conn.consumed := by
  intro hconsumed
  have hanswered : frame.sequence ∈ conn.answered :=
    h.wire.order ▸ List.mem_append_left _ hconsumed
  obtain ⟨frame', hwhole, hsequence, -⟩ :=
    answerable_iff.mp (h.wire.answerable _ hanswered)
  obtain rfl := h.frame_unique (h.mem_frames_of_written hwhole) hmem hsequence
  exact hcut hwhole

/-- The reply that `readLoop` is about to look up is to a frame that went out, and is its first. -/
theorem of_dispatching (h : Base conn) {sequence : Nat}
    (hp : conn.reader = .dispatching sequence reply) :
    conn.answerable sequence = true ∧ sequence ∉ conn.consumed := by
  have hunread : sequence ∈ conn.unread := by
    unfold unread
    rw [hp]
    exact List.mem_append_left _ List.mem_cons_self
  have hmem : sequence ∈ conn.answered := h.wire.order ▸ List.mem_append_right _ hunread
  have hnodup : (conn.consumed ++ conn.unread).Nodup := h.wire.order.symm ▸ h.wire.once
  exact ⟨h.wire.answerable _ hmem, fun hconsumed =>
    (List.nodup_append.mp hnodup).2.2 _ hconsumed _ hunread rfl⟩

end Base

variable {sequence : Nat} {frame : Frame}

/-- In an open connection, what is found under the correlation of an unread reply is the request
that it answers. -/
theorem Held.own (hheld : conn.Held) (hbase : Base conn) (hopen : conn.closed = false)
    (hanswerable : conn.answerable sequence = true) (hunread : sequence ∉ conn.consumed)
    (hslot : conn.pending.lookup (correlationOf sequence) = some k)
    (hk : conn.calls[k]? = some call) (hframe : call.frame? = some frame) :
    frame.sequence = sequence := by
  obtain ⟨k', call', frame', hk', houtstanding, rfl⟩ :=
    hbase.exists_outstanding hopen hanswerable hunread
  obtain rfl := Option.some.inj (hslot.symm.trans (hheld k' call' frame' hk' houtstanding))
  obtain rfl := Option.some.inj (hk.symm.trans hk')
  rw [Option.some.inj (hframe.symm.trans houtstanding.1)]

namespace Slots

theorem new (nonce : Nonce) (maxInflight : Nat) : Slots (new nonce maxInflight) where
  filed c k h := by
    rw [show (MuxConnection.new nonce maxInflight).pending = ∅ from rfl, AList.lookup_empty] at h
    cases h
  held _ k call frame hk := by
    rw [show (MuxConnection.new nonce maxInflight).calls = [] from rfl, List.getElem?_nil] at hk
    cases hk
  apart sequence h := by
    obtain ⟨frame, hmem, -⟩ := answerable_iff.mp h
    exact absurd hmem List.not_mem_nil
  delivering := nofun

/-- The frames that a step leaves alone. -/
structure Keeps (conn conn' : MuxConnection) : Prop where
  closed : conn.closed = true → conn'.closed = true
  consumed : conn.consumed ⊆ conn'.consumed
  calls : ∀ (j : Nat) call frame, conn.calls[j]? = some call → call.frame? = some frame →
    ∃ call', conn'.calls[j]? = some call' ∧ call'.frame? = some frame
  /-- A frame that is new is not out, and its request is filed. -/
  frames : ∀ (j : Nat) call' frame, conn'.calls[j]? = some call' → call'.frame? = some frame →
    (∃ call, conn.calls[j]? = some call ∧ call.frame? = some frame ∧
      (call'.forgotten = false → call.forgotten = false)) ∨
    (frame, none) ∉ conn'.written ∧ (frame.opcode.expectsReply = true →
      conn'.pending.lookup (correlationOf frame.sequence) = some j)
  pending : ∀ c j, conn'.pending.lookup c = some j → conn.pending.lookup c = some j ∨
    ∃ call frame, conn'.calls[j]? = some call ∧ call.frame? = some frame ∧
      correlationOf frame.sequence = c ∧ (frame, none) ∉ conn'.written

/-- What a step has to show of the slots: that frames go out on an open connection only, that the
outstanding requests keep their slots, and that the request `readLoop` holds may get the reply. -/
theorem carry (h : Slots conn) (hkeeps : Keeps conn conn')
    (hwritten : (∀ frame, (frame, none) ∈ conn'.written → (frame, none) ∈ conn.written) ∨
      conn'.closed = false ∧ Base conn')
    (hstill : conn'.closed = false → ∀ (j : Nat) call frame, conn'.calls[j]? = some call →
      conn'.Outstanding call frame →
      conn.pending.lookup (correlationOf frame.sequence) = some j →
      conn'.pending.lookup (correlationOf frame.sequence) = some j)
    (hreader : ∀ j sequence reply, conn'.reader = .delivering j sequence reply →
      conn.reader = .delivering j sequence reply ∨
        ∃ call, conn'.calls[j]? = some call ∧ conn'.MayGet call sequence) :
    Slots conn' := by
  have hheld : conn'.closed = false → conn'.Held := by
    intro hopen j call' frame hj houtstanding
    obtain ⟨hframe, hreply, hforgotten, hunread⟩ := houtstanding
    rcases hkeeps.frames j call' frame hj hframe with ⟨call, hj₀, hframe₀, hforgotten₀⟩ | ⟨-, hnew⟩
    · refine hstill hopen j call' frame hj ⟨hframe, hreply, hforgotten, hunread⟩ ?_
      have hopen₀ : conn.closed = false := by
        by_contra hclosed
        have := hkeeps.closed (Bool.eq_true_of_not_eq_false hclosed)
        rw [hopen] at this
        cases this
      exact h.held hopen₀ j call frame hj₀
        ⟨hframe₀, hreply, hforgotten₀ hforgotten, fun hmem => hunread (hkeeps.consumed hmem)⟩
    · exact hnew hreply
  refine ⟨fun c j hj => ?_, hheld, ?_, fun j sequence reply hj => ?_⟩
  · rcases hkeeps.pending c j hj with hold | ⟨call, frame, hcall, hframe, hc, -⟩
    · obtain ⟨call, frame, hcall, hframe, hc⟩ := h.filed c j hold
      obtain ⟨call', hcall', hframe'⟩ := hkeeps.calls j call frame hcall hframe
      exact ⟨call', frame, hcall', hframe', hc⟩
    · exact ⟨call, frame, hcall, hframe, hc⟩
  · intro sequence hanswerable hunread j call' frame hslot hj hframe hwhole
    rcases hwritten with hwritten | ⟨hopen, hbase⟩
    · rcases hkeeps.pending _ j hslot with hold | ⟨call, frame', hcall, hframe', -, hcut⟩
      · rcases hkeeps.frames j call' frame hj hframe with ⟨call, hj₀, hframe₀, -⟩ | ⟨hcut, -⟩
        · obtain ⟨frame', hwhole', hrest⟩ := answerable_iff.mp hanswerable
          exact h.apart sequence (answerable_iff.mpr ⟨frame', hwritten _ hwhole', hrest⟩)
            (fun hmem => hunread (hkeeps.consumed hmem)) j call frame hold hj₀ hframe₀
            (hwritten _ hwhole)
        · exact absurd hwhole hcut
      · obtain rfl := Option.some.inj (hj.symm.trans hcall)
        rw [Option.some.inj (hframe.symm.trans hframe')] at hwhole
        exact absurd hwhole hcut
    · exact (hheld hopen).own hbase hopen hanswerable hunread hslot hj hframe
  · rcases hreader j sequence reply hj with hold | hmay
    · obtain ⟨call, hcall, frame, hframe, hown⟩ := h.delivering j sequence reply hold
      obtain ⟨call', hcall', hframe'⟩ := hkeeps.calls j call frame hcall hframe
      refine ⟨call', hcall', frame, hframe', hown.imp id fun ⟨hclosed, hcut⟩ => ?_⟩
      have hclosed' := hkeeps.closed hclosed
      rcases hwritten with hwritten | ⟨hopen, -⟩
      · exact ⟨hclosed', fun hwhole => hcut (hwritten frame hwhole)⟩
      · rw [hopen] at hclosed'
        cases hclosed'
    · exact hmay

theorem Keeps.row (hk : conn.calls[k]? = some call) (hcalls : conn'.calls = conn.calls.set k call')
    (hframe : call'.frame? = call.frame?)
    (hforgotten : call'.forgotten = false → call.forgotten = false)
    (hclosed : conn.closed = true → conn'.closed = true)
    (hconsumed : conn'.consumed = conn.consumed)
    (hpending : ∀ c j, conn'.pending.lookup c = some j → conn.pending.lookup c = some j) :
    Keeps conn conn' where
  closed := hclosed
  consumed := fun _ hmem => hconsumed ▸ hmem
  calls j call₁ frame hj hf := by
    rw [hcalls]
    by_cases hjk : k = j
    · subst hjk
      obtain rfl := Option.some.inj (hj.symm.trans hk)
      exact ⟨call', (getElem?_set_of_some hk _ k).trans (if_pos rfl), hframe.trans hf⟩
    · exact ⟨call₁, (getElem?_set_of_some hk _ j).trans ((if_neg hjk).trans hj), hf⟩
  frames j call₁ frame hj hf := by
    rw [hcalls] at hj
    rcases getElem?_set_some hj with ⟨rfl, rfl⟩ | ⟨-, hj⟩
    · exact .inl ⟨call, hk, hframe.symm.trans hf, hforgotten⟩
    · exact .inl ⟨call₁, hj, hf, id⟩
  pending c j hj := .inl (hpending c j hj)

theorem Keeps.congr (hcalls : conn'.calls = conn.calls)
    (hclosed : conn.closed = true → conn'.closed = true)
    (hconsumed : conn.consumed ⊆ conn'.consumed)
    (hpending : ∀ c j, conn'.pending.lookup c = some j → conn.pending.lookup c = some j) :
    Keeps conn conn' where
  closed := hclosed
  consumed := hconsumed
  calls _ call _ hj hf := ⟨call, hcalls ▸ hj, hf⟩
  frames _ call _ hj hf := .inl ⟨call, hcalls ▸ hj, hf, id⟩
  pending c j hj := .inl (hpending c j hj)

/-- One call changes, and neither its frame nor the slots do. -/
theorem row (h : Slots conn) (hk : conn.calls[k]? = some call)
    (hcalls : conn'.calls = conn.calls.set k call') (hframe : call'.frame? = call.frame?)
    (hforgotten : call'.forgotten = call.forgotten)
    (hclosed : conn.closed = true → conn'.closed = true)
    (hpending : conn'.pending = conn.pending) (hconsumed : conn'.consumed = conn.consumed)
    (hwritten : ∀ frame, (frame, none) ∈ conn'.written → (frame, none) ∈ conn.written)
    (hreader : ∀ j sequence reply, conn'.reader = .delivering j sequence reply →
      conn.reader = .delivering j sequence reply) : Slots conn' :=
  h.carry (.row hk hcalls hframe (fun hf => hforgotten.symm.trans hf) hclosed hconsumed
    fun _ _ hj => hpending ▸ hj) (.inl hwritten) (fun _ _ _ _ _ _ hj => hpending ▸ hj)
    fun j sequence reply hj => .inl (hreader j sequence reply hj)

/-- No call changes, and the slots do not. -/
theorem congr (h : Slots conn) (hcalls : conn'.calls = conn.calls)
    (hclosed : conn.closed = true → conn'.closed = true)
    (hpending : conn'.pending = conn.pending) (hconsumed : conn.consumed ⊆ conn'.consumed)
    (hwritten : conn'.written = conn.written)
    (hreader : ∀ j sequence reply, conn'.reader = .delivering j sequence reply →
      conn.reader = .delivering j sequence reply) : Slots conn' :=
  h.carry (.congr hcalls hclosed hconsumed fun _ _ hj => hpending ▸ hj)
    (.inl fun _ hmem => hwritten ▸ hmem) (fun _ _ _ _ _ _ hj => hpending ▸ hj)
    fun j sequence reply hj => .inl (hreader j sequence reply hj)

theorem abandon (h : Slots conn) (correlation : UInt16) : Slots (conn.abandon correlation) := by
  rcases abandon_cases conn correlation with heq | ⟨k, call, hk, heq⟩
  · rw [heq]
    exact h
  · rw [heq]
    exact h.row hk rfl rfl rfl id rfl rfl (fun _ => id) fun _ _ _ => id

theorem spawn {action : UInt16} (h : Slots conn)
    (hcalls : conn'.calls = conn.calls ++ [Call.new opcode payload action identifier])
    (hclosed : conn'.closed = conn.closed) (hpending : conn'.pending = conn.pending)
    (hconsumed : conn'.consumed = conn.consumed) (hwritten : conn'.written = conn.written)
    (hreader : ∀ j sequence reply, conn'.reader = .delivering j sequence reply →
      conn.reader = .delivering j sequence reply) : Slots conn' := by
  have hkeeps : Keeps conn conn' := by
    refine ⟨fun hc => hclosed.trans hc, fun _ hmem => hconsumed ▸ hmem,
      fun j call frame hj hf => ?_, fun j call frame hj hf => ?_,
      fun c j hj => .inl (hpending ▸ hj)⟩
    · have hlt := (List.getElem?_eq_some_iff.mp hj).1
      exact ⟨call, by rw [hcalls, List.getElem?_append_left hlt, hj], hf⟩
    · rw [hcalls] at hj
      rcases getElem?_concat_some hj with hj | ⟨-, rfl⟩
      · exact .inl ⟨call, hj, hf, id⟩
      · cases hf
  exact h.carry hkeeps (.inl fun _ hmem => hwritten ▸ hmem) (fun _ _ _ _ _ _ hj => hpending ▸ hj)
    fun j sequence reply hj => .inl (hreader j sequence reply hj)

/-- The sequence is taken: no slot is taken from another, and a request that is answered gets
one. -/
theorem takeSequence (h : Slots conn) (hbase : Base conn) (hk : conn.calls[k]? = some call)
    (hp : call.phase = .entering) {pending : AList fun _ : UInt16 => Nat}
    (hold : ∀ c j, conn.pending.lookup c = some j → pending.lookup c = some j)
    (hnew : ∀ c j, pending.lookup c = some j → conn.pending.lookup c = some j ∨
      c = correlationOf conn.sequence ∧ j = k)
    (hfiled : call.opcode.expectsReply = true →
      pending.lookup (correlationOf conn.sequence) = some k) :
    Slots { conn.takeSequence k call with pending } := by
  have hnone : call.frame? = none := by
    unfold Call.frame?
    rw [hbase.numbered.fresh call (List.mem_of_getElem? hk) (by rw [hp]; rfl)]
    rfl
  have hcut : ((⟨conn.sequence, call.opcode, call.payload⟩ : Frame), none) ∉ conn.written :=
    fun hmem => hbase.signing.next_not_signed _ _ (hbase.mem_frames_of_written hmem)
  have hkeeps : Keeps conn { conn.takeSequence k call with pending } := by
    refine ⟨id, fun _ => id, fun j call₁ frame hj hf => ?_, fun j call₁ frame hj hf => ?_,
      fun c j hj => (hnew c j hj).imp id ?_⟩
    · have hjk : k ≠ j := by
        rintro rfl
        rw [Option.some.inj (hk.symm.trans hj), hf] at hnone
        cases hnone
      exact ⟨call₁, (getElem?_set_of_some hk _ j).trans ((if_neg hjk).trans hj), hf⟩
    · rcases getElem?_set_some hj with ⟨rfl, rfl⟩ | ⟨-, hj⟩
      · cases hf
        exact .inr ⟨hcut, hfiled⟩
      · exact .inl ⟨call₁, hj, hf, id⟩
    · rintro ⟨rfl, rfl⟩
      exact ⟨_, _, (getElem?_set_of_some hk _ _).trans (if_pos rfl), rfl, rfl, hcut⟩
  exact h.carry hkeeps (.inl fun _ => id) (fun _ _ _ _ _ _ hj => hold _ _ hj) fun _ _ _ => .inl

end Slots

theorem Transition.slots (htransition : Transition makePayload conn action conn')
    (hbase : Base conn) (h : Slots conn) : Slots conn' := by
  have hbase' : Base conn' := htransition.base hbase
  cases htransition with
  | call => exact h.spawn rfl rfl rfl rfl rfl fun _ _ _ => id
  | release => exact h.spawn rfl rfl rfl rfl rfl nofun
  | takeSlot hk | leaveSlot hk | exhaust hk | refuse hk | receive hk | leaveClosed hk
  | leaveReply hk | leave hk => exact h.row hk rfl rfl rfl id rfl rfl (fun _ => id) fun _ _ _ => id
  | fail hk => exact h.row hk rfl rfl rfl (fun _ => rfl) rfl rfl (fun _ => id) fun _ _ _ => id
  | deliver _ hk => exact h.row hk rfl rfl rfl id rfl rfl (fun _ => id) nofun
  | abandon hk =>
    refine Slots.abandon ?_ _
    exact h.row hk rfl rfl rfl id rfl rfl (fun _ => id) fun _ _ _ => id
  | enterExchange hk _ hp _ _ hslot =>
    refine h.takeSequence hbase hk hp (fun c j hj => ?_) (fun c j hj => ?_) fun _ =>
      AList.lookup_insert _
    · have hc : c ≠ correlationOf conn.sequence := by
        rintro rfl
        rw [hslot] at hj
        cases hj
      rw [AList.lookup_insert_ne hc]
      exact hj
    · by_cases hc : c = correlationOf conn.sequence
      · subst hc
        rw [AList.lookup_insert] at hj
        exact .inr ⟨rfl, (Option.some.inj hj).symm⟩
      · rw [AList.lookup_insert_ne hc] at hj
        exact .inl hj
  | enterWrite hk hreply hp =>
    exact h.takeSequence hbase hk hp (fun _ _ => id) (fun _ _ => .inl) fun hexpects =>
      absurd (hreply.symm.trans hexpects) nofun
  | writeWhole hk _ hopen =>
    exact h.carry (.row hk rfl rfl id id rfl fun _ _ => id) (.inr ⟨hopen, hbase'⟩)
      (fun _ _ _ _ _ _ => id) fun _ _ _ => .inl
  | writeCut count hk =>
    exact h.row hk rfl rfl rfl id rfl rfl (fun _ => whole_of_append_cut) fun _ _ _ => id
  | @forgetUnwritten k sequence call hk hreply hp hsequence =>
    have hmem : call ∈ conn.calls := List.mem_of_getElem? hk
    have hframe := Call.frame?_of_sequence hsequence
    have hstaged := hbase.staged call hmem
    -- no reply can be to it, so the request that is taken out is its own
    have hcut := hstaged.unsent (by rw [hp]; rfl) _ hframe
    have houtstanding : conn.Outstanding call ⟨sequence, call.opcode, call.payload⟩ :=
      ⟨hframe, hreply, hstaged.kept (.inr (by rw [hp]; rfl)),
        hbase.not_consumed (hbase.numbered.placed call hmem _ hframe) hcut⟩
    refine h.carry (.row hk rfl rfl nofun id rfl fun _ _ hj => (lookup_of_lookup_erase hj).2)
      (.inl fun _ => id) (fun hopen j call₁ frame hj hout hslot => ?_) fun _ _ _ => .inl
    have hne : correlationOf frame.sequence ≠ correlationOf sequence := by
      intro heq
      rw [heq, h.held hopen k call _ hk houtstanding] at hslot
      cases hslot
      obtain rfl := Option.some.inj
        (((getElem?_set_of_some hk _ k).trans (if_pos rfl)).symm.trans hj)
      cases hout.2.2.1
    exact (AList.lookup_erase_ne hne).trans hslot
  | @forgetClosed k sequence call hk _ hp =>
    have hclosed := (hbase.staged call (List.mem_of_getElem? hk)).closing hp
    refine h.carry (.row hk rfl rfl nofun id rfl fun _ _ hj => (lookup_of_lookup_erase hj).2)
      (.inl fun _ => id) (fun hopen => ?_) fun _ _ _ => .inl
    cases hopen.symm.trans hclosed
  | @lookup k sequence reply hp hslot =>
    obtain ⟨hanswerable, hunread⟩ := hbase.of_dispatching hp
    obtain ⟨call, frame, hk, hframe, -⟩ := h.filed _ k hslot
    refine h.carry (.congr rfl id (List.subset_append_left _ _)
      fun _ _ hj => (lookup_of_lookup_erase hj).2) (.inl fun _ => id)
      (fun hopen j call₁ frame₁ hj hout hslot₁ => ?_) fun j s r hj => ?_
    · have hne : correlationOf frame₁.sequence ≠ correlationOf sequence := by
        intro heq
        have hown := (h.held hopen).own hbase hopen hanswerable hunread (heq ▸ hslot₁) hj hout.1
        exact hout.2.2.2 (List.mem_append_right _ (List.mem_singleton.mpr hown))
      exact (AList.lookup_erase_ne hne).trans hslot₁
    · obtain ⟨rfl, rfl, rfl⟩ := ReaderPhase.delivering.inj hj
      refine .inr ⟨call, hk, frame, hframe, ?_⟩
      cases hclosed : conn.closed with
      | false =>
        exact .inl ((h.held hclosed).own hbase hclosed hanswerable hunread hslot hk hframe)
      | true =>
        by_cases hwhole : (frame, none) ∈ conn.written
        · exact .inl (h.apart sequence hanswerable hunread k call frame hslot hk hframe hwhole)
        · exact .inr ⟨hclosed, hwhole⟩
  | lookupNone => exact h.congr rfl id rfl (List.subset_append_left _ _) rfl nofun
  | drop | read => exact h.congr rfl id rfl (fun _ => id) rfl nofun
  | readFail => exact h.congr rfl (fun _ => rfl) rfl (fun _ => id) rfl nofun
  | close => exact h.congr rfl (fun _ => rfl) rfl (fun _ => id) rfl fun _ _ _ => id
  | readPush | answer | push => exact h.congr rfl id rfl (fun _ => id) rfl fun _ _ _ => id

/-! ### Channels and outcomes -/

theorem MayGet.mono (h : conn.MayGet call sequence) (hframe : call'.frame? = call.frame?)
    (hclosed : conn.closed = true → conn'.closed = true)
    (hwritten : (∀ frame, (frame, none) ∈ conn'.written → (frame, none) ∈ conn.written) ∨
      conn.closed = false) : conn'.MayGet call' sequence := by
  obtain ⟨frame, hf, hown⟩ := h
  refine ⟨frame, hframe.trans hf, hown.imp id fun ⟨hc, hcut⟩ => ⟨hclosed hc, fun hwhole => ?_⟩⟩
  rcases hwritten with hwritten | hopen
  · exact hcut (hwritten frame hwhole)
  · cases hopen.symm.trans hc

structure CallChannel (conn : MuxConnection) (call : Call) : Prop where
  channel : ∀ sequence reply, call.reply = some (sequence, reply) → conn.MayGet call sequence
  /-- A caller gets the reply to its own frame. -/
  outcome : ∀ sequence, call.phase.yields = some sequence → call.sequence = some sequence

def Channels (conn : MuxConnection) : Prop := ∀ call ∈ conn.calls, CallChannel conn call

theorem CallChannel.step (h : CallChannel conn call) (hframe : call'.frame? = call.frame?)
    (hsequence : call'.sequence = call.sequence) (hreply : call'.reply = call.reply)
    (hclosed : conn.closed = true → conn'.closed = true)
    (hwritten : (∀ frame, (frame, none) ∈ conn'.written → (frame, none) ∈ conn.written) ∨
      conn.closed = false)
    (hphase : ∀ sequence, call'.phase.yields = some sequence →
      call.phase.yields = some sequence) : CallChannel conn' call' where
  channel sequence reply hr :=
    (h.channel sequence reply (hreply.symm.trans hr)).mono hframe hclosed hwritten
  outcome sequence hp := hsequence.trans (h.outcome sequence (hphase sequence hp))

namespace Channels

theorem row (h : Channels conn) (hcalls : conn'.calls = conn.calls.set k call')
    (hclosed : conn.closed = true → conn'.closed = true)
    (hwritten : (∀ frame, (frame, none) ∈ conn'.written → (frame, none) ∈ conn.written) ∨
      conn.closed = false) (hcall : CallChannel conn' call') : Channels conn' := by
  intro call₁ hmem
  rw [hcalls] at hmem
  rcases List.mem_or_eq_of_mem_set hmem with hmem | rfl
  · exact (h call₁ hmem).step rfl rfl rfl hclosed hwritten fun _ => id
  · exact hcall

theorem congr (h : Channels conn) (hcalls : conn'.calls = conn.calls)
    (hclosed : conn.closed = true → conn'.closed = true)
    (hwritten : conn'.written = conn.written) : Channels conn' := by
  intro call hmem
  rw [hcalls] at hmem
  exact (h call hmem).step rfl rfl rfl hclosed (.inl fun _ hw => hwritten ▸ hw) fun _ => id

theorem abandon (h : Channels conn) (correlation : UInt16) :
    Channels (conn.abandon correlation) := by
  rcases abandon_cases conn correlation with heq | ⟨k, call, hk, heq⟩
  · rw [heq]
    exact h
  · have hcall := h call (List.mem_of_getElem? hk)
    rw [heq]
    exact h.row rfl id (.inl fun _ => id)
      (hcall.step rfl rfl rfl id (.inl fun _ => id) fun _ => id)

theorem spawn {action : UInt16} (h : Channels conn)
    (hcalls : conn'.calls = conn.calls ++ [Call.new opcode payload action identifier])
    (hclosed : conn'.closed = conn.closed) (hwritten : conn'.written = conn.written) :
    Channels conn' := by
  intro call hmem
  rw [hcalls] at hmem
  rcases List.mem_append.mp hmem with hmem | hnew
  · exact (h call hmem).step rfl rfl rfl (fun hc => hclosed.trans hc)
      (.inl fun _ hw => hwritten ▸ hw) fun _ => id
  · obtain rfl := List.mem_singleton.mp hnew
    refine ⟨nofun, fun sequence hp => ?_⟩
    unfold Call.new at hp
    split_ifs at hp <;> cases hp

theorem takeSequence (h : Channels conn) (hbase : Base conn) (hk : conn.calls[k]? = some call)
    (hp : call.phase = .entering) (pending : AList fun _ : UInt16 => Nat) :
    Channels { conn.takeSequence k call with pending } := by
  have hmem : call ∈ conn.calls := List.mem_of_getElem? hk
  have hnone := hbase.numbered.fresh call hmem (by rw [hp]; rfl)
  refine h.row rfl id (.inl fun _ => id) ⟨fun sequence reply hr => ?_, nofun⟩
  obtain ⟨frame, hf, -⟩ := (h call hmem).channel sequence reply hr
  rw [(Call.frame?_eq_some hf).1] at hnone
  cases hnone

end Channels

theorem Transition.channels (htransition : Transition makePayload conn action conn')
    (hbase : Base conn) (hslots : Slots conn) (h : Channels conn) : Channels conn' := by
  cases htransition with
  | call | release => exact h.spawn rfl rfl rfl
  | takeSlot hk | leaveSlot hk | exhaust hk | refuse hk | leaveClosed hk | leaveReply hk
  | forgetUnwritten hk | forgetClosed hk =>
    exact h.row rfl id (.inl fun _ => id)
      ((h _ (List.mem_of_getElem? hk)).step rfl rfl rfl id (.inl fun _ => id) nofun)
  | abandon hk =>
    refine Channels.abandon ?_ _
    exact h.row rfl id (.inl fun _ => id)
      ((h _ (List.mem_of_getElem? hk)).step rfl rfl rfl id (.inl fun _ => id) nofun)
  | @leave k call outcome hk _ hp =>
    refine h.row rfl id (.inl fun _ => id) ((h call (List.mem_of_getElem? hk)).step rfl rfl rfl id
      (.inl fun _ => id) fun sequence hyields => ?_)
    rw [hp]
    cases outcome <;> exact hyields
  | fail hk =>
    refine h.row rfl (fun _ => rfl) (.inl fun _ => id) ((h _ (List.mem_of_getElem? hk)).step rfl rfl
      rfl (fun _ => rfl) (.inl fun _ => id) fun sequence hyields => ?_)
    dsimp only at hyields
    split_ifs at hyields <;> cases hyields
  | enterExchange hk _ hp => exact h.takeSequence hbase hk hp _
  | enterWrite hk _ hp => exact h.takeSequence hbase hk hp conn.pending
  | writeWhole hk _ hopen =>
    refine h.row rfl id (.inr hopen) ((h _ (List.mem_of_getElem? hk)).step rfl rfl rfl id
      (.inr hopen) fun sequence hyields => ?_)
    dsimp only at hyields
    split_ifs at hyields <;> cases hyields
  | writeCut count hk =>
    refine h.row rfl id (.inl fun _ => whole_of_append_cut) ((h _ (List.mem_of_getElem? hk)).step
      rfl rfl rfl id (.inl fun _ => whole_of_append_cut) fun sequence hyields => ?_)
    dsimp only at hyields
    split_ifs at hyields <;> cases hyields
  | @receive k sequence call reply hk _ hp hchannel =>
    have hmem : call ∈ conn.calls := List.mem_of_getElem? hk
    refine h.row rfl id (.inl fun _ => id) ⟨nofun, fun s hyields => ?_⟩
    cases hyields
    -- the call waits, so its frame is out
    obtain ⟨frame, hf, hwhole⟩ := (hbase.staged call hmem).sent (by rw [hp]; rfl)
    obtain ⟨frame', hf', hown | ⟨-, hcut⟩⟩ := (h call hmem).channel sequence reply hchannel
    · rw [← hown]
      exact (Call.frame?_eq_some hf').1
    · rw [Option.some.inj (hf.symm.trans hf')] at hwhole
      exact absurd hwhole hcut
  | @deliver k sequence reply call hp hk =>
    obtain ⟨call', hk', hmay⟩ := hslots.delivering k sequence reply hp
    obtain rfl := Option.some.inj (hk'.symm.trans hk)
    refine h.row rfl id (.inl fun _ => id) ⟨fun s r hr => ?_,
      (h _ (List.mem_of_getElem? hk)).outcome⟩
    obtain ⟨rfl, -⟩ := Prod.mk.inj (Option.some.inj hr)
    exact hmay.mono rfl id (.inl fun _ => id)
  | lookup | lookupNone | drop | read | readPush | answer | push => exact h.congr rfl id rfl
  | readFail | close => exact h.congr rfl (fun _ => rfl) rfl

/-! ### The result -/

theorem Reachable.tracked {nonce : Nonce} {maxInflight : Nat}
    (h : Reachable makePayload nonce maxInflight conn) :
    Base conn ∧ Slots conn ∧ Channels conn := by
  refine h.invariant (I := fun conn => Base conn ∧ Slots conn ∧ Channels conn)
    ⟨.new nonce maxInflight, .new nonce maxInflight, fun _ hmem => absurd hmem List.not_mem_nil⟩ ?_
  rintro conn action conn' - ⟨hbase, hslots, hchannels⟩ - hs
  have htransition := step_spec hs
  exact ⟨htransition.base hbase, htransition.slots hbase hslots,
    htransition.channels hbase hslots hchannels⟩

/-- A request is never replaced in its slot: it is taken out or stays. -/
theorem Transition.pending {c : UInt16}
    (htransition : Transition makePayload conn action conn')
    (hfiled : conn.pending.lookup c = some k) :
    conn'.pending.lookup c = some k ∨ conn'.pending.lookup c = none := by
  have herase : ∀ c', (conn.pending.erase c').lookup c = some k ∨
      (conn.pending.erase c').lookup c = none := by
    intro c'
    by_cases hc : c = c'
    · rw [hc, AList.lookup_erase]
      exact .inr rfl
    · rw [AList.lookup_erase_ne hc]
      exact .inl hfiled
  cases htransition with
  | forgetUnwritten | forgetClosed | lookup => exact herase _
  | enterExchange _ _ _ _ _ hslot =>
    have hc : c ≠ correlationOf conn.sequence := by
      rintro rfl
      rw [hslot] at hfiled
      cases hfiled
    exact .inl ((AList.lookup_insert_ne hc).trans hfiled)
  | abandon =>
    rcases abandon_cases (conn.setCall _ _) _ with heq | ⟨j, call, -, heq⟩
    all_goals
      rw [heq]
      exact .inl hfiled
  | _ => exact .inl hfiled

/-- **Replies reach their own caller.** In every state of a connection:
`readLoop` holds a reply for the request that it answers, unless the connection was closed before
the request it holds was written; a reply that `exchange` returns answers the frame of that call;
while the connection is open each outstanding request has a slot of its own; and no step puts a
request in the place of another. -/
theorem replies_reach_own_caller {nonce : Nonce} {maxInflight : Nat}
    (hreach : Reachable makePayload nonce maxInflight conn) :
    (∀ k sequence reply, conn.reader = .delivering k sequence reply →
      ∃ call, conn.calls[k]? = some call ∧ (call.sequence = some sequence ∨
        conn.closed = true ∧ ∀ w ∈ conn.written, call.frame? = some w.1 → w.2 ≠ none)) ∧
    (∀ call ∈ conn.calls, ∀ sequence reply, call.phase = .returned (.reply sequence reply) →
      call.sequence = some sequence) ∧
    (conn.closed = false → ∀ (k k' : Nat) call call' frame frame', conn.calls[k]? = some call →
      conn.calls[k']? = some call' → conn.Outstanding call frame →
      conn.Outstanding call' frame' →
      correlationOf frame.sequence = correlationOf frame'.sequence → k = k') ∧
    ∀ c k action conn', conn.pending.lookup c = some k →
      conn.step makePayload action = some conn' →
        conn'.pending.lookup c = some k ∨ conn'.pending.lookup c = none := by
  obtain ⟨-, hslots, hchannels⟩ := hreach.tracked
  refine ⟨fun k sequence reply hp => ?_, fun call hmem sequence reply hp => ?_,
    fun hopen k k' call call' frame frame' hk hk' hout hout' hc => ?_,
    fun c k action conn' hfiled hs => (step_spec hs).pending hfiled⟩
  · obtain ⟨call, hk, frame, hframe, hown⟩ := hslots.delivering k sequence reply hp
    refine ⟨call, hk, hown.imp (fun hsequence => ?_) fun ⟨hclosed, hcut⟩ => ⟨hclosed, ?_⟩⟩
    · rw [← hsequence]
      exact (Call.frame?_eq_some hframe).1
    · rintro ⟨frame', cut⟩ hw hframe' rfl
      obtain rfl : frame' = frame := Option.some.inj (hframe'.symm.trans hframe)
      exact hcut hw
  · exact (hchannels call hmem).outcome sequence (by rw [hp]; rfl)
  · have hslot := hslots.held hopen k call frame hk hout
    rw [hc, hslots.held hopen k' call' frame' hk' hout'] at hslot
    exact (Option.some.inj hslot).symm

/-- A charge is written and answered, and `readLoop` has taken its request. -/
def chargeAnswered : List Action :=
  [.call .chargeCredits [] 0 0, .run 0 .takeSlot, .run 0 .enter, .run 0 (.write none),
    .answer 0 .chargeAllowed, .reader .read, .reader .lookup]

theorem replies_reach_own_caller_charge :
    ∃ conn, Reachable (fun _ => none) sampleNonce 64 conn ∧
      conn.reader = .delivering 0 0 .chargeAllowed ∧
      ∃ call, conn.calls[0]? = some call ∧ call.sequence = some 0 := by
  obtain ⟨conn, hreach, hreader, hopen⟩ : ∃ conn, Reachable (fun _ => none) sampleNonce 64 conn ∧
      conn.reader = .delivering 0 0 .chargeAllowed ∧ conn.closed = false :=
    exists_of_runList chargeAnswered (by decide +kernel)
  obtain ⟨call, hk, hown | ⟨hclosed, -⟩⟩ :=
    (replies_reach_own_caller hreach).1 0 0 .chargeAllowed hreader
  · exact ⟨conn, hreach, hreader, call, hk, hown⟩
  · cases hopen.symm.trans hclosed

/-! ### A closed connection -/

theorem exchange_enter (hfree : conn.writeMu = false) (hnext : conn.sequence ≠ 2 ^ 64 - 1)
    (hslot : conn.pending.lookup (correlationOf conn.sequence) = none) :
    conn.exchange k call .enter .entering = some { conn.takeSequence k call with
      pending := conn.pending.insert (correlationOf conn.sequence) k } := by
  unfold exchange
  rw [hfree, if_neg Bool.false_ne_true, if_neg hnext, hslot]

/-- The request under the correlation is taken out. -/
theorem readLoop_lookup (hslot : conn.pending.lookup (correlationOf sequence) = some k) :
    conn.readLoop makePayload .lookup (.dispatching sequence reply) =
      some { conn.forget (correlationOf sequence) with
        consumed := conn.consumed ++ [sequence], reader := .delivering k sequence reply } := by
  unfold readLoop
  dsimp only
  rw [hslot]
  rfl

theorem reaches_log (hfree : conn.writeMu = false) (hopen : conn.closed = false)
    (hnext : conn.sequence ≠ 2 ^ 64 - 1) :
    ∃ conn', Reaches (step makePayload) (fun _ _ => True) conn conn' ∧
      conn'.writeMu = false ∧ conn'.closed = false ∧ conn'.sequence = conn.sequence + 1 ∧
      conn'.pending = conn.pending ∧ conn'.reader = conn.reader ∧
      conn'.consumed = conn.consumed ∧ ∃ logs, conn.calls ++ logs = conn'.calls ∧
        ∀ call ∈ logs, call.opcode = .logRequest := by
  let log := Call.new .logRequest [] 0 0
  let conn₁ := { conn with calls := conn.calls ++ [log] }
  have hlog : conn₁.calls[conn.calls.length]? = some log := List.getElem?_concat_length
  let log₂ := { log with sequence := some conn.sequence, phase := .writing }
  let conn₂ := conn₁.takeSequence conn.calls.length log
  have hlog₂ : conn₂.calls[conn.calls.length]? = some log₂ :=
    (getElem?_set_of_some hlog _ _).trans (if_pos rfl)
  have hcall : conn.step makePayload (.call .logRequest [] 0 0) = some conn₁ := rfl
  have henter : conn₁.step makePayload (.run conn.calls.length .enter) =
      some conn₂ := by
    show conn₁.calls[conn.calls.length]?.bind _ = _
    rw [hlog]
    show (if conn.writeMu = true then none else if conn.sequence = 2 ^ 64 - 1 then _ else _) = _
    rw [hfree, if_neg Bool.false_ne_true, if_neg hnext]
  have hwrite : conn₂.step makePayload (.run conn.calls.length (.write none)) =
      some ((conn₂.writeFrame log₂ conn.sequence none).setCall conn.calls.length
        { log₂ with phase := .returned .sent }) := by
    show conn₂.calls[conn.calls.length]?.bind _ = _
    rw [hlog₂]
    show (if conn.closed = true then none else _) = _
    rw [hopen, if_neg Bool.false_ne_true]
    rfl
  have hset : ∀ x y : Call, (conn.calls ++ [x]).set conn.calls.length y = conn.calls ++ [y] :=
    fun x y => by simp
  refine ⟨_, ((Reaches.refl.tail trivial hcall).tail trivial henter).tail trivial hwrite, rfl,
    hopen, rfl, rfl, rfl, rfl, [{ log₂ with phase := .returned .sent }], ?_, ?_⟩
  · show _ = ((conn.calls ++ [log]).set conn.calls.length log₂).set conn.calls.length _
    rw [hset, hset]
  · intro call hmem
    obtain rfl := List.mem_singleton.mp hmem
    rfl

/-- Any number of request logs go out, as long as there are sequences for them. -/
theorem reaches_logs (n : Nat) (hfree : conn.writeMu = false) (hopen : conn.closed = false)
    (hnext : conn.sequence + n < 2 ^ 64) :
    ∃ conn', Reaches (step makePayload) (fun _ _ => True) conn conn' ∧
      conn'.writeMu = false ∧ conn'.closed = false ∧ conn'.sequence = conn.sequence + n ∧
      conn'.pending = conn.pending ∧ conn'.reader = conn.reader ∧
      conn'.consumed = conn.consumed ∧ ∃ logs, conn.calls ++ logs = conn'.calls ∧
        ∀ call ∈ logs, call.opcode = .logRequest := by
  induction n with
  | zero =>
    exact ⟨conn, .refl, hfree, hopen, rfl, rfl, rfl, rfl, [], List.append_nil _,
      fun _ hmem => absurd hmem List.not_mem_nil⟩
  | succ n ih =>
    obtain ⟨conn₁, hreach, hfree₁, hopen₁, hsequence₁, hpending₁, hreader₁, hconsumed₁, logs₁,
      hcalls₁, hlogs₁⟩ := ih (by omega)
    have hlog : ∃ conn₂, Reaches (step makePayload) (fun _ _ => True) conn₁ conn₂ ∧ _ :=
      reaches_log hfree₁ hopen₁ (by omega)
    obtain ⟨conn₂, hlog, hfree₂, hopen₂, hsequence₂, hpending₂, hreader₂, hconsumed₂, logs₂,
      hcalls₂, hlogs₂⟩ := hlog
    refine ⟨conn₂, hreach.trans hlog, hfree₂, hopen₂, by omega, hpending₂.trans hpending₁,
      hreader₂.trans hreader₁, hconsumed₂.trans hconsumed₁, logs₁ ++ logs₂, ?_, ?_⟩
    · rw [← hcalls₂, ← hcalls₁, List.append_assoc]
    · intro call hmem
      exact (List.mem_append.mp hmem).elim (hlogs₁ call) (hlogs₂ call)

/-- A charge waits for its reply, which `readLoop` has read and not looked up, and a second charge
is about to take its sequence. -/
def chargeUnread : List Action :=
  [.call .chargeCredits [] 0 0, .call .chargeCredits [] 0 0, .run 0 .takeSlot, .run 0 .enter,
    .run 0 (.write none), .run 1 .takeSlot, .answer 0 .chargeAllowed, .reader .read]

/-- A charge at the given phase that took the given sequence. -/
def chargeAt (sequence : Option Nat) (forgotten : Bool) (phase : CallPhase) : Call :=
  ⟨.chargeCredits, [], 0, 0, sequence, none, false, forgotten, phase⟩

/-- After `65535` request logs the next sequence has the correlation of the first. The connection
is closed, the first charge forgets its request, the second takes the slot, and `readLoop` hands it
the reply to the first. -/
theorem stale_reply_handed_over :
    ∃ conn conn', Reachable (fun _ => none) sampleNonce 64 conn ∧
      conn.reader = .delivering 1 0 .chargeAllowed ∧ conn.closed = true ∧
      conn.calls[1]? = some (chargeAt (some 65536) false .writing) ∧
      conn.step (fun _ => none) (.reader .deliver) = some conn' ∧
      conn'.calls[1]? = some { chargeAt (some 65536) false .writing with
        reply := some (0, .chargeAllowed) } := by
  have hrun : ((runList (step fun _ => none) (fun _ _ => True) (new sampleNonce 64)
      chargeUnread).map fun conn => (conn.writeMu, conn.closed, conn.sequence, conn.reader,
        conn.calls)) = some (false, false, 1, .dispatching 0 .chargeAllowed,
          [chargeAt (some 0) false .waiting, chargeAt none false .entering]) := by
    decide +kernel
  obtain ⟨conn₀, hconn₀, hends⟩ := Option.map_eq_some_iff.mp hrun
  obtain ⟨hfree₀, hrest⟩ := Prod.mk.inj hends
  obtain ⟨hopen₀, hrest⟩ := Prod.mk.inj hrest
  obtain ⟨hsequence₀, hrest⟩ := Prod.mk.inj hrest
  obtain ⟨hreader₀, hcalls₀⟩ := Prod.mk.inj hrest
  have hlogs : ∃ conn₁, Reaches (step fun _ => none) (fun _ _ => True) conn₀ conn₁ ∧ _ :=
    reaches_logs 65535 hfree₀ hopen₀ (by omega)
  obtain ⟨conn₁, hlogs, hfree₁, -, hsequence₁, -, hreader₁, -, logs, hcalls₁, -⟩ := hlogs
  have hreach₁ : Reachable (fun _ => none) sampleNonce 64 conn₁ :=
    (Reaches.of_runList hconn₀).trans hlogs
  obtain ⟨nonce, maxInflight, writeMu, sequence, pending, closed, calls, reader, replies, frames,
    written, answered, consumed⟩ := conn₁
  obtain rfl : writeMu = false := hfree₁
  obtain rfl : sequence = 65536 := by
    rw [hsequence₀] at hsequence₁
    exact hsequence₁
  obtain rfl : reader = .dispatching 0 .chargeAllowed := hreader₁.trans hreader₀
  obtain rfl : calls =
      chargeAt (some 0) false .waiting :: chargeAt none false .entering :: logs := by
    rw [hcalls₀] at hcalls₁
    exact hcalls₁.symm
  have hsame : correlationOf 65536 = correlationOf 0 := by decide
  -- the first charge has forgotten its request
  let conn₂ : MuxConnection := ⟨nonce, maxInflight, false, 65536,
    pending.erase (correlationOf 0), true,
    chargeAt (some 0) true (.leaving (.error .closedBeforeReply)) ::
      chargeAt none false .entering :: logs,
    .dispatching 0 .chargeAllowed, replies, frames, written, answered, consumed⟩
  have hreach₂ : Reachable (fun _ => none) sampleNonce 64 conn₂ :=
    ((hreach₁.tail (a := .close) trivial rfl).tail (a := .run 0 (.leaveReply .closedBeforeReply))
      trivial rfl).tail (a := .run 0 .forget) trivial rfl
  -- and the second has its slot
  have hfree : conn₂.pending.lookup (correlationOf 65536) = none := by
    rw [hsame]
    exact AList.lookup_erase _ _
  let conn₃ : MuxConnection :=
    { conn₂.takeSequence 1 (chargeAt none false .entering) with
      pending := conn₂.pending.insert (correlationOf 65536) 1 }
  have hexchange : conn₂.exchange 1 (chargeAt none false .entering) .enter .entering = some conn₃ :=
    exchange_enter rfl (show (65536 : Nat) ≠ 2 ^ 64 - 1 by omega) hfree
  have henter : conn₂.step (fun _ => none) (.run 1 .enter) = some conn₃ := hexchange
  have hfound : conn₃.pending.lookup (correlationOf 0) = some 1 := by
    rw [← hsame]
    exact AList.lookup_insert _
  let conn₄ : MuxConnection :=
    { conn₃.forget (correlationOf 0) with
      consumed := consumed ++ [0], reader := .delivering 1 0 .chargeAllowed }
  have hreadLoop : conn₃.readLoop (fun _ => none) .lookup (.dispatching 0 .chargeAllowed) =
      some conn₄ := readLoop_lookup hfound
  have hlookup : conn₃.step (fun _ => none) (.reader .lookup) = some conn₄ := hreadLoop
  have hcall : conn₄.calls[1]? = some (chargeAt (some 65536) false .writing) := rfl
  have hdeliver : conn₄.step (fun _ => none) (.reader .deliver) =
      some { conn₄.setCall 1 { chargeAt (some 65536) false .writing with
        reply := some (0, .chargeAllowed) } with reader := .reading } := rfl
  refine ⟨conn₄, _, (hreach₂.tail trivial henter).tail trivial hlookup, rfl, rfl, hcall, hdeliver,
    ?_⟩
  exact (getElem?_set_of_some hcall _ 1).trans (if_pos rfl)

end MuxConnection

end Fareward.Client
