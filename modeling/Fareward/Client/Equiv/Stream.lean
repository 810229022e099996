import Fareward.Client.Equiv.Transition
import Fareward.Service.Equiv.Frame

/-!
# The signed stream of a connection

The frames of a connection are signed and written in the order of their sequences: `Signing` is the
invariant, and what carries it is that the goroutine that has taken the last sequence is the one
that holds `writeMu`.

`routed_prefix_of_signed` joins the two ends. A tag is over the sequence and the bytes of one
frame, and the daemon counts the frames it has authenticated itself, so whatever bytes it is given,
the frame that it takes as the `n`-th is the `n`-th that the client signed.
-/

namespace Fareward.Client

open Service

/-- The frame of a call, once it has its sequence. -/
def Call.frame? (call : Call) : Option Frame :=
  call.sequence.map fun sequence => ⟨sequence, call.opcode, call.payload⟩

namespace MuxConnection

variable {makePayload : ReleaseRequest → Option (List UInt8)}
variable {conn conn' : MuxConnection} {k : Nat} {call call' : Call}

structure Signing (conn : MuxConnection) : Prop where
  /-- The sequences are the places in the list of signed frames. -/
  numbered : conn.frames.map Frame.sequence = List.range conn.sequence
  bound : conn.sequence < 2 ^ 64
  /-- One call writes while `writeMu` is locked, and none else. -/
  writers : (conn.calls.countP fun call => call.phase = .writing) = conn.writeMu.toNat
  idle : conn.writeMu = false → conn.written.map Prod.fst = conn.frames
  /-- The frame of the call that writes is the only one that is signed and not written. -/
  writing : ∀ call ∈ conn.calls, call.phase = .writing →
    ∃ frame, call.frame? = some frame ∧ conn.frames = conn.written.map Prod.fst ++ [frame]

namespace Signing

theorem new (nonce : Nonce) (maxInflight : Nat) : Signing (new nonce maxInflight) :=
  ⟨rfl, Nat.two_pow_pos 64, rfl, fun _ => rfl, fun _ hmem => absurd hmem List.not_mem_nil⟩

/-- Calls come and go and change, as long as the one that writes stays. -/
theorem congr (h : Signing conn) (hframes : conn'.frames = conn.frames)
    (hwritten : conn'.written = conn.written) (hsequence : conn'.sequence = conn.sequence)
    (hmu : conn'.writeMu = conn.writeMu)
    (hcount : (conn'.calls.countP fun call => call.phase = .writing) =
      conn.calls.countP fun call => call.phase = .writing)
    (hcalls : ∀ call ∈ conn'.calls, call.phase = .writing →
      ∃ call₀ ∈ conn.calls, call₀.phase = .writing ∧ call₀.frame? = call.frame?) :
    Signing conn' := by
  refine ⟨?_, ?_, ?_, ?_, fun call hmem hp => ?_⟩
  · rw [hframes, hsequence]
    exact h.numbered
  · rw [hsequence]
    exact h.bound
  · rw [hcount, hmu]
    exact h.writers
  · rw [hmu, hwritten, hframes]
    exact h.idle
  · obtain ⟨call₀, hmem₀, hp₀, hframe⟩ := hcalls call hmem hp
    rw [hframes, hwritten, ← hframe]
    exact h.writing call₀ hmem₀ hp₀

/-- A call that keeps its frame and neither starts nor ends to write. -/
theorem row (h : Signing conn) (hk : conn.calls[k]? = some call)
    (hcalls : conn'.calls = conn.calls.set k call')
    (hphase : call'.phase = .writing ↔ call.phase = .writing)
    (hframe : call'.frame? = call.frame?) (hframes : conn'.frames = conn.frames)
    (hwritten : conn'.written = conn.written) (hsequence : conn'.sequence = conn.sequence)
    (hmu : conn'.writeMu = conn.writeMu) : Signing conn' := by
  refine h.congr hframes hwritten hsequence hmu ?_ fun call₁ hmem hp => ?_
  · have hadd := countP_set_add (p := fun call : Call => call.phase = .writing) hk call'
    rw [hcalls]
    simp only [hphase] at hadd
    omega
  · rw [hcalls] at hmem
    rcases List.mem_or_eq_of_mem_set hmem with hold | rfl
    · exact ⟨call₁, hold, hp, rfl⟩
    · exact ⟨call, List.mem_of_getElem? hk, hphase.mp hp, hframe.symm⟩

theorem spawn {opcode : Opcode} {payload : List UInt8} {action : UInt16} {identifier : Int64}
    (h : Signing conn)
    (hcalls : conn'.calls = conn.calls ++ [Call.new opcode payload action identifier])
    (hframes : conn'.frames = conn.frames) (hwritten : conn'.written = conn.written)
    (hsequence : conn'.sequence = conn.sequence) (hmu : conn'.writeMu = conn.writeMu) :
    Signing conn' := by
  have hphase : (Call.new opcode payload action identifier).phase ≠ .writing := by
    unfold Call.new
    split_ifs <;> nofun
  refine h.congr hframes hwritten hsequence hmu ?_ fun call₁ hmem hp => ?_
  · rw [hcalls, List.countP_append, List.countP_singleton, if_neg (by simpa using hphase)]
    rfl
  · rw [hcalls] at hmem
    rcases List.mem_append.mp hmem with hold | hnew
    · exact ⟨call₁, hold, hp, rfl⟩
    · obtain rfl := List.mem_singleton.mp hnew
      exact absurd hp hphase

/-- Whichever call is marked. -/
theorem abandon (h : Signing conn) (correlation : UInt16) : Signing (conn.abandon correlation) := by
  rcases abandon_cases conn correlation with heq | ⟨k, call, hk, heq⟩
  · rw [heq]
    exact h
  · rw [heq]
    exact h.row hk rfl Iff.rfl rfl rfl rfl rfl rfl

/-- The next sequence is taken and its frame signed. -/
theorem takeSequence (h : Signing conn) (hk : conn.calls[k]? = some call)
    (hp : call.phase = .entering) (hfree : conn.writeMu = false)
    (hnext : conn.sequence ≠ 2 ^ 64 - 1) (pending : AList fun _ : UInt16 => Nat) :
    Signing { conn.takeSequence k call with pending } := by
  have hbound := h.bound
  have hnone : (conn.calls.countP fun call => call.phase = .writing) = 0 := by
    rw [h.writers, hfree]
    rfl
  refine ⟨?_, ?_, ?_, nofun, fun call₁ hmem hp₁ => ?_⟩
  · show (conn.frames ++ [_]).map Frame.sequence = List.range (conn.sequence + 1)
    rw [List.map_append, h.numbered, List.range_succ]
    rfl
  · show conn.sequence + 1 < 2 ^ 64
    omega
  · have hadd := countP_set_add (p := fun call : Call => call.phase = .writing) hk
      { call with sequence := some conn.sequence, phase := .writing }
    simp only [hp, hnone] at hadd
    exact hadd
  · rcases List.mem_or_eq_of_mem_set hmem with hold | rfl
    · exact absurd (decide_eq_true hp₁) (List.countP_eq_zero.mp hnone call₁ hold)
    · exact ⟨_, rfl, congrArg (· ++ [_]) (h.idle hfree).symm⟩

theorem writeFrame {sequence : Nat} {phase : CallPhase} (h : Signing conn)
    (hk : conn.calls[k]? = some call) (hp : call.phase = .writing)
    (hsequence : call.sequence = some sequence) (cut : Option Nat) (hphase : phase ≠ .writing) :
    Signing ((conn.writeFrame call sequence cut).setCall k { call with phase }) := by
  have hmem : call ∈ conn.calls := List.mem_of_getElem? hk
  have hcount : ((conn.calls.set k { call with phase }).countP
      fun call => call.phase = .writing) = 0 := by
    have hadd := countP_set_add (p := fun call : Call => call.phase = .writing) hk
      { call with phase }
    have hone : conn.writeMu.toNat ≤ 1 := Bool.toNat_le _
    have hnot : decide (phase = .writing) = false := decide_eq_false hphase
    simp only [hp, hnot, h.writers, decide_true, Bool.toNat_true, Bool.toNat_false] at hadd
    omega
  refine ⟨h.numbered, h.bound, hcount, fun _ => ?_, fun call₁ hmem₁ hp₁ => ?_⟩
  · obtain ⟨frame, hframe, hframes⟩ := h.writing call hmem hp
    unfold Call.frame? at hframe
    rw [hsequence] at hframe
    cases hframe
    show (conn.written ++ [_]).map Prod.fst = conn.frames
    rw [List.map_append, hframes]
    rfl
  · exact absurd (decide_eq_true hp₁) (List.countP_eq_zero.mp hcount call₁ hmem₁)

end Signing

theorem Transition.signing {action : Action}
    (htransition : Transition makePayload conn action conn') (h : Signing conn) :
    Signing conn' := by
  cases htransition with
  | call | release => exact h.spawn rfl rfl rfl rfl rfl
  | takeSlot hk _ hp | leaveSlot hk _ hp | exhaust hk hp | refuse hk _ hp
  | forgetUnwritten hk _ hp | forgetClosed hk _ hp | receive hk _ hp | leaveClosed hk _ hp
  | leaveReply hk _ hp | leave hk _ hp =>
    exact h.row hk rfl (by rw [hp]; exact iff_of_false nofun nofun) rfl rfl rfl rfl rfl
  | fail hk hp =>
    refine h.row hk rfl ?_ rfl rfl rfl rfl rfl
    rw [hp]
    split_ifs
    all_goals exact iff_of_false nofun nofun
  | enterExchange hk _ hp hfree hnext => exact h.takeSequence hk hp hfree hnext _
  | enterWrite hk _ hp hfree hnext => exact h.takeSequence hk hp hfree hnext conn.pending
  | writeWhole hk hp _ hsequence =>
    refine h.writeFrame hk hp hsequence none ?_
    split_ifs <;> nofun
  | writeCut count hk hp hsequence =>
    refine h.writeFrame hk hp hsequence (some count) ?_
    split_ifs <;> nofun
  | abandon hk _ hp =>
    refine Signing.abandon ?_ _
    exact h.row hk rfl (by rw [hp]; exact iff_of_false nofun nofun) rfl rfl rfl rfl rfl
  | deliver hp hk => exact h.row hk rfl Iff.rfl rfl rfl rfl rfl rfl
  | readPush | read | lookup | lookupNone | drop | readFail | close | answer | push =>
    exact h.congr rfl rfl rfl rfl rfl fun call hmem hp => ⟨call, hmem, hp, rfl⟩

theorem Reachable.signing {nonce : Nonce} {maxInflight : Nat}
    (h : Reachable makePayload nonce maxInflight conn) : Signing conn :=
  h.invariant (Signing.new nonce maxInflight) fun _ _ _ _ hsigning _ hs =>
    (step_spec hs).signing hsigning

/-- The connection has signed the bytes for the nonce and the sequence. -/
def Signed (conn : MuxConnection) (nonce : Nonce) (sequence : Nat) (signed : List UInt8) : Prop :=
  conn.nonce = nonce ∧
    ∃ frame ∈ conn.frames, frame.sequence = sequence ∧ frame.signed = signed

namespace Signing

theorem getElem?_sequence (h : Signing conn) {frame : Frame} (hmem : frame ∈ conn.frames) :
    conn.frames[frame.sequence]? = some frame := by
  obtain ⟨i, hi⟩ := List.getElem?_of_mem hmem
  have hmap : (conn.frames.map Frame.sequence)[i]? = some frame.sequence := by
    rw [List.getElem?_map, hi]
    rfl
  rw [h.numbered] at hmap
  obtain ⟨hlt, heq⟩ := List.getElem?_eq_some_iff.mp hmap
  rw [List.getElem_range] at heq
  rw [← heq]
  exact hi

theorem length_frames (h : Signing conn) : conn.frames.length = conn.sequence := by
  rw [← List.length_map Frame.sequence, h.numbered, List.length_range]

/-- The next sequence is on no signed frame. -/
theorem next_not_signed (h : Signing conn) (opcode : Opcode) (payload : List UInt8) :
    (⟨conn.sequence, opcode, payload⟩ : Frame) ∉ conn.frames := by
  intro hmem
  have hlt := (List.getElem?_eq_some_iff.mp (h.getElem?_sequence hmem)).1
  rw [h.length_frames] at hlt
  exact absurd hlt (Nat.lt_irrefl _)

theorem written_prefix (h : Signing conn) : conn.written.map Prod.fst <+: conn.frames := by
  cases hmu : conn.writeMu with
  | false => exact (h.idle hmu) ▸ List.prefix_rfl
  | true =>
    have hpos : 0 < conn.calls.countP fun call => call.phase = .writing := by
      rw [h.writers, hmu]
      exact Nat.one_pos
    obtain ⟨call, hmem, hp⟩ := List.countP_pos_iff.mp hpos
    obtain ⟨frame, -, hframes⟩ := h.writing call hmem (of_decide_eq_true hp)
    exact ⟨[frame], hframes.symm⟩

/-- The places of the written frames. -/
theorem sequences_written (h : Signing conn) :
    (conn.written.map Prod.fst).map Frame.sequence =
      List.range' 0 (conn.written.map Prod.fst).length := by
  rw [← List.range_eq_range', List.prefix_iff_eq_take.mp h.written_prefix, List.map_take,
    h.numbered, List.take_range, List.length_take, h.length_frames]

end Signing

/-- A connection none of whose writes was cut has written its frames one after the other. -/
theorem stream_of_whole {computeHash : ComputeHash}
    (hwhole : ∀ w ∈ conn.written, w.2 = none) :
    conn.stream computeHash = (conn.written.map Prod.fst).flatMap
      (buildFarewardFrame computeHash conn.nonce) := by
  unfold stream
  rw [List.flatMap_map]
  refine List.flatMap_congr fun w hw => ?_
  obtain ⟨frame, cut⟩ := w
  obtain rfl : cut = none := hwhole _ hw
  rfl

/-- **Only a signed prefix is executed.** The daemon has sent the nonce of a connection of the
client and gets any stream of bytes in its place: what it authenticates and routes are the first of
the frames that the connection has signed. And when it gets the stream as it was written, with
every write complete and every payload well formed and within its ceiling, it routes every frame. -/
theorem routed_prefix_of_signed {computeHash : ComputeHash}
    {parse : Opcode → List UInt8 → Operation} {clients : List MuxConnection}
    {client : MuxConnection} {stream : List UInt8}
    (hclients : ∀ c ∈ clients,
      ∃ nonce maxInflight, Reachable makePayload nonce maxInflight c)
    (hnonces : (clients.map MuxConnection.nonce).Nodup) (hclient : client ∈ clients)
    (hideal : ∀ sequence signed received,
      verifyHash computeHash client.nonce sequence signed received = true →
      signed ++ received <:+: stream → ∃ c ∈ clients, c.Signed client.nonce sequence signed) :
    (receive (verifyHash computeHash client.nonce) parse 0 stream).1 <+: client.frames ∧
      (stream = client.stream computeHash → (∀ w ∈ client.written, w.2 = none) →
        (∀ frame ∈ client.frames, frame.payload.length ≤ frame.opcode.maxPayloadSize ∧
          parse frame.opcode frame.payload ≠ .invalid) →
        receive (verifyHash computeHash client.nonce) parse 0 stream =
          (client.written.map Prod.fst, .eof)) := by
  obtain ⟨nonce, maxInflight, hreach⟩ := hclients client hclient
  have hsigning := hreach.signing
  refine ⟨?_, fun hstream hwhole hwell => ?_⟩
  · have hunforged : Unforged (verifyHash computeHash client.nonce) client.frames stream := by
      intro sequence signed received hverify hsegment
      obtain ⟨c, hc, hnonce, frame, hmem, rfl, hsigned⟩ := hideal _ _ _ hverify hsegment
      -- no other connection has the nonce
      obtain rfl : c = client := List.inj_on_of_nodup_map hnonces hc hclient hnonce
      exact ⟨frame, hsigning.getElem?_sequence hmem, rfl, hsigned⟩
    exact receive_prefix hunforged List.suffix_rfl
  · have hlength := hsigning.written_prefix.length_le
    have hbound := hsigning.bound
    have hframes := hsigning.length_frames
    rw [hstream, stream_of_whole hwhole]
    refine receive_flatMap hsigning.sequences_written (by omega) (fun frame _ => ⟨?_, ?_⟩)
      fun frame hmem => hwell frame (hsigning.written_prefix.subset hmem)
    · exact Vector.length_toList
    · exact decide_eq_true rfl

/-- Two request logs, written whole. -/
def sampleLog : List Action :=
  [.call .logRequest [7] 0 0, .call .logRequest [8] 0 0, .run 0 .enter, .run 0 (.write none),
    .run 1 .enter, .run 1 (.write none)]

def sampleNonce : Nonce := Vector.replicate 8 0

/-- A hash that tells the frames of `sampleLog` from all else. -/
def sampleHash : ComputeHash := fun _ sequence signed =>
  if (sequence, signed) ∈ [(0, [0x04, 0, 1, 7]), (1, [0x04, 0, 1, 8])] then Vector.replicate 8 1
  else Vector.replicate 8 2

/-- Both frames of a connection are routed, and when the payload of the second has been tampered
with, no others. -/
theorem routed_prefix_of_signed_log :
    ∃ client, Reachable (fun _ => none) sampleNonce 64 client ∧
      client.frames = [⟨0, .logRequest, [7]⟩, ⟨1, .logRequest, [8]⟩] ∧
      receive (verifyHash sampleHash client.nonce) (fun _ _ => .logRequest) 0
        (client.stream sampleHash) = (client.frames, .eof) ∧
      (receive (verifyHash sampleHash client.nonce) (fun _ _ => .logRequest) 0
        ((client.stream sampleHash).set 15 9)).1 <+: client.frames := by
  obtain ⟨client, hreach, hnonce, hframes, hwritten⟩ :
      ∃ client, Reachable (fun _ => none) sampleNonce 64 client ∧ client.nonce = sampleNonce ∧
        client.frames = [⟨0, .logRequest, [7]⟩, ⟨1, .logRequest, [8]⟩] ∧
        client.written = client.frames.map fun frame => (frame, none) :=
    exists_of_runList sampleLog (by decide +kernel)
  have hstream : client.stream sampleHash = [0x04, 0, 1, 7, 1, 1, 1, 1, 1, 1, 1, 1, 0x04, 0, 1, 8,
      1, 1, 1, 1, 1, 1, 1, 1] := by
    unfold stream
    rw [hwritten, hframes, hnonce]
    decide
  have hclients : ∀ c ∈ [client],
      ∃ nonce maxInflight, Reachable (fun _ => none) nonce maxInflight c :=
    fun c hc => ⟨sampleNonce, 64, List.mem_singleton.mp hc ▸ hreach⟩
  have hideal (stream : List UInt8) (hother : 2 ∉ stream) : ∀ sequence signed received,
      verifyHash sampleHash client.nonce sequence signed received = true →
      signed ++ received <:+: stream → ∃ c ∈ [client], c.Signed client.nonce sequence signed := by
    intro sequence signed received hverify hsegment
    have hreceived := of_decide_eq_true hverify
    unfold sampleHash at hreceived
    split_ifs at hreceived with hframe
    · refine ⟨client, List.mem_cons_self, rfl, ?_⟩
      rw [hframes]
      simp only [List.mem_cons, List.not_mem_nil, or_false, Prod.mk.injEq] at hframe
      rcases hframe with ⟨rfl, rfl⟩ | ⟨rfl, rfl⟩
      · exact ⟨_, List.mem_cons_self, rfl, rfl⟩
      · exact ⟨_, List.mem_cons_of_mem _ List.mem_cons_self, rfl, rfl⟩
    · -- the other tag is not in the stream
      refine absurd (hsegment.subset (List.mem_append_right _ ?_)) hother
      rw [← hreceived]
      decide
  refine ⟨client, hreach, hframes, ?_, ?_⟩
  · have hlist : client.written.map Prod.fst = client.frames := by
      rw [hwritten, hframes]
      rfl
    rw [← hlist]
    exact (routed_prefix_of_signed hclients (List.nodup_singleton _) List.mem_cons_self
      (hideal _ (by rw [hstream]; decide))).2 rfl (by simp [hwritten]) (by rw [hframes]; decide)
  · exact (routed_prefix_of_signed hclients (List.nodup_singleton _) List.mem_cons_self
      (hideal _ (by rw [hstream]; decide))).1

end MuxConnection

end Fareward.Client
