import Fareward.Client.Equiv.Replies

/-!
# When a connection runs out of correlations

`exchange` refuses a request whose correlation is taken. What is filed under a correlation is a
request that is still unanswered (`Filed`), and the correlation of a request is its sequence modulo
`65536`: so one request that waits long enough is met again after `65536` frames, however many of
them have been answered.
-/

namespace Fareward.Client

open Service

namespace MuxConnection

variable {makePayload : ReleaseRequest → Option (List UInt8)}
variable {conn conn' : MuxConnection} {k : Nat} {call call' : Call}

theorem correlationOf_toNat (sequence : Nat) :
    (correlationOf sequence).toNat = sequence % 65536 := by
  unfold correlationOf correlation
  rw [UInt64.toNat_toUInt16, UInt64.toNat_and, UInt64.toNat_ofNat']
  show (sequence % 2 ^ 64 &&& (2 ^ 16 - 1)) % 2 ^ 16 = _
  rw [Nat.and_two_pow_sub_one_eq_mod]
  omega

theorem correlationOf_eq_iff {sequence sequence' : Nat} :
    correlationOf sequence = correlationOf sequence' ↔ sequence % 65536 = sequence' % 65536 := by
  rw [← UInt16.toNat_inj, correlationOf_toNat, correlationOf_toNat]

/-- The sequences of the requests whose replies have not been looked up, those apart that were
forgotten when the connection failed. -/
def unanswered (conn : MuxConnection) : List Nat :=
  conn.calls.filterMap fun call => call.sequence.filter fun sequence =>
    call.opcode.expectsReply && !call.forgotten && decide (sequence ∉ conn.consumed)

theorem mem_unanswered {sequence : Nat} : sequence ∈ conn.unanswered ↔
    ∃ (k : Nat) (call : Call) (frame : Frame), conn.calls[k]? = some call ∧
      conn.Outstanding call frame ∧ frame.sequence = sequence := by
  unfold unanswered
  rw [List.mem_filterMap]
  constructor
  · rintro ⟨call, hmem, hcall⟩
    obtain ⟨hsequence, hwaits⟩ := Option.filter_eq_some_iff.mp hcall
    simp only [Bool.and_eq_true, Bool.not_eq_true', decide_eq_true_eq] at hwaits
    obtain ⟨⟨hreply, hforgotten⟩, hunread⟩ := hwaits
    obtain ⟨k, hk⟩ := List.getElem?_of_mem hmem
    exact ⟨k, call, _, hk, ⟨Call.frame?_of_sequence hsequence, hreply, hforgotten, hunread⟩, rfl⟩
  · rintro ⟨k, call, frame, hk, ⟨hframe, hreply, hforgotten, hunread⟩, rfl⟩
    obtain ⟨hsequence, hopcode⟩ := Call.frame?_eq_some hframe
    refine ⟨call, List.mem_of_getElem? hk, Option.filter_eq_some_iff.mpr ⟨hsequence, ?_⟩⟩
    simp only [Bool.and_eq_true, Bool.not_eq_true', decide_eq_true_eq]
    exact ⟨⟨hopcode ▸ hreply, hforgotten⟩, hunread⟩

/-! ### What is filed is unanswered -/

def Filed (conn : MuxConnection) : Prop :=
  ∀ c k, conn.pending.lookup c = some k → ∃ call frame, conn.calls[k]? = some call ∧
    conn.Outstanding call frame ∧ correlationOf frame.sequence = c

namespace Filed

/-- The calls keep what they wait for, and nothing is filed anew. -/
theorem row (h : Filed conn) (hk : conn.calls[k]? = some call)
    (hcalls : conn'.calls = conn.calls.set k call') (hframe : call'.frame? = call.frame?)
    (hforgotten : call'.forgotten = call.forgotten) (hpending : conn'.pending = conn.pending)
    (hconsumed : conn'.consumed = conn.consumed) : Filed conn' := by
  intro c j hj
  rw [hpending] at hj
  obtain ⟨call₁, frame, hj₁, ⟨hf, hreply, hkept, hunread⟩, hc⟩ := h c j hj
  rw [hcalls, getElem?_set_of_some hk]
  split_ifs with hkj
  · subst hkj
    obtain rfl := Option.some.inj (hk.symm.trans hj₁)
    exact ⟨call', frame, rfl,
      ⟨hframe.trans hf, hreply, hforgotten.trans hkept, hconsumed ▸ hunread⟩, hc⟩
  · exact ⟨call₁, frame, hj₁, ⟨hf, hreply, hkept, hconsumed ▸ hunread⟩, hc⟩

theorem congr (h : Filed conn) (hcalls : conn.calls <+: conn'.calls)
    (hpending : conn'.pending = conn.pending) (hconsumed : conn'.consumed = conn.consumed) :
    Filed conn' := by
  intro c j hj
  rw [hpending] at hj
  obtain ⟨call, frame, hj, ⟨hf, hreply, hkept, hunread⟩, hc⟩ := h c j hj
  obtain ⟨more, hcalls⟩ := hcalls
  have hj' : conn'.calls[j]? = some call := by
    rw [← hcalls, List.getElem?_append_left (List.getElem?_eq_some_iff.mp hj).1, hj]
  exact ⟨call, frame, hj', ⟨hf, hreply, hkept, hconsumed ▸ hunread⟩, hc⟩

theorem abandon (h : Filed conn) (correlation : UInt16) : Filed (conn.abandon correlation) := by
  rcases abandon_cases conn correlation with heq | ⟨k, call, hk, heq⟩
  · rw [heq]
    exact h
  · rw [heq]
    exact h.row hk rfl rfl rfl rfl rfl

/-- The call that forgets its request takes it out. -/
theorem forget {sequence : Nat} (h : Filed conn) (hk : conn.calls[k]? = some call)
    (hsequence : call.sequence = some sequence) :
    Filed ((conn.forget (correlationOf sequence)).setCall k call') := by
  intro c j hj
  obtain ⟨hne, hj⟩ := lookup_of_lookup_erase hj
  obtain ⟨call₁, frame, hj₁, hout, hc⟩ := h c j hj
  have hkj : k ≠ j := by
    rintro rfl
    obtain rfl := Option.some.inj (hk.symm.trans hj₁)
    obtain ⟨hown, -⟩ := Call.frame?_eq_some hout.1
    obtain rfl := Option.some.inj (hsequence.symm.trans hown)
    exact hne hc.symm
  exact ⟨call₁, frame, (getElem?_set_of_some hk _ j).trans ((if_neg hkj).trans hj₁), hout, hc⟩

/-- The reader takes out what is filed for the reply it has read. -/
theorem consume {sequence : Nat} (h : Filed conn) (hcalls : conn'.calls = conn.calls)
    (hconsumed : conn'.consumed = conn.consumed ++ [sequence])
    (hpending : ∀ c j, conn'.pending.lookup c = some j →
      c ≠ correlationOf sequence ∧ conn.pending.lookup c = some j) : Filed conn' := by
  intro c j hj
  obtain ⟨hne, hj⟩ := hpending c j hj
  obtain ⟨call, frame, hcall, ⟨hf, hreply, hkept, hunread⟩, rfl⟩ := h c j hj
  refine ⟨call, frame, hcalls ▸ hcall, ⟨hf, hreply, hkept, fun hmem => ?_⟩, rfl⟩
  rcases List.mem_append.mp (hconsumed ▸ hmem) with hmem | hlast
  · exact hunread hmem
  · exact hne (congrArg correlationOf (List.mem_singleton.mp hlast))

end Filed

theorem Transition.filed {action : Action}
    (htransition : Transition makePayload conn action conn') (hbase : Base conn)
    (h : Filed conn) : Filed conn' := by
  have htake : ∀ {k call}, conn.calls[k]? = some call → call.phase = .entering →
      Filed { conn.takeSequence k call with pending := conn.pending } := by
    intro k call hk hp c j hj
    obtain ⟨call₁, frame, hj₁, hout, hc⟩ := h c j hj
    have hkj : k ≠ j := by
      rintro rfl
      obtain rfl := Option.some.inj (hk.symm.trans hj₁)
      have hfresh := hbase.numbered.fresh call (List.mem_of_getElem? hk) (by rw [hp]; rfl)
      rw [(Call.frame?_eq_some hout.1).1] at hfresh
      cases hfresh
    exact ⟨call₁, frame, (getElem?_set_of_some hk _ j).trans ((if_neg hkj).trans hj₁), hout, hc⟩
  cases htransition with
  | call | release => exact h.congr (List.prefix_append _ _) rfl rfl
  | takeSlot hk | leaveSlot hk | exhaust hk | refuse hk | receive hk | leaveClosed hk
  | leaveReply hk | leave hk | fail hk | deliver _ hk | writeWhole hk | writeCut _ hk =>
    exact h.row hk rfl rfl rfl rfl rfl
  | abandon hk =>
    refine Filed.abandon ?_ _
    exact h.row hk rfl rfl rfl rfl rfl
  | forgetUnwritten hk _ _ hsequence | forgetClosed hk _ _ hsequence =>
    exact h.forget hk hsequence
  | enterWrite hk _ hp => exact htake hk hp
  | @enterExchange k call hk hreply hp =>
    intro c j hj
    by_cases hc : c = correlationOf conn.sequence
    · subst hc
      obtain rfl := Option.some.inj ((AList.lookup_insert _).symm.trans hj)
      refine ⟨_, ⟨conn.sequence, call.opcode, call.payload⟩,
        (getElem?_set_of_some hk _ k).trans (if_pos rfl), ⟨rfl, hreply, ?_, ?_⟩, rfl⟩
      · exact (hbase.staged call (List.mem_of_getElem? hk)).kept (.inl (by rw [hp]; rfl))
      · intro hconsumed
        obtain ⟨frame, hwhole, hsequence, -⟩ := answerable_iff.mp
          (hbase.wire.answerable _ (hbase.wire.order ▸ List.mem_append_left _ hconsumed))
        obtain ⟨_, opcode, payload⟩ := frame
        obtain rfl : _ = conn.sequence := hsequence
        exact hbase.signing.next_not_signed _ _ (hbase.mem_frames_of_written hwhole)
    · exact htake hk hp c j ((AList.lookup_insert_ne hc).symm.trans hj)
  | lookup => exact h.consume rfl rfl fun _ _ => lookup_of_lookup_erase
  | lookupNone _ hslot =>
    refine h.consume rfl rfl fun c j hj => ⟨?_, hj⟩
    rintro rfl
    cases hslot.symm.trans hj
  | drop | read | readPush | answer | push | readFail | close =>
    exact h.congr List.prefix_rfl rfl rfl

theorem Reachable.filed {nonce : Nonce} {maxInflight : Nat}
    (h : Reachable makePayload nonce maxInflight conn) : Base conn ∧ Filed conn := by
  refine h.invariant (I := fun conn => Base conn ∧ Filed conn)
    ⟨.new nonce maxInflight, fun c k hk => ?_⟩ ?_
  · rw [show (MuxConnection.new nonce maxInflight).pending = ∅ from rfl, AList.lookup_empty] at hk
    cases hk
  · rintro conn action conn' - ⟨hbase, hfiled⟩ - hs
    exact ⟨(step_spec hs).base hbase, (step_spec hs).filed hbase hfiled⟩

/-- The correlation of the next sequence is taken by an unanswered request that has the same. -/
theorem Filed.lookup_eq_none_iff (h : Filed conn) :
    conn.pending.lookup (correlationOf conn.sequence) = none ↔
      ∀ sequence ∈ conn.unanswered, conn.pending.lookup (correlationOf sequence) ≠ none →
        sequence % 65536 ≠ conn.sequence % 65536 := by
  constructor
  · intro hfree sequence _ hfiled hsame
    rw [correlationOf_eq_iff.mpr hsame] at hfiled
    exact hfiled hfree
  · intro hall
    cases hslot : conn.pending.lookup (correlationOf conn.sequence) with
    | none => rfl
    | some k =>
      obtain ⟨call, frame, hk, hout, hc⟩ := h _ k hslot
      refine absurd (correlationOf_eq_iff.mp hc) (hall frame.sequence ?_ ?_)
      · exact mem_unanswered.mpr ⟨k, call, frame, hk, hout, rfl⟩
      · rw [hc, hslot]
        nofun

/-- **When `exchange` refuses.** A request is refused only while `65536` others are unanswered
exactly if none of the unanswered requests that are filed has the sequence of the next frame modulo
`65536`, or `65536` are unanswered, or the sequences themselves have run out; and in an open
connection every unanswered request is filed. -/
theorem exchange_refuses_only_full_iff {nonce : Nonce} {maxInflight : Nat}
    (hreach : Reachable makePayload nonce maxInflight conn)
    (hk : conn.calls[k]? = some call) (hreply : call.opcode.expectsReply = true)
    (hs : conn.step makePayload (.run k .enter) = some conn') :
    ((conn'.calls[k]?.map Call.phase = some (.leaving (.error .tooManyInFlight)) →
        65536 ≤ conn.unanswered.length) ↔
      conn.sequence = 2 ^ 64 - 1 ∨
      (∀ sequence ∈ conn.unanswered, conn.pending.lookup (correlationOf sequence) ≠ none →
        sequence % 65536 ≠ conn.sequence % 65536) ∨
      65536 ≤ conn.unanswered.length) ∧
    (conn.closed = false → ∀ sequence ∈ conn.unanswered,
      conn.pending.lookup (correlationOf sequence) ≠ none) := by
  obtain ⟨-, hfiled⟩ := hreach.filed
  obtain ⟨-, hslots, -⟩ := hreach.tracked
  refine ⟨?_, fun hopen sequence hmem => ?_⟩
  · rw [← hfiled.lookup_eq_none_iff]
    have hset : ∀ call', (conn.calls.set k call')[k]?.map Call.phase = some call'.phase := by
      intro call'
      rw [getElem?_set_of_some hk, if_pos rfl]
      rfl
    cases step_spec hs with
    | exhaust hk' hp _ hlast =>
      refine iff_of_true (fun hphase => ?_) (.inl hlast)
      cases Option.some.inj ((hset _).symm.trans hphase)
    | refuse hk' _ hp _ hnext htaken =>
      rw [htaken]
      constructor
      · intro hfull
        exact .inr (.inr (hfull (hset _)))
      · rintro (hlast | hnone | hfull) _
        · exact absurd hlast hnext
        · cases hnone
        · exact hfull
    | enterExchange hk' _ hp _ _ hslot =>
      refine iff_of_true (fun hphase => ?_) (.inr (.inl hslot))
      cases Option.some.inj ((hset _).symm.trans hphase)
    | enterWrite hk' hnone =>
      obtain rfl := Option.some.inj (hk.symm.trans hk')
      cases hnone.symm.trans hreply
  · obtain ⟨j, call₁, frame, hj, hout, rfl⟩ := mem_unanswered.mp hmem
    rw [hslots.held hopen j call₁ frame hj hout]
    nofun

/-- Payloads that the client writes, as its tests pin them: an acquire of `(7, -42)`, a charge of
company `0x123456`, and the invalidation of one user of company `7`. -/
def samplePayload : Opcode → List UInt8
  | .lockAcquire => [0x04, 0x07, 0x1C, 0x01, 0x2A, 0x22, 0x35, 0x88, 0x13, 0x45, 0x98, 0x3A]
  | .chargeCredits => [0x06, 0x56, 0x34, 0x12, 0x14, 0x2A, 0x24, 0x67, 0x35, 0x2C, 0x01, 0x44, 0x19,
    0x65, 0x39, 0x01, 0x74, 0x8B]
  | .invalidateUserAccess => [0x04, 0x07, 0x15, 0x2C, 0x01]
  | _ => []

/-- An acquire waits for its reply, and a charge is about to take its sequence. -/
def acquireWaits : List Action :=
  [.call .lockAcquire (samplePayload .lockAcquire) 7 (-42),
    .call .chargeCredits (samplePayload .chargeCredits) 0 0, .run 0 .takeSlot, .run 0 .enter,
    .run 0 (.write none), .run 1 .takeSlot]

/-- The acquire of `acquireWaits`. -/
def waitingAcquire : Call :=
  ⟨.lockAcquire, samplePayload .lockAcquire, 7, -42, some 0, none, false, false, .waiting⟩

/-- The charge of `acquireWaits`, at the given phase. -/
def secondCharge (phase : CallPhase) : Call :=
  ⟨.chargeCredits, samplePayload .chargeCredits, 0, 0, none, none, false, false, phase⟩

theorem acquireWaits_reaches : ∃ conn, Reachable (fun _ => none) sampleNonce 64 conn ∧
    conn.writeMu = false ∧ conn.closed = false ∧ conn.sequence = 1 ∧ conn.consumed = [] ∧
    (conn.pending.lookup (correlationOf 0)).isSome = true ∧
    conn.calls = [waitingAcquire, secondCharge .entering] := by
  exact exists_of_runList acquireWaits (by decide +kernel)

/-- The charge is let in while the acquire waits. -/
theorem exchange_refuses_only_full_second : ∃ conn conn',
    Reachable (fun _ => none) sampleNonce 64 conn ∧
    conn.step (fun _ => none) (.run 1 .enter) = some conn' ∧
    (conn'.calls[1]?.map Call.phase = some (.leaving (.error .tooManyInFlight)) →
      65536 ≤ conn.unanswered.length) := by
  obtain ⟨conn, hreach, hfree, hopen, hsequence, hconsumed, -, hcalls⟩ := acquireWaits_reaches
  have hk : conn.calls[1]? = some (secondCharge .entering) := by
    rw [hcalls]
    rfl
  have hwaits : conn.unanswered = [0] := by
    unfold unanswered
    rw [hcalls, hconsumed]
    rfl
  have hnext : conn.sequence ≠ 2 ^ 64 - 1 := by
    rw [hsequence]
    omega
  have hother : ∀ sequence ∈ conn.unanswered,
      conn.pending.lookup (correlationOf sequence) ≠ none →
        sequence % 65536 ≠ conn.sequence % 65536 := by
    intro sequence hmem _
    rw [hwaits, List.mem_singleton] at hmem
    omega
  have hslot := hreach.filed.2.lookup_eq_none_iff.mpr hother
  have hs : conn.step (fun _ => none) (.run 1 .enter) =
      some { conn.takeSequence 1 (secondCharge .entering) with
        pending := conn.pending.insert (correlationOf conn.sequence) 1 } := by
    show conn.calls[1]?.bind _ = _
    rw [hk]
    exact exchange_enter hfree hnext hslot
  exact ⟨conn, _, hreach, hs,
    (exchange_refuses_only_full_iff hreach hk rfl hs).1.mpr (.inr (.inl hother))⟩

/-- After `65535` request logs the charge has the correlation of the acquire, which is the only
request that is unanswered. -/
theorem exchange_refuses_near_empty : ∃ conn conn',
    Reachable (fun _ => none) sampleNonce 64 conn ∧ conn.closed = false ∧
    conn.unanswered = [0] ∧ conn.step (fun _ => none) (.run 1 .enter) = some conn' ∧
    conn'.calls[1]?.map Call.phase = some (.leaving (.error .tooManyInFlight)) := by
  obtain ⟨conn₀, hreach₀, hfree₀, hopen₀, hsequence₀, hconsumed₀, hfiled₀, hcalls₀⟩ :=
    acquireWaits_reaches
  have hlogs : ∃ conn, Reaches (step fun _ => none) (fun _ _ => True) conn₀ conn ∧ _ :=
    reaches_logs 65535 hfree₀ hopen₀ (by omega)
  obtain ⟨conn, hlogs, hfree, hopen, hsequence, hpending, -, hconsumed, logs, hcalls, hlog⟩ :=
    hlogs
  rw [hcalls₀] at hcalls
  have hk : conn.calls[1]? = some (secondCharge .entering) := by
    rw [← hcalls]
    rfl
  have hwaits : conn.unanswered = [0] := by
    have hrest : logs.filterMap (fun call => call.sequence.filter fun sequence =>
        call.opcode.expectsReply && !call.forgotten && decide (sequence ∉ ([] : List Nat))) =
          [] := by
      rw [List.filterMap_eq_nil_iff]
      intro call hmem
      rw [Option.filter_eq_none_iff]
      intro sequence _
      rw [hlog call hmem]
      nofun
    unfold unanswered
    rw [← hcalls, hconsumed, hconsumed₀, List.filterMap_append, hrest]
    rfl
  have htaken : (conn.pending.lookup (correlationOf conn.sequence)).isSome = true := by
    rw [hsequence, hsequence₀, hpending]
    exact hfiled₀
  obtain ⟨other, htaken⟩ := Option.isSome_iff_exists.mp htaken
  have hnext : conn.sequence ≠ 2 ^ 64 - 1 := by omega
  refine ⟨conn, conn.setCall 1
      (secondCharge (.leaving (.error .tooManyInFlight))), hreach₀.trans hlogs, hopen,
    hwaits, ?_, ?_⟩
  · show conn.calls[1]?.bind _ = _
    rw [hk]
    show conn.exchange 1 (secondCharge .entering) .enter .entering = _
    unfold exchange
    rw [hfree, if_neg Bool.false_ne_true, if_neg hnext, htaken]
    rfl
  · show (conn.calls.set 1 _)[1]?.map Call.phase = _
    rw [getElem?_set_of_some hk, if_pos rfl]
    rfl

end MuxConnection

end Fareward.Client
