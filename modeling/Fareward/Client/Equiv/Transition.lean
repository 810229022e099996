import Fareward.Lib.Machine
import Fareward.Client.Connection

/-!
# What a step of the client's connection can do

`Transition` lists the steps, each with its guard and the state it leads to, and `step_spec` says
that `step` takes no other. The steps that `exchange` and `write` share are one transition, with
the phase that follows by whether the opcode is answered.
-/

namespace Fareward.Client

open Service

variable {action : MuxConnection.CallAction} {phase : CallPhase}

namespace MuxConnection

variable {makePayload : ReleaseRequest → Option (List UInt8)}
variable {conn conn' : MuxConnection} {k : Nat} {call : Call}

/-- A step from `conn` by an action to the state that follows. -/
inductive Transition (makePayload : ReleaseRequest → Option (List UInt8))
    (conn : MuxConnection) : Action → MuxConnection → Prop
  | call (opcode : Opcode) (payload : List UInt8) (action : UInt16) (identifier : Int64) :
    Transition makePayload conn (.call opcode payload action identifier)
      { conn with calls := conn.calls ++ [Call.new opcode payload action identifier] }
  | takeSlot {k : Nat} {call : Call} (hk : conn.calls[k]? = some call)
    (hreply : call.opcode.expectsReply = true) (hp : call.phase = .slot)
    (hfree : conn.slotsTaken call.opcode.isSequence < conn.maxInflight) :
    Transition makePayload conn (.run k .takeSlot)
      (conn.setCall k { call with phase := .entering })
  | leaveSlot {k : Nat} {call : Call} {error : CallError} (hk : conn.calls[k]? = some call)
    (hreply : call.opcode.expectsReply = true) (hp : call.phase = .slot)
    (herror : error = .closedBeforeSlot ∧ conn.closed = true ∨ error = .cancelled ∨
      error = .timedOutBeforeSlot) :
    Transition makePayload conn (.run k (.leaveSlot error))
      (conn.setCall k { call with phase := .returned (.error error) })
  | exhaust {k : Nat} {call : Call} (hk : conn.calls[k]? = some call)
    (hp : call.phase = .entering) (hfree : conn.writeMu = false)
    (hlast : conn.sequence = 2 ^ 64 - 1) :
    Transition makePayload conn (.run k .enter)
      (conn.setCall k { call with phase := .failing .sequenceExhausted })
  | refuse {k other : Nat} {call : Call} (hk : conn.calls[k]? = some call)
    (hreply : call.opcode.expectsReply = true) (hp : call.phase = .entering)
    (hfree : conn.writeMu = false) (hnext : conn.sequence ≠ 2 ^ 64 - 1)
    (htaken : conn.pending.lookup (correlationOf conn.sequence) = some other) :
    Transition makePayload conn (.run k .enter)
      (conn.setCall k { call with phase := .leaving (.error .tooManyInFlight) })
  | enterExchange {k : Nat} {call : Call} (hk : conn.calls[k]? = some call)
    (hreply : call.opcode.expectsReply = true) (hp : call.phase = .entering)
    (hfree : conn.writeMu = false) (hnext : conn.sequence ≠ 2 ^ 64 - 1)
    (hslot : conn.pending.lookup (correlationOf conn.sequence) = none) :
    Transition makePayload conn (.run k .enter)
      { conn.takeSequence k call with
        pending := conn.pending.insert (correlationOf conn.sequence) k }
  | enterWrite {k : Nat} {call : Call} (hk : conn.calls[k]? = some call)
    (hreply : call.opcode.expectsReply = false) (hp : call.phase = .entering)
    (hfree : conn.writeMu = false) (hnext : conn.sequence ≠ 2 ^ 64 - 1) :
    Transition makePayload conn (.run k .enter) (conn.takeSequence k call)
  | writeWhole {k sequence : Nat} {call : Call} (hk : conn.calls[k]? = some call)
    (hp : call.phase = .writing) (hopen : conn.closed = false)
    (hsequence : call.sequence = some sequence) :
    Transition makePayload conn (.run k (.write none))
      ((conn.writeFrame call sequence none).setCall k
        { call with phase := if call.opcode.expectsReply then .waiting else .returned .sent })
  | writeCut {k sequence : Nat} {call : Call} (count : Nat) (hk : conn.calls[k]? = some call)
    (hp : call.phase = .writing) (hsequence : call.sequence = some sequence) :
    Transition makePayload conn (.run k (.write (some count)))
      ((conn.writeFrame call sequence (some count)).setCall k
        { call with
          phase := if call.opcode.expectsReply then .unwritten else .failing .writeFailed })
  | forgetUnwritten {k sequence : Nat} {call : Call} (hk : conn.calls[k]? = some call)
    (hreply : call.opcode.expectsReply = true) (hp : call.phase = .unwritten)
    (hsequence : call.sequence = some sequence) :
    Transition makePayload conn (.run k .forget)
      ((conn.forget (correlationOf sequence)).setCall k
        { call with forgotten := true, phase := .failing .writeFailed })
  | forgetClosed {k sequence : Nat} {call : Call} (hk : conn.calls[k]? = some call)
    (hreply : call.opcode.expectsReply = true) (hp : call.phase = .forgetting)
    (hsequence : call.sequence = some sequence) :
    Transition makePayload conn (.run k .forget)
      ((conn.forget (correlationOf sequence)).setCall k
        { call with forgotten := true, phase := .leaving (.error .closedBeforeReply) })
  | receive {k sequence : Nat} {call : Call} {reply : Reply} (hk : conn.calls[k]? = some call)
    (hreply : call.opcode.expectsReply = true) (hp : call.phase = .waiting)
    (hchannel : call.reply = some (sequence, reply)) :
    Transition makePayload conn (.run k .receive)
      (conn.setCall k { call with reply := none, phase := .leaving (.reply sequence reply) })
  | leaveClosed {k : Nat} {call : Call} (hk : conn.calls[k]? = some call)
    (hreply : call.opcode.expectsReply = true) (hp : call.phase = .waiting)
    (hclosed : conn.closed = true) :
    Transition makePayload conn (.run k (.leaveReply .closedBeforeReply))
      (conn.setCall k { call with phase := .forgetting })
  | leaveReply {k : Nat} {call : Call} {error : CallError} (hk : conn.calls[k]? = some call)
    (hreply : call.opcode.expectsReply = true) (hp : call.phase = .waiting)
    (herror : error = .cancelled ∨ error = .timedOutBeforeReply) :
    Transition makePayload conn (.run k (.leaveReply error))
      (conn.setCall k { call with phase := .abandoning error })
  | abandon {k sequence : Nat} {call : Call} {error : CallError} (hk : conn.calls[k]? = some call)
    (hreply : call.opcode.expectsReply = true) (hp : call.phase = .abandoning error)
    (hsequence : call.sequence = some sequence) :
    Transition makePayload conn (.run k .abandon)
      ((conn.setCall k { call with phase := .leaving (.error error) }).abandon
        (correlationOf sequence))
  | fail {k : Nat} {call : Call} {error : CallError} (hk : conn.calls[k]? = some call)
    (hp : call.phase = .failing error) :
    Transition makePayload conn (.run k .fail)
      (conn.fail.setCall k
        { call with
          phase := if call.opcode.expectsReply then .leaving (.error error)
            else .returned (.error error) })
  | leave {k : Nat} {call : Call} {outcome : Outcome} (hk : conn.calls[k]? = some call)
    (hreply : call.opcode.expectsReply = true) (hp : call.phase = .leaving outcome) :
    Transition makePayload conn (.run k .leave)
      (conn.setCall k { call with phase := .returned outcome })
  | readPush {sequence : Nat} {reply : Reply} {replies : List (Nat × Reply)}
    (hp : conn.reader = .reading) (hreplies : conn.replies = (sequence, reply) :: replies)
    (hopen : conn.closed = false) (hpush : reply.isPush = true) :
    Transition makePayload conn (.reader .read) { conn with replies }
  | read {sequence : Nat} {reply : Reply} {replies : List (Nat × Reply)}
    (hp : conn.reader = .reading) (hreplies : conn.replies = (sequence, reply) :: replies)
    (hopen : conn.closed = false) (hpush : reply.isPush = false) :
    Transition makePayload conn (.reader .read)
      { conn with replies, reader := .dispatching sequence reply }
  | lookup {k sequence : Nat} {reply : Reply} (hp : conn.reader = .dispatching sequence reply)
    (hslot : conn.pending.lookup (correlationOf sequence) = some k) :
    Transition makePayload conn (.reader .lookup)
      { conn.forget (correlationOf sequence) with
        consumed := conn.consumed ++ [sequence], reader := .delivering k sequence reply }
  | lookupNone {sequence : Nat} {reply : Reply} (hp : conn.reader = .dispatching sequence reply)
    (hslot : conn.pending.lookup (correlationOf sequence) = none) :
    Transition makePayload conn (.reader .lookup)
      { conn with consumed := conn.consumed ++ [sequence], reader := .reading }
  | release {k sequence : Nat} {generation : UInt16} {call : Call} {payload : List UInt8}
    (hp : conn.reader = .delivering k sequence (.lockGranted generation))
    (hk : conn.calls[k]? = some call) (habandoned : call.abandoned = true)
    (hopcode : call.opcode = .lockAcquire)
    (hpayload : makePayload ⟨call.action, call.identifier, generation⟩ = some payload) :
    Transition makePayload conn (.reader .deliver)
      { conn with
        calls := conn.calls ++ [Call.new .lockRelease payload call.action call.identifier]
        reader := .reading }
  | drop {k sequence : Nat} {reply : Reply} {call : Call}
    (hp : conn.reader = .delivering k sequence reply) (hk : conn.calls[k]? = some call)
    (habandoned : call.abandoned = true)
    (hrelease : ∀ generation, call.opcode = .lockAcquire → reply = .lockGranted generation →
      makePayload ⟨call.action, call.identifier, generation⟩ = none) :
    Transition makePayload conn (.reader .deliver) { conn with reader := .reading }
  | deliver {k sequence : Nat} {reply : Reply} {call : Call}
    (hp : conn.reader = .delivering k sequence reply) (hk : conn.calls[k]? = some call)
    (habandoned : call.abandoned = false) (hroom : call.reply = none) :
    Transition makePayload conn (.reader .deliver)
      { conn.setCall k { call with reply := some (sequence, reply) } with reader := .reading }
  | readFail (hp : conn.reader = .reading) :
    Transition makePayload conn (.reader .fail) { conn.fail with reader := .ended }
  | close : Transition makePayload conn .close conn.fail
  | answer {sequence : Nat} {reply : Reply} (hanswerable : conn.answerable sequence = true)
    (honce : sequence ∉ conn.answered) (hpush : reply.isPush = false) :
    Transition makePayload conn (.answer sequence reply)
      { conn with
        replies := conn.replies ++ [(sequence, reply)]
        answered := conn.answered ++ [sequence] }
  | push {push : Reply} (hpush : push.isPush = true) :
    Transition makePayload conn (.push push)
      { conn with replies := conn.replies ++ [(0, push)] }

/-- A call that has returned takes no step. -/
theorem Transition.not_returned {own : CallAction} {outcome : Outcome}
    (htransition : Transition makePayload conn (.run k own) conn')
    (hk : conn.calls[k]? = some call) : call.phase ≠ .returned outcome := by
  intro hphase
  cases htransition with
  | takeSlot hk₁ _ hp | leaveSlot hk₁ _ hp | exhaust hk₁ hp | refuse hk₁ _ hp
  | enterExchange hk₁ _ hp | enterWrite hk₁ _ hp | writeWhole hk₁ hp | writeCut _ hk₁ hp
  | forgetUnwritten hk₁ _ hp | forgetClosed hk₁ _ hp | abandon hk₁ _ hp | fail hk₁ hp
  | receive hk₁ _ hp | leaveClosed hk₁ _ hp | leaveReply hk₁ _ hp | leave hk₁ _ hp =>
    obtain rfl := Option.some.inj (hk.symm.trans hk₁)
    cases hp.symm.trans hphase

/-- What `abandon` does: at most, it marks one call. -/
theorem abandon_cases (conn : MuxConnection) (correlation : UInt16) :
    conn.abandon correlation = conn ∨ ∃ k call, conn.calls[k]? = some call ∧
      conn.abandon correlation = conn.setCall k { call with abandoned := true } := by
  unfold abandon
  split
  · next k _ =>
    cases hk : conn.calls[k]? with
    | none =>
      rw [modify_of_getElem?_eq_none hk]
      exact .inl rfl
    | some call =>
      rw [modify_eq_set hk]
      exact .inr ⟨k, call, hk, rfl⟩
  · exact .inl rfl

theorem exchange_spec (hk : conn.calls[k]? = some call) (hreply : call.opcode.expectsReply = true)
    (hp : call.phase = phase) (hs : conn.exchange k call action phase = some conn') :
    Transition makePayload conn (.run k action) conn' := by
  cases action with
  | takeSlot =>
    cases phase <;> try cases hs
    obtain ⟨hfree, hs⟩ := Option.ite_none_right_eq_some.mp hs
    cases hs
    exact .takeSlot hk hreply hp hfree
  | leaveSlot =>
    cases phase <;> try cases hs
    obtain ⟨herror, hs⟩ := Option.ite_none_right_eq_some.mp hs
    cases hs
    exact .leaveSlot hk hreply hp herror
  | enter =>
    cases phase <;> try cases hs
    obtain ⟨hfree, hs⟩ := Option.ite_none_left_eq_some.mp hs
    have hfree := Bool.eq_false_of_not_eq_true hfree
    split_ifs at hs with hlast
    · cases hs
      exact .exhaust hk hp hfree hlast
    · split at hs
      · next other htaken =>
        cases hs
        exact .refuse hk hreply hp hfree hlast htaken
      · next hslot =>
        cases hs
        exact .enterExchange hk hreply hp hfree hlast hslot
  | write cut =>
    cases cut with
    | none =>
      cases phase <;> try cases hs
      obtain ⟨hopen, hs⟩ := Option.ite_none_left_eq_some.mp hs
      obtain ⟨sequence, hsequence, rfl⟩ := Option.map_eq_some_iff.mp hs
      have hwrite : Transition makePayload conn (.run k (.write none)) _ :=
        .writeWhole hk hp (Bool.eq_false_of_not_eq_true hopen) hsequence
      rwa [if_pos hreply] at hwrite
    | some count =>
      cases phase <;> try cases hs
      obtain ⟨sequence, hsequence, rfl⟩ := Option.map_eq_some_iff.mp hs
      have hwrite : Transition makePayload conn (.run k (.write (some count))) _ :=
        .writeCut count hk hp hsequence
      rwa [if_pos hreply] at hwrite
  | receive =>
    cases phase <;> try cases hs
    obtain ⟨⟨sequence, reply⟩, hchannel, rfl⟩ := Option.map_eq_some_iff.mp hs
    exact .receive hk hreply hp hchannel
  | leaveReply error =>
    cases phase <;> cases error <;> try cases hs
    · exact .leaveReply hk hreply hp (.inl rfl)
    · obtain ⟨hclosed, hs⟩ := Option.ite_none_right_eq_some.mp hs
      cases hs
      exact .leaveClosed hk hreply hp hclosed
    · exact .leaveReply hk hreply hp (.inr rfl)
  | forget =>
    cases phase <;> try cases hs
    · obtain ⟨sequence, hsequence, rfl⟩ := Option.map_eq_some_iff.mp hs
      exact .forgetUnwritten hk hreply hp hsequence
    · obtain ⟨sequence, hsequence, rfl⟩ := Option.map_eq_some_iff.mp hs
      exact .forgetClosed hk hreply hp hsequence
  | abandon =>
    cases phase <;> try cases hs
    obtain ⟨sequence, hsequence, rfl⟩ := Option.map_eq_some_iff.mp hs
    exact .abandon hk hreply hp hsequence
  | fail =>
    cases phase <;> cases hs
    have hfail : Transition makePayload conn (.run k .fail) _ := .fail hk hp
    rwa [if_pos hreply] at hfail
  | leave =>
    cases phase <;> cases hs
    exact .leave hk hreply hp

theorem write_spec (hk : conn.calls[k]? = some call) (hreply : call.opcode.expectsReply = false)
    (hp : call.phase = phase) (hs : conn.write k call action phase = some conn') :
    Transition makePayload conn (.run k action) conn' := by
  have hsilent : ¬call.opcode.expectsReply = true := by
    rw [hreply]
    exact Bool.false_ne_true
  cases action with
  | enter =>
    cases phase <;> try cases hs
    obtain ⟨hfree, hs⟩ := Option.ite_none_left_eq_some.mp hs
    have hfree := Bool.eq_false_of_not_eq_true hfree
    split_ifs at hs with hlast
    · cases hs
      exact .exhaust hk hp hfree hlast
    · cases hs
      exact .enterWrite hk hreply hp hfree hlast
  | write cut =>
    cases cut with
    | none =>
      cases phase <;> try cases hs
      obtain ⟨hopen, hs⟩ := Option.ite_none_left_eq_some.mp hs
      obtain ⟨sequence, hsequence, rfl⟩ := Option.map_eq_some_iff.mp hs
      have hwrite : Transition makePayload conn (.run k (.write none)) _ :=
        .writeWhole hk hp (Bool.eq_false_of_not_eq_true hopen) hsequence
      rwa [if_neg hsilent] at hwrite
    | some count =>
      cases phase <;> try cases hs
      obtain ⟨sequence, hsequence, rfl⟩ := Option.map_eq_some_iff.mp hs
      have hwrite : Transition makePayload conn (.run k (.write (some count))) _ :=
        .writeCut count hk hp hsequence
      rwa [if_neg hsilent] at hwrite
  | fail =>
    cases phase <;> cases hs
    have hfail : Transition makePayload conn (.run k .fail) _ := .fail hk hp
    rwa [if_neg hsilent] at hfail
  | takeSlot | leaveSlot | receive | leaveReply | forget | abandon | leave =>
    cases phase <;> cases hs

theorem readLoop_spec {action : ReaderAction} {phase : ReaderPhase} (hp : conn.reader = phase)
    (hs : conn.readLoop makePayload action phase = some conn') :
    Transition makePayload conn (.reader action) conn' := by
  cases action with
  | read =>
    cases phase <;> try cases hs
    unfold readLoop at hs
    dsimp only at hs
    split at hs
    · next sequence reply replies hreplies =>
      obtain ⟨hopen, hs⟩ := Option.ite_none_left_eq_some.mp hs
      have hopen := Bool.eq_false_of_not_eq_true hopen
      split_ifs at hs with hpush
      · cases hs
        exact .readPush hp hreplies hopen hpush
      · cases hs
        exact .read hp hreplies hopen (Bool.eq_false_of_not_eq_true hpush)
    · cases hs
  | lookup =>
    cases phase <;> try cases hs
    unfold readLoop at hs
    dsimp only at hs
    split at hs
    · next k hslot =>
      cases hs
      exact .lookup hp hslot
    · next hslot =>
      cases hs
      exact .lookupNone hp hslot
  | deliver =>
    cases phase <;> try cases hs
    next k sequence reply =>
    unfold readLoop at hs
    dsimp only at hs
    split at hs
    · cases hs
    · next call hk =>
      split_ifs at hs with habandoned hroom
      · split at hs
        · next generation hopcode =>
          split at hs
          · next payload hpayload =>
            cases hs
            exact .release hp hk habandoned hopcode hpayload
          · next hnone =>
            cases hs
            refine .drop hp hk habandoned fun generation' _ hreply => ?_
            obtain rfl := Reply.lockGranted.inj hreply
            exact hnone
        · next hother =>
          cases hs
          exact .drop hp hk habandoned fun generation hopcode hreply =>
            absurd hreply (hother generation hopcode)
      · cases hs
        exact .deliver hp hk (Bool.eq_false_of_not_eq_true habandoned)
          (Option.not_isSome_iff_eq_none.mp hroom)
  | fail =>
    cases phase <;> cases hs
    exact .readFail hp

theorem step_spec {action : Action} (hs : conn.step makePayload action = some conn') :
    Transition makePayload conn action conn' := by
  cases action with
  | call opcode payload action identifier =>
    cases hs
    exact .call opcode payload action identifier
  | run =>
    obtain ⟨call, hk, hs⟩ := Option.bind_eq_some_iff.mp hs
    split_ifs at hs with hreply
    · exact exchange_spec hk hreply rfl hs
    · exact write_spec hk (Bool.eq_false_of_not_eq_true hreply) rfl hs
  | reader => exact readLoop_spec rfl hs
  | close =>
    cases hs
    exact .close
  | answer =>
    obtain ⟨⟨hanswerable, honce, hpush⟩, hs⟩ := Option.ite_none_right_eq_some.mp hs
    cases hs
    exact .answer hanswerable honce hpush
  | push =>
    obtain ⟨hpush, hs⟩ := Option.ite_none_right_eq_some.mp hs
    cases hs
    exact .push hpush

/-- The states of a connection: any interleaving of its goroutines, its reader and the daemon. -/
abbrev Reachable (makePayload : ReleaseRequest → Option (List UInt8)) (nonce : Nonce)
    (maxInflight : Nat) : MuxConnection → Prop :=
  Reaches (step makePayload) (fun _ _ => True) (new nonce maxInflight)

end MuxConnection

end Fareward.Client
