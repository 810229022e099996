import Fareward.Client.Equiv.Correlations

/-!
# What becomes of a granted lock

`Acquire` is an `exchange`, and a grant that it returns is the caller's `Lock`. When the caller
stops waiting, `abandon` marks its request, and `readLoop` gives a grant for a marked request back.

The two do not meet at one point. `readLoop` takes the request out of `pending` first and tests
the mark and fills the channel later; a caller that stops waiting in between finds nothing to mark,
and the grant goes into a channel that nobody reads (`grant_orphaned`). In a run without such a
caller (`prompt`) every grant that `readLoop` consumes is on its way to its caller, or returned to
it, or a release of that generation is sent (`granted_or_released`).
-/

namespace Fareward.Client

open Service

/-- The call has given up, or has got its reply. -/
def CallPhase.isOver : CallPhase → Bool
  | .failing _ | .leaving _ | .returned _ => true
  | _ => false

/-- The release has not gone out, and nothing keeps it from going out. -/
def CallPhase.isSending : CallPhase → Bool
  | .slot | .entering | .writing | .unwritten | .failing _ => true
  | _ => false

/-- What `Acquire` makes of the outcome of its exchange: the generation of its `Lock`. -/
def acquired : Outcome → Option UInt16
  | .reply _ (.lockGranted generation) => some generation
  | _ => none

namespace MuxConnection

variable {makePayload : ReleaseRequest → Option (List UInt8)}
variable {conn conn' : MuxConnection} {k j sequence : Nat} {generation : UInt16}
variable {call call' : Call} {action : Action}

/-! ### What a step does to a call -/

/-- A call before and after a step. -/
structure Moved (conn : MuxConnection) (action : Action) (k : Nat) (call call' : Call) : Prop where
  opcode : call'.opcode = call.opcode
  payload : call'.payload = call.payload
  lockAction : call'.action = call.action
  identifier : call'.identifier = call.identifier
  sequence : ∀ sequence, call.sequence = some sequence → call'.sequence = some sequence
  abandoned : call.abandoned = true → call'.abandoned = true
  reply : ∀ reply, call'.reply = some reply → call.reply = some reply ∨
    action = .reader .deliver ∧ conn.reader = .delivering k reply.1 reply.2 ∧ call.reply = none
  /-- The call takes a step of its own, or stays where it is. -/
  phase : (∃ own, action = .run k own) ∨ call'.phase = call.phase ∧
    call'.sequence = call.sequence ∧ call'.forgotten = call.forgotten ∧
    (call'.reply = call.reply ∨ call.reply = none)

theorem Moved.refl : Moved conn action k call call :=
  ⟨rfl, rfl, rfl, rfl, fun _ => id, id, fun _ => .inl, .inr ⟨rfl, rfl, rfl, .inl rfl⟩⟩

theorem Moved.own {own : CallAction} (hopcode : call'.opcode = call.opcode)
    (hpayload : call'.payload = call.payload) (haction : call'.action = call.action)
    (hidentifier : call'.identifier = call.identifier)
    (hsequence : ∀ sequence, call.sequence = some sequence → call'.sequence = some sequence)
    (habandoned : call.abandoned = true → call'.abandoned = true)
    (hreply : ∀ reply, call'.reply = some reply → call.reply = some reply) :
    Moved conn (.run k own) k call call' :=
  ⟨hopcode, hpayload, haction, hidentifier, hsequence, habandoned,
    fun reply h => .inl (hreply reply h), .inl ⟨own, rfl⟩⟩

theorem moved_of_set {call₁ : Call} (hk : conn.calls[k]? = some call)
    (hj : (conn.calls.set k call')[j]? = some call₁) (hmoved : Moved conn action k call call') :
    ∃ call₀, conn.calls[j]? = some call₀ ∧ Moved conn action j call₀ call₁ := by
  rcases getElem?_set_some hj with ⟨rfl, rfl⟩ | ⟨-, hj⟩
  · exact ⟨call, hk, hmoved⟩
  · exact ⟨call₁, hj, .refl⟩

theorem Transition.moved (htransition : Transition makePayload conn action conn')
    (hbase : Base conn) (hj : conn'.calls[j]? = some call') :
    (∃ call, conn.calls[j]? = some call ∧ Moved conn action j call call') ∨
      j = conn.calls.length ∧ ∃ opcode payload lockAction identifier,
        call' = Call.new opcode payload lockAction identifier := by
  have hfresh : ∀ {k : Nat} {call : Call}, conn.calls[k]? = some call → call.phase = .entering →
      call.sequence = none := by
    intro k call hk hp
    exact hbase.numbered.fresh call (List.mem_of_getElem? hk) (by rw [hp]; rfl)
  cases htransition with
  | call | release =>
    rcases getElem?_concat_some hj with hj | ⟨hlast, rfl⟩
    · exact .inl ⟨call', hj, .refl⟩
    · exact .inr ⟨hlast, _, _, _, _, rfl⟩
  | takeSlot hk | leaveSlot hk | exhaust hk | refuse hk | leaveClosed hk | leaveReply hk
  | leave hk | fail hk | writeWhole hk | writeCut _ hk | forgetUnwritten hk | forgetClosed hk =>
    exact .inl (moved_of_set hk hj (.own rfl rfl rfl rfl (fun _ => id) id fun _ => id))
  | receive hk => exact .inl (moved_of_set hk hj (.own rfl rfl rfl rfl (fun _ => id) id nofun))
  | enterExchange hk _ hp | enterWrite hk _ hp =>
    refine .inl (moved_of_set hk hj (.own rfl rfl rfl rfl (fun sequence h => ?_) id fun _ => id))
    rw [hfresh hk hp] at h
    cases h
  | deliver hp hk _ hroom =>
    refine .inl (moved_of_set hk hj ⟨rfl, rfl, rfl, rfl, fun _ => id, id, fun reply h => ?_,
      .inr ⟨rfl, rfl, rfl, .inr hroom⟩⟩)
    cases h
    exact .inr ⟨rfl, hp, hroom⟩
  | @abandon k sequence call error hk =>
    have hleft : ∀ {j : Nat} {call₁ : Call},
        (conn.calls.set k { call with phase := .leaving (.error error) })[j]? = some call₁ →
        ∃ call₀, conn.calls[j]? = some call₀ ∧ Moved conn (.run k .abandon) j call₀ call₁ :=
      fun hj => moved_of_set hk hj (.own rfl rfl rfl rfl (fun _ => id) id fun _ => id)
    rcases abandon_cases (conn.setCall k { call with phase := .leaving (.error error) })
      (correlationOf sequence) with heq | ⟨i, marked, hi, heq⟩
    · rw [heq] at hj
      exact .inl (hleft hj)
    · rw [heq] at hj
      rcases getElem?_set_some hj with ⟨rfl, rfl⟩ | ⟨-, hj⟩
      · obtain ⟨call₀, hi₀, hmoved⟩ := hleft hi
        exact .inl ⟨call₀, hi₀, ⟨hmoved.opcode, hmoved.payload, hmoved.lockAction,
          hmoved.identifier, hmoved.sequence, fun _ => rfl, hmoved.reply, hmoved.phase⟩⟩
      · exact .inl (hleft hj)
  | lookup | lookupNone | drop | read | readPush | answer | push | readFail | close =>
    exact .inl ⟨call', hj, .refl⟩

theorem Transition.length_le (htransition : Transition makePayload conn action conn') :
    conn.calls.length ≤ conn'.calls.length := by
  have hset : ∀ {k : Nat} {call : Call}, conn.calls.length ≤ (conn.calls.set k call).length :=
    (List.length_set ..).ge
  cases htransition with
  | call | release => exact (List.prefix_append _ _).length_le
  | takeSlot | leaveSlot | exhaust | refuse | leaveClosed | leaveReply | leave | fail
  | writeWhole | writeCut | forgetUnwritten | forgetClosed | receive | enterExchange | enterWrite
  | deliver => exact hset
  | abandon =>
    rcases abandon_cases (conn.setCall _ _) _ with heq | ⟨i, marked, -, heq⟩
    · rw [heq]
      exact hset
    · rw [heq]
      exact hset.trans (List.length_set ..).ge
  | lookup | lookupNone | drop | read | readPush | answer | push | readFail | close => exact le_rfl

theorem Transition.moves (htransition : Transition makePayload conn action conn')
    (hbase : Base conn) (hk : conn.calls[k]? = some call) :
    ∃ call', conn'.calls[k]? = some call' ∧ Moved conn action k call call' := by
  have hlt : k < conn.calls.length := (List.getElem?_eq_some_iff.mp hk).1
  obtain ⟨call', hk'⟩ : ∃ call', conn'.calls[k]? = some call' :=
    ⟨_, List.getElem?_eq_getElem (hlt.trans_le htransition.length_le)⟩
  rcases htransition.moved hbase hk' with ⟨call₀, hk₀, hmoved⟩ | ⟨hlast, -⟩
  · obtain rfl := Option.some.inj (hk.symm.trans hk₀)
    exact ⟨call', hk', hmoved⟩
  · omega

/-! ### Replies and callers -/

structure Heard (conn : MuxConnection) : Prop where
  channel : ∀ call ∈ conn.calls, ∀ sequence reply, call.reply = some (sequence, reply) →
    sequence ∈ conn.consumed
  delivering : ∀ k sequence reply, conn.reader = .delivering k sequence reply →
    sequence ∈ conn.consumed
  /-- A caller that gave up while its request was unanswered has marked it. -/
  gone : conn.closed = false → ∀ (k : Nat) call frame, conn.calls[k]? = some call →
    conn.Outstanding call frame → call.phase.isOver = true → call.abandoned = true

theorem Transition.consumed_subset
    (htransition : Transition makePayload conn action conn') :
    conn.consumed ⊆ conn'.consumed := by
  cases htransition with
  | lookup | lookupNone => exact List.subset_append_left _ _
  | abandon =>
    rcases abandon_cases (conn.setCall _ _) _ with heq | ⟨i, marked, -, heq⟩
    all_goals
      rw [heq]
      exact fun _ => id
  | _ => exact fun _ => id

theorem Transition.closed_mono (htransition : Transition makePayload conn action conn')
    (hopen : conn'.closed = false) : conn.closed = false := by
  cases htransition with
  | readFail | close | fail => cases hopen
  | abandon =>
    rcases abandon_cases (conn.setCall _ _) _ with heq | ⟨i, marked, -, heq⟩
    all_goals
      rw [heq] at hopen
      exact hopen
  | _ => exact hopen

/-- A request that is outstanding after a step of another goroutine was outstanding before. -/
theorem Outstanding.of_moved {frame : Frame}
    (hsequence : call'.sequence = call.sequence) (hforgotten : call'.forgotten = call.forgotten)
    (hopcode : call'.opcode = call.opcode) (hpayload : call'.payload = call.payload)
    (hconsumed : conn.consumed ⊆ conn'.consumed) (h : conn'.Outstanding call' frame) :
    conn.Outstanding call frame := by
  obtain ⟨hframe, hreply, hkept, hunread⟩ := h
  refine ⟨?_, hreply, hforgotten ▸ hkept, fun hmem => hunread (hconsumed hmem)⟩
  unfold Call.frame? at hframe ⊢
  rw [← hsequence, ← hopcode, ← hpayload]
  exact hframe

/-- The mark reaches the call whose request is filed. -/
theorem abandon_marks {correlation : UInt16} (hk : conn.calls[k]? = some call)
    (hfiled : conn.pending.lookup correlation = some k) :
    (conn.abandon correlation).calls[k]? = some { call with abandoned := true } := by
  unfold abandon
  rw [hfiled]
  show (conn.calls.modify k _)[k]? = _
  rw [modify_eq_set hk, getElem?_set_of_some hk, if_pos rfl]

/-- The caller's own step: it has given up only on what it has marked. -/
theorem Transition.gone {own : CallAction} {frame : Frame}
    (htransition : Transition makePayload conn (.run k own) conn')
    (hbase : Base conn) (hslots : Slots conn) (hchannels : Channels conn) (h : Heard conn)
    (hopen : conn'.closed = false) (hk' : conn'.calls[k]? = some call')
    (hout : conn'.Outstanding call' frame) (hover : call'.phase.isOver = true) :
    call'.abandoned = true := by
  have hopen₀ : conn.closed = false := htransition.closed_mono hopen
  have hset : ∀ {call call₁ : Call}, conn.calls[k]? = some call →
      (conn.calls.set k call₁)[k]? = some call' → call' = call₁ := by
    intro call call₁ hk hset
    rw [getElem?_set_of_some hk, if_pos rfl] at hset
    exact (Option.some.inj hset).symm
  -- a call that has not taken its sequence is not outstanding
  have hfresh : ∀ {call : Call}, conn.calls[k]? = some call → call.phase.isFresh = true →
      call'.sequence = call.sequence → False := by
    intro call hk hp hsame
    rw [hbase.numbered.fresh call (List.mem_of_getElem? hk) hp,
      (Call.frame?_eq_some hout.1).1] at hsame
    cases hsame
  obtain ⟨hframe, hreply, hkept, hunread⟩ := hout
  have hopcode := (Call.frame?_eq_some hframe).2
  have hsub := htransition.consumed_subset
  have hmoved : ∃ call, conn.calls[k]? = some call ∧ Moved conn (.run k own) k call call' := by
    rcases htransition.moved hbase hk' with hmoved | ⟨-, opcode, _, _, _, rfl⟩
    · exact hmoved
    · cases opcode <;> cases hover
  cases htransition with
  | takeSlot hk | enterExchange hk | enterWrite hk | leaveClosed hk | leaveReply hk =>
    obtain rfl := hset hk hk'
    cases hover
  | leaveSlot hk _ hp | exhaust hk hp | refuse hk _ hp =>
    obtain rfl := hset hk hk'
    exact (hfresh hk (by rw [hp]; rfl) rfl).elim
  | @writeWhole _ _ call hk | @writeCut _ _ call _ hk =>
    obtain rfl := hset hk hk'
    have hexpects : call.opcode.expectsReply = true := hopcode ▸ hreply
    simp only [hexpects, if_true] at hover
    cases hover
  | forgetUnwritten hk | forgetClosed hk =>
    obtain rfl := hset hk hk'
    cases hkept
  | @receive _ sequence call reply hk _ _ hchannel =>
    obtain rfl := hset hk hk'
    have hmem := List.mem_of_getElem? hk
    obtain ⟨frame', hframe', hown | ⟨hclosed, -⟩⟩ := (hchannels call hmem).channel _ _ hchannel
    · obtain rfl : frame = frame' := Option.some.inj (hframe.symm.trans hframe')
      exact absurd (h.channel call hmem _ _ hchannel) (hown ▸ hunread)
    · cases hopen₀.symm.trans hclosed
  | @abandon _ sequence call error hk _ hp hsequence =>
    let left := conn.setCall k { call with phase := .leaving (.error error) }
    have hleft : left.calls[k]? = some { call with phase := .leaving (.error error) } :=
      (getElem?_set_of_some hk _ k).trans (if_pos rfl)
    have hown : call.frame? = some ⟨sequence, call.opcode, call.payload⟩ :=
      Call.frame?_of_sequence hsequence
    obtain rfl : frame = ⟨sequence, call.opcode, call.payload⟩ := by
      obtain ⟨call₀, hk₀, hmoved⟩ := hmoved
      obtain rfl := Option.some.inj (hk.symm.trans hk₀)
      rw [Call.frame?_of_sequence (hmoved.sequence _ hsequence), hmoved.opcode,
        hmoved.payload] at hframe
      exact (Option.some.inj hframe).symm
    have hstaged := hbase.staged call (List.mem_of_getElem? hk)
    -- the request is still unanswered, so it is still filed
    have hfiled : conn.pending.lookup (correlationOf sequence) = some k := by
      refine hslots.held hopen₀ k call ⟨sequence, call.opcode, call.payload⟩ hk
        ⟨hown, hreply, ?_, fun hmem => hunread (hsub hmem)⟩
      by_contra hforgotten
      obtain ⟨frame', hframe', hwhole⟩ := hstaged.sent (by rw [hp]; rfl)
      rcases hstaged.gone (Bool.eq_true_of_not_eq_false hforgotten) with hclosed | hcut
      · cases hopen₀.symm.trans hclosed
      · exact hcut frame' hframe' hwhole
    have hmarked := abandon_marks hleft hfiled
    obtain rfl := Option.some.inj (hmarked.symm.trans hk')
    rfl
  | fail => cases hopen
  | @leave _ call _ hk _ hp =>
    obtain rfl := hset hk hk'
    exact h.gone hopen₀ k call frame hk ⟨hframe, hreply, hkept, hunread⟩ (by rw [hp]; rfl)

theorem Transition.heard (htransition : Transition makePayload conn action conn')
    (hbase : Base conn) (hslots : Slots conn) (hchannels : Channels conn) (h : Heard conn) :
    Heard conn' := by
  refine ⟨fun call' hmem sequence reply hreply => ?_, fun k sequence reply hreader => ?_,
    fun hopen k call' frame hk' hout hover => ?_⟩
  · obtain ⟨j, hj⟩ := List.getElem?_of_mem hmem
    rcases htransition.moved hbase hj with ⟨call, hj₀, hmoved⟩ | ⟨-, _, _, _, _, rfl⟩
    · rcases hmoved.reply _ hreply with hold | ⟨-, hreader, -⟩
      · exact htransition.consumed_subset (h.channel call (List.mem_of_getElem? hj₀) _ _ hold)
      · exact htransition.consumed_subset (h.delivering _ _ _ hreader)
    · cases hreply
  · cases htransition with
    | lookup =>
      obtain ⟨rfl, rfl, rfl⟩ := ReaderPhase.delivering.inj hreader
      exact List.mem_append_right _ (List.mem_singleton.mpr rfl)
    | lookupNone | release | drop | deliver | readFail | read => cases hreader
    | abandon =>
      rcases abandon_cases (conn.setCall _ _) _ with heq | ⟨i, marked, -, heq⟩
      all_goals
        rw [heq] at hreader ⊢
        exact h.delivering _ _ _ hreader
    | _ => exact h.delivering _ _ _ hreader
  · rcases htransition.moved hbase hk' with ⟨call, hk, hmoved⟩ | ⟨-, opcode, _, _, _, rfl⟩
    · rcases hmoved.phase with ⟨own, rfl⟩ | ⟨hphase, hsequence, hforgotten, -⟩
      · exact htransition.gone hbase hslots hchannels h hopen hk' hout hover
      · exact hmoved.abandoned (h.gone (htransition.closed_mono hopen) k call frame hk
          (hout.of_moved hsequence hforgotten hmoved.opcode hmoved.payload
            htransition.consumed_subset) (hphase ▸ hover))
    · cases opcode <;> cases hover

/-! ### Where a grant is -/

/-- The call whose request is filed under the correlation of the sequence. -/
def filedUnder (conn : MuxConnection) (sequence : Nat) : Option Nat :=
  conn.pending.lookup (correlationOf sequence)

/-- The caller of `Acquire` stops waiting only before its reply is looked up, and a release finds a
slot and has its correlation free. -/
def promptCall (conn : MuxConnection) (k : Nat) (call : Call) : CallAction → Opcode → Bool
  | .leaveReply .cancelled, .lockAcquire | .leaveReply .timedOutBeforeReply, .lockAcquire =>
    call.sequence.all fun sequence => conn.filedUnder sequence = some k
  | .leaveSlot _, .lockRelease => false
  | .enter, .lockRelease => conn.sequence = 2 ^ 64 - 1 || (conn.filedUnder conn.sequence).isNone
  | _, _ => true

/-- The reply to an `Acquire` is not looked up between the end of the caller's wait and its
`abandon`, and the release of a grant can be encoded. -/
def promptReader (makePayload : ReleaseRequest → Option (List UInt8))
    (conn : MuxConnection) : ReaderAction → ReaderPhase → Bool
  | .lookup, .dispatching sequence _ => (conn.filedUnder sequence).all fun k =>
    conn.calls[k]?.all fun call =>
      match call.opcode, call.phase with
      | .lockAcquire, .abandoning _ => false
      | _, _ => true
  | .deliver, .delivering k _ (.lockGranted generation) => conn.calls[k]?.all fun call =>
    call.opcode ≠ .lockAcquire || !call.abandoned ||
      (makePayload ⟨call.action, call.identifier, generation⟩).isSome
  | _, _ => true

def prompt (makePayload : ReleaseRequest → Option (List UInt8)) (conn : MuxConnection) :
    Action → Bool
  | .run k own => conn.calls[k]?.all fun call => conn.promptCall k call own call.opcode
  | .reader own => conn.promptReader makePayload own conn.reader
  | _ => true

theorem prompt_run {own : CallAction} (hk : conn.calls[k]? = some call)
    (hprompt : conn.prompt makePayload (.run k own) = true) :
    conn.promptCall k call own call.opcode = true := by
  have hall : conn.calls[k]?.all (fun call => conn.promptCall k call own call.opcode) = true :=
    hprompt
  rw [hk] at hall
  exact hall

/-- The release is going out or is out. -/
def Sending (conn : MuxConnection) (call : Call) : Prop :=
  call.phase.isSending = true ∨
    ∃ frame, call.frame? = some frame ∧ (frame, none) ∈ conn.written

/-- Where a grant is that answers the frame of call `k` of `Acquire`. -/
inductive Settled (makePayload : ReleaseRequest → Option (List UInt8))
    (conn : MuxConnection) (k : Nat) (call : Call) (sequence : Nat) (generation : UInt16) : Prop
  /-- `readLoop` is about to hand it over or to give it back. -/
  | delivering (hreader : conn.reader = .delivering k sequence (.lockGranted generation))
    (hempty : call.reply = none) (hphase : call.phase = .waiting ∨ call.abandoned = true)
  | channel (hphase : call.phase = .waiting)
    (hreply : call.reply = some (sequence, .lockGranted generation))
  /-- `Acquire` returns the `Lock`. -/
  | taken {outcome : Outcome} (houtcome : acquired outcome = some generation)
    (hphase : call.phase = .leaving outcome ∨ call.phase = .returned outcome)
  | released {j : Nat} {release : Call} {payload : List UInt8}
    (hpayload : makePayload ⟨call.action, call.identifier, generation⟩ = some payload)
    (hj : conn.calls[j]? = some release) (hopcode : release.opcode = .lockRelease)
    (hrelease : release.payload = payload) (hsending : conn.Sending release)

theorem Transition.written_subset
    (htransition : Transition makePayload conn action conn') :
    conn.written ⊆ conn'.written := by
  cases htransition with
  | writeWhole | writeCut => exact List.subset_append_left _ _
  | abandon =>
    rcases abandon_cases (conn.setCall _ _) _ with heq | ⟨i, marked, -, heq⟩
    all_goals
      rw [heq]
      exact fun _ => id
  | _ => exact fun _ => id

/-- A release that is going out goes on, or is out. -/
theorem Transition.sending {own : CallAction}
    (htransition : Transition makePayload conn (.run k own) conn')
    (hprompt : conn.prompt makePayload (.run k own) = true)
    (hopen : conn'.closed = false) (hk : conn.calls[k]? = some call)
    (hopcode : call.opcode = .lockRelease) (hk' : conn'.calls[k]? = some call')
    (hsending : call.phase.isSending = true) : conn'.Sending call' := by
  have hset : ∀ {call₁ call₂ : Call}, conn.calls[k]? = some call₁ →
      (conn.calls.set k call₂)[k]? = some call' → call = call₁ ∧ call' = call₂ := by
    intro call₁ call₂ hk₁ hset
    rw [getElem?_set_of_some hk₁, if_pos rfl] at hset
    exact ⟨Option.some.inj (hk.symm.trans hk₁), (Option.some.inj hset).symm⟩
  have hprompt := prompt_run hk hprompt
  rw [hopcode] at hprompt
  cases htransition with
  | takeSlot hk₁ | exhaust hk₁ | enterExchange hk₁ | enterWrite hk₁ | forgetUnwritten hk₁ =>
    obtain ⟨rfl, rfl⟩ := hset hk₁ hk'
    exact .inl rfl
  | leaveSlot => cases hprompt
  | refuse hk₁ _ _ _ hnext htaken =>
    unfold promptCall at hprompt
    simp only [Bool.or_eq_true, decide_eq_true_eq, Option.isNone_iff_eq_none] at hprompt
    rcases hprompt with hlast | hfree
    · exact absurd hlast hnext
    · rw [filedUnder, htaken] at hfree
      cases hfree
  | writeWhole hk₁ _ _ hsequence =>
    obtain ⟨rfl, rfl⟩ := hset hk₁ hk'
    exact .inr ⟨_, Call.frame?_of_sequence hsequence,
      List.mem_append_right _ (List.mem_singleton.mpr rfl)⟩
  | writeCut _ hk₁ =>
    obtain ⟨rfl, rfl⟩ := hset hk₁ hk'
    rw [hopcode]
    exact .inl rfl
  | fail => cases hopen
  | forgetClosed hk₁ _ hp | receive hk₁ _ hp | leaveClosed hk₁ _ hp | leaveReply hk₁ _ hp
  | abandon hk₁ _ hp | leave hk₁ _ hp =>
    obtain rfl := Option.some.inj (hk.symm.trans hk₁)
    rw [hp] at hsending
    cases hsending

/-- The caller whose reply is looked up takes it. -/
theorem Transition.waiting {own : CallAction}
    (htransition : Transition makePayload conn (.run k own) conn')
    (hfiled : Filed conn) (hprompt : conn.prompt makePayload (.run k own) = true)
    (hopen : conn'.closed = false) (hk : conn.calls[k]? = some call)
    (hopcode : call.opcode = .lockAcquire) (hsequence : call.sequence = some sequence)
    (hconsumed : sequence ∈ conn.consumed) (hphase : call.phase = .waiting)
    (hk' : conn'.calls[k]? = some call') :
    ∃ reply, call.reply = some reply ∧ call'.phase = .leaving (.reply reply.1 reply.2) := by
  cases htransition with
  | takeSlot hk₁ _ hp | leaveSlot hk₁ _ hp | exhaust hk₁ hp | refuse hk₁ _ hp
  | enterExchange hk₁ _ hp | enterWrite hk₁ _ hp | writeWhole hk₁ hp | writeCut _ hk₁ hp
  | forgetUnwritten hk₁ _ hp | forgetClosed hk₁ _ hp | abandon hk₁ _ hp | fail hk₁ hp
  | leave hk₁ _ hp =>
    obtain rfl := Option.some.inj (hk.symm.trans hk₁)
    cases hp.symm.trans hphase
  | receive hk₁ _ _ hchannel =>
    obtain rfl := Option.some.inj (hk.symm.trans hk₁)
    obtain rfl := Option.some.inj
      (((getElem?_set_of_some hk _ k).trans (if_pos rfl)).symm.trans hk')
    exact ⟨_, hchannel, rfl⟩
  | leaveClosed _ _ _ hclosed => cases hopen.symm.trans hclosed
  | leaveReply _ _ _ herror =>
    have hown : conn.pending.lookup (correlationOf sequence) = some k := by
      have hprompt := prompt_run hk hprompt
      rw [hopcode] at hprompt
      rcases herror with rfl | rfl
      all_goals
        unfold promptCall at hprompt
        rw [hsequence] at hprompt
        exact of_decide_eq_true hprompt
    -- what is filed is not looked up
    obtain ⟨call₁, frame, hk₁, hout, -⟩ := hfiled _ k hown
    obtain rfl := Option.some.inj (hk.symm.trans hk₁)
    obtain ⟨hown, -⟩ := Call.frame?_eq_some hout.1
    obtain rfl := Option.some.inj (hsequence.symm.trans hown)
    exact absurd hconsumed hout.2.2.2

theorem Transition.reader_eq (htransition : Transition makePayload conn action conn')
    (hother : ∀ own, action ≠ .reader own) : conn'.reader = conn.reader := by
  cases htransition with
  | readPush | read | lookup | lookupNone | release | drop | deliver | readFail =>
    exact absurd rfl (hother _)
  | abandon =>
    rcases abandon_cases (conn.setCall _ _) _ with heq | ⟨i, marked, -, heq⟩
    all_goals
      rw [heq]
      rfl
  | _ => rfl

theorem Transition.returns {own : CallAction} {outcome : Outcome}
    (htransition : Transition makePayload conn (.run k own) conn')
    (hk : conn.calls[k]? = some call) (hk' : conn'.calls[k]? = some call')
    (hphase : call.phase = .leaving outcome) : call'.phase = .returned outcome := by
  cases htransition with
  | takeSlot hk₁ _ hp | leaveSlot hk₁ _ hp | exhaust hk₁ hp | refuse hk₁ _ hp
  | enterExchange hk₁ _ hp | enterWrite hk₁ _ hp | writeWhole hk₁ hp | writeCut _ hk₁ hp
  | forgetUnwritten hk₁ _ hp | forgetClosed hk₁ _ hp | abandon hk₁ _ hp | fail hk₁ hp
  | receive hk₁ _ hp | leaveClosed hk₁ _ hp | leaveReply hk₁ _ hp =>
    obtain rfl := Option.some.inj (hk.symm.trans hk₁)
    cases hp.symm.trans hphase
  | leave hk₁ _ hp =>
    obtain rfl := Option.some.inj (hk.symm.trans hk₁)
    obtain rfl := CallPhase.leaving.inj (hp.symm.trans hphase)
    obtain rfl := Option.some.inj
      (((getElem?_set_of_some hk _ k).trans (if_pos rfl)).symm.trans hk')
    rfl

/-- `readLoop` hands the grant over, or gives it back. -/
theorem Settled.handOver {own : ReaderAction}
    (htransition : Transition makePayload conn (.reader own) conn')
    (hprompt : conn.prompt makePayload (.reader own) = true)
    (hk : conn.calls[k]? = some call) (hopcode : call.opcode = .lockAcquire)
    (hreader : conn.reader = .delivering k sequence (.lockGranted generation))
    (hphase : call.phase = .waiting ∨ call.abandoned = true)
    (hk' : conn'.calls[k]? = some call') :
    Settled makePayload conn' k call' sequence generation := by
  cases htransition with
  | readPush hp | read hp | lookup hp | lookupNone hp | readFail hp => cases hreader.symm.trans hp
  | @release k₁ _ _ call₁ payload hp hk₁ _ _ hpayload =>
    obtain ⟨rfl, rfl, hgrant⟩ := ReaderPhase.delivering.inj (hreader.symm.trans hp)
    obtain rfl := Reply.lockGranted.inj hgrant
    obtain rfl := Option.some.inj (hk.symm.trans hk₁)
    have hsame : conn.calls[k]? = some call' :=
      (List.getElem?_append_left (List.getElem?_eq_some_iff.mp hk).1).symm.trans hk'
    obtain rfl := Option.some.inj (hk.symm.trans hsame)
    exact .released hpayload List.getElem?_concat_length rfl rfl (.inl rfl)
  | @drop k₁ _ _ call₁ hp hk₁ habandoned hrelease =>
    obtain ⟨rfl, rfl, rfl⟩ := ReaderPhase.delivering.inj (hreader.symm.trans hp)
    obtain rfl := Option.some.inj (hk.symm.trans hk₁)
    have hencoded : conn.promptReader makePayload .deliver conn.reader = true := hprompt
    unfold promptReader at hencoded
    rw [hreader] at hencoded
    dsimp only at hencoded
    rw [hk, Option.all_some, hopcode, habandoned, hrelease generation hopcode rfl] at hencoded
    cases hencoded
  | @deliver k₁ _ _ call₁ hp hk₁ habandoned =>
    obtain ⟨rfl, rfl, rfl⟩ := ReaderPhase.delivering.inj (hreader.symm.trans hp)
    obtain rfl := Option.some.inj (hk.symm.trans hk₁)
    obtain rfl := Option.some.inj
      (((getElem?_set_of_some hk _ k).trans (if_pos rfl)).symm.trans hk')
    rcases hphase with hwaiting | hmarked
    · exact .channel hwaiting rfl
    · cases habandoned.symm.trans hmarked

/-- A grant that is accounted for stays so. -/
theorem Settled.step (htransition : Transition makePayload conn action conn')
    (hbase : Base conn) (hfiled : Filed conn)
    (hprompt : conn.prompt makePayload action = true) (hopen : conn'.closed = false)
    (hk : conn.calls[k]? = some call) (hopcode : call.opcode = .lockAcquire)
    (hsequence : call.sequence = some sequence) (hconsumed : sequence ∈ conn.consumed)
    (hk' : conn'.calls[k]? = some call') (hmoved : Moved conn action k call call')
    (h : Settled makePayload conn k call sequence generation) :
    Settled makePayload conn' k call' sequence generation := by
  cases h with
  | delivering hreader hempty hphase =>
    -- only `readLoop` itself moves on
    by_cases hdeliver : ∃ own, action = .reader own
    · obtain ⟨own, rfl⟩ := hdeliver
      exact .handOver htransition hprompt hk hopcode hreader hphase hk'
    have hempty' : call'.reply = none := by
      cases hreply : call'.reply with
      | none => rfl
      | some reply =>
        rcases hmoved.reply reply hreply with hold | ⟨rfl, -⟩
        · cases hempty.symm.trans hold
        · exact absurd ⟨_, rfl⟩ hdeliver
    have hreader' : conn'.reader = conn.reader :=
      htransition.reader_eq fun own hown => hdeliver ⟨own, hown⟩
    refine .delivering (hreader'.trans hreader) hempty' ?_
    rcases hphase with hwaiting | hmarked
    · rcases hmoved.phase with ⟨own, rfl⟩ | ⟨hsame, -⟩
      · obtain ⟨reply, hfull, -⟩ := htransition.waiting hfiled hprompt hopen hk hopcode hsequence
          hconsumed hwaiting hk'
        cases hempty.symm.trans hfull
      · exact .inl (hsame.trans hwaiting)
    · exact .inr (hmoved.abandoned hmarked)
  | channel hwaiting hreply =>
    rcases hmoved.phase with ⟨own, rfl⟩ | ⟨hsame, -, -, hkept | hempty⟩
    · obtain ⟨reply, hfull, hleaving⟩ := htransition.waiting hfiled hprompt hopen hk hopcode
        hsequence hconsumed hwaiting hk'
      obtain rfl := Option.some.inj (hreply.symm.trans hfull)
      exact .taken rfl (.inl hleaving)
    · exact .channel (hsame.trans hwaiting) (hkept.trans hreply)
    · cases hempty.symm.trans hreply
  | taken houtcome hphase =>
    rcases hmoved.phase with ⟨own, rfl⟩ | ⟨hsame, -⟩
    · have hleaving := hphase.resolve_right (htransition.not_returned hk)
      exact .taken houtcome (.inr (htransition.returns hk hk' hleaving))
    · exact .taken houtcome (hphase.imp hsame.trans hsame.trans)
  | @released j release payload hpayload hj hrelease hown hsending =>
    obtain ⟨release', hj', hmoved'⟩ := htransition.moves hbase hj
    rw [← hmoved.lockAction, ← hmoved.identifier] at hpayload
    refine .released hpayload hj' (hmoved'.opcode.trans hrelease) (hmoved'.payload.trans hown) ?_
    rcases hsending with hsending | ⟨frame, hframe, hwhole⟩
    · rcases hmoved'.phase with ⟨own, rfl⟩ | ⟨hsame, -⟩
      · exact htransition.sending hprompt hopen hj hrelease hj' hsending
      · exact .inl (hsame ▸ hsending)
    · refine .inr ⟨frame, ?_, htransition.written_subset hwhole⟩
      obtain ⟨hsequence', hopcode'⟩ := Call.frame?_eq_some hframe
      rw [Call.frame?_of_sequence hsequence'] at hframe
      rw [Call.frame?_of_sequence (hmoved'.sequence _ hsequence'), hmoved'.opcode, hmoved'.payload]
      exact hframe

/-- The reply that `readLoop` looks up goes to a caller that waits, or has marked its request. -/
theorem Settled.looked_up
    (hbase : Base conn) (hslots : Slots conn) (hchannels : Channels conn) (hheard : Heard conn)
    (hopen : conn.closed = false)
    (hprompt : conn.prompt makePayload (.reader .lookup) = true)
    (hreader : conn.reader = .dispatching sequence (.lockGranted generation))
    (hs : conn.step makePayload (.reader .lookup) = some conn') :
    ∃ (k : Nat) (call : Call), conn'.calls[k]? = some call ∧ call.sequence = some sequence ∧
      (call.opcode = .lockAcquire →
        Settled makePayload conn' k call sequence generation) := by
  obtain ⟨hanswerable, hunread⟩ := hbase.of_dispatching hreader
  obtain ⟨k, call, frame, hk, hout, rfl⟩ := hbase.exists_outstanding hopen hanswerable hunread
  have hslot := hslots.held hopen k call frame hk hout
  have hmem := List.mem_of_getElem? hk
  obtain ⟨hsequence, -⟩ := Call.frame?_eq_some hout.1
  have hs' : conn.readLoop makePayload .lookup conn.reader = some conn' := hs
  rw [hreader, readLoop_lookup hslot] at hs'
  obtain rfl := Option.some.inj hs'
  refine ⟨k, call, hk, hsequence, fun hopcode => .delivering rfl ?_ ?_⟩
  · cases hreply : call.reply with
    | none => rfl
    | some reply =>
      obtain ⟨frame', hframe', hown | ⟨hclosed, -⟩⟩ :=
        (hchannels call hmem).channel reply.1 reply.2 hreply
      · obtain rfl := Option.some.inj (hout.1.symm.trans hframe')
        exact absurd (hheard.channel call hmem reply.1 reply.2 hreply) (hown ▸ hunread)
      · cases hopen.symm.trans hclosed
  · have hprompt : conn.promptReader makePayload .lookup conn.reader = true := hprompt
    unfold promptReader at hprompt
    rw [hreader] at hprompt
    dsimp only at hprompt
    rw [show conn.filedUnder frame.sequence = some k from hslot, Option.all_some, hk,
      Option.all_some, hopcode] at hprompt
    have hstaged := hbase.staged call hmem
    obtain ⟨frame', hwhole, hsame, -⟩ := answerable_iff.mp hanswerable
    obtain rfl := hbase.frame_unique (hbase.mem_frames_of_written hwhole)
      (hbase.numbered.placed call hmem frame hout.1) hsame
    -- the frame is out, and the caller is not between its timer and `abandon`
    cases hphase : call.phase with
    | waiting => exact .inl rfl
    | slot | entering =>
      have hnone := hbase.numbered.fresh call hmem (by rw [hphase]; rfl)
      cases hsequence.symm.trans hnone
    | writing | unwritten =>
      exact absurd hwhole (hstaged.unsent (by rw [hphase]; rfl) _ hout.1)
    | forgetting => cases hopen.symm.trans (hstaged.closing hphase)
    | abandoning =>
      rw [hphase] at hprompt
      cases hprompt
    | failing | leaving | returned =>
      exact .inr (hheard.gone hopen k call _ hk hout (by rw [hphase]; rfl))

/-- What every run keeps of the connection. -/
structure Sound (conn : MuxConnection) : Prop where
  base : Base conn
  slots : Slots conn
  channels : Channels conn
  filed : Filed conn
  heard : Heard conn

theorem Sound.new (nonce : Nonce) (maxInflight : Nat) :
    Sound (MuxConnection.new nonce maxInflight) where
  base := .new nonce maxInflight
  slots := .new nonce maxInflight
  channels := fun _ hmem => absurd hmem List.not_mem_nil
  filed := fun c k hk => by
    rw [show (MuxConnection.new nonce maxInflight).pending = ∅ from rfl, AList.lookup_empty] at hk
    cases hk
  heard := ⟨fun _ hmem => absurd hmem List.not_mem_nil, nofun, fun _ k call frame hk => by
    rw [show (MuxConnection.new nonce maxInflight).calls = [] from rfl, List.getElem?_nil] at hk
    cases hk⟩

theorem Sound.step (h : Sound conn) (hs : conn.step makePayload action = some conn') :
    Sound conn' := by
  have htransition := step_spec hs
  exact ⟨htransition.base h.base, htransition.slots h.base h.slots,
    htransition.channels h.base h.slots h.channels, htransition.filed h.base h.filed,
    htransition.heard h.base h.slots h.channels h.heard⟩

/-! ### The result -/

/-- A connection and the grants that `readLoop` has consumed: the sequence of the frame that each
answers, and the generation. -/
structure Watched where
  conn : MuxConnection
  grants : List (Nat × UInt16)

/-- The grant that the action consumes. -/
def consumes (conn : MuxConnection) : Action → List (Nat × UInt16)
  | .reader .lookup =>
    match conn.reader with
    | .dispatching sequence (.lockGranted generation) => [(sequence, generation)]
    | _ => []
  | _ => []

theorem mem_consumes (hmem : (sequence, generation) ∈ conn.consumes action) :
    action = .reader .lookup ∧ conn.reader = .dispatching sequence (.lockGranted generation) := by
  unfold consumes at hmem
  split at hmem
  · split at hmem
    · next hreader =>
      obtain ⟨rfl, rfl⟩ := Prod.mk.inj (List.mem_singleton.mp hmem)
      exact ⟨rfl, hreader⟩
    · cases hmem
  · cases hmem

namespace Watched

variable {w w' : Watched}

def new (nonce : Nonce) (maxInflight : Nat) : Watched := ⟨.new nonce maxInflight, []⟩

def step (makePayload : ReleaseRequest → Option (List UInt8)) (w : Watched)
    (action : Action) : Option Watched :=
  (w.conn.step makePayload action).map fun conn =>
    ⟨conn, w.grants ++ w.conn.consumes action⟩

/-- Every grant is accounted for. -/
structure Accounted (makePayload : ReleaseRequest → Option (List UInt8)) (w : Watched) :
    Prop where
  consumed : ∀ grant ∈ w.grants, grant.1 ∈ w.conn.consumed
  settled : w.conn.closed = false → ∀ sequence generation, (sequence, generation) ∈ w.grants →
    ∃ (k : Nat) (call : Call), w.conn.calls[k]? = some call ∧ call.sequence = some sequence ∧
      (call.opcode = .lockAcquire →
        Settled makePayload w.conn k call sequence generation)

theorem Accounted.step (h : Accounted makePayload w) (hsound : Sound w.conn)
    (hprompt : w.conn.prompt makePayload action = true)
    (hs : w.step makePayload action = some w') :
    Accounted makePayload w' := by
  obtain ⟨conn', hconn, rfl⟩ := Option.map_eq_some_iff.mp hs
  have htransition := step_spec hconn
  refine ⟨fun grant hmem => ?_, fun hopen sequence generation hmem => ?_⟩
  · rcases List.mem_append.mp hmem with hold | hnew
    · exact htransition.consumed_subset (h.consumed grant hold)
    · obtain ⟨rfl, hreader⟩ := mem_consumes hnew
      cases htransition with
      | lookup hp | lookupNone hp =>
        obtain ⟨heq, -⟩ := ReaderPhase.dispatching.inj (hreader.symm.trans hp)
        rw [heq]
        exact List.mem_append_right _ (List.mem_singleton.mpr rfl)
  · have hopen₀ : w.conn.closed = false := htransition.closed_mono hopen
    rcases List.mem_append.mp hmem with hold | hnew
    · obtain ⟨k, call, hk, hsequence, hsettled⟩ := h.settled hopen₀ sequence generation hold
      obtain ⟨call', hk', hmoved⟩ := htransition.moves hsound.base hk
      refine ⟨k, call', hk', hmoved.sequence _ hsequence, fun hopcode => ?_⟩
      rw [hmoved.opcode] at hopcode
      exact (hsettled hopcode).step htransition hsound.base hsound.filed hprompt hopen hk hopcode
        hsequence (h.consumed _ hold) hk' hmoved
    · obtain ⟨rfl, hreader⟩ := mem_consumes hnew
      exact Settled.looked_up hsound.base hsound.slots hsound.channels hsound.heard hopen₀ hprompt
        hreader hconn

/-- **No orphaned grant.** In every run in which no caller of `Acquire` stops waiting while its
reply is handed over, and the releases get through to the socket: while the connection is open,
every grant that `readLoop` has consumed for an `Acquire` is being handed to its caller, or is
returned to it, or a release of its generation is going out or out. -/
theorem granted_or_released {nonce : Nonce} {maxInflight : Nat}
    (hreach : Reaches (step makePayload)
      (fun w action => w.conn.prompt makePayload action = true)
      (new nonce maxInflight) w)
    (hopen : w.conn.closed = false) {sequence : Nat} {generation : UInt16}
    (hgrant : (sequence, generation) ∈ w.grants) :
    ∃ (k : Nat) (call : Call), w.conn.calls[k]? = some call ∧ call.sequence = some sequence ∧
      (call.opcode = .lockAcquire →
        Settled makePayload w.conn k call sequence generation) := by
  have hinv : Sound w.conn ∧ Accounted makePayload w := by
    refine hreach.invariant
      (I := fun w => Sound w.conn ∧ Accounted makePayload w)
      ⟨.new nonce maxInflight, fun _ hmem => absurd hmem List.not_mem_nil,
        fun _ _ _ hmem => absurd hmem List.not_mem_nil⟩ ?_
    rintro w action w' - ⟨hsound, haccounted⟩ hprompt hs
    refine ⟨?_, haccounted.step hsound hprompt hs⟩
    obtain ⟨conn', hconn, rfl⟩ := Option.map_eq_some_iff.mp hs
    exact hsound.step hconn
  exact hinv.2.settled hopen sequence generation hgrant

/-- A caller of `Acquire` stops waiting in time, and its grant is given back. -/
def acquireAbandoned : List Action :=
  [.call .lockAcquire (samplePayload .lockAcquire) 7 (-42), .run 0 .takeSlot, .run 0 .enter,
    .run 0 (.write none),
    .run 0 (.leaveReply .timedOutBeforeReply), .run 0 .abandon, .run 0 .leave,
    .answer 0 (.lockGranted 1), .reader .read, .reader .lookup, .reader .deliver]

theorem granted_or_released_abandoned : ∃ w,
    Reaches (step fun _ => some [1])
      (fun w action => w.conn.prompt (fun _ => some [1]) action = true) (new sampleNonce 64) w ∧
    w.conn.closed = false ∧ w.grants = [(0, 1)] ∧
    ∃ (k : Nat) (call : Call), w.conn.calls[k]? = some call ∧ call.sequence = some 0 ∧
      (call.opcode = .lockAcquire → Settled (fun _ => some [1]) w.conn k call 0 1) := by
  refine exists_and_and_of_runList acquireAbandoned (by decide +kernel)
    fun w hreach hopen hgrants => ?_
  exact granted_or_released hreach hopen (hgrants ▸ List.mem_singleton.mpr rfl)

/-- The caller of `Acquire` times out after `readLoop` has taken its request out of `pending`:
`abandon` finds nothing to mark. -/
def acquireOrphaned : List Action :=
  [.call .lockAcquire (samplePayload .lockAcquire) 7 (-42), .run 0 .takeSlot, .run 0 .enter,
    .run 0 (.write none),
    .answer 0 (.lockGranted 1), .reader .read, .reader .lookup,
    .run 0 (.leaveReply .timedOutBeforeReply), .run 0 .abandon, .reader .deliver, .run 0 .leave]

/-- The grant is in the channel of a call that has returned an error, the connection is open, and
nothing is left to run that would release it. -/
theorem grant_orphaned : ∃ w,
    Reaches (step fun _ => some [1]) (fun _ _ => True) (new sampleNonce 64) w ∧
    w.conn.closed = false ∧ w.grants = [(0, 1)] ∧ w.conn.reader = .reading ∧
    w.conn.replies = [] ∧
    w.conn.calls = [⟨.lockAcquire, samplePayload .lockAcquire, 7, -42, some 0,
      some (0, .lockGranted 1), false, false, .returned (.error .timedOutBeforeReply)⟩] := by
  exact exists_of_runList acquireOrphaned (by decide +kernel)

end Watched

end MuxConnection

end Fareward.Client
