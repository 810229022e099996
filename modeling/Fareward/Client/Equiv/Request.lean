import Fareward.Client.Request
import Fareward.Client.Equiv.Session

/-!
# How often a request is accepted

`request` exchanges its frame a second time when the first exchange failed on a connection that was
open before. The failure may be a timeout, or the loss of the connection, after the daemon has
taken the frame: so one `Charge` can be charged twice (`charged_twice`). It is charged once at most
as long as a frame is replayed only if the first one did not go out (`charged_at_most_once`): the
call that failed to write it never writes it later (`Session.Dead`).
-/

namespace Fareward.Client

open Service

variable {i attempt : Nat} {reused : Bool} {outcome : Outcome}

namespace MuxConnection

variable {makePayload : ReleaseRequest → Option (List UInt8)}
variable {conn conn' : MuxConnection} {action : Action} {k : Nat} {call call' : Call}

/-- A frame is written by the call that holds `writeMu` for it. -/
theorem Transition.mem_written {frame : Frame}
    (htransition : Transition makePayload conn action conn')
    (hmem : (frame, none) ∈ conn'.written) :
    (frame, none) ∈ conn.written ∨ ∃ (k : Nat) (call : Call), conn.calls[k]? = some call ∧
      call.phase = .writing ∧ call.frame? = some frame := by
  cases htransition with
  | writeWhole hk hp _ hsequence =>
    rcases List.mem_append.mp hmem with hold | hnew
    · exact .inl hold
    · obtain ⟨rfl, -⟩ := Prod.mk.inj (List.mem_singleton.mp hnew)
      exact .inr ⟨_, _, hk, hp, Call.frame?_of_sequence hsequence⟩
  | writeCut =>
    rcases List.mem_append.mp hmem with hold | hnew
    · exact .inl hold
    · cases (Prod.mk.inj (List.mem_singleton.mp hnew)).2
  | abandon =>
    rcases abandon_cases (conn.setCall _ _) _ with heq | ⟨i, marked, -, heq⟩
    all_goals
      rw [heq] at hmem
      exact .inl hmem
  | _ => exact .inl hmem

/-- The call has returned, and its frame is not out whole. -/
structure Dead (conn : MuxConnection) (k : Nat) : Prop where
  returned : ∃ call outcome, conn.calls[k]? = some call ∧ call.phase = .returned outcome
  unsent : ∀ call frame, conn.calls[k]? = some call → call.frame? = some frame →
    (frame, none) ∉ conn.written

theorem Dead.step (h : Dead conn k) (hbase : Base conn)
    (htransition : Transition makePayload conn action conn') : Dead conn' k := by
  obtain ⟨call, outcome, hk, hphase⟩ := h.returned
  obtain ⟨call', hk', hmoved⟩ := htransition.moves hbase hk
  have hstill : call'.phase = call.phase ∧ call'.sequence = call.sequence := by
    rcases hmoved.phase with ⟨own, rfl⟩ | ⟨hsame, hsequence, -⟩
    · exact absurd hphase (htransition.not_returned hk)
    · exact ⟨hsame, hsequence⟩
  refine ⟨⟨call', outcome, hk', hstill.1.trans hphase⟩, fun call₁ frame hk₁ hframe hmem => ?_⟩
  obtain rfl := Option.some.inj (hk'.symm.trans hk₁)
  have hframe₀ : call.frame? = some frame := by
    unfold Call.frame? at hframe ⊢
    rw [← hstill.2, ← hmoved.opcode, ← hmoved.payload]
    exact hframe
  rcases htransition.mem_written hmem with hold | ⟨j, writer, hj, hwriting, hown⟩
  · exact h.unsent call frame hk hframe₀ hold
  · obtain rfl := hbase.numbered.distinct k j call writer frame hk hj hframe₀ hown
    obtain rfl := Option.some.inj (hk.symm.trans hj)
    cases hphase.symm.trans hwriting

end MuxConnection

namespace Session

variable {makePayload : ReleaseRequest → Option (List UInt8)}
variable {session session' : Session} {action : Action} {k : Nat}

/-- The daemon has taken on the frame of call `k`. -/
def accepted (session : Session) (k : Nat) : Bool :=
  session.client.calls[k]?.any fun call => call.sequence.any fun sequence =>
    session.tasks.any fun task => task.sequence = sequence

/-- A step of the session is at most one step of the client's end. -/
theorem Transition.client_step
    (htransition : Transition makePayload session action session') :
    session'.client = session.client ∨ ∃ own,
      session.client.step makePayload own = some session'.client := by
  cases htransition with
  | client _ hs | release _ _ hs | reply _ _ hs => exact .inr ⟨_, hs⟩
  | log | spawn | drop => exact .inl rfl
  | refuse _ _ _ hs => exact hs.imp id fun ⟨_, hs⟩ => ⟨_, hs⟩

theorem dead_step (hdead : session.client.Dead k) (hordered : Ordered session)
    (htransition : Transition makePayload session action session') :
    session'.client.Dead k := by
  rcases htransition.client_step with hsame | ⟨own, hs⟩
  · rw [hsame]
    exact hdead
  · exact hdead.step hordered.sound.base (MuxConnection.step_spec hs)

/-- What is not out is not accepted. -/
theorem Ordered.accepted_eq_false (h : Ordered session) (hdead : session.client.Dead k) :
    session.accepted k = false := by
  obtain ⟨call, outcome, hk, -⟩ := hdead.returned
  unfold Session.accepted
  rw [hk, Option.any_some]
  cases hsequence : call.sequence with
  | none => rfl
  | some =>
    rw [Option.any_some, List.any_eq_false]
    intro task hmem hsame
    obtain ⟨frame, hwhole, hown, -⟩ := h.accepted task hmem
    have hframe := Call.frame?_of_sequence hsequence
    obtain rfl := h.sound.base.frame_unique (h.sound.base.mem_frames_of_written hwhole)
      (h.sound.base.numbered.placed call (List.mem_of_getElem? hk) _ hframe)
      (hown.trans (of_decide_eq_true hsame))
    exact hdead.unsent call _ hk hframe hwhole

end Session

namespace FarewardClient

variable {makePayload : ReleaseRequest → Option (List UInt8)}
variable {client client' : FarewardClient} {action : Action} {r : Nat} {request : Request}

/-- How many of the frames of a request the daemon has taken on. -/
def accepted (client : FarewardClient) (request : Request) : Nat :=
  request.attempts.countP fun (i, k) =>
    client.sessions[i]?.any fun session => session.accepted k

/-- Call `k` of connection `i` will not have its frame accepted. -/
def Dead (client : FarewardClient) (attempt : Nat × Nat) : Prop :=
  ∃ session, client.sessions[attempt.1]? = some session ∧ session.client.Dead attempt.2

/-- All attempts of a request but the last are dead, and so is the last one when another is to
follow. -/
structure Attempts (client : FarewardClient) (request : Request) : Prop where
  dead : ∀ attempt ∈ request.attempts.dropLast, client.Dead attempt
  connecting : ∀ n, request.phase = .connecting n → ∀ attempt ∈ request.attempts,
    client.Dead attempt
  exchanging : ∀ n reused i k, request.phase = .exchanging n reused i k →
    request.attempts.getLast? = some (i, k)

structure Inv (client : FarewardClient) : Prop where
  ordered : ∀ session ∈ client.sessions, session.Ordered
  attempts : ∀ request ∈ client.requests, client.Attempts request

/-! ### Connections -/

/-- The calls that are dead stay so. -/
def Extends (client client' : FarewardClient) : Prop :=
  ∀ (i : Nat) session, client.sessions[i]? = some session → ∃ session',
    client'.sessions[i]? = some session' ∧ ∀ k, session.client.Dead k → session'.client.Dead k

theorem Extends.of_eq (h : client'.sessions = client.sessions) : Extends client client' :=
  fun _ session hi => ⟨session, h ▸ hi, fun _ => id⟩

theorem Extends.attempts (h : Extends client client') (hattempts : client.Attempts request) :
    client'.Attempts request := by
  have hdead : ∀ attempt, client.Dead attempt → client'.Dead attempt := by
    rintro attempt ⟨session, hi, hcall⟩
    obtain ⟨session', hi', hmono⟩ := h attempt.1 session hi
    exact ⟨session', hi', hmono _ hcall⟩
  exact ⟨fun attempt hmem => hdead _ (hattempts.dead attempt hmem),
    fun n hphase attempt hmem => hdead _ (hattempts.connecting n hphase attempt hmem),
    hattempts.exchanging⟩

theorem Inv.session {session session' : Session} {own : Session.Action} (h : Inv client)
    (hi : client.sessions[i]? = some session)
    (hs : session.step makePayload own = some session') (client' : FarewardClient)
    (hsessions : client'.sessions = client.sessions.set i session') :
    Extends client client' ∧ ∀ session ∈ client'.sessions, session.Ordered := by
  have hordered := h.ordered session (List.mem_of_getElem? hi)
  have htransition := Session.step_spec hs
  refine ⟨fun j session₁ hj => ?_, fun session₁ hmem => ?_⟩
  · rw [hsessions, getElem?_set_of_some hi]
    split_ifs with hij
    · subst hij
      obtain rfl := Option.some.inj (hi.symm.trans hj)
      exact ⟨session', rfl, fun k hdead => Session.dead_step hdead hordered htransition⟩
    · exact ⟨session₁, hj, fun _ => id⟩
  · rw [hsessions] at hmem
    rcases List.mem_or_eq_of_mem_set hmem with hold | rfl
    · exact h.ordered session₁ hold
    · exact hordered.step htransition

theorem Inv.dial (h : Inv client) (nonce : Nonce) (current : Option Nat) :
    Inv { client with
      sessions := client.sessions ++ [Session.new nonce client.slots client.maxInflight]
      current } := by
  have hextends : Extends client { client with
      sessions := client.sessions ++ [Session.new nonce client.slots client.maxInflight]
      current } := by
    intro i session hi
    refine ⟨session, ?_, fun _ => id⟩
    show (client.sessions ++ [_])[i]? = some session
    rw [List.getElem?_append_left (List.getElem?_eq_some_iff.mp hi).1, hi]
  refine ⟨fun session hmem => ?_, fun request hmem => hextends.attempts (h.attempts request hmem)⟩
  rcases List.mem_append.mp hmem with hold | hnew
  · exact h.ordered session hold
  · rw [List.mem_singleton.mp hnew]
    exact .new nonce client.slots client.maxInflight

/-! ### Requests -/

/-- A request takes a step, whatever the connections do. -/
theorem Inv.setRequest {request' : Request} (h : Inv client) (hextends : Extends client client')
    (hordered : ∀ session ∈ client'.sessions, session.Ordered)
    (hrequests : client'.requests = client.requests.set r request')
    (hattempts : client'.Attempts request') : Inv client' := by
  refine ⟨hordered, fun request₁ hmem => ?_⟩
  rw [hrequests] at hmem
  rcases List.mem_or_eq_of_mem_set hmem with hold | rfl
  · exact hextends.attempts (h.attempts request₁ hold)
  · exact hattempts

theorem Inv.exchange (h : Inv client) (hr : client.requests[r]? = some request)
    (hphase : request.phase = .connecting attempt)
    (hs : client.exchange makePayload r request attempt reused i = some client') :
    Inv client' := by
  obtain ⟨session, hi, hs⟩ := Option.bind_eq_some_iff.mp hs
  obtain ⟨session', hcall, rfl⟩ := Option.map_eq_some_iff.mp hs
  obtain ⟨hextends, hordered⟩ := h.session hi hcall
    { client.setRequest r { request with
      phase := .exchanging attempt reused i session.client.calls.length
      attempts := request.attempts ++ [(i, session.client.calls.length)] } with
        sessions := client.sessions.set i session' } rfl
  have hold := hextends.attempts (h.attempts request (List.mem_of_getElem? hr))
  refine h.setRequest hextends hordered rfl ⟨?_, nofun, fun n reused' j k hexchanging => ?_⟩
  · rw [List.dropLast_concat]
    exact hold.connecting attempt hphase
  · obtain ⟨-, -, rfl, rfl⟩ := RequestPhase.exchanging.inj hexchanging
    exact List.getLast?_concat

/-- The frame of call `k` of connection `i` has not gone out whole. -/
def isUnsent (client : FarewardClient) (i k : Nat) : Bool :=
  client.sessions[i]?.all fun session => session.client.calls[k]?.all fun call =>
    session.client.written.all fun (frame, cut) => cut ≠ none ∨ call.sequence ≠ some frame.sequence

/-- A frame is replayed only if the first one has not gone out whole. -/
def replaysUnsent (client : FarewardClient) : Action → Bool
  | .finish r => client.requests[r]?.all fun request =>
    match request.phase with
    | .exchanging attempt reused i k =>
      match client.outcome i k with
      | some (.error error) =>
        !(reused && attempt = 0 && error ≠ .cancelled) || client.isUnsent i k
      | _ => true
    | _ => true
  | _ => true

theorem dead_of_isUnsent {k : Nat} (houtcome : client.outcome i k = some outcome)
    (hunsent : client.isUnsent i k = true) : client.Dead (i, k) := by
  obtain ⟨session, hi, houtcome⟩ := Option.bind_eq_some_iff.mp houtcome
  obtain ⟨call, hk, houtcome⟩ := Option.bind_eq_some_iff.mp houtcome
  have hphase : call.phase = .returned outcome := by
    split at houtcome
    · next hphase =>
      cases houtcome
      exact hphase
    · cases houtcome
  refine ⟨session, hi, ⟨call, outcome, hk, hphase⟩, fun call₁ frame hk₁ hframe hmem => ?_⟩
  obtain rfl := Option.some.inj (hk.symm.trans hk₁)
  unfold isUnsent at hunsent
  rw [hi, Option.all_some, hk, Option.all_some, List.all_eq_true] at hunsent
  rcases of_decide_eq_true (hunsent (frame, none) hmem) with hcut | hother
  · exact hcut rfl
  · exact hother (Call.frame?_eq_some hframe).1

theorem Inv.finish {k : Nat} (h : Inv client) (hr : client.requests[r]? = some request)
    (hphase : request.phase = .exchanging attempt reused i k)
    (houtcome : client.outcome i k = some outcome)
    (hunsent : client.replaysUnsent (.finish r) = true)
    (hs : client.finish r request attempt reused outcome = some client') : Inv client' := by
  have hold := h.attempts request (List.mem_of_getElem? hr)
  have hreturned : ∀ result, Inv (client.setRequest r { request with phase := .returned result }) :=
    fun result => h.setRequest (.of_eq rfl) h.ordered rfl ⟨hold.dead, nofun, nofun⟩
  unfold FarewardClient.finish at hs
  split at hs
  · cases hs
    exact hreturned _
  · next error =>
    split_ifs at hs with hreplay
    · cases hs
      refine h.setRequest (.of_eq rfl) h.ordered rfl ⟨hold.dead, fun _ _ => ?_, nofun⟩
      -- the attempt that failed is the last one, and its frame is not out
      have hlast := hold.exchanging attempt reused i k hphase
      have hdead : client.Dead (i, k) := by
        refine dead_of_isUnsent houtcome ?_
        have hguard : client.requests[r]?.all (fun request => _) = true := hunsent
        rw [hr, Option.all_some, hphase] at hguard
        dsimp only at hguard
        rw [houtcome] at hguard
        obtain ⟨hreused, hfirst, hother⟩ := hreplay
        simpa [hreused, hfirst, hother] using hguard
      intro attempt₁ hmem
      rw [← List.dropLast_append_getLast? (i, k) hlast] at hmem
      rcases List.mem_append.mp hmem with hmem | hmem
      · exact hold.dead attempt₁ hmem
      · rw [List.mem_singleton.mp hmem]
        exact hdead
    · cases hs
      exact hreturned _
  · cases hs

theorem Inv.step (h : Inv client) (hunsent : client.replaysUnsent action = true)
    (hs : client.step makePayload action = some client') : Inv client' := by
  cases action with
  | request =>
    cases hs
    refine ⟨h.ordered, fun request hmem => ?_⟩
    rcases List.mem_append.mp hmem with hold | hnew
    · refine Extends.attempts ?_ (h.attempts request hold)
      exact .of_eq rfl
    · rw [List.mem_singleton.mp hnew]
      exact ⟨fun _ hmem => absurd hmem List.not_mem_nil,
        fun _ _ _ hmem => absurd hmem List.not_mem_nil, nofun⟩
  | connect =>
    obtain ⟨request, hr, hs⟩ := Option.bind_eq_some_iff.mp hs
    split at hs
    · next attempt hphase =>
      unfold connect at hs
      split at hs
      · exact h.exchange hr hphase hs
      · split at hs
        · exact (h.dial _ _).exchange hr hphase hs
        · cases hs
          have hold := h.attempts request (List.mem_of_getElem? hr)
          exact h.setRequest (.of_eq rfl) h.ordered rfl ⟨hold.dead, nofun, nofun⟩
    · cases hs
  | finish =>
    obtain ⟨request, hr, hs⟩ := Option.bind_eq_some_iff.mp hs
    split at hs
    · next attempt reused i k hphase =>
      obtain ⟨outcome, houtcome, hs⟩ := Option.bind_eq_some_iff.mp hs
      exact h.finish hr hphase houtcome hunsent hs
    · cases hs
  | session i =>
    obtain ⟨session, hi, hs⟩ := Option.bind_eq_some_iff.mp hs
    obtain ⟨session', hown, rfl⟩ := Option.map_eq_some_iff.mp hs
    obtain ⟨hextends, hordered⟩ := h.session hi hown
      { client with sessions := client.sessions.set i session' } rfl
    exact ⟨hordered, fun request hmem => hextends.attempts (h.attempts request hmem)⟩
  | close =>
    unfold FarewardClient.step at hs
    dsimp only at hs
    split at hs
    · next i _ =>
      obtain ⟨session, hi, hs⟩ := Option.bind_eq_some_iff.mp hs
      obtain ⟨session', hclose, rfl⟩ := Option.map_eq_some_iff.mp hs
      obtain ⟨hextends, hordered⟩ := h.session hi hclose
        { client with sessions := client.sessions.set i session', current := none } rfl
      exact ⟨hordered, fun request hmem => hextends.attempts (h.attempts request hmem)⟩
    · cases hs
      exact h

/-- What is dead is not accepted. -/
theorem Inv.accepted_le_one (h : Inv client) (hmem : request ∈ client.requests) :
    client.accepted request ≤ 1 := by
  have hattempts := h.attempts request hmem
  unfold accepted
  cases hlast : request.attempts.getLast? with
  | none =>
    rw [List.getLast?_eq_none_iff.mp hlast]
    exact Nat.zero_le _
  | some last =>
    have hdead : request.attempts.dropLast.countP (fun (i, k) =>
        client.sessions[i]?.any fun session => session.accepted k) = 0 := by
      rw [List.countP_eq_zero]
      rintro ⟨i, k⟩ hattempt
      obtain ⟨session, hi, hcall⟩ := hattempts.dead (i, k) hattempt
      dsimp only
      rw [hi, Option.any_some,
        (h.ordered session (List.mem_of_getElem? hi)).accepted_eq_false hcall]
      nofun
    rw [← List.dropLast_append_getLast? last hlast, List.countP_append, hdead, Nat.zero_add]
    exact List.countP_le_length

/-- **One request is accepted at most once.** In every run in which `request` replays a frame only
if the first one did not go out whole, the daemon takes on at most one of the frames of each
request, a `Charge` among them. -/
theorem charged_at_most_once {slots maxInflight : Nat}
    (hreach : Reaches (step makePayload)
      (fun client action => client.replaysUnsent action = true) (new slots maxInflight) client)
    (hmem : request ∈ client.requests) : client.accepted request ≤ 1 := by
  have hinv : Inv client := by
    refine hreach.invariant (I := Inv) ⟨fun _ hmem => absurd hmem List.not_mem_nil,
      fun _ hmem => absurd hmem List.not_mem_nil⟩ ?_
    rintro client action client' - hclient hunsent hs
    exact hclient.step hunsent hs
  exact hinv.accepted_le_one hmem

open MuxConnection (sampleNonce samplePayload)

def runCall (i k : Nat) (actions : List MuxConnection.CallAction) : List Action :=
  actions.map fun action => .session i (.client (.run k action))

/-- The charge of request `r`, as call `k` of connection `i`, goes out and is taken on. -/
def chargeTaken (r i k : Nat) : List Action :=
  .connect r (some sampleNonce) :: runCall i k [.takeSlot, .enter, .write none] ++
    [.session i (.take .ack)]

/-- The first request dials the connection, and there is a second one. -/
def firstCharge : List Action :=
  let charge : Action := .request .chargeCredits (samplePayload .chargeCredits) 0 0
  charge :: chargeTaken 0 0 0 ++ [charge]

/-- The second request finds the connection open, but its frame is cut; it is replayed on a new
connection and taken on. -/
def chargeCut : List Action :=
  firstCharge ++ .connect 1 none ::
    runCall 0 1 [.takeSlot, .enter, .write (some 5), .forget, .fail, .leave] ++
    .finish 1 :: chargeTaken 1 1 0

theorem charged_at_most_once_cut : ∃ client request,
    Reaches (step fun _ => none) (fun client action => client.replaysUnsent action = true)
      (new 64 64) client ∧
    request ∈ client.requests ∧ request.opcode = .chargeCredits ∧
    request.attempts = [(0, 1), (1, 0)] ∧ client.accepted request ≤ 1 := by
  obtain ⟨client, hreach, request, hmem, hopcode, hattempts⟩ : ∃ client,
      Reaches (step fun _ => none) (fun client action => client.replaysUnsent action = true)
        (new 64 64) client ∧ ∃ request ∈ client.requests, request.opcode = .chargeCredits ∧
          request.attempts = [(0, 1), (1, 0)] :=
    exists_of_runList chargeCut (by decide +kernel)
  exact ⟨client, request, hreach, hmem, hopcode, hattempts, charged_at_most_once hreach hmem⟩

/-- The second request finds the connection open, is taken on and times out before the daemon
replies; it is replayed, on the same connection, and taken on again. -/
def chargeReplayed : List Action :=
  firstCharge ++ chargeTaken 1 0 1 ++
    runCall 0 1 [.leaveReply .timedOutBeforeReply, .abandon, .leave] ++
    .finish 1 :: chargeTaken 1 0 2

theorem charged_twice : ∃ client request,
    Reaches (step fun _ => none) (fun _ _ => True) (new 64 64) client ∧
    client.requests[1]? = some request ∧ request.opcode = .chargeCredits ∧
    request.attempts = [(0, 1), (0, 2)] ∧ client.accepted request = 2 := by
  obtain ⟨client, hreach, request, h⟩ : ∃ client, Reaches (step fun _ => none) (fun _ _ => True)
      (new 64 64) client ∧ ∃ request ∈ client.requests[1]?, request.opcode = .chargeCredits ∧
      request.attempts = [(0, 1), (0, 2)] ∧ client.accepted request = 2 :=
    exists_of_runList chargeReplayed (by decide +kernel)
  exact ⟨client, request, hreach, h⟩

end FarewardClient

end Fareward.Client
