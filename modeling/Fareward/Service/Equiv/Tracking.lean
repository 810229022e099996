import Fareward.Service.Equiv.Release

/-!
# A release against its own grant

The client learns of a grant from the reply, the loop from the acquire channel, and the `select!`
may read the client's release before it takes the grant from the channel.

* `Tracked`: where a grant of a connection can be. Until it is released, expires or the loop ends,
  it is with its handler, in the channel or in `held`;
* `Answered`: a handler whose grant the client has been told of is through with it;
* `release_acked_iff`: a release that is read within the lease of a hold the client knows of is
  acknowledged and ends the hold exactly if the loop has taken the grant from the channel.
-/

namespace Fareward.Service

open Lock

variable {phase : LoopPhase}

namespace Connection

variable {conn conn' : Connection} {h j : Nat} {handler : Handler}

theorem getElem?_setHandler (hh : conn.handlers[h]? = some handler) (phase : HandlerPhase)
    (j : Nat) :
    (conn.setHandler h phase).handlers[j]? =
      if h = j then some { handler with phase } else conn.handlers[j]? := by
  rw [setHandler, modify_eq_set hh]
  exact getElem?_set_of_some hh _ j

/-- The handler of frame `sequence` has the grant in hand. -/
def Reports (conn : Connection) (sequence : Nat) (key : LockKey) (lock : HeldLock) : Prop :=
  ∃ (h : Nat) (job : Job) (reply : Reply),
    conn.handlers[h]? = some ⟨sequence, job, .reporting ⟨key, some lock⟩ reply⟩

theorem Reports.setHandler {sequence : Nat} {key : LockKey} {lock : HeldLock} {phase : HandlerPhase}
    (hreports : conn.Reports sequence key lock) (hh : conn.handlers[h]? = some handler)
    (hnot : ∀ outcome reply, handler.phase ≠ .reporting outcome reply) :
    (conn.setHandler h phase).Reports sequence key lock := by
  obtain ⟨j, job, reply, hj⟩ := hreports
  refine ⟨j, job, reply, ?_⟩
  rw [getElem?_setHandler hh, if_neg, hj]
  rintro rfl
  obtain rfl := Option.some.inj (hh.symm.trans hj)
  exact hnot _ _ rfl

theorem Reports.of_handlers {sequence : Nat} {key : LockKey} {lock : HeldLock}
    (hreports : conn.Reports sequence key lock) (hhandlers : conn'.handlers = conn.handlers) :
    conn'.Reports sequence key lock := by
  rwa [Reports, hhandlers]

end Connection

theorem LoopPhase.isOver_of_hasAborted (h : phase.hasAborted = true) : phase.isOver = true := by
  cases phase <;> first | rfl | cases h

theorem LoopPhase.isOver_of_hasReturned (h : phase.hasReturned = true) : phase.isOver = true := by
  cases phase <;> first | rfl | cases h

namespace World

variable {w w₁ w' : World} {c h : Nat} {conn conn' : Connection} {key : LockKey} {lock : HeldLock}
  {action : Action} {sequence : Nat}

/-! ### Where a grant is -/

/-- Where the grant of a frame of connection `c` can be. -/
def Tracked (w : World) (c : Nat) (conn : Connection) (sequence : Nat) (key : LockKey)
    (lock : HeldLock) : Prop :=
  (conn.Reports sequence key lock ∨ ⟨key, some lock⟩ ∈ conn.acquires ∨
    conn.held.lookup key = some lock) ∨
  .released c key lock ∈ w.log ∨ lock.expiresAt ≤ w.now ∨ conn.phase.isOver = true

theorem Transition.isOver (htransition : Transition w c conn action w₁ conn')
    (hover : conn.phase.isOver = true) : conn'.phase.isOver = true := by
  cases htransition with
  | push hp | answer hp | dropExpired hp | expire hp | expired hp | park hp | shutdown _ hp
  | recv hp | replace hp | recvRefused hp | readOpcode hp | idle hp | spawn hp | refuse hp
  | ignore hp | release hp | misuse hp | logRequest hp | invalidSequence hp =>
    rw [hp] at hover
    cases hover
  | reply hh hsend =>
    rcases Connection.send_spec hsend with rfl | rfl
    all_goals exact hover
  | abort | cleared | writerEnded | returned | fail | overflow | invalid => rfl
  | clear | discard | call | finish | granted | refused | reportFails | report | killParked
  | killReporting | killRunning | killReplying | write | writeFails => exact hover

theorem Transition.now (htransition : Transition w c conn action w₁ conn') : w₁.now = w.now := by
  cases htransition with
  | discard | reportFails | killReporting =>
    unfold dropOutcome
    split <;> rfl
  | _ => rfl

theorem Transition.connections (htransition : Transition w c conn action w₁ conn') :
    w₁.connections = w.connections := by
  cases htransition with
  | discard | reportFails | killReporting =>
    unfold dropOutcome
    split <;> rfl
  | _ => rfl

theorem Transition.log_subset (htransition : Transition w c conn action w₁ conn') {event : Event}
    (hmem : event ∈ w.log) : event ∈ w₁.log := by
  rcases htransition.log with hlog | ⟨key, lock, hlog⟩ | ⟨_, _, _, _, _, _, _, _, hlog, -⟩
  · exact hlog ▸ hmem
  · exact hlog ▸ List.mem_append_left _ hmem
  · exact hlog ▸ List.mem_append_left _ hmem

/-- A grant moves on with its connection, and is not lost. -/
theorem Transition.tracked (htransition : Transition w c conn action w₁ conn') (hinv : Inv w)
    (hc : w.connections[c]? = some conn)
    (hclock : ∀ now expired, conn.phase = .expiring now expired → now ≤ w.now)
    (htracked : Tracked w c conn sequence key lock) : Tracked w₁ c conn' sequence key lock := by
  rcases htracked with hplace | hreleased | hexpired | hover
  · cases htransition with
    | @expire key' lock' now expired hp hlock hdue =>
      rcases hplace with hreports | hmem | hheld
      · exact .inl (.inl hreports)
      · exact .inl (.inr (.inl hmem))
      · by_cases hkey : key = key'
        · subst hkey
          obtain rfl := Option.some.inj (hlock.symm.trans hheld)
          exact .inr (.inr (.inl (hdue.trans (hclock now expired hp))))
        · exact .inl (.inr (.inr ((AList.lookup_erase_ne hkey).trans hheld)))
    | @recv until_ key' lock' acquires hp hacquires hfree =>
      rcases hplace with hreports | hmem | hheld
      · exact .inl (.inl hreports)
      · rw [hacquires] at hmem
        rcases List.mem_cons.mp hmem with heq | hmem
        · obtain ⟨rfl, hlock⟩ := AcquireOutcome.mk.inj heq
          cases hlock
          exact .inl (.inr (.inr (AList.lookup_insert conn.held)))
        · exact .inl (.inr (.inl hmem))
      · have hkey : key ≠ key' := by
          rintro rfl
          cases hfree.symm.trans hheld
        exact .inl (.inr (.inr ((AList.lookup_insert_ne hkey).trans hheld)))
    | replace hp hacquires hheld =>
      have hmem : _ ∈ conn.acquires := hacquires ▸ List.mem_cons_self
      cases (hinv.lookup_eq_none_of_mem hc hmem).symm.trans hheld
    | recvRefused hp hacquires =>
      rcases hplace with hreports | hmem | hheld
      · exact .inl (.inl hreports)
      · rw [hacquires] at hmem
        rcases List.mem_cons.mp hmem with heq | hmem
        · cases heq
        · exact .inl (.inr (.inl hmem))
      · exact .inl (.inr (.inr hheld))
    | spawn =>
      rcases hplace with ⟨j, job, reply, hj⟩ | hrest
      · refine .inl (.inl ⟨j, job, reply, ?_⟩)
        exact (List.getElem?_append_left (List.getElem?_eq_some_iff.mp hj).1).trans hj
      · exact .inl (.inr hrest)
    | @release request lock' hp hsequence hlock =>
      rcases hplace with hreports | hmem | hheld
      · exact .inl (.inl hreports)
      · exact .inl (.inr (.inl hmem))
      · by_cases hkey : key = request.key
        · subst hkey
          obtain rfl := Option.some.inj (hlock.symm.trans hheld)
          exact .inr (.inl (List.mem_append_right _ List.mem_cons_self))
        · exact .inl (.inr (.inr ((AList.lookup_erase_ne hkey).trans hheld)))
    | clear hp | discard hp => exact .inr (.inr (.inr (by dsimp only; rw [hp]; rfl)))
    | call hh | finish hh | granted hh | refused hh =>
      exact .inl (hplace.imp_left fun hreports => hreports.setHandler hh nofun)
    | reportFails hh hreturned =>
      exact .inr (.inr (.inr (LoopPhase.isOver_of_hasReturned hreturned)))
    | @report h sequence' job' outcome reply' hh =>
      rcases hplace with ⟨j, job, reply, hj⟩ | hmem | hheld
      · by_cases hij : h = j
        · subst hij
          obtain ⟨-, -, hphase⟩ := Handler.mk.inj (Option.some.inj (hh.symm.trans hj))
          obtain ⟨rfl, -⟩ := HandlerPhase.reporting.inj hphase
          exact .inl (.inr (.inl (List.mem_append_right _ List.mem_cons_self)))
        · refine .inl (.inl ⟨j, job, reply, ?_⟩)
          exact (Connection.getElem?_setHandler hh _ j).trans ((if_neg hij).trans hj)
      · exact .inl (.inr (.inl (List.mem_append_left _ hmem)))
      · exact .inl (.inr (.inr hheld))
    | reply hh hsend =>
      rcases Connection.send_spec hsend with rfl | rfl
      · refine .inl (hplace.imp_left fun hreports => ?_)
        exact Connection.Reports.setHandler (hreports.of_handlers rfl) hh nofun
      · exact .inl (hplace.imp_left fun hreports => hreports.setHandler hh nofun)
    | killParked hh haborted | killReporting hh haborted | killRunning hh haborted
    | killReplying hh haborted => exact .inr (.inr (.inr (LoopPhase.isOver_of_hasAborted haborted)))
    | push hp hsend | answer hp hsend =>
      rcases Connection.send_spec hsend with rfl | rfl
      all_goals exact .inl hplace
    | _ => exact .inl hplace
  · exact .inr (.inl (htransition.log_subset hreleased))
  · exact .inr (.inr (.inl (htransition.now ▸ hexpired)))
  · exact .inr (.inr (.inr (htransition.isOver hover)))

end World

/-! ### What the client has been told -/

/-- A grant with the given generation has been answered to frame `sequence`. -/
def Connection.Sent (conn : Connection) (sequence : Nat) (generation : UInt16) : Prop :=
  (sequence, .lockGranted generation) ∈ conn.replies ∨
    (sequence, .lockGranted generation) ∈ conn.delivered

/-- Another reply says nothing about grants. -/
theorem Connection.Sent.of_append {conn : Connection} {s sequence : Nat} {reply : Reply}
    {generation : UInt16} (hreply : ∀ generation, reply ≠ .lockGranted generation)
    (hsent : Connection.Sent { conn with replies := conn.replies ++ [(s, reply)], phase } sequence
      generation) : conn.Sent sequence generation := by
  refine hsent.imp_left fun hmem => ?_
  rcases List.mem_append.mp hmem with hmem | hmem
  · exact hmem
  · exact absurd (Prod.mk.inj (List.mem_singleton.mp hmem)).2.symm (hreply generation)

theorem Job.refusal_ne {job : Job} {reply : Reply} (h : job.refusal = some reply)
    (generation : UInt16) : reply ≠ .lockGranted generation := by
  rintro rfl
  cases job <;> cases h

structure Answered (conn : Connection) : Prop where
  lt : ∀ (h : Nat) (handler : Handler), conn.handlers[h]? = some handler →
    handler.sequence < conn.sequence
  once : ∀ (h h' : Nat) (handler handler' : Handler), conn.handlers[h]? = some handler →
    conn.handlers[h']? = some handler' → handler.sequence = handler'.sequence → h = h'
  sent : ∀ sequence generation, conn.Sent sequence generation → sequence < conn.sequence ∧
    ∀ (h : Nat) (handler : Handler), conn.handlers[h]? = some handler →
      handler.sequence = sequence → handler.phase = .gone
  /-- The loop itself grants nothing. -/
  answering : ∀ sequence reply, conn.phase = .answering sequence reply →
    ∀ generation, reply ≠ .lockGranted generation

namespace Answered

variable {conn conn' : Connection} {h : Nat} {handler : Handler}

theorem relabel (hanswered : Answered conn) (hhandlers : conn'.handlers = conn.handlers)
    (hsequence : conn.sequence ≤ conn'.sequence)
    (hsent : ∀ sequence generation, conn'.Sent sequence generation → conn.Sent sequence generation)
    (hanswering : ∀ sequence reply, conn'.phase = .answering sequence reply →
      ∀ generation, reply ≠ .lockGranted generation) : Answered conn' := by
  refine ⟨fun h handler hh => ?_, fun h h' handler handler' hh hh' => ?_,
    fun sequence generation hs => ?_, hanswering⟩
  · exact (hanswered.lt h handler (hhandlers ▸ hh)).trans_le hsequence
  · exact hanswered.once h h' handler handler' (hhandlers ▸ hh) (hhandlers ▸ hh')
  · obtain ⟨hlt, hgone⟩ := hanswered.sent sequence generation (hsent sequence generation hs)
    exact ⟨hlt.trans_le hsequence, hhandlers ▸ hgone⟩

theorem setHandler (hanswered : Answered conn) (hh : conn.handlers[h]? = some handler)
    (hphase : handler.phase ≠ .gone) (phase : HandlerPhase) :
    Answered (conn.setHandler h phase) := by
  have hold {j : Nat} {handler' : Handler}
      (hj : (conn.setHandler h phase).handlers[j]? = some handler') :
      ∃ before, conn.handlers[j]? = some before ∧ before.sequence = handler'.sequence ∧
        (before.phase = .gone → handler'.phase = .gone) := by
    rw [Connection.getElem?_setHandler hh] at hj
    split_ifs at hj with hij
    · subst hij
      cases hj
      exact ⟨handler, hh, rfl, fun hgone => absurd hgone hphase⟩
    · exact ⟨handler', hj, rfl, id⟩
  refine ⟨fun j handler' hj => ?_, fun j j' one other hj hj' heq => ?_,
    fun sequence generation hs => ?_, hanswered.answering⟩
  · obtain ⟨before, hb, hsequence, -⟩ := hold hj
    exact hsequence ▸ hanswered.lt j before hb
  · obtain ⟨before, hb, hsequence, -⟩ := hold hj
    obtain ⟨before', hb', hsequence', -⟩ := hold hj'
    exact hanswered.once j j' before before' hb hb' (by rw [hsequence, hsequence', heq])
  · obtain ⟨hlt, hgone⟩ := hanswered.sent sequence generation hs
    refine ⟨hlt, fun j handler' hj heq => ?_⟩
    obtain ⟨before, hb, hsequence, hafter⟩ := hold hj
    exact hafter (hgone j before hb (hsequence.trans heq))

theorem spawn (hanswered : Answered conn) (job : Job) : Answered { conn with
    sequence := conn.sequence + 1
    handlers := conn.handlers ++ [⟨conn.sequence, job, .running⟩]
    phase := .top } := by
  refine ⟨fun j handler hj => ?_, fun j j' one other hj hj' heq => ?_,
    fun sequence generation hs => ?_, nofun⟩
  · rcases getElem?_concat_some hj with hj | ⟨-, rfl⟩
    · exact (hanswered.lt j handler hj).trans (Nat.lt_succ_self _)
    · exact Nat.lt_succ_self _
  · rcases getElem?_concat_some hj with hj | ⟨rfl, rfl⟩
    · rcases getElem?_concat_some hj' with hj' | ⟨rfl, rfl⟩
      · exact hanswered.once j j' one other hj hj' heq
      · exact absurd (hanswered.lt j one hj) (by rw [heq]; exact lt_irrefl _)
    · rcases getElem?_concat_some hj' with hj' | ⟨rfl, -⟩
      · exact absurd (hanswered.lt j' other hj') (by rw [← heq]; exact lt_irrefl _)
      · rfl
  · obtain ⟨hlt, hgone⟩ := hanswered.sent sequence generation hs
    refine ⟨hlt.trans (Nat.lt_succ_self _), fun j handler hj heq => ?_⟩
    rcases getElem?_concat_some hj with hj | ⟨-, rfl⟩
    · exact hgone j handler hj heq
    · obtain rfl : conn.sequence = sequence := heq
      exact absurd hlt (lt_irrefl _)

theorem reply {reply : Reply} (hanswered : Answered conn) (hh : conn.handlers[h]? = some handler)
    (hphase : handler.phase ≠ .gone) :
    Answered (Connection.setHandler
      { conn with replies := conn.replies ++ [(handler.sequence, reply)] } h .gone) := by
  have hset := hanswered.setHandler hh hphase .gone
  refine ⟨hset.lt, hset.once, fun sequence generation hs => ?_, hset.answering⟩
  have hcases : conn.Sent sequence generation ∨ sequence = handler.sequence := by
    rcases hs with hmem | hmem
    · rcases List.mem_append.mp hmem with hmem | hmem
      · exact .inl (.inl hmem)
      · exact .inr (Prod.mk.inj (List.mem_singleton.mp hmem)).1
    · exact .inl (.inr hmem)
  rcases hcases with hs | rfl
  · exact hset.sent sequence generation hs
  · refine ⟨hanswered.lt h handler hh, fun j handler' hj heq => ?_⟩
    have hj : (conn.setHandler h .gone).handlers[j]? = some handler' := hj
    rw [Connection.getElem?_setHandler hh] at hj
    split_ifs at hj with hij
    · exact (Option.some.inj hj) ▸ rfl
    · exact absurd (hanswered.once h j handler handler' hh hj heq.symm) hij

theorem new : Answered .new where
  lt h handler hh := by
    rw [Connection.new, List.getElem?_nil] at hh
    cases hh
  once h h' handler handler' hh := by
    rw [Connection.new, List.getElem?_nil] at hh
    cases hh
  sent sequence generation hsent := by
    rcases hsent with hmem | hmem <;> cases hmem
  answering sequence reply hphase := by cases hphase

end Answered

namespace World

variable {w w₁ w' : World} {c h : Nat} {conn conn' : Connection} {key : LockKey} {lock : HeldLock}
  {action : Action} {sequence : Nat}

theorem Transition.answered (htransition : Transition w c conn action w₁ conn')
    (hanswered : Answered conn) : Answered conn' := by
  have hsame : ∀ sequence generation, conn.Sent sequence generation →
    conn.Sent sequence generation := fun _ _ => id
  cases htransition with
  | push hp hsend =>
    rcases Connection.send_spec hsend with rfl | rfl
    · exact hanswered.relabel rfl (Nat.le_refl _) (fun _ _ => .of_append nofun) nofun
    · exact hanswered.relabel rfl (Nat.le_refl _) hsame nofun
  | answer hp hsend =>
    rcases Connection.send_spec hsend with rfl | rfl
    · exact hanswered.relabel rfl (Nat.le_refl _)
        (fun _ _ => .of_append (hanswered.answering _ _ hp)) nofun
    · exact hanswered.relabel rfl (Nat.le_refl _) hsame nofun
  | refuse hp hsequence hpermit hreply =>
    refine hanswered.relabel rfl (Nat.le_succ _) hsame fun sequence reply hphase => ?_
    obtain ⟨-, rfl⟩ := LoopPhase.answering.inj hphase
    exact Job.refusal_ne hreply
  | release | misuse | invalidSequence =>
    refine hanswered.relabel rfl (Nat.le_succ _) hsame fun sequence reply hphase => ?_
    obtain ⟨-, rfl⟩ := LoopPhase.answering.inj hphase
    nofun
  | spawn => exact hanswered.spawn _
  | ignore | logRequest | invalid =>
    exact hanswered.relabel rfl (Nat.le_succ _) hsame nofun
  | shutdown stop =>
    refine hanswered.relabel rfl (Nat.le_refl _) hsame fun sequence reply hphase => ?_
    cases stop <;> cases hphase
  | idle =>
    refine hanswered.relabel rfl (Nat.le_refl _) hsame fun sequence reply hphase => ?_
    dsimp only at hphase
    split at hphase <;> cases hphase
  | call hh | finish hh | granted hh | refused hh | reportFails hh | killParked hh
  | killReporting hh | killRunning hh | killReplying hh => exact hanswered.setHandler hh nofun _
  | @report h sequence job outcome reply hh =>
    have hset := hanswered.setHandler hh nofun (.replying reply)
    exact hset.relabel rfl (Nat.le_refl _) (fun _ _ => id) hset.answering
  | reply hh hsend =>
    rcases Connection.send_spec hsend with rfl | rfl
    · exact hanswered.reply hh nofun
    · exact hanswered.setHandler hh nofun _
  | write hwriting hreplies =>
    refine hanswered.relabel rfl (Nat.le_refl _) (fun sequence generation hsent => ?_)
      hanswered.answering
    rcases hsent with hmem | hmem
    · exact .inl (hreplies ▸ List.mem_cons_of_mem _ hmem)
    · rcases List.mem_append.mp hmem with hmem | hmem
      · exact .inr hmem
      · exact .inl (hreplies ▸ List.mem_singleton.mp hmem ▸ List.mem_cons_self)
  | writeFails =>
    exact hanswered.relabel rfl (Nat.le_refl _) (fun _ _ hsent => .inr (hsent.resolve_left nofun))
      hanswered.answering
  | clear | discard => exact hanswered.relabel rfl (Nat.le_refl _) hsame hanswered.answering
  | _ => exact hanswered.relabel rfl (Nat.le_refl _) hsame nofun

/-! ### Every step -/

structure Tracking (w : World) : Prop where
  connections : ∀ (c : Nat) (conn : Connection), w.connections[c]? = some conn → Answered conn ∧
    (∀ now expired, conn.phase = .expiring now expired → now ≤ w.now) ∧
    ∀ sequence key lock, .granted c sequence key lock ∈ w.log → Tracked w c conn sequence key lock
  lt : ∀ c sequence key lock, .granted c sequence key lock ∈ w.log → c < w.connections.length

theorem Transition.clock (htransition : Transition w c conn action w₁ conn')
    (hclock : ∀ now expired, conn.phase = .expiring now expired → now ≤ w.now) (now : Nat)
    (expired : List LockKey) (hphase : conn'.phase = .expiring now expired) : now ≤ w.now := by
  cases htransition with
  | dropExpired =>
    obtain ⟨rfl, -⟩ := LoopPhase.expiring.inj hphase
    exact Nat.le_refl _
  | expire hp =>
    obtain ⟨rfl, -⟩ := LoopPhase.expiring.inj hphase
    exact hclock _ _ hp
  | shutdown stop => cases stop <;> cases hphase
  | idle =>
    dsimp only at hphase
    split at hphase <;> cases hphase
  | reply hh hsend =>
    rcases Connection.send_spec hsend with rfl | rfl
    all_goals exact hclock now expired hphase
  | call | finish | granted | refused | reportFails | report | killParked | killReporting
  | killRunning | killReplying | clear | discard | write | writeFails =>
    exact hclock now expired hphase
  | _ => cases hphase

theorem Tracked.mono (htracked : Tracked w c conn sequence key lock)
    (hlog : ∀ event ∈ w.log, event ∈ w'.log) (hnow : w.now ≤ w'.now) :
    Tracked w' c conn sequence key lock :=
  htracked.imp_right (.imp (hlog _) (.imp_left (·.trans hnow)))

theorem Tracking.connect (htracking : Tracking w) :
    Tracking { w with connections := w.connections ++ [.new] } := by
  refine ⟨fun c conn hc => ?_, fun c sequence key lock hmem => ?_⟩
  · rcases getElem?_concat_some hc with hc | ⟨rfl, rfl⟩
    · exact htracking.connections c conn hc
    · refine ⟨.new, (fun now expired hphase => by cases hphase), fun sequence key lock hmem => ?_⟩
      exact absurd (htracking.lt _ _ _ _ hmem) (lt_irrefl _)
  · have := htracking.lt c sequence key lock hmem
    rw [List.length_append]
    omega

theorem Tracking.tick (htracking : Tracking w) (by_ : Nat) :
    Tracking { w with now := w.now + by_ } := by
  refine ⟨fun c conn hc => ?_, htracking.lt⟩
  obtain ⟨hanswered, hclock, htracked⟩ := htracking.connections c conn hc
  have hnow : w.now ≤ w.now + by_ := Nat.le_add_right _ _
  exact ⟨hanswered, fun now expired hp => (hclock now expired hp).trans hnow,
    fun sequence key lock hmem => (htracked sequence key lock hmem).mono (fun _ => id) hnow⟩

/-- A grant that is new is in the hand of its handler. -/
theorem Transition.granted_mem (htransition : Transition w c conn action w₁ conn') {c' : Nat}
    (hmem : .granted c' sequence key lock ∈ w₁.log) : .granted c' sequence key lock ∈ w.log ∨
      c' = c ∧ conn'.Reports sequence key lock := by
  rcases htransition.log with hlog | ⟨key', lock', hlog⟩ |
    ⟨h, sequence', entry, job, key', lock', reply, call, hlog, -, hh⟩
  · exact .inl (hlog ▸ hmem)
  · rcases List.mem_append.mp (hlog ▸ hmem) with hold | hnew
    · exact .inl hold
    · cases List.mem_singleton.mp hnew
  · rcases List.mem_append.mp (hlog ▸ hmem) with hold | hnew
    · exact .inl hold
    · cases List.mem_singleton.mp hnew
      exact .inr ⟨rfl, h, job, reply, hh⟩

theorem Transition.tracking (htransition : Transition w c conn action w₁ conn') (hinv : Inv w)
    (htracking : Tracking w) (hc : w.connections[c]? = some conn) :
    Tracking (w₁.update c conn') := by
  obtain ⟨hanswered, hclock, htracked⟩ := htracking.connections c conn hc
  refine ⟨fun c' other hc' => ?_, fun c' sequence key lock hmem => ?_⟩
  · rw [update, htransition.connections, getElem?_set_of_some hc] at hc'
    split_ifs at hc' with heq
    · subst heq
      obtain rfl := Option.some.inj hc'
      refine ⟨htransition.answered hanswered, fun now expired hphase => ?_,
        fun sequence key lock hmem => ?_⟩
      · exact (htransition.clock hclock now expired hphase).trans_eq htransition.now.symm
      · rcases htransition.granted_mem hmem with hold | ⟨-, hreports⟩
        · exact htransition.tracked hinv hc hclock (htracked sequence key lock hold)
        · exact .inl (.inl hreports)
    · obtain ⟨hanswered', hclock', htracked'⟩ := htracking.connections c' other hc'
      refine ⟨hanswered', fun now expired hphase => ?_, fun sequence key lock hmem => ?_⟩
      · exact (hclock' now expired hphase).trans_eq htransition.now.symm
      · rcases htransition.granted_mem hmem with hold | ⟨rfl, -⟩
        · exact (htracked' sequence key lock hold).mono (fun _ => htransition.log_subset)
            (le_of_eq htransition.now.symm)
        · exact absurd rfl heq
  · rw [update, htransition.connections, List.length_set]
    rcases htransition.granted_mem hmem with hold | ⟨rfl, -⟩
    · exact htracking.lt c' sequence key lock hold
    · exact (List.getElem?_eq_some_iff.mp hc).1

theorem tracking_step (hinv : Inv w) (htracking : Tracking w) (hs : w.step action = some w') :
    Tracking w' := by
  rcases step_spec hs with ⟨-, rfl⟩ | ⟨by_, -, rfl⟩ | ⟨i, registry, -, hr, rfl⟩ |
    ⟨i, registry, -, hr, rfl⟩ | ⟨c, conn, w₁, conn', hc, htransition, rfl⟩
  · exact htracking.connect
  · exact htracking.tick by_
  · exact ⟨htracking.connections, htracking.lt⟩
  · exact ⟨htracking.connections, htracking.lt⟩
  · exact htransition.tracking hinv htracking hc

theorem Reachable.tracking {config : Config} {shardCount : Nat} {limits : LockLimits}
    (hreach : Reachable config shardCount limits w) : Tracking w := by
  refine hreach.invariant (I := Tracking) ⟨fun c conn hc => ?_, fun c sequence key lock hmem => ?_⟩
    fun _ _ _ hreach htracking _ hs => tracking_step (Reachable.inv hreach) htracking hs
  · rw [World.new, List.getElem?_nil] at hc
    cases hc
  · cases hmem

/-! ### The acknowledgement -/

/-- A hold that the client has been told of is in the channel or in `held` until it is released,
expires or the loop ends. -/
theorem Tracking.held_of_delivered (htracking : Tracking w) (hc : w.connections[c]? = some conn)
    (hgranted : .granted c sequence key lock ∈ w.log)
    (hdelivered : (sequence, .lockGranted lock.generation) ∈ conn.delivered)
    (hunreleased : .released c key lock ∉ w.log) (hlease : w.now < lock.expiresAt)
    (hloop : conn.phase.isOver = false) (hchannel : ⟨key, some lock⟩ ∉ conn.acquires) :
    conn.held.lookup key = some lock := by
  obtain ⟨hanswered, -, htracked⟩ := htracking.connections c conn hc
  rcases htracked sequence key lock hgranted with
    (⟨h, job, reply, hh⟩ | hmem | hheld) | hreleased | hexpired | hover
  · have hgone := (hanswered.sent sequence lock.generation (.inr hdelivered)).2 h _ hh rfl
    cases hgone
  · exact absurd hmem hchannel
  · exact hheld
  · exact absurd hreleased hunreleased
  · omega
  · rw [hloop] at hover
    cases hover

/-- **A release against its own grant.** The client has been told of a hold on connection `c`, has
not released it, and the daemon reads the release within the lease: it answers `Ack` and the hold
ends exactly if the grant has left the acquire channel (and the frame's sequence is not the
last). -/
theorem release_acked_iff {config : Config} {shardCount : Nat} {limits : LockLimits}
    (hreach : Reachable config shardCount limits w) (hc : w.connections[c]? = some conn)
    (hgranted : .granted c sequence key lock ∈ w.log)
    (hdelivered : (sequence, .lockGranted lock.generation) ∈ conn.delivered)
    (hunreleased : .released c key lock ∉ w.log) (hlease : w.now < lock.expiresAt)
    (hs : w.step (.loop c (.receive (.lockRelease ⟨key.1, key.2, lock.generation⟩))) = some w') :
    ((∃ conn', w'.connections[c]? = some conn' ∧ conn'.phase = .answering conn.sequence .ack) ∧
      ∃ task, w'.registry.tasks[lock.guard]? = some task ∧ task.phase.isOver = true) ↔
    ⟨key, some lock⟩ ∉ conn.acquires ∧ conn.sequence + 1 < 2 ^ 64 := by
  have hinv := hreach.inv
  obtain ⟨conn', w₁, after, hc', htransition, rfl⟩ : ∃ conn' w₁ after,
      w.connections[c]? = some conn' ∧ Transition w c conn' _ w₁ after ∧
      w' = w₁.update c after := by
    obtain ⟨conn', hc', hs⟩ := Option.bind_eq_some_iff.mp hs
    obtain ⟨w₁, after, htransition, heq⟩ := loop_spec rfl hs
    exact ⟨conn', w₁, after, hc', htransition, heq⟩
  obtain rfl := Option.some.inj (hc.symm.trans hc')
  have hafter : (w₁.update c after).connections[c]? = some after := by
    rw [update, htransition.connections, getElem?_set_of_some hc, if_pos rfl]
  have hheld (hloop : conn.phase.isOver = false) :=
    hreach.tracking.held_of_delivered hc hgranted hdelivered hunreleased hlease hloop
  cases htransition with
  | overflow hp hsequence =>
    constructor
    · rintro ⟨⟨conn', hconn', hphase⟩, -⟩
      obtain rfl := Option.some.inj (hafter.symm.trans hconn')
      cases hphase
    · rintro ⟨-, hlt⟩
      exact absurd hlt hsequence
  | misuse hp hsequence hlock =>
    constructor
    · rintro ⟨⟨conn', hconn', hphase⟩, -⟩
      obtain rfl := Option.some.inj (hafter.symm.trans hconn')
      cases hphase
    · rintro ⟨hchannel, -⟩
      exact absurd rfl (hlock lock (hheld (by rw [hp]; rfl) hchannel))
  | @release _ lock' hp hsequence hlock =>
    constructor
    · intro _
      refine ⟨fun hmem => ?_, hsequence⟩
      cases (hinv.lookup_eq_none_of_mem hc hmem).symm.trans hlock
    · rintro ⟨hchannel, -⟩
      have hlookup := hheld (by rw [hp]; rfl) hchannel
      obtain rfl : lock' = lock := Option.some.inj (hlock.symm.trans hlookup)
      obtain ⟨request, entry, ht, -⟩ :=
        (hinv.connections c conn hc).locks key lock' (.inr (.inr hlookup))
      exact ⟨⟨_, hafter, rfl⟩, _, (dropGuard_tasks ht lock'.guard).trans (if_pos rfl), rfl⟩

theorem release_acked_iff_held :
    ∃ w w' conn, Reachable sampleConfig 4 ⟨8, 8⟩ w ∧ w.connections = [conn] ∧
      w.step (.loop 0 (.receive (.lockRelease releaseGranted))) = some w' ∧
      (∃ conn', w'.connections[0]? = some conn' ∧ conn'.phase = .answering 1 .ack) := by
  obtain ⟨w, hreach, hconnections, hlog, hlease, hsome⟩ : ∃ w, Reachable sampleConfig 4 ⟨8, 8⟩ w ∧
      w.connections = [⟨1, [grantedHandler], [], AList.singleton (7, 42) grantedLock, [],
        [(0, .lockGranted 1)], true, .reading⟩] ∧
      w.log = [.granted 0 0 (7, 42) grantedLock] ∧ w.now < grantedLock.expiresAt ∧
      (w.step (.loop 0 (.receive (.lockRelease releaseGranted)))).isSome :=
    exists_of_runList grantHeld (by decide +kernel)
  obtain ⟨w', hs⟩ := Option.isSome_iff_exists.mp hsome
  refine ⟨w, w', _, hreach, hconnections, hs, ?_⟩
  have hgranted : .granted 0 0 (7, 42) grantedLock ∈ w.log := hlog ▸ List.mem_cons_self
  have hunreleased : .released 0 (7, 42) grantedLock ∉ w.log := by
    rw [hlog]
    decide
  exact ((release_acked_iff hreach (by rw [hconnections]; rfl) hgranted List.mem_cons_self
    hunreleased hlease hs).mpr ⟨(fun hmem => by cases hmem), by decide⟩).1

/-- The client has the grant and releases it at once, and the loop reads the release before it takes
the grant from the channel: the release is refused and the hold goes on. -/
theorem release_overtakes_grant :
    ∃ w w', Reachable sampleConfig 4 ⟨8, 8⟩ w ∧
      w.connections = [⟨1, [grantedHandler], [⟨(7, 42), some grantedLock⟩], ∅, [],
        [(0, .lockGranted 1)], true, .reading⟩] ∧
      w.log = [.granted 0 0 (7, 42) grantedLock] ∧ w.now < grantedLock.expiresAt ∧
      w.step (.loop 0 (.receive (.lockRelease releaseGranted))) = some w' ∧
      w'.connections = [⟨2, [grantedHandler], [⟨(7, 42), some grantedLock⟩], ∅, [],
        [(0, .lockGranted 1)], true, .answering 1 (.lockRefused 4)⟩] ∧
      w'.registry.tasks = [⟨LockRegistry.contendedRequest, .holding 0 1⟩] := by
  obtain ⟨w, hreach, hconnections, hlog, hlease, w', hs, hends⟩ :
      ∃ w, Reachable sampleConfig 4 ⟨8, 8⟩ w ∧
        w.connections = [⟨1, [grantedHandler], [⟨(7, 42), some grantedLock⟩], ∅, [],
          [(0, .lockGranted 1)], true, .reading⟩] ∧
        w.log = [.granted 0 0 (7, 42) grantedLock] ∧ w.now < grantedLock.expiresAt ∧
        ∃ w' ∈ w.step (.loop 0 (.receive (.lockRelease releaseGranted))),
          w'.connections = [⟨2, [grantedHandler], [⟨(7, 42), some grantedLock⟩], ∅, [],
            [(0, .lockGranted 1)], true, .answering 1 (.lockRefused 4)⟩] ∧
          w'.registry.tasks = [⟨LockRegistry.contendedRequest, .holding 0 1⟩] :=
    exists_of_runList (grantDelivered ++ [.loop 0 .readOpcode]) (by decide +kernel)
  exact ⟨w, w', hreach, hconnections, hlog, hlease, hs, hends⟩

end World

end Fareward.Service
