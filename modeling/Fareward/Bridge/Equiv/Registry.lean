import Fareward.Bridge.Equiv.Steps

/-!
# The last connection wins

Three invariants of the bridge, for every run of it.

* `Bounded`: every channel that is named anywhere has been allocated, and an installed one has the
  key it is installed under.
* `Installed`: the channel installed under a key is the one opened last, unless `close_channel` has
  gone through the registry for it. It is not flagged as closed. A channel that was replaced or
  closed is flagged, or the call that did it is about to flag it: there is no await in between, so
  the call cannot be dropped there.
* `Waking`: a task that waits for an arrival is in the registry as long as its key has not been
  opened, and then among the waiters that the opening call has taken.

Steps that change neither the registry nor the log keep all three by one lemma each (`keep`).

The stream of a channel that was replaced does not end (`replaced_stream_pending`): it has a guard
that holds the channel, and with it the sender it would have to see dropped.
-/

namespace Fareward.Bridge

namespace RegistryState

variable (state : RegistryState) (key k : String) (c i : ℕ) (isClosed : ℕ → Bool)

theorem lookup_install : (state.install key c).channels.lookup k =
    if k = key then some c else state.channels.lookup k :=
  lookup_insert_eq state.channels key c k

theorem lookup_remove : (state.remove key c).channels.lookup k =
    if k = key ∧ state.channels.lookup key = some c then none else state.channels.lookup k := by
  unfold remove
  split_ifs with hc hk hk
  · obtain ⟨rfl, -⟩ := hk
    exact Finmap.lookup_erase k _
  · exact Finmap.lookup_erase_ne fun h => hk ⟨h, hc⟩
  · exact absurd hk.2 hc
  · rfl

theorem channels_dropArrivalWaiters :
    (state.dropArrivalWaiters key isClosed).channels = state.channels := by
  unfold dropArrivalWaiters
  split <;> rfl

theorem waiters_install : (state.install key c).waiters k =
    if k = key then [] else state.waiters k := by
  unfold waiters install
  split_ifs with h
  · subst h
    rw [Finmap.lookup_erase]
    rfl
  · rw [Finmap.lookup_erase_ne h]

theorem waiters_remove : (state.remove key c).waiters k = state.waiters k := by
  unfold remove
  split_ifs <;> rfl

theorem waiters_addWaiter : (state.addWaiter key i).waiters k =
    if k = key then state.waiters key ++ [i] else state.waiters k := by
  unfold addWaiter
  rw [waiters, lookup_insert_eq]
  split_ifs <;> rfl

theorem waiters_dropArrivalWaiters : (state.dropArrivalWaiters key isClosed).waiters k =
    if k = key then (state.waiters key).filter fun i => !isClosed i else state.waiters k := by
  unfold dropArrivalWaiters
  cases hkey : state.arrivalWaiters.lookup key with
  | none =>
    dsimp only
    split_ifs with h
    · subst h
      unfold waiters
      rw [hkey]
      rfl
    · rfl
  | some =>
    dsimp only
    unfold waiters
    rw [hkey]
    split_ifs with hempty h h
    · subst h
      rw [Finmap.lookup_erase]
      exact hempty.symm
    · rw [Finmap.lookup_erase_ne h]
    · rw [h, Finmap.lookup_insert]
      rfl
    · rw [Finmap.lookup_insert_of_ne _ h]

end RegistryState

namespace World

variable {w w' : World} {i j c : ℕ} {call : Call} {phase : Phase} {action : Action} {fate : Fate}
  {heap' : ℕ → ClientChannel} {tasks' : ℕ → Task} {waiters : List ℕ} {signal : Signal Unit}
  {flagged : Option ℕ} {starts : List ℕ}

theorem phase_spawn (w : World) (call : Call) (j : ℕ) : ((w.spawn call).tasks j).phase =
    if j = w.spawned then start call else (w.tasks j).phase := by
  by_cases h : j = w.spawned
  · subst h
    simp [spawn]
  · simp [spawn, h]

theorem arrival_spawn (w : World) (call : Call) (j : ℕ) (h : j ≠ w.spawned) :
    ((w.spawn call).tasks j).arrival = (w.tasks j).arrival := by
  simp [spawn, h]

theorem start_spec (call : Call) : (start call).taken = [] ∧ (start call).unflagged = none ∧
    (start call).repliesOn = none ∧ (start call).awaits = false ∧
    ∀ c ∈ (start call).channels, call = .close c := by
  cases call with
  | stream | publish => exact ⟨rfl, rfl, rfl, rfl, nofun⟩
  | close =>
    refine ⟨rfl, rfl, rfl, rfl, fun c hc => ?_⟩
    rw [List.mem_singleton.mp hc]
  | rpc | inbound =>
    dsimp only [start]
    split_ifs <;> exact ⟨rfl, rfl, rfl, rfl, nofun⟩

/-! ### Steps as seen from the registry -/

/-- A step that leaves the registry, the log and the set of channels: a task goes on. The channel
it flags is the one it had yet to flag, and the waiters it has taken it keeps or signals. -/
structure Quiet (w : World) (heap' : ℕ → ClientChannel) (tasks' : ℕ → Task) (i : ℕ)
    (phase : Phase) (waiters : List ℕ) (signal : Signal Unit) : Prop where
  live : (w.tasks i).phase ≠ .gone
  heap : Keeps w.heap heap' (w.tasks i).phase.unflagged (w.tasks i).phase.channels
  tasks : Goes w.tasks tasks' i phase waiters signal
  unflagged : phase.unflagged = none
  notWaiting : phase ≠ .waiting
  fresh : phase.isFresh = true → (w.tasks i).phase.isFresh = true
  taken : ∀ t ∈ (w.tasks i).phase.taken, t ∈ phase.taken ∨ t ∈ waiters
  signal : waiters ≠ [] → signal ≠ .waiting
  channels : ∀ c ∈ phase.channels, c ∈ (w.tasks i).phase.channels ∨ ∃ key, w.find key = some c

/-- What a step does, as far as the registry is concerned. -/
inductive Effect (w : World) : World → Prop
  | spawned {call : Call} {heap' : ℕ → ClientChannel} (hheap : Keeps w.heap heap' none [])
      (hclose : ∀ c, call = .close c → c < w.allocated ∨ (w.heap c).receiver = .streaming) :
      Effect w ({ w with heap := heap' }.spawn call)
  | polled {heap' : ℕ → ClientChannel} (hheap : Keeps w.heap heap' none []) :
      Effect w { w with heap := heap' }
  | quiet {heap' : ℕ → ClientChannel} {tasks' : ℕ → Task} {i : ℕ} {phase : Phase}
      {waiters : List ℕ} {signal : Signal Unit} (h : w.Quiet heap' tasks' i phase waiters signal) :
      Effect w { w with heap := heap', tasks := tasks' }
  | opened {i : ℕ} {tasks' : ℕ → Task} {key : String} (hphase : (w.tasks i).phase = .opening)
      (htasks : Goes w.tasks tasks' i (w.afterOpen key) [] .waiting) :
      Effect w { w with
        registry := w.registry.install key w.allocated
        heap := Function.update w.heap w.allocated (.new key)
        allocated := w.allocated + 1
        tasks := tasks'
        log := .opened i key w.allocated (w.find key) :: w.log }
  | closed {i c : ℕ} {tasks' : ℕ → Task} (hphase : (w.tasks i).phase = .closing c)
      (htasks : Goes w.tasks tasks' i (.flagging c) [] .waiting) :
      Effect w { w with
        registry := w.registry.remove (w.heap c).key c
        tasks := tasks'
        log := .closed i c :: w.log }
  | registered {i : ℕ} {tasks' : ℕ → Task} {key : String}
      (hphase : (w.tasks i).phase = .registering)
      (htasks : Goes w.tasks tasks' i .waiting [] .waiting) :
      Effect w { w with
        registry := w.registry.addWaiter key i
        tasks := tasks'
        log := .registered i key :: w.log }
  | expired {i : ℕ} {tasks' : ℕ → Task} {key : String} (hphase : (w.tasks i).phase = .expired)
      (htasks : Goes w.tasks tasks' i .refinding [] .waiting) :
      Effect w { w with
        registry := w.registry.dropArrivalWaiters key w.arrivalClosed
        tasks := tasks' }

/-- Where a task stands decides the rest of a quiet step. -/
theorem quiet_of_phase {from_ : Phase} (hphase : (w.tasks i).phase = from_)
    (hlive : from_ ≠ .gone) (hheap : Keeps w.heap heap' from_.unflagged [])
    (htasks : Goes w.tasks tasks' i phase waiters signal) (hunflagged : phase.unflagged = none)
    (hnot : phase ≠ .waiting) (hfresh : phase.isFresh = false)
    (htaken : ∀ t ∈ from_.taken, t ∈ phase.taken ∨ t ∈ waiters)
    (hsignal : waiters ≠ [] → signal ≠ .waiting) (hchannels : phase.channels ⊆ from_.channels) :
    Effect w { w with heap := heap', tasks := tasks' } := by
  subst hphase
  refine .quiet ⟨hlive, ⟨hheap.key, hheap.closed, fun c hc => ?_⟩, htasks, hunflagged, hnot,
    fun h => absurd h (by rw [hfresh]; exact Bool.false_ne_true), htaken, hsignal,
    fun c hc => .inl (hchannels hc)⟩
  exact (hheap.streaming c hc).imp_right fun h => absurd h List.not_mem_nil

theorem unflagged_mem (h : phase.unflagged = some c) : c ∈ phase.channels := by
  cases phase <;> simp_all [Phase.unflagged, Phase.channels]

theorem atAwait_spec (h : phase.atAwait = true) : phase ≠ .gone ∧ phase.unflagged = none := by
  cases phase <;> simp_all [Phase.atAwait, Phase.unflagged]

theorem Steps.effect (h : Steps w action w') : Effect w w' := by
  cases h with
  | spawned haction hheap htables hclose => exact .spawned hheap hclose
  | polled hheap => exact .polled hheap
  | cancelled hawait hheap htables htasks =>
    obtain ⟨hlive, hunflagged⟩ := atAwait_spec hawait
    exact quiet_of_phase rfl hlive (hunflagged ▸ hheap) htasks rfl nofun rfl
      (fun t ht => .inr ht) (fun _ => nofun) nofun
  | moved hheap htables htasks hmoves =>
    refine .quiet ⟨fun hgone => ?_, hmoves.unflagged ▸ hheap, htasks, hmoves.unflagged',
      hmoves.notWaiting, hmoves.fresh, fun t ht => ?_, fun hne => absurd rfl hne, hmoves.channels⟩
    · have hover := hmoves.notOver
      rw [hgone] at hover
      cases hover
    · rw [hmoves.taken] at ht
      cases ht
  | opened hphase htasks => exact .opened hphase htasks
  | evicted hphase hheap htables htasks =>
    exact quiet_of_phase hphase nofun hheap htasks rfl nofun rfl (fun t ht => .inl ht)
      (fun hne => absurd rfl hne) fun c hc => hc
  | failedPrevious hphase hheap htables htasks =>
    exact quiet_of_phase hphase nofun hheap htasks rfl nofun rfl (fun t ht => .inl ht)
      (fun hne => absurd rfl hne) fun c hc => List.mem_cons.mpr (.inl (List.mem_singleton.mp hc))
  | woke hphase htasks =>
    exact quiet_of_phase hphase nofun (keeps_refl w.heap []) htasks rfl nofun rfl
      (fun t ht => .inr ht) (fun _ => nofun) fun c hc => hc
  | closed hphase htasks => exact .closed hphase htasks
  | flagged hphase hheap htables htasks | replyAdded hphase hheap htables htasks =>
    exact quiet_of_phase hphase nofun hheap htasks rfl nofun rfl nofun
      (fun hne => absurd rfl hne) fun c hc => hc
  | failed hphase hheap htables htasks | released hphase hheap htables htasks
  | delivered hphase hcall hreply hheap htables htasks =>
    exact quiet_of_phase hphase nofun hheap htasks rfl nofun rfl nofun
      (fun hne => absurd rfl hne) nofun
  | registered hphase hfind htasks => exact .registered hphase htasks
  | expired hphase htasks => exact .expired hphase htasks

/-! ### Channels that are named -/

structure Bounded (w : World) : Prop where
  installed : ∀ key c, w.find key = some c → c < w.allocated ∧ (w.heap c).key = key
  held : ∀ i, ∀ c ∈ (w.tasks i).phase.channels, c < w.allocated
  streaming : ∀ c, (w.heap c).receiver = .streaming → c < w.allocated
  closedLog : ∀ i c, Event.closed i c ∈ w.log → c < w.allocated
  replacedLog : ∀ i key c previous, Event.opened i key c (some previous) ∈ w.log →
    previous < w.allocated
  unspawned : ∀ i, w.spawned ≤ i → (w.tasks i).phase = .gone

theorem bounded_new : new.Bounded where
  installed _ _ h := by cases h
  held _ _ h := by cases h
  streaming _ h := by cases h
  closedLog _ _ h := by cases h
  replacedLog _ _ _ _ h := by cases h
  unspawned _ _ := rfl

theorem Bounded.quiet (h : w.Bounded) (hq : w.Quiet heap' tasks' i phase waiters signal) :
    { w with heap := heap', tasks := tasks' : World }.Bounded where
  installed key c hc := ⟨(h.installed key c hc).1, (hq.heap.key c).trans (h.installed key c hc).2⟩
  held j c hc := by
    rcases hq.tasks.cases j with ⟨-, hphase⟩ | ⟨-, hphase⟩
    · rcases hq.channels c (hphase ▸ hc) with hc | ⟨key, hc⟩
      · exact h.held i c hc
      · exact (h.installed key c hc).1
    · exact h.held j c (hphase ▸ hc)
  streaming c hc := (hq.heap.streaming c hc).elim (h.streaming c) (h.held i c)
  closedLog := h.closedLog
  replacedLog := h.replacedLog
  unspawned j hj := by
    rcases hq.tasks.cases j with ⟨rfl, -⟩ | ⟨-, hphase⟩
    · exact absurd (h.unspawned j hj) hq.live
    · exact hphase.trans (h.unspawned j hj)

/-- A task goes on while the registry or the log changes. -/
theorem Bounded.goes (h : w.Bounded) (htasks : Goes w.tasks tasks' i phase [] .waiting)
    (hlive : (w.tasks i).phase ≠ .gone)
    (hchannels : phase.channels ⊆ (w.tasks i).phase.channels) :
    { w with tasks := tasks' : World }.Bounded where
  installed := h.installed
  held j c hc := by
    rcases htasks.cases j with ⟨-, hphase⟩ | ⟨-, hphase⟩
    · exact h.held i c (hchannels (hphase ▸ hc))
    · exact h.held j c (hphase ▸ hc)
  streaming := h.streaming
  closedLog := h.closedLog
  replacedLog := h.replacedLog
  unspawned j hj := by
    rcases htasks.cases j with ⟨rfl, -⟩ | ⟨-, hphase⟩
    · exact absurd (h.unspawned j hj) hlive
    · exact hphase.trans (h.unspawned j hj)

/-- The bounds do not depend on the waiters, and hold with another entry in the log. -/
theorem Bounded.relog {registry : RegistryState} {event : Event} (h : w.Bounded)
    (hfind : ∀ key c, registry.channels.lookup key = some c → w.find key = some c)
    (hevent : ∀ i c, event = .closed i c → c < w.allocated)
    (hopened : ∀ i key c previous, event ≠ .opened i key c (some previous)) :
    { w with registry, log := event :: w.log : World }.Bounded where
  installed key c hc := h.installed key c (hfind key c hc)
  held := h.held
  streaming := h.streaming
  closedLog i c hc := by
    rcases List.mem_cons.mp hc with heq | hc
    · exact hevent i c heq.symm
    · exact h.closedLog i c hc
  replacedLog i key c previous hc := h.replacedLog i key c previous
    ((List.mem_cons.mp hc).resolve_left (hopened i key c previous).symm)
  unspawned := h.unspawned

theorem Bounded.spawn (h : w.Bounded) (hclose : ∀ c, call = .close c → c < w.allocated) :
    (w.spawn call).Bounded where
  installed := h.installed
  held j c hc := by
    rw [phase_spawn] at hc
    split_ifs at hc
    · exact hclose c ((start_spec call).2.2.2.2 c hc)
    · exact h.held j c hc
  streaming := h.streaming
  closedLog := h.closedLog
  replacedLog := h.replacedLog
  unspawned j hj := by
    have hlt : w.spawned < j := hj
    rw [phase_spawn, if_neg hlt.ne']
    exact h.unspawned j hlt.le

theorem Bounded.opened (h : w.Bounded) {key : String}
    (htasks : Goes w.tasks tasks' i phase [] .waiting) (hlive : (w.tasks i).phase ≠ .gone)
    (hchannels : ∀ c ∈ phase.channels, c < w.allocated + 1) :
    { w with
      registry := w.registry.install key w.allocated
      heap := Function.update w.heap w.allocated (.new key)
      allocated := w.allocated + 1
      tasks := tasks'
      log := .opened i key w.allocated (w.find key) :: w.log : World }.Bounded where
  installed k c hc := by
    have hc : (w.registry.install key w.allocated).channels.lookup k = some c := hc
    rw [RegistryState.lookup_install] at hc
    split_ifs at hc with hk
    · cases hc
      refine ⟨Nat.lt_succ_self _, ?_⟩
      dsimp only
      rw [Function.update_self, hk]
      rfl
    · obtain ⟨hlt, hkey⟩ := h.installed k c hc
      refine ⟨Nat.lt_succ_of_lt hlt, ?_⟩
      dsimp only
      rw [Function.update_of_ne hlt.ne, hkey]
  held j c hc := by
    rcases htasks.cases j with ⟨-, hphase⟩ | ⟨-, hphase⟩
    · exact hchannels c (hphase ▸ hc)
    · exact Nat.lt_succ_of_lt (h.held j c (hphase ▸ hc))
  streaming c hc := by
    dsimp only at hc
    by_cases hnew : c = w.allocated
    · exact hnew ▸ Nat.lt_succ_self c
    · rw [Function.update_of_ne hnew] at hc
      exact Nat.lt_succ_of_lt (h.streaming c hc)
  closedLog j c hc :=
    Nat.lt_succ_of_lt (h.closedLog j c ((List.mem_cons.mp hc).resolve_left nofun))
  replacedLog j k c previous hc := by
    rcases List.mem_cons.mp hc with heq | hc
    · injection heq with _ _ _ hfind
      exact Nat.lt_succ_of_lt (h.installed key previous hfind.symm).1
    · exact Nat.lt_succ_of_lt (h.replacedLog j k c previous hc)
  unspawned j hj := by
    rcases htasks.cases j with ⟨rfl, -⟩ | ⟨-, hphase⟩
    · exact absurd (h.unspawned j hj) hlive
    · exact hphase.trans (h.unspawned j hj)

theorem Bounded.polled (h : w.Bounded) (hheap : Keeps w.heap heap' none []) :
    { w with heap := heap' : World }.Bounded where
  installed key c hc := ⟨(h.installed key c hc).1, (hheap.key c).trans (h.installed key c hc).2⟩
  held := h.held
  streaming c hc := (hheap.streaming c hc).elim (h.streaming c) nofun
  closedLog := h.closedLog
  replacedLog := h.replacedLog
  unspawned := h.unspawned

theorem Bounded.step (h : w.Bounded) (he : Effect w w') : w'.Bounded := by
  cases he with
  | spawned hheap hclose =>
    exact (h.polled hheap).spawn fun c hc => (hclose c hc).elim id (h.streaming c)
  | polled hheap => exact h.polled hheap
  | quiet hq => exact h.quiet hq
  | @opened i tasks' key hphase htasks =>
    refine h.opened htasks (by rw [hphase]; nofun) fun c hc => ?_
    rcases mem_channels_afterOpen hc with rfl | hfind
    · exact Nat.lt_succ_self _
    · exact Nat.lt_succ_of_lt (h.installed key c hfind).1
  | @closed i c tasks' hphase htasks =>
    have hc : c < w.allocated := h.held i c (by rw [hphase]; exact List.mem_cons_self)
    refine (h.goes htasks (by rw [hphase]; nofun) (by rw [hphase]; exact fun _ => id)).relog
      (fun key c' hc' => ?_) (fun i' c' heq => ?_) nofun
    · rw [RegistryState.lookup_remove] at hc'
      split_ifs at hc'
      exact hc'
    · injection heq with _ hcc
      exact hcc ▸ hc
  | registered hphase htasks =>
    exact (h.goes htasks (by rw [hphase]; nofun) nofun).relog (fun _ _ hc => hc) nofun nofun
  | @expired i tasks' key hphase htasks =>
    have hgoes := h.goes htasks (by rw [hphase]; nofun) nofun
    refine ⟨fun k c hc => hgoes.installed k c ?_, hgoes.held, hgoes.streaming, hgoes.closedLog,
      hgoes.replacedLog, hgoes.unspawned⟩
    unfold find at hc
    rw [RegistryState.channels_dropArrivalWaiters] at hc
    exact hc

/-! ### The installed channel -/

/-- The channel of a key that was opened last. -/
def mostRecent : List Event → String → Option ℕ
  | [], _ => none
  | .opened _ key c _ :: before, k => if k = key then some c else mostRecent before k
  | .closed _ _ :: before, k => mostRecent before k
  | .registered _ _ :: before, k => mostRecent before k

structure Installed (w : World) : Prop where
  find_iff : ∀ key c, w.find key = some c ↔
    mostRecent w.log key = some c ∧ ∀ i, Event.closed i c ∉ w.log
  notFlagged : ∀ key c, w.find key = some c → (w.heap c).closed = false
  unflagged : ∀ i c, (w.tasks i).phase.unflagged = some c → ∀ key, w.find key ≠ some c
  replaced : ∀ i key c previous, Event.opened i key c (some previous) ∈ w.log →
    (w.heap previous).closed = true ∨ (w.tasks i).phase.unflagged = some previous
  closed : ∀ i c, Event.closed i c ∈ w.log →
    (w.heap c).closed = true ∨ (w.tasks i).phase.unflagged = some c

theorem installed_new : new.Installed where
  find_iff key c := iff_of_false nofun fun h => nomatch h.1
  notFlagged _ _ h := by cases h
  unflagged _ _ h := by cases h
  replaced _ _ _ _ h := by cases h
  closed _ _ h := by cases h

/-- A channel the task had yet to flag is flagged, or it had none. -/
theorem Quiet.flags (hq : w.Quiet heap' tasks' i phase waiters signal) {j c : ℕ}
    (h : (w.heap c).closed = true ∨ (w.tasks j).phase.unflagged = some c) :
    (heap' c).closed = true ∨ (tasks' j).phase.unflagged = some c := by
  rw [hq.heap.closed]
  rcases h with h | h
  · exact .inl (by rw [h]; rfl)
  · rcases hq.tasks.cases j with ⟨rfl, -⟩ | ⟨-, hphase⟩
    · exact .inl (by rw [h]; simp)
    · exact .inr (hphase ▸ h)

theorem Installed.quiet (h : w.Installed) (hq : w.Quiet heap' tasks' i phase waiters signal) :
    { w with heap := heap', tasks := tasks' : World }.Installed where
  find_iff := h.find_iff
  notFlagged key c hc := by
    refine (hq.heap.closed c).trans ?_
    rw [h.notFlagged key c hc, Bool.false_or, beq_eq_false_iff_ne]
    exact fun hflag => h.unflagged i c hflag key hc
  unflagged j c hc := by
    rcases hq.tasks.cases j with ⟨-, hphase⟩ | ⟨-, hphase⟩
    · have hnone := hq.unflagged
      rw [← hphase] at hnone
      rw [show (tasks' j).phase.unflagged = none from hnone] at hc
      cases hc
    · exact h.unflagged j c (hphase ▸ hc)
  replaced j key c previous hlog := hq.flags (h.replaced j key c previous hlog)
  closed j c hlog := hq.flags (h.closed j c hlog)

/-- Another state with the same channels and the same openings and closings. -/
theorem Installed.congr (h : w.Installed) (hfind : ∀ key, w'.find key = w.find key)
    (hrecent : ∀ key, mostRecent w'.log key = mostRecent w.log key)
    (hclosed : ∀ i c, Event.closed i c ∈ w'.log ↔ Event.closed i c ∈ w.log)
    (hopened : ∀ i key c previous, Event.opened i key c (some previous) ∈ w'.log →
      Event.opened i key c (some previous) ∈ w.log)
    (hheap : ∀ c, (w'.heap c).closed = (w.heap c).closed)
    (hphase : ∀ i, (w'.tasks i).phase.unflagged = (w.tasks i).phase.unflagged) :
    w'.Installed where
  find_iff key c := by
    rw [hfind, hrecent, h.find_iff]
    exact and_congr_right' (forall_congr' fun i => not_congr (hclosed i c).symm)
  notFlagged key c hc := by
    rw [hheap]
    exact h.notFlagged key c (hfind key ▸ hc)
  unflagged i c hc key := by
    rw [hphase] at hc
    rw [hfind]
    exact h.unflagged i c hc key
  replaced i key c previous hlog := by
    rw [hheap, hphase]
    exact h.replaced i key c previous (hopened i key c previous hlog)
  closed i c hlog := by
    rw [hheap, hphase]
    exact h.closed i c ((hclosed i c).mp hlog)

/-- A new channel takes the place of the previous one, which its task has yet to flag. -/
theorem Installed.opened (h : w.Installed) (hb : w.Bounded) {key : String}
    (hphase : (w.tasks i).phase = .opening)
    (htasks : Goes w.tasks tasks' i (w.afterOpen key) [] .waiting) :
    { w with
      registry := w.registry.install key w.allocated
      heap := Function.update w.heap w.allocated (.new key)
      allocated := w.allocated + 1
      tasks := tasks'
      log := .opened i key w.allocated (w.find key) :: w.log : World }.Installed := by
  have hunflagged : (w.afterOpen key).unflagged = w.find key := by
    unfold afterOpen
    cases w.find key <;> rfl
  have hnot : (w.tasks i).phase.unflagged = none := by
    rw [hphase]
    rfl
  have hfresh : ∀ j, Event.closed j w.allocated ∉ w.log :=
    fun j hlog => (hb.closedLog j w.allocated hlog).false
  have hflag : ∀ {c}, c < w.allocated →
      (Function.update w.heap w.allocated (.new key) c).closed = (w.heap c).closed :=
    fun hlt => by rw [Function.update_of_ne hlt.ne]
  -- a channel that a task had yet to flag it still has to
  have hkept : ∀ {j c}, c < w.allocated →
      (w.heap c).closed = true ∨ (w.tasks j).phase.unflagged = some c →
      (Function.update w.heap w.allocated (.new key) c).closed = true ∨
        (tasks' j).phase.unflagged = some c := by
    intro j c hlt hc
    rw [hflag hlt]
    refine hc.imp_right fun hc => ?_
    rcases htasks.cases j with ⟨rfl, -⟩ | ⟨-, hj⟩
    · rw [hnot] at hc
      cases hc
    · exact hj ▸ hc
  have hfind' : ∀ k, (w.registry.install key w.allocated).channels.lookup k =
      if k = key then some w.allocated else w.find k :=
    fun k => RegistryState.lookup_install w.registry key k w.allocated
  refine ⟨fun k c => ?_, fun k c hc => ?_, fun j c hc k => ?_, fun j k c previous hlog => ?_,
    fun j c hlog => ?_⟩
  · refine (Eq.congr_left (hfind' k)).trans ?_
    have hclosed : (∀ j, Event.closed j c ∉ Event.opened i key w.allocated (w.find key) :: w.log) ↔
        ∀ j, Event.closed j c ∉ w.log := by
      simp
    dsimp only [mostRecent]
    rw [hclosed]
    split_ifs with hk
    · refine ⟨fun hc => ⟨hc, ?_⟩, fun hc => hc.1⟩
      cases hc
      exact hfresh
    · exact h.find_iff k c
  · have hc := (hfind' k).symm.trans hc
    split_ifs at hc with hk
    · cases hc
      dsimp only
      rw [Function.update_self]
      rfl
    · exact (hflag (hb.installed k c hc).1).trans (h.notFlagged k c hc)
  · intro hfound
    have hfound := (hfind' k).symm.trans hfound
    rcases htasks.cases j with ⟨-, hj⟩ | ⟨-, hj⟩
    · -- this is the channel that has been replaced
      have hprevious : w.find key = some c := hunflagged.symm.trans (hj ▸ hc)
      obtain ⟨hlt, hkey⟩ := hb.installed key c hprevious
      split_ifs at hfound with hk
      · exact hlt.ne (Option.some.inj hfound).symm
      · exact hk ((hb.installed k c hfound).2.symm.trans hkey)
    · have hc : (w.tasks j).phase.unflagged = some c := hj ▸ hc
      split_ifs at hfound with hk
      · exact (hb.held j c (unflagged_mem hc)).ne (Option.some.inj hfound).symm
      · exact h.unflagged j c hc k hfound
  · rcases List.mem_cons.mp hlog with heq | hlog
    · injection heq with hj _ _ hfind
      subst hj
      refine .inr ?_
      rcases htasks.cases j with ⟨-, hj⟩ | ⟨hne, -⟩
      · exact (congrArg Phase.unflagged hj).trans (hunflagged.trans hfind.symm)
      · exact absurd rfl hne
    · exact hkept (hb.replacedLog j k c previous hlog) (h.replaced j k c previous hlog)
  · have hlog := (List.mem_cons.mp hlog).resolve_left nofun
    exact hkept (hb.closedLog j c hlog) (h.closed j c hlog)

/-- The channel is taken out if it is the installed one, and its task has yet to flag it. -/
theorem Installed.closes (h : w.Installed) (hb : w.Bounded)
    (hphase : (w.tasks i).phase = .closing c)
    (htasks : Goes w.tasks tasks' i (.flagging c) [] .waiting) :
    { w with
      registry := w.registry.remove (w.heap c).key c
      tasks := tasks'
      log := .closed i c :: w.log : World }.Installed := by
  have hfind' : ∀ k c', (w.registry.remove (w.heap c).key c).channels.lookup k = some c' ↔
      w.find k = some c' ∧ c' ≠ c := by
    intro k c'
    rw [RegistryState.lookup_remove]
    split_ifs with hk
    · refine iff_of_false nofun fun hc => hc.2 ?_
      obtain ⟨rfl, hinstalled⟩ := hk
      exact Option.some.inj (hc.1.symm.trans hinstalled)
    · refine ⟨fun hc => ⟨hc, fun heq => hk ?_⟩, fun hc => hc.1⟩
      subst heq
      obtain rfl := (hb.installed k c' hc).2
      exact ⟨rfl, hc⟩
  have hnot : (w.tasks i).phase.unflagged = none := by
    rw [hphase]
    rfl
  have hkept : ∀ {j c'}, (w.heap c').closed = true ∨ (w.tasks j).phase.unflagged = some c' →
      (w.heap c').closed = true ∨ (tasks' j).phase.unflagged = some c' := by
    intro j c' hc
    refine hc.imp_right fun hc => ?_
    rcases htasks.cases j with ⟨rfl, -⟩ | ⟨-, hj⟩
    · rw [hnot] at hc
      cases hc
    · exact hj ▸ hc
  refine ⟨fun k c' => ?_, fun k c' hc => ?_, fun j c' hc k => ?_, fun j k c' previous hlog => ?_,
    fun j c' hlog => ?_⟩
  · refine (hfind' k c').trans ?_
    rw [h.find_iff, and_assoc]
    refine and_congr_right' ⟨fun hc j hmem => ?_, fun hc => ⟨fun j hmem => ?_, fun heq => ?_⟩⟩
    · rcases List.mem_cons.mp hmem with heq | hmem
      · injection heq with _ heq
        exact hc.2 heq
      · exact hc.1 j hmem
    · exact hc j (List.mem_cons_of_mem _ hmem)
    · exact hc i (heq ▸ List.mem_cons_self)
  · exact h.notFlagged k c' ((hfind' k c').mp hc).1
  · intro hfound
    obtain ⟨hfound, hne⟩ := (hfind' k c').mp hfound
    rcases htasks.cases j with ⟨-, hj⟩ | ⟨-, hj⟩
    · have hc : (Phase.flagging c).unflagged = some c' := hj ▸ hc
      exact hne (Option.some.inj hc).symm
    · exact h.unflagged j c' (hj ▸ hc) k hfound
  · exact hkept (h.replaced j k c' previous ((List.mem_cons.mp hlog).resolve_left nofun))
  · rcases List.mem_cons.mp hlog with heq | hlog
    · injection heq with hj hc
      subst hj hc
      refine .inr ?_
      rcases htasks.cases j with ⟨-, hj⟩ | ⟨hne, -⟩
      · exact congrArg Phase.unflagged hj
      · exact absurd rfl hne
    · exact hkept (h.closed j c' hlog)

/-- A task goes on, and has nothing to flag. -/
theorem Goes.unflagged_eq (htasks : Goes w.tasks tasks' i phase waiters signal)
    (hnot : (w.tasks i).phase.unflagged = none) (hnot' : phase.unflagged = none) (j : ℕ) :
    (tasks' j).phase.unflagged = (w.tasks j).phase.unflagged := by
  rcases htasks.cases j with ⟨rfl, hj⟩ | ⟨-, hj⟩
  · rw [hj, hnot, hnot']
  · rw [hj]

theorem Installed.step (h : w.Installed) (hb : w.Bounded) (he : Effect w w') : w'.Installed := by
  cases he with
  | @spawned call heap' hheap =>
    refine h.congr (fun _ => rfl) (fun _ => rfl) (fun _ _ => Iff.rfl) (fun _ _ _ _ => id)
      (fun c => (hheap.closed c).trans (Bool.or_false _)) fun j => ?_
    rw [phase_spawn]
    split_ifs with hj
    · rw [(start_spec call).2.1, hj]
      exact (congrArg Phase.unflagged (hb.unspawned w.spawned le_rfl)).symm
    · rfl
  | polled hheap =>
    exact h.congr (fun _ => rfl) (fun _ => rfl) (fun _ _ => Iff.rfl) (fun _ _ _ _ => id)
      (fun c => (hheap.closed c).trans (Bool.or_false _)) fun _ => rfl
  | quiet hq => exact h.quiet hq
  | opened hphase htasks => exact h.opened hb hphase htasks
  | closed hphase htasks => exact h.closes hb hphase htasks
  | registered hphase htasks =>
    refine h.congr (fun _ => rfl) (fun _ => rfl) (fun j c => ?_) (fun j k c p hmem => ?_)
      (fun _ => rfl) (htasks.unflagged_eq (by rw [hphase]; rfl) rfl)
    · exact ⟨fun hmem => (List.mem_cons.mp hmem).resolve_left nofun, List.mem_cons_of_mem _⟩
    · exact (List.mem_cons.mp hmem).resolve_left nofun
  | @expired i tasks' key hphase htasks =>
    refine h.congr (fun k => ?_) (fun _ => rfl) (fun _ _ => Iff.rfl) (fun _ _ _ _ => id)
      (fun _ => rfl) (htasks.unflagged_eq (by rw [hphase]; rfl) rfl)
    unfold find
    rw [RegistryState.channels_dropArrivalWaiters]

/-! ### Waiters -/

/-- The key has not been opened since the task registered for it. -/
def Unopened (log : List Event) (t : ℕ) (key : String) : Prop :=
  ∀ o c previous before, Event.opened o key c previous :: before <:+ log →
    Event.registered t key ∉ before

/-- Task `o` was the first to open the key after task `t` registered for it. -/
def FirstOpen (log : List Event) (t : ℕ) (key : String) (o : ℕ) : Prop :=
  ∃ c previous before, Event.opened o key c previous :: before <:+ log ∧
    Event.registered t key ∈ before ∧ Unopened before t key

variable {t o : ℕ} {key : String} {log : List Event} {event : Event}

theorem Unopened.cons (h : Unopened log t key)
    (hevent : ∀ o c previous, event ≠ .opened o key c previous) :
    Unopened (event :: log) t key := by
  intro o c previous before hsuffix
  rcases List.suffix_cons_iff.mp hsuffix with heq | hsuffix
  · exact absurd (List.cons.inj heq).1.symm (hevent o c previous)
  · exact h o c previous before hsuffix

theorem FirstOpen.cons (h : FirstOpen log t key o) (event : Event) :
    FirstOpen (event :: log) t key o := by
  obtain ⟨c, previous, before, hsuffix, h⟩ := h
  exact ⟨c, previous, before, hsuffix.trans (List.suffix_cons event log), h⟩

/-- A task that waits is among the waiters of its key, or among those the first call to open the
key has taken. -/
structure Waking (w : World) : Prop where
  known : ∀ t key, Event.registered t key ∈ w.log →
    t < w.spawned ∧ (w.tasks t).phase.isFresh = false
  waits : ∀ t key, Event.registered t key ∈ w.log → (w.tasks t).phase = .waiting →
    (w.tasks t).arrival = .waiting →
    t ∈ w.registry.waiters key ∧ Unopened w.log t key ∨
      ∃ o, t ∈ (w.tasks o).phase.taken ∧ FirstOpen w.log t key o

theorem waking_new : new.Waking where
  known _ _ h := by cases h
  waits _ _ h := by cases h

theorem Waking.quiet (h : w.Waking) (hq : w.Quiet heap' tasks' i phase waiters signal) :
    { w with heap := heap', tasks := tasks' : World }.Waking where
  known t key hlog := by
    obtain ⟨hlt, hfresh⟩ := h.known t key hlog
    refine ⟨hlt, ?_⟩
    dsimp only
    rcases hq.tasks.cases t with ⟨rfl, hphase⟩ | ⟨-, hphase⟩
    · rw [hphase, ← Bool.not_eq_true]
      exact fun hnew => Bool.false_ne_true (hfresh.symm.trans (hq.fresh hnew))
    · rw [hphase, hfresh]
  waits t key hlog hwaiting harrival := by
    dsimp only at hlog hwaiting harrival ⊢
    rcases hq.tasks.cases t with ⟨-, hphase⟩ | ⟨-, hphase⟩
    · exact absurd (hphase.symm.trans hwaiting) hq.notWaiting
    · -- the step does not signal the task
      have hnot : t ∉ waiters := fun hmem => by
        rw [hq.tasks.arrival, if_pos hmem] at harrival
        exact hq.signal (List.ne_nil_of_mem hmem) harrival
      rw [hq.tasks.arrival, if_neg hnot] at harrival
      refine (h.waits t key hlog (hphase ▸ hwaiting) harrival).imp_right ?_
      rintro ⟨o, htaken, hfirst⟩
      refine ⟨o, ?_, hfirst⟩
      rcases hq.tasks.cases o with ⟨rfl, ho⟩ | ⟨-, ho⟩
      · rw [ho]
        exact (hq.taken t htaken).resolve_right hnot
      · rw [ho]
        exact htaken

/-- A task that has taken no waiters goes on, and signals none. -/
theorem Goes.taken_eq (htasks : Goes w.tasks tasks' i phase [] .waiting)
    (hnone : (w.tasks i).phase.taken = []) (ht : t ∈ (w.tasks o).phase.taken) :
    t ∈ (tasks' o).phase.taken := by
  rcases htasks.cases o with ⟨rfl, -⟩ | ⟨-, ho⟩
  · rw [hnone] at ht
    cases ht
  · rw [ho]
    exact ht

theorem Goes.arrival_eq (htasks : Goes w.tasks tasks' i phase [] .waiting) (t : ℕ) :
    (tasks' t).arrival = (w.tasks t).arrival :=
  (htasks.arrival t).trans (if_neg List.not_mem_nil)

/-- The tasks that registered are known after the step if the one that moves is not fresh. -/
theorem Waking.knows (h : w.Waking) (htasks : Goes w.tasks tasks' i phase [] .waiting)
    (hfresh : phase.isFresh = false) (t : ℕ) (key : String)
    (hlog : Event.registered t key ∈ w.log) :
    t < w.spawned ∧ (tasks' t).phase.isFresh = false := by
  obtain ⟨hlt, hold⟩ := h.known t key hlog
  refine ⟨hlt, ?_⟩
  rcases htasks.cases t with ⟨-, hphase⟩ | ⟨-, hphase⟩
  · rw [hphase, hfresh]
  · rw [hphase, hold]

theorem Waking.opened (h : w.Waking) {heap' : ℕ → ClientChannel} {allocated : ℕ}
    (hphase : (w.tasks i).phase = .opening)
    (htasks : Goes w.tasks tasks' i (w.afterOpen key) [] .waiting) :
    { w with
      registry := w.registry.install key w.allocated
      heap := heap'
      allocated := allocated
      tasks := tasks'
      log := .opened i key w.allocated (w.find key) :: w.log : World }.Waking := by
  have hnext : w.afterOpen key ≠ .waiting := by
    unfold afterOpen
    cases w.find key <;> nofun
  refine ⟨fun t k hlog => ?_, fun t k hlog hwaiting harrival => ?_⟩
  · exact h.knows htasks (isFresh_afterOpen w key) t k ((List.mem_cons.mp hlog).resolve_left nofun)
  · dsimp only at hlog hwaiting harrival ⊢
    have hbefore := (List.mem_cons.mp hlog).resolve_left nofun
    rw [htasks.arrival_eq] at harrival
    rcases htasks.cases t with ⟨-, ht⟩ | ⟨-, ht⟩
    · exact absurd (ht.symm.trans hwaiting) hnext
    · rcases h.waits t k hbefore (ht ▸ hwaiting) harrival with ⟨hmem, hunopened⟩ | ⟨o, hmem, hfirst⟩
      · by_cases hk : k = key
        · -- this call takes the waiter
          subst hk
          refine .inr ⟨i, ?_, w.allocated, w.find k, w.log, List.suffix_rfl, hbefore, hunopened⟩
          rcases htasks.cases i with ⟨-, hi⟩ | ⟨hne, -⟩
          · rw [hi, taken_afterOpen]
            exact hmem
          · exact absurd rfl hne
        · refine .inl ⟨?_, hunopened.cons fun o c previous heq => ?_⟩
          · rw [RegistryState.waiters_install, if_neg hk]
            exact hmem
          · injection heq with _ heq
            exact hk heq.symm
      · exact .inr ⟨o, htasks.taken_eq (by rw [hphase]; rfl) hmem, hfirst.cons _⟩

theorem Waking.closes (h : w.Waking) (hphase : (w.tasks i).phase = .closing c)
    (htasks : Goes w.tasks tasks' i (.flagging c) [] .waiting) :
    { w with
      registry := w.registry.remove (w.heap c).key c
      tasks := tasks'
      log := .closed i c :: w.log : World }.Waking := by
  refine ⟨fun t k hlog => ?_, fun t k hlog hwaiting harrival => ?_⟩
  · exact h.knows htasks rfl t k ((List.mem_cons.mp hlog).resolve_left nofun)
  · dsimp only at hlog hwaiting harrival ⊢
    have hlog := (List.mem_cons.mp hlog).resolve_left nofun
    rw [htasks.arrival_eq] at harrival
    rcases htasks.cases t with ⟨-, ht⟩ | ⟨-, ht⟩
    · cases ht.symm.trans hwaiting
    · rcases h.waits t k hlog (ht ▸ hwaiting) harrival with ⟨hmem, hunopened⟩ | ⟨o, hmem, hfirst⟩
      · rw [RegistryState.waiters_remove]
        exact .inl ⟨hmem, hunopened.cons nofun⟩
      · exact .inr ⟨o, htasks.taken_eq (by rw [hphase]; rfl) hmem, hfirst.cons _⟩

theorem Waking.registers (h : w.Waking) (hb : w.Bounded)
    (hphase : (w.tasks i).phase = .registering)
    (htasks : Goes w.tasks tasks' i .waiting [] .waiting) :
    { w with
      registry := w.registry.addWaiter key i
      tasks := tasks'
      log := .registered i key :: w.log : World }.Waking := by
  -- it registers for the first time
  have hnew : ∀ k, Event.registered i k ∉ w.log := fun k hmem => by
    have hfresh := (h.known i k hmem).2
    rw [hphase] at hfresh
    cases hfresh
  have hi : i < w.spawned := lt_of_not_ge fun hle => by
    have hgone := hb.unspawned i hle
    rw [hphase] at hgone
    cases hgone
  refine ⟨fun t k hlog => ?_, fun t k hlog hwaiting harrival => ?_⟩
  · rcases List.mem_cons.mp hlog with heq | hlog
    · injection heq with ht
      subst ht
      refine ⟨hi, ?_⟩
      rcases htasks.cases t with ⟨-, ht⟩ | ⟨hne, -⟩
      · exact congrArg Phase.isFresh ht
      · exact absurd rfl hne
    · exact h.knows htasks rfl t k hlog
  · dsimp only at hlog hwaiting harrival ⊢
    rw [RegistryState.waiters_addWaiter]
    rw [htasks.arrival_eq] at harrival
    rcases List.mem_cons.mp hlog with heq | hbefore
    · injection heq with ht hk
      subst ht hk
      refine .inl ⟨?_, Unopened.cons (fun o c previous before hsuffix hmem => ?_) nofun⟩
      · rw [if_pos rfl]
        exact List.mem_append_right _ List.mem_cons_self
      · exact hnew k (hsuffix.subset (List.mem_cons_of_mem _ hmem))
    · rcases htasks.cases t with ⟨rfl, -⟩ | ⟨-, ht⟩
      · exact absurd hbefore (hnew k)
      · rcases h.waits t k hbefore (ht ▸ hwaiting) harrival with
          ⟨hmem, hunopened⟩ | ⟨o, hmem, hfirst⟩
        · refine .inl ⟨?_, hunopened.cons nofun⟩
          split_ifs with hk
          · exact List.mem_append_left _ (hk ▸ hmem)
          · exact hmem
        · exact .inr ⟨o, htasks.taken_eq (by rw [hphase]; rfl) hmem, hfirst.cons _⟩

theorem Waking.expires (h : w.Waking) (hphase : (w.tasks i).phase = .expired)
    (htasks : Goes w.tasks tasks' i .refinding [] .waiting) :
    { w with
      registry := w.registry.dropArrivalWaiters key w.arrivalClosed
      tasks := tasks' : World }.Waking := by
  refine ⟨h.knows htasks rfl, fun t k hlog hwaiting harrival => ?_⟩
  dsimp only at hlog hwaiting harrival ⊢
  rw [htasks.arrival_eq] at harrival
  rcases htasks.cases t with ⟨-, ht⟩ | ⟨-, ht⟩
  · cases ht.symm.trans hwaiting
  · have hwaiting : (w.tasks t).phase = .waiting := ht ▸ hwaiting
    rcases h.waits t k hlog hwaiting harrival with ⟨hmem, hunopened⟩ | ⟨o, hmem, hfirst⟩
    · refine .inl ⟨?_, hunopened⟩
      rw [RegistryState.waiters_dropArrivalWaiters]
      split_ifs with hk
      · -- its receiver is there, so its sender stays
        refine List.mem_filter.mpr ⟨hk ▸ hmem, ?_⟩
        simp [arrivalClosed, hwaiting]
      · exact hmem
    · exact .inr ⟨o, htasks.taken_eq (by rw [hphase]; rfl) hmem, hfirst⟩

theorem Waking.spawn (h : w.Waking) (hb : w.Bounded) : (w.spawn call).Waking := by
  refine ⟨fun t k hlog => ?_, fun t k hlog hwaiting harrival => ?_⟩
  · obtain ⟨hlt, hfresh⟩ := h.known t k hlog
    refine ⟨Nat.lt_succ_of_lt hlt, ?_⟩
    rw [phase_spawn, if_neg hlt.ne, hfresh]
  · have hlt := (h.known t k hlog).1
    rw [phase_spawn, if_neg hlt.ne] at hwaiting
    rw [arrival_spawn w call t hlt.ne] at harrival
    refine (h.waits t k hlog hwaiting harrival).imp_right ?_
    rintro ⟨o, hmem, hfirst⟩
    refine ⟨o, ?_, hfirst⟩
    rw [phase_spawn, if_neg fun ho => ?_]
    · exact hmem
    · rw [ho, hb.unspawned w.spawned le_rfl] at hmem
      cases hmem

theorem Waking.step (h : w.Waking) (hb : w.Bounded) (he : Effect w w') : w'.Waking := by
  cases he with
  | spawned hheap =>
    have hpolled := hb.polled hheap
    exact Waking.spawn ⟨h.known, h.waits⟩ hpolled
  | polled => exact ⟨h.known, h.waits⟩
  | quiet hq => exact h.quiet hq
  | opened hphase htasks => exact h.opened hphase htasks
  | closed hphase htasks => exact h.closes hphase htasks
  | registered hphase htasks => exact h.registers hb hphase htasks
  | expired hphase htasks => exact h.expires hphase htasks

/-! ### Every run -/

/-- The invariants of a run. -/
structure Inv (w : World) : Prop where
  bounded : w.Bounded
  installed : w.Installed
  waking : w.Waking

theorem inv_new : new.Inv := ⟨bounded_new, installed_new, waking_new⟩

theorem Inv.step (h : w.Inv) (hs : w.step action = some w') : w'.Inv :=
  have he := (step_spec hs).effect
  ⟨h.bounded.step he, h.installed.step h.bounded he, h.waking.step h.bounded he⟩

theorem inv_of_reaches {ok : World → Action → Prop} (h : Reaches step ok new w) : w.Inv :=
  h.invariant inv_new fun _ _ _ _ hinv _ hs => hinv.step hs

/-- The first call to open the key came no later than any other since the registration. -/
theorem FirstOpen.of_opened {o' c' : ℕ} {previous' : Option ℕ} {before' : List Event}
    (h : FirstOpen log t key o) (hopened : Event.opened o' key c' previous' :: before' <:+ log)
    (hregistered : Event.registered t key ∈ before') :
    FirstOpen (Event.opened o' key c' previous' :: before') t key o := by
  obtain ⟨c, previous, before, hsuffix, hmem, hunopened⟩ := h
  rcases List.suffix_or_suffix_of_suffix hsuffix hopened with hle | hle
  · exact ⟨c, previous, before, hle, hmem, hunopened⟩
  · rcases List.suffix_cons_iff.mp hle with heq | hle
    · exact ⟨c, previous, before, heq ▸ List.suffix_rfl, hmem, hunopened⟩
    · exact absurd hregistered (hunopened o' c' previous' before' hle)

/-- **The last connection wins.** In every state of every run: the channel installed under a key is
the one that was opened last, if no `close_channel` has gone through the registry for it, and none
otherwise. An installed channel is not flagged as closed. A channel that was replaced or closed
is flagged, unless the call that did it has not come that far. A task that registered for an
arrival and is still waiting when its key has been opened since is signalled, unless the first call
to open the key after its registration has not come that far. -/
theorem last_connection_wins (h : Reaches step (fun _ _ => True) new w) :
    (∀ key c, w.find key = some c ↔
      mostRecent w.log key = some c ∧ ∀ i, Event.closed i c ∉ w.log) ∧
    (∀ key c, w.find key = some c → (w.heap c).closed = false) ∧
    (∀ i key c previous, Event.opened i key c (some previous) ∈ w.log →
      (w.heap previous).closed = true ∨ (w.tasks i).phase.unflagged = some previous) ∧
    (∀ i c, Event.closed i c ∈ w.log →
      (w.heap c).closed = true ∨ (w.tasks i).phase.unflagged = some c) ∧
    (∀ t key o c previous before, Event.opened o key c previous :: before <:+ w.log →
      Event.registered t key ∈ before → (w.tasks t).phase = .waiting →
      (w.tasks t).arrival ≠ .waiting ∨
        ∃ o', FirstOpen (Event.opened o key c previous :: before) t key o' ∧
          t ∈ (w.tasks o').phase.taken) := by
  have hinv := inv_of_reaches h
  refine ⟨hinv.installed.find_iff, hinv.installed.notFlagged, hinv.installed.replaced,
    hinv.installed.closed, fun t key o c previous before hopened hregistered hwaiting => ?_⟩
  rw [or_iff_not_imp_left, not_not]
  intro harrival
  have hlog : Event.registered t key ∈ w.log :=
    hopened.subset (List.mem_cons_of_mem _ hregistered)
  rcases hinv.waking.waits t key hlog hwaiting harrival with
    ⟨-, hunopened⟩ | ⟨o', htaken, hfirst⟩
  · exact absurd hregistered (hunopened o c previous before hopened)
  · exact ⟨o', hfirst.of_opened hopened hregistered, htaken⟩

/-- The steps of a task that opens a channel with nobody to tell. -/
def openRun (i : ℕ) : List Action := [.run i .go, .run i .go, .run i .go]

/-- Those of one that replaces a channel. -/
def replaceRun (i : ℕ) : List Action :=
  [.run i .go, .run i .go, .run i .go, .run i .go, .run i .go]

/-- A tab connects twice. -/
def reconnecting : List Action :=
  .spawn (.stream "tab") :: openRun 0 ++ .spawn (.stream "tab") :: replaceRun 1

theorem last_connection_wins_reconnecting :
    ∃ w, Reaches step (fun _ _ => True) new w ∧ w.find "tab" = some 1 ∧
      (w.heap 1).closed = false := by
  refine exists_and_of_runList reconnecting (by decide +kernel) fun w hreach hfind => ?_
  exact (last_connection_wins hreach).2.1 "tab" 1 hfind

/-! ### The end of a stream -/

/-- The channel is not installed, no task holds it, and its queue is empty. -/
structure Loose (w : World) (c : ℕ) : Prop where
  find : ∀ key, w.find key ≠ some c
  held : ∀ i, c ∉ (w.tasks i).phase.channels
  frames : (w.heap c).frames = []

/-- It is enough to look at the key of the channel and at the tasks there are. -/
theorem Bounded.loose (h : w.Bounded) (hfind : w.find (w.heap c).key ≠ some c)
    (hheld : ∀ i < w.spawned, c ∉ (w.tasks i).phase.channels) (hframes : (w.heap c).frames = []) :
    w.Loose c := by
  refine ⟨fun key hkey => hfind ?_, fun i => ?_, hframes⟩
  · rw [(h.installed key c hkey).2]
    exact hkey
  · by_cases hi : i < w.spawned
    · exact hheld i hi
    · rw [h.unspawned i (not_lt.mp hi)]
      exact List.not_mem_nil

/-- **A loose stream never ends.** The guard inside the stream holds the channel, and with it a
sender of its frames, so the stream is pending as long as it is there to be polled. -/
theorem loose_pending (h : w.Loose c) (hs : (w.heap c).receiver = .streaming) :
    w.pollNext c = .pending := by
  have howned : w.Owned c := .inr (.inr hs)
  unfold pollNext
  rw [h.frames]
  exact if_pos howned

/-- A tab connects twice, and the first stream yields all its frames, the last of which says that it
was replaced. -/
theorem exists_replaced :
    ∃ w, Reaches step (fun _ _ => True) new w ∧ w.Loose 0 ∧ (w.heap 0).closed = true ∧
      (w.heap 0).receiver = .streaming ∧ w.pollNext 0 = .pending := by
  obtain ⟨w, hreach, hfind, hheld, hframes, hends⟩ : ∃ w, Reaches step (fun _ _ => True) new w ∧
      w.find (w.heap 0).key ≠ some 0 ∧ (∀ i < w.spawned, 0 ∉ (w.tasks i).phase.channels) ∧
      (w.heap 0).frames = [] ∧ (w.heap 0).closed = true ∧ (w.heap 0).receiver = .streaming ∧
      w.pollNext 0 = .pending :=
    exists_of_runList (reconnecting ++ [.poll 0, .poll 0]) (by decide +kernel)
  exact ⟨w, hreach, (inv_of_reaches hreach).bounded.loose hfind hheld hframes, hends⟩

theorem loose_pending_replaced : ∃ w, Reaches step (fun _ _ => True) new w ∧ w.Loose 0 ∧
    (w.heap 0).receiver = .streaming ∧ w.pollNext 0 = .pending := by
  obtain ⟨w, hreach, hloose, -, hs, -⟩ := exists_replaced
  exact ⟨w, hreach, hloose, hs, loose_pending hloose hs⟩

/-- **A replaced stream does not end.** -/
theorem replaced_stream_pending :
    ∃ w, Reaches step (fun _ _ => True) new w ∧ w.Loose 0 ∧ (w.heap 0).closed = true ∧
      w.pollNext 0 = .pending := by
  obtain ⟨w, hreach, hloose, hclosed, -, hends⟩ := exists_replaced
  exact ⟨w, hreach, hloose, hclosed, hends⟩

end World

end Fareward.Bridge
