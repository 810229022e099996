import Fareward.Bridge.Http
import Fareward.Lib.Machine

/-!
# What a step of the bridge does

`Steps` lists what a step can do to the registry, the channels and the tasks. Most steps only move
a task from one await to the next (`Moves`); the others are the critical sections and what follows
them.

The invariants of the bridge speak of a few things a phase says of its task: the waiters it has
taken (`Phase.taken`), the channel it has yet to flag (`Phase.unflagged`), the channel whose table
it may have an entry in (`Phase.repliesOn`).
-/

namespace Fareward.Bridge

variable {tasks tasks' : ℕ → Task} {waiters starts : List ℕ} {signal : Signal Unit}
  {f : ClientChannel → ClientChannel} {frame : String}

/-- The channel that the task took out of the registry and has not flagged as closed. -/
def Phase.unflagged : Phase → Option ℕ
  | .evicting _ previous _ => some previous
  | .flagging channel => some channel
  | _ => none

/-- The channel on which the task has registered for a reply and not released it. -/
def Phase.repliesOn : Phase → Option ℕ
  | .sending channel => some channel
  | .selecting channel => some channel
  | .releasing channel _ => some channel
  | _ => none

/-- The task has not registered for an arrival. -/
def Phase.isFresh : Phase → Bool
  | .finding => true
  | .registering => true
  | _ => false

/-- The task may have an arrival waiter in the registry. -/
def Phase.awaits : Phase → Bool
  | .waiting => true
  | .expired => true
  | _ => false

/-- The phase is one of the handlers of the backend. -/
def Phase.isService : Phase → Bool
  | .finding => true
  | .registering => true
  | .waiting => true
  | .expired => true
  | .refinding => true
  | .publishing _ => true
  | .awaitingReply _ => true
  | .sending _ => true
  | .selecting _ => true
  | .releasing _ _ => true
  | _ => false

namespace World

variable {w w' : World} {i j c : ℕ} {call : Call} {phase : Phase} {action : Action} {fate : Fate}

/-! ### Tasks and channels before and after a step -/

/-- Task `i` goes to a phase; the arrival receivers of some tasks see a signal. What the reply
receivers see may change. -/
structure Goes (tasks tasks' : ℕ → Task) (i : ℕ) (phase : Phase) (waiters : List ℕ)
    (signal : Signal Unit) : Prop where
  phase : ∀ j, (tasks' j).phase = if j = i then phase else (tasks j).phase
  call : ∀ j, (tasks' j).call = (tasks j).call
  arrival : ∀ j, (tasks' j).arrival = if j ∈ waiters then signal else (tasks j).arrival

/-- The channels keep their keys, and their flags but for one that is set. The frames may change,
and a stream may start on one of `starts`. -/
structure Keeps (heap heap' : ℕ → ClientChannel) (flagged : Option ℕ) (starts : List ℕ) :
    Prop where
  key : ∀ c, (heap' c).key = (heap c).key
  closed : ∀ c, (heap' c).closed = ((heap c).closed || flagged == some c)
  streaming : ∀ c, (heap' c).receiver = .streaming →
    (heap c).receiver = .streaming ∨ c ∈ starts

/-- The table of one channel changes. -/
def Tables (heap heap' : ℕ → ClientChannel) (c : ℕ) (table : Finmap fun _ : UInt64 => ℕ) : Prop :=
  ∀ c', (heap' c').pendingReplies = if c' = c then table else (heap c').pendingReplies

/-- No table changes. -/
def SameTables (heap heap' : ℕ → ClientChannel) : Prop :=
  ∀ c, (heap' c).pendingReplies = (heap c).pendingReplies

/-- A task stands where the step took it, or where it stood. -/
theorem Goes.cases (h : Goes tasks tasks' i phase waiters signal) (j : ℕ) :
    j = i ∧ (tasks' j).phase = phase ∨ j ≠ i ∧ (tasks' j).phase = (tasks j).phase := by
  by_cases hj : j = i
  · exact .inl ⟨hj, (h.phase j).trans (if_pos hj)⟩
  · exact .inr ⟨hj, (h.phase j).trans (if_neg hj)⟩

theorem goes_setPhase (w : World) (i : ℕ) (phase : Phase) :
    Goes w.tasks (w.setPhase i phase).tasks i phase [] .waiting := by
  refine ⟨fun j => ?_, fun j => ?_, fun j => ?_⟩
  all_goals
    by_cases h : j = i
    · subst h
      simp [setPhase]
    · simp [setPhase, h]

theorem Goes.of_same {tasks₁ : ℕ → Task} (hphase : ∀ j, (tasks₁ j).phase = (tasks j).phase)
    (hcall : ∀ j, (tasks₁ j).call = (tasks j).call)
    (harrival : ∀ j, (tasks₁ j).arrival = if j ∈ waiters then signal else (tasks j).arrival)
    (h : Goes tasks₁ tasks' i phase [] .waiting) : Goes tasks tasks' i phase waiters signal where
  phase j := by rw [h.phase, hphase]
  call j := by rw [h.call, hcall]
  arrival j := by rw [h.arrival, if_neg (List.not_mem_nil), harrival]

theorem goes_answer (w : World) (p : ℕ → Bool) (reply : Signal ReplyEnvelope) (i : ℕ)
    (phase : Phase) :
    Goes w.tasks ((w.answer p reply).setPhase i phase).tasks i phase [] .waiting := by
  refine Goes.of_same ?_ ?_ ?_ (goes_setPhase _ i phase)
  all_goals
    intro j
    unfold answer
    dsimp only
    split_ifs <;> first | rfl | contradiction

theorem goes_arrive (w : World) (waiters : List ℕ) (signal : Signal Unit) (i : ℕ)
    (phase : Phase) :
    Goes w.tasks ((w.arrive waiters signal).setPhase i phase).tasks i phase waiters signal := by
  refine Goes.of_same ?_ ?_ ?_ (goes_setPhase _ i phase)
  all_goals
    intro j
    unfold arrive
    dsimp only
    split_ifs <;> rfl

theorem keeps_refl (heap : ℕ → ClientChannel) (starts : List ℕ) : Keeps heap heap none starts :=
  ⟨fun _ => rfl, fun _ => (Bool.or_false _).symm, fun _ => .inl⟩

theorem Keeps.trans {heap heap₁ heap₂ : ℕ → ClientChannel} (h : Keeps heap heap₁ none [])
    (h' : Keeps heap₁ heap₂ none starts) :
    Keeps heap heap₂ none starts where
  key c := (h'.key c).trans (h.key c)
  closed c := (h'.closed c).trans ((Bool.or_false _).trans (h.closed c))
  streaming c hs := (h'.streaming c hs).imp_left fun hs =>
    (h.streaming c hs).resolve_right List.not_mem_nil

theorem heap_modifyChannel (w : World) (c : ℕ) (f : ClientChannel → ClientChannel) (c' : ℕ) :
    (w.modifyChannel c f).heap c' = if c' = c then f (w.heap c') else w.heap c' := by
  by_cases h : c' = c
  · subst h
    rw [if_pos rfl]
    exact Function.update_self ..
  · rw [if_neg h]
    exact Function.update_of_ne h ..

theorem keeps_modifyChannel (hkey : (f (w.heap c)).key = (w.heap c).key)
    (hclosed : (f (w.heap c)).closed = (w.heap c).closed)
    (hstreaming : (f (w.heap c)).receiver = .streaming →
      (w.heap c).receiver = .streaming ∨ c ∈ starts) :
    Keeps w.heap (w.modifyChannel c f).heap none starts := by
  refine ⟨fun c' => ?_, fun c' => ?_, fun c' hs => ?_⟩
  · rw [heap_modifyChannel]
    split_ifs with h
    · rw [h, hkey]
    · rfl
  · rw [heap_modifyChannel]
    split_ifs with h
    · rw [h, hclosed]
      exact (Bool.or_false _).symm
    · exact (Bool.or_false _).symm
  · rw [heap_modifyChannel] at hs
    split_ifs at hs with h
    · rw [h] at hs ⊢
      exact hstreaming hs
    · exact .inl hs

theorem keeps_flag (hkey : (f (w.heap c)).key = (w.heap c).key)
    (hclosed : (f (w.heap c)).closed = true)
    (hreceiver : (f (w.heap c)).receiver = (w.heap c).receiver) :
    Keeps w.heap (w.modifyChannel c f).heap (some c) [] := by
  refine ⟨fun c' => ?_, fun c' => ?_, fun c' hs => ?_⟩
  · rw [heap_modifyChannel]
    split_ifs with h
    · rw [h, hkey]
    · rfl
  · rw [heap_modifyChannel]
    split_ifs with h
    · rw [h, hclosed]
      simp
    · simp [Ne.symm h]
  · rw [heap_modifyChannel] at hs
    split_ifs at hs with h
    · rw [h] at hs ⊢
      exact .inl (hreceiver ▸ hs)
    · exact .inl hs

theorem tables_modifyChannel {table : Finmap fun _ : UInt64 => ℕ}
    (h : (f (w.heap c)).pendingReplies = table) :
    Tables w.heap (w.modifyChannel c f).heap c table := by
  intro c'
  rw [heap_modifyChannel]
  split_ifs with hc
  · rw [hc, h]
  · rfl

theorem sameTables_modifyChannel (h : (f (w.heap c)).pendingReplies = (w.heap c).pendingReplies) :
    SameTables w.heap (w.modifyChannel c f).heap := by
  intro c'
  rw [heap_modifyChannel]
  split_ifs with hc
  · rw [hc, h]
  · rfl

/-- A table changes, and what the reply receivers see. -/
theorem keeps_answer (w : World) (c : ℕ) (p : ℕ → Bool) (reply : Signal ReplyEnvelope)
    (table : Finmap (fun _ : UInt64 => ℕ) → Finmap fun _ : UInt64 => ℕ) :
    Keeps w.heap ((w.answer p reply).modifyChannel c fun channel =>
      { channel with pendingReplies := table channel.pendingReplies }).heap none [] := by
  show Keeps w.heap (w.modifyChannel c fun channel =>
    { channel with pendingReplies := table channel.pendingReplies }).heap none []
  exact keeps_modifyChannel rfl rfl .inl

theorem tables_answer (w : World) (c : ℕ) (p : ℕ → Bool) (reply : Signal ReplyEnvelope)
    (table : Finmap (fun _ : UInt64 => ℕ) → Finmap fun _ : UInt64 => ℕ) :
    Tables w.heap ((w.answer p reply).modifyChannel c fun channel =>
      { channel with pendingReplies := table channel.pendingReplies }).heap c
      (table (w.heap c).pendingReplies) := by
  show Tables w.heap (w.modifyChannel c fun channel =>
    { channel with pendingReplies := table channel.pendingReplies }).heap c _
  exact tables_modifyChannel rfl

theorem keeps_addReply (w : World) (c : ℕ) (id : UInt64) (i : ℕ) :
    Keeps w.heap (w.addReply c id i).heap none [] := by
  have hfirst : Keeps w.heap (w.removeReply c id .dropped).heap none [] :=
    keeps_answer w c _ _ fun table => table.erase id
  have hsecond : Keeps (w.removeReply c id .dropped).heap (w.addReply c id i).heap none [] :=
    keeps_modifyChannel rfl rfl .inl
  exact hfirst.trans hsecond

theorem tables_addReply (w : World) (c : ℕ) (id : UInt64) (i : ℕ) :
    Tables w.heap (w.addReply c id i).heap c
      (((w.heap c).pendingReplies.erase id).insert id i) := by
  intro c'
  unfold addReply
  rw [heap_modifyChannel]
  unfold removeReply
  rw [heap_modifyChannel]
  split_ifs with hc
  · rw [hc]
    rfl
  · rfl

/-! ### The steps -/

/-- Where `open_channel` goes on once the new channel is installed under `key`. -/
def afterOpen (w : World) (key : String) : Phase :=
  match w.find key with
  | some previous => .evicting w.allocated previous (w.registry.waiters key)
  | none => .waking w.allocated (w.registry.waiters key)

theorem taken_afterOpen (w : World) (key : String) :
    (w.afterOpen key).taken = w.registry.waiters key := by
  unfold afterOpen
  cases w.find key <;> rfl

theorem isFresh_afterOpen (w : World) (key : String) : (w.afterOpen key).isFresh = false := by
  unfold afterOpen
  cases w.find key <;> rfl

theorem repliesOn_afterOpen (w : World) (key : String) : (w.afterOpen key).repliesOn = none := by
  unfold afterOpen
  cases w.find key <;> rfl

theorem mem_channels_afterOpen {key : String} (h : c ∈ (w.afterOpen key).channels) :
    c = w.allocated ∨ w.find key = some c := by
  unfold afterOpen at h
  cases hfind : w.find key with
  | none =>
    rw [hfind] at h
    exact .inl (List.mem_singleton.mp h)
  | some previous =>
    rw [hfind] at h
    rcases List.mem_cons.mp h with rfl | h
    · exact .inl rfl
    · rw [List.mem_singleton.mp h]
      exact .inr rfl

/-- A task goes from one await to the next, without a trace in the registry or in a table. -/
structure Moves (w : World) (i : ℕ) (phase : Phase) : Prop where
  notOver : (w.tasks i).phase.isOver = false
  taken : (w.tasks i).phase.taken = []
  taken' : phase.taken = []
  unflagged : (w.tasks i).phase.unflagged = none
  unflagged' : phase.unflagged = none
  repliesOn : phase.repliesOn = (w.tasks i).phase.repliesOn
  notWaiting : phase ≠ .waiting
  fresh : phase.isFresh = true → (w.tasks i).phase.isFresh = true
  /-- It stops waiting for an arrival when it is woken. -/
  woken : (w.tasks i).phase.awaits = true → phase.awaits = false →
    (w.tasks i).arrival ≠ .waiting
  service : phase.isService = true → (w.tasks i).phase.isService = true
  channels : ∀ c ∈ phase.channels,
    c ∈ (w.tasks i).phase.channels ∨ ∃ key, w.find key = some c

/-- What a step can do. -/
inductive Steps (w : World) : Action → World → Prop
  /-- A task starts; with the drop of a stream it closes the channel. -/
  | spawned {action : Action} {call : Call} {heap' : ℕ → ClientChannel}
      (haction : ∀ i, action ≠ .cancel i) (hheap : Keeps w.heap heap' none [])
      (htables : SameTables w.heap heap')
      (hclose : ∀ c, call = .close c → c < w.allocated ∨ (w.heap c).receiver = .streaming) :
      Steps w action ({ w with heap := heap' }.spawn call)
  /-- A stream yields a frame. -/
  | polled {c : ℕ} {heap' : ℕ → ClientChannel} (hheap : Keeps w.heap heap' none [])
      (htables : SameTables w.heap heap') : Steps w (.poll c) { w with heap := heap' }
  | cancelled {i : ℕ} {heap' : ℕ → ClientChannel} {tasks' : ℕ → Task}
      (hawait : (w.tasks i).phase.atAwait = true) (hheap : Keeps w.heap heap' none [])
      (htables : SameTables w.heap heap')
      (htasks : Goes w.tasks tasks' i .gone (w.tasks i).phase.taken .dropped) :
      Steps w (.cancel i) { w with heap := heap', tasks := tasks' }
  | moved {i : ℕ} {fate : Fate} {phase : Phase} {heap' : ℕ → ClientChannel}
      {tasks' : ℕ → Task} (hheap : Keeps w.heap heap' none (w.tasks i).phase.channels)
      (htables : SameTables w.heap heap') (htasks : Goes w.tasks tasks' i phase [] .waiting)
      (hmoves : w.Moves i phase) :
      Steps w (.run i fate) { w with heap := heap', tasks := tasks' }
  -- `open_channel`
  | opened {i : ℕ} {fate : Fate} {tasks' : ℕ → Task} (hphase : (w.tasks i).phase = .opening)
      (htasks : Goes w.tasks tasks' i (w.afterOpen (w.tasks i).call.key) [] .waiting) :
      Steps w (.run i fate) { w with
        registry := w.registry.install (w.tasks i).call.key w.allocated
        heap := Function.update w.heap w.allocated (.new (w.tasks i).call.key)
        allocated := w.allocated + 1
        tasks := tasks'
        log := .opened i (w.tasks i).call.key w.allocated (w.find (w.tasks i).call.key) :: w.log }
  | evicted {i c previous : ℕ} {fate : Fate} {waiters : List ℕ} {heap' : ℕ → ClientChannel}
      {tasks' : ℕ → Task} (hphase : (w.tasks i).phase = .evicting c previous waiters)
      (hheap : Keeps w.heap heap' (some previous) []) (htables : SameTables w.heap heap')
      (htasks : Goes w.tasks tasks' i (.failingPrevious c previous waiters) [] .waiting) :
      Steps w (.run i fate) { w with heap := heap', tasks := tasks' }
  | failedPrevious {i c previous : ℕ} {fate : Fate} {waiters : List ℕ}
      {heap' : ℕ → ClientChannel} {tasks' : ℕ → Task}
      (hphase : (w.tasks i).phase = .failingPrevious c previous waiters)
      (hheap : Keeps w.heap heap' none []) (htables : Tables w.heap heap' previous ∅)
      (htasks : Goes w.tasks tasks' i (.waking c waiters) [] .waiting) :
      Steps w (.run i fate) { w with heap := heap', tasks := tasks' }
  | woke {i c : ℕ} {fate : Fate} {waiters : List ℕ} {tasks' : ℕ → Task}
      (hphase : (w.tasks i).phase = .waking c waiters)
      (htasks : Goes w.tasks tasks' i (.handshake c) waiters (.sent ())) :
      Steps w (.run i fate) { w with tasks := tasks' }
  -- `close_channel`
  | closed {i c : ℕ} {fate : Fate} {tasks' : ℕ → Task}
      (hphase : (w.tasks i).phase = .closing c)
      (htasks : Goes w.tasks tasks' i (.flagging c) [] .waiting) :
      Steps w (.run i fate) { w with
        registry := w.registry.remove (w.heap c).key c
        tasks := tasks'
        log := .closed i c :: w.log }
  | flagged {i c : ℕ} {fate : Fate} {heap' : ℕ → ClientChannel} {tasks' : ℕ → Task}
      (hphase : (w.tasks i).phase = .flagging c) (hheap : Keeps w.heap heap' (some c) [])
      (htables : SameTables w.heap heap')
      (htasks : Goes w.tasks tasks' i (.failing c) [] .waiting) :
      Steps w (.run i fate) { w with heap := heap', tasks := tasks' }
  | failed {i c : ℕ} {fate : Fate} {response : Response} {heap' : ℕ → ClientChannel}
      {tasks' : ℕ → Task} (hphase : (w.tasks i).phase = .failing c)
      (hheap : Keeps w.heap heap' none []) (htables : Tables w.heap heap' c ∅)
      (htasks : Goes w.tasks tasks' i (.done response) [] .waiting) :
      Steps w (.run i fate) { w with heap := heap', tasks := tasks' }
  -- `await_channel`
  | registered {i : ℕ} {fate : Fate} {tasks' : ℕ → Task}
      (hphase : (w.tasks i).phase = .registering) (hfind : w.find (w.tasks i).call.key = none)
      (htasks : Goes w.tasks tasks' i .waiting [] .waiting) :
      Steps w (.run i fate) { w with
        registry := w.registry.addWaiter (w.tasks i).call.key i
        tasks := tasks'
        log := .registered i (w.tasks i).call.key :: w.log }
  | expired {i : ℕ} {fate : Fate} {tasks' : ℕ → Task}
      (hphase : (w.tasks i).phase = .expired)
      (htasks : Goes w.tasks tasks' i .refinding [] .waiting) :
      Steps w (.run i fate) { w with
        registry := w.registry.dropArrivalWaiters (w.tasks i).call.key w.arrivalClosed
        tasks := tasks' }
  -- the table of pending replies
  | replyAdded {i c : ℕ} {fate : Fate} {heap' : ℕ → ClientChannel} {tasks' : ℕ → Task}
      (hphase : (w.tasks i).phase = .awaitingReply c) (hheap : Keeps w.heap heap' none [])
      (htables : Tables w.heap heap' c
        (((w.heap c).pendingReplies.erase (w.tasks i).call.id).insert (w.tasks i).call.id i))
      (htasks : Goes w.tasks tasks' i (.sending c) [] .waiting) :
      Steps w (.run i fate) { w with heap := heap', tasks := tasks' }
  | released {i c : ℕ} {fate : Fate} {response : Response} {heap' : ℕ → ClientChannel}
      {tasks' : ℕ → Task} (hphase : (w.tasks i).phase = .releasing c response)
      (hheap : Keeps w.heap heap' none [])
      (htables : Tables w.heap heap' c ((w.heap c).pendingReplies.erase (w.tasks i).call.id))
      (htasks : Goes w.tasks tasks' i (.done response) [] .waiting) :
      Steps w (.run i fate) { w with heap := heap', tasks := tasks' }
  | delivered {i c : ℕ} {fate : Fate} {key : String} {id : UInt64} {envelope : ReplyEnvelope}
      {response : Response} {heap' : ℕ → ClientChannel} {tasks' : ℕ → Task}
      (hphase : (w.tasks i).phase = .delivering c)
      (hcall : (w.tasks i).call = .inbound key id envelope)
      (hreply : ∀ t, (w.heap c).pendingReplies.lookup id = some t →
        (tasks' t).reply = .sent envelope)
      (hheap : Keeps w.heap heap' none [])
      (htables : Tables w.heap heap' c ((w.heap c).pendingReplies.erase id))
      (htasks : Goes w.tasks tasks' i (.done response) [] .waiting) :
      Steps w (.run i fate) { w with heap := heap', tasks := tasks' }

/-! ### Moves -/

theorem found_spec (call : Call) (o : Option ℕ) :
    (found call o).taken = [] ∧ (found call o).unflagged = none ∧
      (found call o).repliesOn = none ∧ (found call o).isFresh = false ∧
      (found call o).awaits = false ∧ ∀ c ∈ (found call o).channels, o = some c := by
  cases call <;> cases o <;> simp [found, Phase.taken, Phase.unflagged, Phase.repliesOn,
    Phase.isFresh, Phase.awaits, Phase.channels]

theorem moves_found {o : Option ℕ} (hphase : (w.tasks i).phase = .finding ∨
      (w.tasks i).phase = .registering ∨ (w.tasks i).phase = .refinding)
    (ho : ∀ c, o = some c → ∃ key, w.find key = some c) : w.Moves i (found call o) := by
  obtain ⟨htaken, hunflagged, hreplies, hfresh, hawaits, hchannels⟩ := found_spec call o
  have hnot : found call o ≠ .waiting := fun h => by
    rw [h] at hawaits
    cases hawaits
  rcases hphase with h | h | h <;>
    exact ⟨by rw [h]; rfl, by rw [h]; rfl, htaken, by rw [h]; rfl, hunflagged,
      by rw [h, hreplies]; rfl, hnot, by rw [hfresh]; nofun,
      by rw [h]; nofun, fun _ => by rw [h]; rfl, fun c hc => .inr (ho c (hchannels c hc))⟩

/-- The transitions that need nothing but their phase. -/
inductive Next : Phase → Phase → Prop
  | started {c : ℕ} : Next (.handshake c) (.done .stream)
  | refused {c : ℕ} : Next (.handshake c) (.closing c)
  | registers : Next .finding .registering
  | expires : Next .waiting .expired
  | published {c : ℕ} {response : Response} : Next (.publishing c) (.done response)
  | sent {c : ℕ} : Next (.sending c) (.selecting c)
  | unsent {c : ℕ} {response : Response} : Next (.sending c) (.releasing c response)
  | selected {c : ℕ} {response : Response} : Next (.selecting c) (.releasing c response)
  | unknown {response : Response} : Next .replying (.done response)
  | undelivered {c : ℕ} {response : Response} : Next (.delivering c) (.done response)

theorem moves_of_next {from_ : Phase} (hphase : (w.tasks i).phase = from_)
    (h : Next from_ phase) : w.Moves i phase := by
  cases h <;> constructor <;> simp [hphase, Phase.isOver, Phase.taken, Phase.unflagged,
    Phase.repliesOn, Phase.isFresh, Phase.awaits, Phase.isService, Phase.channels]

theorem moves_woken (hphase : (w.tasks i).phase = .waiting)
    (harrival : (w.tasks i).arrival ≠ .waiting) : w.Moves i .refinding := by
  constructor <;> simp [hphase, harrival, Phase.isOver, Phase.taken, Phase.unflagged,
    Phase.repliesOn, Phase.isFresh, Phase.awaits, Phase.isService, Phase.channels]

theorem moves_delivering {key : String} (hphase : (w.tasks i).phase = .replying)
    (hfind : w.find key = some c) : w.Moves i (.delivering c) := by
  constructor <;> simp [hphase, Phase.isOver, Phase.taken, Phase.unflagged, Phase.repliesOn,
    Phase.isFresh, Phase.awaits, Phase.isService, Phase.channels]
  exact ⟨key, hfind⟩

theorem sendFrame_spec {r : Except SendFrameError World} (h : w.sendFrame c frame fate = some r) :
    r = .ok (w.modifyChannel c (·.push frame)) ∨ ∃ e, r = .error e := by
  cases fate with
  | go =>
    unfold sendFrame at h
    split_ifs at h with hdropped hroom
    · exact .inr ⟨_, (Option.some.inj h).symm⟩
    · exact .inl (Option.some.inj h).symm
  | closed => cases h
  | expire => exact .inr ⟨_, (Option.some.inj h).symm⟩

theorem steps_setPhase (hmoves : w.Moves i phase) : Steps w (.run i fate) (w.setPhase i phase) :=
  .moved (keeps_refl w.heap _) (fun _ => rfl)
    (goes_setPhase w i phase) hmoves

theorem steps_push (hmoves : w.Moves i phase) :
    Steps w (.run i fate) ((w.modifyChannel c (·.push frame)).setPhase i phase) :=
  .moved (keeps_modifyChannel rfl rfl .inl) (sameTables_modifyChannel rfl)
    (goes_setPhase w i phase) hmoves

theorem steps_evicted {previous : ℕ} (hphase : (w.tasks i).phase = .evicting c previous waiters)
    (payload : String) :
    Steps w (.run i fate) ((w.modifyChannel previous fun channel =>
      (channel.trySendPayload payload).close).setPhase i
        (.failingPrevious c previous waiters)) := by
  have hsend : ∀ channel : ClientChannel,
      (channel.trySendPayload payload).key = channel.key ∧
      (channel.trySendPayload payload).receiver = channel.receiver ∧
      (channel.trySendPayload payload).pendingReplies = channel.pendingReplies := by
    intro channel
    unfold ClientChannel.trySendPayload
    split_ifs <;> exact ⟨rfl, rfl, rfl⟩
  obtain ⟨hkey, hreceiver, htable⟩ := hsend (w.heap previous)
  exact .evicted hphase (keeps_flag hkey rfl hreceiver) (sameTables_modifyChannel htable)
    (goes_setPhase w i _)

/-- The handshake is queued and the stream starts. -/
theorem steps_started (hphase : (w.tasks i).phase = .handshake c) (frame : String) :
    Steps w (.run i fate) (((w.modifyChannel c (·.push frame)).setReceiver c
      .streaming).setPhase i (.done .stream)) := by
  have hpush : Keeps w.heap (w.modifyChannel c (·.push frame)).heap none [] :=
    keeps_modifyChannel rfl rfl .inl
  have hstart : Keeps (w.modifyChannel c (·.push frame)).heap
      ((w.modifyChannel c (·.push frame)).setReceiver c .streaming).heap none [c] :=
    keeps_modifyChannel rfl rfl fun _ => .inr List.mem_cons_self
  have htables : SameTables (w.modifyChannel c (·.push frame)).heap
      ((w.modifyChannel c (·.push frame)).setReceiver c .streaming).heap :=
    sameTables_modifyChannel rfl
  refine .moved ?_ (fun c' => (htables c').trans (sameTables_modifyChannel rfl c'))
    (goes_setPhase w i _) (moves_of_next hphase .started)
  rw [hphase]
  exact hpush.trans hstart

theorem steps_failed (hphase : (w.tasks i).phase = .failing c) (reason : String) (call : Call) :
    Steps w (.run i fate) ((w.failAll c reason).closed i c call) := by
  have hkeeps := keeps_answer w c
    (fun i => (w.heap c).pendingReplies.any fun _ waiter => waiter = i)
    (.sent ⟨"error", "\x7b\"Message\":\"" ++ reason ++ "\"\x7d"⟩) fun _ => ∅
  have htables := tables_answer w c
    (fun i => (w.heap c).pendingReplies.any fun _ waiter => waiter = i)
    (.sent ⟨"error", "\x7b\"Message\":\"" ++ reason ++ "\"\x7d"⟩) fun _ => ∅
  cases call with
  | stream =>
    -- the receiver goes with the handler
    have hdrop : Keeps (w.failAll c reason).heap
        ((w.failAll c reason).setReceiver c .dropped).heap none [] :=
      keeps_modifyChannel rfl rfl nofun
    have hsame : SameTables (w.failAll c reason).heap
        ((w.failAll c reason).setReceiver c .dropped).heap := sameTables_modifyChannel rfl
    exact .failed hphase (hkeeps.trans hdrop) (fun c' => (hsame c').trans (htables c'))
      (goes_answer w _ _ i _)
  | close | publish | rpc | inbound => exact .failed hphase hkeeps htables (goes_answer w _ _ i _)

theorem advance_spec (h : w.advance i (w.tasks i).call fate (w.tasks i).phase = some w') :
    Steps w (.run i fate) w' := by
  cases hphase : (w.tasks i).phase with
  | opening =>
    rw [hphase] at h
    cases h
    unfold openChannel
    split
    next previous hfind =>
      refine .opened hphase ?_
      rw [afterOpen, hfind]
      exact goes_setPhase w i _
    next hfind =>
      refine .opened hphase ?_
      rw [afterOpen, hfind]
      exact goes_setPhase w i _
  | evicting =>
    rw [hphase] at h
    cases h
    exact steps_evicted hphase _
  | failingPrevious c previous =>
    rw [hphase] at h
    cases h
    exact .failedPrevious hphase (keeps_answer w previous _ _ fun _ => ∅)
      (tables_answer w previous _ _ fun _ => ∅) (goes_answer w _ _ i _)
  | waking c waiters =>
    rw [hphase] at h
    cases h
    exact .woke hphase (goes_arrive w waiters (.sent ()) i _)
  | handshake =>
    rw [hphase] at h
    obtain ⟨r, hr, rfl⟩ := Option.map_eq_some_iff.mp h
    rcases sendFrame_spec hr with rfl | ⟨e, rfl⟩
    · exact steps_started hphase _
    · exact steps_setPhase (moves_of_next hphase .refused)
  | closing =>
    rw [hphase] at h
    cases h
    exact .closed hphase (goes_setPhase w i _)
  | flagging =>
    rw [hphase] at h
    cases h
    exact .flagged hphase (keeps_flag rfl rfl rfl) (sameTables_modifyChannel rfl)
      (goes_setPhase w i _)
  | failing =>
    rw [hphase] at h
    cases h
    exact steps_failed hphase _ _
  | finding =>
    rw [hphase] at h
    dsimp only [advance] at h
    split at h
    next c hfind =>
      cases h
      exact steps_setPhase (moves_found (.inl hphase) fun c' hc' => ⟨_, hfind.trans hc'⟩)
    next hfind =>
      split_ifs at h
      · cases h
        exact steps_setPhase (moves_found (.inl hphase) nofun)
      · cases h
        exact steps_setPhase (moves_of_next hphase .registers)
  | registering =>
    rw [hphase] at h
    dsimp only [advance] at h
    split at h
    next c hfind =>
      cases h
      exact steps_setPhase (moves_found (.inr (.inl hphase)) fun c' hc' => ⟨_, hfind.trans hc'⟩)
    next hfind =>
      cases h
      exact .registered hphase hfind (goes_setPhase w i _)
  | waiting =>
    rw [hphase] at h
    dsimp only [advance] at h
    split at h
    next harrival =>
      cases h
      exact steps_setPhase (moves_woken hphase (by rw [harrival]; nofun))
    next =>
      cases h
      exact steps_setPhase (moves_of_next hphase .expires)
    next =>
      cases h
      exact steps_setPhase (moves_of_next hphase .expires)
    next => cases h
  | expired =>
    rw [hphase] at h
    cases h
    exact .expired hphase (goes_setPhase w i _)
  | refinding =>
    rw [hphase] at h
    cases h
    exact steps_setPhase (moves_found (.inr (.inr hphase)) fun c' hc' => ⟨_, hc'⟩)
  | publishing =>
    rw [hphase] at h
    obtain ⟨r, hr, rfl⟩ := Option.map_eq_some_iff.mp h
    rcases sendFrame_spec hr with rfl | ⟨e, rfl⟩
    · exact steps_push (moves_of_next hphase .published)
    · exact steps_setPhase (moves_of_next hphase .published)
  | awaitingReply c =>
    rw [hphase] at h
    cases h
    exact .replyAdded hphase (keeps_addReply w c _ i) (tables_addReply w c _ i)
      (goes_answer w _ _ i _)
  | sending =>
    rw [hphase] at h
    obtain ⟨r, hr, rfl⟩ := Option.map_eq_some_iff.mp h
    rcases sendFrame_spec hr with rfl | ⟨e, rfl⟩
    · exact steps_push (moves_of_next hphase .sent)
    · exact steps_setPhase (moves_of_next hphase .unsent)
  | selecting c =>
    have hmoves : ∀ response, w.Moves i (.releasing c response) :=
      fun _ => moves_of_next hphase .selected
    rw [hphase] at h
    dsimp only [advance] at h
    split at h
    next =>
      cases h
      exact steps_setPhase (hmoves _)
    next =>
      cases h
      exact steps_setPhase (hmoves _)
    next => cases h
    next =>
      obtain ⟨-, h⟩ := Option.ite_none_right_eq_some.mp h
      cases h
      exact steps_setPhase (hmoves _)
    next =>
      cases h
      exact steps_setPhase (hmoves _)
  | releasing c =>
    rw [hphase] at h
    cases h
    exact .released hphase (keeps_answer w c _ _ fun table => table.erase _)
      (tables_answer w c _ _ fun table => table.erase _) (goes_answer w _ _ i _)
  | replying =>
    rw [hphase] at h
    dsimp only [advance] at h
    split at h
    next c hfind =>
      cases h
      exact steps_setPhase (moves_delivering hphase hfind)
    next hfind =>
      cases h
      exact steps_setPhase (moves_of_next hphase .unknown)
  | delivering c =>
    rw [hphase] at h
    dsimp only [advance] at h
    split at h
    next key id envelope waiter hcall hwaiter =>
      cases h
      refine .delivered hphase hcall (fun t ht => ?_)
        (keeps_answer w c _ _ fun table => table.erase id)
        (tables_answer w c _ _ fun table => table.erase id) (goes_answer w _ _ i _)
      by_cases hti : t = i
      · subst hti
        simp [removeReply, modifyChannel, answer, ht]
      · simp [removeReply, modifyChannel, answer, ht, hti]
    next =>
      cases h
      exact steps_setPhase (moves_of_next hphase .undelivered)
  | done | gone =>
    rw [hphase] at h
    cases h

theorem keeps_dropReceiver (w : World) (call : Call) (phase : Phase) :
    Keeps w.heap (w.dropReceiver call phase).heap none [] ∧
      SameTables w.heap (w.dropReceiver call phase).heap ∧
      (w.dropReceiver call phase).tasks = w.tasks ∧
      w.dropReceiver call phase = { w with heap := (w.dropReceiver call phase).heap } := by
  unfold dropReceiver
  split
  all_goals
    first
    | exact ⟨keeps_modifyChannel rfl rfl nofun, sameTables_modifyChannel rfl, rfl, rfl⟩
    | exact ⟨keeps_refl w.heap [], fun _ => rfl, rfl, rfl⟩

theorem cancel_spec (h : w.cancel i = some w') : Steps w (.cancel i) w' := by
  have hdrop : ∀ call, (w.tasks i).phase.atAwait = true →
      Steps w (.cancel i) (((w.arrive (w.tasks i).phase.taken .dropped).dropReceiver call
        (w.tasks i).phase).setPhase i .gone) := by
    intro call hawait
    obtain ⟨hkeeps, htables, htasks, heq⟩ := keeps_dropReceiver
      (w.arrive (w.tasks i).phase.taken .dropped) call (w.tasks i).phase
    rw [heq]
    exact .cancelled hawait hkeeps htables (goes_arrive w _ .dropped i .gone)
  unfold cancel at h
  split at h
  next => cases h
  next =>
    obtain ⟨hawait, h⟩ := Option.ite_none_right_eq_some.mp h
    cases h
    exact hdrop _ hawait

theorem steps_spawn (hclose : ∀ c, call = .close c → c < w.allocated) :
    Steps w (.spawn call) (w.spawn call) :=
  .spawned nofun (keeps_refl w.heap []) (fun _ => rfl) fun c hc => .inl (hclose c hc)

/-- **Every step of the bridge.** -/
theorem step_spec (h : w.step action = some w') : Steps w action w' := by
  cases action with
  | spawn call =>
    cases call with
    | close =>
      obtain ⟨hc, h⟩ := Option.ite_none_right_eq_some.mp h
      cases h
      refine steps_spawn fun c' hc' => ?_
      injection hc' with hc'
      exact hc' ▸ hc
    | stream | publish | rpc | inbound =>
      cases h
      exact steps_spawn nofun
  | run => exact advance_spec h
  | cancel => exact cancel_spec h
  | poll c =>
    obtain ⟨-, h⟩ := Option.ite_none_right_eq_some.mp h
    cases h
    have hkeeps : Keeps w.heap (w.modifyChannel c fun channel =>
        { channel with frames := channel.frames.tail }).heap none [] :=
      keeps_modifyChannel rfl rfl .inl
    have htables : SameTables w.heap (w.modifyChannel c fun channel =>
        { channel with frames := channel.frames.tail }).heap := sameTables_modifyChannel rfl
    exact .polled hkeeps htables
  | hangUp c =>
    obtain ⟨hstreaming, h⟩ := Option.ite_none_right_eq_some.mp h
    cases h
    have hkeeps : Keeps w.heap (w.setReceiver c .dropped).heap none [] :=
      keeps_modifyChannel rfl rfl nofun
    have htables : SameTables w.heap (w.setReceiver c .dropped).heap :=
      sameTables_modifyChannel rfl
    refine .spawned nofun hkeeps htables fun c' hc' => .inr ?_
    injection hc' with hc'
    exact hc' ▸ hstreaming

end World

end Fareward.Bridge
