import Fareward.Bridge.Equiv.Replies

/-!
# Waiters that are left behind

A handler takes its waiters out by code that follows an await. If the future of the handler is
dropped at that await, because the caller hung up, the code does not run: the entry stays in the
table of its channel, or the sender in the list of its key (`dropped_call_leaks`).

Where no future is dropped while its waiter is registered, every entry and every sender in a list
belongs to a handler in flight (`Answerable`, `Arrivals`).
-/

namespace Fareward.Bridge

variable {from_ : Phase} {log : List Event}

theorem RegistryState.nonempty_dropArrivalWaiters {state : RegistryState} {key : String}
    {isClosed : ℕ → Bool}
    (h : ∀ k ws, state.arrivalWaiters.lookup k = some ws → ws ≠ []) (k : String) (ws : List ℕ)
    (hk : (state.dropArrivalWaiters key isClosed).arrivalWaiters.lookup k = some ws) : ws ≠ [] := by
  unfold dropArrivalWaiters at hk
  split at hk
  next waiters _ =>
    dsimp only at hk
    split_ifs at hk with hempty
    · by_cases hkey : k = key
      · rw [hkey, Finmap.lookup_erase] at hk
        cases hk
      · rw [Finmap.lookup_erase_ne hkey] at hk
        exact h k ws hk
    · rw [lookup_insert_eq] at hk
      split_ifs at hk
      · cases hk
        exact hempty
      · exact h k ws hk
  next => exact h k ws hk

namespace World

variable {w w' : World} {i j c t : ℕ} {id : UInt64} {key : String} {call : Call} {phase : Phase}
  {action : Action} {fate : Fate} {heap' : ℕ → ClientChannel} {tasks' : ℕ → Task}
  {waiters : List ℕ} {signal : Signal Unit}

/-! ### The guard -/

/-- The task whose future is dropped. -/
def Action.dropped : Action → Option ℕ
  | .cancel i => some i
  | _ => none

/-- A future is dropped only while the task has no waiter: none in the list of its key, and no entry
under its id in the table of its channel. -/
def NoWaiterDropped (w : World) (action : Action) : Prop :=
  ∀ i ∈ action.dropped, i ∉ w.registry.waiters (w.tasks i).call.key ∧
    ∀ c ∈ (w.tasks i).phase.repliesOn, w.pending c (w.tasks i).call.id ≠ some i

instance (w : World) (action : Action) : Decidable (w.NoWaiterDropped action) :=
  inferInstanceAs (Decidable (∀ _ ∈ _, _))

/-! ### Entries -/

/-- Every entry is of a call between its registration and its release. -/
def Answerable (w : World) : Prop := ∀ c id t, w.pending c id = some t → w.Replying t c id

theorem Answerable.step (h : w.Answerable) (hok : w.NoWaiterDropped action)
    (ht : TableStep w action w') : w'.Answerable := by
  intro c id t hpending'
  cases ht with
  | same hpending hreplying =>
    rw [hpending] at hpending'
    refine (hreplying t c id).mpr ⟨h c id t hpending', ?_⟩
    rintro rfl
    obtain ⟨hphase, rfl⟩ := h c id t hpending'
    exact (hok t rfl).2 c hphase hpending'
  | failed hphase hpending hreplying | delivered hphase hcall hreply hpending hreplying =>
    rw [hpending] at hpending'
    split_ifs at hpending'
    exact (hreplying t c id).mpr (h c id t hpending')
  | added hphase hpending hreplying =>
    rw [hpending] at hpending'
    split_ifs at hpending' with hc
    · obtain rfl := Option.some.inj hpending'
      exact (hreplying _ c id).mpr (.inr ⟨rfl, hc⟩)
    · exact (hreplying t c id).mpr (.inl (h c id t hpending'))
  | released hphase hpending hreplying =>
    rw [hpending] at hpending'
    split_ifs at hpending' with hc
    refine (hreplying t c id).mpr ⟨h c id t hpending', ?_⟩
    rintro rfl
    -- its own entry is the one that was taken out
    obtain ⟨hreplies, rfl⟩ := h c id t hpending'
    rw [hphase] at hreplies
    exact hc ⟨(Option.some.inj hreplies).symm, rfl⟩

/-! ### Arrival waiters -/

/-- The waiters in the lists are of tasks that wait for an arrival or have just stopped to, and
have not been signalled. Those that a call has taken are in no list. -/
structure Arrivals (w : World) : Prop where
  nonempty : ∀ key ws, w.registry.arrivalWaiters.lookup key = some ws → ws ≠ []
  waiters : ∀ key, ∀ t ∈ w.registry.waiters key, (w.tasks t).phase.awaits = true ∧
    (w.tasks t).arrival = .waiting ∧ (w.tasks t).call.key = key
  taken : ∀ o, ∀ t ∈ (w.tasks o).phase.taken, t < w.spawned ∧
    (w.tasks t).phase.isFresh = false ∧ ∀ key, t ∉ w.registry.waiters key
  fresh : ∀ t, (w.tasks t).phase.isFresh = true → (w.tasks t).arrival = .waiting

theorem arrivals_new : new.Arrivals where
  nonempty key ws h := by cases h
  waiters key t h := by cases h
  taken o t h := by cases h
  fresh t h := by cases h

theorem isFresh_of_awaits (h : phase.awaits = true) : phase.isFresh = false ∧ phase ≠ .gone := by
  cases phase <;> simp_all [Phase.awaits, Phase.isFresh]

theorem Goes.fresh (h : Goes w.tasks tasks' i phase waiters signal)
    (hfresh : phase.isFresh = true → (w.tasks i).phase.isFresh = true) (t : ℕ)
    (ht : (tasks' t).phase.isFresh = true) : (w.tasks t).phase.isFresh = true := by
  rcases h.cases t with ⟨rfl, hphase⟩ | ⟨-, hphase⟩
  · exact hfresh (hphase ▸ ht)
  · exact hphase ▸ ht

theorem Goes.notFresh (h : Goes w.tasks tasks' i phase waiters signal)
    (hfresh : phase.isFresh = true → (w.tasks i).phase.isFresh = true) (t : ℕ)
    (ht : (w.tasks t).phase.isFresh = false) : (tasks' t).phase.isFresh = false := by
  rw [← Bool.not_eq_true] at ht ⊢
  exact fun hf => ht (h.fresh hfresh t hf)

/-- A task goes on and signals only waiters it has taken. -/
theorem Arrivals.goes (h : w.Arrivals) (htasks : Goes w.tasks tasks' i phase waiters signal)
    (hawaits : (w.tasks i).phase.awaits = true →
      phase.awaits = true ∨ ∀ key, i ∉ w.registry.waiters key)
    (hsignal : waiters ⊆ (w.tasks i).phase.taken) (htaken : phase.taken ⊆ (w.tasks i).phase.taken)
    (hfresh : phase.isFresh = true → (w.tasks i).phase.isFresh = true) :
    { w with heap := heap', tasks := tasks' : World }.Arrivals := by
  refine ⟨h.nonempty, fun key t ht => ?_, fun o t ht => ?_, fun t ht => ?_⟩
  · obtain ⟨hold, harrival, hkey⟩ := h.waiters key t ht
    refine ⟨?_, ?_, (congrArg Call.key (htasks.call t)).trans hkey⟩
    · rcases htasks.cases t with ⟨rfl, hphase⟩ | ⟨-, hphase⟩
      · exact hphase ▸ (hawaits hold).resolve_right fun hnot => hnot key ht
      · exact hphase ▸ hold
    · refine (htasks.arrival t).trans ((if_neg fun hmem => ?_).trans harrival)
      exact (h.taken i t (hsignal hmem)).2.2 key ht
  · have hold : t ∈ (w.tasks o).phase.taken := by
      rcases htasks.cases o with ⟨rfl, hphase⟩ | ⟨-, hphase⟩
      · exact htaken (hphase ▸ ht)
      · exact hphase ▸ ht
    obtain ⟨hlt, hnot, hlists⟩ := h.taken o t hold
    exact ⟨hlt, htasks.notFresh hfresh t hnot, hlists⟩
  · have hold := htasks.fresh hfresh t ht
    refine (htasks.arrival t).trans ((if_neg fun hmem => ?_).trans (h.fresh t hold))
    exact Bool.false_ne_true ((h.taken i t (hsignal hmem)).2.1.symm.trans hold)

/-- A task that waits for no arrival goes on. -/
theorem Arrivals.goes_of_phase (h : w.Arrivals) (hphase : (w.tasks i).phase = from_)
    (htasks : Goes w.tasks tasks' i phase waiters signal) (hawaits : from_.awaits = false)
    (hsignal : waiters ⊆ from_.taken) (htaken : phase.taken ⊆ from_.taken)
    (hfresh : phase.isFresh = false) :
    { w with heap := heap', tasks := tasks' : World }.Arrivals := by
  subst hphase
  refine h.goes htasks (fun hold => ?_) hsignal htaken fun hnew => ?_
  · exact absurd (hawaits.symm.trans hold) Bool.false_ne_true
  · exact absurd (hfresh.symm.trans hnew) Bool.false_ne_true

/-- The lists stay, whatever becomes of the channels. -/
theorem Arrivals.relist {registry : RegistryState} (h : w.Arrivals)
    (hlists : registry.arrivalWaiters = w.registry.arrivalWaiters) :
    { w with registry, log : World }.Arrivals := by
  have hwaiters : ∀ key, registry.waiters key = w.registry.waiters key := by
    intro key
    unfold RegistryState.waiters
    rw [hlists]
  refine ⟨fun key ws hk => h.nonempty key ws (hlists ▸ hk), fun key t ht => ?_, fun o t ht => ?_,
    h.fresh⟩
  · exact h.waiters key t (hwaiters key ▸ ht)
  · obtain ⟨hlt, hnot, hlists'⟩ := h.taken o t ht
    exact ⟨hlt, hnot, fun key hk => hlists' key (hwaiters key ▸ hk)⟩

theorem Arrivals.spawn (h : w.Arrivals) (hb : w.Bounded) (call : Call) :
    (w.spawn call).Arrivals := by
  have hold : ∀ t, (w.tasks t).phase ≠ .gone → t ≠ w.spawned :=
    fun t ht heq => ht (hb.unspawned t heq.ge)
  refine ⟨h.nonempty, fun key t ht => ?_, fun o t ht => ?_, fun t ht => ?_⟩
  · obtain ⟨hawaits, harrival, hkey⟩ := h.waiters key t ht
    have hne := hold t (isFresh_of_awaits hawaits).2
    rw [phase_spawn, if_neg hne, arrival_spawn _ _ _ hne, call_spawn _ _ hne]
    exact ⟨hawaits, harrival, hkey⟩
  · rw [phase_spawn] at ht
    split_ifs at ht
    · rw [(start_spec call).1] at ht
      cases ht
    · obtain ⟨hlt, hnot, hlists⟩ := h.taken o t ht
      rw [phase_spawn, if_neg hlt.ne]
      exact ⟨Nat.lt_succ_of_lt hlt, hnot, hlists⟩
  · by_cases hne : t = w.spawned
    · subst hne
      simp [World.spawn]
    · rw [phase_spawn, if_neg hne] at ht
      rw [arrival_spawn _ _ _ hne]
      exact h.fresh t ht

theorem Arrivals.opened (h : w.Arrivals) (hb : w.Bounded) {heap : ℕ → ClientChannel} {allocated : ℕ}
    (hphase : (w.tasks i).phase = .opening)
    (htasks : Goes w.tasks tasks' i (w.afterOpen key) [] .waiting) :
    { w with
      registry := w.registry.install key c
      heap, allocated, tasks := tasks', log : World }.Arrivals := by
  -- the lists of the other keys are as before
  have hlists : ∀ k t, t ∈ (w.registry.install key c).waiters k →
      k ≠ key ∧ t ∈ w.registry.waiters k := by
    intro k t ht
    rw [RegistryState.waiters_install] at ht
    split_ifs at ht with hk
    · cases ht
    · exact ⟨hk, ht⟩
  have hfresh : (w.afterOpen key).isFresh = true → (w.tasks i).phase.isFresh = true :=
    fun hf => absurd ((isFresh_afterOpen w key).symm.trans hf) Bool.false_ne_true
  refine ⟨fun k ws hk => ?_, fun k t ht => ?_, fun o t ht => ?_, fun t ht => ?_⟩
  · have hk : (w.registry.arrivalWaiters.erase key).lookup k = some ws := hk
    by_cases hne : k = key
    · rw [hne, Finmap.lookup_erase] at hk
      cases hk
    · rw [Finmap.lookup_erase_ne hne] at hk
      exact h.nonempty k ws hk
  · obtain ⟨hawaits, harrival, hkey⟩ := h.waiters k t (hlists k t ht).2
    refine ⟨?_, (htasks.arrival t).trans harrival, (congrArg Call.key (htasks.call t)).trans hkey⟩
    rcases htasks.cases t with ⟨rfl, -⟩ | ⟨-, hto⟩
    · rw [hphase] at hawaits
      cases hawaits
    · exact hto ▸ hawaits
  · rcases htasks.cases o with ⟨-, hto⟩ | ⟨-, hto⟩
    · -- those the opening call takes are in no list any more
      have hmem : t ∈ w.registry.waiters key := taken_afterOpen w key ▸ hto ▸ ht
      obtain ⟨hawaits, -, hkey⟩ := h.waiters key t hmem
      obtain ⟨hold, hlive⟩ := isFresh_of_awaits hawaits
      refine ⟨?_, htasks.notFresh hfresh t hold, fun k hk => ?_⟩
      · by_contra hle
        exact hlive (hb.unspawned t (not_lt.mp hle))
      · obtain ⟨hne, hk⟩ := hlists k t hk
        exact hne ((h.waiters k t hk).2.2.symm.trans hkey)
    · obtain ⟨hlt, hold, hfree⟩ := h.taken o t (hto ▸ ht)
      exact ⟨hlt, htasks.notFresh hfresh t hold, fun k hk => hfree k (hlists k t hk).2⟩
  · exact (htasks.arrival t).trans (h.fresh t (htasks.fresh hfresh t ht))

theorem Arrivals.registered (h : w.Arrivals) (hphase : (w.tasks i).phase = .registering)
    (htasks : Goes w.tasks tasks' i .waiting [] .waiting) :
    { w with
      registry := w.registry.addWaiter (w.tasks i).call.key i
      tasks := tasks', log : World }.Arrivals := by
  have hlists : ∀ k t, t ∈ (w.registry.addWaiter (w.tasks i).call.key i).waiters k →
      t ∈ w.registry.waiters k ∨ k = (w.tasks i).call.key ∧ t = i := by
    intro k t ht
    rw [RegistryState.waiters_addWaiter] at ht
    split_ifs at ht with hk
    · rcases List.mem_append.mp ht with ht | ht
      · exact .inl (hk ▸ ht)
      · exact .inr ⟨hk, List.mem_singleton.mp ht⟩
    · exact .inl ht
  refine ⟨fun k ws hk => ?_, fun k t ht => ?_, fun o t ht => ?_, fun t ht => ?_⟩
  · have hk : (w.registry.arrivalWaiters.insert (w.tasks i).call.key
        (w.registry.waiters (w.tasks i).call.key ++ [i])).lookup k = some ws := hk
    rw [lookup_insert_eq] at hk
    split_ifs at hk
    · cases hk
      exact List.append_ne_nil_of_right_ne_nil _ (List.cons_ne_nil i [])
    · exact h.nonempty k ws hk
  · rcases hlists k t ht with ht | ⟨rfl, rfl⟩
    · obtain ⟨hawaits, harrival, hkey⟩ := h.waiters k t ht
      refine ⟨?_, (htasks.arrival t).trans harrival, (congrArg Call.key (htasks.call t)).trans hkey⟩
      rcases htasks.cases t with ⟨-, hto⟩ | ⟨-, hto⟩
      · rw [hto]
        rfl
      · exact hto ▸ hawaits
    · refine ⟨?_, (htasks.arrival t).trans (h.fresh t (by rw [hphase]; rfl)),
        congrArg Call.key (htasks.call t)⟩
      rw [htasks.phase, if_pos rfl]
      rfl
  · rcases htasks.cases o with ⟨-, hto⟩ | ⟨-, hto⟩
    · rw [hto] at ht
      cases ht
    · obtain ⟨hlt, hold, hfree⟩ := h.taken o t (hto ▸ ht)
      refine ⟨hlt, htasks.notFresh nofun t hold, fun k hk => ?_⟩
      rcases hlists k t hk with hk | ⟨-, rfl⟩
      · exact hfree k hk
      · rw [hphase] at hold
        cases hold
  · exact (htasks.arrival t).trans (h.fresh t (htasks.fresh nofun t ht))

/-- The task that gives up takes its own waiter out, because its receiver is gone. -/
theorem Arrivals.expired (h : w.Arrivals) (hphase : (w.tasks i).phase = .expired)
    (htasks : Goes w.tasks tasks' i .refinding [] .waiting) :
    { w with
      registry := w.registry.dropArrivalWaiters (w.tasks i).call.key w.arrivalClosed
      tasks := tasks' : World }.Arrivals := by
  have hlists : ∀ k t,
      t ∈ (w.registry.dropArrivalWaiters (w.tasks i).call.key w.arrivalClosed).waiters k →
      t ∈ w.registry.waiters k ∧ t ≠ i := by
    intro k t ht
    rw [RegistryState.waiters_dropArrivalWaiters] at ht
    split_ifs at ht with hk
    · obtain ⟨ht, hopen⟩ := List.mem_filter.mp ht
      refine ⟨hk ▸ ht, ?_⟩
      rintro rfl
      unfold arrivalClosed at hopen
      rw [hphase] at hopen
      cases hopen
    · refine ⟨ht, ?_⟩
      rintro rfl
      exact hk (h.waiters k t ht).2.2.symm
  refine ⟨RegistryState.nonempty_dropArrivalWaiters h.nonempty, fun k t ht => ?_,
    fun o t ht => ?_, fun t ht => ?_⟩
  · obtain ⟨ht, hne⟩ := hlists k t ht
    obtain ⟨hawaits, harrival, hkey⟩ := h.waiters k t ht
    refine ⟨?_, (htasks.arrival t).trans harrival, (congrArg Call.key (htasks.call t)).trans hkey⟩
    rw [htasks.phase, if_neg hne]
    exact hawaits
  · rcases htasks.cases o with ⟨-, hto⟩ | ⟨-, hto⟩
    · rw [hto] at ht
      cases ht
    · obtain ⟨hlt, hold, hfree⟩ := h.taken o t (hto ▸ ht)
      exact ⟨hlt, htasks.notFresh nofun t hold, fun k hk => hfree k (hlists k t hk).1⟩
  · exact (htasks.arrival t).trans (h.fresh t (htasks.fresh nofun t ht))

theorem Arrivals.step (h : w.Arrivals) (hb : w.Bounded) (hok : w.NoWaiterDropped action)
    (hs : Steps w action w') : w'.Arrivals := by
  cases hs with
  | @spawned _ call =>
    have hspawn := h.spawn hb call
    exact ⟨hspawn.nonempty, hspawn.waiters, hspawn.taken, hspawn.fresh⟩
  | polled => exact ⟨h.nonempty, h.waiters, h.taken, h.fresh⟩
  | @cancelled i heap' tasks' hawait hheap htables htasks =>
    refine h.goes htasks (fun _ => .inr fun key hkey => ?_) (fun t ht => ht) nofun nofun
    -- its waiter could only be in the list of its own key
    have heq := (h.waiters key i hkey).2.2
    exact (hok i rfl).1 (heq ▸ hkey)
  | @moved i fate phase heap' tasks' hheap htables htasks hmoves =>
    refine h.goes htasks (fun hold => ?_) nofun (fun t ht => ?_) hmoves.fresh
    · -- it stops waiting only after it was signalled
      cases hnew : phase.awaits with
      | true => exact .inl rfl
      | false =>
        exact .inr fun key hkey => hmoves.woken hold hnew (h.waiters key i hkey).2.1
    · rw [hmoves.taken'] at ht
      cases ht
  | opened hphase htasks => exact h.opened hb hphase htasks
  | evicted hphase hheap htables htasks | failedPrevious hphase hheap htables htasks =>
    exact h.goes_of_phase hphase htasks rfl nofun (fun t ht => ht) rfl
  | woke hphase htasks =>
    exact h.goes_of_phase hphase htasks rfl (fun t ht => ht) nofun rfl
  | @closed i c fate tasks' hphase htasks =>
    have hgoes : { w with tasks := tasks' : World }.Arrivals :=
      h.goes_of_phase hphase htasks rfl nofun nofun rfl
    refine hgoes.relist ?_
    unfold RegistryState.remove
    split_ifs <;> rfl
  | flagged hphase hheap htables htasks | failed hphase hheap htables htasks
  | replyAdded hphase hheap htables htasks | released hphase hheap htables htasks
  | delivered hphase hcall hreply hheap htables htasks =>
    exact h.goes_of_phase hphase htasks rfl nofun nofun rfl
  | registered hphase hfind htasks => exact h.registered hphase htasks
  | expired hphase htasks => exact h.expired hphase htasks

/-! ### Who waits -/

/-- Only handlers of the backend find, wait and register. -/
def Typed (w : World) : Prop :=
  ∀ i, (w.tasks i).phase.isService = true → (w.tasks i).call.isService = true

theorem isService_start (call : Call) (h : (start call).isService = true) :
    call.isService = true := by
  cases call with
  | publish | rpc => rfl
  | stream | close => cases h
  | inbound =>
    dsimp only [start] at h
    split_ifs at h <;> cases h

theorem Typed.goes (h : w.Typed) (htasks : Goes w.tasks w'.tasks i phase waiters signal)
    (hservice : phase.isService = true → (w.tasks i).phase.isService = true) : w'.Typed := by
  intro j hj
  rw [htasks.call]
  rcases htasks.cases j with ⟨rfl, hphase⟩ | ⟨-, hphase⟩
  · exact h j (hservice (hphase ▸ hj))
  · exact h j (hphase ▸ hj)

theorem Typed.goes_of_phase (h : w.Typed) (hphase : (w.tasks i).phase = from_)
    (htasks : Goes w.tasks w'.tasks i phase waiters signal)
    (hservice : phase.isService = true → from_.isService = true) : w'.Typed :=
  h.goes htasks (hphase ▸ hservice)

theorem Typed.step (h : w.Typed) (hs : Steps w action w') : w'.Typed := by
  cases hs with
  | @spawned _ call heap' =>
    intro j hj
    rw [phase_spawn] at hj
    split_ifs at hj with hne
    · subst hne
      have hcall : (({ w with heap := heap' : World }.spawn call).tasks w.spawned).call = call := by
        simp [spawn]
      rw [hcall]
      exact isService_start call hj
    · rw [call_spawn _ _ hne]
      exact h j hj
  | polled => exact h
  | cancelled hawait hheap htables htasks | evicted hphase hheap htables htasks
  | failedPrevious hphase hheap htables htasks | woke hphase htasks | closed hphase htasks
  | flagged hphase hheap htables htasks | failed hphase hheap htables htasks
  | released hphase hheap htables htasks | delivered hphase hcall hreply hheap htables htasks =>
    exact h.goes htasks (by rintro ⟨⟩)
  | moved hheap htables htasks hmoves => exact h.goes htasks hmoves.service
  | @opened i fate tasks' hphase htasks =>
    refine h.goes htasks fun hservice => ?_
    rw [afterOpen] at hservice
    cases hfind : w.find (w.tasks i).call.key <;> rw [hfind] at hservice <;> cases hservice
  | registered hphase hfind htasks | expired hphase htasks
  | replyAdded hphase hheap htables htasks => exact h.goes_of_phase hphase htasks fun _ => rfl

theorem typed_of_reaches {ok : World → Action → Prop} (h : Reaches World.step ok new w) :
    w.Typed :=
  h.invariant (I := Typed) (fun _ hi => by cases hi) fun _ _ _ _ htyped _ hs =>
    htyped.step (step_spec hs)

theorem answerable_of_reaches (h : Reaches World.step NoWaiterDropped new w) : w.Answerable := by
  refine h.invariant (I := Answerable) (fun c id t ht => ?_) fun w w' action hreach ha hok hs => ?_
  · exact absurd (entered_new c id t ht) (Nat.not_lt_zero c)
  · exact ha.step hok
      ((step_spec hs).tableStep (inv_of_reaches hreach).bounded (entered_of_reaches hreach))

theorem arrivals_of_reaches (h : Reaches World.step NoWaiterDropped new w) : w.Arrivals :=
  h.invariant (I := Arrivals) arrivals_new fun _ _ _ hreach ha hok hs =>
    ha.step (inv_of_reaches hreach).bounded hok (step_spec hs)

/-! ### Nobody in flight -/

/-- No `/publish` or `/rpc` handler is in flight. -/
def AllOver (w : World) : Prop :=
  ∀ i < w.spawned, (w.tasks i).call.isService = true → (w.tasks i).phase.isOver = true

instance (w : World) : Decidable w.AllOver := inferInstanceAs (Decidable (∀ _ < _, _))

theorem repliesOn_isService (h : phase.repliesOn = some c) :
    phase.isService = true ∧ phase.isOver = false := by
  cases phase <;> simp_all [Phase.repliesOn, Phase.isService, Phase.isOver]

theorem awaits_isService (h : phase.awaits = true) :
    phase.isService = true ∧ phase.isOver = false := by
  cases phase <;> simp_all [Phase.awaits, Phase.isService, Phase.isOver]

theorem AllOver.not_inFlight (h : w.AllOver) (hb : w.Bounded) (htyped : w.Typed)
    (hservice : (w.tasks i).phase.isService = true) (hover : (w.tasks i).phase.isOver = false) :
    False := by
  by_cases hi : i < w.spawned
  · have := h i hi (htyped i hservice)
    rw [hover] at this
    cases this
  · rw [hb.unspawned i (not_lt.mp hi)] at hover
    cases hover

/-- **No waiter is left behind** in a run in which no future is dropped while its waiter is
registered: when no handler of the backend is in flight, the tables of the installed channels are
empty, and nobody is waiting for an arrival. -/
theorem no_waiter_left (h : Reaches World.step NoWaiterDropped new w) (hover : w.AllOver) :
    (∀ key c, w.find key = some c → (w.heap c).pendingReplies = ∅) ∧
      w.registry.arrivalWaiters = ∅ := by
  have hb := (inv_of_reaches h).bounded
  have htyped := typed_of_reaches h
  refine ⟨fun key c _ => Finmap.ext_lookup fun id => ?_, Finmap.ext_lookup fun key => ?_⟩
  · rw [Finmap.lookup_empty]
    cases hentry : (w.heap c).pendingReplies.lookup id with
    | none => rfl
    | some t =>
      obtain ⟨hservice, hflight⟩ := repliesOn_isService (answerable_of_reaches h c id t hentry).1
      exact (hover.not_inFlight hb htyped hservice hflight).elim
  · rw [Finmap.lookup_empty]
    cases hlist : w.registry.arrivalWaiters.lookup key with
    | none => rfl
    | some ws =>
      have harrivals := arrivals_of_reaches h
      obtain ⟨t, ht⟩ := List.exists_mem_of_ne_nil ws (harrivals.nonempty key ws hlist)
      have hwaiter : t ∈ w.registry.waiters key := by
        unfold RegistryState.waiters
        rw [hlist]
        exact ht
      obtain ⟨hservice, hflight⟩ := awaits_isService (harrivals.waiters key t hwaiter).1
      exact (hover.not_inFlight hb htyped hservice hflight).elim

/-- A call registers, times out and takes its entry out; another is dropped before it registers. -/
theorem no_waiter_left_timeout :
    ∃ w : World, (w.tasks 1).phase = .done (.timedOut defaultRpcTimeout) ∧
      (w.tasks 2).phase = .gone ∧ w.find "tab" = some 0 ∧ (w.heap 0).pendingReplies = ∅ ∧
      w.registry.arrivalWaiters = ∅ := by
  obtain ⟨w, hreach, hphase, hgone, hfind, hover⟩ : ∃ w, Reaches World.step NoWaiterDropped new w ∧
      (w.tasks 1).phase = .done (.timedOut defaultRpcTimeout) ∧ (w.tasks 2).phase = .gone ∧
      w.find "tab" = some 0 ∧ w.AllOver :=
    exists_of_runList (callRun ++ [.run 1 .go, .spawn (.rpc "tab" 8 "other" 0 0), .run 2 .go,
      .cancel 2, .run 1 .expire, .run 1 .go]) (by decide +kernel)
  obtain ⟨htables, hlists⟩ := no_waiter_left hreach hover
  exact ⟨w, hphase, hgone, hfind, htables "tab" 0 hfind, hlists⟩

/-- **A dropped call leaves its waiter behind.** The caller of an rpc hangs up while the handler
waits for the reply, and one of a publish while it waits for an arrival. -/
theorem dropped_call_leaks :
    ∃ w : World, Reaches World.step (fun _ _ => True) new w ∧ w.AllOver ∧
      (∃ c, w.find "tab" = some c ∧ (w.heap c).pendingReplies ≠ ∅) ∧
      w.registry.arrivalWaiters ≠ ∅ := by
  obtain ⟨w, hreach, hover, hfind, hentry, hlist⟩ : ∃ w,
      Reaches World.step (fun _ _ => True) new w ∧ w.AllOver ∧ w.find "tab" = some 0 ∧
      w.pending 0 9 = some 1 ∧
      w.registry.waiters "other" = [2] :=
    exists_of_runList (callRun ++ [.run 1 .go, .cancel 1, .spawn (.publish "other" "event" 1000),
      .run 2 .go, .run 2 .go, .cancel 2]) (by decide +kernel)
  refine ⟨w, hreach, hover, ⟨0, hfind, fun hempty => ?_⟩, fun hempty => ?_⟩
  · rw [pending, hempty, Finmap.lookup_empty] at hentry
    cases hentry
  · rw [RegistryState.waiters, hempty, Finmap.lookup_empty] at hlist
    cases hlist

end World

end Fareward.Bridge
