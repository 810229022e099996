import Fareward.Reqlog.Equiv.Errors
import Fareward.Reqlog.Writer

/-!
# Errors that are suppressed

The gate records an error as written when it lets it through, before the insert is sent. If the
insert then fails, nothing takes the record back, and the error is suppressed for the whole
freshness although no row was written (`suppressed_unwritten`).

`Steps` lists what a step does to the gate, the flush and the log. For a key whose inserts all
succeed, the time the gate holds is that of an insert that succeeded no earlier, or of the flush in
progress, whose insert is still to come (`Writer.Inv`).
-/

namespace Fareward.Reqlog

variable {updated : Int32} {entries : List ErrorEntry} {errorValues : List RequestErrorRow}
  {pending : List RequestLogRecord} {entry : ErrorEntry} {gate : ErrorWriteGate} {time : ℕ}
  {row : RequestErrorRow}

/-- The start of the flush in progress and its values that are not inserted yet. -/
def Phase.flushing : Phase → Option (ℕ × List RequestErrorRow)
  | .screening now _ _ errorValues => some (now, errorValues)
  | .inserting now errorValues => some (now, errorValues)
  | .idle => none
  | .stopped => none

namespace Writer

variable {w w' : Writer} {action : Action} {key : ErrorKey} {now t n : ℕ}

/-! ### The steps -/

/-- What a step can do, as far as the errors are concerned. -/
inductive Steps (w : Writer) : Action → Writer → Prop
  | quiet {action : Action} {queue pending : List RequestLogRecord} {metrics : RequestLogMetrics}
      {phase : Phase} {draining : Bool} (hflushing : phase.flushing = w.phase.flushing)
      (hphase : ∀ now updated entries errorValues,
        phase = .screening now updated entries errorValues → w.phase = phase) :
      Steps w action { w with queue, pending, metrics, phase, draining }
  | begins {action : Action} {queue pending : List RequestLogRecord} {draining : Bool} {now : ℕ}
      {updated : Int32} {entries : List ErrorEntry} (hidle : w.phase.flushing = none)
      (hclock : w.clock ≤ now) :
      Steps w action { w with
        queue, pending, draining
        phase := .screening now updated entries []
        clock := now
        flushes := w.flushes + 1 }
  | planned {order : List ErrorKey} {now : ℕ} {updated : Int32} {entry : ErrorEntry}
      {entries : List ErrorEntry} {errorValues : List RequestErrorRow} {gate : ErrorWriteGate}
      (hphase : w.phase = .screening now updated (entry :: entries) errorValues)
      (horder : Enumerates order w.gate.lastWritten.keys)
      (hgate : w.gate.shouldWrite order entry.key now = (true, gate)) :
      Steps w (.screen order) { w with
        gate
        phase := .screening now updated entries (errorValues ++ [entry.row updated])
        log := .planned w.flushes entry.key :: w.log }
  | suppressed {order : List ErrorKey} {now : ℕ} {updated : Int32} {entry : ErrorEntry}
      {entries : List ErrorEntry} {errorValues : List RequestErrorRow} {gate : ErrorWriteGate}
      (hphase : w.phase = .screening now updated (entry :: entries) errorValues)
      (horder : Enumerates order w.gate.lastWritten.keys)
      (hgate : w.gate.shouldWrite order entry.key now = (false, gate)) :
      Steps w (.screen order) { w with
        gate
        phase := .screening now updated entries errorValues
        log := .suppressed w.flushes entry.key now :: w.log }
  | inserted {ok : Bool} {time now : ℕ} {row : RequestErrorRow}
      {errorValues : List RequestErrorRow} {metrics : RequestLogMetrics}
      (hphase : w.phase = .inserting now (row :: errorValues)) (hclock : w.clock ≤ time) :
      Steps w (.inserted ok time) { w with
        metrics
        phase := .inserting now errorValues
        clock := time
        log := .inserted w.flushes row.key time ok :: w.log }
  | finished {now : ℕ} {phase : Phase} (hphase : w.phase = .inserting now [])
      (hrest : phase.flushing = none) : Steps w .finish { w with phase, pending := [] }

theorem flushing_resting (w : Writer) : w.resting.flushing = none := by
  unfold resting
  split_ifs <;> rfl

theorem resting_ne_screening {now : ℕ} (w : Writer) :
    w.resting ≠ .screening now updated entries errorValues := by
  unfold resting
  split_ifs <;> nofun

/-- A flush starts from a state that differs from `w` in what is queued only. -/
theorem flush_spec (queue pending : List RequestLogRecord) (draining : Bool)
    (hidle : w.phase = .idle)
    (h : { w with queue, pending, draining }.flush now updated = some w') : Steps w action w' := by
  unfold flush at h
  split_ifs at h with hempty hclock
  · cases h
    refine .quiet ?_ fun _ _ _ _ hp => (resting_ne_screening _ hp).elim
    rw [flushing_resting, hidle]
    rfl
  · cases h
    refine .begins ?_ hclock
    rw [hidle]
    rfl

/-- **Every step of the writer.** -/
theorem step_spec (h : w.step action = some w') : Steps w action w' := by
  cases action with
  | submit =>
    cases h
    unfold submit
    split_ifs
    · exact .quiet rfl fun _ _ _ _ _ => rfl
    · exact .quiet rfl fun _ _ _ _ _ => rfl
    · exact .quiet rfl fun _ _ _ _ _ => rfl
  | receive now updated =>
    change w.receive now updated = some w' at h
    unfold receive at h
    split at h
    next record queue hidle hqueue =>
      dsimp only at h
      split_ifs at h
      · exact flush_spec queue _ w.draining hidle h
      · cases h
        exact .quiet rfl fun _ _ _ _ _ => rfl
    next => cases h
  | tick =>
    obtain ⟨hidle, h⟩ := Option.ite_none_right_eq_some.mp h
    exact flush_spec w.queue w.pending w.draining hidle h
  | stop =>
    obtain ⟨hidle, h⟩ := Option.ite_none_right_eq_some.mp h
    exact flush_spec [] _ true hidle h
  | screen order =>
    change w.screen order = some w' at h
    unfold screen at h
    split at h
    next now updated entry entries errorValues hphase =>
      obtain ⟨horder, h⟩ := Option.ite_none_right_eq_some.mp h
      split at h
      next gate hgate =>
        cases h
        exact .planned hphase horder hgate
      next gate hgate =>
        cases h
        exact .suppressed hphase horder hgate
    next => cases h
  | batched ok =>
    change w.batched ok = some w' at h
    unfold batched at h
    split at h
    next now updated errorValues hphase =>
      cases h
      refine .quiet ?_ nofun
      rw [hphase]
      rfl
    next => cases h
  | inserted ok time =>
    change w.inserted ok time = some w' at h
    unfold inserted at h
    split at h
    next now row errorValues hphase =>
      obtain ⟨hclock, h⟩ := Option.ite_none_right_eq_some.mp h
      cases h
      exact .inserted hphase hclock
    next => cases h
  | finish =>
    change w.finish = some w' at h
    unfold finish at h
    split at h
    next now hphase =>
      cases h
      exact .finished hphase (flushing_resting w)
    next => cases h

/-! ### Inserts that succeed -/

/-- An insert of the key succeeded at `t` or later. -/
def Stored (w : Writer) (key : ErrorKey) (t : ℕ) : Prop :=
  ∃ n time, Event.inserted n key time true ∈ w.log ∧ t ≤ time ∧ time ≤ w.clock

/-- An insert of the key is part of the flush, or one succeeded less than the freshness before. -/
def Justified (freshness flush : ℕ) (key : ErrorKey) (now : ℕ) (before : List Event) : Prop :=
  Event.planned flush key ∈ before ∨
    ∃ n time, Event.inserted n key time true ∈ before ∧ time ≤ now ∧ now < time + freshness

/-- What the gate holds for a key has been written, or is about to be. -/
structure Inv (key : ErrorKey) (w : Writer) : Prop where
  freshness : w.gate.freshness = w.config.errorFreshness
  capacity : 0 < w.gate.capacity
  numbered : ∀ n, Event.planned n key ∈ w.log → n ≤ w.flushes
  started : ∀ now errorValues, w.phase.flushing = some (now, errorValues) → now ≤ w.clock
  screening : ∀ now updated entries errorValues,
    w.phase = .screening now updated entries errorValues → w.clock = now
  carried : ∀ now errorValues, w.phase.flushing = some (now, errorValues) →
    Event.planned w.flushes key ∈ w.log →
    (∃ row ∈ errorValues, row.key = key) ∨ w.Stored key now
  recorded : ∀ t, w.gate.lastWritten.lookup key = some t → w.Stored key t ∨
    ∃ errorValues, w.phase.flushing = some (t, errorValues) ∧
      Event.planned w.flushes key ∈ w.log
  justified : ∀ flush now before, Event.suppressed flush key now :: before <:+ w.log →
    Justified w.config.errorFreshness flush key now before

theorem inv_spawn (config : RequestLogConfig) : (spawn config).Inv key where
  freshness := rfl
  capacity := Nat.lt_of_lt_of_le Nat.one_pos (le_max_right _ _)
  numbered _ h := by cases h
  started _ _ h := by cases h
  screening _ _ _ _ h := by cases h
  carried _ _ h := by cases h
  recorded t h := by
    rw [spawn, ErrorWriteGate.new, Finmap.lookup_empty] at h
    cases h
  justified _ _ _ h := by cases List.suffix_nil.mp h

theorem Stored.mono (h : w.Stored key t) (hlog : ∀ e ∈ w.log, e ∈ w'.log)
    (hclock : w.clock ≤ w'.clock) : w'.Stored key t := by
  obtain ⟨n, time, hmem, hle, htime⟩ := h
  exact ⟨n, time, hlog _ hmem, hle, htime.trans hclock⟩

/-- The log gains an event; the suppressions in it are justified if this one is. -/
theorem justified_cons {freshness : ℕ} {log : List Event} {e : Event}
    (h : ∀ flush now before, Event.suppressed flush key now :: before <:+ log →
      Justified freshness flush key now before)
    (he : ∀ flush now, e = .suppressed flush key now → Justified freshness flush key now log)
    (flush now : ℕ) (before : List Event)
    (hsuffix : Event.suppressed flush key now :: before <:+ e :: log) :
    Justified freshness flush key now before := by
  rcases List.suffix_cons_iff.mp hsuffix with heq | hsuffix
  · obtain ⟨rfl, rfl⟩ := List.cons.inj heq
    exact he flush now rfl
  · exact h flush now before hsuffix

theorem Inv.begins {queue : List RequestLogRecord} {draining : Bool} (h : w.Inv key)
    (hidle : w.phase.flushing = none) (hclock : w.clock ≤ now) :
    { w with
      queue, pending, draining
      phase := .screening now updated entries []
      clock := now
      flushes := w.flushes + 1 : Writer }.Inv key where
  freshness := h.freshness
  capacity := h.capacity
  numbered n hn := (h.numbered n hn).trans (Nat.le_succ _)
  started _ _ hflushing := by
    obtain ⟨rfl, -⟩ := Prod.mk.inj (Option.some.inj hflushing)
    exact le_rfl
  screening _ _ _ _ hphase := by
    injection hphase
  carried _ _ _ hplanned := absurd (h.numbered _ hplanned) (Nat.not_succ_le_self _)
  recorded t ht := by
    rcases h.recorded t ht with hstored | ⟨errorValues, hflushing, -⟩
    · exact .inl (hstored.mono (fun _ he => he) hclock)
    · rw [hidle] at hflushing
      cases hflushing
  justified := h.justified

theorem Inv.planned (h : w.Inv key)
    (hphase : w.phase = .screening now updated (entry :: entries) errorValues)
    (hwrites : Writes w.gate entry.key now true gate) :
    { w with
      gate
      phase := .screening now updated entries (errorValues ++ [entry.row updated])
      log := .planned w.flushes entry.key :: w.log : Writer }.Inv key where
  freshness := hwrites.freshness_eq.trans h.freshness
  capacity := hwrites.capacity_eq ▸ h.capacity
  numbered n hn := by
    rcases List.mem_cons.mp hn with heq | hn
    · injection heq with hn
      exact hn.le
    · exact h.numbered n hn
  started _ _ hflushing := by
    obtain ⟨rfl, -⟩ := Prod.mk.inj (Option.some.inj hflushing)
    exact (h.screening _ _ _ _ hphase).ge
  screening _ _ _ _ heq := by
    injection heq with hnow
    rw [← hnow]
    exact h.screening _ _ _ _ hphase
  carried _ _ hflushing hplanned := by
    obtain ⟨rfl, rfl⟩ := Prod.mk.inj (Option.some.inj hflushing)
    by_cases hkey : entry.key = key
    · exact .inl ⟨entry.row updated, List.mem_append_right _ List.mem_cons_self, hkey⟩
    · have hbefore : Event.planned w.flushes key ∈ w.log := by
        rcases List.mem_cons.mp hplanned with heq | hbefore
        · injection heq with _ hkey'
          exact absurd hkey'.symm hkey
        · exact hbefore
      rcases h.carried _ _ (by rw [hphase]; rfl) hbefore with ⟨row, hrow, heq⟩ | hstored
      · exact .inl ⟨row, List.mem_append_left _ hrow, heq⟩
      · exact .inr (hstored.mono (fun _ he => List.mem_cons_of_mem _ he) le_rfl)
  recorded t ht := by
    by_cases hkey : key = entry.key
    · subst hkey
      obtain rfl : now = t := Option.some.inj (hwrites.lookup_self.symm.trans ht)
      exact .inr ⟨_, rfl, List.mem_cons_self⟩
    · rcases h.recorded t (hwrites.lookup_of_ne hkey ht) with hstored | ⟨values, hval, hplanned⟩
      · exact .inl (hstored.mono (fun _ he => List.mem_cons_of_mem _ he) le_rfl)
      · rw [hphase] at hval
        obtain ⟨rfl, -⟩ := Prod.mk.inj (Option.some.inj hval)
        exact .inr ⟨_, rfl, List.mem_cons_of_mem _ hplanned⟩
  justified := justified_cons h.justified nofun

/-- An error is suppressed because its key was written, or will be by this flush. -/
theorem Inv.justifies (h : w.Inv key) (hclock : w.clock = now)
    (hlast : w.gate.lastWritten.lookup key = some t) (hfresh : now - t < w.gate.freshness) :
    Justified w.config.errorFreshness w.flushes key now w.log := by
  rw [h.freshness] at hfresh
  rcases h.recorded t hlast with ⟨n, time, hmem, hle, htime⟩ | ⟨-, -, hplanned⟩
  · rw [hclock] at htime
    exact .inr ⟨n, time, hmem, htime, by omega⟩
  · exact .inl hplanned

theorem Inv.suppressed (h : w.Inv key)
    (hphase : w.phase = .screening now updated (entry :: entries) errorValues)
    (hwrites : Writes w.gate entry.key now false gate) :
    { w with
      gate
      phase := .screening now updated entries errorValues
      log := .suppressed w.flushes entry.key now :: w.log : Writer }.Inv key := by
  obtain ⟨rfl, t, hlast, hfresh⟩ := hwrites.of_false
  have hclock : w.clock = now := h.screening _ _ _ _ hphase
  have hflushing : w.phase.flushing = some (now, errorValues) := by
    rw [hphase]
    rfl
  have hlog : ∀ e ∈ w.log, e ∈ Event.suppressed w.flushes entry.key now :: w.log :=
    fun _ he => List.mem_cons_of_mem _ he
  have hplanned : ∀ {n}, Event.planned n key ∈ Event.suppressed w.flushes entry.key now :: w.log →
      Event.planned n key ∈ w.log := fun hmem =>
    (List.mem_cons.mp hmem).resolve_left nofun
  refine ⟨h.freshness, h.capacity, fun n hn => h.numbered n (hplanned hn), ?_, ?_, ?_, ?_, ?_⟩
  · intro now' values heq
    exact h.started now' values (hflushing.trans heq)
  · intro now' _ _ _ heq
    injection heq with hnow
    rw [← hnow]
    exact hclock
  · intro now' values heq hmem
    exact (h.carried now' values (hflushing.trans heq) (hplanned hmem)).imp_right
      fun hstored => hstored.mono hlog le_rfl
  · intro t' ht'
    rcases h.recorded t' ht' with hstored | ⟨values, hval, hmem⟩
    · exact .inl (hstored.mono hlog le_rfl)
    · exact .inr ⟨values, hflushing.symm.trans hval, hlog _ hmem⟩
  · refine justified_cons h.justified fun flush now' heq => ?_
    injection heq with hflush hkey hnow
    subst hflush hkey hnow
    exact h.justifies hclock hlast hfresh

/-- The insert of `key`, if it is one, succeeds. -/
theorem Inv.inserted {ok : Bool} {metrics : RequestLogMetrics} (h : w.Inv key)
    (hphase : w.phase = .inserting now (row :: errorValues)) (hclock : w.clock ≤ time)
    (hok : row.key = key → ok = true) :
    { w with
      metrics
      phase := .inserting now errorValues
      clock := time
      log := .inserted w.flushes row.key time ok :: w.log : Writer }.Inv key := by
  have hflushing : w.phase.flushing = some (now, row :: errorValues) := by
    rw [hphase]
    rfl
  have hstart : now ≤ time := (h.started _ _ hflushing).trans hclock
  have hlog : ∀ e ∈ w.log, e ∈ Event.inserted w.flushes row.key time ok :: w.log :=
    fun _ he => List.mem_cons_of_mem _ he
  have hplanned : ∀ {n}, Event.planned n key ∈ Event.inserted w.flushes row.key time ok :: w.log →
      Event.planned n key ∈ w.log := fun hmem =>
    (List.mem_cons.mp hmem).resolve_left nofun
  refine ⟨h.freshness, h.capacity, fun n hn => h.numbered n (hplanned hn), ?_, nofun, ?_, ?_, ?_⟩
  · intro now' values heq
    obtain ⟨rfl, -⟩ := Prod.mk.inj (Option.some.inj heq)
    exact hstart
  · intro now' values heq hmem
    obtain ⟨rfl, rfl⟩ := Prod.mk.inj (Option.some.inj heq)
    rcases h.carried _ _ hflushing (hplanned hmem) with ⟨row', hrow', hkey⟩ | hstored
    · rcases List.mem_cons.mp hrow' with rfl | hrow'
      · -- this is the insert of the key
        obtain rfl := hok hkey
        exact .inr ⟨w.flushes, time, hkey ▸ List.mem_cons_self, hstart, le_rfl⟩
      · exact .inl ⟨row', hrow', hkey⟩
    · exact .inr (hstored.mono hlog hclock)
  · intro t ht
    rcases h.recorded t ht with hstored | ⟨values, hval, hmem⟩
    · exact .inl (hstored.mono hlog hclock)
    · rw [hflushing] at hval
      obtain ⟨rfl, -⟩ := Prod.mk.inj (Option.some.inj hval)
      exact .inr ⟨errorValues, rfl, hlog _ hmem⟩
  · exact justified_cons h.justified nofun

/-- When a flush is over, what it planned has been inserted. -/
theorem Inv.finished {phase : Phase} (h : w.Inv key) (hphase : w.phase = .inserting now [])
    (hrest : phase.flushing = none) :
    { w with phase, pending : Writer }.Inv key where
  freshness := h.freshness
  capacity := h.capacity
  numbered := h.numbered
  started _ _ hflushing := by
    rw [hrest] at hflushing
    cases hflushing
  screening _ _ _ _ heq := by
    obtain rfl : phase = _ := heq
    cases hrest
  carried _ _ hflushing := by
    rw [hrest] at hflushing
    cases hflushing
  recorded t ht := by
    rcases h.recorded t ht with hstored | ⟨errorValues, hval, hplanned⟩
    · exact .inl hstored
    · rw [hphase] at hval
      obtain ⟨rfl, rfl⟩ := Prod.mk.inj (Option.some.inj hval)
      rcases h.carried now [] (by rw [hphase]; rfl) hplanned with ⟨row, hrow, -⟩ | hstored
      · cases hrow
      · exact .inl hstored
  justified := h.justified

/-- The key whose insert is answered next. -/
def nextKey (w : Writer) : Option ErrorKey :=
  match w.phase with
  | .inserting _ (row :: _) => some row.key
  | _ => none

def Action.fails : Action → Bool
  | .inserted ok _ => !ok
  | _ => false

/-- The step is not a failed insert of the key. -/
def Succeeds (key : ErrorKey) (w : Writer) (action : Action) : Prop :=
  action.fails = true → w.nextKey ≠ some key

instance (key : ErrorKey) (w : Writer) (action : Action) : Decidable (w.Succeeds key action) :=
  inferInstanceAs (Decidable (_ → _))

theorem Succeeds.ok {ok : Bool} (h : w.Succeeds key (.inserted ok time))
    (hphase : w.phase = .inserting now (row :: errorValues)) (hkey : row.key = key) :
    ok = true := by
  by_contra hok
  refine h (by simpa [Action.fails] using hok) ?_
  rw [nextKey, hphase]
  exact congrArg some hkey

theorem Inv.step (h : w.Inv key) (hok : w.Succeeds key action) (hs : w.step action = some w') :
    w'.Inv key := by
  cases step_spec hs with
  | quiet hflushing hphase =>
    refine ⟨h.freshness, h.capacity, h.numbered, ?_, ?_, ?_, ?_, h.justified⟩
    · exact fun now values hval => h.started now values (hflushing ▸ hval)
    · exact fun now _ _ _ heq => h.screening now _ _ _ ((hphase _ _ _ _ heq).trans heq)
    · exact fun now values hval => h.carried now values (hflushing ▸ hval)
    · intro t ht
      rcases h.recorded t ht with hstored | ⟨values, hval, hplanned⟩
      · exact .inl hstored
      · exact .inr ⟨values, hflushing.trans hval, hplanned⟩
  | begins hidle hclock => exact h.begins hidle hclock
  | planned hphase horder hgate =>
    exact h.planned hphase (writes_of_eq horder h.capacity hgate)
  | suppressed hphase horder hgate =>
    exact h.suppressed hphase (writes_of_eq horder h.capacity hgate)
  | inserted hphase hclock => exact h.inserted hphase hclock (hok.ok hphase)
  | finished hphase hrest => exact h.finished hphase hrest

theorem config_of_reaches {config : RequestLogConfig} {ok : Writer → Action → Prop}
    (h : Reaches step ok (spawn config) w) : w.config = config := by
  refine h.invariant (I := fun w => w.config = config) rfl fun w a w' _ hconfig _ hs => ?_
  cases step_spec hs <;> exact hconfig

/-- One record a batch, and an error written at most once in 600 seconds. -/
def smallConfig : RequestLogConfig := ⟨1, 600, 8, 8⟩

def errorKey : ErrorKey := (1234567, "responses.go:539")

/-- A request with one error. -/
def errorRequest : RequestLogRecord :=
  ⟨20500, 1767225600123, 102, 41, 7, 42, 318, [⟨1234567, "responses.go:539", "no rows"⟩]⟩

/-- The request is logged, the insert of its error answered, and a second later it is logged
again. -/
def twoFlushes (ok : Bool) : List Action :=
  [.submit errorRequest, .receive 10 1800000000, .screen [], .batched true, .inserted ok 11,
    .finish, .submit errorRequest, .receive 12 1800000002, .screen [errorKey]]

/-- **Where the inserts of a key succeed, its errors are suppressed only if the row was written.**
In every run in which no insert of the key fails, whenever the gate suppresses an error of the key,
an insert of the key is part of the same flush or succeeded less than the freshness before. -/
theorem suppressed_written {config : RequestLogConfig}
    (h : Reaches step (Succeeds key) (spawn config) w) (flush now : ℕ) (before : List Event)
    (hsuppressed : Event.suppressed flush key now :: before <:+ w.log) :
    Justified config.errorFreshness flush key now before := by
  have hinv : w.Inv key := h.invariant (I := Inv key) (inv_spawn config)
    fun _ _ _ _ hinv hok hs => hinv.step hok hs
  rw [← config_of_reaches h]
  exact hinv.justified flush now before hsuppressed

theorem suppressed_written_twoFlushes :
    ∃ w, Reaches step (Succeeds errorKey) (spawn smallConfig) w ∧
      Justified 600 2 errorKey 12 [.inserted 1 errorKey 11 true, .planned 1 errorKey] := by
  obtain ⟨w, hreach, hlog⟩ : ∃ w, Reaches step (Succeeds errorKey) (spawn smallConfig) w ∧
      w.log = [.suppressed 2 errorKey 12, .inserted 1 errorKey 11 true, .planned 1 errorKey] :=
    exists_of_runList (twoFlushes true) (by decide +kernel)
  exact ⟨w, hreach, suppressed_written hreach 2 12 _ ⟨[], hlog.symm⟩⟩

/-- **An error is suppressed although it was never written.** Its only insert failed. -/
theorem suppressed_unwritten :
    ∃ w flush key now before, Reaches step (fun _ _ => True) (spawn smallConfig) w ∧
      Event.suppressed flush key now :: before <:+ w.log ∧
      ¬ Justified smallConfig.errorFreshness flush key now before := by
  obtain ⟨w, hreach, hlog⟩ : ∃ w, Reaches step (fun _ _ => True) (spawn smallConfig) w ∧
      w.log = [.suppressed 2 errorKey 12, .inserted 1 errorKey 11 false, .planned 1 errorKey] :=
    exists_of_runList (twoFlushes false) (by decide +kernel)
  refine ⟨w, 2, errorKey, 12, _, hreach, ⟨[], hlog.symm⟩, ?_⟩
  simp [Justified]

end Writer

end Fareward.Reqlog
