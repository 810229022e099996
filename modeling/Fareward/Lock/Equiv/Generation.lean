import Fareward.Lock.Equiv.Transition

/-!
# Generations

Every grant is stamped with a draw from one counter of sixteen bits, and the draws of a run are
numbered: draw `k`, counting from zero, yields `k + 1` modulo 65536. A draw of zero is skipped and
its task draws again, so that every other draw is a grant.

* `Drawn`: the generation of a live guard is the number of its draw;
* `grants_of_same_generation`: two draws that yield the same generation have 65535 grants after the
  first of them up to the second.
-/

namespace Fareward.Lock

/-- The task has a guard. -/
def Phase.isHolding : Phase → Bool
  | .holding _ _ => true
  | _ => false

/-- The task has had its generation, if it was to have one. -/
def Phase.isStamped (phase : Phase) : Bool := phase.isOver || phase.isHolding

namespace LockRegistry

variable {r r' r₁ : LockRegistry} {i k : Nat} {draws : List (Option Nat)} {action : Action}
  {request : AcquireRequest} {phase phase' : Phase}

/-- What the next step of task `i` draws from the generation counter: the task gets its generation,
unless it drew zero for the first time and draws again. -/
def drawn (r : LockRegistry) (i : Nat) : List (Option Nat) :=
  match r.tasks[i]? with
  | some ⟨_, .stamp _⟩ => [if r.nextGeneration + 1 = 0 then none else some i]
  | some ⟨_, .restamp _⟩ => [some i]
  | _ => []

def drawnBy (r : LockRegistry) : Action → List (Option Nat)
  | .run i => r.drawn i
  | _ => []

structure Drawn (r : LockRegistry) (draws : List (Option Nat)) : Prop where
  next : r.nextGeneration = UInt16.ofNat draws.length
  skipped : ∀ k : Nat, draws[k]? = some none → UInt16.ofNat (k + 1) = 0
  stamped : ∀ k i : Nat, draws[k]? = some (some i) →
    ∃ task, r.tasks[i]? = some task ∧ task.phase.isStamped = true
  holding : ∀ (k i entry : Nat) (request : AcquireRequest) (generation : UInt16),
    draws[k]? = some (some i) → r.tasks[i]? = some ⟨request, .holding entry generation⟩ →
    generation = UInt16.ofNat (k + 1)
  once : ∀ k k' i : Nat, draws[k]? = some (some i) → draws[k']? = some (some i) → k = k'
  /-- A guard has its generation from a draw. -/
  exists_draw : ∀ (i entry : Nat) (request : AcquireRequest) (generation : UInt16),
    r.tasks[i]? = some ⟨request, .holding entry generation⟩ →
      ∃ k : Nat, draws[k]? = some (some i)

/-- What a transition has to do with the counter. -/
theorem Transition.counter (h : Transition r i request action phase r₁ phase')
    (ht : r.tasks[i]? = some ⟨request, phase⟩) :
    (r₁.nextGeneration = r.nextGeneration ∧ r.drawnBy action = [] ∧
      ∀ entry generation, phase' ≠ .holding entry generation) ∨
    (r₁.nextGeneration = r.nextGeneration + 1 ∧ phase.isStamped = false ∧
      ((r.drawnBy action = [some i] ∧ ∃ entry, phase' = .holding entry (r.nextGeneration + 1)) ∨
        (r.drawnBy action = [none] ∧ r.nextGeneration + 1 = 0 ∧
          ∃ entry, phase' = .restamp entry))) := by
  cases h with
  | stamp hne =>
    refine .inr ⟨rfl, rfl, .inl ⟨?_, _, rfl⟩⟩
    rw [drawnBy, drawn, ht]
    exact congrArg (· :: []) (if_neg hne)
  | skip hzero =>
    refine .inr ⟨rfl, rfl, .inr ⟨?_, hzero, _, rfl⟩⟩
    rw [drawnBy, drawn, ht]
    exact congrArg (· :: []) (if_pos hzero)
  | restamp =>
    refine .inr ⟨rfl, rfl, .inl ⟨?_, _, rfl⟩⟩
    rw [drawnBy, drawn, ht]
  | elapse | cancel | release => exact .inl ⟨rfl, rfl, nofun⟩
  | _ =>
    refine .inl ⟨rfl, ?_, nofun⟩
    rw [drawnBy, drawn, ht]

theorem Transition.isStamped (h : Transition r i request action phase r' phase')
    (hstamped : phase.isStamped = true) : phase'.isStamped = true := by
  rcases (Bool.or_eq_true _ _).mp hstamped with hover | hholding
  · rw [Phase.isStamped, h.isOver hover]
    rfl
  · cases h with
    | release => rfl
    | _ => cases hholding

namespace Drawn

theorem acquire (h : Drawn r draws) (request : AcquireRequest) :
    Drawn { r with tasks := r.tasks ++ [⟨request, .start⟩] } draws := by
  refine ⟨h.next, h.skipped, fun k i hk => ?_, fun k i entry call generation hk ht => ?_, h.once,
    fun i entry call generation ht => ?_⟩
  · obtain ⟨task, ht, hstamped⟩ := h.stamped k i hk
    exact ⟨task, (List.getElem?_append_left (List.getElem?_eq_some_iff.mp ht).1).trans ht, hstamped⟩
  · rcases getElem?_concat_some ht with ht | ⟨-, hnew⟩
    · exact h.holding k i entry call generation hk ht
    · cases hnew
  · rcases getElem?_concat_some ht with ht | ⟨-, hnew⟩
    · exact h.exists_draw i entry call generation ht
    · cases hnew

theorem setPhase_getElem? (htasks : r₁.tasks = r.tasks) (ht : r.tasks[i]? = some ⟨request, phase⟩)
    (phase' : Phase) (j : Nat) : (r₁.setPhase i phase').tasks[j]? =
      if i = j then some ⟨request, phase'⟩ else r.tasks[j]? := by
  rw [tasks_setPhase (htasks ▸ ht), htasks]

theorem stamped_setPhase (h : Drawn r draws) (ht : r.tasks[i]? = some ⟨request, phase⟩)
    (htasks : r₁.tasks = r.tasks) (hstamped : phase.isStamped = true → phase'.isStamped = true)
    (k j : Nat) (hk : draws[k]? = some (some j)) :
    ∃ task, (r₁.setPhase i phase').tasks[j]? = some task ∧ task.phase.isStamped = true := by
  obtain ⟨task, hj, hs⟩ := h.stamped k j hk
  rw [setPhase_getElem? htasks ht]
  split_ifs with hij
  · subst hij
    obtain rfl := Option.some.inj (ht.symm.trans hj)
    exact ⟨_, rfl, hstamped hs⟩
  · exact ⟨task, hj, hs⟩

/-- A task moves and draws nothing. -/
theorem move (h : Drawn r draws) (ht : r.tasks[i]? = some ⟨request, phase⟩)
    (hnext : r₁.nextGeneration = r.nextGeneration) (htasks : r₁.tasks = r.tasks)
    (hstamped : phase.isStamped = true → phase'.isStamped = true)
    (hholding : ∀ entry generation, phase' ≠ .holding entry generation) :
    Drawn (r₁.setPhase i phase') draws := by
  have hold {j entry : Nat} {call : AcquireRequest} {generation : UInt16}
      (hj : (r₁.setPhase i phase').tasks[j]? = some ⟨call, .holding entry generation⟩) :
      r.tasks[j]? = some ⟨call, .holding entry generation⟩ := by
    rw [setPhase_getElem? htasks ht] at hj
    split_ifs at hj with hij
    · exact absurd (congrArg Acquire.phase (Option.some.inj hj)) (hholding entry generation)
    · exact hj
  exact ⟨hnext.trans h.next, h.skipped, h.stamped_setPhase ht htasks hstamped,
    fun k j entry call generation hk hj => h.holding k j entry call generation hk (hold hj), h.once,
    fun j entry call generation hj => h.exists_draw j entry call generation (hold hj)⟩

/-- A task draws, and gets its generation or draws again. -/
theorem draw {d : Option Nat} (h : Drawn r draws) (ht : r.tasks[i]? = some ⟨request, phase⟩)
    (hnext : r₁.nextGeneration = r.nextGeneration + 1) (htasks : r₁.tasks = r.tasks)
    (hbefore : phase.isStamped = false)
    (hd : (d = some i ∧ ∃ entry, phase' = .holding entry (r.nextGeneration + 1)) ∨
      (d = none ∧ r.nextGeneration + 1 = 0 ∧ ∃ entry, phase' = .restamp entry)) :
    Drawn (r₁.setPhase i phase') (draws ++ [d]) := by
  have hnumber : r.nextGeneration + 1 = UInt16.ofNat (draws.length + 1) := by
    rw [h.next, UInt16.ofNat_add]
    rfl
  -- the task has not drawn its generation before
  have hfresh (k : Nat) : draws[k]? ≠ some (some i) := by
    intro hk
    obtain ⟨task, hi, hs⟩ := h.stamped k i hk
    obtain rfl := Option.some.inj (ht.symm.trans hi)
    rw [hbefore] at hs
    cases hs
  refine ⟨?_, fun k hk => ?_, fun k j hk => ?_, fun k j entry call generation hk hj => ?_,
    fun k k' j hk hk' => ?_, fun j entry call generation hj => ?_⟩
  · rw [List.length_append, List.length_singleton, ← hnumber]
    exact hnext
  · rcases getElem?_concat_some hk with hk | ⟨rfl, hdraw⟩
    · exact h.skipped k hk
    · rcases hd with ⟨rfl, -⟩ | ⟨-, hzero, -⟩
      · cases hdraw
      · exact hnumber ▸ hzero
  · rcases getElem?_concat_some hk with hk | ⟨rfl, hdraw⟩
    · exact h.stamped_setPhase ht htasks (fun hs => by rw [hbefore] at hs; cases hs) k j hk
    · rcases hd with ⟨rfl, entry, rfl⟩ | ⟨rfl, -⟩
      · cases hdraw
        rw [setPhase_getElem? htasks ht, if_pos rfl]
        exact ⟨_, rfl, rfl⟩
      · cases hdraw
  · rw [setPhase_getElem? htasks ht] at hj
    rcases getElem?_concat_some hk with hk | ⟨rfl, hdraw⟩
    · rw [if_neg] at hj
      · exact h.holding k j entry call generation hk hj
      · rintro rfl
        exact hfresh k hk
    · rcases hd with ⟨rfl, entry', rfl⟩ | ⟨rfl, -⟩
      · cases hdraw
        rw [if_pos rfl] at hj
        obtain ⟨-, rfl⟩ := Phase.holding.inj (congrArg Acquire.phase (Option.some.inj hj))
        exact hnumber
      · cases hdraw
  · have hself {m : Nat} (hm : draws[m]? = some (some j)) : d ≠ some j := by
      intro hdj
      rcases hd with ⟨hd, -⟩ | ⟨hd, -⟩
      · obtain rfl := Option.some.inj (hd.symm.trans hdj)
        exact hfresh m hm
      · cases hd.symm.trans hdj
    rcases getElem?_concat_some hk with hk | ⟨rfl, hdraw⟩
    · rcases getElem?_concat_some hk' with hk' | ⟨rfl, hdraw'⟩
      · exact h.once k k' j hk hk'
      · exact absurd hdraw'.symm (hself hk)
    · rcases getElem?_concat_some hk' with hk' | ⟨rfl, -⟩
      · exact absurd hdraw.symm (hself hk')
      · rfl
  · rw [setPhase_getElem? htasks ht] at hj
    split_ifs at hj with hij
    · subst hij
      rcases hd with ⟨rfl, -⟩ | ⟨-, -, entry', rfl⟩
      · exact ⟨draws.length, List.getElem?_concat_length⟩
      · cases hj
    · obtain ⟨k, hk⟩ := h.exists_draw j entry call generation hj
      exact ⟨k, (List.getElem?_append_left (List.getElem?_eq_some_iff.mp hk).1).trans hk⟩

end Drawn

/-- Every step of the registry keeps the numbering of the draws. -/
theorem drawn_step (h : Drawn r draws) (hs : r.step action = some r') :
    Drawn r' (draws ++ r.drawnBy action) := by
  rcases step_spec hs with ⟨request, rfl, rfl⟩ | ⟨i, task, r₁, phase', ht, htransition, rfl⟩
  · show Drawn _ (draws ++ [])
    rw [List.append_nil]
    exact h.acquire request
  · rcases htransition.counter ht with ⟨hnext, hnone, hholding⟩ | ⟨hnext, hbefore, hdraw⟩
    · rw [hnone, List.append_nil]
      exact h.move ht hnext htransition.tasks htransition.isStamped hholding
    · rcases hdraw with ⟨hd, hentry⟩ | ⟨hd, hzero, hentry⟩
      · rw [hd]
        exact h.draw ht hnext htransition.tasks hbefore (.inl ⟨rfl, hentry⟩)
      · rw [hd]
        exact h.draw ht hnext htransition.tasks hbefore (.inr ⟨rfl, hzero, hentry⟩)

theorem Drawn.quiet (h : Drawn r draws) (hs : r.step action = some r')
    (hrun : ∀ i, action ≠ .run i) : Drawn r' draws := by
  have hnone : r.drawnBy action = [] := by
    cases action with
    | run i => exact absurd rfl (hrun i)
    | _ => rfl
  have := drawn_step h hs
  rwa [hnone, List.append_nil] at this

theorem Drawn.new (shardCount : Nat) (limits : LockLimits) : Drawn (new shardCount limits) [] :=
  ⟨rfl, nofun, nofun, nofun, nofun, nofun⟩

/-- The number of a draw that was skipped is a multiple of 65536. -/
theorem Drawn.skipped_mod (h : Drawn r draws) (hk : draws[k]? = some none) :
    (k + 1) % 65536 = 0 := by
  have := congrArg UInt16.toNat (h.skipped k hk)
  rwa [UInt16.toNat_ofNat'] at this

/-- Between two draws of one generation there are 65535 grants, the second included. -/
theorem Drawn.grants_of_same_generation {k₁ k₂ : Nat} (h : Drawn r draws) (hlt : k₁ < k₂)
    (hk₂ : k₂ < draws.length) (heq : UInt16.ofNat (k₁ + 1) = UInt16.ofNat (k₂ + 1)) :
    65535 ≤ (draws.drop (k₁ + 1)).countP Option.isSome := by
  have hmod : (k₁ + 1) % 65536 = (k₂ + 1) % 65536 := by
    have := congrArg UInt16.toNat heq
    rwa [UInt16.toNat_ofNat', UInt16.toNat_ofNat'] at this
  -- of the next 65536 draws one is zero
  set next := (draws.drop (k₁ + 1)).take 65536 with hnext
  have hlength : next.length = 65536 := by
    rw [hnext, List.length_take, List.length_drop]
    omega
  have hnone {i : Nat} {d : Option Nat} (hi : next[i]? = some d) (hd : ¬d.isSome = true) :
      i < 65536 ∧ (k₁ + 1 + i + 1) % 65536 = 0 := by
    have hilt : i < 65536 := hlength ▸ (List.getElem?_eq_some_iff.mp hi).1
    rw [hnext, List.getElem?_take, if_pos hilt, List.getElem?_drop] at hi
    obtain rfl : d = none := by simpa using hd
    exact ⟨hilt, h.skipped_mod hi⟩
  have hskipped : next.countP (fun d => decide ¬d.isSome = true) ≤ 1 := by
    refine countP_le_one fun i j d e hi hj hd he => ?_
    have := hnone hi (of_decide_eq_true hd)
    have := hnone hj (of_decide_eq_true he)
    omega
  have hsum := List.length_eq_countP_add_countP Option.isSome (l := next)
  have hle : next.countP Option.isSome ≤ (draws.drop (k₁ + 1)).countP Option.isSome :=
    (List.take_sublist _ _).countP_le
  omega

end LockRegistry

end Fareward.Lock
