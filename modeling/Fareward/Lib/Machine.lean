import Mathlib.Data.Option.Basic

/-!
# Machines, guarded runs and the invariant rule

A machine is a partial step function `step : σ → α → Option σ`: `none` says that the action is not
enabled in the state. A *guard* `ok : σ → α → Prop` restricts which enabled actions a run may
take; it carries the assumptions a result makes on the environment (the order of clock readings,
which store calls fail), so that the machine itself stays free of them.

* `Reaches step ok s₀ s`: some run of guarded steps leads from `s₀` to `s`.
* `Reaches.invariant`: what holds at `s₀` and is kept by every guarded step holds at `s`.
* `runList`: the same as a function of the list of actions, where the guard is decidable, and
  `exists_of_runList`, by which a concrete run is shown to reach what it reaches.
-/

namespace Fareward

universe u v

variable {σ : Type u} {α : Type v}

/-- `s` is reached from `s₀` by steps that meet the guard. -/
inductive Reaches (step : σ → α → Option σ) (ok : σ → α → Prop) (s₀ : σ) : σ → Prop
  | refl : Reaches step ok s₀ s₀
  | tail {s s' : σ} {a : α} (h : Reaches step ok s₀ s) (hok : ok s a)
      (hs : step s a = some s') : Reaches step ok s₀ s'

namespace Reaches

variable {step : σ → α → Option σ} {ok : σ → α → Prop} {s₀ s s' : σ}

/-- **The invariant rule.** A property of the start state that every guarded step keeps holds in
every state reached. The step may use that its source state is reached. -/
theorem invariant {I : σ → Prop} (h0 : I s₀)
    (hstep : ∀ s a s', Reaches step ok s₀ s → I s → ok s a → step s a = some s' → I s')
    (h : Reaches step ok s₀ s) : I s := by
  induction h with
  | refl => exact h0
  | tail h hok hs ih => exact hstep _ _ _ h ih hok hs

theorem trans (h : Reaches step ok s₀ s) (h' : Reaches step ok s s') : Reaches step ok s₀ s' := by
  induction h' with
  | refl => exact h
  | tail _ hok hs ih => exact ih.tail hok hs

end Reaches

/-- The run of a list of actions, first action first; `none` when one of them is not enabled or
does not meet the guard. -/
def runList (step : σ → α → Option σ) (ok : σ → α → Prop) [∀ s a, Decidable (ok s a)] :
    σ → List α → Option σ
  | s, [] => some s
  | s, a :: as => if ok s a then (step s a).bind fun s' => runList step ok s' as else none

theorem Reaches.of_runList {step : σ → α → Option σ} {ok : σ → α → Prop}
    [∀ s a, Decidable (ok s a)] :
    ∀ {as : List α} {s s' : σ}, runList step ok s as = some s' → Reaches step ok s s'
  | [], s, s', h => by
    obtain rfl : s = s' := Option.some.inj h
    exact .refl
  | a :: as, s, s', h => by
    obtain ⟨hok, h⟩ := Option.ite_none_right_eq_some.mp h
    obtain ⟨s₁, hs₁, h₁⟩ := Option.bind_eq_some_iff.mp h
    exact (Reaches.refl.tail hok hs₁).trans (of_runList h₁)

/-- A state with the property is reached, if the run of the actions ends in one. -/
theorem exists_of_runList {step : σ → α → Option σ} {ok : σ → α → Prop}
    [∀ s a, Decidable (ok s a)] {P : σ → Prop} {s₀ : σ} (actions : List α)
    (h : ∃ s ∈ runList step ok s₀ actions, P s) : ∃ s, Reaches step ok s₀ s ∧ P s := by
  obtain ⟨s, hs, hP⟩ := h
  exact ⟨s, .of_runList hs, hP⟩

section

variable {step : σ → α → Option σ} {ok : σ → α → Prop} [∀ s a, Decidable (ok s a)]
  {P P' Q : σ → Prop} {s₀ : σ}

/-- The same, with what follows for the state from its being reached. -/
theorem exists_and_of_runList (actions : List α) (h : ∃ s ∈ runList step ok s₀ actions, P s)
    (hQ : ∀ s, Reaches step ok s₀ s → P s → Q s) : ∃ s, Reaches step ok s₀ s ∧ P s ∧ Q s := by
  obtain ⟨s, hs, hP⟩ := h
  exact ⟨s, .of_runList hs, hP, hQ s (.of_runList hs) hP⟩

theorem exists_and_and_of_runList (actions : List α)
    (h : ∃ s ∈ runList step ok s₀ actions, P s ∧ P' s)
    (hQ : ∀ s, Reaches step ok s₀ s → P s → P' s → Q s) :
    ∃ s, Reaches step ok s₀ s ∧ P s ∧ P' s ∧ Q s := by
  obtain ⟨s, hs, hP, hP'⟩ := h
  exact ⟨s, .of_runList hs, hP, hP', hQ s (.of_runList hs) hP hP'⟩

end

end Fareward
