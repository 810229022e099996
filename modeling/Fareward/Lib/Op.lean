import Mathlib.Control.Lawful

/-!
# Operations that can fail half-way

A method with `&mut self` and a `Result` keeps what it did before the error. `Op ε σ α` is such a
method: it answers a value or an error and leaves a state in either case.

`x.wp s Q` says that `Q` holds of the answer of `x` and of the state it leaves, when it is run in
the state `s`. The rules below take an operation apart at its binds, in the order of its text.
`x.Keeps f` is the frame: whatever `x` answers, it leaves `f` of the state as it was.

`sim x y s₁ s₂ Q` is the same for two runs, of `x` from `s₁` and of `y` from `s₂`: they answer the
same, and `Q` holds of the answer and of the two states they leave.
-/

namespace Fareward

theorem bind_eq_ok {ε α β : Type} {x : Except ε α} {f : α → Except ε β} {b : β} :
    (x >>= f) = .ok b ↔ ∃ a, x = .ok a ∧ f a = .ok b := by
  cases x with
  | error | ok => simp [bind, Except.bind]

/-- A method over the state `σ` with answers in `Result<α, ε>`. -/
abbrev Op (ε σ α : Type) := ExceptT ε (StateM σ) α

namespace Op

variable {ε σ τ α β : Type}

/-- The answer of the operation and the state it leaves. -/
def exec (x : Op ε σ α) (s : σ) : Except ε α × σ := StateT.run (ExceptT.run x) s

/-- The `?` operator on a pure result. -/
def lift (x : Except ε α) : Op ε σ α := ExceptT.mk (pure x)

/-- A method of the entry that `get` finds, called through the whole state; `missing` is the
answer when there is no such entry. -/
def onEntry (get : σ → Option τ) (set : σ → τ → σ) (missing : ε) (x : Op ε τ α) : Op ε σ α :=
  ExceptT.mk fun s =>
    match get s with
    | none => (.error missing, s)
    | some t => ((x.exec t).1, set s (x.exec t).2)

theorem exec_bind (x : Op ε σ α) (f : α → Op ε σ β) (s : σ) :
    (x >>= f).exec s =
      match x.exec s with
      | (.ok a, s') => (f a).exec s'
      | (.error e, s') => (.error e, s') := by
  unfold exec
  simp only [ExceptT.run_bind, StateT.run_bind]
  cases StateT.run (ExceptT.run x) s with
  | mk r => cases r <;> rfl

/-- What the operation answers and leaves satisfies `Q`. -/
def wp (x : Op ε σ α) (s : σ) (Q : Except ε α → σ → Prop) : Prop := Q (x.exec s).1 (x.exec s).2

variable {s : σ} {Q Q' : Except ε α → σ → Prop} {R : Except ε β → σ → Prop}

theorem wp_mono {x : Op ε σ α} (h : x.wp s Q) (hQ : ∀ r s', Q r s' → Q' r s') : x.wp s Q' :=
  hQ _ _ h

theorem wp_and {x : Op ε σ α} (h : x.wp s Q) (h' : x.wp s Q') :
    x.wp s fun r s' => Q r s' ∧ Q' r s' := ⟨h, h'⟩

theorem wp_exec (x : Op ε σ α) (s : σ) : x.wp s fun r s' => x.exec s = (r, s') := rfl

theorem wp_pure {a : α} (h : Q (.ok a) s) : wp (pure a) s Q := h

theorem wp_bind {x : Op ε σ α} {f : α → Op ε σ β}
    (h : x.wp s fun r s' =>
      match r with
      | .ok a => (f a).wp s' R
      | .error e => R (.error e) s') : (x >>= f).wp s R := by
  unfold wp at h ⊢
  rw [exec_bind]
  cases hx : x.exec s with
  | mk r =>
    rw [hx] at h
    cases r with
    | ok | error => exact h

/-- The rule for a call whose specification `Q` is known. -/
theorem wp_call {x : Op ε σ α} {f : α → Op ε σ β} (hx : x.wp s Q)
    (herror : ∀ e s', Q (.error e) s' → R (.error e) s')
    (hok : ∀ a s', Q (.ok a) s' → (f a).wp s' R) : (x >>= f).wp s R := by
  apply wp_bind
  apply wp_mono hx
  intro r s' h
  cases r with
  | ok a => exact hok a s' h
  | error e => exact herror e s' h

theorem wp_get_bind {f : σ → Op ε σ β} (h : (f s).wp s R) : (get >>= f).wp s R := wp_bind h

theorem wp_set {s' : σ} {Q : Except ε PUnit → σ → Prop} (h : Q (.ok ⟨⟩) s') :
    wp (set s') s Q := h

theorem wp_set_bind {s' : σ} {f : PUnit → Op ε σ β} (h : (f ⟨⟩).wp s' R) :
    (set s' >>= f).wp s R := wp_bind h

theorem wp_modify {g : σ → σ} {Q : Except ε PUnit → σ → Prop} (h : Q (.ok ⟨⟩) (g s)) :
    wp (modify g) s Q := h

theorem wp_modify_bind {g : σ → σ} {f : PUnit → Op ε σ β} (h : (f ⟨⟩).wp (g s) R) :
    (modify g >>= f).wp s R := wp_bind h

theorem wp_lift {x : Except ε α} (h : Q x s) : (lift x).wp s Q := h

theorem wp_lift_bind {x : Except ε α} {f : α → Op ε σ β}
    (herror : ∀ e, x = .error e → R (.error e) s) (hok : ∀ a, x = .ok a → (f a).wp s R) :
    (lift x >>= f).wp s R := by
  apply wp_bind
  cases hx : x with
  | ok a => exact hok a hx
  | error e => exact herror e hx

theorem exec_onEntry {get : σ → Option τ} {set : σ → τ → σ} {missing : ε} {x : Op ε τ α} {t : τ}
    (h : get s = some t) :
    (onEntry get set missing x).exec s = ((x.exec t).1, set s (x.exec t).2) := by
  show (match get s with | none => _ | some t => _) = _
  rw [h]

theorem wp_onEntry {get : σ → Option τ} {set : σ → τ → σ} {missing : ε} {x : Op ε τ α} {t : τ}
    (h : get s = some t) (hx : x.wp t fun r t' => Q r (set s t')) :
    (onEntry get set missing x).wp s Q := by
  unfold wp
  rw [exec_onEntry h]
  exact hx

/-! ### Frames -/

/-- The operation leaves `f` of the state as it is. -/
def Keeps (x : Op ε σ α) (f : σ → τ) : Prop := ∀ s, x.wp s fun _ s' => f s' = f s

namespace Keeps

variable {υ : Type} {f : σ → υ}

theorem bind {x : Op ε σ α} {g : α → Op ε σ β} (hx : x.Keeps f) (hg : ∀ a, (g a).Keeps f) :
    (x >>= g).Keeps f := fun s =>
  wp_call (hx s) (fun _ _ h => h) fun a s' h => wp_mono (hg a s') fun _ _ h' => h'.trans h

theorem pure (a : α) : Keeps (Pure.pure a : Op ε σ α) f := fun _ => rfl

theorem throw (e : ε) : Keeps (MonadExcept.throw e : Op ε σ α) f := fun _ => rfl

theorem lift (x : Except ε α) : (lift x : Op ε σ α).Keeps f := fun _ => rfl

theorem get : Keeps (MonadState.get : Op ε σ σ) f := fun _ => rfl

theorem modify {g : σ → σ} (hg : ∀ s, f (g s) = f s) :
    Keeps (modifyGet fun s => (PUnit.unit, g s) : Op ε σ PUnit) f := hg

theorem onEntry {get : σ → Option τ} {set : σ → τ → σ} {missing : ε} {x : Op ε τ α}
    (hset : ∀ s t, f (set s t) = f s) : (onEntry get set missing x).Keeps f := by
  intro s
  cases h : get s with
  | none =>
    unfold wp Op.onEntry exec
    simp only [ExceptT.run_mk, StateT.run]
    rw [h]
  | some => exact wp_onEntry h (hset s _)

end Keeps

/-! ### Two runs -/

/-- The runs answer the same, and `Q` holds of the answer and of what they leave. -/
def sim (x y : Op ε σ α) (s₁ s₂ : σ) (Q : Except ε α → σ → σ → Prop) : Prop :=
  (x.exec s₁).1 = (y.exec s₂).1 ∧ Q (x.exec s₁).1 (x.exec s₁).2 (y.exec s₂).2

section

variable {s₁ s₂ : σ} {Q Q' : Except ε α → σ → σ → Prop} {R : Except ε β → σ → σ → Prop}

theorem sim_mono {x y : Op ε σ α} (h : sim x y s₁ s₂ Q)
    (hQ : ∀ r s₁' s₂', Q r s₁' s₂' → Q' r s₁' s₂') : sim x y s₁ s₂ Q' :=
  ⟨h.1, hQ _ _ _ h.2⟩

theorem sim_call {x y : Op ε σ α} {f g : α → Op ε σ β} (h : sim x y s₁ s₂ Q)
    (herror : ∀ e s₁' s₂', Q (.error e) s₁' s₂' → R (.error e) s₁' s₂')
    (hok : ∀ a s₁' s₂', Q (.ok a) s₁' s₂' → sim (f a) (g a) s₁' s₂' R) :
    sim (x >>= f) (y >>= g) s₁ s₂ R := by
  obtain ⟨heq, hQ⟩ := h
  unfold sim
  rw [exec_bind, exec_bind]
  cases hx : x.exec s₁ with
  | mk r s₁' =>
    cases hy : y.exec s₂ with
    | mk r' s₂' =>
      rw [hx, hy] at heq
      rw [hx, hy] at hQ
      obtain rfl : r = r' := heq
      cases r with
      | ok a => exact hok a s₁' s₂' hQ
      | error e => exact ⟨rfl, herror e s₁' s₂' hQ⟩

theorem sim_pure {a : α} (h : Q (.ok a) s₁ s₂) : sim (pure a) (pure a) s₁ s₂ Q := ⟨rfl, h⟩

theorem sim_lift {x : Except ε α} (h : Q x s₁ s₂) : sim (lift x) (lift x) s₁ s₂ Q := ⟨rfl, h⟩

theorem sim_lift_bind {x : Except ε α} {f g : α → Op ε σ β}
    (herror : ∀ e, x = .error e → R (.error e) s₁ s₂)
    (hok : ∀ a, x = .ok a → sim (f a) (g a) s₁ s₂ R) :
    sim (lift x >>= f) (lift x >>= g) s₁ s₂ R := by
  have hlift : sim (lift x) (lift x) s₁ s₂ fun r s₁' s₂' => r = x ∧ s₁' = s₁ ∧ s₂' = s₂ :=
    sim_lift ⟨rfl, rfl, rfl⟩
  refine sim_call hlift ?_ ?_
  · rintro e _ _ ⟨hx, rfl, rfl⟩
    exact herror e hx.symm
  · rintro a _ _ ⟨hx, rfl, rfl⟩
    exact hok a hx.symm

theorem sim_ok_bind {a b : α} {f g : α → Op ε σ β} (h : sim (f a) (g b) s₁ s₂ R) :
    sim (lift (.ok a) >>= f) (lift (.ok b) >>= g) s₁ s₂ R := by
  unfold sim at h ⊢
  rw [exec_bind, exec_bind]
  exact h

theorem sim_get_bind {f g : σ → Op ε σ β} (h : sim (f s₁) (g s₂) s₁ s₂ R) :
    sim (get >>= f) (get >>= g) s₁ s₂ R := by
  unfold sim at h ⊢
  rw [exec_bind, exec_bind]
  exact h

theorem sim_modify {f : σ → σ} {Q : Except ε PUnit → σ → σ → Prop}
    (h : Q (.ok ⟨⟩) (f s₁) (f s₂)) : sim (modify f) (modify f) s₁ s₂ Q := ⟨rfl, h⟩

theorem sim_onEntry {get : σ → Option τ} {set : σ → τ → σ} {missing : ε} {x : Op ε τ α}
    {t₁ t₂ : τ} (h₁ : get s₁ = some t₁) (h₂ : get s₂ = some t₂)
    (hx : sim x x t₁ t₂ fun r t₁' t₂' => Q r (set s₁ t₁') (set s₂ t₂')) :
    sim (onEntry get set missing x) (onEntry get set missing x) s₁ s₂ Q := by
  unfold sim
  rw [exec_onEntry h₁, exec_onEntry h₂]
  exact hx

theorem sim_onEntry_none {get : σ → Option τ} {set : σ → τ → σ} {missing : ε} {x : Op ε τ α}
    (h₁ : get s₁ = none) (h₂ : get s₂ = none) (h : Q (.error missing) s₁ s₂) :
    sim (onEntry get set missing x) (onEntry get set missing x) s₁ s₂ Q := by
  have hexec : ∀ {s : σ}, get s = none →
      (onEntry get set missing x).exec s = (.error missing, s) := by
    intro s hs
    show (match get s with | none => _ | some t => _) = _
    rw [hs]
  unfold sim
  rw [hexec h₁, hexec h₂]
  exact ⟨rfl, h⟩

theorem sim_set {s₁' s₂' : σ} {Q : Except ε PUnit → σ → σ → Prop} (h : Q (.ok ⟨⟩) s₁' s₂') :
    sim (set s₁') (set s₂') s₁ s₂ Q := ⟨rfl, h⟩

theorem sim_set_bind {s₁' s₂' : σ} {f g : PUnit → Op ε σ β} (h : sim (f ⟨⟩) (g ⟨⟩) s₁' s₂' R) :
    sim (set s₁' >>= f) (set s₂' >>= g) s₁ s₂ R := by
  unfold sim at h ⊢
  rw [exec_bind, exec_bind]
  exact h

/-- The same run twice. -/
theorem sim_self {x : Op ε σ α} (h : x.wp s fun r s' => Q r s' s') : sim x x s s Q := ⟨rfl, h⟩

end

end Op

end Fareward
