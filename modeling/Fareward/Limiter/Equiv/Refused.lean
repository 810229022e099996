import Fareward.Limiter.Equiv.Twins

/-!
# A refused charge

A refused charge makes moves only (`Move`), and each of them keeps the process with it `Alike` the
process without it: a refresh is absorbed by later ones, and what it loads belongs to a subject that
no later call works on.
-/

namespace Fareward.Limiter

open Relation

variable {scene : Scene} {config : Config} {fates : Fates} {r : Request} {c u t : Int} {now : ℕ}
  {store : LimiterStore} {p p₁ p₂ : Process} {l₀ l l' : RateLimiter}

theorem optionRel_refl {α : Type} {rel : α → α → Prop} (h : ∀ x, rel x x) (a : Option α) :
    Option.Rel rel a a := by
  cases a with
  | none => exact .none
  | some x => exact .some (h x)

/-- The scene of a charge of company `c` in the process. -/
def Process.sceneOf (p : Process) (c t : Int) (now : ℕ) : Scene :=
  ⟨c, t, now, fun u => (p.limiter.subjects.lookup (c, u)).isSome⟩

theorem SubjectAgrees.trans {limits : ScopeLimits} {s₁ s₂ s₃ : SubjectState}
    (h : SubjectAgrees limits t now s₁ s₂) (h' : SubjectAgrees limits t now s₂ s₃) :
    SubjectAgrees limits t now s₁ s₃ :=
  fun t' now' ht hnow => (h t' now' ht hnow).trans (h' t' now' ht hnow)

namespace Alike

theorem refl (hbudget : (p.limiter.budgets.lookup c).isSome) :
    Alike (p.sceneOf c t now) config p p where
  access := rfl
  platform := rfl
  subjects _ _ := optionRel_refl (fun _ => ⟨fun _ => rfl, .refl _ _ _ _⟩) _
  residents _ hu := hu
  budgets _ := optionRel_refl (fun b => ⟨fun _ => .refl b, .refl _ b⟩) _
  budget := hbudget
  usage _ _ := rfl
  loaded _ := .inl rfl
  storedUsage := rfl
  storedBudgets := rfl
  storedUsers := rfl
  storedExtras _ _ := rfl

theorem subject_of_resident (h : Alike scene config p₁ p₂) (hu : scene.resident u) :
    (p₂.limiter.subjects.lookup (scene.c, u)).isSome := by
  rw [← h.isSome_subject (scene.c, u) (.inr hu)]
  exact h.residents u hu

theorem subjectAgrees {s₁ s₂ : SubjectState} (h : Alike scene config p₁ p₂)
    (hu : scene.resident u) (hs₁ : p₁.limiter.subjects.lookup (scene.c, u) = some s₁)
    (hs₂ : p₂.limiter.subjects.lookup (scene.c, u) = some s₂) :
    SubjectAgrees (config.policy.limitsOf u) scene.t scene.now s₁ s₂ := by
  have hrel := h.subjects (scene.c, u) (.inr hu)
  rw [hs₁, hs₂] at hrel
  cases hrel with
  | some hagrees => exact hagrees.2

theorem budgetAgrees {b₁ b₂ : CompanyBudgetState} (h : Alike scene config p₁ p₂)
    (hb₁ : p₁.limiter.budgets.lookup scene.c = some b₁)
    (hb₂ : p₂.limiter.budgets.lookup scene.c = some b₂) : BudgetAgrees scene.t b₁ b₂ := by
  have hrel := h.budgets scene.c
  rw [hb₁, hb₂] at hrel
  cases hrel with
  | some hagrees => exact hagrees.2

theorem setSubject_right {s : SubjectState} (h : Alike scene config p₁ p₂)
    (hs : scene.resident u → ∀ s₁, p₁.limiter.subjects.lookup (scene.c, u) = some s₁ →
      SubjectAgrees (config.policy.limitsOf u) scene.t scene.now s₁ s) :
    Alike scene config p₁ { p₂ with limiter := p₂.limiter.setSubject (scene.c, u) s } := by
  refine { h with subjects := fun key hused => ?_ }
  show Option.Rel _ _ ((p₂.limiter.subjects.insert (scene.c, u) s).lookup key)
  rw [lookup_insert_eq]
  split_ifs with heq
  · subst heq
    have hu : scene.resident u := hused.resolve_left (absurd rfl)
    obtain ⟨s₁, hs₁⟩ := Option.isSome_iff_exists.mp (h.residents u hu)
    rw [hs₁]
    exact .some ⟨absurd rfl, hs hu s₁ hs₁⟩
  · exact h.subjects key hused

theorem setBudget_right {b : CompanyBudgetState} (h : Alike scene config p₁ p₂)
    (hb : ∀ b₁, p₁.limiter.budgets.lookup scene.c = some b₁ → BudgetAgrees scene.t b₁ b) :
    Alike scene config p₁ { p₂ with limiter := p₂.limiter.setBudget scene.c b } := by
  refine { h with budgets := fun c => ?_ }
  show Option.Rel _ _ ((p₂.limiter.budgets.insert scene.c b).lookup c)
  rw [lookup_insert_eq]
  split_ifs with heq
  · subst heq
    obtain ⟨b₁, hb₁⟩ := Option.isSome_iff_exists.mp h.budget
    rw [hb₁]
    exact .some ⟨absurd rfl, hb b₁ hb₁⟩
  · exact h.budgets c

/-- A clean record loaded in the second run, of a subject that was not resident. -/
theorem insertUsage_right {key : UsageKey} {record : UsageRecord} (h : Alike scene config p₁ p₂)
    (hkey : ¬scene.Used key.companyId key.userId) (hnone : p₂.limiter.usage.lookup key = none)
    (hclean : record.isClean = true) :
    Alike scene config p₁
      { p₂ with limiter := p₂.limiter.setUsage (p₂.limiter.usage.insert key record) } := by
  have hlookup : ∀ key', key' ≠ key → (p₂.limiter.usage.insert key record).lookup key' =
      p₂.limiter.usage.lookup key' := fun key' hne => Finmap.lookup_insert_of_ne _ hne
  refine { h with usage := fun key' hused => ?_, loaded := fun key' => ?_ }
  · have hne : key' ≠ key := fun heq => hkey (heq ▸ hused)
    exact (h.usage key' hused).trans (hlookup key' hne).symm
  · by_cases heq : key' = key
    · subst heq
      refine .inr ⟨?_, record, Finmap.lookup_insert _, hclean⟩
      rcases h.loaded key' with hsame | ⟨hnone₁, -⟩
      · exact hsame.trans hnone
      · exact hnone₁
    · have hloaded := h.loaded key'
      rw [← hlookup key' heq] at hloaded
      exact hloaded

end Alike

/-- The memory with the caches of another one. -/
def RateLimiter.withCaches (l l₀ : RateLimiter) : RateLimiter :=
  { l with access := l₀.access, platformUsage := l₀.platformUsage }

/-- What the moves of a refused charge have done, apart from the caches. -/
structure Absorbs (scene : Scene) (config : Config) (store : LimiterStore) (l₀ l : RateLimiter) :
    Prop where
  alike : Alike scene config ⟨l₀, store⟩ ⟨l.withCaches l₀, store⟩
  behind : l.Behind scene.c scene.t scene.now

theorem Absorbs.move (h : Absorbs scene config store l₀ l)
    (hmove : Move config store scene.c u scene.t scene.now l l') :
    Absorbs scene config store l₀ l' := by
  refine ⟨?_, h.behind.move (fun _ => ⟨le_rfl, le_rfl⟩) hmove⟩
  cases hmove with
  | access | platform => exact h.alike
  | budget b hnone =>
    have hsome : (l.budgets.lookup scene.c).isSome :=
      (h.alike.isSome_budget scene.c).symm.trans h.alike.budget
    rw [hnone] at hsome
    cases hsome
  | usage key hc hsubject hnone =>
    refine h.alike.insertUsage_right (fun hused => ?_) hnone (decide_eq_true rfl)
    have hsome : (l.subjects.lookup (scene.c, key.userId)).isSome :=
      h.alike.subject_of_resident (hused.resolve_left (absurd hc))
    rw [hsubject] at hsome
    cases hsome
  | subject userId s _ hnone =>
    refine h.alike.setSubject_right fun hresident => ?_
    have hsome : (l.subjects.lookup (scene.c, userId)).isSome :=
      h.alike.subject_of_resident hresident
    rw [hnone] at hsome
    cases hsome
  | refreshSubject userId s _ hs =>
    refine h.alike.setSubject_right fun hresident s₁ hs₁ => ?_
    exact (h.alike.subjectAgrees hresident hs₁ hs).trans
      (.refresh _ (h.behind.subjects userId s hs))
  | refreshMonth b hb =>
    refine h.alike.setBudget_right fun b₁ hb₁ => ?_
    exact (h.alike.budgetAgrees hb₁ hb).trans (.refreshMonth (h.behind.budget b hb).month)
  | refreshDay b hb =>
    refine h.alike.setBudget_right fun b₁ hb₁ => ?_
    exact (h.alike.budgetAgrees hb₁ hb).trans (.refreshDay (h.behind.budget b hb).day)

theorem Absorbs.moves (h : Absorbs scene config store l₀ l)
    (hpath : ReflTransGen (Move config store scene.c u scene.t scene.now) l l') :
    Absorbs scene config store l₀ l' := by
  induction hpath with
  | refl => exact h
  | tail _ hmove ih => exact ih.move hmove

/-- The caches of the process. -/
def Process.caches (p : Process) : (Finmap fun _ : Int × Int => UserAccessState) × UsageMap :=
  (p.limiter.access, p.limiter.platformUsage)

theorem untouched_caches : Untouched Process.caches :=
  ⟨fun _ _ _ => rfl, fun _ _ _ => rfl, fun _ _ => rfl⟩

/-- A charge that asks for no authorization and is refused touches no cache. -/
theorem caches_of_refused (hplain : r.requestsAuthorization = false) (p : Process) :
    (admitAt config fates r t now).wp p fun outcome p' =>
      ∀ violation extra, outcome = .ok ⟨.creditViolation violation, extra⟩ →
        p'.caches = p.caches := by
  have hbefore : (beforeDebit config fates r t now).wp p fun res p' =>
      ∀ decision, res = .ok (.error decision) → p'.caches = p.caches := by
    refine Op.wp_lift_bind (fun _ _ => nofun) fun _ _ => ?_
    unfold authorize
    rw [hplain]
    refine Op.wp_bind (Op.wp_pure ?_)
    refine Op.wp_call (keeps_loadStates untouched_caches p) (fun _ _ _ => nofun)
      fun _ p₁ h₁ => ?_
    refine Op.wp_call (keeps_refreshStates untouched_caches p₁) (fun _ _ _ => nofun)
      fun _ p₂ h₂ => ?_
    refine Op.wp_call (keeps_judge Process.caches p₂) (fun _ _ _ => nofun) fun judged p₃ h₃ => ?_
    cases judged with
    | error => exact Op.wp_pure fun _ _ => h₃.trans (h₂.trans h₁)
    | ok =>
      refine Op.wp_lift_bind (fun _ _ => nofun) fun _ _ => ?_
      refine Op.wp_call (Op.wp_exec _ p₃) (fun _ _ _ => nofun) fun _ p₄ _ => ?_
      exact Op.wp_pure nofun
  refine Op.wp_call hbefore (fun _ _ _ => nofun) ?_
  rintro (decision | ⟨verdict, extraCpu⟩) p₁ h
  · exact Op.wp_pure fun _ _ _ => h decision rfl
  · refine Op.wp_call (Op.wp_exec _ p₁) (fun _ _ _ => nofun) fun _ p₂ _ => ?_
    exact Op.wp_pure nofun

/-- **A refused charge** leaves a process like the one it found. -/
theorem alike_of_refused {violation : LimitViolation}
    {extra : ℕ} (hr : r.Parsed) (hplain : r.requestsAuthorization = false)
    (hbehind : p.limiter.Behind r.companyId t now)
    (hbudget : (p.limiter.budgets.lookup r.companyId).isSome)
    (hexec : (admitAt config fates r t now).exec p =
      (.ok ⟨.creditViolation violation, extra⟩, p₂)) :
    Alike (p.sceneOf r.companyId t now) config p p₂ := by
  have hspec : (admitAt config fates r t now).wp p _ := admitAt_spec hr.user_ne p
  have hcaches : (admitAt config fates r t now).wp p _ := caches_of_refused hplain p
  unfold Op.wp at hspec hcaches
  rw [hexec] at hspec hcaches
  obtain ⟨hstore, hadmits⟩ := hspec
  obtain ⟨haccess, hplatform⟩ := Prod.mk.inj (hcaches violation extra rfl)
  cases hadmits with
  | refused hpath =>
    have habsorbs : Absorbs (p.sceneOf r.companyId t now) config p.store p.limiter p.limiter :=
      ⟨.refl hbudget, hbehind⟩
    have halike := (habsorbs.moves hpath).alike
    have hsame : p₂.limiter.withCaches p.limiter = p₂.limiter := by
      unfold RateLimiter.withCaches
      rw [← haccess, ← hplatform]
    rw [hsame] at halike
    have hp₂ : p₂ = ⟨p₂.limiter, p.store⟩ := Process.ext rfl hstore
    rw [hp₂]
    exact halike

end Fareward.Limiter
