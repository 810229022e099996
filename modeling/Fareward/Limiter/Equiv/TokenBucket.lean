import Mathlib.Algebra.BigOperators.Ring.List
import Fareward.Lib.Bucket
import Fareward.Limiter.Equiv.Absorb

/-!
# The rate a token bucket allows

The bucket counts credits scaled by the period, so a refill adds `limit` per nanosecond and the
capacity is `limit * tokenPeriod`: a bucket in the sense of `Lib/Bucket.lean`, whose draws are the
scaled credits. The saturation of the `u128` arithmetic only ever adds less.
-/

namespace Fareward.Limiter

/-- One use of a bucket: when it is refilled, and the credits asked for after that, if any. -/
structure BucketUse where
  now : ℕ
  credits : Option ℕ
  deriving DecidableEq, Repr

namespace TokenBucket

/-- `refill`, then `charge` if credits are asked for and `can_charge` allows them. The answer is
what was charged. -/
def use (limit : ℕ) (u : BucketUse) : Op Failure TokenBucket ℕ := do
  modify fun b => b.refill limit u.now
  match u.credits with
  | none => return 0
  | some credits =>
    if (← get).canCharge credits then
      charge credits
      return credits
    else return 0

/-- Uses in a row. The answer is what was charged and when. -/
def uses (limit : ℕ) : List BucketUse → Op Failure TokenBucket (List (ℕ × ℕ))
  | [] => return []
  | u :: us => do
    let charged ← use limit u
    let ledger ← uses limit us
    return (u.now, charged) :: ledger

theorem debited_zero (b : TokenBucket) : b.debited 0 = b := by
  unfold debited
  rw [Nat.zero_mul, Nat.sub_zero]

/-- A use does not fail, and what it charges was in the bucket. -/
theorem use_spec (limit : ℕ) (u : BucketUse) (b : TokenBucket) :
    (use limit u).wp b fun res b' => ∃ charged, res = .ok charged ∧
      b' = (b.refill limit u.now).debited charged ∧
      charged * tokenPeriod ≤ (b.refill limit u.now).scaledTokens := by
  have hzero : ∃ charged, (Except.ok 0 : Except Failure ℕ) = .ok charged ∧
      b.refill limit u.now = (b.refill limit u.now).debited charged ∧
      charged * tokenPeriod ≤ (b.refill limit u.now).scaledTokens :=
    ⟨0, rfl, (debited_zero _).symm, by rw [Nat.zero_mul]; exact Nat.zero_le _⟩
  unfold use
  apply Op.wp_modify_bind
  cases u.credits with
  | none => exact Op.wp_pure hzero
  | some credits =>
    apply Op.wp_get_bind
    by_cases hcan : (b.refill limit u.now).canCharge credits
    · rw [if_pos hcan]
      apply Op.wp_call (chargeBucket_spec hcan)
      · rintro e s' ⟨h, _⟩
        cases h
      · rintro _ s' ⟨_, rfl⟩
        exact Op.wp_pure ⟨credits, rfl, rfl, of_decide_eq_true hcan⟩
    · rw [if_neg hcan]
      exact Op.wp_pure hzero

theorem scaledTokens_refill_le (b : TokenBucket) (limit now : ℕ) :
    (b.refill limit now).scaledTokens ≤ b.scaledTokens + limit * (now - b.lastRefill) := by
  unfold refill
  dsimp only
  rw [Nat.mul_comm limit]
  omega

theorem scaledTokens_refill_le_capacity (b : TokenBucket) (limit now : ℕ) :
    (b.refill limit now).scaledTokens ≤ capacity limit := min_le_right _ _

/-- The scaled amounts of a ledger. -/
def scaled (ledger : List (ℕ × ℕ)) : List (ℕ × ℕ) :=
  ledger.map fun e => (e.1, e.2 * tokenPeriod)

/-- The uses are the draws of a bucket that gains `limit` every nanosecond. -/
theorem uses_spec (limit : ℕ) : ∀ (us : List BucketUse) (b : TokenBucket),
    (b.lastRefill :: us.map BucketUse.now).Pairwise (· ≤ ·) →
    (uses limit us).wp b fun res b' => ∃ ledger, res = .ok ledger ∧
      Bucket.Draws (capacity limit) limit b.lastRefill b.scaledTokens (scaled ledger)
        b'.lastRefill b'.scaledTokens
  | [], b, _ => ⟨[], rfl, .nil _ _⟩
  | u :: us, b, h => by
    obtain ⟨hfirst, hrest⟩ := List.pairwise_cons.mp h
    unfold uses
    apply Op.wp_call (use_spec limit u b)
    · rintro e s' ⟨_, h, _⟩
      cases h
    · rintro charged s' ⟨_, hcharged, rfl, hle⟩
      obtain rfl := Except.ok.inj hcharged
      apply Op.wp_call (uses_spec limit us ((b.refill limit u.now).debited charged) hrest)
      · rintro e s'' ⟨_, h, _⟩
        cases h
      · rintro _ s'' ⟨ledger, hledger, hdraws⟩
        obtain rfl := Except.ok.inj hledger
        refine Op.wp_pure ⟨_, rfl, ?_⟩
        exact .cons (hfirst _ List.mem_cons_self) (scaledTokens_refill_le b limit u.now)
          (scaledTokens_refill_le_capacity b limit u.now) hle hdraws

/-- Refills in a row are one refill at the last of them. -/
theorem foldl_refill (limit : ℕ) : ∀ (instants : List ℕ) (b : TokenBucket) {last : ℕ},
    (b.lastRefill :: instants).Pairwise (· ≤ ·) → instants.getLast? = some last →
    instants.foldl (fun b now => b.refill limit now) b = b.refill limit last
  | [], _, _, _, hlast => by cases hlast
  | [now], b, last, _, hlast => by
    cases hlast
    rfl
  | now :: next :: instants, b, last, h, hlast => by
    obtain ⟨hfirst, hrest⟩ := List.pairwise_cons.mp h
    have hlast : (next :: instants).getLast? = some last := by
      rwa [List.getLast?_cons_cons] at hlast
    have hmem : last ∈ next :: instants := List.mem_of_getLast? hlast
    rw [List.foldl_cons, foldl_refill limit (next :: instants) (b.refill limit now) hrest hlast]
    exact refill_absorb (hfirst now List.mem_cons_self)
      ((List.pairwise_cons.mp hrest).1 last hmem)

/-- The credits of a ledger charged in a window, with its ends. -/
def chargedIn (a b : ℕ) (ledger : List (ℕ × ℕ)) : ℕ :=
  ((ledger.filter fun e => a ≤ e.1 ∧ e.1 ≤ b).map Prod.snd).sum

theorem drawn_scaled (a b : ℕ) (ledger : List (ℕ × ℕ)) :
    Bucket.drawn a b (scaled ledger) = chargedIn a b ledger * tokenPeriod := by
  unfold Bucket.drawn chargedIn scaled
  rw [List.filter_map, List.map_map, ← List.sum_map_mul_right]
  rfl

/-- **The rate bound of a token bucket**, for every limit and every sequence of uses in the order of
their clocks. No charge fails, the level stays within the capacity, what is charged in any window
is at most the limit and what the window's length refills, and several refills without a charge
are one. -/
theorem token_bucket_rate_bound (limit start : ℕ) (us : List BucketUse)
    (h : (start :: us.map BucketUse.now).Pairwise (· ≤ ·)) :
    ∃ ledger bucket, (uses limit us).exec (full limit start) = (.ok ledger, bucket) ∧
      bucket.scaledTokens ≤ capacity limit ∧
      (∀ a b, a ≤ b →
        chargedIn a b ledger * tokenPeriod ≤ limit * tokenPeriod + limit * (b - a)) ∧
      ∀ (instants : List ℕ) (last : ℕ), (bucket.lastRefill :: instants).Pairwise (· ≤ ·) →
        instants.getLast? = some last →
        instants.foldl (fun b now => b.refill limit now) bucket = bucket.refill limit last := by
  obtain ⟨ledger, hok, hdraws⟩ := uses_spec limit us (full limit start) h
  refine ⟨ledger, _, Prod.ext hok rfl, hdraws.level_le le_rfl, ?_, ?_⟩
  · intro a b hab
    rw [← drawn_scaled]
    exact hdraws.drawn_le hab
  · intro instants last hsorted hlast
    exact foldl_refill limit instants _ hsorted hlast

/-- A limit of ten: all of it at once, nothing more at that moment, one credit a second later. -/
theorem token_bucket_rate_bound_ten :
    ∃ ledger bucket, (uses 10 [⟨5, some 10⟩, ⟨5, some 1⟩, ⟨5 + 10 ^ 9, some 1⟩]).exec (full 10 5) =
        (.ok ledger, bucket) ∧
      chargedIn 5 (5 + 10 ^ 9) ledger * tokenPeriod ≤ 10 * tokenPeriod + 10 * 10 ^ 9 := by
  obtain ⟨ledger, bucket, hrun, _, hrate, _⟩ := token_bucket_rate_bound 10 5
    [⟨5, some 10⟩, ⟨5, some 1⟩, ⟨5 + 10 ^ 9, some 1⟩] (by simp)
  exact ⟨ledger, bucket, hrun, hrate 5 (5 + 10 ^ 9) (Nat.le_add_right _ _)⟩

end TokenBucket

end Fareward.Limiter
