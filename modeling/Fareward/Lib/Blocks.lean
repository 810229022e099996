import Mathlib.Data.List.Basic
import Mathlib.Data.Nat.Basic

/-!
# Feeding a function block by block

A consumer of blocks of `n` elements is given its input in pieces of any length. It keeps a state
and what has not filled a block yet; `absorb` is what one piece does to the two.

The law of such a consumer is `absorb_absorb`: two pieces one after the other do what their
concatenation does. It rests on `blocks_append`: the blocks of `xs ++ ys` are those of `xs`,
followed by those of what `xs` leaves over together with `ys`.
-/

namespace Fareward.Blocks

universe u v

variable {α : Type u} {σ : Type v} {n : ℕ} {xs ys b : List α}

/-- The first `k` blocks of `n` elements. -/
def firstBlocks (n : ℕ) : ℕ → List α → List (List α)
  | 0, _ => []
  | k + 1, xs => xs.take n :: firstBlocks n k (xs.drop n)

/-- The blocks of `n` elements that `xs` fills. -/
def blocks (n : ℕ) (xs : List α) : List (List α) := firstBlocks n (xs.length / n) xs

/-- What is left of `xs` after its blocks. -/
def leftover (n : ℕ) (xs : List α) : List α := xs.drop (n * (xs.length / n))

theorem blocks_of_lt (h : xs.length < n) : blocks n xs = [] := by
  unfold blocks
  rw [Nat.div_eq_of_lt h]
  rfl

theorem leftover_of_lt (h : xs.length < n) : leftover n xs = xs := by
  unfold leftover
  rw [Nat.div_eq_of_lt h, Nat.mul_zero, List.drop_zero]

theorem length_leftover (n : ℕ) (xs : List α) : (leftover n xs).length = xs.length % n := by
  unfold leftover
  rw [List.length_drop]
  have := Nat.div_add_mod xs.length n
  omega

theorem length_leftover_lt (hn : 0 < n) (xs : List α) : (leftover n xs).length < n := by
  rw [length_leftover]
  exact Nat.mod_lt _ hn

theorem length_append_div (hn : 0 < n) (hb : b.length = n) (xs : List α) :
    (b ++ xs).length / n = xs.length / n + 1 := by
  rw [List.length_append, hb, Nat.add_comm, Nat.add_div_right _ hn]

theorem blocks_cons (hn : 0 < n) (hb : b.length = n) (xs : List α) :
    blocks n (b ++ xs) = b :: blocks n xs := by
  unfold blocks
  rw [length_append_div hn hb, firstBlocks, List.take_left' hb, List.drop_left' hb]

theorem leftover_cons (hn : 0 < n) (hb : b.length = n) (xs : List α) :
    leftover n (b ++ xs) = leftover n xs := by
  unfold leftover
  rw [length_append_div hn hb, Nat.mul_add, Nat.mul_one, Nat.add_comm, ← List.drop_drop,
    List.drop_left' hb]

/-- A list is short, or a block and a rest. -/
theorem block_induction (hn : 0 < n) {motive : List α → Prop}
    (short : ∀ xs, xs.length < n → motive xs)
    (block : ∀ b xs, b.length = n → motive xs → motive (b ++ xs)) (xs : List α) : motive xs := by
  induction h : xs.length using Nat.strong_induction_on generalizing xs with
  | _ k ih =>
    by_cases hlt : xs.length < n
    · exact short xs hlt
    · have hb : (xs.take n).length = n := by
        rw [List.length_take]
        omega
      have hrest : motive (xs.drop n) := by
        refine ih _ ?_ _ rfl
        rw [List.length_drop]
        omega
      have := block _ _ hb hrest
      rwa [List.take_append_drop] at this

/-- What is left over of `xs` starts the blocks of `ys`. -/
theorem blocks_append (hn : 0 < n) (xs ys : List α) :
    blocks n (xs ++ ys) = blocks n xs ++ blocks n (leftover n xs ++ ys) := by
  induction xs using block_induction hn with
  | short xs hlt => rw [blocks_of_lt hlt, leftover_of_lt hlt, List.nil_append]
  | block b xs hb ih =>
    rw [List.append_assoc, blocks_cons hn hb, blocks_cons hn hb, leftover_cons hn hb, ih,
      List.cons_append]

theorem leftover_append (hn : 0 < n) (xs ys : List α) :
    leftover n (xs ++ ys) = leftover n (leftover n xs ++ ys) := by
  induction xs using block_induction hn with
  | short xs hlt => rw [leftover_of_lt hlt]
  | block b xs hb ih => rw [List.append_assoc, leftover_cons hn hb, leftover_cons hn hb, ih]

/-! ### Consumers -/

variable {f : σ → List α → σ}

/-- A piece is consumed: `x` is the state of the consumer and what it has left over. -/
def absorb (n : ℕ) (f : σ → List α → σ) (x : σ × List α) (piece : List α) : σ × List α :=
  ((blocks n (x.2 ++ piece)).foldl f x.1, leftover n (x.2 ++ piece))

theorem absorb_nil {x : σ × List α} (hx : x.2.length < n) : absorb n f x [] = x := by
  unfold absorb
  rw [List.append_nil, blocks_of_lt hx, leftover_of_lt hx]
  rfl

/-- **Two pieces do what their concatenation does.** -/
theorem absorb_absorb (hn : 0 < n) (x : σ × List α) (xs ys : List α) :
    absorb n f (absorb n f x xs) ys = absorb n f x (xs ++ ys) := by
  unfold absorb
  rw [← List.append_assoc x.2, blocks_append hn (x.2 ++ xs) ys, leftover_append hn (x.2 ++ xs) ys,
    List.foldl_append]

/-- A piece first fills the open block; only if it does is anything consumed, and the rest of the
piece meets an empty block. -/
theorem absorb_eq_ite (x : σ × List α) (hx : x.2.length < n) (piece : List α) :
    absorb n f x piece =
      if x.2.length + min piece.length (n - x.2.length) < n then
        (x.1, x.2 ++ piece.take (min piece.length (n - x.2.length)))
      else absorb n f (f x.1 (x.2 ++ piece.take (min piece.length (n - x.2.length))), [])
        (piece.drop (min piece.length (n - x.2.length))) := by
  have hn : 0 < n := by omega
  split_ifs with hshort
  · have hlt : (x.2 ++ piece).length < n := by
      rw [List.length_append]
      omega
    unfold absorb
    rw [blocks_of_lt hlt, leftover_of_lt hlt, List.take_of_length_le (by omega)]
    rfl
  · have hfull : (x.2 ++ piece.take (min piece.length (n - x.2.length))).length = n := by
      rw [List.length_append, List.length_take]
      omega
    unfold absorb
    conv_lhs => rw [← List.take_append_drop (min piece.length (n - x.2.length)) piece]
    rw [← List.append_assoc, blocks_cons hn hfull, leftover_cons hn hfull]
    rfl

/-- A whole block is consumed. -/
theorem absorb_block (hn : 0 < n) {s : σ} {xs : List α} (h : n ≤ xs.length) :
    absorb n f (s, []) xs = absorb n f (f s (xs.take n), []) (xs.drop n) := by
  rw [absorb_eq_ite _ hn]
  have hmin : min xs.length (n - ([] : List α).length) = n := by
    rw [List.length_nil]
    omega
  dsimp only
  rw [hmin, if_neg (by rw [List.length_nil]; omega), List.nil_append]

theorem absorb_of_lt {s : σ} {xs : List α} (h : xs.length < n) :
    absorb n f (s, []) xs = (s, xs) := by
  unfold absorb
  rw [List.nil_append, blocks_of_lt h, leftover_of_lt h]
  rfl

end Fareward.Blocks
