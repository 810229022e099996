import Fareward.Lib.Blocks
import Mathlib.Logic.Function.Iterate
import Mathlib.Tactic.Ring

/-!
# SipHash-`c`-`d`

The keyed hash as it is specified, over the whole message at once. The message is padded to a
multiple of eight bytes: zeros, and its length modulo 256 in the last byte. Its little-endian words
are then compressed one after the other, with `c` rounds each, and `d` rounds end the computation.
-/

namespace Fareward.SipHash

/-- The value of a string of bytes, least significant byte first. -/
def leNat : List UInt8 → ℕ
  | [] => 0
  | byte :: bytes => byte.toNat + 256 * leNat bytes

/-- The little-endian word of some bytes. -/
def leWord (bytes : List UInt8) : UInt64 := UInt64.ofNat (leNat bytes)

def rotateLeft (x n : UInt64) : UInt64 := x <<< n ||| x >>> (64 - n)

/-- The four words of the state. -/
@[ext]
structure State where
  v0 : UInt64
  v1 : UInt64
  v2 : UInt64
  v3 : UInt64
  deriving DecidableEq

/-- The state at the start, under the key `k0`, `k1`. -/
def initial (k0 k1 : UInt64) : State where
  v0 := k0 ^^^ 0x736f6d6570736575
  v1 := k1 ^^^ 0x646f72616e646f6d
  v2 := k0 ^^^ 0x6c7967656e657261
  v3 := k1 ^^^ 0x7465646279746573

/-- SipRound. -/
def sipRound (s : State) : State :=
  let v0 := s.v0 + s.v1
  let v2 := s.v2 + s.v3
  let v1 := rotateLeft s.v1 13
  let v3 := rotateLeft s.v3 16
  let v1 := v1 ^^^ v0
  let v3 := v3 ^^^ v2
  let v0 := rotateLeft v0 32
  let v2 := v2 + v1
  let v0 := v0 + v3
  let v1 := rotateLeft v1 17
  let v3 := rotateLeft v3 21
  let v1 := v1 ^^^ v2
  let v3 := v3 ^^^ v0
  let v2 := rotateLeft v2 32
  ⟨v0, v1, v2, v3⟩

/-- The compression of one word. -/
def compress (c : ℕ) (s : State) (m : UInt64) : State :=
  let s := sipRound^[c] { s with v3 := s.v3 ^^^ m }
  { s with v0 := s.v0 ^^^ m }

/-- The finalization. -/
def finalize (d : ℕ) (s : State) : UInt64 :=
  let s := sipRound^[d] { s with v2 := s.v2 ^^^ 0xff }
  s.v0 ^^^ s.v1 ^^^ s.v2 ^^^ s.v3

/-- The padding of a message. -/
def padding (message : List UInt8) : List UInt8 :=
  List.replicate (7 - message.length % 8) 0 ++ [UInt8.ofNat message.length]

/-- SipHash-`c`-`d` of a message. -/
def sipHash (c d : ℕ) (k0 k1 : UInt64) (message : List UInt8) : UInt64 :=
  finalize d (((Blocks.blocks 8 (message ++ padding message)).map leWord).foldl (compress c)
    (initial k0 k1))

/-! ### The last word -/

theorem leNat_lt (bytes : List UInt8) : leNat bytes < 256 ^ bytes.length := by
  induction bytes with
  | nil => exact Nat.one_pos
  | cons byte =>
    have hbyte := byte.toNat_lt
    rw [leNat, List.length_cons, Nat.pow_succ]
    omega

theorem leNat_append (xs ys : List UInt8) :
    leNat (xs ++ ys) = leNat xs + 256 ^ xs.length * leNat ys := by
  induction xs with
  | nil => simp [leNat]
  | cons byte xs ih =>
    rw [List.cons_append, leNat, leNat, ih, List.length_cons, Nat.pow_succ]
    ring

theorem leNat_replicate_zero (k : ℕ) (ys : List UInt8) :
    leNat (List.replicate k 0 ++ ys) = 256 ^ k * leNat ys := by
  induction k with
  | zero => simp
  | succ k ih =>
    rw [List.replicate_succ, List.cons_append, leNat, ih, Nat.pow_succ]
    simp only [UInt8.toNat_zero, Nat.zero_add]
    ring

/-- The message is compressed up to its last, padded word. -/
theorem sipHash_eq (c d : ℕ) (k0 k1 : UInt64) (message : List UInt8) :
    sipHash c d k0 k1 message =
      finalize d (compress c
        ((Blocks.absorb 8 (fun s block => compress c s (leWord block)) (initial k0 k1, [])
          message).1)
        (leWord (Blocks.leftover 8 message ++ padding message))) := by
  have hlast : (Blocks.leftover 8 message ++ padding message).length = 8 := by
    rw [List.length_append, Blocks.length_leftover, padding, List.length_append,
      List.length_replicate]
    have := Nat.mod_lt message.length (show 0 < 8 by decide)
    simp only [List.length_singleton]
    omega
  have hone : Blocks.blocks 8 (Blocks.leftover 8 message ++ padding message) =
      [Blocks.leftover 8 message ++ padding message] := by
    have hnil : Blocks.blocks 8 ([] : List UInt8) = [] := Blocks.blocks_of_lt (by decide)
    have := Blocks.blocks_cons (by decide) hlast []
    rwa [List.append_nil, hnil] at this
  unfold sipHash Blocks.absorb
  rw [List.foldl_map, Blocks.blocks_append (by decide), hone, List.foldl_append]
  rfl

/-- The last word as a shifted length and the bytes that are left over. -/
theorem leNat_last (message : List UInt8) :
    leNat (Blocks.leftover 8 message ++ padding message) =
      leNat (Blocks.leftover 8 message) + 2 ^ 56 * (message.length % 256) := by
  have hmod := Nat.mod_lt message.length (show 0 < 8 by decide)
  have hpow : 256 ^ (message.length % 8) * 256 ^ (7 - message.length % 8) = 2 ^ 56 := by
    rw [← Nat.pow_add, show message.length % 8 + (7 - message.length % 8) = 7 by omega]
    rfl
  rw [leNat_append, Blocks.length_leftover, padding, leNat_replicate_zero, ← Nat.mul_assoc, hpow]
  simp [leNat]

/-! ### Words from shifted bytes -/

/-- A byte at its place in a word. -/
theorem toUInt64_shiftLeft (byte : UInt8) {i : ℕ} (hi : i < 8) :
    byte.toUInt64 <<< UInt64.ofNat (8 * i) = UInt64.ofNat (byte.toNat <<< (8 * i)) := by
  apply UInt64.toNat_inj.mp
  have hword : 8 * i < 2 ^ 64 := by omega
  have hshift : 8 * i % 64 = 8 * i := Nat.mod_eq_of_lt (by omega)
  rw [UInt64.toNat_shiftLeft, UInt64.toNat_ofNat_of_lt' hword, hshift, UInt64.toNat_ofNat',
    UInt8.toNat_toUInt64]

theorem or_shiftLeft_eq (byte : UInt8) (rest : ℕ) :
    byte.toNat ||| rest <<< 8 = byte.toNat + 256 * rest := by
  rw [Nat.or_comm, ← Nat.shiftLeft_add_eq_or_of_lt byte.toNat_lt, Nat.shiftLeft_eq]
  ring

/-- Or-ing the bytes to their places is adding their value. -/
theorem foldl_or_shiftLeft :
    ∀ {bytes : List UInt8} {w : UInt64} {j : ℕ}, j + bytes.length ≤ 8 →
      (bytes.zipIdx j).foldl (fun w x => w ||| x.1.toUInt64 <<< UInt64.ofNat (8 * x.2)) w =
        w ||| UInt64.ofNat (leNat bytes <<< (8 * j))
  | [], w, j, _ => by
    rw [leNat, Nat.zero_shiftLeft]
    exact (UInt64.or_zero).symm
  | byte :: bytes, w, j, h => by
    rw [List.length_cons] at h
    rw [List.zipIdx_cons, List.foldl_cons, foldl_or_shiftLeft (by omega),
      toUInt64_shiftLeft byte (by omega), UInt64.or_assoc, ← UInt64.ofNat_or, leNat,
      ← or_shiftLeft_eq, Nat.shiftLeft_or_distrib, ← Nat.shiftLeft_add]
    rw [show 8 + 8 * j = 8 * (j + 1) by ring]

end Fareward.SipHash
