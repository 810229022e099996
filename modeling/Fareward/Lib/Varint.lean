import Mathlib.Algebra.Order.Ring.Nat
import Mathlib.Tactic.Ring

/-!
# Numbers in groups of seven bits

A run of bytes in which all but the last have the high bit set (`IsRun`) holds a number in its low
seven bits, the least significant group first (`value`). The runs are a prefix code
(`IsRun.append_inj`): a byte string starts with at most one.

A reader gathers the groups in an accumulator of a fixed width, where the bits above the width are
lost: `gather_eq` says that it has the number modulo the width. `write` is the shortest run of a
number.
-/

namespace Fareward.Varint

variable {group shift width acc n : ℕ}

/-- The number of a run. -/
def value : List UInt8 → ℕ
  | [] => 0
  | byte :: bytes => byte.toNat % 128 + 128 * value bytes

/-- Only the last byte has its high bit clear. -/
def IsRun : List UInt8 → Prop
  | [] => False
  | byte :: bytes => if byte.toNat < 128 then bytes = [] else IsRun bytes

instance decidableIsRun : ∀ run : List UInt8, Decidable (IsRun run)
  | [] => isFalse id
  | byte :: bytes =>
    if h : byte.toNat < 128 then decidable_of_iff (bytes = []) (by rw [IsRun, if_pos h])
    else @decidable_of_iff _ _ (by rw [IsRun, if_neg h]) (decidableIsRun bytes)

theorem IsRun.append_inj : ∀ {run run' rest rest' : List UInt8}, IsRun run → IsRun run' →
    run ++ rest = run' ++ rest' → run = run' ∧ rest = rest'
  | byte :: bytes, byte' :: bytes', rest, rest', h, h', heq => by
    obtain ⟨rfl, htail⟩ := List.cons.inj heq
    unfold IsRun at h h'
    by_cases hlast : byte.toNat < 128
    · rw [if_pos hlast] at h h'
      subst h h'
      exact ⟨rfl, htail⟩
    · rw [if_neg hlast] at h h'
      obtain ⟨hrun, hrest⟩ := IsRun.append_inj h h' htail
      exact ⟨congrArg _ hrun, hrest⟩

theorem and_high_eq_zero (byte : UInt8) : byte &&& 0x80 = 0 ↔ byte.toNat < 128 := by
  have hall : ∀ i : Fin 256, (UInt8.ofNat i) &&& 0x80 = 0 ↔ i.val < 128 := by decide +kernel
  have h := hall ⟨byte.toNat, byte.toNat_lt⟩
  rwa [UInt8.ofNat_toNat] at h

theorem toNat_and_low (byte : UInt8) : (byte &&& 0x7F).toNat = byte.toNat % 128 := by
  rw [UInt8.toNat_and]
  exact Nat.and_two_pow_sub_one_eq_mod byte.toNat 7

/-! ### Gathering in a fixed width -/

/-- The groups of the bytes, put into the accumulator from a bit on. -/
def gather (width : ℕ) : ℕ → ℕ → List UInt8 → ℕ
  | acc, _, [] => acc
  | acc, shift, byte :: bytes =>
    gather width (acc ||| (byte.toNat % 128) <<< shift % 2 ^ width) (shift + 7) bytes

theorem shiftLeft_mod (hshift : shift ≤ width) :
    group <<< shift % 2 ^ width = (group % 2 ^ (width - shift)) <<< shift := by
  obtain ⟨k, rfl⟩ := Nat.exists_eq_add_of_le hshift
  rw [Nat.shiftLeft_eq, Nat.shiftLeft_eq, Nat.add_sub_cancel_left, Nat.pow_add,
    Nat.mul_comm (2 ^ shift), Nat.mul_mod_mul_right]

theorem or_shiftLeft_mod (hacc : acc < 2 ^ shift) (hshift : shift ≤ width) :
    acc ||| group <<< shift % 2 ^ width = acc + group * 2 ^ shift % 2 ^ width := by
  rw [Nat.or_comm, ← Nat.shiftLeft_eq, shiftLeft_mod hshift,
    ← Nat.shiftLeft_add_eq_or_of_lt hacc, Nat.add_comm]

theorem or_shiftLeft_mod_lt (hacc : acc < 2 ^ shift) (hshift : shift ≤ width) :
    acc ||| group <<< shift % 2 ^ width < 2 ^ width :=
  Nat.or_lt_two_pow (hacc.trans_le (Nat.pow_le_pow_right (by decide) hshift))
    (Nat.mod_lt _ (Nat.pow_pos (by decide)))

/-- What the accumulator holds after the groups: their number modulo the width. -/
theorem gather_eq : ∀ {acc shift : ℕ} {bytes : List UInt8}, acc < 2 ^ shift →
    acc < 2 ^ width → shift + 7 * bytes.length ≤ width + 7 →
    gather width acc shift bytes = (acc + value bytes * 2 ^ shift) % 2 ^ width
  | acc, shift, [], _, hwidth, _ => by
    rw [gather, value, Nat.zero_mul, Nat.add_zero, Nat.mod_eq_of_lt hwidth]
  | acc, shift, byte :: bytes, hacc, hwidth, hlength => by
    rw [List.length_cons] at hlength
    have hshift : shift ≤ width := by omega
    have hgroup : byte.toNat % 128 + 1 ≤ 128 := Nat.mod_lt _ (by decide)
    have hnext : acc ||| (byte.toNat % 128) <<< shift % 2 ^ width < 2 ^ (shift + 7) := by
      rw [or_shiftLeft_mod hacc hshift]
      calc acc + byte.toNat % 128 * 2 ^ shift % 2 ^ width
          ≤ acc + byte.toNat % 128 * 2 ^ shift := Nat.add_le_add_left (Nat.mod_le _ _) _
        _ < 2 ^ shift + byte.toNat % 128 * 2 ^ shift := Nat.add_lt_add_right hacc _
        _ = (byte.toNat % 128 + 1) * 2 ^ shift := by ring
        _ ≤ 128 * 2 ^ shift := Nat.mul_le_mul_right _ hgroup
        _ = 2 ^ (shift + 7) := by rw [Nat.pow_add, Nat.mul_comm]
    rw [gather, gather_eq hnext (or_shiftLeft_mod_lt hacc hshift) (by omega),
      or_shiftLeft_mod hacc hshift, value, Nat.add_right_comm, Nat.add_mod_mod]
    congr 1
    rw [Nat.pow_add]
    ring

/-! ### The shortest run -/

/-- The groups of a number, as few as possible. -/
def write (n : ℕ) : List UInt8 :=
  if n < 128 then [UInt8.ofNat n] else UInt8.ofNat (n % 128 + 128) :: write (n / 128)
termination_by n
decreasing_by omega

theorem toNat_ofNat_of_lt (h : n < 256) : (UInt8.ofNat n).toNat = n := by
  rw [UInt8.toNat_ofNat', Nat.mod_eq_of_lt h]

theorem isRun_write (n : ℕ) : IsRun (write n) := by
  fun_induction write n with
  | case1 n hlt =>
    unfold IsRun
    rw [if_pos (by rw [toNat_ofNat_of_lt (by omega)]; exact hlt)]
  | case2 n hge ih =>
    unfold IsRun
    rw [if_neg (by rw [toNat_ofNat_of_lt (by omega)]; omega)]
    exact ih

theorem value_write (n : ℕ) : value (write n) = n := by
  fun_induction write n with
  | case1 n hlt =>
    rw [value, value, toNat_ofNat_of_lt (by omega)]
    omega
  | case2 n hge ih =>
    rw [value, ih, toNat_ofNat_of_lt (by omega)]
    omega

theorem length_write {k : ℕ} (h : n < 128 ^ (k + 1)) : (write n).length ≤ k + 1 := by
  induction k generalizing n with
  | zero =>
    rw [write, if_pos (by simpa using h)]
    exact le_rfl
  | succ k ih =>
    rw [write]
    split_ifs with hlt
    · exact Nat.le_add_left 1 _
    · rw [List.length_cons]
      have hdiv : n / 128 < 128 ^ (k + 1) := by
        rw [Nat.div_lt_iff_lt_mul (by decide), ← Nat.pow_succ]
        exact h
      exact Nat.add_le_add_right (ih hdiv) 1

end Fareward.Varint
