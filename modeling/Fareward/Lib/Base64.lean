import Mathlib.Data.List.Basic
import Mathlib.Tactic.IntervalCases

/-!
# Unpadded base64url

The standard encoding with the URL alphabet and without padding: three bytes are four digits of six
bits, and one or two bytes at the end are two or three digits. The decoder refuses what is not a
digit, a single digit at the end, and bits at the end that belong to no byte; so it is the inverse
of the encoder (`decode_encode`, `encode_of_decode`).
-/

namespace Fareward.Base64

/-- The digits in the order of their values. -/
def alphabet : List Char :=
  "ABCDEFGHIJKLMNOPQRSTUVWXYZabcdefghijklmnopqrstuvwxyz0123456789-_".toList

def digit (value : ℕ) : Char := alphabet.getD value 'A'

def digitValue (c : Char) : Option ℕ := alphabet.idxOf? c

def encode : List UInt8 → List Char
  | [] => []
  | [a] => [digit (a.toNat / 4), digit (a.toNat % 4 * 16)]
  | [a, b] =>
    [digit (a.toNat / 4), digit (a.toNat % 4 * 16 + b.toNat / 16), digit (b.toNat % 16 * 4)]
  | a :: b :: c :: bytes =>
    digit (a.toNat / 4) :: digit (a.toNat % 4 * 16 + b.toNat / 16) ::
      digit (b.toNat % 16 * 4 + c.toNat / 64) :: digit (c.toNat % 64) :: encode bytes

def decode : List Char → Option (List UInt8)
  | [] => some []
  | [_] => none
  | [w, x] => do
    let w ← digitValue w
    let x ← digitValue x
    if x % 16 = 0 then some [UInt8.ofNat (w * 4 + x / 16)] else none
  | [w, x, y] => do
    let w ← digitValue w
    let x ← digitValue x
    let y ← digitValue y
    if y % 4 = 0 then some [UInt8.ofNat (w * 4 + x / 16), UInt8.ofNat (x % 16 * 16 + y / 4)]
    else none
  | w :: x :: y :: z :: chars => do
    let w ← digitValue w
    let x ← digitValue x
    let y ← digitValue y
    let z ← digitValue z
    let bytes ← decode chars
    some (UInt8.ofNat (w * 4 + x / 16) :: UInt8.ofNat (x % 16 * 16 + y / 4) ::
      UInt8.ofNat (y % 4 * 64 + z) :: bytes)

/-! ### Digits -/

theorem digitValue_digit {value : ℕ} (h : value < 64) : digitValue (digit value) = some value := by
  have hall : ∀ i : Fin 64, digitValue (digit i) = some i.val := by decide +kernel
  exact hall ⟨value, h⟩

theorem digit_of_digitValue {c : Char} {value : ℕ} (h : digitValue c = some value) :
    digit value = c ∧ value < 64 := by
  unfold digitValue List.idxOf? at h
  obtain ⟨hlt, heq, -⟩ := List.findIdx?_eq_some_iff_getElem.mp h
  refine ⟨?_, hlt⟩
  unfold digit
  rw [List.getD_eq_getElem?_getD, List.getElem?_eq_getElem hlt]
  exact beq_iff_eq.mp heq

theorem toNat_ofNat {n : ℕ} (h : n < 256) : (UInt8.ofNat n).toNat = n := by
  rw [UInt8.toNat_ofNat', Nat.mod_eq_of_lt h]

theorem ofNat_eq {n : ℕ} {byte : UInt8} (h : n = byte.toNat) : UInt8.ofNat n = byte := by
  rw [h, UInt8.ofNat_toNat]

/-! ### The round trips -/

theorem decode_encode : ∀ bytes : List UInt8, decode (encode bytes) = some bytes
  | [] => rfl
  | [a] => by
    have ha := a.toNat_lt
    rw [encode, decode, digitValue_digit (by omega), digitValue_digit (by omega)]
    show (if _ then _ else _) = _
    rw [if_pos (by omega), ofNat_eq (by omega : _ = a.toNat)]
  | [a, b] => by
    have ha := a.toNat_lt
    have hb := b.toNat_lt
    rw [encode, decode, digitValue_digit (by omega), digitValue_digit (by omega),
      digitValue_digit (by omega)]
    show (if _ then _ else _) = _
    rw [if_pos (by omega), ofNat_eq (by omega : _ = a.toNat), ofNat_eq (by omega : _ = b.toNat)]
  | a :: b :: c :: bytes => by
    have ha := a.toNat_lt
    have hb := b.toNat_lt
    have hc := c.toNat_lt
    rw [encode, decode, digitValue_digit (by omega), digitValue_digit (by omega),
      digitValue_digit (by omega), digitValue_digit (by omega), decode_encode bytes]
    show some (_ :: _ :: _ :: bytes) = _
    rw [ofNat_eq (by omega : _ = a.toNat), ofNat_eq (by omega : _ = b.toNat),
      ofNat_eq (by omega : _ = c.toNat)]

theorem encode_of_decode : ∀ {chars : List Char} {bytes : List UInt8},
    decode chars = some bytes → encode bytes = chars
  | [], bytes, h => by
    cases h
    rfl
  | [_], _, h => by cases h
  | [w, x], bytes, h => by
    simp only [decode, Option.bind_eq_bind, Option.bind_eq_some_iff,
      Option.ite_none_right_eq_some] at h
    obtain ⟨v, hv, u, hu, hmod, hbytes⟩ := h
    obtain ⟨rfl, hv64⟩ := digit_of_digitValue hv
    obtain ⟨rfl, hu64⟩ := digit_of_digitValue hu
    cases hbytes
    have hfirst : (v * 4 + u / 16) / 4 = v := by omega
    have hsecond : (v * 4 + u / 16) % 4 * 16 = u := by omega
    rw [encode, toNat_ofNat (by omega), hfirst, hsecond]
  | [w, x, y], bytes, h => by
    simp only [decode, Option.bind_eq_bind, Option.bind_eq_some_iff,
      Option.ite_none_right_eq_some] at h
    obtain ⟨v, hv, u, hu, t, ht, hmod, hbytes⟩ := h
    obtain ⟨rfl, hv64⟩ := digit_of_digitValue hv
    obtain ⟨rfl, hu64⟩ := digit_of_digitValue hu
    obtain ⟨rfl, ht64⟩ := digit_of_digitValue ht
    cases hbytes
    have hfirst : (v * 4 + u / 16) / 4 = v := by omega
    have hsecond : (v * 4 + u / 16) % 4 * 16 + (u % 16 * 16 + t / 4) / 16 = u := by omega
    have hthird : (u % 16 * 16 + t / 4) % 16 * 4 = t := by omega
    rw [encode, toNat_ofNat (by omega), toNat_ofNat (by omega), hfirst, hsecond, hthird]
  | w :: x :: y :: z :: chars, bytes, h => by
    simp only [decode, Option.bind_eq_bind, Option.bind_eq_some_iff] at h
    obtain ⟨v, hv, u, hu, t, ht, q, hq, rest, hrest, hbytes⟩ := h
    obtain ⟨rfl, hv64⟩ := digit_of_digitValue hv
    obtain ⟨rfl, hu64⟩ := digit_of_digitValue hu
    obtain ⟨rfl, ht64⟩ := digit_of_digitValue ht
    obtain ⟨rfl, hq64⟩ := digit_of_digitValue hq
    cases hbytes
    have hfirst : (v * 4 + u / 16) / 4 = v := by omega
    have hsecond : (v * 4 + u / 16) % 4 * 16 + (u % 16 * 16 + t / 4) / 16 = u := by omega
    have hthird : (u % 16 * 16 + t / 4) % 16 * 4 + (t % 4 * 64 + q) / 64 = t := by omega
    have hfourth : (t % 4 * 64 + q) % 64 = q := by omega
    rw [encode, toNat_ofNat (by omega), toNat_ofNat (by omega), toNat_ofNat (by omega), hfirst,
      hsecond, hthird, hfourth, encode_of_decode hrest]

/-- Eight digits are six bytes. -/
theorem decode_eight {chars : List Char} (hlength : chars.length = 8)
    (hdigits : ∀ c ∈ chars, c ∈ alphabet) :
    ∃ bytes, decode chars = some bytes ∧ bytes.length = 6 := by
  have hvalue : ∀ c ∈ chars, ∃ value, digitValue c = some value := by
    intro c hc
    exact Option.isSome_iff_exists.mp (List.isSome_idxOf?.mpr (hdigits c hc))
  match chars, hlength with
  | [a, b, c, d, e, f, g, h], _ =>
    obtain ⟨va, ha⟩ := hvalue a (by simp)
    obtain ⟨vb, hb⟩ := hvalue b (by simp)
    obtain ⟨vc, hc⟩ := hvalue c (by simp)
    obtain ⟨vd, hd⟩ := hvalue d (by simp)
    obtain ⟨ve, he⟩ := hvalue e (by simp)
    obtain ⟨vf, hf⟩ := hvalue f (by simp)
    obtain ⟨vg, hg⟩ := hvalue g (by simp)
    obtain ⟨vh, hh⟩ := hvalue h (by simp)
    rw [decode, decode, decode, ha, hb, hc, hd, he, hf, hg, hh]
    exact ⟨_, rfl, rfl⟩

end Fareward.Base64
