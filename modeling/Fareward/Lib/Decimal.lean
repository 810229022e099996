import Mathlib.Data.Int.Basic

/-!
# Integers as decimal text

`render` writes an integer with its digits and, if it is negative, a minus sign. `parse` reads one,
and accepts also what is never written: a plus sign, leading zeros, a minus before zero. What is
written reads back (`parse_render`), and contains digits and the minus sign only (`mem_render`).
-/

namespace Fareward.Decimal

/-- An integer as text. -/
def render : Int → List Char
  | .ofNat n => Nat.toDigits 10 n
  | .negSucc n => '-' :: Nat.toDigits 10 (n + 1)

/-- The value of a nonempty string of digits. -/
def parseDigits (digits : List Char) : Option ℕ :=
  if digits ≠ [] ∧ digits.all Char.isDigit then some (Nat.ofDigitChars 10 digits 0) else none

/-- An integer from text, with an optional sign. -/
def parse : List Char → Option Int
  | '-' :: digits => (parseDigits digits).map fun n => -(n : Int)
  | '+' :: digits => (parseDigits digits).map Int.ofNat
  | digits => (parseDigits digits).map Int.ofNat

theorem parseDigits_toDigits (n : ℕ) : parseDigits (Nat.toDigits 10 n) = some n := by
  have hall : (Nat.toDigits 10 n).all Char.isDigit = true :=
    List.all_eq_true.mpr fun c hc => Nat.isDigit_of_mem_toDigits (by decide) le_rfl hc
  unfold parseDigits
  rw [if_pos ⟨Nat.toDigits_ne_nil, hall⟩, Nat.ofDigitChars_toDigits (by decide) le_rfl]

/-- A text without a sign is read as digits. -/
theorem parse_of_digit {c : Char} {cs : List Char} (hc : c.isDigit) :
    parse (c :: cs) = (parseDigits (c :: cs)).map Int.ofNat := by
  unfold parse
  split
  · next h =>
    rw [(List.cons.inj h).1] at hc
    cases hc
  · next h =>
    rw [(List.cons.inj h).1] at hc
    cases hc
  · rfl

/-- **What is written reads back.** -/
theorem parse_render (t : Int) : parse (render t) = some t := by
  cases t with
  | ofNat n =>
    show parse (Nat.toDigits 10 n) = _
    cases hdigits : Nat.toDigits 10 n with
    | nil => exact absurd hdigits Nat.toDigits_ne_nil
    | cons c =>
      have hc : c.isDigit := by
        refine Nat.isDigit_of_mem_toDigits (b := 10) (n := n) (by decide) le_rfl ?_
        rw [hdigits]
        exact List.mem_cons_self
      rw [parse_of_digit hc, ← hdigits, parseDigits_toDigits]
      rfl
  | negSucc =>
    rw [render, parse, parseDigits_toDigits]
    rfl

theorem mem_render {t : Int} {c : Char} (h : c ∈ render t) : c = '-' ∨ c.isDigit := by
  cases t with
  | ofNat => exact .inr (Nat.isDigit_of_mem_toDigits (by decide) le_rfl h)
  | negSucc =>
    rcases List.mem_cons.mp h with rfl | h
    · exact .inl rfl
    · exact .inr (Nat.isDigit_of_mem_toDigits (by decide) le_rfl h)

end Fareward.Decimal
