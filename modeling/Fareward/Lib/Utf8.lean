import Mathlib.Data.List.Basic

/-!
# UTF-8: characters, their bytes and prefixes of bounded size

The bytes of a text are those of its characters, one after the other. A character is a lead byte
and continuation bytes, and a lead byte is none (`utf8EncodeChar_spec`), so that the boundaries
between characters are visible in the bytes.

`takeBytes limit` is the longest prefix of a text that has at most `limit` bytes.
-/

namespace Fareward

/-- Continuation bytes are `10xxxxxx`. -/
def IsContinuation (b : UInt8) : Prop := b &&& 0xC0 = 0x80

instance (b : UInt8) : Decidable (IsContinuation b) := inferInstanceAs (Decidable (_ = _))

/-- The bytes of a text. -/
def utf8 (chars : List Char) : List UInt8 := chars.flatMap String.utf8EncodeChar

@[simp] theorem utf8_cons (c : Char) (chars : List Char) :
    utf8 (c :: chars) = String.utf8EncodeChar c ++ utf8 chars := rfl

/-- The size Rust and Lean give a string is the number of its bytes. -/
theorem length_utf8_toList (s : String) : (utf8 s.toList).length = s.utf8ByteSize := by
  rw [← String.size_toByteArray, ← String.utf8Encode_toList]
  simp [utf8, List.utf8Encode]

/-! ### Lead bytes and continuation bytes -/

/-- What holds of the eight bits of a byte. -/
theorem forall_uint8 {P : UInt8 → Prop} (h : ∀ b : BitVec 8, P ⟨b⟩) (b : UInt8) : P b :=
  h b.toBitVec

theorem isContinuation_tail : ∀ b : UInt8, IsContinuation (b &&& 63 ||| 128) :=
  forall_uint8 (by decide)

theorem not_isContinuation_two : ∀ b : UInt8, ¬ IsContinuation (b &&& 31 ||| 192) :=
  forall_uint8 (by decide)

theorem not_isContinuation_three : ∀ b : UInt8, ¬ IsContinuation (b &&& 15 ||| 224) :=
  forall_uint8 (by decide)

theorem not_isContinuation_four : ∀ b : UInt8, ¬ IsContinuation (b &&& 7 ||| 240) :=
  forall_uint8 (by decide)

theorem not_isContinuation_of_lt : ∀ b : UInt8, b < 128 → ¬ IsContinuation b :=
  forall_uint8 (by decide)

theorem not_isContinuation_one {c : Char} (h : c.utf8Size = 1) :
    ¬ IsContinuation c.val.toUInt8 := by
  have hle : c.val.toNat ≤ 127 := UInt32.le_iff_toNat_le.mp (Char.utf8Size_eq_one_iff.mp h)
  apply not_isContinuation_of_lt
  rw [UInt8.lt_iff_toNat_lt, UInt32.toNat_toUInt8, Nat.mod_eq_of_lt (by omega)]
  exact Nat.lt_succ_of_le hle

/-- **A character is a lead byte and continuation bytes.** -/
theorem utf8EncodeChar_spec (c : Char) : ∃ lead tail, String.utf8EncodeChar c = lead :: tail ∧
    ¬ IsContinuation lead ∧ ∀ b ∈ tail, IsContinuation b := by
  rcases c.utf8Size_eq with h | h | h | h
  · exact ⟨_, _, String.utf8EncodeChar_eq_singleton h, not_isContinuation_one h,
      List.forall_mem_nil _⟩
  · refine ⟨_, _, String.utf8EncodeChar_eq_cons_cons h, not_isContinuation_two _, ?_⟩
    simp [isContinuation_tail]
  · refine ⟨_, _, String.utf8EncodeChar_eq_cons_cons_cons h, not_isContinuation_three _, ?_⟩
    simp [isContinuation_tail]
  · refine ⟨_, _, String.utf8EncodeChar_eq_cons_cons_cons_cons h, not_isContinuation_four _, ?_⟩
    simp [isContinuation_tail]

/-! ### The longest prefix -/

/-- The characters from the first on, as long as their bytes fit. -/
def takeBytes : ℕ → List Char → List Char
  | _, [] => []
  | limit, c :: chars =>
    if c.utf8Size ≤ limit then c :: takeBytes (limit - c.utf8Size) chars else []

theorem takeBytes_isPrefix (limit : ℕ) (chars : List Char) : takeBytes limit chars <+: chars := by
  induction chars generalizing limit with
  | nil => exact List.prefix_rfl
  | cons c chars ih =>
    unfold takeBytes
    split_ifs
    · exact List.cons_prefix_cons.mpr ⟨rfl, ih _⟩
    · exact List.nil_prefix

theorem length_utf8_takeBytes (limit : ℕ) (chars : List Char) :
    (utf8 (takeBytes limit chars)).length ≤ limit := by
  induction chars generalizing limit with
  | nil => exact Nat.zero_le limit
  | cons c chars ih =>
    unfold takeBytes
    split_ifs with hfits
    · rw [utf8_cons, List.length_append, String.length_utf8EncodeChar]
      have hrest := ih (limit - c.utf8Size)
      omega
    · exact Nat.zero_le limit

/-- Every other prefix that fits is a prefix of it. -/
theorem isPrefix_takeBytes {limit : ℕ} {p chars : List Char} (hp : p <+: chars)
    (hfits : (utf8 p).length ≤ limit) : p <+: takeBytes limit chars := by
  induction chars generalizing limit p with
  | nil =>
    rw [List.prefix_nil.mp hp]
    exact List.nil_prefix
  | cons c chars ih =>
    cases p with
    | nil => exact List.nil_prefix
    | cons =>
      obtain ⟨rfl, hrest⟩ := List.cons_prefix_cons.mp hp
      rw [utf8_cons, List.length_append, String.length_utf8EncodeChar] at hfits
      unfold takeBytes
      rw [if_pos (by omega)]
      exact List.cons_prefix_cons.mpr ⟨rfl, ih hrest (by omega)⟩

theorem takeBytes_eq_self {limit : ℕ} {chars : List Char} (h : (utf8 chars).length ≤ limit) :
    takeBytes limit chars = chars :=
  (takeBytes_isPrefix limit chars).eq_of_length_le
    (isPrefix_takeBytes List.prefix_rfl h).length_le

end Fareward
