import Fareward.Bridge.Token
import Fareward.Lib.Op
import Fareward.Lib.Varint

/-!
# Channel tokens are a bijection

`append_uvarint` writes the shortest run of a number (`appendUvarint_eq`), and `read_uvarint` reads
a run of at most ten bytes as its number modulo `2^64` (`readUvarint_run`), overlong ones included.
So a token that was encoded is read back; the other strings the reader would take are refused by
the comparison at its end, which is also what makes the decoder's answer encode to its input.
-/

namespace Fareward.Bridge

variable {run bytes : List UInt8} {companyId userId : Int} {tabId token : List Char}

/-! ### Varints -/

theorem ofNat_or_high (value : ℕ) :
    UInt8.ofNat value ||| 0x80 = UInt8.ofNat (value % 128 + 128) := by
  have hall : ∀ i : Fin 256, UInt8.ofNat i ||| 0x80 = UInt8.ofNat (i.val % 128 + 128) := by
    decide +kernel
  have hbyte : UInt8.ofNat value = UInt8.ofNat (value % 256) :=
    UInt8.toNat_inj.mp (by rw [UInt8.toNat_ofNat', UInt8.toNat_ofNat', Nat.mod_mod])
  have hlow : value % 256 % 128 = value % 128 := by omega
  rw [hbyte, hall ⟨value % 256, Nat.mod_lt _ (by decide)⟩, hlow]

/-- The writer writes the shortest run. -/
theorem appendUvarint_eq (output : List UInt8) (value : ℕ) :
    appendUvarint output value = output ++ Varint.write value := by
  induction value using Nat.strong_induction_on generalizing output with
  | _ value ih =>
    rw [appendUvarint, Varint.write]
    by_cases hlast : value < 128
    · rw [if_neg (by omega), if_pos hlast]
    · rw [if_pos (by omega), if_neg hlast, Nat.shiftRight_eq_div_pow, ih (value / 2 ^ 7) (by omega),
        ofNat_or_high, List.append_assoc]
      rfl

/-- The reader on a run: it gathers the value, as long as the shift is below 64. -/
theorem readUvarintFrom_run (hrun : Varint.IsRun run) (rest : List UInt8) :
    ∀ value shift index : ℕ, shift + 7 * run.length ≤ 70 →
      readUvarintFrom value shift index (run ++ rest) =
        some (Varint.gather 64 value shift run, index + run.length) := by
  induction run with
  | nil => exact absurd hrun id
  | cons byte bytes ih =>
    intro value shift index hlength
    rw [List.length_cons] at hlength ⊢
    rw [List.cons_append, readUvarintFrom, if_neg (by omega), Varint.gather,
      Varint.toNat_and_low byte]
    dsimp only
    unfold Varint.IsRun at hrun
    by_cases hlast : byte.toNat < 128
    · rw [if_pos hlast] at hrun
      subst hrun
      rw [if_pos ((Varint.and_high_eq_zero byte).mpr hlast)]
      rfl
    · rw [if_neg hlast] at hrun
      rw [if_neg fun h => hlast ((Varint.and_high_eq_zero byte).mp h),
        ih hrun _ _ _ (by omega), Nat.add_assoc, Nat.add_comm 1]

theorem readUvarint_run (hrun : Varint.IsRun run) (rest : List UInt8) (hlength : run.length ≤ 10) :
    readUvarint (run ++ rest) = some (Varint.value run % 2 ^ 64, run.length) := by
  unfold readUvarint
  rw [readUvarintFrom_run hrun rest 0 0 0 (by omega),
    Varint.gather_eq (by decide) (by decide) (by omega)]
  simp

theorem readUvarint_write {n : ℕ} (h : n ≤ i32Max) (rest : List UInt8) :
    readUvarint (Varint.write n ++ rest) = some (n, (Varint.write n).length) := by
  unfold i32Max at h
  have hlength : (Varint.write n).length ≤ 5 := Varint.length_write (by omega)
  rw [readUvarint_run (Varint.isRun_write n) rest (by omega), Varint.value_write,
    Nat.mod_eq_of_lt (by omega)]

/-- The reader consumes no more than there is. -/
theorem readUvarintFrom_le :
    ∀ {value shift index value' count : ℕ},
      readUvarintFrom value shift index bytes = some (value', count) →
      count ≤ index + bytes.length := by
  induction bytes with
  | nil => intro _ _ _ _ _ h; cases h
  | cons byte bytes ih =>
    intro value shift index value' count h
    unfold readUvarintFrom at h
    dsimp only at h
    rw [List.length_cons]
    split_ifs at h with hshift hlast
    · obtain ⟨-, rfl⟩ := Prod.mk.inj (Option.some.inj h)
      omega
    · have := ih h
      omega

theorem readUvarint_le {value count : ℕ} (h : readUvarint bytes = some (value, count)) :
    count ≤ bytes.length := by
  have := readUvarintFrom_le h
  omega

/-! ### The codec -/

theorem encodeChannelToken_eq_some :
    encodeChannelToken companyId userId tabId = some token ↔
      ∃ tabBytes, Base64.decode tabId = some tabBytes ∧ tabBytes.length = tabRandomBytes ∧
        0 < companyId ∧ 0 < userId ∧
        token = Base64.encode
          (Varint.write companyId.toNat ++ (Varint.write userId.toNat ++ tabBytes)) := by
  unfold encodeChannelToken
  cases Base64.decode tabId with
  | none => simp
  | some =>
    simp only [Option.bind_eq_bind, Option.bind_some, Option.ite_none_left_eq_some, not_or,
      not_not, not_le, appendUvarint_eq, List.nil_append, List.append_assoc, Option.some.injEq,
      exists_eq_left', Option.pure_def, and_assoc]
    rw [@eq_comm _ token]

/-- What was encoded is decoded. -/
theorem decodeChannelToken_of_encode (hcompany : companyId ≤ i32Max) (huser : userId ≤ i32Max)
    (h : encodeChannelToken companyId userId tabId = some token) :
    decodeChannelToken token = .ok (companyId, userId, tabId) := by
  obtain ⟨tabBytes, hdecode, hlength, hcompany0, huser0, htoken⟩ :=
    encodeChannelToken_eq_some.mp h
  have hcompanyId : (companyId.toNat : Int) = companyId := Int.toNat_of_nonneg hcompany0.le
  have huserId : (userId.toNat : Int) = userId := Int.toNat_of_nonneg huser0.le
  have hbytes : Base64.decode token =
      some (Varint.write companyId.toNat ++ (Varint.write userId.toNat ++ tabBytes)) := by
    rw [htoken, Base64.decode_encode]
  have hslice : sliceFrom (Varint.write companyId.toNat ++ (Varint.write userId.toNat ++ tabBytes))
      (Varint.write companyId.toNat).length = .ok (Varint.write userId.toNat ++ tabBytes) := by
    unfold sliceFrom
    rw [if_pos (by rw [List.length_append]; omega), List.drop_left]
  have htab : sliceFrom (Varint.write companyId.toNat ++ (Varint.write userId.toNat ++ tabBytes))
      ((Varint.write companyId.toNat).length + (Varint.write userId.toNat).length) =
        .ok tabBytes := by
    unfold sliceFrom
    rw [if_pos (by rw [List.length_append, List.length_append]; omega), ← List.append_assoc,
      List.drop_left' (List.length_append)]
  unfold decodeChannelToken
  rw [hbytes]
  simp only [okOr, bind, Except.bind]
  rw [readUvarint_write (by omega)]
  simp only [hslice]
  rw [readUvarint_write (by omega)]
  simp only [htab]
  rw [if_neg (not_not.mpr hlength), if_neg (by omega), hcompanyId, huserId,
    Base64.encode_of_decode hdecode, if_neg (not_not.mpr h)]
  rfl

/-- What is decoded encodes to the token, and its numbers are positive `i32`s. -/
theorem encode_of_decodeChannelToken
    (h : decodeChannelToken token = .ok (companyId, userId, tabId)) :
    encodeChannelToken companyId userId tabId = some token ∧ companyId ≤ i32Max ∧
      userId ≤ i32Max := by
  unfold decodeChannelToken at h
  obtain ⟨tokenBytes, -, h⟩ := bind_eq_ok.mp h
  obtain ⟨⟨companyValue, companyByteCount⟩, -, h⟩ := bind_eq_ok.mp h
  obtain ⟨afterCompany, -, h⟩ := bind_eq_ok.mp h
  obtain ⟨⟨userValue, userByteCount⟩, -, h⟩ := bind_eq_ok.mp h
  obtain ⟨tabBytes, -, h⟩ := bind_eq_ok.mp h
  dsimp only at h
  split_ifs at h with hlength hrange hcanonical
  obtain ⟨rfl, hrest⟩ := Prod.mk.inj (Except.ok.inj h)
  obtain ⟨rfl, rfl⟩ := Prod.mk.inj hrest
  exact ⟨not_not.mp hcanonical, by omega, by omega⟩

/-- The slices of the decoder lie inside the bytes. -/
theorem decodeChannelToken_ne_panic (token : List Char) :
    decodeChannelToken token ≠ .error .panic := by
  unfold decodeChannelToken
  cases Base64.decode token with
  | none => simp [okOr, bind, Except.bind]
  | some tokenBytes =>
    simp only [okOr, bind, Except.bind]
    cases hcompany : readUvarint tokenBytes with
    | none => simp
    | some company =>
      obtain ⟨companyValue, companyByteCount⟩ := company
      have hcompanyLe := readUvarint_le hcompany
      have hslice : sliceFrom tokenBytes companyByteCount =
          .ok (tokenBytes.drop companyByteCount) := if_pos hcompanyLe
      simp only [hslice]
      cases huser : readUvarint (tokenBytes.drop companyByteCount) with
      | none => simp
      | some user =>
        obtain ⟨userValue, userByteCount⟩ := user
        have huserLe := readUvarint_le huser
        rw [List.length_drop] at huserLe
        have htab : sliceFrom tokenBytes (companyByteCount + userByteCount) =
            .ok (tokenBytes.drop (companyByteCount + userByteCount)) := if_pos (by omega)
        simp only [htab]
        split_ifs <;> simp [pure, Except.pure]

/-- **Channel tokens are a bijection.** The decoder accepts the strings that the encoder produces
from `i32` ids and no others; a triple of positive ids and a tab of eight digits is encoded and read
back, what is read encodes to the same string, and no string makes the decoder index out of
range. -/
theorem channel_token_bijection :
    (∀ token : List Char, (∃ triple, decodeChannelToken token = .ok triple) ↔
        ∃ (companyId userId : Int) (tabId : List Char), companyId ≤ i32Max ∧ userId ≤ i32Max ∧
          encodeChannelToken companyId userId tabId = some token) ∧
      (∀ (companyId userId : Int) (tabId : List Char), 0 < companyId → companyId ≤ i32Max →
        0 < userId → userId ≤ i32Max → tabId.length = 8 → (∀ c ∈ tabId, c ∈ Base64.alphabet) →
        ∃ token, encodeChannelToken companyId userId tabId = some token ∧
          decodeChannelToken token = .ok (companyId, userId, tabId)) ∧
      (∀ (token : List Char) (companyId userId : Int) (tabId : List Char),
        decodeChannelToken token = .ok (companyId, userId, tabId) →
        encodeChannelToken companyId userId tabId = some token) ∧
      ∀ token : List Char, decodeChannelToken token ≠ .error .panic := by
  refine ⟨fun token => ⟨?_, ?_⟩, ?_, fun token companyId userId tabId h => ?_,
    decodeChannelToken_ne_panic⟩
  · rintro ⟨⟨companyId, userId, tabId⟩, h⟩
    obtain ⟨hencode, hcompany, huser⟩ := encode_of_decodeChannelToken h
    exact ⟨companyId, userId, tabId, hcompany, huser, hencode⟩
  · rintro ⟨companyId, userId, tabId, hcompany, huser, h⟩
    exact ⟨_, decodeChannelToken_of_encode hcompany huser h⟩
  · intro companyId userId tabId hcompany0 hcompany huser0 huser hlength hdigits
    obtain ⟨tabBytes, hdecode, hbytes⟩ := Base64.decode_eight hlength hdigits
    have hencode := encodeChannelToken_eq_some.mpr
      ⟨tabBytes, hdecode, hbytes, hcompany0, huser0, rfl⟩
    exact ⟨_, hencode, decodeChannelToken_of_encode hcompany huser hencode⟩
  · exact (encode_of_decodeChannelToken h).1

end Fareward.Bridge
