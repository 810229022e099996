import Fareward.Lib.Varint
import Fareward.Limiter.Equiv.Access

/-!
# The grammar of the sub-access blob

The blob should be a list of entries with ascending ids, each a grant word and a run of sub bytes
whose groups form a mask of sixteen bits that is not zero (`SubGrammar`). `validate_sub_grants`
gathers the groups in a `u16` and gives up at the fourth byte (`validateSubGrants_ok_iff`), which is
not the same: the third byte is shifted by fourteen bits and what is above its two lowest bits is
lost, so a mask past sixteen bits is accepted for its low bits; and a run that is longer than it
needs to be is refused whatever its number is.

The entries of a blob are determined by its bytes (`SubEntries.unique`), so these two are the only
blobs on which the check and the grammar differ.
-/

namespace Fareward.Limiter.Access

/-- The blob as entries with ascending ids above zero, each with a run of sub bytes. -/
structure SubEntries (bytes : List UInt8) (subs : List (UInt16 × List UInt8)) : Prop where
  eq : bytes = subs.flatMap fun entry => wordBytes entry.1 ++ entry.2
  ascending : List.Pairwise (· < ·) (0 :: subs.map fun entry => idOf entry.1)
  terminated : ∀ entry ∈ subs, Terminated entry.2

/-- The mask of a run of sub bytes: its seven-bit groups, the least significant first. -/
def subMask (run : List UInt8) : ℕ := Varint.value run

/-- The blobs of the format: every mask is positive and fits sixteen bits. -/
def SubGrammar (bytes : List UInt8) : Prop :=
  ∃ subs, SubEntries bytes subs ∧ ∀ entry ∈ subs, 0 < subMask entry.2 ∧ subMask entry.2 < 2 ^ 16

/-! ### Runs -/

theorem more_eq_zero_iff (byte : UInt8) : byte &&& subMoreBit = 0 ↔ byte.toNat < 128 :=
  Varint.and_high_eq_zero byte

theorem terminated_iff (run : List UInt8) : Terminated run ↔ Varint.IsRun run := by
  induction run with
  | nil => exact Iff.rfl
  | cons byte bytes ih =>
    unfold Terminated Varint.IsRun
    by_cases hlast : byte.toNat < 128
    · rw [if_pos hlast, if_pos ((more_eq_zero_iff byte).mpr hlast)]
    · rw [if_neg hlast, if_neg fun h => hlast ((more_eq_zero_iff byte).mp h), ih]

/-- One turn of the inner loop, on numbers. -/
theorem toNat_orGroup (mask : UInt16) {index : ℕ} (byte : UInt8) (hindex : index * 7 < 16) :
    (mask ||| (byte &&& ~~~subMoreBit).toUInt16 <<< UInt16.ofNat (index * 7)).toNat =
      mask.toNat ||| (byte.toNat % 128) <<< (index * 7) % 2 ^ 16 := by
  have hshift : (UInt16.ofNat (index * 7)).toNat % 16 = index * 7 := by
    rw [UInt16.toNat_ofNat']
    omega
  rw [UInt16.toNat_or, UInt16.toNat_shiftLeft, hshift, UInt8.toNat_toUInt16]
  exact congrArg (fun group => mask.toNat ||| group <<< (index * 7) % 2 ^ 16)
    (Varint.toNat_and_low byte)

/-- The inner loop on a run: it gathers the mask, unless the run has too many bytes. -/
theorem subRunMask_run (grantedId mask : UInt16) (index : ℕ) {run : List UInt8}
    (hrun : Varint.IsRun run) (rest : List UInt8) (hlength : run.length + index ≤ 3) :
    ∃ mask' : UInt16, subRunMask grantedId mask index (run ++ rest) = .ok (mask', rest) ∧
      mask'.toNat = Varint.gather 16 mask.toNat (index * 7) run := by
  induction run generalizing mask index with
  | nil => exact absurd hrun id
  | cons byte bytes ih =>
    rw [List.length_cons] at hlength
    have hgroup := toNat_orGroup mask byte (show index * 7 < 16 by omega)
    rw [List.cons_append, subRunMask, if_neg (by omega)]
    dsimp only
    unfold Varint.IsRun at hrun
    by_cases hlast : byte.toNat < 128
    · rw [if_pos hlast] at hrun
      subst hrun
      rw [if_pos ((more_eq_zero_iff byte).mpr hlast)]
      exact ⟨_, rfl, hgroup⟩
    · rw [if_neg hlast] at hrun
      rw [if_neg fun h => hlast ((more_eq_zero_iff byte).mp h)]
      obtain ⟨mask', hok, hmask⟩ := ih _ (index + 1) hrun (by omega)
      refine ⟨mask', hok, ?_⟩
      rw [hmask, hgroup, Varint.gather, Nat.succ_mul]

/-- The mask of a run of at most three bytes, in sixteen bits. -/
theorem subRunMask_eq_ok (grantedId : UInt16) {run : List UInt8} (hrun : Terminated run)
    (rest : List UInt8) (hlength : run.length ≤ 3) :
    ∃ mask : UInt16, subRunMask grantedId 0 0 (run ++ rest) = .ok (mask, rest) ∧
      mask.toNat = subMask run % 2 ^ 16 := by
  obtain ⟨mask, hok, hmask⟩ := subRunMask_run grantedId 0 0 ((terminated_iff run).mp hrun)
    rest hlength
  refine ⟨mask, hok, ?_⟩
  rw [hmask, Varint.gather_eq (by decide) (by decide) (by omega)]
  unfold subMask
  simp

/-! ### What is accepted -/

theorem uint16_eq_zero_iff (mask : UInt16) : mask = 0 ↔ mask.toNat = 0 :=
  ⟨fun h => by rw [h]; rfl, fun h => UInt16.toNat_inj.mp h⟩

/-- An accepted entry has at most three sub bytes and a mask with a low bit. -/
def AcceptedRun (run : List UInt8) : Prop := run.length ≤ 3 ∧ subMask run % 2 ^ 16 ≠ 0

theorem subGrantsFrom_of_acceptedRun (total : ℕ) : ∀ {fuel : ℕ} {previousId : UInt16}
    {subs : List (UInt16 × List UInt8)}, subs.length ≤ fuel →
    List.Pairwise (· < ·) (previousId.toNat :: subs.map fun entry => idOf entry.1) →
    (∀ entry ∈ subs, Terminated entry.2 ∧ AcceptedRun entry.2) →
    subGrantsFrom total fuel previousId
      (subs.flatMap fun entry => wordBytes entry.1 ++ entry.2) = .ok ()
  | fuel, previousId, [], _, _, _ => by
    unfold subGrantsFrom
    cases fuel <;> rfl
  | fuel + 1, previousId, (word, run) :: subs, hfuel, hascending, hall => by
    obtain ⟨hfirst, hrest⟩ := List.pairwise_cons.mp hascending
    obtain ⟨hterminated, hlength, hvalue⟩ := hall (word, run) List.mem_cons_self
    have hid : ¬(unpackGrant word).1 ≤ previousId := by
      rw [UInt16.le_iff_toNat_le]
      exact not_le.mpr (hfirst (idOf word) List.mem_cons_self)
    obtain ⟨mask, hok, hmask⟩ := subRunMask_eq_ok (unpackGrant word).1 hterminated
      (subs.flatMap fun entry => wordBytes entry.1 ++ entry.2) hlength
    have hne : mask ≠ 0 := fun h => hvalue (hmask ▸ (uint16_eq_zero_iff mask).mp h)
    have htail := subGrantsFrom_of_acceptedRun total (Nat.le_of_succ_le_succ hfuel) hrest
      fun entry hentry => hall entry (List.mem_cons_of_mem _ hentry)
    rw [List.flatMap_cons, List.append_assoc]
    show subGrantsFrom total (fuel + 1) previousId
      ((word >>> 8).toUInt8 :: word.toUInt8 :: (run ++ _)) = _
    rw [subGrantsFrom, wordOf_wordBytes]
    dsimp only
    rw [if_neg hid, hok]
    show (if mask = 0 then _ else _) = _
    rw [if_neg hne]
    exact htail

/-- **What `validate_sub_grants` accepts.** -/
theorem validateSubGrants_ok_iff (bytes : List UInt8) :
    validateSubGrants bytes = .ok () ↔
      ∃ subs, SubEntries bytes subs ∧ ∀ entry ∈ subs, AcceptedRun entry.2 := by
  constructor
  · intro h
    obtain ⟨subs, heq, hascending, hall⟩ := subGrantsFrom_ok h
    refine ⟨subs, ⟨heq, hascending, fun entry hentry => (hall entry hentry).1⟩,
      fun entry hentry => ?_⟩
    obtain ⟨hterminated, hlength, mask, rest, hrun, hmask⟩ := hall entry hentry
    obtain ⟨mask', hok, hvalue⟩ := subRunMask_eq_ok _ hterminated rest hlength
    obtain ⟨rfl, -⟩ := Prod.mk.inj (Except.ok.inj (hrun.symm.trans hok))
    exact ⟨hlength, fun hzero => hmask ((uint16_eq_zero_iff mask).mpr (hvalue.trans hzero))⟩
  · rintro ⟨subs, ⟨rfl, hascending, hterminated⟩, haccepted⟩
    exact subGrantsFrom_of_acceptedRun _ (length_le_flatMap subs) hascending
      fun entry hentry => ⟨hterminated entry hentry, haccepted entry hentry⟩

/-! ### The entries of a blob -/

theorem wordBytes_injective : Function.Injective wordBytes := by
  intro word word' h
  obtain ⟨hhigh, hlow⟩ := List.cons.inj h
  rw [← wordOf_wordBytes word, ← wordOf_wordBytes word', hhigh, (List.cons.inj hlow).1]

theorem flatMap_entries_inj : ∀ {subs subs' : List (UInt16 × List UInt8)},
    (∀ entry ∈ subs, Terminated entry.2) → (∀ entry ∈ subs', Terminated entry.2) →
    subs.flatMap (fun entry => wordBytes entry.1 ++ entry.2) =
      subs'.flatMap (fun entry => wordBytes entry.1 ++ entry.2) → subs = subs'
  | [], [], _, _, _ => rfl
  | [], (word, run) :: subs', _, _, h => by cases h
  | (word, run) :: subs, [], _, _, h => by cases h
  | (word, run) :: subs, (word', run') :: subs', hall, hall', h => by
    rw [List.flatMap_cons, List.flatMap_cons, List.append_assoc, List.append_assoc] at h
    obtain ⟨hword, htail⟩ := List.append_inj h rfl
    obtain ⟨hrun, hrest⟩ := Varint.IsRun.append_inj
      ((terminated_iff run).mp (hall _ List.mem_cons_self))
      ((terminated_iff run').mp (hall' _ List.mem_cons_self)) htail
    have hsubs := flatMap_entries_inj
      (fun entry hentry => hall entry (List.mem_cons_of_mem _ hentry))
      (fun entry hentry => hall' entry (List.mem_cons_of_mem _ hentry)) hrest
    have hwords : word = word' := wordBytes_injective hword
    have hruns : run = run' := hrun
    rw [hwords, hruns, hsubs]

theorem SubEntries.unique {bytes : List UInt8} {subs subs' : List (UInt16 × List UInt8)}
    (h : SubEntries bytes subs) (h' : SubEntries bytes subs') : subs = subs' :=
  flatMap_entries_inj h.terminated h'.terminated (h.eq.symm.trans h'.eq)

/-! ### Where the check and the grammar differ -/

/-- Entries with at most three sub bytes and a low bit in every mask, and one mask past sixteen
bits. -/
def Overflowing (bytes : List UInt8) : Prop :=
  ∃ subs, SubEntries bytes subs ∧ (∀ entry ∈ subs, AcceptedRun entry.2) ∧
    ∃ entry ∈ subs, 2 ^ 16 ≤ subMask entry.2

/-- Entries of the format, one of them with more than three sub bytes. -/
def Padded (bytes : List UInt8) : Prop :=
  ∃ subs, SubEntries bytes subs ∧
    (∀ entry ∈ subs, 0 < subMask entry.2 ∧ subMask entry.2 < 2 ^ 16) ∧
    ∃ entry ∈ subs, 3 < entry.2.length

/-- **The check decides the grammar exactly on the blobs without a mask past sixteen bits that
keeps a low bit and without a run that is longer than three bytes.** -/
theorem validate_sub_grants_iff_grammar (bytes : List UInt8) :
    (validateSubGrants bytes = .ok () ↔ SubGrammar bytes) ↔
      ¬Overflowing bytes ∧ ¬Padded bytes := by
  rw [validateSubGrants_ok_iff]
  constructor
  · intro hiff
    constructor
    · rintro ⟨subs, hsubs, haccepted, entry, hentry, hover⟩
      obtain ⟨subs', hsubs', hmasks⟩ := hiff.mp ⟨subs, hsubs, haccepted⟩
      obtain rfl := hsubs.unique hsubs'
      exact absurd (hmasks entry hentry).2 (not_lt.mpr hover)
    · rintro ⟨subs, hsubs, hmasks, entry, hentry, hlong⟩
      obtain ⟨subs', hsubs', haccepted⟩ := hiff.mpr ⟨subs, hsubs, hmasks⟩
      obtain rfl := hsubs.unique hsubs'
      exact absurd (haccepted entry hentry).1 (not_le.mpr hlong)
  · rintro ⟨hoverflowing, hpadded⟩
    constructor
    · rintro ⟨subs, hsubs, haccepted⟩
      refine ⟨subs, hsubs, fun entry hentry => ⟨?_, ?_⟩⟩
      · have hlow := (haccepted entry hentry).2
        exact Nat.pos_of_ne_zero fun hzero => hlow (by rw [hzero, Nat.zero_mod])
      · by_contra hover
        exact hoverflowing ⟨subs, hsubs, haccepted, entry, hentry, not_lt.mp hover⟩
    · rintro ⟨subs, hsubs, hmasks⟩
      refine ⟨subs, hsubs, fun entry hentry => ⟨?_, ?_⟩⟩
      · by_contra hlong
        exact hpadded ⟨subs, hsubs, hmasks, entry, hentry, not_le.mp hlong⟩
      · obtain ⟨hpos, hfits⟩ := hmasks entry hentry
        rw [Nat.mod_eq_of_lt hfits]
        exact hpos.ne'

/-- Access 1 with the sub bytes `0x81 0x80 0x04`: the mask is `2^16 + 1`, and the blob is accepted
with the mask 1. -/
theorem overflowing_blob_accepted :
    validateSubGrants [0x00, 0x04, 0x81, 0x80, 0x04] = .ok () ∧
      ¬SubGrammar [0x00, 0x04, 0x81, 0x80, 0x04] := by
  have hentries : SubEntries [0x00, 0x04, 0x81, 0x80, 0x04] [(4, [0x81, 0x80, 0x04])] := by
    refine ⟨rfl, by simp [idOf, unpackGrant], ?_⟩
    intro entry hentry
    obtain rfl := List.mem_singleton.mp hentry
    exact (terminated_iff _).mpr (by decide)
  refine ⟨by decide, ?_⟩
  rintro ⟨subs, hsubs, hmasks⟩
  obtain rfl := hentries.unique hsubs
  exact absurd (hmasks _ List.mem_cons_self).2 (by decide)

end Fareward.Limiter.Access
