import Fareward.Lib.Op
import Fareward.Limiter.Access
import Fareward.Limiter.Equiv.CreditsBlob

/-!
# Access grants: what the blobs say

A blob that `from_row` accepts is a list of entries written one after the other (`Entries`): grant
words with ascending ids, and in the second blob each word with its run of sub bytes. `Covers` says
that an entry has a required access at the required level or above.

Over the entries the binary search of `holds_in_grants` and the scan of `find_in_sub_grants` find
exactly the entry that covers the request (`holdsInGrants_iff`, `findInSubGrants_iff`). The search
keeps that an entry with the required id can only lie in the range it still looks at.
-/

namespace Fareward.Limiter.Access

variable {words : List UInt16} {i fuel : ℕ} {previousId required : UInt16} {bytes : List UInt8}
  {row : StoredUserAccess} {subs : List (UInt16 × List UInt8)}

/-- The bytes of a grant word. -/
def wordBytes (word : UInt16) : List UInt8 := [(word >>> 8).toUInt8, word.toUInt8]

/-- The access id of a grant word. -/
def idOf (word : UInt16) : ℕ := (unpackGrant word).1.toNat

/-- A granted word has the access of a required one, at its level or above. -/
def Covers (granted required : UInt16) : Prop :=
  (unpackGrant granted).1 = (unpackGrant required).1 ∧
    (unpackGrant required).2 ≤ (unpackGrant granted).2

instance (granted required : UInt16) : Decidable (Covers granted required) :=
  inferInstanceAs (Decidable (_ ∧ _))

/-- A run of sub bytes: only the last has its `MORE` bit clear. -/
def Terminated : List UInt8 → Prop
  | [] => False
  | byte :: bytes => if byte &&& subMoreBit = 0 then bytes = [] else Terminated bytes

/-- The two blobs of a row, as the entries that were written to them. -/
structure Entries (row : StoredUserAccess) (words : List UInt16)
    (subs : List (UInt16 × List UInt8)) : Prop where
  grants : row.grantsBlob = words.flatMap wordBytes
  subGrants : row.subGrantsBlob = subs.flatMap fun entry => wordBytes entry.1 ++ entry.2
  ascending : List.Pairwise (· < ·) (words.map idOf)
  subsAscending : List.Pairwise (· < ·) (subs.map fun entry => idOf entry.1)
  terminated : ∀ entry ∈ subs, Terminated entry.2 ∧ entry.2.length ≤ 3

/-! ### Words -/

theorem wordOf_toNat (high low : UInt8) :
    (wordOf high low).toNat = high.toNat * 256 + low.toNat := by
  have hhigh := high.toNat_lt
  have hlow := low.toNat_lt
  unfold wordOf
  rw [UInt16.toNat_or, UInt16.toNat_shiftLeft]
  have hmod : (high.toUInt16.toNat <<< ((8 : UInt16).toNat % 16)) % 2 ^ 16 =
      high.toNat <<< 8 := by
    show (high.toNat <<< 8) % 2 ^ 16 = high.toNat <<< 8
    rw [Nat.shiftLeft_eq]
    omega
  rw [hmod]
  exact CreditsBlob.shiftLeft_or_byte high.toNat low

theorem wordBytes_wordOf (high low : UInt8) : wordBytes (wordOf high low) = [high, low] := by
  have hlow := low.toNat_lt
  have hhigh := high.toNat_lt
  have hword := wordOf_toNat high low
  have hfirst : (wordOf high low >>> 8).toUInt8 = high := by
    apply UInt8.toNat_inj.mp
    rw [UInt16.toNat_toUInt8, UInt16.toNat_shiftRight, hword]
    show ((high.toNat * 256 + low.toNat) >>> 8) % 256 = high.toNat
    rw [Nat.shiftRight_eq_div_pow]
    omega
  have hsecond : (wordOf high low).toUInt8 = low := by
    apply UInt8.toNat_inj.mp
    rw [UInt16.toNat_toUInt8, hword]
    omega
  unfold wordBytes
  rw [hfirst, hsecond]

theorem wordOf_wordBytes (word : UInt16) : wordOf (word >>> 8).toUInt8 word.toUInt8 = word := by
  have hlt := word.toNat_lt
  apply UInt16.toNat_inj.mp
  rw [wordOf_toNat, UInt16.toNat_toUInt8, UInt16.toNat_toUInt8, UInt16.toNat_shiftRight]
  show (word.toNat >>> 8) % 256 * 256 + word.toNat % 256 = word.toNat
  rw [Nat.shiftRight_eq_div_pow]
  omega

/-- The word at a place of a blob of words. -/
theorem wordAt_flatMap (hi : i < words.length) :
    wordOf ((words.flatMap wordBytes).getD (i * 2) 0)
      ((words.flatMap wordBytes).getD (i * 2 + 1) 0) = words[i] := by
  induction words generalizing i with
  | nil => exact absurd hi (Nat.not_lt_zero i)
  | cons word words ih =>
    cases i with
    | zero => exact wordOf_wordBytes word
    | succ i =>
      have hrest := ih (Nat.lt_of_succ_lt_succ hi)
      have hplace : (i + 1) * 2 = i * 2 + 1 + 1 := by omega
      rw [List.flatMap_cons, hplace]
      exact hrest

theorem length_flatMap_wordBytes (words : List UInt16) :
    (words.flatMap wordBytes).length = words.length * 2 := by
  induction words with
  | nil => rfl
  | cons word words ih =>
    rw [List.flatMap_cons, List.length_append, ih, List.length_cons]
    show 2 + words.length * 2 = _
    omega

/-! ### What `from_row` accepts -/

theorem idOf_lt_of_not_le {word : UInt16} (h : ¬(unpackGrant word).1 ≤ previousId) :
    previousId.toNat < idOf word := by
  rw [UInt16.le_iff_toNat_le] at h
  exact not_le.mp h

theorem pairwise_cons_of_lt {a b : ℕ} {ids : List ℕ} (hab : a < b)
    (h : List.Pairwise (· < ·) (b :: ids)) : List.Pairwise (· < ·) (a :: b :: ids) := by
  refine List.pairwise_cons.mpr ⟨?_, h⟩
  intro x hx
  rcases List.mem_cons.mp hx with rfl | hx
  · exact hab
  · exact hab.trans ((List.pairwise_cons.mp h).1 x hx)

theorem ascendingGrants_ok (h : ascendingGrants previousId bytes = .ok ())
    (heven : bytes.length % 2 = 0) :
    ∃ words : List UInt16, bytes = words.flatMap wordBytes ∧
      List.Pairwise (· < ·) (previousId.toNat :: words.map idOf) := by
  fun_induction ascendingGrants previousId bytes with
  | case1 previousId high low bytes grantedId hle => cases h
  | case2 previousId high low bytes grantedId hlt ih =>
    rw [List.length_cons, List.length_cons] at heven
    obtain ⟨words, hbytes, hascending⟩ := ih h (by omega)
    refine ⟨wordOf high low :: words, ?_, ?_⟩
    · rw [List.flatMap_cons, wordBytes_wordOf, ← hbytes]
      rfl
    · exact pairwise_cons_of_lt (idOf_lt_of_not_le hlt) hascending
  | case3 bytes previousId hshort =>
    cases bytes with
    | nil => exact ⟨[], rfl, List.pairwise_singleton _ _⟩
    | cons byte bytes =>
      cases bytes with
      | nil => cases heven
      | cons byte' bytes => exact absurd rfl (hshort byte byte' bytes)

theorem validateGrants_ok (h : validateGrants bytes = .ok ()) :
    ∃ words : List UInt16, bytes = words.flatMap wordBytes ∧
      List.Pairwise (· < ·) (words.map idOf) := by
  unfold validateGrants at h
  dsimp only at h
  split_ifs at h with hodd
  obtain ⟨words, hbytes, hascending⟩ := ascendingGrants_ok h (by simpa [grantWordSize] using hodd)
  exact ⟨words, hbytes, (List.pairwise_cons.mp hascending).2⟩

theorem subRunMask_ok {grantedId mask mask' : UInt16} {index : ℕ} {rest : List UInt8}
    (h : subRunMask grantedId mask index bytes = .ok (mask', rest)) :
    ∃ run, bytes = run ++ rest ∧ Terminated run ∧ run.length + index ≤ 3 := by
  induction bytes generalizing mask index with
  | nil => cases h
  | cons byte bytes ih =>
    unfold subRunMask at h
    split_ifs at h with hindex hmore
    · obtain ⟨-, rfl⟩ := Prod.mk.inj (Except.ok.inj h)
      refine ⟨[byte], rfl, ?_, ?_⟩
      · unfold Terminated
        rw [if_pos hmore]
      · rw [List.length_singleton]
        omega
    · obtain ⟨run, rfl, hrun, hlength⟩ := ih h
      refine ⟨byte :: run, rfl, ?_, ?_⟩
      · unfold Terminated
        rwa [if_neg hmore]
      · rw [List.length_cons]
        omega

theorem subGrantsFrom_ok {total : ℕ} (h : subGrantsFrom total fuel previousId bytes = .ok ()) :
    ∃ subs : List (UInt16 × List UInt8),
      bytes = subs.flatMap (fun entry => wordBytes entry.1 ++ entry.2) ∧
      List.Pairwise (· < ·) (previousId.toNat :: subs.map fun entry => idOf entry.1) ∧
      ∀ entry ∈ subs, Terminated entry.2 ∧ entry.2.length ≤ 3 ∧ ∃ mask rest,
        subRunMask (unpackGrant entry.1).1 0 0 (entry.2 ++ rest) = .ok (mask, rest) ∧
          mask ≠ 0 := by
  induction fuel generalizing previousId bytes with
  | zero =>
    cases bytes with
    | nil => exact ⟨[], rfl, List.pairwise_singleton _ _, fun _ h => by cases h⟩
    | cons => simp [subGrantsFrom] at h
  | succ fuel ih =>
    match bytes with
    | [] => exact ⟨[], rfl, List.pairwise_singleton _ _, fun _ h => by cases h⟩
    | [byte] => simp [subGrantsFrom] at h
    | high :: low :: bytes =>
      unfold subGrantsFrom at h
      dsimp only at h
      split_ifs at h with hle
      obtain ⟨⟨mask, rest⟩, hrun, hbind⟩ := bind_eq_ok.mp h
      dsimp only at hbind
      split_ifs at hbind with hmask
      obtain ⟨run, rfl, hterminated, hlength⟩ := subRunMask_ok hrun
      obtain ⟨subs, rfl, hascending, hall⟩ := ih hbind
      refine ⟨(wordOf high low, run) :: subs, ?_, ?_, ?_⟩
      · rw [List.flatMap_cons]
        dsimp only
        rw [wordBytes_wordOf]
        rfl
      · exact pairwise_cons_of_lt (idOf_lt_of_not_le hle) hascending
      · intro entry hentry
        rcases List.mem_cons.mp hentry with rfl | hentry
        · exact ⟨hterminated, hlength, mask, _, hrun, hmask⟩
        · exact hall entry hentry

/-- **What `from_row` accepts**: two lists of entries, written one after the other. -/
theorem entries_of_fromRow {loadedAt : Int} {state : UserAccessState}
    (h : UserAccessState.fromRow (some row) loadedAt = .ok state) :
    state = ⟨row.grantsBlob, row.subGrantsBlob, row.status, true, loadedAt⟩ ∧
      ∃ words subs, Entries row words subs := by
  obtain ⟨_, hgrants, h⟩ := bind_eq_ok.mp h
  obtain ⟨_, hsubs, h⟩ := bind_eq_ok.mp h
  obtain ⟨words, hwords, hascending⟩ := validateGrants_ok hgrants
  obtain ⟨subs, hsubs, hsubsAscending, hterminated⟩ := subGrantsFrom_ok hsubs
  exact ⟨(Except.ok.inj h).symm, words, subs, hwords, hsubs, hascending,
    (List.pairwise_cons.mp hsubsAscending).2,
    fun entry hentry => (hterminated entry hentry).imp_right And.left⟩

/-! ### The binary search -/

theorem idOf_lt_of_lt (hascending : List.Pairwise (· < ·) (words.map idOf)) {j : ℕ} (hij : i < j)
    (hi : i < words.length) (hj : j < words.length) : idOf words[i] < idOf words[j] := by
  have := List.pairwise_iff_getElem.mp hascending i j (by rw [List.length_map]; omega)
    (by rw [List.length_map]; omega) hij
  simpa using this

/-- The search finds the entry of the required access, if it can only lie in the range. -/
theorem searchGrants_iff (hascending : List.Pairwise (· < ·) (words.map idOf)) {low high : ℕ}
    (hhigh : high ≤ words.length) (hfuel : high - low < fuel)
    (hinside : ∀ i (hi : i < words.length), idOf words[i] = idOf required → low ≤ i ∧ i < high) :
    searchGrants (words.flatMap wordBytes) (unpackGrant required).1 (unpackGrant required).2 fuel
      low high = true ↔ ∃ word ∈ words, Covers word required := by
  induction fuel generalizing low high with
  | zero => omega
  | succ fuel ih =>
    unfold searchGrants
    by_cases hrange : low < high
    · rw [if_pos hrange]
      have hmiddle : (low + high) / 2 < words.length := by omega
      have hword := wordAt_flatMap hmiddle
      have hsize : grantWordSize = 2 := rfl
      dsimp only
      rw [hsize, hword]
      generalize hmid : (low + high) / 2 = middle at *
      split_ifs with hless hgreater
      · -- what is at or before the middle has a smaller id
        apply ih hhigh (by omega)
        intro i hi hid
        obtain ⟨hlow, hlt⟩ := hinside i hi hid
        refine ⟨?_, hlt⟩
        by_contra hle
        have hid' : idOf words[i] ≤ idOf words[middle] := by
          rcases Nat.lt_or_eq_of_le (show i ≤ middle by omega) with hlt' | rfl
          · exact (idOf_lt_of_lt hascending hlt' hi hmiddle).le
          · exact le_rfl
        have hless' : idOf words[middle] < idOf required := UInt16.lt_iff_toNat_lt.mp hless
        omega
      · -- what is at or after the middle has a larger id
        apply ih (by omega) (by omega)
        intro i hi hid
        obtain ⟨hlow, hlt⟩ := hinside i hi hid
        refine ⟨hlow, ?_⟩
        by_contra hle
        have hid' : idOf words[middle] ≤ idOf words[i] := by
          rcases Nat.lt_or_eq_of_le (show middle ≤ i by omega) with hlt' | rfl
          · exact (idOf_lt_of_lt hascending hlt' hmiddle hi).le
          · exact le_rfl
        have hgreater' : idOf required < idOf words[middle] :=
          UInt16.lt_iff_toNat_lt.mp hgreater
        omega
      · -- the middle is the only entry with the id
        have hid : idOf words[middle] = idOf required := by
          have hge := mt UInt16.lt_iff_toNat_lt.mpr hless
          have hle := mt UInt16.lt_iff_toNat_lt.mpr hgreater
          unfold idOf
          omega
        rw [decide_eq_true_iff]
        constructor
        · intro hlevel
          exact ⟨words[middle], List.getElem_mem hmiddle, UInt16.toNat_inj.mp hid, hlevel⟩
        · rintro ⟨word, hmem, hcovers, hlevel⟩
          obtain ⟨i, hi, rfl⟩ := List.mem_iff_getElem.mp hmem
          have hid' : idOf words[i] = idOf required := congrArg UInt16.toNat hcovers
          have heq : i = middle := by
            rcases Nat.lt_trichotomy i middle with hlt | heq | hlt
            · have := idOf_lt_of_lt hascending hlt hi hmiddle
              omega
            · exact heq
            · have := idOf_lt_of_lt hascending hlt hmiddle hi
              omega
          subst heq
          exact hlevel
    · rw [if_neg hrange]
      constructor
      · intro h
        cases h
      · rintro ⟨word, hmem, hcovers, -⟩
        obtain ⟨i, hi, rfl⟩ := List.mem_iff_getElem.mp hmem
        have := hinside i hi (congrArg UInt16.toNat hcovers)
        omega

theorem holdsInGrants_iff (h : Entries row words subs) (required : UInt16) :
    holdsInGrants row.grantsBlob required = true ↔ ∃ word ∈ words, Covers word required := by
  have hcount : row.grantsBlob.length / grantWordSize = words.length := by
    rw [h.grants, length_flatMap_wordBytes]
    exact Nat.mul_div_cancel _ (by decide)
  unfold holdsInGrants
  dsimp only
  rw [hcount, h.grants]
  exact searchGrants_iff h.ascending le_rfl (by omega) fun i hi _ => ⟨Nat.zero_le i, hi⟩

/-! ### The scan -/

theorem takeSubRun_append {run : List UInt8} (hrun : Terminated run) (rest : List UInt8) :
    takeSubRun (run ++ rest) = (run, rest) := by
  induction run with
  | nil => exact hrun.elim
  | cons byte run ih =>
    unfold Terminated at hrun
    rw [List.cons_append, takeSubRun]
    split_ifs at hrun ⊢ with hmore
    · subst hrun
      rfl
    · rw [ih hrun]

theorem scanSubGrants_iff (hascending : List.Pairwise (· < ·) (subs.map fun entry => idOf entry.1))
    (hterminated : ∀ entry ∈ subs, Terminated entry.2) (hfuel : subs.length ≤ fuel)
    (run : List UInt8) :
    scanSubGrants (unpackGrant required).1 (unpackGrant required).2 fuel
        (subs.flatMap fun entry => wordBytes entry.1 ++ entry.2) = some run ↔
      ∃ word, (word, run) ∈ subs ∧ Covers word required := by
  induction subs generalizing fuel with
  | nil =>
    constructor
    · intro h
      cases fuel <;> cases h
    · rintro ⟨word, hmem, -⟩
      cases hmem
  | cons entry subs ih =>
    obtain ⟨word, run'⟩ := entry
    rw [List.map_cons, List.pairwise_cons] at hascending
    obtain ⟨hfirst, hascending⟩ := hascending
    have hrun := takeSubRun_append (hterminated _ List.mem_cons_self)
      (subs.flatMap fun entry => wordBytes entry.1 ++ entry.2)
    cases fuel with
    | zero => exact absurd hfuel (by simp)
    | succ fuel =>
      have hword : wordBytes word = [(word >>> 8).toUInt8, word.toUInt8] := rfl
      rw [List.flatMap_cons]
      dsimp only
      rw [hword, List.append_assoc]
      show scanSubGrants _ _ (fuel + 1)
        ((word >>> 8).toUInt8 :: word.toUInt8 :: (run' ++ _)) = _ ↔ _
      rw [scanSubGrants, wordOf_wordBytes, hrun]
      dsimp only
      -- the entries after this one have larger ids
      have hrest : idOf required ≤ idOf word → ∀ word', (word', run) ∈ subs →
          ¬Covers word' required := by
        intro hle word' hmem hcovers
        have hid : idOf word' = idOf required := congrArg UInt16.toNat hcovers.1
        have hlt : idOf word < idOf word' := hfirst _ (List.mem_map_of_mem hmem)
        omega
      split_ifs with hid hlevel hgreater
      · constructor
        · intro h
          cases h
          exact ⟨word, List.mem_cons_self, hid, hlevel⟩
        · rintro ⟨word', hmem, hcovers⟩
          rcases List.mem_cons.mp hmem with heq | hmem
          · rw [(Prod.mk.inj heq).2]
          · exact absurd hcovers (hrest (congrArg UInt16.toNat hid).ge word' hmem)
      · constructor
        · intro h
          cases h
        · rintro ⟨word', hmem, hcovers⟩
          rcases List.mem_cons.mp hmem with heq | hmem
          · rw [(Prod.mk.inj heq).1] at hcovers
            exact absurd hcovers.2 hlevel
          · exact absurd hcovers (hrest (congrArg UInt16.toNat hid).ge word' hmem)
      · constructor
        · intro h
          cases h
        · rintro ⟨word', hmem, hcovers⟩
          rcases List.mem_cons.mp hmem with heq | hmem
          · rw [(Prod.mk.inj heq).1] at hcovers
            exact absurd hcovers.1 hid
          · exact absurd hcovers (hrest (UInt16.lt_iff_toNat_lt.mp hgreater).le word' hmem)
      · rw [ih hascending (fun entry hentry => hterminated entry (List.mem_cons_of_mem _ hentry))
          (Nat.le_of_succ_le_succ hfuel)]
        constructor
        · rintro ⟨word', hmem, hcovers⟩
          exact ⟨word', List.mem_cons_of_mem _ hmem, hcovers⟩
        · rintro ⟨word', hmem, hcovers⟩
          rcases List.mem_cons.mp hmem with heq | hmem
          · rw [(Prod.mk.inj heq).1] at hcovers
            exact absurd hcovers.1 hid
          · exact ⟨word', hmem, hcovers⟩

theorem length_le_flatMap (subs : List (UInt16 × List UInt8)) :
    subs.length ≤ (subs.flatMap fun entry => wordBytes entry.1 ++ entry.2).length := by
  induction subs with
  | nil => exact Nat.le_refl 0
  | cons entry =>
    rw [List.flatMap_cons, List.length_append, List.length_append, List.length_cons]
    have : (wordBytes entry.1).length = 2 := rfl
    omega

theorem findInSubGrants_iff (h : Entries row words subs) (required : UInt16) (run : List UInt8) :
    findInSubGrants row.subGrantsBlob required = some run ↔
      ∃ word, (word, run) ∈ subs ∧ Covers word required := by
  unfold findInSubGrants
  rw [h.subGrants]
  exact scanSubGrants_iff h.subsAscending (fun entry hentry => (h.terminated entry hentry).1)
    (length_le_flatMap subs) run

end Fareward.Limiter.Access
