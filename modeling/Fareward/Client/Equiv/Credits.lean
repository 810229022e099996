import Fareward.Client.Credits
import Fareward.Limiter.Equiv.Access
import Fareward.Service.Reply
import Mathlib.Tactic.IntervalCases

/-!
# An access verdict from the blobs to the caller

`verdict` goes over the required slots and collects two masks and the sub bytes; the reply carries
them and `decodeAccessGrant` takes them apart again. `Answered` is what the loop over the slots
keeps: which bits of the masks are set, and that the sub bytes are the runs of the slots that only
the second blob grants, one after the other. Every run ends where its `MORE` bit says, so the
client cuts the bytes where the daemon put them together (`takeRuns_flatMap`).
-/

namespace Fareward.Client

open Limiter Limiter.Access Service

variable {j i n k : Nat} {mask : UInt8} {slots : List UInt16} {P : UInt16 → Prop}
  {required : UInt16} {verdict : AccessVerdict} {run : List UInt8}

/-! ### Masks -/

theorem toBitVec_slotBit (hj : j < 8) : (slotBit j).toBitVec = BitVec.twoPow 8 j := by
  interval_cases j <;> rfl

theorem and_slotBit_ne_zero (hj : j < 8) :
    mask &&& slotBit j ≠ 0 ↔ mask.toBitVec.getLsbD j = true := by
  have hbits : (mask &&& slotBit j).toBitVec =
      if mask.toBitVec.getLsbD j then BitVec.twoPow 8 j else 0#8 := by
    rw [UInt8.toBitVec_and, toBitVec_slotBit hj, BitVec.and_twoPow]
  have htwoPow : BitVec.twoPow 8 j ≠ 0#8 := by
    interval_cases j <;> decide
  rw [ne_eq, ← UInt8.toBitVec_inj, hbits]
  cases mask.toBitVec.getLsbD j with
  | false => simp
  | true => simpa using htwoPow

theorem or_slotBit_ne_zero (hi : i < 8) (hj : j < 8) :
    (mask ||| slotBit i) &&& slotBit j ≠ 0 ↔ mask &&& slotBit j ≠ 0 ∨ i = j := by
  rw [and_slotBit_ne_zero hj, and_slotBit_ne_zero hj, UInt8.toBitVec_or, toBitVec_slotBit hi,
    BitVec.getLsbD_or, BitVec.getLsbD_twoPow, Bool.or_eq_true, Bool.and_eq_true,
    decide_eq_true_iff, decide_eq_true_iff]
  constructor
  · rintro (h | ⟨-, h⟩)
    · exact .inl h
    · exact .inr h
  · rintro (h | h)
    · exact .inl h
    · exact .inr ⟨hi, h⟩

theorem ne_zero_iff_slotBit : mask ≠ 0 ↔ ∃ j < 8, mask &&& slotBit j ≠ 0 := by
  constructor
  · intro hne
    by_contra hnone
    apply hne
    apply UInt8.toBitVec_inj.mp
    apply BitVec.eq_of_getLsbD_eq
    intro j hj
    cases hbit : mask.toBitVec.getLsbD j with
    | false => simp
    | true => exact absurd ⟨j, hj, (and_slotBit_ne_zero hj).mpr hbit⟩ hnone
  · rintro ⟨j, hj, hbit⟩ rfl
    exact hbit (by simp)

theorem and_not_eq_zero {mask' : UInt8}
    (h : ∀ j < 8, mask &&& slotBit j ≠ 0 → mask' &&& slotBit j ≠ 0) : mask &&& ~~~mask' = 0 := by
  apply UInt8.toBitVec_inj.mp
  apply BitVec.eq_of_getLsbD_eq
  intro j hj
  rw [UInt8.toBitVec_and, UInt8.toBitVec_not, BitVec.getLsbD_and, BitVec.getLsbD_not]
  cases hbit : mask.toBitVec.getLsbD j with
  | false => simp
  | true =>
    have hbit' := (and_slotBit_ne_zero hj).mp (h j hj ((and_slotBit_ne_zero hj).mpr hbit))
    simp [hbit']

/-! ### The loop over the slots -/

/-- The run of a slot that only the second blob grants. -/
def subRun (state : UserAccessState) (required : UInt16) : Option (List UInt8) :=
  if holdsInGrants state.grants required then none else findInSubGrants state.subGrants required

/-- What the verdict over the first `n` slots is. -/
structure Answered (state : UserAccessState) (slots : List UInt16) (n : Nat)
    (verdict : AccessVerdict) : Prop where
  granted : ∀ j < 8, verdict.grantedMask &&& slotBit j ≠ 0 ↔ j < n ∧ ∃ s, slots[j]? = some s ∧
    (holdsInGrants state.grants s = true ∨ (findInSubGrants state.subGrants s).isSome)
  hasSubs : ∀ j < 8, verdict.hasSubsMask &&& slotBit j ≠ 0 ↔ j < n ∧ ∃ s, slots[j]? = some s ∧
    (subRun state s).isSome
  subBytes : verdict.subBytes = (slots.take n).flatMap fun s => (subRun state s).getD []

theorem Answered.none (state : UserAccessState) (slots : List UInt16) :
    Answered state slots 0 AccessVerdict.none := by
  refine ⟨fun j hj => ?_, fun j hj => ?_, rfl⟩
  · simp [AccessVerdict.none]
  · simp [AccessVerdict.none]

/-- A bit that is set with a slot. -/
theorem or_slotBit_iff (hn : n < 8) (hslot : slots[n]? = some required) (hP : P required)
    (h : ∀ j < 8, mask &&& slotBit j ≠ 0 ↔ j < n ∧ ∃ s, slots[j]? = some s ∧ P s) :
    ∀ j < 8, (mask ||| slotBit n) &&& slotBit j ≠ 0 ↔
      j < n + 1 ∧ ∃ s, slots[j]? = some s ∧ P s := by
  intro j hj
  rw [or_slotBit_ne_zero hn hj, h j hj]
  constructor
  · rintro (⟨hlt, hs⟩ | rfl)
    · exact ⟨by omega, hs⟩
    · exact ⟨by omega, required, hslot, hP⟩
  · rintro ⟨hlt, hs⟩
    rcases Nat.lt_or_eq_of_le (Nat.le_of_lt_succ hlt) with hlt | rfl
    · exact .inl ⟨hlt, hs⟩
    · exact .inr rfl

/-- A bit that stays clear with a slot. -/
theorem slotBit_iff (hslot : slots[n]? = some required) (hP : ¬P required)
    (h : ∀ j < 8, mask &&& slotBit j ≠ 0 ↔ j < n ∧ ∃ s, slots[j]? = some s ∧ P s) :
    ∀ j < 8, mask &&& slotBit j ≠ 0 ↔ j < n + 1 ∧ ∃ s, slots[j]? = some s ∧ P s := by
  intro j hj
  rw [h j hj]
  constructor
  · rintro ⟨hlt, hs⟩
    exact ⟨by omega, hs⟩
  · rintro ⟨hlt, s, hs, hPs⟩
    refine ⟨?_, s, hs, hPs⟩
    rcases Nat.lt_or_eq_of_le (Nat.le_of_lt_succ hlt) with hlt | rfl
    · exact hlt
    · obtain rfl := Option.some.inj (hslot.symm.trans hs)
      exact absurd hPs hP

theorem Answered.grantSlot {state : UserAccessState} (h : Answered state slots n verdict)
    (hn : n < 8) (hslot : slots[n]? = some required) :
    Answered state slots (n + 1) (Access.grantSlot state verdict n required) := by
  have htake : slots.take (n + 1) = slots.take n ++ [required] := by
    rw [List.take_add_one, hslot]
    rfl
  have hbytes : (slots.take (n + 1)).flatMap (fun s => (subRun state s).getD []) =
      verdict.subBytes ++ (subRun state required).getD [] := by
    rw [htake, List.flatMap_append, ← h.subBytes, List.flatMap_singleton]
  unfold Access.grantSlot
  dsimp only
  split_ifs with hholds
  · -- the first blob has it
    have hrun : subRun state required = Option.none := if_pos hholds
    refine ⟨or_slotBit_iff hn hslot (.inl hholds) h.granted, ?_, ?_⟩
    · exact slotBit_iff hslot (by simp [hrun]) h.hasSubs
    · rw [hbytes, hrun, Option.getD_none, List.append_nil]
  · have hrun : subRun state required = findInSubGrants state.subGrants required := if_neg hholds
    cases hfind : findInSubGrants state.subGrants required with
    | some =>
      rw [hfind] at hrun
      refine ⟨or_slotBit_iff hn hslot (.inr (by simp [hfind])) h.granted, ?_, ?_⟩
      · exact or_slotBit_iff hn hslot (by simp [hrun]) h.hasSubs
      · rw [hbytes, hrun, Option.getD_some]
    | none =>
      rw [hfind] at hrun
      refine ⟨slotBit_iff hslot (by simp [hfind, hholds]) h.granted, ?_, ?_⟩
      · exact slotBit_iff hslot (by simp [hrun]) h.hasSubs
      · rw [hbytes, hrun, Option.getD_none, List.append_nil]

theorem Answered.grantSlots {state : UserAccessState} {rest : List UInt16}
    (h : Answered state slots n verdict) (hslots : slots.length ≤ 8) (hrest : slots.drop n = rest)
    (hn : n ≤ slots.length) :
    Answered state slots slots.length (Access.grantSlots state verdict n rest) := by
  induction rest generalizing n verdict with
  | nil =>
    have hend := List.drop_eq_nil_iff.mp hrest
    obtain rfl : n = slots.length := by omega
    exact h
  | cons required rest ih =>
    have hlt : n < slots.length := by
      by_contra hge
      rw [List.drop_eq_nil_of_le (not_lt.mp hge)] at hrest
      cases hrest
    rw [List.drop_eq_getElem_cons hlt] at hrest
    obtain ⟨hfirst, htail⟩ := List.cons.inj hrest
    subst hfirst
    exact ih (h.grantSlot (by omega) (List.getElem?_eq_getElem hlt)) htail hlt

/-! ### The client's side -/

theorem takeRun_append (hrun : Terminated run) (slotIndex : Nat) (rest : List UInt8) :
    takeRun slotIndex (run ++ rest) = .ok (run, rest) := by
  induction run with
  | nil => exact hrun.elim
  | cons byte run ih =>
    have hbit : subAccesoMoreBit = subMoreBit := rfl
    unfold Terminated at hrun
    rw [List.cons_append, takeRun, hbit]
    split_ifs at hrun ⊢ with hmore
    · subst hrun
      rfl
    · rw [ih hrun]
      rfl

/-- The runs of the slots, each under its index. -/
def runsFrom (state : UserAccessState) : Nat → List UInt16 → List (Nat × List UInt8)
  | _, [] => []
  | k, s :: slots =>
    match subRun state s with
    | some run => (k, run) :: runsFrom state (k + 1) slots
    | none => runsFrom state (k + 1) slots

theorem mem_runsFrom {state : UserAccessState} : (i, run) ∈ runsFrom state k slots ↔
      ∃ j s, i = k + j ∧ slots[j]? = some s ∧ subRun state s = some run := by
  induction slots generalizing k with
  | nil =>
    constructor
    · intro h
      cases h
    · rintro ⟨j, s, -, hs, -⟩
      cases hs
  | cons s slots ih =>
    have hrest : (i, run) ∈ runsFrom state (k + 1) slots ↔
        ∃ j s', i = k + (j + 1) ∧ (s :: slots)[j + 1]? = some s' ∧ subRun state s' = some run := by
      rw [ih]
      constructor
      · rintro ⟨j, s', rfl, hs, hrun⟩
        exact ⟨j, s', by omega, hs, hrun⟩
      · rintro ⟨j, s', rfl, hs, hrun⟩
        exact ⟨j, s', by omega, hs, hrun⟩
    unfold runsFrom
    cases hsub : subRun state s with
    | none =>
      dsimp only
      rw [hrest]
      constructor
      · rintro ⟨j, s', hi, hs, hrun⟩
        exact ⟨j + 1, s', hi, hs, hrun⟩
      · rintro ⟨j, s', hi, hs, hrun⟩
        cases j with
        | zero =>
          cases hs
          rw [hsub] at hrun
          cases hrun
        | succ j => exact ⟨j, s', hi, hs, hrun⟩
    | some =>
      dsimp only
      rw [List.mem_cons, hrest]
      constructor
      · rintro (heq | ⟨j, s', hi, hs, hrun⟩)
        · obtain ⟨rfl, rfl⟩ := Prod.mk.inj heq
          exact ⟨0, s, rfl, rfl, hsub⟩
        · exact ⟨j + 1, s', hi, hs, hrun⟩
      · rintro ⟨j, s', hi, hs, hrun⟩
        cases j with
        | zero =>
          cases hs
          rw [hsub] at hrun
          cases hrun
          exact .inl (Prod.ext hi rfl)
        | succ j => exact .inr ⟨j, s', hi, hs, hrun⟩

/-- The client cuts the sub bytes where the daemon put them together. -/
theorem takeRuns_flatMap {state : UserAccessState} {hasSubs : UInt8}
    (hterminated : ∀ s run, subRun state s = some run → Terminated run) {count : Nat}
    (hslots : slots.length ≤ count) (hbits : ∀ j < count, hasSubs &&& slotBit (k + j) ≠ 0 ↔
      ∃ s, slots[j]? = some s ∧ (subRun state s).isSome) :
    takeRuns hasSubs count k (slots.flatMap fun s => (subRun state s).getD []) =
      .ok (runsFrom state k slots, []) := by
  induction count generalizing k slots with
  | zero =>
    obtain rfl := List.eq_nil_of_length_eq_zero (Nat.le_zero.mp hslots)
    rfl
  | succ count ih =>
    have hfirst := hbits 0 (Nat.succ_pos count)
    rw [Nat.add_zero] at hfirst
    have hnext : ∀ j < count, hasSubs &&& slotBit (k + 1 + j) ≠ 0 ↔
        ∃ s, slots.tail[j]? = some s ∧ (subRun state s).isSome := by
      intro j hj
      have hplace : k + 1 + j = k + (j + 1) := by omega
      rw [hplace, hbits (j + 1) (by omega), List.getElem?_tail]
    have hrest := ih (by rw [List.length_tail]; omega) hnext
    unfold takeRuns
    cases slots with
    | nil =>
      have hclear : hasSubs &&& slotBit k = 0 := by
        by_contra hset
        obtain ⟨s, hs, -⟩ := hfirst.mp hset
        cases hs
      rw [if_pos hclear]
      exact hrest
    | cons s slots =>
      unfold runsFrom
      rw [List.flatMap_cons]
      cases hsub : subRun state s with
      | none =>
        have hclear : hasSubs &&& slotBit k = 0 := by
          by_contra hset
          obtain ⟨s', hs, hsome⟩ := hfirst.mp hset
          obtain rfl : s = s' := Option.some.inj hs
          rw [hsub] at hsome
          cases hsome
        rw [if_pos hclear]
        exact hrest
      | some run =>
        have hset : hasSubs &&& slotBit k ≠ 0 := hfirst.mpr ⟨s, rfl, by rw [hsub]; rfl⟩
        rw [if_neg hset, Option.getD_some, takeRun_append (hterminated s run hsub)]
        show (takeRuns hasSubs count (k + 1) _ >>= _) = _
        rw [show takeRuns hasSubs count (k + 1) (slots.flatMap fun s => (subRun state s).getD []) =
          _ from hrest]
        rfl

/-! ### End to end -/

/-- The required slots of a frame: filled from the first on, and zero after the last. -/
def requiredOf (slots : List UInt16) : List UInt16 :=
  slots ++ List.replicate (maxRequiredAccess - slots.length) 0

theorem takeWhile_requiredOf (hslots : ∀ s ∈ slots, s ≠ 0) :
    (requiredOf slots).takeWhile (· ≠ 0) = slots := by
  unfold requiredOf
  rw [List.takeWhile_append_of_pos fun s hs => by simpa using hslots s hs]
  rw [List.takeWhile_replicate_eq_filter, List.filter_replicate]
  simp

theorem length_flatMap_le {α β : Type} {f : α → List β} {bound : Nat}
    (h : ∀ a, (f a).length ≤ bound) (as : List α) : (as.flatMap f).length ≤ as.length * bound := by
  induction as with
  | nil => simp
  | cons a =>
    have := h a
    rw [List.flatMap_cons, List.length_append, List.length_cons, Nat.add_mul]
    omega

/-- A required access that an entry of one of the blobs covers. -/
def Granted (words : List UInt16) (subs : List (UInt16 × List UInt8)) (required : UInt16) : Prop :=
  (∃ word ∈ words, Covers word required) ∨ ∃ entry ∈ subs, Covers entry.1 required

section

variable {row : StoredUserAccess} {words : List UInt16} {subs : List (UInt16 × List UInt8)}
  {state : UserAccessState}

theorem granted_iff (hentries : Entries row words subs) (hgrants : state.grants = row.grantsBlob)
    (hsubGrants : state.subGrants = row.subGrantsBlob) (s : UInt16) :
    (holdsInGrants state.grants s = true ∨ (findInSubGrants state.subGrants s).isSome) ↔
      Granted words subs s := by
  rw [hgrants, hsubGrants, holdsInGrants_iff hentries, Option.isSome_iff_exists]
  unfold Granted
  constructor
  · rintro (h | ⟨run, hrun⟩)
    · exact .inl h
    · obtain ⟨word, hmem, hcovers⟩ := (findInSubGrants_iff hentries s run).mp hrun
      exact .inr ⟨(word, run), hmem, hcovers⟩
  · rintro (h | ⟨⟨word, run⟩, hmem, hcovers⟩)
    · exact .inl h
    · exact .inr ⟨run, (findInSubGrants_iff hentries s run).mpr ⟨word, hmem, hcovers⟩⟩

theorem subRun_eq_some (hentries : Entries row words subs)
    (hgrants : state.grants = row.grantsBlob) (hsubGrants : state.subGrants = row.subGrantsBlob)
    (s : UInt16) (run : List UInt8) :
    subRun state s = some run ↔
      (¬∃ word ∈ words, Covers word s) ∧ ∃ word, (word, run) ∈ subs ∧ Covers word s := by
  unfold subRun
  rw [hgrants, hsubGrants, ← holdsInGrants_iff hentries s, ← findInSubGrants_iff hentries s run]
  split_ifs with hholds
  · simp [hholds]
  · simp [hholds]

end

/-- The loop over the slots is what decides, for an active user. -/
theorem verdict_requiredOf {state : UserAccessState} (hfound : state.found = true)
    (hactive : state.status = activeUserStatus) (hslots : ∀ s ∈ slots, s ≠ 0) :
    state.verdict (requiredOf slots) =
      if (Access.grantSlots state .none 0 slots).grantedMask ≠ 0 then
        .ok (Access.grantSlots state .none 0 slots)
      else .error .noAccess := by
  unfold UserAccessState.verdict
  rw [takeWhile_requiredOf hslots, if_neg (by simp [hfound]), if_neg (not_not.mpr hactive)]

/-- The mask is empty when no slot is granted. -/
theorem grantedMask_eq_zero (hlength : slots.length ≤ 8)
    (hgranted : ∀ j < 8, verdict.grantedMask &&& slotBit j ≠ 0 ↔ ∃ s, slots[j]? = some s ∧ P s) :
    verdict.grantedMask = 0 ↔ ∀ s ∈ slots, ¬P s := by
  rw [← not_iff_not, ← ne_eq, ne_zero_iff_slotBit]
  simp only [not_forall, not_not]
  constructor
  · rintro ⟨j, hj, hbit⟩
    obtain ⟨s, hs, hP⟩ := (hgranted j hj).mp hbit
    exact ⟨s, List.mem_of_getElem? hs, hP⟩
  · rintro ⟨s, hmem, hP⟩
    obtain ⟨j, hj, rfl⟩ := List.mem_iff_getElem.mp hmem
    exact ⟨j, by omega, (hgranted j (by omega)).mpr ⟨_, List.getElem?_eq_getElem hj, hP⟩⟩

/-- **The client reads what the daemon collected.** -/
theorem Answered.decodeAccessGrant {state : UserAccessState}
    (h : Answered state slots slots.length verdict) (hlength : slots.length ≤ maxRequiredAccess)
    (hruns : ∀ s run, subRun state s = some run → Terminated run ∧ run.length ≤ 3)
    (hne : verdict.grantedMask ≠ 0) :
    decodeAccessGrant
        (Reply.chargeGranted verdict.grantedMask verdict.hasSubsMask verdict.subBytes).body =
      .ok ⟨verdict.grantedMask, runsFrom state 0 slots⟩ := by
  have hfour : maxRequiredAccess = 4 := rfl
  have hbytes : verdict.subBytes = slots.flatMap fun s => (subRun state s).getD [] := by
    rw [h.subBytes, List.take_length]
  have hcount : verdict.subBytes.length ≤ slots.length * 3 := by
    rw [hbytes]
    apply length_flatMap_le
    intro s
    cases hrun : subRun state s with
    | none => simp
    | some run => exact (hruns s run hrun).2
  have hdeclared : (UInt8.ofNat verdict.subBytes.length).toNat = verdict.subBytes.length := by
    rw [UInt8.toNat_ofNat']
    omega
  have hsubset : verdict.hasSubsMask &&& ~~~verdict.grantedMask = 0 := by
    apply and_not_eq_zero
    intro j hj hbit
    obtain ⟨hlt, s, hs, hsome⟩ := (h.hasSubs j hj).mp hbit
    refine (h.granted j hj).mpr ⟨hlt, s, hs, ?_⟩
    unfold subRun at hsome
    split_ifs at hsome with hholds
    · cases hsome
    · exact .inr hsome
  have htake : takeRuns verdict.hasSubsMask maxRequiredAccess 0 verdict.subBytes =
      .ok (runsFrom state 0 slots, []) := by
    rw [hbytes]
    apply takeRuns_flatMap (fun s run hrun => (hruns s run hrun).1) hlength
    intro j hj
    rw [Nat.zero_add, h.hasSubs j (by omega)]
    constructor
    · rintro ⟨-, hs⟩
      exact hs
    · rintro ⟨s, hs, hsome⟩
      obtain ⟨hlt, -⟩ := List.getElem?_eq_some_iff.mp hs
      exact ⟨hlt, s, hs, hsome⟩
  unfold Reply.body Client.decodeAccessGrant
  dsimp only
  rw [hdeclared, if_neg (not_not.mpr rfl), if_neg hne, if_neg (not_not.mpr hsubset), htake]
  rfl

/-- **An access verdict, end to end.** For an active user whose row `from_row` accepts, and any
required slots without a gap: a slot is granted exactly when an entry of one of the blobs covers
it; `NoAccess` is the answer exactly when no slot is granted, and there is no other denial; and the
client gets from the reply the granted slots and, for each slot that only the second blob grants,
the run of sub bytes of its entry under that slot. -/
theorem verdict_decodeAccessGrant {row : StoredUserAccess} {loadedAt : Int}
    {state : UserAccessState} (hrow : UserAccessState.fromRow (some row) loadedAt = .ok state)
    (hactive : row.status = activeUserStatus) (slots : List UInt16)
    (hlength : slots.length ≤ maxRequiredAccess) (hslots : ∀ s ∈ slots, s ≠ 0) :
    ∃ words subs, Entries row words subs ∧
      (state.verdict (requiredOf slots) = .error .noAccess ↔ ∀ s ∈ slots, ¬Granted words subs s) ∧
      (∀ denial, state.verdict (requiredOf slots) = .error denial → denial = .noAccess) ∧
      ∀ verdict, state.verdict (requiredOf slots) = .ok verdict →
        (∀ j < 8, verdict.grantedMask &&& slotBit j ≠ 0 ↔
          ∃ s, slots[j]? = some s ∧ Granted words subs s) ∧
        ∃ grant, decodeAccessGrant
            (Reply.chargeGranted verdict.grantedMask verdict.hasSubsMask verdict.subBytes).body =
              .ok grant ∧
          grant.grantedSlots = verdict.grantedMask ∧
          ∀ j run, (j, run) ∈ grant.subAccesoBytes ↔ ∃ s, slots[j]? = some s ∧
            (¬∃ word ∈ words, Covers word s) ∧ ∃ word, (word, run) ∈ subs ∧ Covers word s := by
  obtain ⟨rfl, words, subs, hentries⟩ := entries_of_fromRow hrow
  have hfour : maxRequiredAccess = 4 := rfl
  generalize hstate : UserAccessState.mk row.grantsBlob row.subGrantsBlob row.status true
    loadedAt = state at *
  have hgrants : state.grants = row.grantsBlob := by rw [← hstate]
  have hsubGrants : state.subGrants = row.subGrantsBlob := by rw [← hstate]
  have hverdict : state.verdict (requiredOf slots) = _ :=
    verdict_requiredOf (by rw [← hstate]) (by rw [← hstate]; exact hactive) hslots
  have hanswered : Answered state slots slots.length (Access.grantSlots state .none 0 slots) :=
    (Answered.none state slots).grantSlots (by omega) rfl (Nat.zero_le _)
  generalize Access.grantSlots state .none 0 slots = answer at hverdict hanswered
  have hgranted : ∀ j < 8, answer.grantedMask &&& slotBit j ≠ 0 ↔
      ∃ s, slots[j]? = some s ∧ Granted words subs s := by
    intro j hj
    rw [hanswered.granted j hj]
    constructor
    · rintro ⟨-, s, hs, hcovered⟩
      exact ⟨s, hs, (granted_iff hentries hgrants hsubGrants s).mp hcovered⟩
    · rintro ⟨s, hs, hcovered⟩
      obtain ⟨hlt, -⟩ := List.getElem?_eq_some_iff.mp hs
      exact ⟨hlt, s, hs, (granted_iff hentries hgrants hsubGrants s).mpr hcovered⟩
  have hruns := subRun_eq_some hentries hgrants hsubGrants
  refine ⟨words, subs, hentries, ?_, ?_, ?_⟩
  · rw [hverdict, ← grantedMask_eq_zero (by omega) hgranted]
    split_ifs with hne
    · simp [hne]
    · simp [not_not.mp hne]
  · intro denial hdenial
    rw [hverdict] at hdenial
    split_ifs at hdenial
    exact (Except.error.inj hdenial).symm
  · intro verdict hok
    rw [hverdict] at hok
    split_ifs at hok with hne
    obtain rfl := Except.ok.inj hok
    refine ⟨hgranted, _, hanswered.decodeAccessGrant hlength ?_ hne, rfl, ?_⟩
    · intro s run hrun
      obtain ⟨-, word, hmem, -⟩ := (hruns s run).mp hrun
      exact hentries.terminated (word, run) hmem
    · intro j run
      show (j, run) ∈ runsFrom state 0 slots ↔ _
      rw [mem_runsFrom]
      constructor
      · rintro ⟨i, s, rfl, hs, hrun⟩
        rw [Nat.zero_add]
        exact ⟨s, hs, (hruns s run).mp hrun⟩
      · rintro ⟨s, hs, hrun⟩
        exact ⟨j, s, (Nat.zero_add j).symm, hs, (hruns s run).mpr hrun⟩

/-- Access 5 at level 2, and access 9 at level 1 with two sub bytes. -/
def sampleAccess : StoredUserAccess := ⟨[0x00, 0x15], [0x00, 0x24, 0x81, 0x01], 1⟩

/-- Both are required at level 1 and both are granted, the second with its sub bytes. -/
theorem verdict_decodeAccessGrant_both :
    ∃ state, UserAccessState.fromRow (some sampleAccess) 0 = .ok state ∧
      state.verdict (requiredOf [0x14, 0x24]) = .ok ⟨3, 2, [0x81, 0x01]⟩ ∧
      ∃ grant, decodeAccessGrant (Reply.chargeGranted 3 2 [0x81, 0x01]).body = .ok grant ∧
        grant.grantedSlots = 3 := by
  have hrow : UserAccessState.fromRow (some sampleAccess) 0 =
      .ok ⟨[0x00, 0x15], [0x00, 0x24, 0x81, 0x01], 1, true, 0⟩ := by decide +kernel
  have hverdict : UserAccessState.verdict ⟨[0x00, 0x15], [0x00, 0x24, 0x81, 0x01], 1, true, 0⟩
      (requiredOf [0x14, 0x24]) = .ok ⟨3, 2, [0x81, 0x01]⟩ := by decide +kernel
  obtain ⟨words, subs, -, -, -, hok⟩ := verdict_decodeAccessGrant hrow rfl [0x14, 0x24]
    (by decide) (by simp)
  obtain ⟨-, grant, hgrant, hslots, -⟩ := hok _ hverdict
  exact ⟨_, hrow, hverdict, grant, hgrant, hslots⟩

end Fareward.Client
