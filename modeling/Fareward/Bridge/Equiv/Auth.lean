import Fareward.Bridge.Auth
import Mathlib.Algebra.Order.Group.Int

/-!
# Which service headers are accepted

A header is accepted exactly when it is the one that is made for some time `t`, and the skew that
the bridge computes for `t` is at most 300 seconds (`verify_ok_iff`). The time is read from the
header, in any spelling, but the comparison with the header that is made for it leaves only one.

The skew is computed in `i64`. Where `now - t` leaves the range it wraps, and where it is the
smallest `i64` its absolute value is negative: so a header of the time `now - 2 ^ 63` counts as
fresh, and one that is made for a time `2 ^ 64 - 300` seconds ago, or earlier, as well
(`fresh_signatures_iff`).
-/

namespace Fareward.Bridge

variable {Key : Type} {hash : Key → List Char → UInt64} {key : Key} {now t : Int}
  {header : Option (List Char)}

/-- A time that fits an `i64`. -/
def IsI64 (t : Int) : Prop := i64Min ≤ t ∧ t ≤ i64Max

instance (t : Int) : Decidable (IsI64 t) := inferInstanceAs (Decidable (_ ∧ _))

/-- The skew that a build that wraps computes. -/
def skew (now t : Int) : Int := wrapI64 (wrapI64 (now - t)).natAbs

/-! ### The time in a header -/

theorem dot_notMem_render (t : Int) : '.' ∉ Decimal.render t := by
  intro h
  rcases Decimal.mem_render h with h | h
  · cases h
  · cases h

theorem takeWhile_make (hash : Key → List Char → UInt64) (key : Key) (t : Int) :
    (makeServiceAuthHeader hash key t).takeWhile (· ≠ '.') = Decimal.render t := by
  unfold makeServiceAuthHeader
  rw [List.takeWhile_append_of_pos]
  · simp
  · intro c hc
    have hne : c ≠ '.' := fun h => dot_notMem_render t (h ▸ hc)
    exact decide_eq_true hne

/-- The time of a header that was made is read back. -/
theorem parseI64_make (hash : Key → List Char → UInt64) (key : Key) (ht : IsI64 t) :
    parseI64 ((makeServiceAuthHeader hash key t).takeWhile (· ≠ '.')) = some t := by
  rw [takeWhile_make, parseI64, Decimal.parse_render]
  exact if_pos ht

theorem isI64_of_parseI64 {text : List Char} (h : parseI64 text = some t) : IsI64 t := by
  obtain ⟨x, -, hx⟩ := Option.bind_eq_some_iff.mp h
  obtain ⟨rfl, hrange⟩ := checkedI64_eq_some hx
  exact hrange

/-- A header determines the time it was made for. -/
theorem make_injective {s : Int} (hs : IsI64 s) (ht : IsI64 t)
    (h : makeServiceAuthHeader hash key s = makeServiceAuthHeader hash key t) : s = t := by
  have hparse := parseI64_make hash key hs
  rw [h, parseI64_make hash key ht] at hparse
  exact (Option.some.inj hparse).symm

/-! ### What is accepted -/

/-- The checks that follow the parse of the time. -/
def verifySigned (hash : Key → List Char → UInt64) (headerValue : List Char) (key : Key)
    (now t : Int) : Except AuthFailure Unit :=
  if serviceAuthMaxSkewSeconds < skew now t then .error (.auth (.expiredServiceAuth (skew now t)))
  else if headerValue ≠ makeServiceAuthHeader hash key t then
    .error (.auth .invalidServiceSignature)
  else .ok ()

theorem elapsed_wrapping (now t : Int) : elapsed .wrapping now t = .ok (skew now t) :=
  (rfl)

/-- The last checks of `verify_service_auth`, with the skew as a number like any other. -/
theorem bind_verifySigned (elapsedSeconds : Int) (headerValue expected : List Char) :
    ((Except.ok elapsedSeconds : Except AuthFailure Int) >>= fun elapsedSeconds =>
      if serviceAuthMaxSkewSeconds < elapsedSeconds then
        .error (.auth (.expiredServiceAuth elapsedSeconds))
      else if headerValue ≠ expected then .error (.auth .invalidServiceSignature)
      else .ok ()) =
    (if serviceAuthMaxSkewSeconds < elapsedSeconds then
        .error (.auth (.expiredServiceAuth elapsedSeconds))
      else if headerValue ≠ expected then .error (.auth .invalidServiceSignature)
      else .ok () : Except AuthFailure Unit) := (rfl)

theorem verify_eq (hash : Key → List Char → UInt64) (header : Option (List Char)) (key : Key)
    (now : Int) :
    verifyServiceAuth hash .wrapping header key now =
      if trim (header.getD []) = [] then .error (.auth .missingServiceAuth)
      else if '.' ∉ trim (header.getD []) then .error (.auth .malformedServiceAuth)
      else match parseI64 ((trim (header.getD [])).takeWhile (· ≠ '.')) with
        | none => .error (.auth .malformedServiceAuth)
        | some t => verifySigned hash (trim (header.getD [])) key now t := by
  unfold verifyServiceAuth
  simp only [elapsed_wrapping, bind_verifySigned]
  cases parseI64 ((trim (header.getD [])).takeWhile (· ≠ '.')) with
  | none => dsimp only
  | some => dsimp only [verifySigned]

theorem verifySigned_ok {headerValue : List Char} :
    verifySigned hash headerValue key now t = .ok () ↔
      skew now t ≤ serviceAuthMaxSkewSeconds ∧ headerValue = makeServiceAuthHeader hash key t := by
  unfold verifySigned
  split_ifs with hskew hsame
  · exact ⟨fun h => (by cases h), fun h => absurd h.1 (not_le.mpr hskew)⟩
  · exact ⟨fun h => (by cases h), fun h => absurd h.2 hsame⟩
  · exact ⟨fun _ => ⟨not_lt.mp hskew, not_not.mp hsame⟩, fun _ => rfl⟩

/-- **A header is accepted exactly when it was made for a time of small computed skew.** -/
theorem verify_ok_iff :
    verifyServiceAuth hash .wrapping header key now = .ok () ↔
      ∃ t, IsI64 t ∧ skew now t ≤ serviceAuthMaxSkewSeconds ∧
        trim (header.getD []) = makeServiceAuthHeader hash key t := by
  rw [verify_eq]
  constructor
  · intro h
    split_ifs at h with hempty hdot
    split at h
    · cases h
    · next t hparse => exact ⟨t, isI64_of_parseI64 hparse, verifySigned_ok.mp h⟩
  · rintro ⟨t, ht, hskew, hheader⟩
    have hempty : makeServiceAuthHeader hash key t ≠ [] :=
      List.append_ne_nil_of_right_ne_nil _ (List.cons_ne_nil _ _)
    have hdot : '.' ∈ makeServiceAuthHeader hash key t :=
      List.mem_append_right _ List.mem_cons_self
    rw [hheader, if_neg hempty, if_neg (not_not.mpr hdot), parseI64_make hash key ht]
    exact verifySigned_ok.mpr ⟨hskew, rfl⟩

/-- A build that wraps never panics. -/
theorem verify_ne_panic (hash : Key → List Char → UInt64) (header : Option (List Char)) (key : Key)
    (now : Int) : verifyServiceAuth hash .wrapping header key now ≠ .error .panic := by
  rw [verify_eq]
  unfold verifySigned
  intro h
  split_ifs at h with hempty hdot
  · cases h
  · split at h
    · cases h
    · split_ifs at h <;> cases h
  · cases h

/-! ### Where the skew wraps -/

/-- A time whose skew wraps into the fresh ones: `2 ^ 63` seconds ago, where the absolute value is
the smallest `i64`, or so long ago that the difference has come round. -/
def Wraps (now t : Int) : Prop := now - t = 2 ^ 63 ∨ 2 ^ 64 - 300 ≤ now - t

instance (now t : Int) : Decidable (Wraps now t) := inferInstanceAs (Decidable (_ ∨ _))

theorem skew_le_iff (hnow : 0 ≤ now) (hmax : now ≤ i64Max) (ht : IsI64 t) :
    skew now t ≤ serviceAuthMaxSkewSeconds ↔ (now - t).natAbs ≤ 300 ∨ Wraps now t := by
  obtain ⟨hmin, hle⟩ := ht
  unfold i64Min at hmin
  unfold i64Max at hle hmax
  unfold skew wrapI64 serviceAuthMaxSkewSeconds Wraps
  rcases Int.lt_trichotomy (now - t) (2 ^ 63) with hlt | heq | hgt
  · -- nothing wraps
    have hsame : Int.bmod (now - t) (2 ^ 64) = now - t :=
      Int.bmod_eq_of_le (by omega) (by omega)
    have habs : Int.bmod ((now - t).natAbs : Int) (2 ^ 64) = (now - t).natAbs :=
      Int.bmod_eq_of_le (by omega) (by omega)
    rw [hsame, habs]
    omega
  · rw [heq]
    have : Int.bmod ((Int.bmod (2 ^ 63) (2 ^ 64)).natAbs : Int) (2 ^ 64) = -2 ^ 63 := by decide
    rw [this]
    omega
  · -- the difference has come round
    have hround : Int.bmod (now - t) (2 ^ 64) = now - t - 2 ^ 64 := by
      have := Int.sub_bmod_right (now - t) (2 ^ 64)
      rw [← this]
      exact Int.bmod_eq_of_le (by omega) (by omega)
    have habs : Int.bmod ((now - t - 2 ^ 64).natAbs : Int) (2 ^ 64) = (now - t - 2 ^ 64).natAbs :=
      Int.bmod_eq_of_le (by omega) (by omega)
    rw [hround, habs]
    omega

/-- **Service authentication accepts exactly fresh signatures, but for skews that wrap.** For every
hash, header, key and time that is not negative, a header is accepted exactly when it was made for a
time within 300 seconds of now, if and only if it is not the header of a time whose skew wraps; and
nothing panics. -/
theorem fresh_signatures_iff (hash : Key → List Char → UInt64) (header : Option (List Char))
    (key : Key) (now : Int) (hnow : 0 ≤ now) (hmax : now ≤ i64Max) :
    ((verifyServiceAuth hash .wrapping header key now = .ok () ↔
        ∃ t, IsI64 t ∧ (now - t).natAbs ≤ 300 ∧
          trim (header.getD []) = makeServiceAuthHeader hash key t) ↔
      ∀ t, IsI64 t → trim (header.getD []) = makeServiceAuthHeader hash key t →
        ¬Wraps now t) ∧
    verifyServiceAuth hash .wrapping header key now ≠ .error .panic := by
  refine ⟨?_, verify_ne_panic hash header key now⟩
  rw [verify_ok_iff]
  constructor
  · -- a wrapping skew is accepted, and the header has no other time
    intro hexact t ht hheader hwraps
    obtain ⟨s, hs, hfresh, hheader'⟩ :=
      hexact.mp ⟨t, ht, (skew_le_iff hnow hmax ht).mpr (.inr hwraps), hheader⟩
    obtain rfl := make_injective hs ht (hheader'.symm.trans hheader)
    unfold Wraps at hwraps
    omega
  · intro hno
    constructor
    · rintro ⟨t, ht, hskew, hheader⟩
      have hfresh := ((skew_le_iff hnow hmax ht).mp hskew).resolve_right (hno t ht hheader)
      exact ⟨t, ht, hfresh, hheader⟩
    · rintro ⟨t, ht, hfresh, hheader⟩
      exact ⟨t, ht, (skew_le_iff hnow hmax ht).mpr (.inl hfresh), hheader⟩

/-- A header that is a minute old. -/
theorem fresh_signatures_iff_minute :
    verifyServiceAuth (fun _ _ => 7) .wrapping (some " 1800000000.0000000000000007\n".toList) ()
        1800000060 = .ok () ∧
      ∃ t, IsI64 t ∧ (1800000060 - t).natAbs ≤ 300 ∧
        trim " 1800000000.0000000000000007\n".toList =
          makeServiceAuthHeader (fun (_ : Unit) _ => 7) () t := by
  have haccepted : verifyServiceAuth (fun (_ : Unit) _ => 7) .wrapping
      (some " 1800000000.0000000000000007\n".toList) () 1800000060 = .ok () := by decide +kernel
  have hmade : trim " 1800000000.0000000000000007\n".toList =
      makeServiceAuthHeader (fun (_ : Unit) _ => 7) () 1800000000 := by decide +kernel
  have hiff := (fresh_signatures_iff (fun (_ : Unit) _ => 7)
    (some " 1800000000.0000000000000007\n".toList) () 1800000060 (by decide) (by decide)).1
  refine ⟨haccepted, (hiff.mpr ?_).mp haccepted⟩
  intro t ht hheader
  obtain rfl := make_injective ht (by decide) (hheader.symm.trans hmade)
  decide

/-- **A header of the year −292 277 022 657 is accepted** in January 1970: its skew is the smallest
`i64`, which has no absolute value. -/
theorem stale_header_accepted :
    verifyServiceAuth (fun _ _ => 7) .wrapping
        (some "-9223372036854775808.0000000000000007".toList) () 0 = .ok () ∧
      ¬∃ t, IsI64 t ∧ (0 - t).natAbs ≤ 300 ∧
        trim "-9223372036854775808.0000000000000007".toList =
          makeServiceAuthHeader (fun (_ : Unit) _ => 7) () t := by
  have hmade : trim "-9223372036854775808.0000000000000007".toList =
      makeServiceAuthHeader (fun (_ : Unit) _ => 7) () (-9223372036854775808) := by decide +kernel
  refine ⟨by decide +kernel, ?_⟩
  rintro ⟨t, ht, hfresh, hheader⟩
  obtain rfl := make_injective ht (by decide) (hheader.symm.trans hmade)
  revert hfresh
  decide

end Fareward.Bridge
