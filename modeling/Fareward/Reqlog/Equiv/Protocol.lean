import Fareward.Reqlog.Protocol
import Mathlib.Algebra.Group.Int.Defs
import Mathlib.Algebra.Group.Nat.Defs
import Mathlib.Data.Int.Basic

/-!
# What the packed key of a record tells

`frameRouteCompanyAgg` joins three fields with shifts, and as a number it is the sum of the frame
times `2 ^ 40`, the route times `2 ^ 24` and the remainder of the company modulo `2 ^ 24`
(`toInt_frameRouteCompanyAgg`). The last two are together below `2 ^ 40`, so the keys are ordered
by the frame first, and two records have the same key if they have the same frame, the same route
and the same remainder.

Of the company that is all: `parseRequestLog` accepts any 32-bit company, and two companies that are
a multiple of `2 ^ 24` apart share their keys.
-/

namespace Fareward.Reqlog

namespace RequestLogRecord

/-! ### The key as a number -/

theorem toNat_shiftLeft (word : UInt64) {shift : Int64} {n : ℕ}
    (hshift : (shift.toBitVec.smod 64).toNat = n) (hfits : 2 ^ n * word.toNat < 2 ^ 64) :
    (word.toInt64 <<< shift).toBitVec.toNat = 2 ^ n * word.toNat := by
  rw [Int64.toBitVec_shiftLeft, BitVec.shiftLeft_eq', BitVec.toNat_shiftLeft, hshift,
    Nat.shiftLeft_eq, Nat.mul_comm]
  exact Nat.mod_eq_of_lt hfits

theorem toNat_company (company : Int32) :
    ((company.toInt64 &&& 0xFFFFFF).toBitVec.toNat : ℤ) = company.toInt % 2 ^ 24 := by
  have hmask : (company.toInt64 &&& 0xFFFFFF).toBitVec.toNat =
      company.toInt64.toBitVec.toNat % 2 ^ 24 := Nat.and_two_pow_sub_one_eq_mod _ 24
  have hext : company.toInt = company.toInt64.toBitVec.toInt :=
    (BitVec.toInt_signExtend_of_le (by decide)).symm
  rw [hmask, hext, BitVec.toInt]
  split <;> omega

/-- **The key is the sum of its three fields.** -/
theorem toInt_frameRouteCompanyAgg (record : RequestLogRecord) :
    record.frameRouteCompanyAgg.toInt = 2 ^ 40 * record.frame.toNat +
      (2 ^ 24 * record.routeId.toUInt16.toNat + record.companyId.toInt % 2 ^ 24) := by
  have hframe := record.frame.toNat_lt
  have hroute := record.routeId.toUInt16.toNat_lt
  have hcompany := toNat_company record.companyId
  have hhigh : (record.frame.toUInt64.toInt64 <<< 40).toBitVec.toNat =
      2 ^ 40 * record.frame.toNat :=
    toNat_shiftLeft _ rfl (by rw [UInt8.toNat_toUInt64]; omega)
  have hmiddle : (record.routeId.toUInt16.toUInt64.toInt64 <<< 24).toBitVec.toNat =
      2 ^ 24 * record.routeId.toUInt16.toNat :=
    toNat_shiftLeft _ rfl (by rw [UInt16.toNat_toUInt64]; omega)
  have hbits : record.frameRouteCompanyAgg.toBitVec.toNat = 2 ^ 40 * record.frame.toNat +
      (2 ^ 24 * record.routeId.toUInt16.toNat +
        (record.companyId.toInt64 &&& 0xFFFFFF).toBitVec.toNat) := by
    -- each field lies below the bits of the one before it, where `or` adds
    rw [Nat.two_pow_add_eq_or_of_lt (by omega), Nat.two_pow_add_eq_or_of_lt (by omega), ← hhigh,
      ← hmiddle]
    exact Nat.or_assoc _ _ _
  rw [← Int64.toInt_toBitVec, BitVec.toInt_eq_toNat_of_lt (by omega), hbits]
  omega

variable {r₁ r₂ r₃ : RequestLogRecord}

/-- A record of a smaller frame has a smaller key. -/
theorem agg_lt_of_frame_lt (h : r₁.frame < r₂.frame) :
    r₁.frameRouteCompanyAgg < r₂.frameRouteCompanyAgg := by
  have hroute := r₁.routeId.toUInt16.toNat_lt
  rw [UInt8.lt_iff_toNat_lt] at h
  rw [Int64.lt_iff_toInt_lt, toInt_frameRouteCompanyAgg, toInt_frameRouteCompanyAgg]
  omega

/-- The keys between two of one frame are of that frame. -/
theorem frame_eq_of_agg_le (hframe : r₁.frame = r₂.frame)
    (hlow : r₁.frameRouteCompanyAgg ≤ r₃.frameRouteCompanyAgg)
    (hhigh : r₃.frameRouteCompanyAgg ≤ r₂.frameRouteCompanyAgg) : r₃.frame = r₁.frame := by
  refine UInt8.le_antisymm (UInt8.not_lt.mp fun hlt => ?_) (UInt8.not_lt.mp fun hlt => ?_)
  · exact Int64.not_lt.mpr hhigh (agg_lt_of_frame_lt (hframe ▸ hlt))
  · exact Int64.not_lt.mpr hlow (agg_lt_of_frame_lt hlt)

/-- Which records share a key. -/
theorem agg_eq_iff : r₁.frameRouteCompanyAgg = r₂.frameRouteCompanyAgg ↔
    r₁.frame = r₂.frame ∧ r₁.routeId = r₂.routeId ∧
      r₁.companyId.toInt % 2 ^ 24 = r₂.companyId.toInt % 2 ^ 24 := by
  have hroute₁ := r₁.routeId.toUInt16.toNat_lt
  have hroute₂ := r₂.routeId.toUInt16.toNat_lt
  have hroute : r₁.routeId = r₂.routeId ↔
      r₁.routeId.toUInt16.toNat = r₂.routeId.toUInt16.toNat :=
    Int16.toBitVec_inj.symm.trans BitVec.toNat_inj.symm
  rw [← Int64.toInt_inj, toInt_frameRouteCompanyAgg, toInt_frameRouteCompanyAgg, ← UInt8.toNat_inj,
    hroute]
  omega

end RequestLogRecord

/-! ### What the key loses -/

/-- The key of a record, whatever it is, tells its frame and route, and the company up to multiples
of `2 ^ 24`: for two records it loses nothing exactly if they are not of two companies with the same
remainder on one route in one frame. The frames are disjoint ranges of keys, in their order. -/
theorem key_loses_nothing_iff (r₁ r₂ : RequestLogRecord) :
    ((r₁.frameRouteCompanyAgg = r₂.frameRouteCompanyAgg →
        r₁.frame = r₂.frame ∧ r₁.routeId = r₂.routeId ∧ r₁.companyId = r₂.companyId) ↔
      (r₁.frame = r₂.frame → r₁.routeId = r₂.routeId →
        r₁.companyId.toInt % 2 ^ 24 = r₂.companyId.toInt % 2 ^ 24 →
        r₁.companyId = r₂.companyId)) ∧
    (r₁.frame < r₂.frame → r₁.frameRouteCompanyAgg < r₂.frameRouteCompanyAgg) ∧
    (r₁.frame = r₂.frame → ∀ r₃ : RequestLogRecord,
      r₁.frameRouteCompanyAgg ≤ r₃.frameRouteCompanyAgg →
      r₃.frameRouteCompanyAgg ≤ r₂.frameRouteCompanyAgg → r₃.frame = r₁.frame) := by
  refine ⟨?_, RequestLogRecord.agg_lt_of_frame_lt,
    fun hframe _ => RequestLogRecord.frame_eq_of_agg_le hframe⟩
  rw [RequestLogRecord.agg_eq_iff]
  constructor
  · intro h hframe hroute hcompany
    exact (h ⟨hframe, hroute, hcompany⟩).2.2
  · rintro h ⟨hframe, hroute, hcompany⟩
    exact ⟨hframe, hroute, h hframe hroute hcompany⟩

/-- A codec whose payloads are a record of company 7 and one of company 7 + 2 ^ 24, on one route in
one frame. -/
def twoCompanies (payload : List UInt8) : Except String RequestLogRecord :=
  .ok ⟨20500, 1767225600123, 102, 41, if payload.isEmpty then 7 else 16777223, 42, 318, []⟩

/-- Two companies share their keys: both records are accepted, and their keys are equal. -/
theorem companies_share_key : ∃ r₁ r₂ : RequestLogRecord,
    parseRequestLog twoCompanies [] = .ok r₁ ∧ parseRequestLog twoCompanies [0] = .ok r₂ ∧
    r₁.frameRouteCompanyAgg = r₂.frameRouteCompanyAgg ∧ r₁.companyId ≠ r₂.companyId :=
  ⟨_, _, rfl, rfl, by decide, by decide⟩

end Fareward.Reqlog
