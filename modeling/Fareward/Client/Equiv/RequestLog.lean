import Fareward.Client.RequestLog
import Fareward.Reqlog.Protocol
import Mathlib.Data.List.Forall2
import Mathlib.Order.Nat

/-!
# The daemon accepts what the client logs

The client cuts a text by backing up in its bytes. The bytes it backs over are continuation bytes
and the one it stops at is a lead byte, so what is left is a sequence of whole characters, the
longest that fits (`truncateUTF8_utf8`). A clamped record is then one the daemon accepts, and it
reads the same record if the codecs of the two sides agree on it (`Carries`).
-/

namespace Fareward.Client

open Reqlog (ErrorEntry)

/-! ### Backing up -/

/-- Continuation bytes are backed over to the start. -/
theorem backUp_eq_zero {value : List UInt8} {cut : ℕ}
    (h : ∀ i, 0 < i → i ≤ cut → value[i]?.any (IsContinuation ·)) : backUp value cut = 0 := by
  induction cut with
  | zero => rfl
  | succ cut ih =>
    unfold backUp
    rw [if_pos (h (cut + 1) (Nat.succ_pos cut) le_rfl)]
    exact ih fun i hpos hle => h i hpos (Nat.le_succ_of_le hle)

/-- The lead byte of what follows a block is not backed over. -/
theorem backUp_append {block rest : List UInt8} {lead : UInt8} (hblock : block ≠ [])
    (hlead : ¬ IsContinuation lead) (m : ℕ) :
    backUp (block ++ lead :: rest) (block.length + m) =
      block.length + backUp (lead :: rest) m := by
  have hget : ∀ m, (block ++ lead :: rest)[block.length + m]? = (lead :: rest)[m]? := by
    intro m
    rw [List.getElem?_append_right (Nat.le_add_right _ _), Nat.add_sub_cancel_left]
  induction m with
  | zero =>
    obtain ⟨k, hk⟩ := Nat.exists_eq_succ_of_ne_zero (mt List.length_eq_zero_iff.mp hblock)
    have hstop := hget 0
    rw [Nat.add_zero, hk] at hstop ⊢
    unfold backUp
    rw [hstop, if_neg (by simpa using hlead)]
  | succ m ih =>
    rw [← Nat.add_assoc]
    unfold backUp
    rw [Nat.add_assoc, hget (m + 1), ih]
    split_ifs <;> rfl

theorem getElem?_tail_isContinuation {lead : UInt8} {tail rest : List UInt8} {i : ℕ}
    (htail : ∀ b ∈ tail, IsContinuation b) (hpos : 0 < i) (hlt : i < (lead :: tail).length) :
    ((lead :: tail) ++ rest)[i]?.any (IsContinuation ·) := by
  obtain ⟨j, rfl⟩ := Nat.exists_eq_succ_of_ne_zero hpos.ne'
  have hj : j < tail.length := Nat.lt_of_succ_lt_succ hlt
  rw [List.getElem?_append_left hlt, List.getElem?_cons_succ, List.getElem?_eq_getElem hj]
  exact decide_eq_true (htail _ (List.getElem_mem hj))

/-- Backing up from the limit leaves the characters that fit. -/
theorem take_backUp {chars : List Char} {limit : ℕ} (h : limit < (utf8 chars).length) :
    (utf8 chars).take (backUp (utf8 chars) limit) = utf8 (takeBytes limit chars) := by
  induction chars generalizing limit with
  | nil => cases h
  | cons c chars ih =>
    obtain ⟨lead, tail, hc, hlead, htail⟩ := utf8EncodeChar_spec c
    have hlen : c.utf8Size = (lead :: tail).length := by
      rw [← String.length_utf8EncodeChar, hc]
    rw [utf8_cons, hc] at h ⊢
    rw [List.length_append] at h
    unfold takeBytes
    split_ifs with hfits
    · -- the limit lies in a later character, which starts with a lead byte
      obtain ⟨m, rfl⟩ := Nat.exists_eq_add_of_le (hlen ▸ hfits)
      have hm : m < (utf8 chars).length := by omega
      rw [hlen, Nat.add_sub_cancel_left, utf8_cons, hc, ← ih hm]
      cases chars with
      | nil => cases hm
      | cons d chars =>
        obtain ⟨lead', tail', hd, hlead', -⟩ := utf8EncodeChar_spec d
        have hnext : utf8 (d :: chars) = lead' :: (tail' ++ utf8 chars) := by
          rw [utf8_cons, hd, List.cons_append]
        rw [hnext, backUp_append (List.cons_ne_nil _ _) hlead', List.take_length_add_append]
    · -- the limit lies in this character, which does not fit
      rw [hlen] at hfits
      have hzero : backUp ((lead :: tail) ++ utf8 chars) limit = 0 :=
        backUp_eq_zero fun i hpos hle =>
          getElem?_tail_isContinuation htail hpos (hle.trans_lt (not_le.mp hfits))
      rw [hzero]
      rfl

/-- **The client cuts a text to its longest prefix that fits.** -/
theorem truncateUTF8_utf8 (chars : List Char) (limit : ℕ) :
    truncateUTF8 (utf8 chars) limit = utf8 (takeBytes limit chars) := by
  unfold truncateUTF8
  split_ifs with h
  · rw [takeBytes_eq_self h]
  · exact take_backUp (not_le.mp h)

/-! ### Records on both sides -/

/-- An error of the daemon as the client has it. -/
def goError (entry : ErrorEntry) : RequestLogError where
  id := entry.id
  line := utf8 entry.codeLine.toList
  text := utf8 entry.text.toList

/-- A record of the daemon as the client has it. The records of the client with valid UTF-8 strings
are those. -/
def goRecord (record : Reqlog.RequestLogRecord) : RequestLogRecord where
  date := record.date
  requestId := record.requestId
  routeId := record.routeId
  frame := record.frame
  companyId := record.companyId
  userId := record.userId
  elapsedMs := record.elapsedMs
  errors := record.errors.map goError

/-- The longest prefix of `whole` of at most `limit` bytes that ends on a character boundary. -/
structure LongestPrefix (limit : ℕ) (whole cut : String) : Prop where
  isPrefix : cut.toList <+: whole.toList
  fits : cut.utf8ByteSize ≤ limit
  longest : ∀ p : String, p.toList <+: whole.toList → p.utf8ByteSize ≤ limit →
    p.toList <+: cut.toList

/-- The longest prefix, as a string. -/
def cutString (limit : ℕ) (whole : String) : String := .ofList (takeBytes limit whole.toList)

theorem longestPrefix_cutString (limit : ℕ) (whole : String) :
    LongestPrefix limit whole (cutString limit whole) := by
  have hlist : (cutString limit whole).toList = takeBytes limit whole.toList :=
    String.toList_ofList
  refine ⟨?_, ?_, fun p hp hfits => ?_⟩
  · rw [hlist]
    exact takeBytes_isPrefix limit whole.toList
  · rw [← length_utf8_toList, hlist]
    exact length_utf8_takeBytes limit whole.toList
  · rw [← length_utf8_toList] at hfits
    rw [hlist]
    exact isPrefix_takeBytes hp hfits

/-- What the daemon is to read of an error. -/
def cutEntry (entry : ErrorEntry) : ErrorEntry where
  id := entry.id
  codeLine := cutString 64 entry.codeLine
  text := cutString 200 entry.text

/-- What the daemon is to read of a record. -/
def cutRecord (record : Reqlog.RequestLogRecord) : Reqlog.RequestLogRecord :=
  { record with errors := (record.errors.take 4).map cutEntry }

theorem truncateUTF8_string (s : String) (limit : ℕ) :
    truncateUTF8 (utf8 s.toList) limit = utf8 (cutString limit s).toList := by
  rw [truncateUTF8_utf8, cutString, String.toList_ofList]

/-- The client clamps a record to what the daemon is to read. -/
theorem clamped_goRecord (record : Reqlog.RequestLogRecord) :
    (goRecord record).clamped = goRecord (cutRecord record) := by
  have htake : (if requestLogMaxErrors < (record.errors.map goError).length then
      (record.errors.map goError).take requestLogMaxErrors else record.errors.map goError) =
      (record.errors.take 4).map goError := by
    rw [List.map_take]
    split_ifs with h
    · rfl
    · exact (List.take_of_length_le (not_lt.mp h)).symm
  unfold RequestLogRecord.clamped goRecord cutRecord
  dsimp only
  rw [htake, List.map_map, List.map_map]
  congr 1
  refine List.map_congr_left fun entry _ => ?_
  simp only [Function.comp_apply, goError, cutEntry, requestLogMaxLineBytes,
    requestLogMaxTextBytes, truncateUTF8_string]

/-- Errors within the ceilings pass the daemon's check. -/
theorem checkErrors_ok {ε : Type} {entries : List ErrorEntry}
    (h : ∀ entry ∈ entries, entry.codeLine.utf8ByteSize ≤ Reqlog.maxCodeLineBytes ∧
      entry.text.utf8ByteSize ≤ Reqlog.maxErrorTextBytes)
    (block : ℕ) :
    (Reqlog.checkErrors block entries : Except (Reqlog.RequestLogError ε) Unit) = .ok () := by
  induction entries generalizing block with
  | nil => rfl
  | cons entry entries ih =>
    obtain ⟨⟨hline, htext⟩, hentries⟩ := List.forall_mem_cons.mp h
    unfold Reqlog.checkErrors
    rw [if_neg (not_lt.mpr hline), if_neg (not_lt.mpr htext)]
    exact ih hentries (block + 1)

/-- What the daemon is to read is within its ceilings. -/
theorem checkErrors_cutRecord {ε : Type} (record : Reqlog.RequestLogRecord) :
    (Reqlog.checkErrors 0 (cutRecord record).errors : Except (Reqlog.RequestLogError ε) Unit) =
      .ok () := by
  refine checkErrors_ok (fun entry hentry => ?_) 0
  obtain ⟨whole, -, rfl⟩ := List.mem_map.mp hentry
  exact ⟨(longestPrefix_cutString 64 whole.codeLine).fits,
    (longestPrefix_cutString 200 whole.text).fits⟩

/-! ### The round trip -/

/-- The codecs of the two sides agree on a record, and keep it within the ceiling of a payload. -/
def Carries {ε ε' : Type} (append : RequestLogRecord → Except ε (List UInt8))
    (decode : List UInt8 → Except ε' Reqlog.RequestLogRecord) (record : Reqlog.RequestLogRecord) :
    Prop :=
  ∃ payload, append (goRecord record) = .ok payload ∧ decode payload = .ok record ∧
    payload.length ≤ requestLogMaxPayloadSize

section RoundTrip

variable {ε ε' : Type} {append : RequestLogRecord → Except ε (List UInt8)}
  {decode : List UInt8 → Except ε' Reqlog.RequestLogRecord} {record : Reqlog.RequestLogRecord}
  {payload : List UInt8}

theorem encodeRequestLog_ok (happend : append (goRecord (cutRecord record)) = .ok payload)
    (hsize : payload.length ≤ requestLogMaxPayloadSize) :
    encodeRequestLog append (goRecord record) = .ok payload := by
  unfold encodeRequestLog
  rw [clamped_goRecord, happend]
  show (if requestLogMaxPayloadSize < payload.length then _ else _) = _
  rw [if_neg (not_lt.mpr hsize)]
  rfl

theorem parseRequestLog_ok (hframe : record.frame < 96)
    (hdecode : decode payload = .ok (cutRecord record)) :
    Reqlog.parseRequestLog decode payload = .ok (cutRecord record) := by
  have hcount : (cutRecord record).errors.length ≤ Reqlog.maxErrorsPerRequest := by
    show ((record.errors.take 4).map cutEntry).length ≤ 4
    rw [List.length_map]
    exact List.length_take_le 4 record.errors
  have hday : ¬ Reqlog.framesPerDay ≤ record.frame := UInt8.not_le.mpr hframe
  unfold Reqlog.parseRequestLog
  rw [hdecode]
  show (if Reqlog.framesPerDay ≤ record.frame then _ else _) = _
  rw [if_neg hday, if_neg (not_lt.mpr hcount), checkErrors_cutRecord]
  rfl

/-- **Every record the client encodes is accepted.** For a record of valid UTF-8 strings and a
frame of the day, if the codecs carry what the daemon is to read of it, then the client encodes it
and the daemon reads its header and its first four errors, each line and text cut to the longest
prefix of at most 64 and 200 bytes that ends on a character boundary. -/
theorem logged_record_accepted (hframe : record.frame < 96)
    (hcodec : Carries append decode (cutRecord record)) :
    ∃ payload parsed, encodeRequestLog append (goRecord record) = .ok payload ∧
      Reqlog.parseRequestLog decode payload = .ok parsed ∧
      { parsed with errors := [] } = { record with errors := [] } ∧
      List.Forall₂ (fun entry cut => cut.id = entry.id ∧
        LongestPrefix 64 entry.codeLine cut.codeLine ∧ LongestPrefix 200 entry.text cut.text)
        (record.errors.take 4) parsed.errors := by
  obtain ⟨payload, happend, hdecode, hsize⟩ := hcodec
  refine ⟨payload, cutRecord record, encodeRequestLog_ok happend hsize,
    parseRequestLog_ok hframe hdecode, rfl, ?_⟩
  refine List.forall₂_map_right_iff.mpr (List.forall₂_same.mpr fun entry _ => ?_)
  exact ⟨rfl, longestPrefix_cutString 64 entry.codeLine, longestPrefix_cutString 200 entry.text⟩

/-- The record that the tests of both sides encode. -/
def sampleRecord : Reqlog.RequestLogRecord where
  date := 20500
  requestId := 1767225600123
  routeId := 102
  frame := 41
  companyId := 7
  userId := 42
  elapsedMs := 318
  errors := [⟨1234567, "responses.go:539", "no se pudo obtener el registro"⟩]

/-- The bytes that the Go encoder makes of it. -/
def sampleBytes : List UInt8 :=
  [0xd0, 0x05, 0x14, 0x50, 0x19, 0x7b, 0xa8, 0xda, 0x76, 0x9b, 0x01, 0x24, 0x66, 0x34, 0x29,
    0x44, 0x07, 0x54, 0x2a, 0x65, 0x3e, 0x01, 0x7c, 0x38, 0x01, 0x36, 0x06, 0x87, 0xd6, 0x12,
    0x1c, 0x10] ++
    utf8 "responses.go:539".toList ++ [0x2c, 0x1e] ++ utf8 "no se pudo obtener el registro".toList

/-- The codecs, as far as these bytes show them. -/
def appendSample (record : RequestLogRecord) : Except Unit (List UInt8) :=
  if record = goRecord sampleRecord then .ok sampleBytes else .error ()

def decodeSample (payload : List UInt8) : Except Unit Reqlog.RequestLogRecord :=
  if payload = sampleBytes then .ok sampleRecord else .error ()

theorem logged_record_accepted_sample :
    ∃ payload parsed, encodeRequestLog appendSample (goRecord sampleRecord) = .ok payload ∧
      Reqlog.parseRequestLog decodeSample payload = .ok parsed ∧ parsed.errors.length = 1 := by
  have hcut : cutRecord sampleRecord = sampleRecord := by decide +kernel
  have hcodec : Carries appendSample decodeSample (cutRecord sampleRecord) := by
    rw [hcut]
    exact ⟨sampleBytes, if_pos rfl, if_pos rfl, by decide +kernel⟩
  obtain ⟨payload, parsed, hencode, hparse, -, herrors⟩ :=
    logged_record_accepted (by decide) hcodec
  exact ⟨payload, parsed, hencode, hparse, herrors.length_eq.symm⟩

end RoundTrip

end Fareward.Client
