import Mathlib.Data.Nat.Digits.Lemmas
import Fareward.Sequence.Allocator
import Fareward.Service.Reply

/-!
# Sequence requests on the wire

`src/sequence/protocol.rs` and its other side in `go/sequences.go`: the payload of a request is a
scalar and the name of the counter, that of the answer a scalar.
-/

namespace Fareward.Sequence

open Service

variable {bytes payload : List UInt8} {width value : Nat} {name : String}

/-- `SEQUENCE_NAME_MAX`, on both sides. -/
def sequenceNameMax : Nat := 128

inductive SequenceProtocolError
  | tooShort
  | emptyIncrement
  | negativeValue
  | emptyName
  | nameTooLong
  | nonUtf8Name

def parseCounterName (bytes : List UInt8) : Except SequenceProtocolError String :=
  if bytes = [] then .error .emptyName
  else if sequenceNameMax < bytes.length then .error .nameTooLong
  else (String.fromUTF8? ⟨⟨bytes⟩⟩).elim (.error .nonUtf8Name) .ok

/-- `from_be_bytes`. -/
def fromBeBytes (bytes : List UInt8) : Nat := Nat.ofDigits 256 (bytes.reverse.map UInt8.toNat)

/-- `i64::from_be_bytes`, and `int64` of `binary.BigEndian.Uint64`. -/
def beInt64 (bytes : List UInt8) : Int64 := (UInt64.ofNat (fromBeBytes bytes)).toInt64

def parseReserve (payload : List UInt8) : Except SequenceProtocolError Call :=
  let increment := UInt32.ofNat (fromBeBytes (payload.take 4))
  if payload.length < 4 then .error .tooShort
  else if increment = 0 then .error .emptyIncrement
  else (parseCounterName (payload.drop 4)).map (.reserve · increment)

def parseSet (payload : List UInt8) : Except SequenceProtocolError Call :=
  let value := beInt64 (payload.take 8)
  if payload.length < 8 then .error .tooShort
  else if value < 0 then .error .negativeValue
  else (parseCounterName (payload.drop 8)).map (.set · value.toInt)

/-! ### The client -/

/-- The errors of the client. A Go string is any bytes. -/
inductive SequenceError
  | nameRequired
  | nameTooLong (name : List UInt8)
  | notPositive (increment : Int)
  | overUint32 (increment : Int)
  | negative (name : List UInt8) (value : Int64)
  | bodySize (length : Nat)
  | refused
  | unexpected (shape : UInt8)

def checkCounterName (name : List UInt8) : Option SequenceError :=
  if name = [] then some .nameRequired
  else if sequenceNameMax < name.length then some (.nameTooLong name)
  else none

/-- The payload of `ReserveSequence`. -/
def reserveSequence (name : List UInt8) (increment : Int) : Except SequenceError (List UInt8) :=
  if let some err := checkCounterName name then .error err
  else if increment < 1 then .error (.notPositive increment)
  else if 0xFFFFFFFF < increment then .error (.overUint32 increment)
  else .ok (toBeBytes 4 increment.toNat ++ name)

/-- The payload of `SetSequence`. -/
def setSequence (name : List UInt8) (value : Int64) : Except SequenceError (List UInt8) :=
  if let some err := checkCounterName name then .error err
  else if value < 0 then .error (.negative name value)
  else .ok (toBeBytes 8 value.toUInt64.toNat ++ name)

def decodeSequenceReply (shape : UInt8) (body : List UInt8) : Except SequenceError Int64 :=
  if shape = ReplyShape.sequenceValue.toByte then
    if body.length ≠ 8 then .error (.bodySize body.length) else .ok (beInt64 body)
  else if shape = ReplyShape.sequenceInvalid.toByte then .error .refused
  else .error (.unexpected shape)

/-! ### Scalars -/

theorem digits_lt (bytes : List UInt8) : ∀ d ∈ bytes.reverse.map UInt8.toNat, d < 256 := by
  simpa using fun b _ => b.toNat_lt

theorem fromBeBytes_take_lt (payload : List UInt8) (width : Nat) :
    fromBeBytes (payload.take width) < 256 ^ width := by
  refine (Nat.ofDigits_lt_base_pow_length (by decide) (digits_lt _)).trans_le ?_
  exact Nat.pow_le_pow_right (by decide) (by simp)

theorem fromBeBytes_toBeBytes (hvalue : value < 256 ^ width) :
    fromBeBytes (toBeBytes width value) = value := by
  refine Eq.trans ?_ (Nat.mod_eq_of_lt hvalue)
  rw [fromBeBytes, toBeBytes, List.reverse_reverse, List.map_map]
  clear hvalue
  induction width with
  | zero => simp [Nat.mod_one]
  | succ width ih =>
    rw [List.range_succ, List.map_append, Nat.ofDigits_append, ih, Nat.mod_pow_succ]
    simp

theorem beInt64_eq_iff {v : Int64} (h : fromBeBytes bytes < 256 ^ 8) :
    beInt64 bytes = v ↔ fromBeBytes bytes = v.toUInt64.toNat := by
  constructor
  · rintro rfl
    exact (UInt64.toNat_ofNat_of_lt' h).symm
  · intro heq
    rw [beInt64, heq, UInt64.ofNat_toNat]
    rfl

/-- A payload starts with a scalar in one way. -/
theorem eq_toBeBytes_append (hvalue : value < 256 ^ width) :
    payload = toBeBytes width value ++ bytes ↔ width ≤ payload.length ∧
      fromBeBytes (payload.take width) = value ∧ payload.drop width = bytes := by
  have hl := length_toBeBytes width value
  have hback := fromBeBytes_toBeBytes hvalue
  constructor
  · rintro rfl
    simp [List.take_left' hl, List.drop_left' hl, hback]
  · rintro ⟨hle, htake, rfl⟩
    have hmap := Nat.ofDigits_inj_of_len_eq (by decide) (by simp [hle, hl]) (digits_lt _)
      (digits_lt _) (htake.trans hback.symm)
    have hbytes := (List.map_injective_iff.mpr fun _ _ => UInt8.toNat_inj.mp) hmap
    rw [← List.reverse_injective hbytes, List.take_append_drop]

theorem parseCounterName_eq_ok : parseCounterName bytes = .ok name ↔
    checkCounterName bytes = none ∧ bytes = name.toByteArray.data.toList := by
  obtain ⟨⟨⟨bytes'⟩⟩, hvalid⟩ := name
  unfold parseCounterName checkCounterName String.fromUTF8?
  split_ifs with _ _ h <;> simp [String.fromUTF8]
  rintro rfl
  exact h hvalid

/-- **The daemon reads the requests that the client sends and no others**: it takes a payload for a
request exactly if the client sends that payload for it. The client reads every answer back. -/
theorem request_on_wire (payload : List UInt8) (name : String) :
    (∀ increment : UInt32, parseReserve payload = .ok (.reserve name increment) ↔
      reserveSequence name.toByteArray.data.toList increment.toNat = .ok payload) ∧
    ∀ value : Int64, (parseSet payload = .ok (.set name value.toInt) ↔
      setSequence name.toByteArray.data.toList value = .ok payload) ∧
      decodeSequenceReply ReplyShape.sequenceValue.toByte (Reply.sequenceValue value).body =
        .ok value := by
  have hname (n : Nat) := @parseCounterName_eq_ok (payload.drop n) name
  generalize name.toByteArray.data.toList = bytes at hname ⊢
  simp only [parseReserve, parseSet, reserveSequence, setSequence, Except.map, Int.toNat_natCast]
  refine ⟨fun increment => ?_, fun value => ⟨?_, ?_⟩⟩
  -- `hwire` splits the payload; what is left are the checks, which come in another order
  · have hlt := increment.toNat_lt
    have hwire := @eq_toBeBytes_append bytes payload 4 _ hlt
    have hscalar : UInt32.ofNat (fromBeBytes (payload.take 4)) = increment ↔
        fromBeBytes (payload.take 4) = increment.toNat := by
      rw [← UInt32.toNat_inj, UInt32.toNat_ofNat_of_lt' (fromBeBytes_take_lt payload 4)]
    have hzero : increment = 0 ↔ increment.toNat = 0 := UInt32.toNat_inj.symm
    cases hcheck : checkCounterName bytes <;> grind
  · have hwire := @eq_toBeBytes_append bytes payload 8 _ value.toUInt64.toNat_lt
    have hscalar := beInt64_eq_iff (v := value) (fromBeBytes_take_lt payload 8)
    cases hcheck : checkCounterName bytes <;> grind [Int64.toInt_inj]
  · have hback := @fromBeBytes_toBeBytes 8 _ value.toUInt64.toNat_lt
    rw [decodeSequenceReply, if_pos rfl, if_neg (by simp [Reply.body]), Reply.body,
      (beInt64_eq_iff (hback.trans_lt value.toUInt64.toNat_lt)).mpr hback]

end Fareward.Sequence
