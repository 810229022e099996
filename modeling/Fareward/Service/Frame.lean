import Mathlib.Data.List.Basic
import Fareward.Service.Connection

/-!
# The frame reader

How the reader loop of `handle_connection` in `src/service/server.rs` takes its frames off the
socket: `[opcode:1][length:u16][payload][tag:8]`, the tag over all that stands before it, the nonce
of the connection and the sequence of the frame.

The socket is the list of the bytes that the loop gets to read before it is left for another reason
(a timeout, a read error, a shutdown), so a stream that comes late is one that ends early.
`compute_hash` of `src/service/auth.rs`, with the secret in it, is a parameter.
-/

namespace Fareward.Service

abbrev Nonce := Vector UInt8 8

def authTagSize : Nat := 8

/-- `compute_hash` for the secret that both sides have: the tag of the signed bytes at a place of
the stream of the connection with the nonce. -/
abbrev ComputeHash := Nonce → (sequence : Nat) → (signed : List UInt8) → Vector UInt8 8

def verifyHash (computeHash : ComputeHash) (nonce : Nonce) (sequence : Nat)
    (signed received : List UInt8) : Bool :=
  (computeHash nonce sequence signed).toList = received

/-- A frame and its place in the stream. -/
structure Frame where
  sequence : Nat
  opcode : Opcode
  payload : List UInt8
  deriving DecidableEq

/-- The length header: sixteen bits, big-endian, of a length that is cut to them. -/
def lengthPrefix (length : Nat) : List UInt8 := [UInt8.ofNat (length / 256), UInt8.ofNat length]

/-- What the tag of a frame is over: the opcode, the length and the payload. -/
def Frame.signed (frame : Frame) : List UInt8 :=
  frame.opcode.toByte :: (lengthPrefix frame.payload.length ++ frame.payload)

/-- Why the loop is left. -/
inductive Break
  /-- The stream ends between two frames. -/
  | eof
  | unknownOpcode
  /-- The stream ends inside a frame. -/
  | truncated
  /-- The length is over the ceiling of the opcode. -/
  | oversized
  | unauthenticated
  | sequenceOverflow
  /-- The frame is authenticated and its payload malformed. -/
  | invalid
  deriving DecidableEq

section

variable (verify : (sequence : Nat) → (signed received : List UInt8) → Bool)

/-- One frame off the stream, up to `sequence.checked_add(1)`, and what is left of the stream. -/
def readFrame (sequence : Nat) : List UInt8 → Except Break (Frame × List UInt8)
  | [] => .error .eof
  | byte :: rest =>
    match Opcode.fromByte byte with
    | none => .error .unknownOpcode
    | some opcode =>
      match rest with
      | high :: low :: rest =>
        let payloadSize := high.toNat * 256 + low.toNat
        if opcode.maxPayloadSize < payloadSize then .error .oversized
        else if rest.length < payloadSize + authTagSize then .error .truncated
        else
          let payload := rest.take payloadSize
          let received := (rest.drop payloadSize).take authTagSize
          if verify sequence (byte :: high :: low :: payload) received then
            if sequence + 1 < 2 ^ 64 then
              .ok (⟨sequence, opcode, payload⟩, rest.drop (payloadSize + authTagSize))
            else .error .sequenceOverflow
          else .error .unauthenticated
      | _ => .error .truncated

variable {verify} {sequence : Nat} {stream rest : List UInt8} {frame : Frame}

/-- What is read as a frame is the frame and a tag that verifies. -/
theorem readFrame_spec (h : readFrame verify sequence stream = .ok (frame, rest)) :
    ∃ received, stream = frame.signed ++ received ++ rest ∧ received.length = authTagSize ∧
      verify sequence frame.signed received = true ∧ frame.sequence = sequence := by
  unfold readFrame at h
  split at h
  · cases h
  · next byte rest' =>
    split at h
    · cases h
    · next opcode hopcode =>
      split at h
      · next high low rest'' =>
        generalize hsize : high.toNat * 256 + low.toNat = size at h
        dsimp only at h
        split_ifs at h with hceiling hshort hverify hnext
        obtain ⟨rfl, rfl⟩ := Prod.mk.inj (Except.ok.inj h)
        have hlength : (rest''.take size).length = size := by
          rw [List.length_take]
          omega
        have hsigned : Frame.signed ⟨sequence, opcode, rest''.take size⟩ =
            byte :: high :: low :: rest''.take size := by
          have hlow := low.toNat_lt
          have hdiv : size / 256 = high.toNat := by omega
          have hmod : UInt8.ofNat size = low := by
            apply UInt8.toNat_inj.mp
            rw [UInt8.toNat_ofNat']
            omega
          unfold Frame.signed lengthPrefix
          dsimp only
          rw [hlength, Opcode.toByte_of_fromByte hopcode, hdiv, hmod, UInt8.ofNat_toNat]
          rfl
        refine ⟨(rest''.drop size).take authTagSize, ?_, ?_, ?_, rfl⟩
        · rw [hsigned, ← List.drop_drop, List.append_assoc, List.take_append_drop]
          simp only [List.cons_append, List.take_append_drop]
        · rw [List.length_take, List.length_drop]
          omega
        · rw [hsigned]
          exact hverify
      · cases h

/-- A frame within its ceiling is read back, whatever follows it. -/
theorem readFrame_signed {received : List UInt8} (hlength : received.length = authTagSize)
    (hceiling : frame.payload.length ≤ frame.opcode.maxPayloadSize)
    (hverify : verify frame.sequence frame.signed received = true)
    (hnext : frame.sequence + 1 < 2 ^ 64) :
    readFrame verify frame.sequence (frame.signed ++ received ++ rest) = .ok (frame, rest) := by
  have hmax : frame.opcode.maxPayloadSize < 65536 := by
    cases frame.opcode <;> decide
  have hsize : (UInt8.ofNat (frame.payload.length / 256)).toNat * 256 +
      (UInt8.ofNat frame.payload.length).toNat = frame.payload.length := by
    rw [UInt8.toNat_ofNat', UInt8.toNat_ofNat']
    omega
  have hpayload : (frame.payload ++ (received ++ rest)).take frame.payload.length =
      frame.payload := List.take_left
  have hreceived : ((frame.payload ++ (received ++ rest)).drop frame.payload.length).take
      authTagSize = received := by
    rw [List.drop_left, ← hlength, List.take_left]
  have hrest : (frame.payload ++ (received ++ rest)).drop (frame.payload.length + authTagSize) =
      rest := by
    rw [← List.drop_drop, List.drop_left, ← hlength, List.drop_left]
  rw [List.append_assoc]
  unfold readFrame Frame.signed lengthPrefix
  simp only [List.cons_append, List.nil_append, Opcode.fromByte_toByte, hsize, hpayload,
    hreceived, hrest]
  rw [if_neg (by omega), if_neg ?_, if_pos ?_, if_pos hnext]
  · exact hverify
  · simp only [List.length_append]
    omega

theorem length_readFrame (h : readFrame verify sequence stream = .ok (frame, rest)) :
    rest.length < stream.length := by
  obtain ⟨received, rfl, hlength, -⟩ := readFrame_spec h
  rw [List.length_append, List.length_append, hlength]
  unfold authTagSize
  omega

variable (verify)

/-- The frames that are authenticated and routed to an operation from the given place of the stream
on, in order, and why the loop is left. `parse` is what the operations make of a payload. -/
def receive (parse : Opcode → List UInt8 → Operation) (sequence : Nat) (stream : List UInt8) :
    List Frame × Break :=
  match _h : readFrame verify sequence stream with
  | .error cause => ([], cause)
  | .ok (frame, rest) =>
    if parse frame.opcode frame.payload = .invalid then ([frame], .invalid)
    else
      let (frames, cause) := receive parse (sequence + 1) rest
      (frame :: frames, cause)
termination_by stream.length
decreasing_by exact length_readFrame _h

end

end Fareward.Service
