import Fareward.Service.Frame

/-!
# What the frame reader takes for frames

Against a list of frames that stand for what was signed: when a tag verifies at a place for the
bytes of the frame at that place only, any stream is read as a beginning of the list
(`receive_prefix`), and the frames themselves, each with its tag, are read back as they are
(`receive_flatMap`).
-/

namespace Fareward.Service

theorem Frame.eq_of_signed {frame frame' : Frame} (hsequence : frame.sequence = frame'.sequence)
    (hsigned : frame.signed = frame'.signed) : frame = frame' := by
  obtain ⟨sequence, opcode, payload⟩ := frame
  obtain ⟨sequence', opcode', payload'⟩ := frame'
  obtain ⟨hopcode, hrest⟩ := List.cons.inj hsigned
  obtain ⟨-, hpayload⟩ := List.append_inj hrest rfl
  obtain rfl := Opcode.toByte_inj hopcode
  obtain rfl : payload = payload' := hpayload
  obtain rfl : sequence = sequence' := hsequence
  rfl

section

variable {verify : (sequence : Nat) → (signed received : List UInt8) → Bool}
variable {parse : Opcode → List UInt8 → Operation} {frames : List Frame} {whole : List UInt8}

/-- In the stream, a tag that verifies is the tag of a frame of the list, at its place. -/
def Unforged (verify : (sequence : Nat) → (signed received : List UInt8) → Bool)
    (frames : List Frame) (whole : List UInt8) : Prop :=
  ∀ sequence signed received, verify sequence signed received = true →
    signed ++ received <:+: whole →
      ∃ frame, frames[sequence]? = some frame ∧ frame.sequence = sequence ∧ frame.signed = signed

variable {sequence : Nat} {stream rest : List UInt8} {frame : Frame}

/-- The frame that is read is the one at its place. -/
theorem Unforged.readFrame (hunforged : Unforged verify frames whole) (hstream : stream <:+ whole)
    (hread : readFrame verify sequence stream = .ok (frame, rest)) :
    frames.drop sequence = frame :: frames.drop (sequence + 1) ∧ rest <:+ whole := by
  obtain ⟨received, rfl, -, hverify, hsequence⟩ := readFrame_spec hread
  obtain ⟨before, rfl⟩ := hstream
  obtain ⟨frame', hframe', hsequence', hsigned⟩ :=
    hunforged _ _ _ hverify ⟨before, rest, by simp⟩
  obtain rfl := Frame.eq_of_signed (hsequence'.trans hsequence.symm) hsigned
  obtain ⟨hlt, hget⟩ := List.getElem?_eq_some_iff.mp hframe'
  refine ⟨?_, before ++ (frame'.signed ++ received), by simp⟩
  rw [List.drop_eq_getElem_cons hlt, hget]

/-- **Whatever the stream**, what is read of it is a beginning of the list. -/
theorem receive_prefix (hunforged : Unforged verify frames whole) (hstream : stream <:+ whole) :
    (receive verify parse sequence stream).1 <+: frames.drop sequence := by
  fun_induction receive verify parse sequence stream with
  | case1 sequence stream cause hread => exact List.nil_prefix
  | case2 sequence stream frame rest hread hinvalid =>
    rw [(hunforged.readFrame hstream hread).1]
    exact List.prefix_append [frame] _
  | case3 sequence stream frame rest hread hvalid frames' cause hrest ih =>
    obtain ⟨hdrop, hsuffix⟩ := hunforged.readFrame hstream hread
    rw [hdrop]
    have hprefix := ih hsuffix
    rw [hrest] at hprefix
    exact (List.prefix_cons_inj frame).mpr hprefix

/-- The frames in order, within their ceilings and each with a tag that verifies, are read back to
the end of the stream. -/
theorem receive_flatMap {tag : Frame → List UInt8}
    (hsequences : frames.map Frame.sequence = List.range' sequence frames.length)
    (hbound : sequence + frames.length < 2 ^ 64)
    (htag : ∀ frame ∈ frames, (tag frame).length = authTagSize ∧
      verify frame.sequence frame.signed (tag frame) = true)
    (hwell : ∀ frame ∈ frames, frame.payload.length ≤ frame.opcode.maxPayloadSize ∧
      parse frame.opcode frame.payload ≠ .invalid) :
    receive verify parse sequence (frames.flatMap fun frame => frame.signed ++ tag frame) =
      (frames, .eof) := by
  induction frames generalizing sequence with
  | nil =>
    unfold receive
    rfl
  | cons frame frames ih =>
    rw [List.map_cons, List.length_cons, List.range'_succ] at hsequences
    obtain ⟨rfl, hsequences⟩ := List.cons.inj hsequences
    rw [List.length_cons] at hbound
    obtain ⟨hlength, hverify⟩ := htag frame List.mem_cons_self
    obtain ⟨hceiling, hvalid⟩ := hwell frame List.mem_cons_self
    have hread : readFrame verify frame.sequence
        ((frame :: frames).flatMap fun frame => frame.signed ++ tag frame) =
          .ok (frame, frames.flatMap fun frame => frame.signed ++ tag frame) :=
      readFrame_signed hlength hceiling hverify (by omega)
    have hrest := ih hsequences (by omega) (fun f hf => htag f (List.mem_cons_of_mem _ hf))
      (fun f hf => hwell f (List.mem_cons_of_mem _ hf))
    unfold receive
    split
    · next cause herror =>
      rw [hread] at herror
      cases herror
    · next frame' rest hok =>
      rw [hread] at hok
      obtain ⟨rfl, rfl⟩ := Prod.mk.inj (Except.ok.inj hok)
      rw [if_neg hvalid, hrest]

end

end Fareward.Service
