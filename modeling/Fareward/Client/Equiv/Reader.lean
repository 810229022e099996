import Fareward.Client.Reader

/-!
# The reply stream

What the daemon writes, frame after frame, is what `readLoop` reads (`readLoop_flatMap`). A read
depends on the concatenation of the chunks only (`readFull_append`), and a frame is taken off the
stream whole, whatever follows it (`readOne_encode`): the width that `replyBodySize` gives a shape
is the length of the body that `Reply::encode` writes. The stream follows by induction.
-/

namespace Fareward.Client

open Service

variable {bytes tail body : List UInt8} {chunks : List (List UInt8)}

/-! ### Reads -/

/-- A read takes what it asks for off the front of the chunks. -/
theorem readFull_append (h : chunks.flatten = bytes ++ tail) :
    ∃ rest, readFull bytes.length chunks = some (bytes, rest) ∧ rest.flatten = tail := by
  induction chunks generalizing bytes with
  | nil =>
    obtain ⟨rfl, rfl⟩ := List.append_eq_nil_iff.mp h.symm
    exact ⟨[], rfl, rfl⟩
  | cons chunk chunks ih =>
    rw [List.flatten_cons] at h
    cases hcount : bytes.length with
    | zero =>
      obtain rfl := List.eq_nil_of_length_eq_zero hcount
      exact ⟨chunk :: chunks, rfl, h⟩
    | succ =>
      unfold readFull
      rw [← hcount]
      by_cases hlong : bytes.length < chunk.length
      · -- the chunk has it all
        have hchunk : chunk = bytes ++ chunk.drop bytes.length := by
          have htake := congrArg (List.take bytes.length) h
          rw [List.take_append_of_le_length hlong.le, List.take_left] at htake
          rw [← htake, List.length_take, min_eq_left hlong.le, List.take_append_drop]
        refine ⟨chunk.drop bytes.length :: chunks, ?_, ?_⟩
        · rw [if_pos hlong]
          have htake : chunk.take bytes.length = bytes := by
            rw [hchunk, List.take_left]
          rw [htake]
        · rw [List.flatten_cons]
          rw [hchunk, List.append_assoc] at h
          exact List.append_cancel_left h
      · -- the whole chunk is taken, and the rest from the chunks after it
        have hbytes : bytes = chunk ++ bytes.drop chunk.length := by
          have htake := congrArg (List.take chunk.length) h
          rw [List.take_left, List.take_append_of_le_length (not_lt.mp hlong)] at htake
          nth_rewrite 1 [htake]
          exact (List.take_append_drop _ _).symm
        have hrest : chunks.flatten = bytes.drop chunk.length ++ tail := by
          rw [hbytes, List.append_assoc] at h
          exact List.append_cancel_left h
        obtain ⟨rest, hread, hflatten⟩ := ih hrest
        rw [List.length_drop] at hread
        refine ⟨rest, ?_, hflatten⟩
        rw [if_neg hlong, hread, Option.map_some]
        show some (chunk ++ bytes.drop chunk.length, rest) = some (bytes, rest)
        rw [← hbytes]

theorem readMore_append (h : chunks.flatten = bytes ++ tail) :
    ∃ rest, readMore bytes.length chunks = .ok (bytes, rest) ∧ rest.flatten = tail := by
  obtain ⟨rest, hread, hrest⟩ := readFull_append h
  refine ⟨rest, ?_, hrest⟩
  unfold readMore
  rw [hread]

/-! ### Frames -/

/-- What the daemon writes: a reply or a push of its own, or a push of a shape that the client does
not know. -/
inductive Sent
  | reply (reply : Reply) (sequence : UInt64)
  | unknownPush (shape : UInt8) (sequence : UInt64) (body : List UInt8)
  deriving DecidableEq

namespace Sent

def encode : Sent → List UInt8
  | .reply answer sequence => answer.encode sequence
  | .unknownPush shape sequence body =>
    Reply.head shape sequence ++ UInt8.ofNat body.length :: body

/-- What the client is to make of it. -/
def received : Sent → Option Received
  | .reply answer sequence => some ⟨answer.shape.toByte, correlation sequence, answer.body⟩
  | .unknownPush _ _ _ => none

/-- A count of bytes fits its byte, and a push that is not known has a shape of its own. -/
def WellFormed : Sent → Prop
  | .reply (.chargeGranted _ _ subBytes) _ => subBytes.length < 256
  | .reply _ _ => True
  | .unknownPush shape _ body => pushFloor < shape ∧ body.length < 256

instance (sent : Sent) : Decidable sent.WellFormed := by
  cases sent with
  | reply reply => cases reply <;> unfold WellFormed <;> infer_instance
  | unknownPush => exact inferInstanceAs (Decidable (_ ∧ _))

end Sent

theorem bigEndianUint16_toBeBytes (value : UInt16) :
    bigEndianUint16 ((toBeBytes 2 value.toNat).getD 0 0) ((toBeBytes 2 value.toNat).getD 1 0) =
      value := by
  have hlt := value.toNat_lt
  apply UInt16.toNat_inj.mp
  show (UInt16.ofNat ((UInt8.ofNat (value.toNat / 256 ^ 1)).toNat * 256 +
    (UInt8.ofNat (value.toNat / 256 ^ 0)).toNat)).toNat = value.toNat
  rw [UInt16.toNat_ofNat', UInt8.toNat_ofNat', UInt8.toNat_ofNat']
  omega

/-- The head of a frame is read off, and the turn goes on with the shape and the correlation. -/
theorem readOne_head {shape : UInt8} {sequence : UInt64}
    (h : chunks.flatten = Reply.head shape sequence ++ tail) :
    ∃ rest, rest.flatten = tail ∧ readOne chunks =
      if pushFloor ≤ shape then readPush shape (correlation sequence) rest
      else
        match replyBodySize shape with
        | none => .error (.unknownShape shape)
        | some size => do
          let (body, rest) ← readBody size rest
          return (some ⟨shape, correlation sequence, body⟩, rest) := by
  obtain ⟨rest, hread, hrest⟩ := readFull_append h
  refine ⟨rest, hrest, ?_⟩
  have hlength : (Reply.head shape sequence).length = 3 := by simp [Reply.head]
  have hcorrelation : bigEndianUint16 ((Reply.head shape sequence).getD 1 0)
      ((Reply.head shape sequence).getD 2 0) = correlation sequence :=
    bigEndianUint16_toBeBytes (correlation sequence)
  rw [hlength] at hread
  rw [readOne, hread, ← hcorrelation]
  rfl

theorem readPush_append (shape : UInt8) (correlation : UInt16) (hbody : body.length < 256)
    (h : chunks.flatten = UInt8.ofNat body.length :: body ++ tail) :
    ∃ rest, rest.flatten = tail ∧ readPush shape correlation chunks =
      .ok (if shape = 0x80 ∧ lockLostBodySize ≤ body.length then some ⟨shape, correlation, body⟩
        else none, rest) := by
  have hfirst : chunks.flatten = [UInt8.ofNat body.length] ++ (body ++ tail) := by
    rw [h]
    rfl
  obtain ⟨rest, hread, hrest⟩ := readMore_append hfirst
  obtain ⟨rest', hread', hrest'⟩ := readMore_append hrest
  have hcount : (UInt8.ofNat body.length).toNat = body.length := by
    rw [UInt8.toNat_ofNat']
    omega
  refine ⟨rest', hrest', ?_⟩
  rw [List.length_singleton] at hread
  unfold readPush
  rw [hread]
  show (readMore (UInt8.ofNat body.length).toNat rest >>= _) = _
  rw [hcount, hread']
  rfl

theorem readBody_append (h : chunks.flatten = body ++ tail) :
    ∃ rest, rest.flatten = tail ∧ readBody (some body.length) chunks = .ok (body, rest) := by
  obtain ⟨rest, hread, hrest⟩ := readMore_append h
  exact ⟨rest, hrest, hread⟩

/-- The body that states its own length. -/
theorem readBody_granted {grantedMask hasSubsMask : UInt8} {subBytes : List UInt8}
    (hsub : subBytes.length < 256) (h : chunks.flatten =
      (Reply.chargeGranted grantedMask hasSubsMask subBytes).body ++ tail) :
    ∃ rest, rest.flatten = tail ∧ readBody none chunks =
      .ok ((Reply.chargeGranted grantedMask hasSubsMask subBytes).body, rest) := by
  have hfirst : chunks.flatten =
      [grantedMask, hasSubsMask, UInt8.ofNat subBytes.length] ++ (subBytes ++ tail) := by
    rw [h]
    rfl
  obtain ⟨rest, hread, hrest⟩ := readMore_append hfirst
  obtain ⟨rest', hread', hrest'⟩ := readMore_append hrest
  have hcount : (UInt8.ofNat subBytes.length).toNat = subBytes.length := by
    rw [UInt8.toNat_ofNat']
    omega
  refine ⟨rest', hrest', ?_⟩
  have hread : readMore 3 chunks = _ := hread
  unfold readBody
  dsimp only
  rw [hread]
  show (readMore (UInt8.ofNat subBytes.length).toNat rest >>= _) = _
  rw [hcount, hread']
  rfl

theorem toByte_lt_pushFloor {shape : ReplyShape} (h : shape ≠ .lockLost) :
    ¬pushFloor ≤ shape.toByte := by
  revert h
  cases shape <;> decide

/-- The widths that the two sides have for the shapes agree. -/
theorem replyBodySize_shape (reply : Reply) (hpush : reply.isPush = false) :
    ¬pushFloor ≤ reply.shape.toByte ∧ replyBodySize reply.shape.toByte =
      some (if reply.shape = .chargeGranted then none else some reply.body.length) := by
  cases reply with
  | lockLost => cases hpush
  | _ =>
    constructor
    · exact toByte_lt_pushFloor (by simp [Reply.shape])
    · simp [Reply.shape, Reply.body, ReplyShape.toByte, replyBodySize]

/-- **One frame.** What the daemon wrote for one frame is read as that frame, and nothing of what
follows it is touched. -/
theorem readOne_encode {sent : Sent} (hsent : sent.WellFormed)
    (h : chunks.flatten = sent.encode ++ tail) :
    ∃ rest, rest.flatten = tail ∧ readOne chunks = .ok (sent.received, rest) := by
  cases sent with
  | unknownPush shape sequence body =>
    obtain ⟨hshape, hbody⟩ := hsent
    replace h : chunks.flatten = Reply.head shape sequence ++
        (UInt8.ofNat body.length :: body ++ tail) := by
      rw [h, ← List.append_assoc]
      rfl
    obtain ⟨rest, hrest, hread⟩ := readOne_head h
    obtain ⟨rest', hrest', hpush⟩ := readPush_append shape (correlation sequence) hbody hrest
    refine ⟨rest', hrest', ?_⟩
    have hunknown : shape ≠ 0x80 := by
      rintro rfl
      exact absurd hshape (by decide)
    rw [hread, if_pos (UInt8.le_of_lt hshape), hpush, if_neg (fun h => hunknown h.1)]
    rfl
  | reply reply sequence =>
    by_cases hpush : reply.isPush = true
    · cases reply with
      | lockLost action identifier =>
        have hbody : (Reply.lockLost action identifier).body.length = lockLostBodySize := by
          simp [Reply.body, lockLostBodySize]
        replace h : chunks.flatten = Reply.head 0x80 sequence ++
            (UInt8.ofNat (Reply.lockLost action identifier).body.length ::
              (Reply.lockLost action identifier).body ++ tail) := by
          rw [h, hbody, ← List.append_assoc]
          rfl
        obtain ⟨rest, hrest, hread⟩ := readOne_head h
        obtain ⟨rest', hrest', hread'⟩ :=
          readPush_append 0x80 (correlation sequence) (by rw [hbody]; decide) hrest
        refine ⟨rest', hrest', ?_⟩
        rw [hread, if_pos (by decide), hread', if_pos ⟨rfl, hbody.ge⟩]
        rfl
      | _ => cases hpush
    · obtain ⟨hfloor, hsize⟩ := replyBodySize_shape reply (by simpa using hpush)
      replace h : chunks.flatten = Reply.head reply.shape.toByte sequence ++
          (reply.body ++ tail) := by
        rw [h, ← List.append_assoc]
        cases reply with
        | lockLost => exact absurd rfl hpush
        | _ => rfl
      obtain ⟨rest, hrest, hread⟩ := readOne_head h
      have hbody : ∃ rest', rest'.flatten = tail ∧
          readBody (if reply.shape = .chargeGranted then none else some reply.body.length) rest =
            .ok (reply.body, rest') := by
        cases reply with
        | chargeGranted => exact readBody_granted hsent hrest
        | lockLost => exact absurd rfl hpush
        | _ => exact readBody_append hrest
      obtain ⟨rest', hrest', hread'⟩ := hbody
      refine ⟨rest', hrest', ?_⟩
      rw [hread, if_neg hfloor, hsize]
      dsimp only
      rw [hread']
      rfl

/-- **The reply stream.** Whatever the daemon writes, in whatever chunks it arrives, `readLoop`
acts on the replies and pushes in order, each with its shape, the low sixteen bits of its sequence
and its body; it steps over the pushes it does not know and comes to the end of the stream. -/
theorem readLoop_flatMap (sent : List Sent) (hsent : ∀ s ∈ sent, s.WellFormed)
    (chunks : List (List UInt8)) (h : chunks.flatten = sent.flatMap Sent.encode) :
    readLoop chunks = (sent.filterMap Sent.received, .eof) := by
  induction sent generalizing chunks with
  | nil =>
    have hone : readOne chunks = .error .eof := by
      have hfull : readFull 3 chunks = none := by
        cases hread : readFull 3 chunks with
        | none => rfl
        | some =>
          obtain ⟨hflatten, hlength⟩ := readFull_flatten hread
          rw [h] at hflatten
          have hnil := (List.append_eq_nil_iff.mp hflatten.symm).1
          rw [hnil] at hlength
          cases hlength
      unfold readOne
      rw [hfull, h]
      rfl
    unfold readLoop
    split
    · next cause hcause =>
      rw [hone] at hcause
      obtain rfl := Except.error.inj hcause
      rfl
    · next received rest hok =>
      rw [hone] at hok
      cases hok
  | cons s sent ih =>
    rw [List.flatMap_cons] at h
    obtain ⟨rest, hrest, hread⟩ := readOne_encode (hsent s List.mem_cons_self) h
    have hmore := ih (fun s hs => hsent s (List.mem_cons_of_mem _ hs)) rest hrest
    unfold readLoop
    split
    · next cause hcause =>
      rw [hread] at hcause
      cases hcause
    · next received rest' hok =>
      rw [hread] at hok
      obtain ⟨rfl, rfl⟩ := Prod.mk.inj (Except.ok.inj hok)
      rw [hmore, List.filterMap_cons]
      cases Sent.received s <;> rfl

/-- A grant, a push that is not known, a lost lock and a value, in chunks of five bytes. -/
theorem readLoop_flatMap_chunks :
    readLoop (List.toChunks 5 ([.reply (.chargeGranted 3 2 [0x81, 1]) 70000,
        .unknownPush 0x9A 0 [1, 2], .reply (.lockLost 4 9) 0,
        .reply (.lockGranted 7) 65535].flatMap Sent.encode)) =
      ([⟨0x02, 4464, [3, 2, 2, 0x81, 1]⟩, ⟨0x80, 0, [0, 4, 0, 0, 0, 0, 0, 0, 0, 9]⟩,
        ⟨0x05, 65535, [0, 7]⟩], .eof) := by
  have hflatten : (List.toChunks 5 ([.reply (.chargeGranted 3 2 [0x81, 1]) 70000,
      .unknownPush 0x9A 0 [1, 2], .reply (.lockLost 4 9) 0,
      .reply (.lockGranted 7) 65535].flatMap Sent.encode)).flatten =
      [.reply (.chargeGranted 3 2 [0x81, 1]) 70000, .unknownPush 0x9A 0 [1, 2],
        .reply (.lockLost 4 9) 0, .reply (.lockGranted 7) 65535].flatMap Sent.encode := by
    decide +kernel
  rw [readLoop_flatMap _ (by decide +kernel) _ hflatten]
  decide +kernel

end Fareward.Client
