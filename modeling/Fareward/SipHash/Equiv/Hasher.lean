import Fareward.SipHash.Hasher

/-!
# The hashers compute SipHash-2-4

Both hashers are consumers of blocks of eight bytes. What a hasher has come to is its state and the
bytes that wait in its tail (`view`), and a write does to it what `Blocks.absorb` does
(`view_write`); the stale bytes of the tail play no part. So the cut of a message into pieces does
not matter, and the value at the end is the one of the specification, which takes the message
whole (`incremental_sipHash`).
-/

namespace Fareward.SipHash

variable {dst message : List UInt8} {start : ℕ} {key : Key}

/-! ### The last word -/

/-- One block of a message. -/
def step (s : State) (block : List UInt8) : State := compress 2 s (leWord block)

/-- The low byte of a length in the high byte of the last word. -/
theorem length_shiftLeft (n : ℕ) :
    (UInt64.ofNat n &&& 0xff) <<< 56 = UInt64.ofNat (2 ^ 56 * (n % 256)) := by
  have hbyte : n % 2 ^ 64 &&& 255 = n % 256 := by
    rw [show 255 = 2 ^ 8 - 1 from rfl, Nat.and_two_pow_sub_one_eq_mod,
      Nat.mod_mod_of_dvd _ (by decide)]
  have hmod := Nat.mod_lt n (show 0 < 256 by decide)
  apply UInt64.toNat_inj.mp
  rw [UInt64.toNat_shiftLeft, UInt64.toNat_and, UInt64.toNat_ofNat', UInt64.toNat_ofNat']
  show (n % 2 ^ 64 &&& 255) <<< 56 % 2 ^ 64 = _
  rw [hbyte, Nat.shiftLeft_eq, Nat.mul_comm]

/-- The word that `finish` and `Sum64` make of the length and of the bytes that wait. -/
theorem lastWord_eq (message : List UInt8) :
    ((Blocks.leftover 8 message).zipIdx).foldl
      (fun lastWord x => lastWord ||| x.1.toUInt64 <<< UInt64.ofNat (8 * x.2))
      ((UInt64.ofNat message.length &&& 0xff) <<< 56) =
    leWord (Blocks.leftover 8 message ++ padding message) := by
  have hlen := Blocks.length_leftover_lt (n := 8) (by decide) message
  have hlt : leNat (Blocks.leftover 8 message) < 2 ^ 56 := by
    refine (leNat_lt _).trans_le ?_
    calc 256 ^ (Blocks.leftover 8 message).length
        ≤ 256 ^ 7 := Nat.pow_le_pow_right (by decide) (by omega)
      _ = 2 ^ 56 := rfl
  rw [foldl_or_shiftLeft (by omega), length_shiftLeft, ← UInt64.ofNat_or, leWord, leNat_last]
  rw [Nat.mul_zero, Nat.shiftLeft_zero, ← Nat.two_pow_add_eq_or_of_lt hlt, Nat.add_comm]

/-! ### What a hasher has come to -/

namespace Buffer

/-- The state of the hasher and the bytes that wait. -/
def view (h : Buffer) : State × List UInt8 := (h.toState, h.tail.take h.tailLen)

theorem length_view (h : Buffer) : h.view.2.length = h.tailLen := by
  have htail := h.tail_length
  have hlt := h.tailLen_lt
  show (h.tail.take h.tailLen).length = _
  rw [List.length_take]
  omega

theorem length_view_lt (h : Buffer) : h.view.2.length < 8 := h.length_view.trans_lt h.tailLen_lt

theorem view_of_empty {h : Buffer} (htail : ¬0 < h.tailLen) : h.view = (h.toState, []) := by
  refine Prod.ext rfl (List.eq_nil_of_length_eq_zero ?_)
  rw [h.length_view]
  omega

end Buffer

/-! ### The daemon -/

theorem round_eq : SipHasher24.round = sipRound := rfl

theorem compress_eq : SipHasher24.compress = compress 2 := by
  funext s m
  unfold SipHasher24.compress compress
  rw [round_eq]
  rfl

theorem take_copyFromSlice (h : start ≤ dst.length) (src : List UInt8) :
    (copyFromSlice dst start src).take (start + src.length) = dst.take start ++ src := by
  unfold copyFromSlice
  refine List.take_left' ?_
  rw [List.length_append, List.length_take]
  omega

namespace SipHasher24

theorem view_writeWords (h : SipHasher24) (remaining : List UInt8) :
    (h.writeWords remaining).view = Blocks.absorb 8 step (h.toState, []) remaining := by
  refine Prod.ext rfl ?_
  show (copyFromSlice h.tail 0 (Blocks.leftover 8 remaining)).take _ = _
  have := take_copyFromSlice (Nat.zero_le h.tail.length) (Blocks.leftover 8 remaining)
  rwa [Nat.zero_add] at this

/-- The bytes that wait together with the first bytes of a write. -/
theorem take_filled (h : SipHasher24) (bytes : List UInt8) :
    (h.filled bytes).take (h.tailLen + min bytes.length (8 - h.tailLen)) =
      h.view.2 ++ bytes.take (min bytes.length (8 - h.tailLen)) := by
  have hle : h.tailLen ≤ h.tail.length := by
    rw [h.tail_length]
    exact h.tailLen_lt.le
  have := take_copyFromSlice hle (bytes.take (min bytes.length (8 - h.tailLen)))
  rw [List.length_take, Nat.min_assoc, Nat.min_comm (8 - h.tailLen), ← Nat.min_assoc,
    Nat.min_self] at this
  exact this

/-- **A write absorbs its bytes.** -/
theorem view_write (h : SipHasher24) (bytes : List UInt8) :
    (h.write bytes).view = Blocks.absorb 8 step h.view bytes := by
  have hlt := h.tailLen_lt
  unfold write
  dsimp only
  by_cases htail : 0 < h.tailLen
  · have hfilled := h.take_filled bytes
    rw [if_pos htail, Blocks.absorb_eq_ite _ h.length_view_lt, h.length_view]
    split_ifs with hshort
    · exact Prod.ext rfl hfilled
    · -- the word is full, and the rest of the bytes follows
      have hfull : h.tailLen + min bytes.length (8 - h.tailLen) = 8 := by omega
      rw [hfull, List.take_of_length_le (h.length_filled bytes).le] at hfilled
      rw [view_writeWords, ← hfilled]
      rfl
  · rw [if_neg htail, view_writeWords, Buffer.view_of_empty htail]

theorem totalLen_write (h : SipHasher24) (bytes : List UInt8) :
    (h.write bytes).totalLen = h.totalLen + UInt64.ofNat bytes.length := by
  unfold write
  dsimp only
  split_ifs <;> rfl

/-- What a run of writes has come to. -/
theorem view_foldl_write (chunks : List (List UInt8)) :
    ∀ h : SipHasher24, (chunks.foldl write h).view =
        Blocks.absorb 8 step h.view chunks.flatten ∧
      (chunks.foldl write h).totalLen = h.totalLen + UInt64.ofNat chunks.flatten.length := by
  induction chunks with
  | nil =>
    intro h
    exact ⟨(Blocks.absorb_nil h.length_view_lt).symm, (UInt64.add_zero _).symm⟩
  | cons chunk chunks ih =>
    intro h
    obtain ⟨hview, htotal⟩ := ih (h.write chunk)
    rw [List.foldl_cons, List.flatten_cons, hview, htotal, view_write,
      Blocks.absorb_absorb (by decide), totalLen_write, List.length_append, UInt64.ofNat_add,
      UInt64.add_assoc]
    exact ⟨rfl, rfl⟩

/-- `finish` of a hasher that has been given a message. -/
theorem finish_of_view {h : SipHasher24}
    (hview : h.view = Blocks.absorb 8 step (initial key.k0 key.k1, []) message)
    (htotal : h.totalLen = UInt64.ofNat message.length) :
    h.finish = sipHash 2 4 key.k0 key.k1 message := by
  have hstate : h.toState = (Blocks.absorb 8 step (initial key.k0 key.k1, []) message).1 :=
    congrArg Prod.fst hview
  have htail : h.tail.take h.tailLen = Blocks.leftover 8 message := congrArg Prod.snd hview
  have hfinish : h.finish = finalize 4 (SipHash.compress 2 h.toState
      (((h.tail.take h.tailLen).zipIdx).foldl
        (fun lastWord x => lastWord ||| x.1.toUInt64 <<< UInt64.ofNat (8 * x.2))
        ((h.totalLen &&& 0xff) <<< 56))) := by
    unfold finish finalize
    rw [compress_eq, round_eq]
    rfl
  rw [hfinish, htail, htotal, lastWord_eq, hstate, sipHash_eq]
  rfl

/-- The daemon's hasher computes SipHash-2-4. -/
theorem finish_eq (key : Key) (chunks : List (List UInt8)) :
    (chunks.foldl write (new key)).finish = sipHash 2 4 key.k0 key.k1 chunks.flatten := by
  obtain ⟨hview, htotal⟩ := view_foldl_write chunks (new key)
  refine finish_of_view hview ?_
  rw [htotal]
  exact UInt64.zero_add _

end SipHasher24

/-! ### The client -/

theorem goRound_eq : Hasher.round = sipRound := rfl

theorem goCompress_eq : Hasher.compress = compress 2 := by
  funext s m
  unfold Hasher.compress compress
  rw [goRound_eq]
  rfl

theorem take_copy {src : List UInt8} (h : start + src.length ≤ dst.length) :
    (copy dst start src).1.take (start + src.length) = dst.take start ++ src := by
  have hn : min (dst.length - start) src.length = src.length := by omega
  unfold copy
  dsimp only
  rw [hn, List.take_length]
  refine List.take_left' ?_
  rw [List.length_append, List.length_take]
  omega

namespace Hasher

/-- The loop over the words of a message. -/
theorem words_eq :
    ∀ {fuel : ℕ} (s : State) {message : List UInt8}, message.length ≤ fuel →
      words fuel s message = Blocks.absorb 8 step (s, []) message
  | 0, s, message, h => by
    rw [words, Blocks.absorb_of_lt (by omega)]
  | fuel + 1, s, message, h => by
    rw [words]
    split_ifs with hfull
    · rw [Blocks.absorb_block (by decide) hfull, words_eq]
      · rfl
      · rw [List.length_drop]
        omega
    · rw [Blocks.absorb_of_lt (not_le.mp hfull)]

theorem view_writeWords (h : Hasher) (message : List UInt8) :
    (h.writeWords message).view = Blocks.absorb 8 step (h.toState, []) message := by
  have hwords := words_eq h.toState (le_refl message.length)
  have hlen := length_words_lt h.toState (le_refl message.length)
  have hcopy : 0 + (words message.length h.toState message).2.length ≤ h.tail.length := by
    rw [h.tail_length]
    omega
  have htake := take_copy hcopy
  rw [← hwords]
  refine Prod.ext rfl ?_
  show (copy h.tail 0 _).1.take (min (h.tail.length - 0) _) = _
  rw [show min (h.tail.length - 0) (words message.length h.toState message).2.length =
    0 + (words message.length h.toState message).2.length by omega, htake]
  rfl

theorem take_filled (h : Hasher) (message : List UInt8) :
    (h.filled message).take (h.tailLen + min message.length (8 - h.tailLen)) =
      h.view.2 ++ message.take (min message.length (8 - h.tailLen)) := by
  have hlen : (message.take (min message.length (8 - h.tailLen))).length =
      min message.length (8 - h.tailLen) := by
    rw [List.length_take]
    omega
  have hle : h.tailLen + (message.take (min message.length (8 - h.tailLen))).length ≤
      h.tail.length := by
    have := h.tailLen_lt
    rw [hlen, h.tail_length]
    omega
  have := take_copy hle
  rwa [hlen] at this

/-- **A write absorbs its bytes.** -/
theorem view_write (h : Hasher) (message : List UInt8) :
    (h.write message).1.view = Blocks.absorb 8 step h.view message := by
  have hlt := h.tailLen_lt
  unfold write
  dsimp only
  by_cases htail : 0 < h.tailLen
  · have hfilled := h.take_filled message
    rw [if_pos htail, Blocks.absorb_eq_ite _ h.length_view_lt, h.length_view]
    split_ifs with hshort
    · exact Prod.ext rfl hfilled
    · have hfull : h.tailLen + min message.length (8 - h.tailLen) = 8 := by omega
      rw [hfull, List.take_of_length_le (h.length_filled message).le] at hfilled
      dsimp only
      rw [view_writeWords, ← hfilled]
      rfl
  · rw [if_neg htail, view_writeWords, Buffer.view_of_empty htail]

theorem totalLen_write (h : Hasher) (message : List UInt8) :
    (h.write message).1.totalLen = h.totalLen + Int64.ofNat message.length := by
  unfold write
  dsimp only
  split_ifs <;> rfl

/-- What a run of writes has come to. -/
theorem view_foldl_write (chunks : List (List UInt8)) :
    ∀ h : Hasher, (chunks.foldl (fun h chunk => (h.write chunk).1) h).view =
        Blocks.absorb 8 step h.view chunks.flatten ∧
      (chunks.foldl (fun h chunk => (h.write chunk).1) h).totalLen =
        h.totalLen + Int64.ofNat chunks.flatten.length := by
  induction chunks with
  | nil =>
    intro h
    exact ⟨(Blocks.absorb_nil h.length_view_lt).symm, (Int64.add_zero _).symm⟩
  | cons chunk chunks ih =>
    intro h
    obtain ⟨hview, htotal⟩ := ih (h.write chunk).1
    rw [List.foldl_cons, List.flatten_cons, hview, htotal, view_write,
      Blocks.absorb_absorb (by decide), totalLen_write, List.length_append, Int64.ofNat_add,
      Int64.add_assoc]
    exact ⟨rfl, rfl⟩

/-- `Sum64` of a hasher that has been given a message. -/
theorem sum64_of_view {h : Hasher}
    (hview : h.view = Blocks.absorb 8 step (initial key.k0 key.k1, []) message)
    (htotal : h.totalLen = Int64.ofNat message.length) :
    h.sum64 = sipHash 2 4 key.k0 key.k1 message := by
  have hstate : h.toState = (Blocks.absorb 8 step (initial key.k0 key.k1, []) message).1 :=
    congrArg Prod.fst hview
  have htail : h.tail.take h.tailLen = Blocks.leftover 8 message := congrArg Prod.snd hview
  have hlength : (h.totalLen &&& 0xff).toUInt64 = UInt64.ofNat message.length &&& 0xff := by
    rw [htotal]
    rfl
  have hsum : h.sum64 = finalize 4 (SipHash.compress 2 h.toState
      (((h.tail.take h.tailLen).zipIdx).foldl
        (fun lastWord x => lastWord ||| x.1.toUInt64 <<< UInt64.ofNat (8 * x.2))
        ((h.totalLen &&& 0xff).toUInt64 <<< 56))) := by
    unfold sum64 finalize
    rw [goCompress_eq, goRound_eq]
    rfl
  rw [hsum, htail, hlength, lastWord_eq, hstate, sipHash_eq]
  rfl

/-- The client's hasher computes SipHash-2-4. -/
theorem sum64_eq (key : Key) (chunks : List (List UInt8)) :
    (chunks.foldl (fun h chunk => (h.write chunk).1) (new key)).sum64 =
      sipHash 2 4 key.k0 key.k1 chunks.flatten := by
  obtain ⟨hview, htotal⟩ := view_foldl_write chunks (new key)
  refine sum64_of_view hview ?_
  rw [htotal]
  exact Int64.zero_add _

end Hasher

/-- **The incremental hashers compute SipHash-2-4.** Under every key and for every cut of a message
into pieces of any lengths, the daemon's hasher gives the value that is specified for the whole
message, and the client's gives the same under any other cut. -/
theorem incremental_sipHash (key : Key) (chunks : List (List UInt8)) :
    (chunks.foldl SipHasher24.write (.new key)).finish =
        sipHash 2 4 key.k0 key.k1 chunks.flatten ∧
      ∀ goChunks : List (List UInt8), goChunks.flatten = chunks.flatten →
        (goChunks.foldl (fun h chunk => (h.write chunk).1) (Hasher.new key)).sum64 =
          (chunks.foldl SipHasher24.write (.new key)).finish := by
  refine ⟨SipHasher24.finish_eq key chunks, fun goChunks hbytes => ?_⟩
  rw [SipHasher24.finish_eq, Hasher.sum64_eq, hbytes]

/-- The message of fifteen bytes of the SipHash paper, cut in two ways. -/
theorem incremental_sipHash_fifteen :
    ([[0, 1, 2], [3, 4, 5, 6, 7, 8, 9, 10, 11], [], [12, 13, 14]].foldl SipHasher24.write
        (.new ⟨0x0706050403020100, 0x0f0e0d0c0b0a0908⟩)).finish = 0xa129ca6149be45e5 ∧
      ([[0], [1, 2, 3, 4, 5, 6, 7, 8, 9, 10, 11, 12, 13, 14]].foldl
          (fun h chunk => (h.write chunk).1)
          (Hasher.new ⟨0x0706050403020100, 0x0f0e0d0c0b0a0908⟩)).sum64 = 0xa129ca6149be45e5 := by
  have hrust : ([[0, 1, 2], [3, 4, 5, 6, 7, 8, 9, 10, 11], [], [12, 13, 14]].foldl
      SipHasher24.write (.new ⟨0x0706050403020100, 0x0f0e0d0c0b0a0908⟩)).finish =
      0xa129ca6149be45e5 := by decide +kernel
  refine ⟨hrust, ?_⟩
  rw [(incremental_sipHash _ _).2 _ rfl]
  exact hrust

end Fareward.SipHash
