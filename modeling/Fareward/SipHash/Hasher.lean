import Fareward.Lib.SipHash

/-!
# The incremental hashers

`src/siphash.rs` (`SipHasher24`) and `go/siphash/siphash.go` (`Hasher`): the same keyed hash written
twice, once for the daemon and once for its client. A message is written in pieces. Bytes that do
not fill a word wait in an array of eight, whose other bytes are stale.

Lengths are counted in a `usize` and in a Go `int` of sixty-four bits; both wrap, and only the low
byte is read. `derive_key`, which hashes a secret with SHA-256, is not modelled: the key is an
argument here.
-/

namespace Fareward.SipHash

/-- `Key`, in both languages. -/
structure Key where
  k0 : UInt64
  k1 : UInt64
  deriving DecidableEq

/-- What both hashers keep besides the length of the message: the four words, and the array of which
the first `tailLen` bytes wait. A word that is full is compressed at once, so between two calls
fewer than eight bytes do. -/
structure Buffer extends State where
  tail : List UInt8
  tailLen : ℕ
  tail_length : tail.length = 8
  tailLen_lt : tailLen < 8

/-! ### The daemon -/

/-- `SipHasher24`. -/
structure SipHasher24 extends Buffer where
  totalLen : UInt64

/-- `dst[start..start + src.len()].copy_from_slice(src)`. -/
def copyFromSlice (dst : List UInt8) (start : ℕ) (src : List UInt8) : List UInt8 :=
  dst.take start ++ src ++ dst.drop (start + src.length)

theorem length_copyFromSlice {dst src : List UInt8} {start : ℕ}
    (h : start + src.length ≤ dst.length) :
    (copyFromSlice dst start src).length = dst.length := by
  unfold copyFromSlice
  rw [List.length_append, List.length_append, List.length_take, List.length_drop]
  omega

namespace SipHasher24

/-- `new`. -/
def new (key : Key) : SipHasher24 where
  v0 := key.k0 ^^^ 0x736f6d6570736575
  v1 := key.k1 ^^^ 0x646f72616e646f6d
  v2 := key.k0 ^^^ 0x6c7967656e657261
  v3 := key.k1 ^^^ 0x7465646279746573
  tail := List.replicate 8 0
  tailLen := 0
  totalLen := 0
  tail_length := rfl
  tailLen_lt := by decide

/-- `round`. -/
def round (s : State) : State :=
  let s := { s with v0 := s.v0 + s.v1 }
  let s := { s with v1 := rotateLeft s.v1 13 }
  let s := { s with v1 := s.v1 ^^^ s.v0 }
  let s := { s with v0 := rotateLeft s.v0 32 }
  let s := { s with v2 := s.v2 + s.v3 }
  let s := { s with v3 := rotateLeft s.v3 16 }
  let s := { s with v3 := s.v3 ^^^ s.v2 }
  let s := { s with v0 := s.v0 + s.v3 }
  let s := { s with v3 := rotateLeft s.v3 21 }
  let s := { s with v3 := s.v3 ^^^ s.v0 }
  let s := { s with v2 := s.v2 + s.v1 }
  let s := { s with v1 := rotateLeft s.v1 17 }
  let s := { s with v1 := s.v1 ^^^ s.v2 }
  { s with v2 := rotateLeft s.v2 32 }

/-- `compress`. -/
def compress (s : State) (word : UInt64) : State :=
  let s := { s with v3 := s.v3 ^^^ word }
  let s := round s
  let s := round s
  { s with v0 := s.v0 ^^^ word }

/-- The second half of `write`: the words of `chunks_exact(8)`, and the remainder into the tail. -/
def writeWords (h : SipHasher24) (remaining : List UInt8) : SipHasher24 :=
  { h with
    toState := (Blocks.blocks 8 remaining).foldl (fun s chunk => compress s (leWord chunk))
      h.toState
    tail := copyFromSlice h.tail 0 (Blocks.leftover 8 remaining)
    tailLen := (Blocks.leftover 8 remaining).length
    tail_length := by
      have := Blocks.length_leftover_lt (n := 8) (by decide) remaining
      rw [length_copyFromSlice, h.tail_length]
      rw [h.tail_length]
      omega
    tailLen_lt := Blocks.length_leftover_lt (by decide) remaining }

/-- The tail after the first bytes of a write. -/
def filled (h : SipHasher24) (bytes : List UInt8) : List UInt8 :=
  copyFromSlice h.tail h.tailLen (bytes.take (min bytes.length (8 - h.tailLen)))

theorem length_filled (h : SipHasher24) (bytes : List UInt8) : (h.filled bytes).length = 8 := by
  have htail := h.tail_length
  have hlt := h.tailLen_lt
  unfold filled
  rw [length_copyFromSlice, htail]
  rw [List.length_take, htail]
  omega

/-- `write`. -/
def write (h : SipHasher24) (bytes : List UInt8) : SipHasher24 :=
  let h := { h with totalLen := h.totalLen + UInt64.ofNat bytes.length }
  if 0 < h.tailLen then
    let taken := min bytes.length (8 - h.tailLen)
    if hlt : h.tailLen + taken < 8 then
      { h with
        tail := h.filled bytes
        tailLen := h.tailLen + taken
        tail_length := h.length_filled bytes
        tailLen_lt := hlt }
    else
      writeWords
        { h with
          toState := compress h.toState (leWord (h.filled bytes))
          tail := h.filled bytes
          tailLen := 0
          tail_length := h.length_filled bytes
          tailLen_lt := by decide }
        (bytes.drop taken)
  else writeWords h bytes

/-- `finish`. -/
def finish (h : SipHasher24) : UInt64 :=
  let lastWord := (h.totalLen &&& 0xff) <<< 56
  let lastWord := ((h.tail.take h.tailLen).zipIdx).foldl
    (fun lastWord x => lastWord ||| x.1.toUInt64 <<< UInt64.ofNat (8 * x.2)) lastWord
  let s := compress h.toState lastWord
  let s := { s with v2 := s.v2 ^^^ 0xff }
  let s := round (round (round (round s)))
  s.v0 ^^^ s.v1 ^^^ s.v2 ^^^ s.v3

end SipHasher24

/-! ### The client -/

/-- `Hasher`. -/
structure Hasher extends Buffer where
  totalLen : Int64

/-- `copy(dst[start:], src)` of Go, and how much it copied. -/
def copy (dst : List UInt8) (start : ℕ) (src : List UInt8) : List UInt8 × ℕ :=
  let n := min (dst.length - start) src.length
  (dst.take start ++ src.take n ++ dst.drop (start + n), n)

theorem length_copy {dst : List UInt8} {start : ℕ} (h : start ≤ dst.length) (src : List UInt8) :
    (copy dst start src).1.length = dst.length := by
  unfold copy
  dsimp only
  rw [List.length_append, List.length_append, List.length_take, List.length_take, List.length_drop]
  omega

namespace Hasher

/-- `New`. -/
def new (key : Key) : Hasher where
  v0 := key.k0 ^^^ 0x736f6d6570736575
  v1 := key.k1 ^^^ 0x646f72616e646f6d
  v2 := key.k0 ^^^ 0x6c7967656e657261
  v3 := key.k1 ^^^ 0x7465646279746573
  tail := List.replicate 8 0
  tailLen := 0
  totalLen := 0
  tail_length := rfl
  tailLen_lt := by decide

/-- `round`. -/
def round (s : State) : State :=
  let s := { s with v0 := s.v0 + s.v1 }
  let s := { s with v1 := rotateLeft s.v1 13 }
  let s := { s with v1 := s.v1 ^^^ s.v0 }
  let s := { s with v0 := rotateLeft s.v0 32 }
  let s := { s with v2 := s.v2 + s.v3 }
  let s := { s with v3 := rotateLeft s.v3 16 }
  let s := { s with v3 := s.v3 ^^^ s.v2 }
  let s := { s with v0 := s.v0 + s.v3 }
  let s := { s with v3 := rotateLeft s.v3 21 }
  let s := { s with v3 := s.v3 ^^^ s.v0 }
  let s := { s with v2 := s.v2 + s.v1 }
  let s := { s with v1 := rotateLeft s.v1 17 }
  let s := { s with v1 := s.v1 ^^^ s.v2 }
  { s with v2 := rotateLeft s.v2 32 }

/-- `compress`. -/
def compress (s : State) (word : UInt64) : State :=
  let s := { s with v3 := s.v3 ^^^ word }
  let s := round s
  let s := round s
  { s with v0 := s.v0 ^^^ word }

/-- The loop over the whole words of a message; a turn consumes eight bytes, so the length of the
message bounds the turns. -/
def words : ℕ → State → List UInt8 → State × List UInt8
  | 0, s, message => (s, message)
  | fuel + 1, s, message =>
    if 8 ≤ message.length then
      words fuel (compress s (leWord (message.take 8))) (message.drop 8)
    else (s, message)

theorem length_words_lt :
    ∀ {fuel : ℕ} (s : State) {message : List UInt8}, message.length ≤ fuel →
      (words fuel s message).2.length < 8
  | 0, s, message, h => by
    rw [words]
    dsimp only
    omega
  | fuel + 1, s, message, h => by
    rw [words]
    split_ifs with hfull
    · refine length_words_lt _ ?_
      rw [List.length_drop]
      omega
    · exact not_le.mp hfull

/-- The second half of `Write`. -/
def writeWords (h : Hasher) (message : List UInt8) : Hasher :=
  let rest := words message.length h.toState message
  let copied := copy h.tail 0 rest.2
  { h with
    toState := rest.1
    tail := copied.1
    tailLen := copied.2
    tail_length := (length_copy (Nat.zero_le _) _).trans h.tail_length
    tailLen_lt := (min_le_right _ _).trans_lt (length_words_lt _ le_rfl) }

/-- The tail after the first bytes of a `Write`. -/
def filled (h : Hasher) (message : List UInt8) : List UInt8 :=
  (copy h.tail h.tailLen (message.take (min message.length (8 - h.tailLen)))).1

theorem length_filled (h : Hasher) (message : List UInt8) : (h.filled message).length = 8 :=
  (length_copy (h.tail_length ▸ h.tailLen_lt.le) _).trans h.tail_length

/-- `Write`, with the count that it returns. -/
def write (h : Hasher) (message : List UInt8) : Hasher × ℕ :=
  let written := message.length
  let h := { h with totalLen := h.totalLen + Int64.ofNat written }
  if 0 < h.tailLen then
    let taken := min message.length (8 - h.tailLen)
    if hlt : h.tailLen + taken < 8 then
      ({ h with
        tail := h.filled message
        tailLen := h.tailLen + taken
        tail_length := h.length_filled message
        tailLen_lt := hlt }, written)
    else
      (writeWords
        { h with
          toState := compress h.toState (leWord (h.filled message))
          tail := h.filled message
          tailLen := 0
          tail_length := h.length_filled message
          tailLen_lt := by decide }
        (message.drop taken), written)
  else (writeWords h message, written)

/-- `Sum64`. -/
def sum64 (h : Hasher) : UInt64 :=
  let lastWord := (h.totalLen &&& 0xff).toUInt64 <<< 56
  let lastWord := ((h.tail.take h.tailLen).zipIdx).foldl
    (fun lastWord x => lastWord ||| x.1.toUInt64 <<< UInt64.ofNat (8 * x.2)) lastWord
  let s := compress h.toState lastWord
  let s := { s with v2 := s.v2 ^^^ 0xff }
  let s := round (round (round (round s)))
  s.v0 ^^^ s.v1 ^^^ s.v2 ^^^ s.v3

end Hasher

end Fareward.SipHash
