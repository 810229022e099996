import Fareward.Lib.Op
import Fareward.Service.Reply

/-!
# The client's reply reader

How `readLoop` and `readPush` of `go/connection.go` take the frames of the daemon off the socket.
The socket is the list of chunks that its reads return, in order; `io.ReadFull` reads on until it
has as many bytes as it was asked for.
-/

namespace Fareward.Client

open Service

variable {count : Nat} {chunks rest : List (List UInt8)} {bytes : List UInt8}
  {read : List UInt8 × List (List UInt8)}

/-- `io.ReadFull`: the bytes and the chunks that are left, or `none` when the socket ends before. -/
def readFull : Nat → List (List UInt8) → Option (List UInt8 × List (List UInt8))
  | 0, chunks => some ([], chunks)
  | _ + 1, [] => none
  | count + 1, chunk :: chunks =>
    if count + 1 < chunk.length then
      some (chunk.take (count + 1), chunk.drop (count + 1) :: chunks)
    else
      (readFull (count + 1 - chunk.length) chunks).map fun (bytes, rest) => (chunk ++ bytes, rest)

/-- `binary.BigEndian.Uint16`. -/
def bigEndianUint16 (high low : UInt8) : UInt16 := UInt16.ofNat (high.toNat * 256 + low.toNat)

/-- `replyBodySize`: `none` for a shape the client does not know, and `some none`, the `-1` of the
source, for the shape that states its own length. -/
def replyBodySize (shape : UInt8) : Option (Option Nat) :=
  if shape = 0x01 ∨ shape = 0x07 ∨ shape = 0x0A ∨ shape = 0x7F then some (some 0)
  else if shape = 0x03 ∨ shape = 0x04 ∨ shape = 0x06 ∨ shape = 0x08 then some (some 1)
  else if shape = 0x05 then some (some 2)
  else if shape = 0x09 then some (some 8)
  else if shape = 0x02 then some none
  else none

/-- A frame that `readLoop` acts on: a reply, with the correlation it is looked up by, or a push
that the client knows. -/
structure Received where
  shape : UInt8
  correlation : UInt16
  body : List UInt8
  deriving DecidableEq

/-- Why `readLoop` fails the connection. -/
inductive ReadEnd
  /-- The socket ends between two frames. -/
  | eof
  /-- The socket ends inside a frame. -/
  | unexpectedEof
  | unknownShape (shape : UInt8)
  deriving DecidableEq

/-- `io.ReadFull` inside a frame. -/
def readMore (count : Nat) (chunks : List (List UInt8)) :
    Except ReadEnd (List UInt8 × List (List UInt8)) :=
  match readFull count chunks with
  | none => .error .unexpectedEof
  | some read => .ok read

/-- `readPush`: a push that `handlePush` does not know is stepped over. -/
def readPush (shape : UInt8) (correlation : UInt16) (chunks : List (List UInt8)) :
    Except ReadEnd (Option Received × List (List UInt8)) := do
  let (length, chunks) ← readMore 1 chunks
  let (body, chunks) ← readMore (length.getD 0 0).toNat chunks
  return (if shape = 0x80 ∧ lockLostBodySize ≤ body.length then some ⟨shape, correlation, body⟩
    else none, chunks)

/-- The body of a reply whose shape is known. -/
def readBody (size : Option Nat) (chunks : List (List UInt8)) :
    Except ReadEnd (List UInt8 × List (List UInt8)) := do
  match size with
  | none =>
    let (body, chunks) ← readMore 3 chunks
    let (tail, chunks) ← readMore (body.getD 2 0).toNat chunks
    return (body ++ tail, chunks)
  | some size => readMore size chunks

/-- One turn of `readLoop`, up to the dispatch. -/
def readOne (chunks : List (List UInt8)) :
    Except ReadEnd (Option Received × List (List UInt8)) :=
  match readFull 3 chunks with
  | none => .error (if chunks.flatten = [] then .eof else .unexpectedEof)
  | some (head, chunks) =>
    let shape := head.getD 0 0
    let correlation := bigEndianUint16 (head.getD 1 0) (head.getD 2 0)
    if pushFloor ≤ shape then readPush shape correlation chunks
    else
      match replyBodySize shape with
      | none => .error (.unknownShape shape)
      | some size => do
        let (body, chunks) ← readBody size chunks
        return (some ⟨shape, correlation, body⟩, chunks)

theorem readFull_flatten (h : readFull count chunks = some (bytes, rest)) :
    chunks.flatten = bytes ++ rest.flatten ∧ bytes.length = count := by
  fun_induction readFull count chunks generalizing bytes with
  | case1 chunks =>
    obtain ⟨rfl, rfl⟩ := Prod.mk.inj (Option.some.inj h)
    exact ⟨rfl, rfl⟩
  | case2 count => cases h
  | case3 count chunk chunks hlong =>
    obtain ⟨rfl, rfl⟩ := Prod.mk.inj (Option.some.inj h)
    rw [List.flatten_cons, List.flatten_cons, ← List.append_assoc, List.take_append_drop,
      List.length_take]
    exact ⟨rfl, by omega⟩
  | case4 count chunk chunks hshort ih =>
    obtain ⟨⟨bytes', rest'⟩, hread, hbytes⟩ := Option.map_eq_some_iff.mp h
    obtain ⟨rfl, rfl⟩ := Prod.mk.inj hbytes
    obtain ⟨hflatten, hlength⟩ := ih hread
    rw [List.flatten_cons, hflatten, List.append_assoc, List.length_append, hlength]
    exact ⟨rfl, by omega⟩

theorem readMore_flatten (h : readMore count chunks = .ok (bytes, rest)) :
    chunks.flatten = bytes ++ rest.flatten ∧ bytes.length = count := by
  unfold readMore at h
  split at h
  · cases h
  · next read hread =>
    obtain rfl := Except.ok.inj h
    exact readFull_flatten hread

theorem length_readMore (h : readMore count chunks = .ok read) :
    read.2.flatten.length ≤ chunks.flatten.length := by
  rw [(readMore_flatten h).1, List.length_append]
  omega

theorem length_readPush {shape : UInt8} {correlation : UInt16}
    {read : Option Received × List (List UInt8)}
    (h : readPush shape correlation chunks = .ok read) :
    read.2.flatten.length ≤ chunks.flatten.length := by
  obtain ⟨length, hlength, h⟩ := bind_eq_ok.mp h
  obtain ⟨body, hbody, h⟩ := bind_eq_ok.mp h
  obtain rfl := Except.ok.inj h
  exact (length_readMore hbody).trans (length_readMore hlength)

theorem length_readBody {size : Option Nat} (h : readBody size chunks = .ok read) :
    read.2.flatten.length ≤ chunks.flatten.length := by
  cases size with
  | none =>
    obtain ⟨body, hbody, h⟩ := bind_eq_ok.mp h
    obtain ⟨tail, htail, h⟩ := bind_eq_ok.mp h
    obtain rfl := Except.ok.inj h
    exact (length_readMore htail).trans (length_readMore hbody)
  | some size => exact length_readMore h

/-- A turn takes the head of a frame at least. -/
theorem length_readOne {read : Option Received × List (List UInt8)}
    (h : readOne chunks = .ok read) : read.2.flatten.length < chunks.flatten.length := by
  unfold readOne at h
  split at h
  · cases h
  · next head rest hhead =>
    obtain ⟨hflatten, hlength⟩ := readFull_flatten hhead
    have hrest : rest.flatten.length < chunks.flatten.length := by
      rw [hflatten, List.length_append]
      omega
    dsimp only at h
    split_ifs at h
    · exact (length_readPush h).trans_lt hrest
    · split at h
      · cases h
      · obtain ⟨body, hbody, h⟩ := bind_eq_ok.mp h
        obtain rfl := Except.ok.inj h
        exact (length_readBody hbody).trans_lt hrest

/-- `readLoop`: the frames it acts on, in order, and how it ends. -/
def readLoop (chunks : List (List UInt8)) : List Received × ReadEnd :=
  match _h : readOne chunks with
  | .error cause => ([], cause)
  | .ok (received, rest) =>
    let (more, cause) := readLoop rest
    (received.toList ++ more, cause)
termination_by chunks.flatten.length
decreasing_by exact length_readOne _h

end Fareward.Client
