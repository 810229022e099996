import Mathlib.Data.Nat.Basic
import Fareward.Lib.Checked
import Fareward.Lib.SortedMap

/-!
# Credits and their stored form

`src/limiter/credits_blob.rs`: the two-dimensional credit amount, the per-route totals of a usage
row, and the canonical bytes a row is stored as. Each route that spent anything is

    header:u16 = (route_id << 2) | width_code
    [cpu:width][inference:width]             width = width_code + 1

with routes ascending, all-zero routes omitted and the narrowest width that holds both values.

`decode (encode m)` gives the totals of `m` back: `Limiter/Equiv/CreditsBlob.lean`; `decode` accepts
what `encode` writes and nothing else: `Limiter/Equiv/Canonical.lean`.
-/

namespace Fareward.Limiter

/-- `MAX_ROUTE_ID`. -/
def maxRouteId : ℕ := 16383

/-- `Credits`: an amount in the two dimensions that are charged. -/
@[ext]
structure Credits where
  cpu : ℕ
  inference : ℕ
  deriving DecidableEq, Repr

/-- The two dimensions. -/
inductive Resource
  | cpu
  | inference
  deriving DecidableEq, Repr

namespace Credits

/-- The amount in one dimension. -/
def of (c : Credits) : Resource → ℕ
  | .cpu => c.cpu
  | .inference => c.inference

/-- `Credits::default()`. -/
def zero : Credits := ⟨0, 0⟩

/-- `checked_add`: both dimensions must stay within `u64`. -/
def checkedAdd (c increment : Credits) : Option Credits := do
  let cpu ← checkedU64 (c.cpu + increment.cpu)
  let inference ← checkedU64 (c.inference + increment.inference)
  return ⟨cpu, inference⟩

end Credits

/-- `RoutedCredits`: absolute totals by route. -/
abbrev RoutedCredits := SortedMap ℕ Credits

/-- `CreditsBlobError`. -/
inductive CreditsBlobError
  | invalidRouteId (route : ℕ)
  | creditsOverflow
  | truncated
  | nonCanonicalOrder
  | nonCanonicalWidth
  | nonCanonicalZero
  deriving DecidableEq, Repr

namespace CreditsBlob

/-- `width_for`. -/
def widthFor (value : ℕ) : Except CreditsBlobError ℕ :=
  if value ≤ 0xFF then .ok 1
  else if value ≤ 0xFFFF then .ok 2
  else if value ≤ 0xFFFFFF then .ok 3
  else if value ≤ 0xFFFFFFFF then .ok 4
  else .error .creditsOverflow

/-- `write_uint`: the last `width` of the four big-endian bytes. -/
def writeUint (value : ℕ) : ℕ → List UInt8
  | 0 => []
  | width + 1 => UInt8.ofNat (value >>> (8 * width)) :: writeUint value width

/-- `read_uint`. -/
def readUint (bytes : List UInt8) : ℕ :=
  bytes.foldl (fun value byte => value <<< 8 ||| byte.toNat) 0

/-- One turn of the loop of `encode`. -/
def encodeEntry (route : ℕ) (credits : Credits) : Except CreditsBlobError (List UInt8) :=
  if maxRouteId < route then .error (.invalidRouteId route)
  else if credits.cpu = 0 ∧ credits.inference = 0 then .ok []
  else do
    let width ← widthFor (max credits.cpu credits.inference)
    return writeUint (route <<< 2 ||| (width - 1)) 2 ++
      (writeUint credits.cpu width ++ writeUint credits.inference width)

def encodeEntries : List (ℕ × Credits) → Except CreditsBlobError (List UInt8)
  | [] => .ok []
  | (route, credits) :: entries => do
    let entry ← encodeEntry route credits
    let rest ← encodeEntries entries
    return entry ++ rest

/-- `encode`. -/
def encode (routes : RoutedCredits) : Except CreditsBlobError (List UInt8) :=
  encodeEntries routes.entries

/-- One turn of the loop of `decode`: the entry at the head of the bytes and what follows it. -/
def decodeEntry (previous : Option ℕ) (bytes : List UInt8) :
    Except CreditsBlobError (ℕ × Credits × List UInt8) :=
  if bytes.length < 2 then .error .truncated
  else
    let header := readUint (bytes.take 2)
    let body := bytes.drop 2
    let route := header >>> 2
    let width := header % 4 + 1
    if previous.any (route ≤ ·) then .error .nonCanonicalOrder
    else if body.length < width * 2 then .error .truncated
    else
      let cpu := readUint (body.take width)
      let inference := readUint ((body.drop width).take width)
      if cpu = 0 ∧ inference = 0 then .error .nonCanonicalZero
      else do
        let narrowest ← widthFor (max cpu inference)
        if narrowest ≠ width then .error .nonCanonicalWidth
        else return (route, ⟨cpu, inference⟩, (body.drop width).drop width)

/-- The loop of `decode`. A turn consumes at least four bytes, so the number of bytes is enough
`fuel`. -/
def decodeLoop : ℕ → List UInt8 → Option ℕ → RoutedCredits → Except CreditsBlobError RoutedCredits
  | 0, _, _, routes => .ok routes
  | _ + 1, [], _, routes => .ok routes
  | fuel + 1, byte :: bytes, previous, routes => do
    let (route, credits, rest) ← decodeEntry previous (byte :: bytes)
    decodeLoop fuel rest (some route) (routes.insert route credits)

/-- `decode`. -/
def decode (encoded : List UInt8) : Except CreditsBlobError RoutedCredits :=
  decodeLoop encoded.length encoded none ∅

/-! ### The same walk with an offset

`decode` keeps an offset into one slice and indexes it. Indexing past the end panics, which is
`none` here; `Limiter/Equiv/Canonical.lean` shows that it does not happen. -/

/-- `&bytes[start..stop]`. -/
def slice (bytes : List UInt8) (start stop : ℕ) : Option (List UInt8) :=
  if start ≤ stop ∧ stop ≤ bytes.length then some ((bytes.drop start).take (stop - start)) else none

/-- One turn of the loop of `decode` at an offset, with the offset it ends at. -/
def decodeEntryAt (encoded : List UInt8) (offset : ℕ) (previous : Option ℕ) :
    Option (Except CreditsBlobError (ℕ × Credits × ℕ)) :=
  if encoded.length - offset < 2 then some (.error .truncated)
  else do
    let high ← encoded[offset]?
    let low ← encoded[offset + 1]?
    let header := readUint [high, low]
    let offset := offset + 2
    let route := header >>> 2
    let width := header % 4 + 1
    if previous.any (route ≤ ·) then some (.error .nonCanonicalOrder)
    else if encoded.length - offset < width * 2 then some (.error .truncated)
    else do
      let cpu ← (slice encoded offset (offset + width)).map readUint
      let offset := offset + width
      let inference ← (slice encoded offset (offset + width)).map readUint
      let offset := offset + width
      if cpu = 0 ∧ inference = 0 then some (.error .nonCanonicalZero)
      else
        match widthFor (max cpu inference) with
        | .error e => some (.error e)
        | .ok narrowest =>
          if narrowest ≠ width then some (.error .nonCanonicalWidth)
          else some (.ok (route, ⟨cpu, inference⟩, offset))

/-- The loop of `decode` from an offset. -/
def decodeLoopAt (encoded : List UInt8) :
    ℕ → ℕ → Option ℕ → RoutedCredits → Option (Except CreditsBlobError RoutedCredits)
  | 0, _, _, routes => some (.ok routes)
  | fuel + 1, offset, previous, routes =>
    if offset < encoded.length then do
      match ← decodeEntryAt encoded offset previous with
      | .error e => some (.error e)
      | .ok (route, credits, offset) =>
        decodeLoopAt encoded fuel offset (some route) (routes.insert route credits)
    else some (.ok routes)

/-- `decode` with its offset. -/
def decodeAt (encoded : List UInt8) : Option (Except CreditsBlobError RoutedCredits) :=
  decodeLoopAt encoded encoded.length 0 none ∅

/-! ### Sums -/

/-- The step of the fold of `sum`. -/
def addEntry (total : Credits) (entry : ℕ × Credits) : Except CreditsBlobError Credits :=
  match total.checkedAdd entry.2 with
  | some total => .ok total
  | none => .error .creditsOverflow

/-- `sum`. -/
def sum (routes : RoutedCredits) : Except CreditsBlobError Credits :=
  routes.entries.foldlM addEntry .zero

end CreditsBlob

end Fareward.Limiter
