import Fareward.Limiter.CreditsBlob

/-!
# Access grants

`src/limiter/access.rs`: one user's authorization grants as the two blobs of the `users` row, the
checks a row passes when it is loaded, and the verdict for the grants a frame requires.

`grants` holds big-endian grant words `[14 bits acceso_id][2 bits nivel-1]`; `subGrants` holds the
same words, each followed by its run of sub bytes `[1 bit MORE][7 bits flags]`.
-/

namespace Fareward.Limiter

/-- `StoredUserAccess`: one row of `users`. -/
structure StoredUserAccess where
  grantsBlob : List UInt8
  subGrantsBlob : List UInt8
  status : Int
  deriving DecidableEq, Repr

/-- `AccessDenial`. -/
inductive AccessDenial
  | noAccess
  | unknownUser
  | inactiveUser
  deriving DecidableEq, Repr

/-- `AccessVerdict`. -/
structure AccessVerdict where
  grantedMask : UInt8
  hasSubsMask : UInt8
  subBytes : List UInt8
  deriving DecidableEq, Repr

/-- `AccessVerdict::default()`: what a frame that asked nothing gets. -/
def AccessVerdict.none : AccessVerdict := ⟨0, 0, []⟩

/-- `UserAccessState`. -/
structure UserAccessState where
  grants : List UInt8
  subGrants : List UInt8
  status : Int
  found : Bool
  loadedAt : Int
  deriving DecidableEq, Repr

namespace Access

def grantWordSize : ℕ := 2

def subMoreBit : UInt8 := 0x80

/-- `ACTIVE_USER_STATUS`. -/
def activeUserStatus : Int := 1

/-- `u16::from_be_bytes`. -/
def wordOf (high low : UInt8) : UInt16 := high.toUInt16 <<< 8 ||| low.toUInt16

/-- `unpack_grant`: the access id and its level. -/
def unpackGrant (word : UInt16) : UInt16 × UInt8 := (word >>> 2, (word &&& 3).toUInt8 + 1)

/-- The binary search of `holds_in_grants` over the grant words `[low, high)`. Each turn halves
the range, so the number of words is enough `fuel`. -/
def searchGrants (grants : List UInt8) (requiredId : UInt16) (requiredNivel : UInt8) :
    ℕ → ℕ → ℕ → Bool
  | 0, _, _ => false
  | fuel + 1, low, high =>
    if low < high then
      let middle := (low + high) / 2
      let offset := middle * grantWordSize
      let granted := unpackGrant (wordOf (grants.getD offset 0) (grants.getD (offset + 1) 0))
      if granted.1 < requiredId then
        searchGrants grants requiredId requiredNivel fuel (middle + 1) high
      else if requiredId < granted.1 then
        searchGrants grants requiredId requiredNivel fuel low middle
      else requiredNivel ≤ granted.2
    else false

/-- `holds_in_grants`. -/
def holdsInGrants (grants : List UInt8) (required : UInt16) : Bool :=
  let count := grants.length / grantWordSize
  searchGrants grants (unpackGrant required).1 (unpackGrant required).2 (count + 1) 0 count

/-- The sub bytes at the head, up to and with the first whose `MORE` bit is clear. -/
def takeSubRun : List UInt8 → List UInt8 × List UInt8
  | [] => ([], [])
  | byte :: bytes =>
    if byte &&& subMoreBit = 0 then ([byte], bytes)
    else
      let (run, rest) := takeSubRun bytes
      (byte :: run, rest)

/-- The scan of `find_in_sub_grants`; a turn consumes a grant word. -/
def scanSubGrants (requiredId : UInt16) (requiredNivel : UInt8) :
    ℕ → List UInt8 → Option (List UInt8)
  | fuel + 1, high :: low :: bytes =>
    let granted := unpackGrant (wordOf high low)
    let (run, rest) := takeSubRun bytes
    if granted.1 = requiredId then if requiredNivel ≤ granted.2 then some run else none
    else if requiredId < granted.1 then none
    else scanSubGrants requiredId requiredNivel fuel rest
  | _, _ => none

/-- `find_in_sub_grants`. -/
def findInSubGrants (subGrants : List UInt8) (required : UInt16) : Option (List UInt8) :=
  scanSubGrants (unpackGrant required).1 (unpackGrant required).2 subGrants.length subGrants

def ascendingGrants : UInt16 → List UInt8 → Except String Unit
  | previousId, high :: low :: bytes =>
    let grantedId := (unpackGrant (wordOf high low)).1
    if grantedId ≤ previousId then
      .error s!"accesos_computed is not ascending at acceso {grantedId}"
    else ascendingGrants grantedId bytes
  | _, _ => .ok ()

/-- `validate_grants`: whole grant words, strictly ascending. -/
def validateGrants (grants : List UInt8) : Except String Unit :=
  let length := grants.length
  if length % grantWordSize ≠ 0 then
    .error s!"accesos_computed length {length} is not a whole number of grant words"
  else ascendingGrants 0 grants

/-- The inner loop of `validate_sub_grants`: the mask of one run of sub bytes and what follows. -/
def subRunMask (grantedId : UInt16) : UInt16 → ℕ → List UInt8 → Except String (UInt16 × List UInt8)
  | _, _, [] => .error s!"accesos_sub_computed acceso {grantedId} has no sub bytes"
  | mask, index, byte :: bytes =>
    if 16 ≤ index * 7 then .error s!"accesos_sub_computed acceso {grantedId} overflows its mask"
    else
      let mask := mask ||| (byte &&& ~~~subMoreBit).toUInt16 <<< UInt16.ofNat (index * 7)
      if byte &&& subMoreBit = 0 then .ok (mask, bytes)
      else subRunMask grantedId mask (index + 1) bytes

/-- The outer loop of `validate_sub_grants`; a turn consumes a grant word. -/
def subGrantsFrom (total : ℕ) : ℕ → UInt16 → List UInt8 → Except String Unit
  | _, _, [] => .ok ()
  | fuel + 1, previousId, high :: low :: bytes =>
    let grantedId := (unpackGrant (wordOf high low)).1
    if grantedId ≤ previousId then
      .error s!"accesos_sub_computed is not ascending at acceso {grantedId}"
    else do
      let (mask, rest) ← subRunMask grantedId 0 0 bytes
      if mask = 0 then .error s!"accesos_sub_computed acceso {grantedId} carries no sub-accesses"
      else subGrantsFrom total fuel grantedId rest
  | _, _, bytes =>
    let offset := total - bytes.length
    .error s!"accesos_sub_computed ends mid grant word at byte {offset}"

/-- `validate_sub_grants`. -/
def validateSubGrants (subGrants : List UInt8) : Except String Unit :=
  subGrantsFrom subGrants.length subGrants.length 0 subGrants

/-- One slot of the loop of `verdict`. -/
def grantSlot (state : UserAccessState) (verdict : AccessVerdict) (slot : ℕ) (required : UInt16) :
    AccessVerdict :=
  let bit : UInt8 := 1 <<< UInt8.ofNat slot
  if holdsInGrants state.grants required then
    { verdict with grantedMask := verdict.grantedMask ||| bit }
  else
    match findInSubGrants state.subGrants required with
    | some subBytes =>
      { grantedMask := verdict.grantedMask ||| bit
        hasSubsMask := verdict.hasSubsMask ||| bit
        subBytes := verdict.subBytes ++ subBytes }
    | none => verdict

def grantSlots (state : UserAccessState) : AccessVerdict → ℕ → List UInt16 → AccessVerdict
  | verdict, _, [] => verdict
  | verdict, slot, required :: slots =>
    grantSlots state (grantSlot state verdict slot required) (slot + 1) slots

end Access

namespace UserAccessState

/-- `from_row`: a missing row is cached as well. -/
def fromRow (row : Option StoredUserAccess) (loadedAt : Int) : Except String UserAccessState :=
  match row with
  | none => .ok ⟨[], [], 0, false, loadedAt⟩
  | some row => do
    Access.validateGrants row.grantsBlob
    Access.validateSubGrants row.subGrantsBlob
    return ⟨row.grantsBlob, row.subGrantsBlob, row.status, true, loadedAt⟩

/-- `is_fresh`. -/
def isFresh (s : UserAccessState) (unixSeconds ttlSeconds : Int) : Bool :=
  s.loadedAt ≤ unixSeconds ∧ unixSeconds - s.loadedAt ≤ ttlSeconds

/-- `verdict`: identity first, then every slot up to the first empty one. -/
def verdict (s : UserAccessState) (required : List UInt16) : Except AccessDenial AccessVerdict :=
  if !s.found then .error .unknownUser
  else if s.status ≠ Access.activeUserStatus then .error .inactiveUser
  else
    let verdict := Access.grantSlots s .none 0 (required.takeWhile (· ≠ 0))
    if verdict.grantedMask ≠ 0 then .ok verdict else .error .noAccess

end UserAccessState

end Fareward.Limiter
