import Fareward.Limiter.Flush

/-!
# Authorization over time

The limiter of `Limiter/Flush.lean` over a users table that the backend rewrites at any time.

`history` is not in the source. It records what concerns authorization, newest first, in the order
in which it happens under the lock of the shard: the rows that admissions read, the invalidations
and the verdicts, and the changes of the users table.
-/

namespace Fareward.Limiter

/-- `invalidate_access` of the company and the user is about the grants under the key. -/
def covers (companyId userId : Int) (key : Int × Int) : Bool :=
  key.1 = companyId ∧ (userId = 0 ∨ key.2 = userId)

inductive AccessEvent
  /-- The backend writes the users row, or deletes it. -/
  | changed (key : Int × Int) (row : Option StoredUserAccess)
  /-- `load_user_access` returns the row to an admission with the reading. -/
  | read (key : Int × Int) (row : Option StoredUserAccess) (unixSeconds : Int)
  | invalidated (companyId userId : Int)
  /-- An admission with the reading has its verdict. -/
  | verdict (request : Request) (unixSeconds : Int) (verdict : Except AccessDenial AccessVerdict)
  deriving DecidableEq

/-- The key of the grants a request is judged by. -/
def Request.accessKey (r : Request) : Int × Int := (r.companyId, r.userId)

/-- `admit_at` up to the verdict. -/
def authorizeAt (config : Config) (fates : Fates) (request : Request) (unixSeconds : Int) :
    Call (Except AccessDenial AccessVerdict) := do
  .lift (fates.lock .shard)
  authorize config fates request unixSeconds

/-- The admission comes to `load_user_access`, which returns. -/
def readsAccess (config : Config) (fates : Fates) (request : Request) (unixSeconds : Int)
    (l : RateLimiter) : Bool :=
  request.requestsAuthorization && (fates.lock .shard).toBool &&
    !(l.access.lookup request.accessKey).any (·.isFresh unixSeconds config.accessCacheSeconds) &&
    fates .userAccess = .done

/-- What an admission adds to the history. -/
def accessEvents (config : Config) (fates : Fates) (request : Request) (unixSeconds : Int)
    (p : Process) : List AccessEvent :=
  let verdicts :=
    match request.requestsAuthorization,
        ((authorizeAt config fates request unixSeconds).exec p).1 with
    | true, .ok verdict => [.verdict request unixSeconds verdict]
    | _, _ => []
  let reads :=
    if readsAccess config fates request unixSeconds p.limiter then
      [.read request.accessKey (p.store.loadUserAccess request.companyId request.userId)
        unixSeconds]
    else []
  verdicts ++ reads

structure AccessWorld where
  world : World
  history : List AccessEvent

namespace AccessWorld

/-- A fresh process over a store. -/
def boot (store : LimiterStore) : AccessWorld := ⟨.boot store, []⟩

inductive Action
  | limiter (action : Limiter.Action)
  /-- The backend writes or deletes a users row. -/
  | change (key : Int × Int) (row : Option StoredUserAccess)

/-- What a step of the limiter adds to the history. -/
def events (config : Config) (p : Process) : Limiter.Action → List AccessEvent
  | .admission request unixSeconds _ fates => accessEvents config fates request unixSeconds p
  | .invalidation companyId userId => [.invalidated companyId userId]
  | _ => []

def step (config : Config) (w : AccessWorld) : Action → Option AccessWorld
  | .limiter action =>
    (Limiter.step config w.world action).map fun world =>
      ⟨world, events config w.world.process action ++ w.history⟩
  | .change key row =>
    let store := w.world.process.store
    some {
      world := { w.world with process := { w.world.process with
        store := { store with users := Function.update store.users key row } } }
      history := .changed key row :: w.history }

/-- The row of the users table after the history, over the table it started from. -/
def storedRow (users : Int × Int → Option StoredUserAccess) (key : Int × Int) :
    List AccessEvent → Option StoredUserAccess
  | [] => users key
  | .changed key' row :: history => if key = key' then row else storedRow users key history
  | _ :: history => storedRow users key history

end AccessWorld

end Fareward.Limiter
