import Fareward.Limiter.Authorization

/-!
# The frames of a connection that concern grants

`handle_connection` of `src/service/server.rs` as far as the limiter's cached grants are concerned:
the charge and invalidation frames of one connection. The reader loop reads the frames in order and
spawns a task for each that finds a permit. Each task makes one call of the limiter, and the tasks
come to the lock of the shard in any order; what other connections, the flush and the backend do to
the limiter and its store comes in between (`elsewhere`).

The reply of a charge is not part of the model, only that its task keeps the permit until it is
sent. `receivedAt` is not in the source: it says how long the history was when the frame was read.
-/

namespace Fareward.Service

open Limiter

/-- What a frame that takes a permit of `inflight` asks for. -/
inductive AccessWork
  | charge (request : Request)
  | invalidation (companyId userId : Int)
  /-- A budget mutation or an acquire. -/
  | other
  deriving DecidableEq

inductive AccessTaskPhase
  /-- Spawned; its call has not come to the lock of the shard. -/
  | spawned
  /-- Its call has returned; a reply is to be sent. -/
  | replying
  /-- Ended, and its permit is back. -/
  | ended
  /-- Aborted with the connection before its call came to the lock. -/
  | aborted
  deriving DecidableEq

structure AccessTask where
  work : AccessWork
  phase : AccessTaskPhase
  receivedAt : ℕ
  deriving DecidableEq

namespace AccessTask

/-- The task has its permit. -/
def isInflight (task : AccessTask) : Bool := task.phase = .spawned || task.phase = .replying

/-- The call of the task has returned. -/
def hasCalled (task : AccessTask) : Bool := task.phase = .replying || task.phase = .ended

end AccessTask

structure AccessSession where
  limiter : AccessWorld
  maxInflight : ℕ
  /-- The task of each frame that found a permit, in the order of the frames. -/
  tasks : List AccessTask

namespace AccessSession

def boot (store : LimiterStore) (maxInflight : ℕ) : AccessSession := ⟨.boot store, maxInflight, []⟩

inductive Action
  /-- The reader loop reads a frame. -/
  | receive (work : AccessWork)
  /-- The call of task `k`; the clock readings and fates are those of a charge. -/
  | run (k : ℕ) (unixSeconds : Int) (now : ℕ) (fates : Fates)
  /-- Task `k` has sent its reply. -/
  | finish (k : ℕ)
  | abort (k : ℕ)
  | elsewhere (action : AccessWorld.Action)

def setTask (s : AccessSession) (k : ℕ) (phase : AccessTaskPhase) : AccessSession :=
  { s with tasks := s.tasks.modify k fun task => { task with phase } }

/-- The call a task makes of the limiter. -/
def call (config : Config) (w : AccessWorld) (unixSeconds : Int) (now : ℕ) (fates : Fates) :
    AccessWork → Option AccessWorld
  | .charge request => w.step config (.limiter (.admission request unixSeconds now fates))
  | .invalidation companyId userId => w.step config (.limiter (.invalidation companyId userId))
  | .other => some w

def step (config : Config) (s : AccessSession) : Action → Option AccessSession
  | .receive work =>
    if s.tasks.countP (·.isInflight) < s.maxInflight then
      some { s with tasks := s.tasks ++ [⟨work, .spawned, s.limiter.history.length⟩] }
    else
      -- a charge is refused, an invalidation is dropped
      some s
  | .run k unixSeconds now fates =>
    s.tasks[k]?.bind fun task =>
      if task.phase = .spawned then
        (call config s.limiter unixSeconds now fates task.work).map fun limiter =>
          { s.setTask k .replying with limiter }
      else none
  | .finish k =>
    s.tasks[k]?.bind fun task =>
      if task.phase = .replying then some (s.setTask k .ended) else none
  | .abort k =>
    s.tasks[k]?.bind fun task =>
      if task.phase = .spawned then some (s.setTask k .aborted)
      else if task.phase = .replying then some (s.setTask k .ended)
      else none
  | .elsewhere action => (s.limiter.step config action).map fun limiter => { s with limiter }

end AccessSession

end Fareward.Service
