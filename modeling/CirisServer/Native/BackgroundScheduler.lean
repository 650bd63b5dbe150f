import CirisServer.ForStd.Interleave

/-!
# The background-work bound

`background_scheduler.rs`: every background task holds a permit of one semaphore, and
`apply` moves the number of permits toward the ceiling a trust root asked for. Each
region under the `bound` mutex and each operation of the semaphore is one atomic step; a
`TaskSlot` is dropped whenever its task ends.

Permits are natural numbers: `load.ceiling` is clamped far below the semaphore's limit.
-/

namespace CirisServer

open Interleave

/-- The bound under its mutex, the free permits of the semaphore, and the count of
    completed tasks. -/
structure BackgroundScheduler where
  target : Nat
  granted : Nat
  available : Nat
  completed : Nat
deriving DecidableEq

namespace BackgroundScheduler

/-! ## The semaphore -/

def addPermits (s : BackgroundScheduler) (n : Nat) : BackgroundScheduler :=
  { s with available := s.available + n }

/-- Only free permits can be forgotten. Answers how many were. -/
def forgetPermits (s : BackgroundScheduler) (n : Nat) : BackgroundScheduler × Nat :=
  ({ s with available := s.available - min n s.available }, min n s.available)

/-! ## The regions -/

/-- Move `granted` toward `target` as far as the semaphore allows right now. -/
def reconcile (s : BackgroundScheduler) : BackgroundScheduler :=
  if s.granted < s.target then
    let add := s.target - s.granted
    let s := s.addPermits add
    { s with granted := s.granted + add }
  else if s.granted > s.target then
    let (s, removed) := s.forgetPermits (s.granted - s.target)
    { s with granted := s.granted - removed }
  else s

/-- The first region of `apply`: the new target, or `none` where it is the old one. -/
def retarget (s : BackgroundScheduler) (maxConcurrentTasks : Nat) : Option BackgroundScheduler :=
  let target := max maxConcurrentTasks 1
  if s.target = target then none else some { s with target }

/-- The region of a slot's drop: is this permit owed to a shrink? -/
def decideOwed (s : BackgroundScheduler) : BackgroundScheduler × Bool :=
  if s.granted > s.target then ({ s with granted := s.granted - 1 }, true) else (s, false)

end BackgroundScheduler

/-- Where a call or a slot stands, between its atomic steps. -/
inductive SchedulerTask where
  /-- `apply`, before its region. -/
  | apply (maxConcurrentTasks : Nat)
  /-- `acquire`, waiting for a permit. -/
  | acquire
  /-- A `TaskSlot` in its task's hands. -/
  | live
  /-- The slot's drop has counted the task and taken the permit out. -/
  | dropping
  /-- The drop has decremented `granted` and not yet forgotten its permit. -/
  | owed
  /-- The drop is about to release its permit. -/
  | unowed
  /-- About to `reconcile`. -/
  | reconciling
  | done
deriving DecidableEq

/-- A call on the scheduler. -/
inductive SchedulerCall where
  | apply (maxConcurrentTasks : Nat)
  | acquire
deriving DecidableEq

/-- One atomic step. The step of a `live` slot is its drop, whenever that comes. -/
def SchedulerTask.advance (t : SchedulerTask) (s : BackgroundScheduler) :
    BackgroundScheduler × SchedulerTask :=
  match t with
  | .apply n =>
    match s.retarget n with
    | none => (s, .done)
    | some s => (s, .reconciling)
  | .acquire =>
    if 0 < s.available then ({ s with available := s.available - 1 }, .live) else (s, .acquire)
  | .live => ({ s with completed := s.completed + 1 }, .dropping)
  | .dropping =>
    let (s, shrinks) := s.decideOwed
    (s, if shrinks then .owed else .unowed)
  -- the permit is consumed: it does not come back to the semaphore
  | .owed => (s, .reconciling)
  | .unowed => (s.addPermits 1, .reconciling)
  | .reconciling => (s.reconcile, .done)
  | .done => (s, .done)

/-- The scheduler and its callers. -/
def scheduler : System BackgroundScheduler SchedulerTask SchedulerCall Unit where
  spawn call s :=
    match call with
    | .apply n => (s, .apply n)
    | .acquire => (s, .acquire)
  advance _ t s := t.advance s

/-- `with_bound`: a scheduler with an explicit bound, of at least 1. -/
def withBound (maxConcurrentTasks : Nat) : Config BackgroundScheduler SchedulerTask :=
  let n := max maxConcurrentTasks 1
  ⟨{ target := n, granted := n, available := n, completed := 0 }, []⟩

end CirisServer
