import CirisServer.Native.Degradation
import CirisServer.Native.Retention

/-!
# The retention pass

`src/retention_loop.rs`, `run_pass`: one pass reads the store, runs the planner and the
executor of `Retention`, and settles one alarm in the degradation registry. The store is
summarised up to three times, at three different instants, and each read can fail.

`human_bytes` formats a double and is a parameter. The prune of the announced peers comes
first in the source and touches neither the summaries nor the registry; it is left out, and
so are the log lines.
-/

namespace CirisServer

/-- `RETENTION_BOUND_CODE`. -/
def retentionBoundCode : String := "retention.bound_unenforceable"

/-- What one retention pass did. -/
inductive RetentionOutcome where
  | unbounded
  | withinBounds (traceRows : Nat) (oldestTrace : Option Int) (totalDiskBytes : Nat)
  | evicted (evictedTraces archivedAuditEntries freedBytesEstimate totalDiskBytes : Nat)
  | boundUnenforceable (usedBytes capBytes evictableRows : Nat)
deriving DecidableEq

/-- Whether an operator should be alarmed by this outcome. -/
def RetentionOutcome.isFault : RetentionOutcome → Bool
  | .unbounded => false
  | .withinBounds .. => false
  | .evicted .. => false
  | .boundUnenforceable .. => true

/-- `RetentionPolicy::is_bounded`. -/
def RetentionPolicy.isBounded (policy : RetentionPolicy) : Bool :=
  policy.maxDiskGb.isSome || policy.maxAgeDays.isSome || policy.auditLogMaxAgeDays.isSome

/-- `now - Duration::days(days)` stays on chrono's calendar. Below it the subtraction
    panics. -/
def onCalendar (now : Int) (days : UInt32) : Bool := minUtc ≤ now - days.toNat * nanosPerDay

/-- `plan_eviction` with its panics: `none` is a cutoff below the calendar. -/
def planEvictionOrPanic (summary : StorageSummary) (policy : RetentionPolicy) (now : Int) :
    Option EvictionPlan :=
  if policy.maxAgeDays.all (onCalendar now) && policy.auditLogMaxAgeDays.all (onCalendar now) then
    some (planEviction summary policy now)
  else none

/-- How a pass ends that has no outcome. -/
inductive Stop where
  | err (e : EvictionError)
  | panicked
deriving DecidableEq

/-- What the store and the clock answer during one pass. -/
structure PassEnv where
  now : Int
  /-- `run_pass`'s reading before the sweep, the planner's, and the one after the sweep. -/
  before : Except String StorageSummary
  planned : Except String StorageSummary
  after : Except String StorageSummary
  executor : ExecutorEnv

/-- What a pass changes. -/
structure PassState where
  warnings : List Warning
  traces : List Int
deriving DecidableEq

/-- `evict_per_retention_policy`. -/
def evictPerRetentionPolicy (env : PassEnv) (fuel : Nat) (policy : RetentionPolicy)
    (traces : List Int) : Option (Except Stop EvictionSummary × List Int) :=
  match env.planned with
  | .error e => some (.error (.err ⟨e⟩), traces)
  | .ok summary =>
    match planEvictionOrPanic summary policy env.now with
    | none => some (.error .panicked, traces)
    | some plan =>
      (executePlan env.executor fuel plan traces).map fun (done, traces) =>
        (done.mapError .err, traces)

/-! ## The messages -/

def unreachableMessage (used cap : String) (evictableRows : Nat) : String :=
  "the configured disk cap cannot be enforced: " ++ used ++ " of " ++ cap ++ " used, and only " ++
    toString evictableRows ++ " rows are reachable by any configured lever. Narrow what this " ++
    "node ACCEPTS (consent prefixes / replication planes) or give it more disk. " ++
    "Raising max_disk_gb silences this without freeing a byte."

def crossedMessage (used cap : String) : String :=
  "the store crossed its eviction trigger DURING this pass: " ++ used ++ " of " ++ cap ++
    " used, and eviction starts at 90% of the cap. Ingestion is outrunning retention."

def inertMessage (used cap : String) : String :=
  "the configured disk cap cannot be enforced: " ++ used ++ " of " ++ cap ++ " used. This " ++
    "pass PLANNED to free bytes and freed none, so no future pass changes this on its own. " ++
    "Narrow what this node accepts, or give it more disk; raising max_disk_gb silences this " ++
    "without freeing a byte."

def stillPressuredMessage (used cap : String) : String :=
  "the store is still at or above its eviction trigger after a pass that DID evict: " ++ used ++
    " of " ++ cap ++ " used, and eviction starts at 90% of the cap. The levers work but are not " ++
    "keeping up with what this node accepts. Narrow the consent prefixes / replication planes, " ++
    "give the node more disk, or VACUUM — on SQLite a delete need not shrink the file."

/-! ## The pass -/

section Pass

variable (human : Nat → String)

/-- Raise the alarm, and return the fault. -/
def alarm (message : String) (usedBytes capBytes evictableRows : Nat) (registry : List Warning) :
    Option RetentionOutcome × List Warning :=
  (some (.boundUnenforceable usedBytes capBytes evictableRows),
    raise (.error retentionBoundCode message) registry)

/-- Take the alarm down, and go on to the report. -/
def standDown (registry : List Warning) : Option RetentionOutcome × List Warning :=
  (none, (clear retentionBoundCode registry).1)

/-- Rows left the store, or entries were archived. -/
def EvictionSummary.acted (summary : EvictionSummary) : Bool :=
  0 < summary.evictedTraces || 0 < summary.archivedAuditEntries

/-- `summary.evicted_traces as u64 + summary.archived_audit_entries`, wrapping. -/
def EvictionSummary.reached (summary : EvictionSummary) : Nat :=
  (summary.evictedTraces + summary.archivedAuditEntries) % 2 ^ 64

/-- The `match` on the verdict, with the fault it returns early. `after` is there if the
    pass acted. -/
def settleAlarm (before : StorageSummary) (summary : EvictionSummary)
    (after : Option StorageSummary) (registry : List Warning) :
    Option RetentionOutcome × List Warning :=
  match summary.diskPressure with
  | .within _ cap =>
    if after.any fun a => overTrigger a.totalDiskBytes cap then
      let used := after.elim 0 fun a => a.totalDiskBytes
      alarm (crossedMessage (human used) (human cap)) used cap summary.reached registry
    else standDown registry
  | .unbounded => standDown registry
  | .relieving used cap =>
    if !summary.acted then
      -- the plan named a lever, and the lever moved nothing
      let evictableRows := (before.traceEvents.rows + before.auditLog.rows) % 2 ^ 64
      alarm (inertMessage (human used) (human cap)) used cap evictableRows registry
    else
      let used := after.elim u64Max fun a => a.totalDiskBytes
      if overTrigger used cap then
        alarm (stillPressuredMessage (human used) (human cap)) used cap summary.reached registry
      else standDown registry
  | .unreachable .. => (none, registry)

/-- The outcome of a pass that returned no fault. The last arm is the `expect`. -/
def report (before : StorageSummary) (summary : EvictionSummary) (after : Option StorageSummary) :
    Except Stop RetentionOutcome :=
  if summary.evictedTraces = 0 ∧ summary.archivedAuditEntries = 0 then
    .ok (.withinBounds before.traceEvents.rows before.traceEvents.oldestTs before.totalDiskBytes)
  else
    match after with
    | some a =>
      .ok (.evicted summary.evictedTraces summary.archivedAuditEntries summary.freedBytesEstimate
        a.totalDiskBytes)
    | none => .error .panicked

/-- The summary after the sweep, which a pass that acted reads once. -/
def readAfter (env : PassEnv) (summary : EvictionSummary) :
    Except String (Option StorageSummary) :=
  if summary.acted then env.after.map some else .ok none

/-- The verdict's fault, or else the report. -/
def concludePass (before : StorageSummary) (summary : EvictionSummary)
    (after : Option StorageSummary) (registry : List Warning) :
    Except Stop RetentionOutcome × List Warning :=
  match settleAlarm human before summary after registry with
  | (some fault, registry) => (.ok fault, registry)
  | (none, registry) => (report before summary after, registry)

/-- The rest of the pass after the sweep. The verdict `Unreachable` outranks the counts. -/
def judgePass (env : PassEnv) (before : StorageSummary) (summary : EvictionSummary)
    (registry : List Warning) : Except Stop RetentionOutcome × List Warning :=
  match summary.diskPressure with
  | .unreachable used cap evictableRows =>
    (.ok (.boundUnenforceable used cap evictableRows),
      raise (.error retentionBoundCode (unreachableMessage (human used) (human cap) evictableRows))
        registry)
  | _ =>
    match readAfter env summary with
    | .error e => (.error (.err ⟨e⟩), registry)
    | .ok after => concludePass human before summary after registry

/-- `run_pass`. `none` is a delete loop still running after `fuel` statements. -/
def runPass (env : PassEnv) (fuel : Nat) (cfg : RetentionConfig) (s : PassState) :
    Option (Except Stop RetentionOutcome × PassState) :=
  if !cfg.policy.isBounded then
    some (.ok .unbounded, { s with warnings := (clear retentionBoundCode s.warnings).1 })
  else
    -- without a disk cap the alarm comes down before any read that can fail
    let registry :=
      if cfg.policy.maxDiskGb.isNone then (clear retentionBoundCode s.warnings).1 else s.warnings
    match env.before with
    | .error e => some (.error (.err ⟨e⟩), { s with warnings := registry })
    | .ok before =>
      (evictPerRetentionPolicy env fuel cfg.policy s.traces).map fun
        | (.error stop, traces) => (.error stop, ⟨registry, traces⟩)
        | (.ok summary, traces) =>
          let (result, registry) := judgePass human env before summary registry
          (result, ⟨registry, traces⟩)

end Pass

end CirisServer
