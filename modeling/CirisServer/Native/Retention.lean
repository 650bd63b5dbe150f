import CirisServer.Native.ConfigReconcile

/-!
# Retention

`crates/ciris-lens-core/src/retention/eviction.rs` and `src/retention_loop.rs`: the
published configuration is projected onto a retention policy, the planner decides from a
storage summary what a pass evicts, and the executor carries the plan out.

The planner compares bytes with 90% of the cap in doubles; here the comparison is exact.
Byte and row counts are natural numbers, with the saturation at 2⁶⁴ − 1 written out.
-/

namespace CirisServer

/-- `u64::MAX`. -/
def u64Max : Nat := 2 ^ 64 - 1

/-- Nanoseconds in a day. -/
def nanosPerDay : Int := 86400 * nanosPerSec

/-- The bounds of a `RetentionPolicy` that the planner enforces. -/
structure RetentionPolicy where
  maxDiskGb : Option UInt64
  maxAgeDays : Option UInt32
  auditLogMaxAgeDays : Option UInt32
deriving DecidableEq

/-- `RetentionPolicy::indefinite`. -/
def RetentionPolicy.indefinite : RetentionPolicy := ⟨none, none, none⟩

/-- What the planner reads of one table. -/
structure TableUsage where
  rows : Nat
  oldestTs : Option Int
  newestTs : Option Int
deriving DecidableEq

/-- What the planner reads of the store. -/
structure StorageSummary where
  traceEvents : TableUsage
  auditLog : TableUsage
  totalDiskBytes : Nat
deriving DecidableEq

inductive DiskPressure where
  | unbounded
  | within (usedBytes capBytes : Nat)
  | relieving (usedBytes capBytes : Nat)
  | unreachable (usedBytes capBytes evictableRows : Nat)
deriving DecidableEq

structure EvictionPlan where
  deleteTracesOlderThan : Option Int
  traceBatchSize : Nat
  diskPressure : DiskPressure
  archiveAuditRange : Option (Int × Int)
deriving DecidableEq

/-- `DEFAULT_TRACE_BATCH_SIZE`. -/
def defaultTraceBatchSize : Nat := 1000

/-- Dimension 1: the cutoff of the global age bound. -/
def ageCutoff (policy : RetentionPolicy) (now : Int) : Option Int :=
  policy.maxAgeDays.map fun days => now - days.toNat * nanosPerDay

/-- The cap in bytes. -/
def capBytes (maxDiskGb : UInt64) : Nat := min (maxDiskGb.toNat * 1000000000) u64Max

/-- At or above 90% of the cap. -/
def overTrigger (used cap : Nat) : Bool := 9 * cap ≤ 10 * used

/-- Dimension 2: under disk pressure the cutoff moves to the middle of the trace window,
    never back. -/
def diskCutoff (summary : StorageSummary) (cutoff : Option Int) : Option Int :=
  match summary.traceEvents.oldestTs, summary.traceEvents.newestTs with
  | some oldest, some newest =>
    let midpoint := oldest + (newest - oldest) / 2
    some (match cutoff with
      | some existing => max existing midpoint
      | none => midpoint)
  | _, _ => cutoff

/-- Dimension 2's verdict, before the audit archive is counted as a lever. -/
def diskVerdict (summary : StorageSummary) (cutoff : Option Int) (cap : Nat) : DiskPressure :=
  if cutoff.isSome then .relieving summary.totalDiskBytes cap
  else .unreachable summary.totalDiskBytes cap
    (min (summary.traceEvents.rows + summary.auditLog.rows) u64Max)

/-- Dimensions 1 and 2. -/
def planTraces (summary : StorageSummary) (policy : RetentionPolicy) (now : Int) :
    Option Int × DiskPressure :=
  let cutoff := ageCutoff policy now
  match policy.maxDiskGb with
  | none => (cutoff, .unbounded)
  | some maxDiskGb =>
    let cap := capBytes maxDiskGb
    if overTrigger summary.totalDiskBytes cap then
      let cutoff := diskCutoff summary cutoff
      (cutoff, diskVerdict summary cutoff cap)
    else (cutoff, .within summary.totalDiskBytes cap)

/-- Dimension 3: the audit-log archival range. -/
def planAudit (summary : StorageSummary) (policy : RetentionPolicy) (now : Int) :
    Option (Int × Int) :=
  policy.auditLogMaxAgeDays.bind fun days =>
    let cutoff := now - days.toNat * nanosPerDay
    (summary.auditLog.oldestTs.filter fun oldest => oldest < cutoff).map fun oldest =>
      (oldest, cutoff)

/-- `plan_eviction`. -/
def planEviction (summary : StorageSummary) (policy : RetentionPolicy) (now : Int) :
    EvictionPlan :=
  let (cutoff, pressure) := planTraces summary policy now
  let archive := planAudit summary policy now
  { deleteTracesOlderThan := cutoff
    traceBatchSize := defaultTraceBatchSize
    diskPressure := match archive, pressure with
      | some _, .unreachable used cap _ => .relieving used cap
      | _, pressure => pressure
    archiveAuditRange := archive }

/-! ## The executor -/

/-- `EvictionSummary`: what a pass did. -/
structure EvictionSummary where
  diskPressure : DiskPressure
  evictedTraces : Nat
  archivedAuditEntries : Nat
  archivedAuditRanges : Nat
  freedBytesEstimate : Nat
deriving DecidableEq

/-- `EvictionError::Persist`. -/
structure EvictionError where
  persist : String
deriving DecidableEq

/-- What persist answers while a plan is executed. -/
structure ExecutorEnv where
  /-- `storage_summary().total_disk_bytes`, before and after. -/
  bytesBefore : Except String Nat
  bytesAfter : Except String Nat
  /-- Whether the `n`th delete statement of the pass fails. -/
  deleteFails : Nat → Option String

/-- `Engine::delete_traces_older_than`: one statement deletes at most `limit` rows from
    before the cutoff. A table is the timestamps of its rows. -/
def deleteTracesOlderThan (cutoff : Int) : Nat → List Int → List Int × Nat
  | 0, traces => (traces, 0)
  | _ + 1, [] => ([], 0)
  | limit + 1, ts :: traces =>
    if ts < cutoff then
      let (rest, deleted) := deleteTracesOlderThan cutoff limit traces
      (rest, deleted + 1)
    else
      let (rest, deleted) := deleteTracesOlderThan cutoff (limit + 1) traces
      (ts :: rest, deleted)

/-- The delete loop: statements until one comes back short of its batch. `none` is a loop
    still running after `fuel` statements. -/
def drainTraces (env : ExecutorEnv) (cutoff : Int) (batch : Nat) :
    (fuel nth : Nat) → List Int → Nat → Option (Except EvictionError Nat × List Int)
  | 0, _, _, _ => none
  | fuel + 1, nth, traces, evicted =>
    match env.deleteFails nth with
    | some e => some (.error ⟨e⟩, traces)
    | none =>
      let (rest, deleted) := deleteTracesOlderThan cutoff batch traces
      if deleted < batch then some (.ok (evicted + deleted), rest)
      else drainTraces env cutoff batch fuel (nth + 1) rest (evicted + deleted)

/-- `execute_plan`, on a trace table. The audit range of the plan is logged and left. -/
def executePlan (env : ExecutorEnv) (fuel : Nat) (plan : EvictionPlan) (traces : List Int) :
    Option (Except EvictionError EvictionSummary × List Int) :=
  match env.bytesBefore with
  | .error e => some (.error ⟨e⟩, traces)
  | .ok before =>
    let drained := match plan.deleteTracesOlderThan with
      | some cutoff => drainTraces env cutoff plan.traceBatchSize fuel 0 traces 0
      | none => some (.ok 0, traces)
    drained.map fun
      | (.error e, traces) => (.error e, traces)
      | (.ok evicted, traces) =>
        match env.bytesAfter with
        | .error e => (.error ⟨e⟩, traces)
        | .ok after =>
          (.ok
            { diskPressure := plan.diskPressure
              evictedTraces := evicted
              archivedAuditEntries := 0
              archivedAuditRanges := 0
              freedBytesEstimate := before - after }, traces)

/-! ## The pass's configuration -/

/-- The retention pass's configuration; the cadence is in seconds. -/
structure RetentionConfig where
  cadence : UInt64
  policy : RetentionPolicy
deriving DecidableEq

/-- `RetentionConfig::from_resolved`: the one place where 0 becomes "no bound". -/
def RetentionConfig.fromResolved (r : ResolvedConfig) : RetentionConfig :=
  let bound (v : UInt32) : Option UInt32 := if 0 < v then some v else none
  { cadence := r.retentionCadence
    policy :=
      { RetentionPolicy.indefinite with
        maxAgeDays := bound r.retentionMaxAgeDays
        maxDiskGb := if 0 < r.retentionMaxDiskGb then some r.retentionMaxDiskGb else none
        auditLogMaxAgeDays := bound r.retentionAuditLogMaxAgeDays } }

end CirisServer
