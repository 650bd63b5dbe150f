import CirisServer.Native.Retention

/-!
# Periodic-loop cadence

`loop_cadence.rs`: a fixed period, on a slot that no other loop shares. The order of
`LOOPS` is the phase allocation, and every cadence measures from one epoch of the
process. A `Duration` and an `Instant` are numbers of nanoseconds; the clock reads of a
call are its arguments.
-/

namespace CirisServer

def nanosPerMilli : Nat := 1000000

/-- Every periodic loop in the node. The order is the phase allocation. -/
def LOOPS : List String :=
  ["config_reconcile", "replication_reconcile", "scorer", "retention", "federation_delivery",
    "mesh_config_effect", "trace_plane_watch", "equivocation", "scope_seal", "self_room",
    "session_claims", "pair_rooms", "device_release"]

/-- The gap between consecutive loop slots. -/
def slotSpacing : Nat := 2250 * nanosPerMilli

/-- The loop's offset into its period: its slot times `slotSpacing`, wrapped into the
    period. An unregistered name gets slot 0. -/
def phaseFor (name : String) (period : Nat) : Nat :=
  match LOOPS.findIdx? (· == name) with
  | some slot =>
    let offset := slotSpacing * slot
    if offset < period then offset else offset % max period 1
  | none => 0

/-- A periodic schedule. `base + n * period` is deadline `n`. -/
structure Cadence where
  name : String
  period : Nat
  base : Nat
  seq : Nat
  started : Bool
deriving DecidableEq

namespace Cadence

/-- A zero period is clamped to one second. -/
def clampPeriod (period : Nat) : Nat :=
  if period = 0 then 1000 * nanosPerMilli else period

/-- The smallest ordinal whose deadline is strictly after `t`. -/
def firstSeqAfter (c : Cadence) (t : Nat) : Nat :=
  if t ≤ c.base then 0
  else min ((t - c.base) / max c.period 1 + 1) u64Max

/-- A cadence of the process with this `epoch`, built at `now`. -/
def new (epoch : Nat) (name : String) (period now : Nat) : Cadence :=
  let period := clampPeriod period
  let c : Cadence :=
    { name, period, base := epoch + phaseFor name period, seq := 0, started := false }
  { c with seq := c.firstSeqAfter now }

/-- The loop's offset into its period. -/
def phase (c : Cadence) : Nat := phaseFor c.name c.period

/-- The absolute deadline for tick `n`, with the multiplication of the `u64`
    nanoseconds saturating. -/
def deadline (c : Cadence) (n : Nat) : Nat :=
  c.base + min (min c.period u64Max * n) u64Max

/-- Wait for the next tick: at `now`, and woken at `wake` if the sleep ends before the
    future is dropped. The ordinal advances only after the sleep. -/
def tick (c : Cadence) (now : Nat) (wake : Option Nat) : Cadence :=
  if !c.started then { c with started := true }
  else if c.deadline c.seq ≤ now then { c with seq := c.firstSeqAfter now }
  else
    match wake with
    | some woken => { c with seq := c.firstSeqAfter woken }
    | none => c

/-- Put the next deadline a full period or more from `now`, keeping the slot. -/
def reset (c : Cadence) (now : Nat) : Cadence :=
  { c with seq := c.firstSeqAfter (now + c.period) }

/-- Adopt a new period, keeping the slot. -/
def retune (epoch : Nat) (c : Cadence) (period now : Nat) : Cadence :=
  let c := { c with period := clampPeriod period }
  let c := { c with base := epoch + c.phase }
  { c with seq := c.firstSeqAfter now }

/-- The calls a loop makes on its cadence. -/
inductive Call where
  | tick (now : Nat) (wake : Option Nat)
  | reset (now : Nat)
  | retune (period now : Nat)
deriving DecidableEq

def step (epoch : Nat) (c : Cadence) : Call → Cadence
  | .tick now wake => c.tick now wake
  | .reset now => c.reset now
  | .retune period now => c.retune epoch period now

end Cadence

/-! ## Overflow -/

/-- `Duration::from_secs`. -/
def durationFromSecs (secs : UInt64) : Nat := secs.toNat * (1000 * nanosPerMilli)

/-- The last `Instant`: its seconds are an `i64`. -/
def lastInstant : Nat := (2 ^ 63 - 1) * (1000 * nanosPerMilli) + 999999999

/-- `Instant + Duration`. Past the last instant it panics. -/
def addDuration (t d : Nat) : Option Nat := if t + d ≤ lastInstant then some (t + d) else none

namespace Cadence

/-- `new` with its panics. -/
def newOrPanic (epoch : Nat) (name : String) (period now : Nat) : Option Cadence :=
  let period := clampPeriod period
  (addDuration epoch (phaseFor name period)).map fun base =>
    let c : Cadence := { name, period, base, seq := 0, started := false }
    { c with seq := c.firstSeqAfter now }

/-- `deadline` with its panics. -/
def deadlineOrPanic (c : Cadence) (n : Nat) : Option Nat :=
  addDuration c.base (min (min c.period u64Max * n) u64Max)

/-- `reset` with its panics. -/
def resetOrPanic (c : Cadence) (now : Nat) : Option Cadence :=
  (addDuration now c.period).map fun t => { c with seq := c.firstSeqAfter t }

/-- `retune` with its panics. -/
def retuneOrPanic (epoch : Nat) (c : Cadence) (period now : Nat) : Option Cadence :=
  let c := { c with period := clampPeriod period }
  (addDuration epoch c.phase).map fun base =>
    let c := { c with base := base }
    { c with seq := c.firstSeqAfter now }

end Cadence

end CirisServer
