import CirisServer.ForStd.Tally
import CirisServer.Native.Degradation

/-!
# Edge's counters, by windows

`src/degradation.rs`: edge counts its replication rounds by outcome, and the inbound frames that it
dropped. The counters only grow while the edge runtime lives and start from zero when it restarts.
A call differences them with the previous call's and hands the window to two raise points.
-/

namespace CirisServer.EdgeMetrics

/-- Edge's `RoundOutcome`. This module names four of them, and edge may have more. -/
inductive RoundOutcome where
  | completed
  | timedOut
  | refused
  | error
  | other (name : String)
deriving DecidableEq

structure EdgeMetricsBundle where
  /-- A map: an outcome has one entry at most. -/
  replicationRoundOutcomesTotal : List (RoundOutcome × Nat)
  nodup : (replicationRoundOutcomesTotal.map Prod.fst).Nodup
  replicationInboundBackpressureDrops : Nat

structure EdgeCounters where
  completed : Nat
  timedOut : Nat
  refused : Nat
  error : Nat
  roundsTotal : Nat
  backpressureDrops : Nat
deriving DecidableEq

/-- `EdgeCounters::default()`. -/
def EdgeCounters.zero : EdgeCounters := ⟨0, 0, 0, 0, 0, 0⟩

/-- `u64::MAX`. -/
def u64Max : Nat := 2 ^ 64 - 1

def saturatingAdd (a b : Nat) : Nat := min (a + b) u64Max

def EdgeCounters.read (bundle : EdgeMetricsBundle) : EdgeCounters :=
  let outcomes := bundle.replicationRoundOutcomesTotal
  { completed := Tally.count .completed outcomes
    timedOut := Tally.count .timedOut outcomes
    refused := Tally.count .refused outcomes
    error := Tally.count .error outcomes
    roundsTotal := (outcomes.map Prod.snd).foldl saturatingAdd 0
    backpressureDrops := bundle.replicationInboundBackpressureDrops }

/-- One window's rounds. -/
structure RoundWindow where
  completed : Nat
  timedOut : Nat
  refused : Nat
  error : Nat
  total : Nat
deriving DecidableEq

def window (now previous : Nat) : Nat := if now < previous then now else now - previous

/-- Any counter that went down is proof that the runtime restarted. -/
def reset (now previous : EdgeCounters) : Bool :=
  now.roundsTotal < previous.roundsTotal ||
  now.backpressureDrops < previous.backpressureDrops ||
  now.completed < previous.completed ||
  now.timedOut < previous.timedOut ||
  now.refused < previous.refused ||
  now.error < previous.error

def baseline (now previous : EdgeCounters) : EdgeCounters :=
  if reset now previous then .zero else previous

/-- What a call hands its raise points. Without peers there is no window of rounds. -/
structure Handed where
  rounds : Option RoundWindow
  drops : Nat
deriving DecidableEq

/-- The counters of a window, as the call hands them on. -/
def EdgeCounters.handed (consentPeers : Option Nat) (w : EdgeCounters) : Handed :=
  { rounds := if consentPeers = some 0 then none
      else some ⟨w.completed, w.timedOut, w.refused, w.error, w.roundsTotal⟩
    drops := w.backpressureDrops }

def windows (now previous : EdgeCounters) : EdgeCounters :=
  let base := baseline now previous
  { completed := window now.completed base.completed
    timedOut := window now.timedOut base.timedOut
    refused := window now.refused base.refused
    error := window now.error base.error
    roundsTotal := window now.roundsTotal base.roundsTotal
    backpressureDrops := window now.backpressureDrops base.backpressureDrops }

/-! ## The raise points -/

/-- The percentage of the rounds that did not complete, in floating point. -/
structure Percent where
  /-- `failed` of `total` are `threshold` percent or more. -/
  atLeast : (failed total threshold : Nat) → Bool
  shown : (failed total : Nat) → String

def roundsTimingOut : String := "network.rounds_timing_out"

def reportNetworkRounds (p : Percent) (w : RoundWindow) (registry : List Warning) : List Warning :=
  -- no evidence: the last verdict stays
  if w.total = 0 then registry
  else
    let failed := w.total - w.completed
    let breakdown := "timed_out=" ++ toString w.timedOut ++ " refused=" ++ toString w.refused ++
      " error=" ++ toString w.error ++ " completed=" ++ toString w.completed
    let share := toString failed ++ " of " ++ toString w.total ++
      " replication rounds did not complete (" ++ p.shown failed w.total ++ "%; " ++ breakdown ++ ")"
    if p.atLeast failed w.total 50 then
      raise (.error roundsTimingOut (share ++
        " — this node is not converging with its peers. Check link churn and the withhold ledger " ++
        "before assuming the network: a stalled runtime expires its own timeouts against a healthy " ++
        "path, and an `error` round aborted on transport or protocol before it could.")) registry
    else if p.atLeast failed w.total 20 then
      raise (.advisory roundsTimingOut (share ++ ".")) registry
    else (clear roundsTimingOut registry).1

def inboundFramesDropped : String := "network.inbound_frames_dropped"

def reportBackpressureDrops (droppedInWindow : Nat) (registry : List Warning) : List Warning :=
  if droppedInWindow = 0 then (clear inboundFramesDropped registry).1
  else raise (.error inboundFramesDropped (toString droppedInWindow ++
    " inbound replication frames were DROPPED on coordinator back-pressure — rows a peer sent " ++
    "this node are gone, and the peer was not told. This is data loss, not delay: the round can " ++
    "still report `completed`. A stalled responder reply parks the drain, so look at what this " ++
    "node is slow to ANSWER before looking at what it is slow to receive.")) registry

def Handed.judge (p : Percent) (h : Handed) (registry : List Warning) : List Warning :=
  reportBackpressureDrops h.drops <|
    match h.rounds with
    | none => (clear roundsTimingOut registry).1
    | some w => reportNetworkRounds p w registry

/-! ## A call -/

/-- The two process-wide cells. -/
structure Monitor where
  /-- `LAST_EDGE_COUNTERS`. -/
  last : Option EdgeCounters
  registry : List Warning

def reportEdgeMetricsWithTopology (p : Percent) (bundle : EdgeMetricsBundle)
    (consentPeers : Option Nat) (m : Monitor) : Monitor :=
  let now := EdgeCounters.read bundle
  match m.last with
  -- the first call is the baseline of the next
  | none => { m with last := some now }
  | some previous =>
    { last := some now
      registry := ((windows now previous).handed consentPeers).judge p m.registry }

def reportEdgeMetrics (p : Percent) (bundle : EdgeMetricsBundle) (m : Monitor) : Monitor :=
  reportEdgeMetricsWithTopology p bundle none m

end CirisServer.EdgeMetrics
