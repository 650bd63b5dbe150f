import CirisServer.Native.IngestRefusals

/-!
# The watch on the trace plane

`src/operator_surface.rs` narrows what a node reads of itself to a standing: when a trace was last
admitted, and what the ingest route refuses. `src/trace_plane_watch.rs` takes both every quarter of
an hour and decides whether to say so in the log.

Instants and durations are in nanoseconds. What the corpus read returned comes with a tick. The
order of the bands (`StateBand::worse`) is of another crate, and is a parameter.
-/

namespace CirisServer

namespace TracePlaneWatch

open IngestRefusals (IngestRefusalBundle nanosPerSec)

/-! ## Standings -/

/-- `StateBand`. -/
inductive StateBand where
  | green
  | yellow
  | red
  | unknown
deriving DecidableEq

def minute : Int := 60 * nanosPerSec

def hour : Int := 60 * minute

/-- `TRACE_GREEN_MAX_HOURS`. -/
def traceGreenMaxHours : Int := 6

/-- `TRACE_YELLOW_MAX_HOURS`. -/
def traceYellowMaxHours : Int := 24

/-- `TRACE_FUTURE_TOLERANCE_MINUTES`. -/
def traceFutureToleranceMinutes : Int := 5

inductive TracePlaneStanding where
  | unreadable
  | neverAdmitted
  | futureDated
  | live
  | quiet
  | dark
deriving DecidableEq

def TracePlaneStanding.band : TracePlaneStanding → StateBand
  | .unreadable | .neverAdmitted | .futureDated => .unknown
  | .live => .green
  | .quiet => .yellow
  | .dark => .red

structure TraceCorpus where
  lastAdmittedAt : Option Int
  rows : Nat
deriving DecidableEq

/-- `trace_plane_standing`. -/
def tracePlaneStanding (corpus : Except String TraceCorpus) (now : Int) : TracePlaneStanding :=
  match corpus with
  | .error _ => .unreadable
  | .ok c =>
    match c.lastAdmittedAt with
    | none => .neverAdmitted
    | some last =>
      let age := now - last
      if age < -(traceFutureToleranceMinutes * minute) then .futureDated
      else if age < traceGreenMaxHours * hour then .live
      else if age < traceYellowMaxHours * hour then .quiet
      else .dark

/-- `INGEST_SUSTAINED_MIN`. -/
def ingestSustainedMin : Nat := 60

/-- `INGEST_STABLE_SIGNER_MAX`. -/
def ingestStableSignerMax : Nat := 8

inductive IngestStanding where
  | unreadable
  | notExercised
  | clean
  | unattributed
  | background
  | stuckProducer
deriving DecidableEq

def IngestStanding.band : IngestStanding → StateBand
  | .unreadable | .notExercised => .unknown
  | .clean => .green
  | .unattributed | .background => .yellow
  | .stuckProducer => .red

/-- `ingest_standing`. -/
def ingestStanding (bundle : Option IngestRefusalBundle) : IngestStanding :=
  match bundle with
  | none => .unreadable
  | some b =>
    if !b.readable then .unreadable
    else if b.refusalsInWindow = 0 then
      if b.acceptedTotal = 0 && b.refusedTotal = 0 then .notExercised else .clean
    else if b.distinctSignersInWindow = 0 then .unattributed
    else
      -- the rate is that of the refusals that name a signer
      let attributed := b.refusalsInWindow - b.unattributedInWindow
      if attributed ≥ ingestSustainedMin && b.distinctSignersInWindow ≤ ingestStableSignerMax then
        .stuckProducer
      else .background

/-! ## The watch -/

/-- `RESTATE_AFTER`. -/
def restateAfter : Int := 6 * hour

structure Reading where
  trace : TracePlaneStanding
  ingest : IngestStanding
deriving DecidableEq

/-- `Reading::of`. -/
def Reading.of (corpus : Except String TraceCorpus) (refusals : Option IngestRefusalBundle)
    (now : Int) : Reading where
  trace := tracePlaneStanding corpus now
  ingest := ingestStanding refusals

/-- `Reading::band`. -/
def Reading.band (worse : StateBand → StateBand → StateBand) (r : Reading) : StateBand :=
  worse r.trace.band r.ingest.band

inductive Emit where
  | changed
  | restated
deriving DecidableEq

structure Watch where
  last : Option Reading := none
  lastEmittedAt : Option Int := none
deriving DecidableEq

variable (worse : StateBand → StateBand → StateBand)

/-- `observe`: whether to speak of a reading. -/
def Watch.observe (w : Watch) (reading : Reading) (now : Int) : Watch × Option Emit :=
  let emit :=
    match w.last with
    | none => some .changed
    | some prev =>
      if prev ≠ reading then some .changed
      else if reading.band worse = .green then none
      else if w.lastEmittedAt.all fun t => now - t ≥ restateAfter then some .restated
      else none
  ({ last := some reading
     lastEmittedAt := if emit.isSome then some now else w.lastEmittedAt }, emit)

/-- `tracing::Level`, as far as the watch uses it. -/
inductive Level where
  | info
  | warn
  | error
deriving DecidableEq

/-- A line of the log. -/
structure Line where
  at' : Int
  level : Level
  reading : Reading
  why : Emit
  lastAdmitted : Option Int
  rows : Option Nat
deriving DecidableEq

/-- `say`: the level is the band's. -/
def say (reading : Reading) (emit : Emit) (corpus : Except String TraceCorpus) (now : Int) :
    Line where
  at' := now
  level :=
    match reading.band worse with
    | .green => .info
    | .yellow | .unknown => .warn
    | .red => .error
  reading := reading
  why := emit
  lastAdmitted := corpus.toOption.bind (·.lastAdmittedAt)
  rows := corpus.toOption.map (·.rows)

/-- `tick`: the watch and the ledger after a reading, and the line it says. -/
def tick (w : Watch) (refusals : Option IngestRefusals) (corpus : Except String TraceCorpus)
    (now : Int) : Watch × Option IngestRefusals × Option Line :=
  let snapshot := refusals.map (·.snapshotAt now)
  let reading := Reading.of corpus (snapshot.map (·.2)) now
  let (w', emit) := w.observe worse reading now
  (w', snapshot.map (·.1), emit.map fun emit => say worse reading emit corpus now)

/-! ## A process -/

/-- The ledger the route counts into and the watch reads. -/
structure Node where
  refusals : IngestRefusals
  watch : Watch := {}

inductive Event where
  | ledger (e : IngestRefusals.Event)
  | tick (corpus : Except String TraceCorpus) (now : Int)

def step (cr : IngestRefusals.Crates) (n : Node) : Event → Node
  | .ledger e => { n with refusals := n.refusals.step cr e }
  | .tick corpus now =>
    let (watch, refusals, _) := TracePlaneWatch.tick worse n.watch (some n.refusals) corpus now
    { watch, refusals := refusals.getD n.refusals }

/-- What a step says. -/
def lines (n : Node) : Event → List Line
  | .ledger _ => []
  | .tick corpus now =>
    (TracePlaneWatch.tick worse n.watch (some n.refusals) corpus now).2.2.toList

end TracePlaneWatch

end CirisServer
