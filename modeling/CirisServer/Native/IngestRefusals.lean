import CirisServer.ForStd.Tally
import CirisServer.Native.IngestGuard
import CirisServer.Native.MediaGate

/-!
# The ledger of refused batches

`src/ingest_http.rs`: what the ingest route refuses is counted, in all and over the last hour.

Instants are in nanoseconds. A call reads the clock and then takes the ledger's lock, so a ledger
may see an instant that is before the last one. The lock is poisoned when a thread panics with it
in hand. What a batch parses to (`serde_json::from_slice`), what the engine makes of it, and the
token of an error (`IngestError::kind`) come from other crates, and are parameters.
-/

namespace CirisServer

namespace IngestRefusals

def nanosPerSec : Int := 1000000000

/-- `REFUSAL_WINDOW_SECS`. -/
def refusalWindowSecs : Int := 3600

/-- The window, as a duration. -/
def window : Int := refusalWindowSecs * nanosPerSec

/-- `REFUSAL_EVENT_CAP`. -/
def refusalEventCap : Nat := 4096

/-- `REFUSAL_TOP_N`. -/
def refusalTopN : Nat := 5

/-- `REFUSAL_SIGNER_ID_MAX`. -/
def refusalSignerIdMax : Nat := 128

/-- `u64::MAX`. -/
def u64Max : Nat := 2 ^ 64 - 1

/-- `u64::saturating_add(1)`. -/
def saturatingSucc (n : Nat) : Nat := min (n + 1) u64Max

structure Refusal where
  at' : Int
  kind : String
  signer : Option String
deriving DecidableEq

structure Ledger where
  startedAt : Int
  acceptedTotal : Nat := 0
  refusedTotal : Nat := 0
  events : List Refusal := []
  /-- When the cap last dropped an event of the window. -/
  lastCappedAt : Option Int := none
deriving DecidableEq

/-- `prune`: the ledger without what is older than the window, and without the oldest of what is
    over the cap; and the window's floor. -/
def prune (l : Ledger) (now : Int) : Ledger × Int :=
  let floor := now - window
  let recent := l.events.dropWhile (·.at' < floor)
  if recent.length > refusalEventCap then
    ({ l with
        events := recent.drop (recent.length - refusalEventCap)
        lastCappedAt := some now }, floor)
  else ({ l with events := recent }, floor)

/-- What the ledger reads at an instant. -/
structure IngestRefusalBundle where
  readable : Bool
  observedSince : Int
  asOf : Int
  windowSeconds : Int
  acceptedTotal : Nat
  refusedTotal : Nat
  refusalsInWindow : Nat
  unattributedInWindow : Nat
  distinctSignersInWindow : Nat
  topSigners : List (String × Nat)
  byKindInWindow : List (String × Nat)
  windowTruncated : Bool
deriving DecidableEq

/-- `IngestRefusalBundle::unreadable`. -/
def IngestRefusalBundle.unreadable (now : Int) : IngestRefusalBundle where
  readable := false
  observedSince := now
  asOf := now
  windowSeconds := refusalWindowSecs
  acceptedTotal := 0
  refusedTotal := 0
  refusalsInWindow := 0
  unattributedInWindow := 0
  distinctSignersInWindow := 0
  topSigners := []
  byKindInWindow := []
  windowTruncated := false

/-- Worst first, then by id. -/
def worseFirst (a b : String × Nat) : Bool := a.2 > b.2 || a.2 = b.2 && a.1 ≤ b.1

/-- The counts of a window. -/
def bundleOf (l : Ledger) (now floor : Int) : IngestRefusalBundle :=
  let bySigner := Tally.ofList (l.events.filterMap (·.signer))
  { readable := true
    observedSince := l.startedAt
    asOf := now
    windowSeconds := refusalWindowSecs
    acceptedTotal := l.acceptedTotal
    refusedTotal := l.refusedTotal
    refusalsInWindow := l.events.length
    unattributedInWindow := l.events.countP (·.signer.isNone)
    distinctSignersInWindow := bySigner.length
    topSigners := (bySigner.mergeSort worseFirst).take refusalTopN
    byKindInWindow := Tally.ofList (l.events.map (·.kind))
    windowTruncated := l.lastCappedAt.any (· ≥ floor) }

end IngestRefusals

open IngestRefusals in
/-- `IngestRefusals`: the ledger behind its lock. -/
structure IngestRefusals where
  ledger : Ledger
  poisoned : Bool := false
deriving DecidableEq

namespace IngestRefusals

/-- `started_at`. -/
def startedAt (now : Int) : IngestRefusals := { ledger := { startedAt := now } }

/-- `observe_accept_at`. -/
def observeAccept (r : IngestRefusals) : IngestRefusals :=
  if r.poisoned then r
  else { r with ledger.acceptedTotal := saturatingSucc r.ledger.acceptedTotal }

def record (r : IngestRefusals) (now : Int) (kind : String) (signer : Option String) :
    IngestRefusals :=
  if r.poisoned then r
  else
    let l := r.ledger
    let l := { l with
      refusedTotal := saturatingSucc l.refusedTotal
      events := l.events ++ [{ at' := now, kind, signer }] }
    { r with ledger := (prune l now).1 }

/-- `snapshot_at`; reading prunes too. -/
def snapshotAt (r : IngestRefusals) (now : Int) : IngestRefusals × IngestRefusalBundle :=
  if r.poisoned then (r, .unreadable now)
  else
    let (l, floor) := prune r.ledger now
    ({ r with ledger := l }, bundleOf l now floor)

/-! ## What is refused -/

/-- `ciris_persist::verify::Error`. -/
inductive VerifyError where
  | unknownKey (id : String)
  | signatureMismatch
  | canonicalization
  | invalidSignature
  | internal
  | unsupportedSchemaVersion
  | hybridRequired
  | hybridVerify
deriving DecidableEq

/-- `ciris_persist::ingest::IngestError`. -/
inductive IngestError where
  | verify (e : VerifyError)
  | schema
  | scrub
  | scrubTreatmentMismatch
  | store
  | sign
  | scopeRefused
  | traceRefused
  | pipelineInvariant
deriving DecidableEq

/-- `truncate_id`: what fits of an id, to the last whole character. -/
def truncateId (s : String) : String :=
  if (utf8 s).length ≤ refusalSignerIdMax then s
  else String.ofList (MediaGate.takeBytes refusalSignerIdMax s.toList)

/-- `refused_signer`. -/
def refusedSigner : IngestError → Option String
  | .verify (.unknownKey id) => some id
  | _ => none

/-- `observe_refusal_at`. -/
def observeRefusal (kind : IngestError → String) (r : IngestRefusals) (now : Int)
    (e : IngestError) : IngestRefusals :=
  r.record now (kind e) ((refusedSigner e).map truncateId)

/-- `observe_handler_refusal`. -/
def observeHandlerRefusal (r : IngestRefusals) (now : Int) (kind : String) : IngestRefusals :=
  r.record now kind none

/-! ## The route -/

/-- `REFUSAL_TRACE_PLANE_PAUSED`. -/
def refusalTracePlanePaused : String := "trace_replication_paused"

/-- `REFUSAL_MOCK_LLM`. -/
def refusalMockLlm : String := "trace_mock_llm_refused"

/-- `ingest_status`. -/
def ingestStatus : IngestError → Nat
  | .verify _ => 401
  | .schema => 422
  | .scopeRefused => 403
  | .store => 503
  | .scrubTreatmentMismatch => 422
  | .traceRefused => 422
  | .sign | .scrub | .pipelineInvariant => 500

/-- What the route takes from other crates. -/
structure Crates where
  fromSlice : List UInt8 → Option Json
  kind : IngestError → String

/-- A batch that is posted. -/
structure Post where
  body : List UInt8
  /-- The trace plane is paused. -/
  paused : Bool
  /-- What the engine makes of the batch. -/
  persisted : Except IngestError Unit
  /-- The clock when the outcome is counted. -/
  now : Int

/-- `ingest`: the ledger after a batch, the status, and the token of a refusal. -/
def ingest (cr : Crates) (r : IngestRefusals) (p : Post) : IngestRefusals × Nat × Option String :=
  if p.paused then (r, 503, some refusalTracePlanePaused)
  else if IngestGuard.batchHasMockLlmCall cr.fromSlice p.body then
    (r.observeHandlerRefusal p.now refusalMockLlm, 422, some refusalMockLlm)
  else
    match p.persisted with
    | .ok () => (r.observeAccept, 200, none)
    | .error e => (r.observeRefusal cr.kind p.now e, ingestStatus e, some (cr.kind e))

/-! ## A process -/

/-- A time the ledger's lock was taken. -/
inductive Event where
  | post (p : Post)
  /-- A reading, of the operator's surface or of the watch. -/
  | read (now : Int)
  /-- A thread panics with the lock in hand. -/
  | poison

def step (cr : Crates) (r : IngestRefusals) : Event → IngestRefusals
  | .post p => (r.ingest cr p).1
  | .read now => (r.snapshotAt now).1
  | .poison => { r with poisoned := true }

end IngestRefusals

end CirisServer
