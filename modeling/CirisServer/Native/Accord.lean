import CirisServer.ForStd.Interleave
import CirisServer.Native.AccordRelease

/-!
# The accord message path

`src/accord.rs`, `replicate_and_maybe_halt`: every accord object, whether it arrives
at `POST /v1/accord/message` or from the local open and concur doors, goes through
this one function. It judges the object's cosignatures against the standing roster,
surfaces a completed drill or announce, relays, and for a row that binds acts on the
halt latch.

The function is cut at its file operations (`beginHandling`, `haltWrite`,
`confirmRead`, `confirmWrite`, `releaseRead`, `releaseRemove`), so that the same
pieces serve the sequential reading here and the interleaved one in
`Native/AccordTasks.lean`.
-/

namespace CirisServer

/-- An error answer: HTTP status and message. -/
structure Response where
  status : Nat
  error : String
deriving DecidableEq

/-- `MAX_SEEN_INVOCATIONS`. -/
def maxSeenInvocations : Nat := 16384

/-- `MAX_ACCORD_EVENTS`. -/
def maxAccordEvents : Nat := 1024

/-- The two kinds of surfaced event. -/
inductive EventType where
  | drill
  | announce
deriving DecidableEq

/-- `AccordEvent`: a surfaced, non-binding event. -/
structure AccordEvent where
  eventType : EventType
  invocationId : String
  recordedAt : Rfc3339
  signers : List String
  quorumThreshold : Nat
  message : Option String
deriving DecidableEq

/-- `(invocation_kind, invocation_id, binding)`: the gossip loop-stop key. -/
abbrev SeenKey := InvocationKind × String × Bool

/-- A node's fixed wiring: the libraries it is built with, `AccordHalt`, and the
    fuse of its charter (`baked_halt_fuse_secs`). -/
structure Node where
  verify : VerifyCore
  digest : PayloadDigest
  home : Option String
  peers : List String
  nodeId : Option String
  fuseSecs : Nat

/-- `AccordState`, with the disk and the outgoing messages it acts on. `sent` logs
    the awaited relays, `gossiped` the spawned ones. -/
structure AccordState where
  pending : List ((InvocationKind × String) × SignedCegObject)
  seen : List SeenKey
  events : List AccordEvent
  disk : Disk
  sent : List (String × SignedCegObject)
  gossiped : List (String × SignedCegObject)
  clock : Int
deriving DecidableEq

/-- What the outside answers while one object is handled. -/
structure Env where
  /-- `accord_roster`: the standing roster, or the error answer. -/
  roster : Except Response (List ThresholdMember)
  /-- Time passed on the node's clock before the object was judged. -/
  wait : Nat
  /-- Time from there to the confirmation arm's own reading of the clock. -/
  handling : Nat
  rng : Option String
  /-- The disk's answers to the halt arm's successive latch writes. -/
  latchWrites : List WriteResult
  confirmWrite : WriteResult
  latchReadable : Bool
  journalWritable : Bool
  latchRemovable : Bool
deriving DecidableEq

/-- One accord object handed to the message path. -/
structure Delivery where
  obj : SignedCegObject
  env : Env
deriving DecidableEq

/-- Why a quorum-complete lifecycle row did nothing here. -/
inductive Refusal where
  | confirmsUnknownHalt
  | haltFuseLapsed
  | resumesUnknownHalt
  | latchUnreadable
  | latchWriteFailed
  | noLatchHome
deriving DecidableEq

/-- `AccordOutcome`. -/
structure AccordOutcome where
  authentic : Bool
  invocationKind : InvocationKind
  invocationId : String
  quorumMet : Bool
  validSigners : List String
  halted : Bool
  confirmed : Bool
  released : Bool
  refusal : Option Refusal
deriving DecidableEq

/-- An object judged against this node's roster. -/
structure AccordRow where
  obj : SignedCegObject
  roster : List ThresholdMember
  invocation : Invocation
  signatures : List ThresholdSignature
  status : AccordStatus
  threshold : Nat
  /-- The instant the object was judged. -/
  now : Int
deriving DecidableEq

namespace AccordRow

/-- The row's cosignatures reach its kind's threshold. -/
def quorumMet (row : AccordRow) : Bool :=
  row.threshold ≤ row.status.validSigners.length

/-- A verified halt. -/
def isGlobalHalt (row : AccordRow) : Bool :=
  row.invocation.invocationKind = .constitutional && row.quorumMet

/-- A row that binds at its threshold: a fire, a confirmation or a resumption. -/
def binding (row : AccordRow) : Bool :=
  row.quorumMet && (row.invocation.invocationKind = .constitutional ||
    row.invocation.invocationKind = .lifecycleConfirmed ||
    row.invocation.invocationKind = .lifecycleActive)

def seenKey (row : AccordRow) : SeenKey :=
  (row.status.invocationKind, row.status.invocationId, row.binding)

/-- The outcome before any effect. -/
def outcome (row : AccordRow) : AccordOutcome where
  authentic := !row.status.validSigners.isEmpty
  invocationKind := row.status.invocationKind
  invocationId := row.status.invocationId
  quorumMet := row.quorumMet
  validSigners := row.status.validSigners
  halted := false
  confirmed := false
  released := false
  refusal := none

def refused (row : AccordRow) (why : Refusal) : AccordOutcome :=
  { row.outcome with refusal := some why }

end AccordRow

/-! ## Judging, surfacing, relaying -/

/-- Re-bind the object to this node's roster and count its seats. -/
def judge (node : Node) (roster : List ThresholdMember) (obj : SignedCegObject) (now : Int) :
    Except Response AccordRow :=
  match parseAccordInvocation obj with
  | .error e => .error ⟨400, "parse accord object: " ++ e⟩
  | .ok parsedIn =>
    let rebound := buildAccordInvocationObject parsedIn.familyKeyId roster parsedIn.invocation
      parsedIn.signatures (.ofInstant now)
    match parseAccordInvocation rebound with
    | .error e => .error ⟨500, "re-bind: " ++ e⟩
    | .ok parsed =>
      match node.verify.accordInvocationStatus parsed with
      | .error e => .error ⟨500, "status: " ++ e⟩
      | .ok status =>
        .ok { obj, roster, invocation := parsed.invocation, signatures := parsed.signatures
              status, now
              threshold := haltPlaneThreshold node.verify parsed.invocation.invocationKind
                roster.length }

/-- `AccordState::record_event`: idempotent by type and id, oldest dropped. -/
def recordEvent (events : List AccordEvent) (event : AccordEvent) : List AccordEvent :=
  if events.any fun e => e.eventType = event.eventType && e.invocationId = event.invocationId then
    events
  else if maxAccordEvents ≤ events.length then
    events.drop (events.length + 1 - maxAccordEvents) ++ [event]
  else events ++ [event]

/-- Surface a complete drill or announce. An announce's text is kept only when it
    hashes to the signed payload. -/
def surface (node : Node) (row : AccordRow) (events : List AccordEvent) : List AccordEvent :=
  if row.status.invocationKind = .drill && row.quorumMet then
    recordEvent events
      { eventType := .drill, invocationId := row.status.invocationId
        recordedAt := .ofInstant row.now, signers := row.status.validSigners
        quorumThreshold := row.threshold, message := none }
  else if row.status.invocationKind = .notify && !row.status.validSigners.isEmpty then
    recordEvent events
      { eventType := .announce, invocationId := row.status.invocationId
        recordedAt := .ofInstant row.now, signers := row.status.validSigners
        quorumThreshold := 1
        message := row.obj.message.filter fun m =>
          node.digest.sha256Hex (node.digest.utf8 m) == row.invocation.payloadSha256 }
  else events

/-- The `seen` set's insertion: whether the key was new, and the set after it. A full
    set is cleared first. -/
def seenInsert (seen : List SeenKey) (key : SeenKey) : Bool × List SeenKey :=
  let seen := if maxSeenInvocations ≤ seen.length then [] else seen
  if key ∈ seen then (false, seen) else (true, key :: seen)

/-- `replicate_to_peers`: the object goes to every known peer. -/
def replicateToPeers (node : Node) (obj : SignedCegObject) (st : AccordState) : AccordState :=
  { st with sent := st.sent ++ node.peers.map fun p => (p, obj) }

/-- The relay of a row that took effect, unless the row was seen before. -/
def relayOnFirstSight (node : Node) (firstSight : Bool) (obj : SignedCegObject)
    (st : AccordState) : AccordState :=
  if firstSight then replicateToPeers node obj st else st

/-! ## The halt arm -/

/-- The latch record the halt arm builds. -/
def haltRecord (node : Node) (row : AccordRow) (rng : Option String) : HaltRecord :=
  (HaltRecord.new node.digest row.status.invocationKind row.status.invocationId
    row.status.validSigners row.threshold (.ofInstant row.now) node.nodeId
    (some row.invocation.payloadSha256) rng).withFuse node.fuseSecs

/-- The halt arm's latch write, tried at most eight times. The row is reported as
    halted whether or not the disk took it. -/
def haltWrite (env : Env) (row : AccordRow) (record : HaltRecord) (st : AccordState) :
    AccordState × AccordOutcome :=
  ({ st with disk := { st.disk with
      latch := (latchRetry record (env.latchWrites.take 8) st.disk.latch).1 } },
    { row.outcome with halted := true })

/-! ## The confirmation arm -/

/-- Read the latch for a confirmation: an outcome to answer with, or the record to
    write back with the confirmation on it. -/
def confirmRead (env : Env) (row : AccordRow) (st : AccordState) :
    AccordState × Except AccordOutcome (HaltRecord × HaltConfirmation) :=
  match readHaltLatch st.disk.latch env.latchReadable with
  | .ok (some r) =>
    let nowT := st.clock + env.handling
    let st := { st with clock := nowT }
    if row.invocation.confirmsHaltId ≠ some r.invocationId then
      (st, .error (row.refused .confirmsUnknownHalt))
    else if !r.inEffectAt nowT then (st, .error (row.refused .haltFuseLapsed))
    else if r.confirmed.isSome then (st, .error { row.outcome with confirmed := true })
    else
      (st, .ok (r, { invocationId := row.status.invocationId, signers := row.status.validSigners
                     receivedAt := .ofInstant nowT }))
  | .ok none => (st, .error (row.refused .confirmsUnknownHalt))
  | .error _ => (st, .error (row.refused .latchUnreadable))

/-- Write the confirmed record back and relay the confirmation. -/
def confirmWrite (node : Node) (env : Env) (row : AccordRow) (firstSight : Bool) (r : HaltRecord)
    (confirmation : HaltConfirmation) (st : AccordState) : AccordState × AccordOutcome :=
  match confirmHalt st.disk.latch r confirmation env.confirmWrite with
  | (latch, true) =>
    (relayOnFirstSight node firstSight row.obj { st with disk := { st.disk with latch } },
      { row.outcome with confirmed := true })
  | (latch, false) =>
    ({ st with disk := { st.disk with latch } }, row.refused .latchWriteFailed)

/-! ## The resumption arm -/

/-- Read the latch for a resumption: an outcome to answer with, or the record the
    row names. -/
def releaseRead (env : Env) (row : AccordRow) (st : AccordState) :
    Except AccordOutcome HaltRecord :=
  match readHaltLatch st.disk.latch env.latchReadable with
  | .ok (some r) =>
    if row.invocation.resumesHaltId ≠ some r.invocationId then
      .error (row.refused .resumesUnknownHalt)
    else .ok r
  | .ok none => .error (row.refused .resumesUnknownHalt)
  | .error _ => .error (row.refused .latchUnreadable)

/-- Journal the resumption, remove the latch, relay the row. -/
def releaseRemove (node : Node) (env : Env) (row : AccordRow) (firstSight : Bool)
    (r : HaltRecord) (st : AccordState) : AccordState × AccordOutcome :=
  match releaseHalt st.disk
      (.honoredOverWire (.ofInstant row.now) row.status.invocationId row.status.validSigners
        row.threshold r) env.journalWritable env.latchRemovable with
  | (disk, true) =>
    (relayOnFirstSight node firstSight row.obj { st with disk },
      { row.outcome with released := true })
  | (disk, false) => ({ st with disk }, row.refused .latchWriteFailed)

/-! ## The whole path -/

/-- Where a handler stands after judging its object: answered, or about to touch the
    latch file. -/
inductive Begun where
  | answered (answer : Except Response AccordOutcome)
  | halting (row : AccordRow) (record : HaltRecord)
  | confirming (row : AccordRow) (firstSight : Bool)
  | resuming (row : AccordRow) (firstSight : Bool)
deriving DecidableEq

/-- The branch a judged, authentic row takes. `st` has seen the row already. -/
def chooseArm (node : Node) (env : Env) (row : AccordRow) (firstSight : Bool) (st : AccordState) :
    AccordState × Begun :=
  if row.isGlobalHalt then
    -- Replicate first, then latch: the kill must propagate even if this disk fails.
    let st := relayOnFirstSight node firstSight row.obj st
    match node.home with
    | some _ => (st, .halting row (haltRecord node row env.rng))
    | none => (st, .answered (.ok { row.outcome with halted := true }))
  else if row.quorumMet && row.invocation.invocationKind = .lifecycleConfirmed then
    match node.home with
    | some _ => (st, .confirming row firstSight)
    | none => (st, .answered (.ok (row.refused .noLatchHome)))
  else if row.quorumMet && row.invocation.invocationKind = .lifecycleActive then
    match node.home with
    | some _ => (st, .resuming row firstSight)
    | none => (st, .answered (.ok (row.refused .noLatchHome)))
  else if firstSight then
    ({ st with gossiped := st.gossiped ++ node.peers.map fun p => (p, row.obj) },
      .answered (.ok row.outcome))
  else (st, .answered (.ok row.outcome))

/-- Everything up to the first file operation: judge, surface, mark seen, branch. -/
def beginHandling (node : Node) (d : Delivery) (st : AccordState) : AccordState × Begun :=
  let st := { st with clock := st.clock + d.env.wait }
  match d.env.roster with
  | .error resp => (st, .answered (.error resp))
  | .ok roster =>
    match judge node roster d.obj st.clock with
    | .error resp => (st, .answered (.error resp))
    | .ok row =>
      if row.status.validSigners.isEmpty then (st, .answered (.ok row.outcome))
      else
        let sight := seenInsert st.seen row.seenKey
        chooseArm node d.env row sight.1
          { st with events := surface node row st.events, seen := sight.2 }

/-- The confirmation arm, uninterrupted. -/
def confirmedArm (node : Node) (env : Env) (row : AccordRow) (firstSight : Bool)
    (st : AccordState) : AccordState × AccordOutcome :=
  match confirmRead env row st with
  | (st, .error o) => (st, o)
  | (st, .ok (r, confirmation)) => confirmWrite node env row firstSight r confirmation st

/-- The resumption arm, uninterrupted. -/
def activeArm (node : Node) (env : Env) (row : AccordRow) (firstSight : Bool)
    (st : AccordState) : AccordState × AccordOutcome :=
  match releaseRead env row st with
  | .error o => (st, o)
  | .ok r => releaseRemove node env row firstSight r st

/-- `replicate_and_maybe_halt`, run without interruption. -/
def replicateAndMaybeHalt (node : Node) (d : Delivery) (st : AccordState) :
    AccordState × Except Response AccordOutcome :=
  match beginHandling node d st with
  | (st, .answered answer) => (st, answer)
  | (st, .halting row record) =>
    let (st, o) := haltWrite d.env row record st
    (st, .ok o)
  | (st, .confirming row firstSight) =>
    let (st, o) := confirmedArm node d.env row firstSight st
    (st, .ok o)
  | (st, .resuming row firstSight) =>
    let (st, o) := activeArm node d.env row firstSight st
    (st, .ok o)

/-- The state after one delivery. -/
def deliver (node : Node) (st : AccordState) (d : Delivery) : AccordState :=
  (replicateAndMaybeHalt node d st).1

end CirisServer

/-!
## Accord messages handled at once

The server handles each accord message in its own task, and nothing locks the latch
file: `read_halt_latch`, each `latch_halt` and the journal-then-remove of
`release_halt` are atomic steps, and other tasks' steps fall between them. The pieces
are those of `Native/Accord.lean`; `Spec/ResumptionFinal.lean` shows that a task that
nothing interrupts does what `replicateAndMaybeHalt` does.
-/

namespace CirisServer

open Interleave

/-- Where the handler of one message stands between two atomic steps. -/
inductive Phase where
  /-- About to try the latch write, with `left` further tries. -/
  | halting (row : AccordRow) (record : HaltRecord) (left : Nat)
  | confirming (row : AccordRow) (firstSight : Bool)
  /-- Has read the latch `r` and is about to write it back confirmed. -/
  | confirmWriting (row : AccordRow) (firstSight : Bool) (r : HaltRecord)
      (confirmation : HaltConfirmation)
  | resuming (row : AccordRow) (firstSight : Bool)
  /-- Has read the latch `r` and is about to remove it. -/
  | removing (row : AccordRow) (firstSight : Bool) (r : HaltRecord)
  /-- Done with the latch, waiting for its relays. -/
  | replying (outcome : AccordOutcome)
  | answered (answer : Except Response AccordOutcome)
deriving DecidableEq

/-- One message in handling. -/
structure Task where
  obj : SignedCegObject
  phase : Phase
deriving DecidableEq

/-- The halt a message names to resume. -/
def Task.resumes (t : Task) : Option String :=
  match parseAccordInvocation t.obj with
  | .ok p => p.invocation.resumesHaltId
  | .error _ => none

/-- The phase a message is in once it has been judged. The halt arm tries its write
    eight times. -/
def Phase.ofBegun : Begun → Phase
  | .answered answer => .answered answer
  | .halting row record => .halting row record 7
  | .confirming row firstSight => .confirming row firstSight
  | .resuming row firstSight => .resuming row firstSight

/-- One attempt of the halt arm's retry loop. -/
def haltAttempt (row : AccordRow) (record : HaltRecord) (left : Nat) (w : WriteResult)
    (st : AccordState) : AccordState × Phase :=
  match latchHalt st.disk.latch record w, left with
  | (latch, false), left + 1 =>
    ({ st with disk := { st.disk with latch } }, .halting row record left)
  | (latch, _), _ =>
    ({ st with disk := { st.disk with latch } }, .replying { row.outcome with halted := true })

/-- The next atomic step of a handler. -/
def Phase.advance (node : Node) (env : Env) (phase : Phase) (st : AccordState) :
    AccordState × Phase :=
  let st := { st with clock := st.clock + env.wait }
  match phase with
  | .halting row record left => haltAttempt row record left (env.latchWrites.headD .refused) st
  | .confirming row firstSight =>
    match confirmRead env row st with
    | (st, .error o) => (st, .replying o)
    | (st, .ok (r, confirmation)) => (st, .confirmWriting row firstSight r confirmation)
  | .confirmWriting row firstSight r confirmation =>
    let (st, o) := confirmWrite node env row firstSight r confirmation st
    (st, .replying o)
  | .resuming row firstSight =>
    match releaseRead env row st with
    | .error o => (st, .replying o)
    | .ok r => (st, .removing row firstSight r)
  | .removing row firstSight r =>
    let (st, o) := releaseRemove node env row firstSight r st
    (st, .replying o)
  | .replying o => (st, .answered (.ok o))
  | .answered answer => (st, .answered answer)

/-- The server under load: messages arrive and are handled side by side. -/
def accordServer (node : Node) : System AccordState Task Delivery Env where
  spawn d st :=
    let (st, b) := beginHandling node d st
    (st, ⟨d.obj, .ofBegun b⟩)
  advance env t st :=
    let (st, phase) := t.phase.advance node env st
    (st, { t with phase })

end CirisServer
