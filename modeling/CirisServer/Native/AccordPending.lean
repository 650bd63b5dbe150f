import CirisServer.ForStd.Interleave
import CirisServer.Native.Accord

/-!
# The canonical recogniser

`src/accord.rs`, `verify_invocation_handler`: `POST /v1/accord/verify-invocation`
resolves the standing roster, takes the anti-replay record, and only then counts the
cosignatures. The record is verify's `InvocationDedup`, which is not part of this
repository; what it does with a `(kind, invocation_id)` is documented, what it takes
for expired is a parameter.
-/

namespace CirisServer

/-- One record of the anti-replay window. -/
structure DedupEntry where
  kind : InvocationKind
  invocationId : String
  validUntil : Rfc3339
deriving DecidableEq

/-- `VerifyInvocationRequest`. -/
structure VerifyInvocationRequest where
  invocation : Invocation
  signatures : List ThresholdSignature
  /-- The caller's clock, which the window evicts against. -/
  now : Rfc3339
deriving DecidableEq

/-- A request, and the roster `accord_roster` resolves while it is handled. -/
structure VerifyCall where
  request : VerifyInvocationRequest
  roster : Except Response (List ThresholdMember)
deriving DecidableEq

/-- What the handler answers. -/
inductive VerifyAnswer where
  | error (resp : Response)
  | duplicateInvocation
  | verified (kind : InvocationKind) (invocationId : String)
      (validSignatures threshold rosterSize : Nat)
  | quorumNotMet (detail : String) (threshold rosterSize : Nat)
deriving DecidableEq

/-- The key of a record: `(kind, invocation_id)`. -/
def DedupEntry.keys (e : DedupEntry) (inv : Invocation) : Bool :=
  e.kind = inv.invocationKind && e.invocationId = inv.invocationId

/-- `InvocationDedup::record_or_reject`: evict what is expired at `now`, reject an
    invocation whose key is still recorded, record it otherwise. -/
def recordOrReject (expired : Rfc3339 → Rfc3339 → Bool) (window : List DedupEntry)
    (inv : Invocation) (now : Rfc3339) : List DedupEntry × Bool :=
  let live := window.filter fun e => !expired e.validUntil now
  if live.any (·.keys inv) then (live, false)
  else (live ++ [⟨inv.invocationKind, inv.invocationId, inv.validUntil⟩], true)

/-- `assert_distinct_roster`, from the keys met so far: no key holds two seats. -/
def assertDistinctFrom (ed pq : List String) : List ThresholdMember → Except String Unit
  | [] => .ok ()
  | m :: rest =>
    if m.ed25519PublicKeyBase64 ∈ ed then
      .error ("kill-switch roster has a DUPLICATE Ed25519 key (member " ++ m.memberId ++
        ") — one key cannot hold two seats")
    else
      match m.mldsa65PublicKeyBase64 with
      | none => assertDistinctFrom (m.ed25519PublicKeyBase64 :: ed) pq rest
      | some p =>
        if p ∈ pq then
          .error ("kill-switch roster has a DUPLICATE ML-DSA-65 key (member " ++ m.memberId ++ ")")
        else assertDistinctFrom (m.ed25519PublicKeyBase64 :: ed) (p :: pq) rest

/-- `assert_distinct_roster`. -/
def assertDistinctRoster (roster : List ThresholdMember) : Except String Unit :=
  assertDistinctFrom [] [] roster

/-- The handler's count, once the window has let the request through. -/
def countInvocation (V : VerifyCore) (req : VerifyInvocationRequest)
    (holders : List ThresholdMember) : VerifyAnswer :=
  match assertDistinctRoster holders with
  | .error e => .error ⟨409, e⟩
  | .ok _ =>
    let m := haltPlaneThreshold V req.invocation.invocationKind holders.length
    match V.verifyThresholdSignatures (V.canonicalBytes req.invocation) holders req.signatures m with
    | .ok valid =>
      .verified req.invocation.invocationKind req.invocation.invocationId valid m holders.length
    | .error e => .quorumNotMet e m holders.length

/-- `verify_invocation_handler`: the window after the request, and the answer. -/
def verifyInvocationHandler (V : VerifyCore) (expired : Rfc3339 → Rfc3339 → Bool)
    (window : List DedupEntry) (call : VerifyCall) : List DedupEntry × VerifyAnswer :=
  match call.roster with
  | .error resp => (window, .error resp)
  | .ok holders =>
    match recordOrReject expired window call.request.invocation call.request.now with
    | (window, false) => (window, .duplicateInvocation)
    | (window, true) => (window, countInvocation V call.request holders)

end CirisServer

/-!
## Collecting cosignatures

`src/accord.rs`, `open_invocation` and `concur_invocation`: the holders' cosignatures
of one invocation meet in the pending table. An open writes its object into the table;
a concur reads the pending object, has it signed and replicated, and writes the
rebuilt object back. The table is locked for each read and each write, not across
them, so each call is a task here whose steps are the read, the replication and the
write.
-/

namespace CirisServer

open Interleave

/-- `MAX_PENDING_INVOCATIONS`. -/
def maxPendingInvocations : Nat := 4096

/-- `HUMANITY_ACCORD_FAMILY_KEY_ID`. -/
def humanityAccordFamilyKeyId : String := "humanity-accord"

/-- `(invocation_kind, invocation_id)`, the key of the pending table. -/
abbrev PendingKey := InvocationKind × String

/-- The pending table. -/
abbrev PendingTable := List (PendingKey × SignedCegObject)

def Invocation.pendingKey (inv : Invocation) : PendingKey :=
  (inv.invocationKind, inv.invocationId)

namespace PendingTable

def get? (pending : PendingTable) (key : PendingKey) : Option SignedCegObject :=
  (pending.find? fun e => e.1 = key).map Prod.snd

def insert (pending : PendingTable) (key : PendingKey) (obj : SignedCegObject) : PendingTable :=
  (key, obj) :: pending.filter fun e => e.1 ≠ key

/-- `prune_pending`: drop what has expired at `now` or cannot be read. -/
def prune (pending : PendingTable) (now : Int) : PendingTable :=
  pending.filter fun e =>
    match parseAccordInvocation e.2 with
    | .ok p => (p.invocation.validUntil.parse.map fun validUntil => decide (now < validUntil)).getD false
    | .error _ => false

/-- A full table takes no new key. -/
def full (pending : PendingTable) (key : PendingKey) : Bool :=
  maxPendingInvocations ≤ pending.length && (pending.get? key).isNone

end PendingTable

/-- A call of one of the two doors. `signature` is what `resolve_holder_signature` gives
    it: the submitted or the hardware cosignature, or an error answer. -/
inductive PendingCall where
  | opens (invocation : Invocation) (signature : Except Response ThresholdSignature)
  | concurs (key : PendingKey) (signature : Except Response ThresholdSignature)
deriving DecidableEq

/-- A call answered 200: the cosignature it submitted, the object it answers with, and
    the outcome of its replication. -/
structure Answered where
  signature : ThresholdSignature
  obj : SignedCegObject
  outcome : AccordOutcome
deriving DecidableEq

/-- Where a call stands. `since` is the number of calls answered when it read the table. -/
inductive CallPhase where
  | opening (invocation : Invocation) (signature : Except Response ThresholdSignature)
  | reading (key : PendingKey) (signature : Except Response ThresholdSignature)
  | concurring (key : PendingKey) (signature : Except Response ThresholdSignature)
      (existing : SignedCegObject) (since : Nat)
  /-- An open that has been replicated and is about to write. -/
  | openWriting (key : PendingKey) (answer : Answered)
  /-- A concur that has been replicated and is about to write. -/
  | concurWriting (key : PendingKey) (answer : Answered) (since : Nat)
  | refused (resp : Response)
  | answered (answer : Answered)
deriving DecidableEq

/-- The server's state, with a log of the calls answered 200, newest first. -/
structure Board where
  st : AccordState
  answers : List Answered
deriving DecidableEq

/-- Time passes before a step. -/
def Board.tick (env : Env) (b : Board) : Board :=
  { b with st := { b.st with clock := b.st.clock + env.wait } }

/-- Sign, build, replicate: an open up to its write. -/
def openReplicate (node : Node) (env : Env) (invocation : Invocation)
    (signature : Except Response ThresholdSignature) (b : Board) : Board × CallPhase :=
  match env.roster, signature with
  | .error resp, _ => (b, .refused resp)
  | .ok _, .error resp => (b, .refused resp)
  | .ok roster, .ok sig =>
    let obj := buildAccordInvocationObject humanityAccordFamilyKeyId roster invocation [sig]
      (.ofInstant b.st.clock)
    match replicateAndMaybeHalt node ⟨obj, env⟩ b.st with
    | (st, .error resp) => ({ b with st }, .refused resp)
    | (st, .ok outcome) =>
      if outcome.authentic then
        ({ b with st }, .openWriting invocation.pendingKey ⟨sig, obj, outcome⟩)
      else
        ({ b with st }, .refused ⟨401,
          "invocation carries no valid registered-holder signature — not opened"⟩)

/-- An open's write. -/
def openWrite (key : PendingKey) (answer : Answered) (b : Board) : Board × CallPhase :=
  let pending := PendingTable.prune b.st.pending b.st.clock
  if PendingTable.full pending key then
    ({ b with st := { b.st with pending } },
      .refused ⟨503, "too many pending invocations — retry later"⟩)
  else
    ({ st := { b.st with pending := PendingTable.insert pending key answer.obj }
       answers := answer :: b.answers }, .answered answer)

/-- A concur's read. -/
def concurRead (key : PendingKey) (signature : Except Response ThresholdSignature) (b : Board) :
    Board × CallPhase :=
  match PendingTable.get? b.st.pending key with
  | none => (b, .refused ⟨404, "unknown pending invocation"⟩)
  | some existing => (b, .concurring key signature existing b.answers.length)

/-- Sign, rebuild, replicate: a concur between its read and its write. -/
def concurReplicate (node : Node) (env : Env) (key : PendingKey)
    (signature : Except Response ThresholdSignature) (existing : SignedCegObject) (since : Nat)
    (b : Board) : Board × CallPhase :=
  match parseAccordInvocation existing, signature with
  | .error e, _ => (b, .refused ⟨500, "parse: " ++ e⟩)
  | .ok _, .error resp => (b, .refused resp)
  | .ok parsed, .ok sig =>
    let rebuilt := buildAccordInvocationObject parsed.familyKeyId parsed.roster parsed.invocation
      (parsed.signatures ++ [sig]) (.ofInstant b.st.clock)
    match replicateAndMaybeHalt node ⟨rebuilt, env⟩ b.st with
    | (st, .error resp) => ({ b with st }, .refused resp)
    | (st, .ok outcome) => ({ b with st }, .concurWriting key ⟨sig, rebuilt, outcome⟩ since)

/-- A concur's write. It answers 200 also when it has nothing authentic to write. -/
def concurWrite (key : PendingKey) (answer : Answered) (b : Board) : Board × CallPhase :=
  let pending := if answer.outcome.authentic then
      PendingTable.insert (PendingTable.prune b.st.pending b.st.clock) key answer.obj
    else b.st.pending
  ({ st := { b.st with pending }, answers := answer :: b.answers }, .answered answer)

/-- The next atomic step of a call. -/
def CallPhase.advance (node : Node) (env : Env) (phase : CallPhase) (b : Board) :
    Board × CallPhase :=
  match phase with
  | .opening invocation signature => openReplicate node env invocation signature b
  | .reading key signature => concurRead key signature b
  | .concurring key signature existing since =>
    concurReplicate node env key signature existing since b
  | .openWriting key answer => openWrite key answer (b.tick env)
  | .concurWriting key answer _ => concurWrite key answer (b.tick env)
  | .refused resp => (b, .refused resp)
  | .answered answer => (b, .answered answer)

/-- Opens and concurs, side by side. -/
def pendingServer (node : Node) : System Board CallPhase PendingCall Env where
  spawn call b :=
    match call with
    | .opens invocation signature => (b, .opening invocation signature)
    | .concurs key signature => (b, .reading key signature)
  advance env phase b := phase.advance node env b

end CirisServer
