import Mathlib.Logic.Function.Basic
import CirisServer.ForStd.Except
import CirisServer.ForStd.Interleave

/-!
# Add a device: the host side

`src/add_device.rs`, machine A: a new device asks to join, polls for the answer and may
withdraw; the owner opens a window, lists what waits, and denies or approves. The `Host` is
behind one lock, and each region under that lock is an atomic step. `approve` gives the lock
up while the owner's pen signs; an approval that the self roster holds goes on as
`resume_when_landed`.

The log, the ids handed out so far and the reply a task ends with are bookkeeping of the
model. The owner's routes are modelled behind their session check.
-/

namespace CirisServer.AddDevice

open Interleave

/-- Instants and durations are in nanoseconds. -/
def secs (n : Nat) : Nat := n * 1000000000

/-- `PENDING_CEILING`. -/
def pendingCeiling : Nat := 8

/-- `REQUEST_TTL`. -/
def requestTtl : Nat := secs (15 * 60)

/-- `DECIDED_TTL`. -/
def decidedTtl : Nat := secs (15 * 60)

/-- `WINDOW_DEFAULT`. -/
def windowDefault : Nat := secs (10 * 60)

/-- `WINDOW_MAX`. -/
def windowMax : Nat := secs (30 * 60)

/-- What the module calls outside it. -/
structure Lib where
  /-- The first four bytes of the SHA-256 of a text, big-endian. -/
  sha256Head : String → UInt32
  /-- `nodecode::decode`, as far as the key id. -/
  decode : String → Except String String
  /-- `self_roster::W_SELF_SECS`. -/
  wSelfSecs : Nat

/-- `held_ttl`. -/
def heldTtl (L : Lib) : Nat := secs (L.wSelfSecs + 3600)

/-- `match_code`: six digits from the requester's key and its challenge. -/
def matchCode (L : Lib) (senderKeyId challenge : String) : String :=
  let text := "ciris-device-join-code-v1\n" ++ senderKeyId ++ "\n" ++ challenge
  let digits := Nat.toDigits 10 ((L.sha256Head text).toNat % 1000000)
  String.ofList (List.replicate (6 - digits.length) '0' ++ digits)

/-! ## The wire -/

/-- The occurrence key record is its key id here; the encryption keys are left out. -/
structure JoinRequest where
  v : UInt32
  nodeCode : String
  challenge : String
  label : String
  deviceClass : String
  occurrenceKeyId : String
deriving DecidableEq

/-- B → A. -/
inductive JoinOp where
  | join (req : JoinRequest)
  | status (requestId challenge : String)
  | withdraw (requestId challenge : String)
deriving DecidableEq

structure SignedOwnerBinding where
  attestingKeyId : String
  attestedKeyId : String
  signature : String
deriving DecidableEq

/-- What the owner signed for B. -/
structure Approval where
  nodeCode : String
  cohortScope : String
  ownerBinding : SignedOwnerBinding
  claimerKeyRecord : Option String
  occurrenceKeyId : String
  ownerCode : Option String
deriving DecidableEq

/-- `ciris_edge::Introductions`, by key and attestation id. -/
structure Introductions where
  keys : List String := []
  attestations : List String := []
deriving DecidableEq

/-- A → B. -/
inductive JoinAnswer where
  | pending (requestId matchCode : String)
  | approved (approval : Approval)
  | denied
  | unknown
  | notAccepting
deriving DecidableEq

structure OpaqueAnswer where
  status : Nat
  payload : JoinAnswer
  introductions : Introductions := {}
deriving DecidableEq

/-! ## The host -/

/-- A request that waits for the owner. `heldSince` is set once an approval of it became a
    proposal of the self roster. -/
structure Held where
  id : String
  sender : String
  req : JoinRequest
  code : String
  askedAt : Nat
  heldSince : Option Nat
deriving DecidableEq

inductive Decision where
  | approved (approval : Approval) (introductions : Introductions)
  | denied
deriving DecidableEq

/-- What withdrawing a decided request undoes. -/
def Decision.undone : Decision → Option Approval
  | .approved approval _ => some approval
  | .denied => none

structure Decided where
  sender : String
  challenge : String
  decision : Decision
  decidedAt : Nat
deriving DecidableEq

structure Host where
  windowUntil : Option Nat
  pending : List Held
  decided : String → Option Decided

/-- `Host::default`. -/
def Host.new : Host := ⟨none, [], fun _ => none⟩

/-- An undecided request keeps for `REQUEST_TTL`, one the roster holds for `held_ttl`. -/
def Held.keeps (L : Lib) (now : Nat) (p : Held) : Bool :=
  match p.heldSince with
  | some since => now - since < heldTtl L
  | none => now - p.askedAt < requestTtl

def Decided.keeps (now : Nat) (d : Decided) : Bool := now - d.decidedAt < decidedTtl

/-- `Host::sweep`. -/
def Host.sweep (L : Lib) (now : Nat) (h : Host) : Host where
  windowUntil := h.windowUntil.filter fun w => now < w
  pending := h.pending.filter (·.keeps L now)
  decided id := (h.decided id).filter (·.keeps now)

/-- `Host::open`. -/
def Host.isOpen (now : Nat) (h : Host) : Bool := h.windowUntil.any fun w => now < w

/-- The NodeCode names the request's signer. -/
def namesSigner (L : Lib) (sender : String) (req : JoinRequest) : Bool :=
  match L.decode req.nodeCode with
  | .ok keyId => keyId = sender
  | .error _ => false

/-- A request of this sender, under this id and challenge. -/
def Held.isFor (sender requestId challenge : String) (p : Held) : Bool :=
  p.id = requestId ∧ p.sender = sender ∧ p.req.challenge = challenge

/-- `answer`, the `Join` arm. -/
def Host.join (L : Lib) (now : Nat) (uuid sender : String) (req : JoinRequest) (h : Host) :
    Host × OpaqueAnswer :=
  if !h.isOpen now then (h, ⟨403, .notAccepting, {}⟩)
  else if !namesSigner L sender req || req.challenge.utf8ByteSize < 32 then
    (h, ⟨400, .notAccepting, {}⟩)
  else
    match h.pending.find? (·.sender = sender) with
    | some held => (h, ⟨202, .pending held.id held.code, {}⟩)
    | none =>
      if pendingCeiling ≤ h.pending.length then (h, ⟨503, .notAccepting, {}⟩)
      else
        let code := matchCode L sender req.challenge
        ({ h with pending := h.pending ++ [⟨uuid, sender, req, code, now, none⟩] },
          ⟨202, .pending uuid code, {}⟩)

/-- `answer`, the `Withdraw` arm, with the approval it undoes. -/
def Host.withdraw (sender requestId challenge : String) (h : Host) :
    Host × OpaqueAnswer × Option Approval :=
  if h.pending.any (·.isFor sender requestId challenge) then
    ({ h with pending := h.pending.filter fun p => !p.isFor sender requestId challenge },
      ⟨200, .unknown, {}⟩, none)
  else
    match h.decided requestId with
    | some d =>
      if d.sender = sender ∧ d.challenge = challenge then
        ({ h with decided := Function.update h.decided requestId none }, ⟨200, .unknown, {}⟩,
          d.decision.undone)
      else (h, ⟨404, .unknown, {}⟩, none)
    | none => (h, ⟨404, .unknown, {}⟩, none)

/-- `answer`, the `Status` arm. -/
def Host.status (sender requestId challenge : String) (h : Host) : OpaqueAnswer :=
  match h.decided requestId with
  | some d =>
    if d.sender ≠ sender ∨ d.challenge ≠ challenge then ⟨404, .unknown, {}⟩
    else
      match d.decision with
      | .approved approval introductions => ⟨200, .approved approval, introductions⟩
      | .denied => ⟨200, .denied, {}⟩
  | none =>
    match h.pending.find? (·.isFor sender requestId challenge) with
    | some p => ⟨202, .pending requestId p.code, {}⟩
    | none => ⟨404, .unknown, {}⟩

/-- `answer`: the host after the message, the answer, and the approval that
    `undo_approval` is called with. A payload that does not parse is `none`. -/
def Host.answer (L : Lib) (now : Nat) (uuid sender : String) (op : Option JoinOp) (h : Host) :
    Host × OpaqueAnswer × Option Approval :=
  match op with
  | none => (h, ⟨400, .unknown, {}⟩, none)
  | some (.join req) =>
    let (h, answer) := (h.sweep L now).join L now uuid sender req
    (h, answer, none)
  | some (.withdraw requestId challenge) => (h.sweep L now).withdraw sender requestId challenge
  | some (.status requestId challenge) =>
    let h := h.sweep L now
    (h, h.status sender requestId challenge, none)

/-- `deny`'s region: the request it decided, if it is pending. -/
def Host.deny (now : Nat) (id : String) (h : Host) : Option Host :=
  (h.pending.find? (·.id = id)).map fun held =>
    { h with
      pending := h.pending.eraseP (·.id = id)
      decided := Function.update h.decided id
        (some ⟨held.sender, held.req.challenge, .denied, now⟩) }

/-- `record_approved`'s region. It does not look at what became of the request. -/
def Host.recordApproved (now : Nat) (id sender challenge : String) (approval : Approval)
    (introductions : Introductions) (h : Host) : Host :=
  { h with
    pending := h.pending.filter (·.id ≠ id)
    decided := Function.update h.decided id
      (some ⟨sender, challenge, .approved approval introductions, now⟩) }

/-- The first pending request with this id is held by the roster, from now on if it is not
    yet. -/
def holdFirst (now : Nat) (id : String) : List Held → List Held
  | [] => []
  | p :: ps =>
    if p.id = id then { p with heldSince := some (p.heldSince.getD now) } :: ps
    else p :: holdFirst now id ps

end CirisServer.AddDevice

/-!
## Add-device calls, region by region

The calls on one host, side by side: a message, each of the owner's routes, `approve`'s read
and its `record_approved` with `sign_and_record` between them, and the rounds of
`resume_when_landed`. Each step runs one region under the host's lock, at its own time.

The log, newest first, and the ids handed out so far are bookkeeping of the model. A call of
the owner's routes is one that passed `require_owner_session`.
-/

namespace CirisServer.AddDevice

open Interleave

/-! ## The owner's pen -/

/-- An error of `sign_and_record`: the roster's door held the addition (the text that starts
    with `ROSTER_CHANGE_HELD`), or anything else. -/
inductive SignError where
  | held (detail : String)
  | failed (detail : String)
deriving DecidableEq

/-- What the owner's pen and the directory answer to one `sign_and_record`. -/
structure SignEnv where
  /-- `resolve_user_signers`: the owner's key id. -/
  pen : Except String String
  /-- `roster_key_named_under`, of the request's key and the owner. -/
  rosterKeyNamed : String → Except String Unit
  /-- The owner-binding of an owner to a node's key id. -/
  bind : String → String → Except String SignedOwnerBinding
  applyBinding : Except String Unit
  registerOccurrence : Except String Unit
  signOccurrence : Except String Unit
  putOccurrence : Except SignError Unit
  granted : Nat
  introductions : Introductions
  claimerKeyRecord : Option String
  ownerCode : Except String String

/-- What `record_approved` is given. -/
structure Signed where
  approval : Approval
  introductions : Introductions
  granted : Nat
deriving DecidableEq

/-- `sign_and_record`. -/
def signAndRecord (L : Lib) (env : SignEnv) (sender : String) (req : JoinRequest) :
    Except SignError Signed := do
  let owner ← env.pen.mapError .failed
  (env.rosterKeyNamed owner).mapError .failed
  let keyId ← (L.decode req.nodeCode).mapError fun e =>
    .failed ("build the owner-binding: " ++ e)
  let ownerBinding ← (env.bind owner keyId).mapError fun e =>
    .failed ("build the owner-binding: " ++ e)
  ensure (keyId = sender) (.failed "the request's NodeCode does not name its signer")
  env.applyBinding.mapError fun e => .failed ("record the owner-binding locally: " ++ e)
  env.registerOccurrence.mapError .failed
  env.signOccurrence.mapError fun e => .failed ("sign the occurrence: " ++ e)
  env.putOccurrence
  let ownerCode ← env.ownerCode.mapError .failed
  .ok
    { approval :=
        { nodeCode := req.nodeCode, cohortScope := "self", ownerBinding
          claimerKeyRecord := env.claimerKeyRecord, occurrenceKeyId := req.occurrenceKeyId
          ownerCode := some ownerCode }
      introductions := env.introductions
      granted := env.granted }

/-! ## The calls -/

inductive Call where
  | message (sender : String) (op : Option JoinOp)
  | openWindow (seconds : Option Nat)
  | listRequests
  | deny (id : String)
  | approve (id : String)
deriving DecidableEq

/-- A row of `list_requests`. -/
structure RequestRow where
  requestId : String
  label : String
  deviceClass : String
  matchCode : String
  nodeKeyId : String
  requestedAgo : Nat
deriving DecidableEq

/-- What the owner's routes answer. -/
inductive OwnerReply where
  | refused (status : Nat) (reasonId error : String)
  | opened (duration : Nat)
  | requests (rows : List RequestRow) (windowLeft : Option Nat)
  | denied
  | approved (matchCode nodeKeyId occurrenceKeyId : String) (selfDekGranted : Nat)
deriving DecidableEq

def OwnerReply.requestUnknown : OwnerReply :=
  .refused 404 "add_device.request_unknown" "no such pending request"

/-- What happened on the host. -/
inductive HostEvent where
  | answered (sender : String) (op : Option JoinOp) (answer : OpaqueAnswer)
      (undone : Option Approval)
  /-- A request's time ran out. -/
  | expired (id : String)
  /-- `deny` answered 200. -/
  | denied (id : String)
  /-- `record_approved` ran. -/
  | recorded (id : String)
  /-- `approve` answered 202: the self roster holds the addition. -/
  | held (id matchCode nodeKeyId occurrenceKeyId detail : String)
deriving DecidableEq

/-- Where a call stands. -/
inductive Phase where
  | called (call : Call)
  /-- `approve` has read the request; the owner's pen signs. -/
  | signing (id sender : String) (req : JoinRequest) (code : String)
  /-- `resume_when_landed`, between two rounds. -/
  | waiting (id occurrenceKeyId : String)
  /-- `resume_when_landed` has read the request and the roster has its key. -/
  | resuming (id occurrenceKeyId sender : String) (req : JoinRequest) (code : String)
  | told (reply : OwnerReply)
  | ended
deriving DecidableEq

/-- The host, the ids handed out, and the log, newest first. -/
structure Board where
  host : Host
  minted : List String
  log : List HostEvent

/-- What one step finds outside the host. -/
structure Env where
  now : Nat
  uuid : String
  sign : SignEnv
  /-- `roster_now` of the owner. -/
  roster : Except String (List String)

/-! ## One region -/

/-- The requests a sweep drops. -/
def Host.expired (L : Lib) (now : Nat) (h : Host) : List HostEvent :=
  (h.pending.filter fun p => !p.keeps L now).map fun p => .expired p.id

def Board.sweep (L : Lib) (now : Nat) (b : Board) : Board :=
  { b with host := b.host.sweep L now, log := b.host.expired L now ++ b.log }

/-- `answer`, on the board. A payload that does not parse is answered before the sweep. -/
def Board.message (L : Lib) (env : Env) (sender : String) (op : Option JoinOp) (b : Board) :
    Board :=
  let (host, answer, undone) := b.host.answer L env.now env.uuid sender op
  { host
    minted := match op with
      | some (.join _) => env.uuid :: b.minted
      | _ => b.minted
    log := .answered sender op answer undone ::
      (match op with
        | none => b.log
        | some _ => b.host.expired L env.now ++ b.log) }

/-- `open_window`. -/
def Board.openWindow (now : Nat) (seconds : Option Nat) (b : Board) : Board × Phase :=
  let duration := min ((seconds.map secs).getD windowDefault) windowMax
  ({ b with host := { b.host with windowUntil := some (now + duration) } },
    .told (.opened duration))

/-- `list_requests`. -/
def Board.listRequests (L : Lib) (now : Nat) (b : Board) : Board × Phase :=
  let b := b.sweep L now
  let rows := b.host.pending.map fun p =>
    ⟨p.id, p.req.label, p.req.deviceClass, p.code, p.sender, now - p.askedAt⟩
  (b, .told (.requests rows (b.host.windowUntil.map (· - now))))

/-- `deny`. -/
def Board.deny (now : Nat) (id : String) (b : Board) : Board × Phase :=
  match b.host.deny now id with
  | some host => ({ b with host, log := .denied id :: b.log }, .told .denied)
  | none => (b, .told .requestUnknown)

/-- `approve`'s read. It does not sweep. -/
def Board.approve (id : String) (b : Board) : Board × Phase :=
  match b.host.pending.find? (·.id = id) with
  | some p => (b, .signing id p.sender p.req p.code)
  | none => (b, .told .requestUnknown)

/-- `record_approved`. -/
def Board.recordApproved (now : Nat) (id sender challenge : String) (signed : Signed)
    (b : Board) : Board :=
  { b with
    host := b.host.recordApproved now id sender challenge signed.approval signed.introductions
    log := .recorded id :: b.log }

/-- `approve`, once the pen is done: record, hold for the roster, or fail. -/
def Board.finishApprove (L : Lib) (env : Env) (id sender : String) (req : JoinRequest)
    (code : String) (b : Board) : Board × Phase :=
  match signAndRecord L env.sign sender req with
  | .ok signed =>
    (b.recordApproved env.now id sender req.challenge signed,
      .told (.approved code sender signed.approval.occurrenceKeyId signed.granted))
  | .error (.held detail) =>
    ({ b with
        host := { b.host with pending := holdFirst env.now id b.host.pending }
        log := .held id code sender req.occurrenceKeyId detail :: b.log },
      .waiting id req.occurrenceKeyId)
  | .error (.failed detail) => (b, .told (.refused 500 "add_device.approve_failed" detail))

/-- A round of `resume_when_landed`: sweep, read the held request, read the roster. -/
def Board.recheck (L : Lib) (env : Env) (id occurrenceKeyId : String) (b : Board) :
    Board × Phase :=
  let b := b.sweep L env.now
  match b.host.pending.find? fun p => p.id = id ∧ p.heldSince.isSome with
  | none => (b, .ended)
  | some p =>
    match env.roster with
    | .ok roster =>
      if roster.contains occurrenceKeyId then
        (b, .resuming id occurrenceKeyId p.sender p.req p.code)
      else (b, .waiting id occurrenceKeyId)
    | .error _ => (b, .waiting id occurrenceKeyId)

/-- `resume_when_landed`, once the pen is done: record, or try again. -/
def Board.finishResume (L : Lib) (env : Env) (id occurrenceKeyId sender : String)
    (req : JoinRequest) (b : Board) : Board × Phase :=
  match signAndRecord L env.sign sender req with
  | .ok signed => (b.recordApproved env.now id sender req.challenge signed, .ended)
  | .error _ => (b, .waiting id occurrenceKeyId)

/-- The next region of a call. -/
def Phase.advance (L : Lib) (env : Env) (phase : Phase) (b : Board) : Board × Phase :=
  match phase with
  | .called (.message sender op) => (b.message L env sender op, .ended)
  | .called (.openWindow seconds) => b.openWindow env.now seconds
  | .called .listRequests => b.listRequests L env.now
  | .called (.deny id) => b.deny env.now id
  | .called (.approve id) => b.approve id
  | .signing id sender req code => b.finishApprove L env id sender req code
  | .waiting id occurrenceKeyId => b.recheck L env id occurrenceKeyId
  | .resuming id occurrenceKeyId sender req _ => b.finishResume L env id occurrenceKeyId sender req
  | .told reply => (b, .told reply)
  | .ended => (b, .ended)

/-- Calls on one host, side by side. -/
def deviceServer (L : Lib) : System Board Phase Call Env where
  spawn call b := (b, .called call)
  advance env phase b := phase.advance L env b

/-- A host that has just started, and no calls. -/
def start : Config Board Phase := ⟨⟨.new, [], []⟩, []⟩

end CirisServer.AddDevice
