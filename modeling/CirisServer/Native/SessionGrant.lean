import Mathlib.Data.List.Dedup
import CirisServer.Native.AuthStore
import CirisServer.Native.DeviceGrant
import CirisServer.Native.Session
import CirisServer.Native.SessionClaims

/-!
# Session grants

`src/auth/session.rs`: a sign-in and a refresh hand out a `SessionGrant`, a token with the seconds
that it is said to live. `resolve_bearer` and `refresh` accept a token by its mac, the set of the
nonces that were logged out, and the cert that it names.

A sign-in is modelled from the point where the door has its cert: a password login, the native
token exchanges, the OAuth hand-off and the first-run claim hand out the same grant. Time is in
seconds. The log of what was handed out is bookkeeping of the model.
-/

namespace CirisServer.SessionGrant

open SessionToken AuthStore

/-- `UserRole::from_wa_role`. -/
def fromWaRole : WaRole → UserRole
  | .root => .systemAdmin
  | .authority => .authority
  | .observer => .observer

/-- `SessionGrant`. -/
structure Grant where
  accessToken : String
  tokenType : String := "Bearer"
  expiresIn : Nat
  role : UserRole
  userId : String
deriving DecidableEq

/-- `SESSION_TTL_SECS`. -/
def sessionTtlSecs : Nat := 86400

/-- `issue_with_ttl`, with the 24 random bytes drawn. -/
def issueWithTtl (L : Lib) (s : Sessions) (raw : List UInt8) (waId : String) (role : UserRole)
    (expiresIn : Nat) : Grant where
  accessToken := issueSessionToken L s.secret waId raw
  expiresIn := expiresIn
  role := role
  userId := waId

/-- `SessionGrant::issue`. -/
def issue (L : Lib) (s : Sessions) (raw : List UInt8) (waId : String) (role : UserRole) : Grant :=
  issueWithTtl L s raw waId role sessionTtlSecs

/-- `store::get`, or the error of the store. -/
abbrev Read := String → Except String (Option WaCert)

/-- An error answer. -/
structure Refusal where
  status : Nat
  message : String
deriving DecidableEq

/-- `resolve_bearer`. What the branch of the delegated grants answers is `delegated`. -/
def resolveBearer (L : Lib) (delegated : String → Option BoundCaller) (s : Sessions) (read : Read)
    (token : String) : Except String (Option BoundCaller) :=
  if "dgrant:".toList.isPrefixOf token.toList then .ok (delegated token)
  else
    match waIdFromToken L s token with
    | none => .ok none
    | some waId =>
      if !sessionTokenIsAuthentic L s token then .ok none
      else
        match read waId with
        | .error e => .error e
        | .ok none => .ok none
        | .ok (some cert) =>
          if !cert.active then .ok none
          else .ok (some
            { waId := cert.waId
              role := fromWaRole cert.role
              permissions := permissionsFor (fromWaRole cert.role)
              constraints := none
              actor := none })

/-- The seconds that a refresh hands out: a short window for `SYSTEM_ADMIN`. -/
def refreshTtl (role : UserRole) : Nat :=
  if role = .systemAdmin then 86400 else 2592000

/-- `refresh`, with the bearer of the headers. -/
def refresh (L : Lib) (s : Sessions) (read : Read) (raw : List UInt8) (bearer : Option String) :
    Except Refusal Grant :=
  match bearer.bind (waIdFromToken L s) with
  | none => .error ⟨401, "missing or malformed bearer token"⟩
  | some waId =>
    match read waId with
    | .error e => .error ⟨503, "store: " ++ e⟩
    | .ok none => .error ⟨401, "session not active"⟩
    | .ok (some cert) =>
      if cert.active then
        let role := fromWaRole cert.role
        .ok (issueWithTtl L s raw cert.waId role (refreshTtl role))
      else .error ⟨401, "session not active"⟩

/-! ## Runs -/

/-- A grant, how its token was minted, and when. -/
structure Handed where
  grant : Grant
  mint : Mint
  since : Nat
deriving DecidableEq

/-- The process, its store and the time. -/
structure Node where
  clock : Nat
  sessions : Sessions
  rows : Rows
  handed : List Handed := []
deriving DecidableEq

/-- `store::get` of the node, unless the store fails. -/
def Node.read (n : Node) (failure : Option String) : Read := fun waId =>
  match failure with
  | some e => .error e
  | none => .ok (n.rows.get waId)

inductive Step where
  /-- A login, an OAuth sign-in or a claim, of the cert that it resolved. -/
  | signIn (waId : String) (role : UserRole) (raw : List UInt8)
  | refresh (bearer : Option String) (raw : List UInt8) (failure : Option String)
  | logout (token : String) (rotated : Secret)
  /-- A new process, that draws a new secret. -/
  | restart (secret : Secret)
  /-- `set_active`, or any other write to the certs. -/
  | write (rows : Rows)
  | elapse (secs : Nat)

/-- A grant goes out. -/
def Node.hand (L : Lib) (n : Node) (raw : List UInt8) (grant : Grant) : Node :=
  let mint : Mint := ⟨n.sessions.secret, grant.userId, L.base64Url raw⟩
  { n with
    sessions := { n.sessions with minted := mint :: n.sessions.minted }
    handed := ⟨grant, mint, n.clock⟩ :: n.handed }

def Node.step (L : Lib) (n : Node) : Step → Node
  | .signIn waId role raw => n.hand L raw (issue L n.sessions raw waId role)
  | .refresh bearer raw failure =>
    match SessionGrant.refresh L n.sessions (n.read failure) raw bearer with
    | .ok grant => n.hand L raw grant
    | .error _ => n
  | .logout token rotated =>
    if sessionMacVerifies L n.sessions.secret token then
      { n with sessions := (n.sessions.endSession rotated token).1 }
    else n
  | .restart secret =>
    { n with
      sessions :=
        { n.sessions with
          secret
          revoked := []
          past := n.sessions.secret :: n.sessions.past } }
  | .write rows => { n with rows }
  | .elapse secs => { n with clock := n.clock + secs }

/-- A new node. -/
def Node.start (clock : Nat) (secret : Secret) (rows : Rows) : Node :=
  { clock, sessions := .new secret, rows }

end CirisServer.SessionGrant

/-!
## The sessions surface

`src/session_claims.rs` (`sessions_view`): the exchanges that some device of the person's is
answering, and which one, as one device's view has it.
-/

namespace CirisServer.SessionClaims

variable {ι : Type} [LinearOrder ι]

/-- `state`: what is told of a live claim, by its id and in words. -/
def state (here : Bool) : String × String :=
  if here then
    ("session.state.handled_here", "This device is answering for you in this exchange.")
  else
    ("session.state.handled_elsewhere",
      "Another of your devices is answering for you in this exchange.")

/-- One of the `sessions`. -/
structure SessionLine (ι : Type) where
  key : ExchangeKey
  handler : ι
  handlerLabel : Option String
  claimedAt : Int
  liveUntil : Int
  thisDevice : Bool
  stateId : String
  state : String
deriving DecidableEq

structure SessionsView (ι : Type) where
  ownerKeyId : String
  thisDevice : ι
  attended : Bool
  ttlSeconds : Int
  sessions : List (SessionLine ι)
deriving DecidableEq

/-- What the store answers: the devices' labels, and the reads that fail. -/
structure SurfaceReads (ι : Type) where
  labelsFor : ι → Option String := fun _ => none
  /-- `claimed_exchanges`. -/
  exchangesFail : Option String := none
  /-- `handler_for`. -/
  foldFails : ExchangeKey → Option String := fun _ => none

/-- The order of a `BTreeSet` of exchanges. -/
def exchangeLe (a b : ExchangeKey) : Prop := a.1 < b.1 ∨ a.1 = b.1 ∧ a.2 ≤ b.2

instance : DecidableRel exchangeLe := fun a b =>
  inferInstanceAs (Decidable (a.1 < b.1 ∨ a.1 = b.1 ∧ a.2 ≤ b.2))

/-- `claimed_exchanges`: each exchange that a row claims. -/
def claimedExchanges (view : List (ClaimRow ι)) : List ExchangeKey :=
  ((view.map (·.key)).dedup).insertionSort exchangeLe

/-- What is reported of an exchange: its handler's claim, and the end of one TTL from it. -/
def sessionLine (reads : SurfaceReads ι) (thisDevice : ι) (key : ExchangeKey)
    (h : SessionClaim ι) : SessionLine ι :=
  let here := h.occurrenceKeyId = thisDevice
  let (stateId, text) := state here
  { key, handler := h.occurrenceKeyId, handlerLabel := reads.labelsFor h.occurrenceKeyId
    claimedAt := canonicalInstant h.claimedAt, liveUntil := canonicalInstant (h.claimedAt + ttl)
    thisDevice := here, stateId, state := text }

/-- The lines of the exchanges, one after the other; one that nobody answers has none. -/
def sessionLines (L : Fold ι) (reads : SurfaceReads ι) (thisDevice : ι)
    (view : List (ClaimRow ι)) (now : Int) :
    List ExchangeKey → Except String (List (SessionLine ι))
  | [] => .ok []
  | key :: keys =>
    match reads.foldFails key with
    | some e => .error ("handler_for: " ++ e)
    | none => do
      let lines ← sessionLines L reads thisDevice view now keys
      match L.handlerFor view key now with
      | none => .ok lines
      | some h => .ok (sessionLine reads thisDevice key h :: lines)

/-- `sessions_view`, on a device's own view. -/
def sessionsView (L : Fold ι) (reads : SurfaceReads ι) (owner : String) (thisDevice : ι)
    (f : Fleet ι) : Except String (SessionsView ι) :=
  match reads.exchangesFail with
  | some e => .error e
  | none => do
    let sessions ← sessionLines L reads thisDevice (f.view thisDevice) f.clock
      (claimedExchanges (f.view thisDevice))
    .ok { ownerKeyId := owner, thisDevice, attended := f.attended thisDevice
          ttlSeconds := ttl / 1000000000, sessions }

end CirisServer.SessionClaims
