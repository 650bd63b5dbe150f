import CirisServer.ForStd.Interleave
import CirisServer.ForStd.Split
import CirisServer.ForStd.Utf8
import CirisServer.Native.ConfigReconcile

/-!
# Callers and delegations

The parts of `src/auth/roles.rs` and `src/auth/session.rs` that the device-grant routes use: the
roles, the caller a bearer resolves to, the owner's bounds on a delegation, and the delegated
grant behind a bearer.
-/

namespace CirisServer

/-- `str::trim`. -/
def trim (s : String) : String :=
  String.ofList ((s.toList.dropWhile isWhiteSpace).reverse.dropWhile isWhiteSpace).reverse

inductive UserRole where
  | observer
  | admin
  | authority
  | systemAdmin
  | serviceAccount
deriving DecidableEq

inductive Permission where
  | viewMessages
  | viewTelemetry
  | viewReasoning
  | viewConfig
  | viewMemory
  | viewAudit
  | viewTools
  | viewLogs
  | sendMessages
  | manageConfig
  | runtimeControl
  | manageIncidents
  | manageTasks
  | manageFilters
  | triggerAnalysis
  | resolveDeferrals
  | provideGuidance
  | grantPermissions
  | manageUserPermissions
  | fullAccess
  | emergencyShutdown
  | manageSensitiveConfig
deriving DecidableEq

/-- The owner's bounds on a delegation. `actionsAllow := none` permits every verb. -/
structure DelegationConstraints where
  actionsAllow : Option (List String) := none
  actionsDeny : List String := []
  goal : Option String := none
deriving DecidableEq

/-- `DelegationConstraints::is_unconstrained`. -/
def DelegationConstraints.isUnconstrained (c : DelegationConstraints) : Bool :=
  c.actionsAllow.isNone && c.actionsDeny.isEmpty && c.goal.isNone

/-- `DelegationConstraints::tightened_with`. -/
def DelegationConstraints.tightenedWith (c approver : DelegationConstraints) :
    DelegationConstraints where
  actionsAllow :=
    match c.actionsAllow, approver.actionsAllow with
    | none, none => none
    | some a, none => some a
    | none, some b => some b
    | some a, some b => some (a.filter b.contains)
  actionsDeny := approver.actionsDeny.foldl (fun deny d => if deny.contains d then deny
    else deny ++ [d]) c.actionsDeny
  goal := approver.goal.or c.goal

/-- The caller behind a bearer. `actor` is set for a delegated one. -/
structure SessionCaller where
  waId : String
  role : UserRole
  permissions : List Permission
  actor : Option String
deriving DecidableEq

/-- What a delegated bearer stands for. -/
structure DelegatedGrant where
  ownerWaId : String
  ownerRole : UserRole
  ownerKeyId : String
  clientId : String
  scope : String
  expiresAt : Nat
  issuedAt : Nat
  purpose : Option String
  attestationId : Option String
  constraints : DelegationConstraints
deriving DecidableEq

end CirisServer

/-!
## Session tokens

`src/auth/session.rs`: a session token is `sess:<wa_id>:<nonce>.<mac>`, self-verifying under a
secret of the process. Logout remembers the token's nonce; once too many are remembered, the
secret is rotated and the nonces are forgotten.

The secret and the set of nonces are behind a lock each, and a check reads one after the other.
What was minted, and the secrets rotated away, are bookkeeping of the model.
-/

namespace CirisServer.SessionToken

open Interleave

abbrev Secret := List UInt8

/-- HMAC-SHA256, and base64url without padding. -/
structure Lib where
  hmac : Secret → List UInt8 → List UInt8
  base64Url : List UInt8 → String

/-- `REVOKED_SESSION_CAP`. -/
def revokedSessionCap : Nat := 4096

/-! ## The token -/

/-- `wa_id || 0x1f || nonce`. -/
def macMessage (waId nonce : String) : List UInt8 := utf8 waId ++ 0x1f :: utf8 nonce

/-- `session_mac`. -/
def sessionMac (L : Lib) (secret : Secret) (waId nonce : String) : String :=
  L.base64Url (L.hmac secret (macMessage waId nonce))

/-- The token's text. -/
def spell (waId nonce mac : String) : String := "sess:" ++ waId ++ ":" ++ nonce ++ "." ++ mac

/-- `issue_session_token`, with the 24 random bytes drawn. -/
def issueSessionToken (L : Lib) (secret : Secret) (waId : String) (raw : List UInt8) : String :=
  let nonce := L.base64Url raw
  spell waId nonce (sessionMac L secret waId nonce)

/-- The last `:` behind the prefix: what is before it, and what is after it. -/
def claimed (token : String) : Option (String × String) :=
  ((List.stripPrefix? "sess:".toList token.toList).bind (List.rsplitOnce ':')).map fun p =>
    (String.ofList p.1, String.ofList p.2)

/-- The nonce and the mac of what is after it. -/
def splitSecret (secret : String) : Option (String × String) :=
  (List.splitOnce '.' secret.toList).map fun p => (String.ofList p.1, String.ofList p.2)

/-- `session_mac_verifies`. -/
def sessionMacVerifies (L : Lib) (secret : Secret) (token : String) : Bool :=
  match claimed token with
  | none => false
  | some (waId, rest) =>
    match splitSecret rest with
    | none => false
    | some (nonce, mac) => sessionMac L secret waId nonce == mac

/-- `session_nonce`. -/
def sessionNonce (token : String) : Option String :=
  ((claimed token).bind fun p => splitSecret p.2).map Prod.fst

/-- `session_is_revoked`. -/
def sessionIsRevoked (revoked : List String) (token : String) : Bool :=
  (sessionNonce token).any (revoked.contains ·)

/-- `wa_id_from_token_unverified`. -/
def waIdFromTokenUnverified (token : String) : Option String := (claimed token).map Prod.fst

/-! ## The process -/

/-- What `issue_session_token` made, and under which secret. -/
structure Mint where
  secret : Secret
  waId : String
  nonce : String
deriving DecidableEq

/-- `SESSION_SECRET` and `REVOKED_SESSION_NONCES`. -/
structure Sessions where
  secret : Secret
  revoked : List String
  /-- The secrets rotated away. -/
  past : List Secret
  minted : List Mint
deriving DecidableEq

/-- The state of a new process. -/
def Sessions.new (secret : Secret) : Sessions := ⟨secret, [], [], []⟩

/-- `session_token_is_authentic`, uninterrupted. -/
def sessionTokenIsAuthentic (L : Lib) (s : Sessions) (token : String) : Bool :=
  sessionMacVerifies L s.secret token && !sessionIsRevoked s.revoked token

/-- `wa_id_from_token`, uninterrupted. -/
def waIdFromToken (L : Lib) (s : Sessions) (token : String) : Option String :=
  if sessionTokenIsAuthentic L s token then waIdFromTokenUnverified token else none

inductive Call where
  | issue (waId : String)
  | isAuthentic (token : String)
  | revoke (token : String)
deriving DecidableEq

inductive Answer where
  | issued (token : String)
  | authentic (token : String) (answer : Bool)
  | revoked (token : String) (answer : Bool)
deriving DecidableEq

/-- Where a call stands. -/
inductive Phase where
  | called (call : Call)
  /-- The mac verified; the revocation set is to be read. -/
  | checking (token : String)
  /-- The mac verified; the locked region of `revoke_session_token` is to run. -/
  | revoking (token : String)
  | told (answer : Answer)
deriving DecidableEq

/-- What a step draws: 24 bytes for a nonce, 32 for a secret. -/
structure Env where
  raw : List UInt8
  rotated : Secret
deriving DecidableEq

/-- The locked region of `revoke_session_token`. -/
def Sessions.endSession (rotated : Secret) (token : String) (s : Sessions) : Sessions × Bool :=
  match sessionNonce token with
  | none => (s, false)
  | some nonce =>
    if revokedSessionCap ≤ s.revoked.length then
      ({ s with secret := rotated, revoked := [], past := s.secret :: s.past }, true)
    else ({ s with revoked := s.revoked.insert nonce }, true)

/-- The next step of a call. -/
def Phase.advance (L : Lib) (env : Env) (phase : Phase) (s : Sessions) : Sessions × Phase :=
  match phase with
  | .called (.issue waId) =>
    ({ s with minted := ⟨s.secret, waId, L.base64Url env.raw⟩ :: s.minted },
      .told (.issued (issueSessionToken L s.secret waId env.raw)))
  | .called (.isAuthentic token) =>
    if sessionMacVerifies L s.secret token then (s, .checking token)
    else (s, .told (.authentic token false))
  | .called (.revoke token) =>
    if sessionMacVerifies L s.secret token then (s, .revoking token)
    else (s, .told (.revoked token false))
  | .checking token => (s, .told (.authentic token (!sessionIsRevoked s.revoked token)))
  | .revoking token =>
    let (s, answer) := s.endSession env.rotated token
    (s, .told (.revoked token answer))
  | .told answer => (s, .told answer)

/-- The calls of one process, side by side. -/
def sessionServer (L : Lib) : System Sessions Phase Call Env where
  spawn call s := (s, .called call)
  advance env phase s := phase.advance L env s

/-- A new process, and no calls. -/
def start (secret : Secret) : Config Sessions Phase := ⟨.new secret, []⟩

end CirisServer.SessionToken
