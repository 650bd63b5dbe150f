import Mathlib.Logic.Function.Basic
import CirisServer.ForStd.Except
import CirisServer.ForStd.Interleave
import CirisServer.Native.Egress
import CirisServer.Native.Session

/-!
# The delegation gate

`src/auth/gate.rs`, the check behind every owner-gated route: a delegated caller may exercise a
verb only if the server lets any delegate do so and the owner's bounds on the delegation allow
it.
-/

namespace CirisServer

/-- What a request exercises. -/
inductive CapabilityVerb where
  | claimRemote
  | announce
  | peer
  | configWrite
  | setAge
  | meshRelay
  | delegate
  | wipe
  | accordHalt
  | chatAuthor
  | chatRead
  | chatCreate
  | readNodeState
deriving DecidableEq

namespace CapabilityVerb

/-- The token that the owner's lists match on. -/
def asStr : CapabilityVerb → String
  | claimRemote => "claim_remote"
  | announce => "announce"
  | peer => "peer"
  | configWrite => "config_write"
  | setAge => "set_age"
  | meshRelay => "mesh_relay"
  | delegate => "delegate"
  | wipe => "wipe"
  | accordHalt => "accord_halt"
  | chatAuthor => "chat_author"
  | chatRead => "chat_read"
  | chatCreate => "chat_create"
  | readNodeState => "read_node_state"

/-- No delegate may do this, whatever the grant says. -/
def neverDelegatable : CapabilityVerb → Bool
  | delegate | wipe | accordHalt | chatAuthor => true
  | _ => false

end CapabilityVerb

/-- Why a delegated call was refused. -/
structure DenyReason where
  deniedBy : String
  verb : String
  goal : Option String
  detail : String
deriving DecidableEq

/-- A caller, with the owner's bounds if it is a delegated one. -/
structure BoundCaller extends SessionCaller where
  constraints : Option DelegationConstraints
deriving DecidableEq

/-- `authorize_delegated`: the never-list, then the deny-list, then the allow-list. -/
def authorizeDelegated (caller : BoundCaller) (verb : CapabilityVerb) : Except DenyReason Unit :=
  if caller.actor.isNone then .ok ()
  else if verb.neverDelegatable then
    .error ⟨"never_list", verb.asStr, caller.constraints.bind (·.goal),
      "'" ++ verb.asStr ++ "' can never be performed by a delegate — it stays the owner's alone"⟩
  else
    match caller.constraints with
    | none => .ok ()
    | some constraints =>
      if verb.asStr ∈ constraints.actionsDeny then
        .error ⟨"action_deny", verb.asStr, constraints.goal,
          "'" ++ verb.asStr ++ "' is on this delegation's deny-list"⟩
      else if constraints.actionsAllow.any (verb.asStr ∉ ·) then
        .error ⟨"action_allow", verb.asStr, constraints.goal,
          "'" ++ verb.asStr ++ "' is not in this delegation's allowed actions"⟩
      else .ok ()

namespace Permission

/-- `Permission::OBSERVER`. -/
def observer : List Permission :=
  [viewMessages, viewTelemetry, viewReasoning, viewConfig, viewMemory, viewAudit, viewTools,
    viewLogs, sendMessages]

/-- `Permission::ADMIN_EXTRA`. -/
def adminExtra : List Permission :=
  [manageConfig, runtimeControl, manageIncidents, manageTasks, manageFilters, triggerAnalysis]

/-- `Permission::AUTHORITY_EXTRA`. -/
def authorityExtra : List Permission :=
  [resolveDeferrals, provideGuidance, grantPermissions, manageUserPermissions]

/-- `Permission::SYSTEM_ADMIN_EXTRA`. -/
def systemAdminExtra : List Permission := [fullAccess, emergencyShutdown, manageSensitiveConfig]

end Permission

/-- `permissions_for`. -/
def permissionsFor : UserRole → List Permission
  | .observer => Permission.observer
  | .serviceAccount =>
    [.viewTelemetry, .viewConfig, .runtimeControl, .viewTools, .viewLogs, .sendMessages]
  | .admin => Permission.observer ++ Permission.adminExtra
  | .authority => Permission.observer ++ Permission.adminExtra ++ Permission.authorityExtra
  | .systemAdmin =>
    Permission.observer ++ Permission.adminExtra ++ Permission.authorityExtra ++
      Permission.systemAdminExtra

/-- The caller that `resolve_bearer` makes of a live delegated bearer. -/
def DelegatedGrant.caller (grant : DelegatedGrant) : BoundCaller where
  waId := grant.ownerWaId
  role := grant.ownerRole
  permissions := permissionsFor grant.ownerRole
  actor := some grant.clientId
  constraints := some grant.constraints

end CirisServer

/-!
## Bounds in a signed envelope

`src/auth/device_grant.rs` (`with_constraints`): the owner's bounds on a delegation as a member of
the envelope that is signed, and the `serde` reading and writing of
`src/auth/session.rs`'s `DelegationConstraints`. A bound that is not set is not written, and a
member that is missing is read as not set.

`serde` reads the fields from an array of their values too; nothing writes one.
-/

namespace CirisServer

namespace Json

/-- A `Vec<String>`, written. -/
def ofTexts (texts : List String) : Json := .arr (texts.map .str)

/-- A `Vec<String>`, read. -/
def texts : Json → Option (List String)
  | .arr items => items.mapM asStr
  | _ => none

/-- An `Option`, read: `null` is not set. -/
def nullable {α : Type} (read : Json → Option α) : Json → Option (Option α)
  | .null => some none
  | j => (read j).map some

/-- A field with `#[serde(default)]`. -/
def field {α : Type} (read : Json → Option α) (default : α) (name : String)
    (members : List (String × Json)) : Option α :=
  (members.lookup name).elim (some default) read

end Json

namespace DelegationConstraints

/-- `Serialize`. -/
def toJson (c : DelegationConstraints) : Json :=
  .obj (
    (c.actionsAllow.toList.map fun allow => ("actions_allow", Json.ofTexts allow)) ++
    (if c.actionsDeny.isEmpty then [] else [("actions_deny", Json.ofTexts c.actionsDeny)]) ++
    (c.goal.toList.map fun goal => ("goal", Json.str goal)))

/-- `Deserialize`. -/
def ofJson : Json → Option DelegationConstraints
  | .obj members => do
    let actionsAllow ← Json.field (Json.nullable Json.texts) none "actions_allow" members
    let actionsDeny ← Json.field Json.texts [] "actions_deny" members
    let goal ← Json.field (Json.nullable Json.asStr) none "goal" members
    some { actionsAllow, actionsDeny, goal }
  | _ => none

end DelegationConstraints

/-- `with_constraints`: an unconstrained grant leaves the envelope alone. -/
def Json.withConstraints (envelope : Json) (c : DelegationConstraints) : Json :=
  if c.isUnconstrained then envelope
  else envelope.onObj (Members.insert "constraints" c.toJson)

end CirisServer

/-!
## Device grants: the table

`src/auth/device_grant.rs`: a client asks for a device code, the owner approves or denies it by
its user code, and the client redeems it for a delegated bearer. The owner may also author the
whole grant (`delegate`), for the agent to redeem by its pin (`claim`). The grants and the
index of user codes are two maps, each behind a lock of its own.

Time is in whole seconds. The routes are modelled after their bodies are parsed.
-/

namespace CirisServer.DeviceFlow

/-- `POLL_INTERVAL_SECS`. -/
def pollIntervalSecs : Nat := 5

/-- `DELEGATED_TTL_SECS`. -/
def delegatedTtlSecs : Nat := 3600

/-- `DEFAULT_SCOPE`. -/
def defaultScope : String := "owner:act-on-behalf"

/-- `DELEGATION_DEPTH`. -/
def delegationDepth : Nat := 4

/-- What the router is built with, and the `{:?}` of a text. `GRANT_TTL_SECS` is 600. -/
structure Lib where
  grantTtlSecs : Nat := 600
  /-- `DELEGATE_SEED_SUBDIR` under the owner's seed directory. -/
  delegateSeedDir : String
  debug : String → String

/-- An error answer: `err`. -/
structure Refusal where
  status : Nat
  error : String
deriving DecidableEq

/-! ## The table -/

inductive GrantStatus where
  | pending
  | approved (ownerWaId : String) (ownerRole : UserRole) (ownerKeyId : String)
  | denied
deriving DecidableEq

structure DeviceGrant where
  userCode : String
  clientId : String
  scope : String
  expiresAt : Nat
  constraints : DelegationConstraints
  status : GrantStatus
deriving DecidableEq

/-- `grants` by device code, and `user_index` from user code to device code. -/
structure Table where
  grants : String → Option DeviceGrant
  userIndex : String → Option String

/-- What is known of a grant once it is consumed. -/
structure Redeemed where
  ownerWaId : String
  ownerRole : UserRole
  ownerKeyId : String
  clientId : String
  scope : String
  constraints : DelegationConstraints
deriving DecidableEq

namespace Table

/-- The table of a router just built. -/
def new : Table := ⟨fun _ => none, fun _ => none⟩

def insertGrant (deviceCode : String) (grant : DeviceGrant) (t : Table) : Table :=
  { t with grants := Function.update t.grants deviceCode (some grant) }

def insertIndex (userCode deviceCode : String) (t : Table) : Table :=
  { t with userIndex := Function.update t.userIndex userCode (some deviceCode) }

/-- A grant and its user code are gone. -/
def forget (deviceCode userCode : String) (t : Table) : Table where
  grants := Function.update t.grants deviceCode none
  userIndex := Function.update t.userIndex userCode none

/-- The region that `token` and `claim` share: an expired grant is forgotten, an approved one
    is consumed. Only `token` says who polls. -/
def redeem (now : Nat) (deviceCode : String) (clientId : Option String) (unknown : Refusal)
    (t : Table) : Table × Except Refusal Redeemed :=
  match t.grants deviceCode with
  | none => (t, .error unknown)
  | some grant =>
    if clientId.any (grant.clientId ≠ ·) then (t, .error ⟨400, "invalid_client"⟩)
    else if grant.expiresAt ≤ now then
      (t.forget deviceCode grant.userCode, .error ⟨410, "expired_token"⟩)
    else
      match grant.status with
      | .pending => (t, .error ⟨428, "authorization_pending"⟩)
      | .denied => (t, .error ⟨403, "access_denied"⟩)
      | .approved ownerWaId ownerRole ownerKeyId =>
        (t.forget deviceCode grant.userCode,
          .ok ⟨ownerWaId, ownerRole, ownerKeyId, grant.clientId, grant.scope, grant.constraints⟩)

end Table

/-! ## The edge -/

/-- The signed `delegates_to(owner → actor, [scope])`. -/
structure DelegatesTo where
  attestingKeyId : String
  attestedKeyId : String
  scope : String
  subDelegation : Bool
  subDelegationDepth : Option Nat
  constraints : Option DelegationConstraints
  expiresAt : Nat
deriving DecidableEq

/-- `with_constraints`: an unconstrained grant leaves the envelope alone. -/
def withConstraints (c : DelegationConstraints) (edge : DelegatesTo) : DelegatesTo :=
  if c.isUnconstrained then edge else { edge with constraints := some c }

/-- `with_sub_delegation_depth`. -/
def withSubDelegationDepth (subDelegation : Bool) (depth : Option Nat) (edge : DelegatesTo) :
    DelegatesTo :=
  if subDelegation then { edge with subDelegationDepth := depth.or edge.subDelegationDepth }
  else edge

/-! ## Outside the table -/

/-- What one step finds: the time, the codes it draws, and the answers of the engine, of the
    directory and of the owner's signer. -/
structure Env where
  now : Nat
  deviceCode : String
  userCode : String
  accessToken : String
  /-- `resolve_bearer`. -/
  resolveBearer : String → Except String (Option SessionCaller)
  /-- `lookup_public_key`: is the key registered? -/
  registered : String → Except String Bool
  createSeedDir : Except String Unit
  /-- `mint_user_identity`: the key id of the agent with this label. -/
  mint : String → Except String String
  registerMinted : String → Except Refusal Unit
  /-- `resolve_user_signer`: the owner's key id. -/
  userSigner : Except String (Option String)
  /-- `emit_signed_attestation`: the attestation id. -/
  emit : DelegatesTo → Except String String
  /-- `reachable_under_scope`: owner, actor, scope, depth. -/
  reachable : String → String → String → Nat → Except String Bool

/-- `require_owner`. -/
def requireOwner (env : Env) (bearer : Option String) : Except Refusal SessionCaller :=
  match bearer with
  | none => .error ⟨401, "missing bearer session token"⟩
  | some token =>
    match env.resolveBearer token with
    | .ok (some caller) =>
      if caller.actor.isNone ∧ caller.role = .systemAdmin ∧ .fullAccess ∈ caller.permissions then
        .ok caller
      else .error ⟨403, "device-grant approval requires the owner (SYSTEM_ADMIN) role"⟩
    | .ok none => .error ⟨401, "invalid or expired session"⟩
    | .error e => .error ⟨503, "store: " ++ e⟩

/-- `resolve_owner_signer`. -/
def resolveOwnerSigner (env : Env) : Except Refusal String :=
  match env.userSigner with
  | .ok (some keyId) => .ok keyId
  | .ok none => .error ⟨409, "owner federation identity is not available on this node — the " ++
      "responsible owner must hold a fed-ID here to sign a delegation"⟩
  | .error e => .error ⟨503, "resolve owner signer: " ++ e⟩

/-- The actor has to be a registered identity. -/
def requireRegistered (env : Env) (unknown keyId : String) : Except Refusal Unit :=
  match env.registered keyId with
  | .ok true => .ok ()
  | .ok false => .error ⟨400, unknown⟩
  | .error e => .error ⟨503, "store: " ++ e⟩

structure DelegateRequest where
  mode : String
  label : Option String := none
  existingKeyId : Option String := none
  scope : Option (List String) := none
  constraints : Option DelegationConstraints := none
  subDelegation : Bool := false
  subDelegationDepth : Option Nat := none
deriving DecidableEq

/-- The scopes asked for, or the default. -/
def DelegateRequest.scopeVec (req : DelegateRequest) : List String :=
  (req.scope.filter (!·.isEmpty)).getD [defaultScope]

/-- The scope of the grant: the first. -/
def DelegateRequest.scopeHead (req : DelegateRequest) : String :=
  req.scopeVec.head?.getD defaultScope

/-- The actor that `delegate` resolves: minted for `create`, looked up for `existing`. -/
def DelegateRequest.actor (L : Lib) (env : Env) (req : DelegateRequest) :
    Except Refusal String := do
  if req.mode = "create" then
    let label := trim (req.label.getD "")
    ensure (label ≠ "") ⟨400, "label is required when mode=create"⟩
    env.createSeedDir.mapError fun e =>
      ⟨500, "create delegate seed dir " ++ L.delegateSeedDir ++ ": " ++ e⟩
    let keyId ← (env.mint label).mapError fun e => ⟨500, "mint agent identity: " ++ e⟩
    env.registerMinted keyId
    .ok keyId
  else if req.mode = "existing" then
    let existing ← ((req.existingKeyId.map trim).filter (· ≠ "")).elim
      (.error ⟨400, "existing_key_id is required when mode=existing"⟩) .ok
    requireRegistered env
      "invalid_client: existing_key_id is not a registered federation identity" existing
    .ok existing
  else
    .error ⟨400, "invalid mode " ++ L.debug req.mode ++
      " (expected \"create\" or \"existing\")"⟩

end CirisServer.DeviceFlow

/-!
## Device grants, region by region

The routes on one table, side by side. A route gives its lock up between its regions: the grant
is stored before its user code is indexed, `approve` and `deny` read the index before the
grants, `approve` and `delegate` mark a grant once the owner's signer has signed the edge, and
`token` and `claim` ask the graph after they have consumed the grant.

The log, newest first, is bookkeeping of the model.
-/

namespace CirisServer.DeviceFlow

open Interleave

/-! ## The routes -/

inductive Call where
  | deviceCode (clientId : String) (scope : Option String)
  | delegate (bearer : Option String) (req : DelegateRequest)
  | approve (bearer : Option String) (userCode : String)
      (constraints : Option DelegationConstraints)
  | deny (bearer : Option String) (userCode : String)
  | token (deviceCode clientId : String)
  | claim (pin : String)
deriving DecidableEq

/-- By what a grant is redeemed. -/
inductive Door where
  | token (deviceCode clientId : String)
  | claim (pin : String)
deriving DecidableEq

/-- What the routes answer. -/
inductive Reply where
  | refused (refusal : Refusal)
  | deviceCode (deviceCode userCode verificationUri verificationUriComplete : String)
      (expiresIn interval : Nat)
  | delegated (claimUrl pin clientId : String) (scope : List String) (expiresIn : Nat)
  | approved (userCode clientId approvedBy attestationId : String)
  | denied (userCode : String)
  /-- `token`'s and `claim`'s; the characteristics echoed are those of the grant. -/
  | bearer (accessToken : String) (expiresIn : Nat) (grant : DelegatedGrant)
deriving DecidableEq

/-- What happened to a device code. -/
inductive GrantEvent where
  /-- `device_code` stored a grant for this client. -/
  | issued (deviceCode clientId : String)
  /-- `delegate` stored a grant for this agent. -/
  | delegated (deviceCode clientId : String)
  | emitted (deviceCode : String) (edge : DelegatesTo)
  /-- `approve` answered 200 to a caller that asked for these bounds. -/
  | approved (deviceCode : String) (asked : DelegationConstraints)
  /-- `deny` answered 200. -/
  | denied (deviceCode : String)
  | minted (deviceCode : String) (door : Door) (accessToken : String) (grant : DelegatedGrant)
deriving DecidableEq

/-- Which route an approval belongs to. -/
inductive Approver where
  | approve (asked : DelegationConstraints)
  | delegate (pin : String) (scope : List String) (subDelegation : Bool)
      (subDelegationDepth : Option Nat)
deriving DecidableEq

/-- An approval under way: `approve`'s snapshot, or what `delegate` put into the grant. -/
structure Approving where
  deviceCode : String
  ownerWaId : String
  ownerRole : UserRole
  actorKeyId : String
  scope : String
  expiresAt : Nat
  constraints : DelegationConstraints
  approver : Approver
deriving DecidableEq

/-- Where a route stands. -/
inductive Phase where
  | called (call : Call)
  /-- `device_code` has stored the grant. -/
  | issuing (deviceCode userCode : String)
  /-- `delegate` has stored the grant. -/
  | delegating (userCode : String) (a : Approving)
  /-- `approve` has read the index. -/
  | approving (deviceCode ownerWaId : String) (ownerRole : UserRole)
      (asked : DelegationConstraints)
  /-- The owner's signer is to sign the edge. -/
  | signing (a : Approving)
  /-- The edge is out; the grant is to be marked. -/
  | marking (a : Approving) (ownerKeyId attestationId : String)
  /-- `deny` has read the index. -/
  | denying (deviceCode : String)
  /-- `claim` has read the index. -/
  | claiming (pin deviceCode : String)
  /-- The grant is consumed; the graph is to be asked. -/
  | gating (deviceCode : String) (door : Door) (redeemed : Redeemed)
  | told (reply : Reply)
deriving DecidableEq

/-- The table, and the log, newest first. -/
structure Board where
  table : Table
  log : List GrantEvent

/-- The edge an approval puts out: `delegates_to_envelope` with what is stamped on it. -/
def Approving.edge (ownerKeyId : String) (a : Approving) : DelegatesTo :=
  let bare (subDelegation : Bool) : DelegatesTo :=
    { attestingKeyId := ownerKeyId, attestedKeyId := a.actorKeyId, scope := a.scope, subDelegation
      subDelegationDepth := none, constraints := none, expiresAt := a.expiresAt }
  match a.approver with
  | .approve _ => withConstraints a.constraints (bare false)
  | .delegate _ _ subDelegation depth =>
    withSubDelegationDepth subDelegation depth (withConstraints a.constraints (bare subDelegation))

/-- The route answers an error, or goes on. -/
def refusedOr {α : Type} (b : Board) (x : Except Refusal α) (k : α → Board × Phase) :
    Board × Phase :=
  match x with
  | .error e => (b, .told (.refused e))
  | .ok a => k a

namespace Board

/-- `device_code`, as far as the grant. -/
def deviceCode (L : Lib) (env : Env) (clientId : String) (scope : Option String) (b : Board) :
    Board × Phase :=
  let clientId := trim clientId
  if clientId = "" then (b, .told (.refused ⟨400, "client_id is required"⟩))
  else
    refusedOr b (requireRegistered env ("invalid_client: the actor (client_id) must be a " ++
      "registered federation identity — register the agent's fed-ID before requesting a device " ++
      "code") clientId) fun _ =>
    let grant : DeviceGrant :=
      { userCode := env.userCode, clientId, scope := scope.getD defaultScope
        expiresAt := env.now + L.grantTtlSecs, constraints := {}, status := .pending }
    ({ table := b.table.insertGrant env.deviceCode grant
       log := .issued env.deviceCode clientId :: b.log },
      .issuing env.deviceCode env.userCode)

/-- `device_code`'s second region: the index, and the answer. -/
def issue (L : Lib) (deviceCode userCode : String) (b : Board) : Board × Phase :=
  ({ b with table := b.table.insertIndex userCode deviceCode },
    .told (.deviceCode deviceCode userCode "/v1/auth/device"
      ("/v1/auth/device?user_code=" ++ userCode) L.grantTtlSecs pollIntervalSecs))

/-- `delegate`, as far as the grant. -/
def delegate (L : Lib) (env : Env) (bearer : Option String) (req : DelegateRequest) (b : Board) :
    Board × Phase :=
  refusedOr b (requireOwner env bearer) fun owner =>
  refusedOr b (req.actor L env) fun clientId =>
  if req.subDelegationDepth.isSome ∧ ¬ req.subDelegation then
    (b, .told (.refused ⟨400, "sub_delegation_depth was supplied without sub_delegation=true — " ++
      "a depth budget means nothing unless the delegate may pass the scope on. Set " ++
      "sub_delegation, or omit the depth."⟩))
  else
    let constraints := req.constraints.getD {}
    let expiresAt := env.now + L.grantTtlSecs
    let grant : DeviceGrant :=
      { userCode := env.userCode, clientId, scope := req.scopeHead, expiresAt, constraints
        status := .pending }
    ({ table := b.table.insertGrant env.deviceCode grant
       log := .delegated env.deviceCode clientId :: b.log },
      .delegating env.userCode
        { deviceCode := env.deviceCode, ownerWaId := owner.waId, ownerRole := owner.role
          actorKeyId := clientId, scope := req.scopeHead, expiresAt, constraints
          approver := .delegate env.userCode req.scopeVec req.subDelegation
            req.subDelegationDepth })

/-- `approve`, as far as the index. -/
def approve (env : Env) (bearer : Option String) (userCode : String)
    (constraints : Option DelegationConstraints) (b : Board) : Board × Phase :=
  refusedOr b (requireOwner env bearer) fun owner =>
  match b.table.userIndex userCode with
  | none => (b, .told (.refused ⟨404, "unknown user_code"⟩))
  | some deviceCode => (b, .approving deviceCode owner.waId owner.role (constraints.getD {}))

/-- `approve`'s snapshot. Only an approved grant is refused. -/
def snapshot (now : Nat) (deviceCode ownerWaId : String) (ownerRole : UserRole)
    (asked : DelegationConstraints) (b : Board) : Board × Phase :=
  match b.table.grants deviceCode with
  | none => (b, .told (.refused ⟨404, "unknown user_code"⟩))
  | some grant =>
    if grant.expiresAt ≤ now then (b, .told (.refused ⟨410, "expired_token"⟩))
    else
      match grant.status with
      | .approved _ _ _ => (b, .told (.refused ⟨409, "already approved"⟩))
      | .pending | .denied =>
        (b, .signing
          { deviceCode, ownerWaId, ownerRole, actorKeyId := grant.clientId, scope := grant.scope
            expiresAt := grant.expiresAt, constraints := grant.constraints.tightenedWith asked
            approver := .approve asked })

/-- The owner's signer signs the edge, for `approve` and `delegate` alike. -/
def sign (env : Env) (a : Approving) (b : Board) : Board × Phase :=
  refusedOr b (resolveOwnerSigner env) fun ownerKeyId =>
  let edge := a.edge ownerKeyId
  match env.emit edge with
  | .error e => (b, .told (.refused ⟨500, "emit delegates_to(owner→actor): " ++ e⟩))
  | .ok attestationId =>
    ({ b with log := .emitted a.deviceCode edge :: b.log }, .marking a ownerKeyId attestationId)

/-- The region that marks the grant, whatever its status has become. `approve` stores the
    bounds of its snapshot too. -/
def mark (now : Nat) (a : Approving) (ownerKeyId attestationId : String) (b : Board) :
    Board × Phase :=
  match b.table.grants a.deviceCode, a.approver with
  | none, .approve _ => (b, .told (.refused ⟨404, "unknown user_code"⟩))
  | none, .delegate .. => (b, .told (.refused ⟨500, "grant vanished during delegate"⟩))
  | some grant, .approve asked =>
    let status := .approved a.ownerWaId a.ownerRole ownerKeyId
    ({ table := b.table.insertGrant a.deviceCode { grant with constraints := a.constraints, status }
       log := .approved a.deviceCode asked :: b.log },
      .told (.approved grant.userCode grant.clientId a.ownerWaId attestationId))
  | some grant, .delegate pin scope _ _ =>
    let status := .approved a.ownerWaId a.ownerRole ownerKeyId
    ({ b with table := b.table.insertGrant a.deviceCode { grant with status } },
      .told (.delegated "/v1/auth/device/claim" pin a.actorKeyId scope (a.expiresAt - now)))

/-- `deny`, as far as the index. -/
def deny (env : Env) (bearer : Option String) (userCode : String) (b : Board) : Board × Phase :=
  refusedOr b (requireOwner env bearer) fun _ =>
  match b.table.userIndex userCode with
  | none => (b, .told (.refused ⟨404, "unknown user_code"⟩))
  | some deviceCode => (b, .denying deviceCode)

/-- `deny`'s second region. -/
def setDenied (deviceCode : String) (b : Board) : Board × Phase :=
  match b.table.grants deviceCode with
  | none => (b, .told (.refused ⟨404, "unknown user_code"⟩))
  | some grant =>
    ({ table := b.table.insertGrant deviceCode { grant with status := .denied }
       log := .denied deviceCode :: b.log },
      .told (.denied grant.userCode))

/-- `claim`, as far as the index. -/
def claim (pin : String) (b : Board) : Board × Phase :=
  match b.table.userIndex (trim pin) with
  | none => (b, .told (.refused ⟨404, "unknown pin"⟩))
  | some deviceCode => (b, .claiming (trim pin) deviceCode)

/-- The region in which a grant is consumed. -/
def redeem (now : Nat) (deviceCode : String) (clientId : Option String) (unknown : Refusal)
    (door : Door) (b : Board) : Board × Phase :=
  let (table, redeemed) := b.table.redeem now deviceCode clientId unknown
  refusedOr { b with table } redeemed fun r => ({ b with table }, .gating deviceCode door r)

/-- `token`, up to the graph gate. -/
def token (now : Nat) (deviceCode clientId : String) (b : Board) : Board × Phase :=
  b.redeem now deviceCode (some clientId) ⟨400, "invalid_grant"⟩ (.token deviceCode clientId)

/-- `claim`'s second region, up to the graph gate. -/
def consumeClaim (now : Nat) (pin deviceCode : String) (b : Board) : Board × Phase :=
  b.redeem now deviceCode none ⟨404, "unknown pin"⟩ (.claim pin)

/-- The graph gate, and the bearer. -/
def mint (env : Env) (deviceCode : String) (door : Door) (r : Redeemed) (b : Board) :
    Board × Phase :=
  match env.reachable r.ownerKeyId r.clientId r.scope delegationDepth with
  | .error e => (b, .told (.refused ⟨503, "store: " ++ e⟩))
  | .ok false => (b, .told (.refused ⟨403, "access_denied"⟩))
  | .ok true =>
    let grant : DelegatedGrant :=
      { ownerWaId := r.ownerWaId, ownerRole := r.ownerRole, ownerKeyId := r.ownerKeyId
        clientId := r.clientId, scope := r.scope, expiresAt := env.now + delegatedTtlSecs
        issuedAt := env.now, purpose := r.constraints.goal, attestationId := none
        constraints := r.constraints }
    ({ b with log := .minted deviceCode door env.accessToken grant :: b.log },
      .told (.bearer env.accessToken delegatedTtlSecs grant))

end Board

/-- The next region of a route. -/
def Phase.advance (L : Lib) (env : Env) (phase : Phase) (b : Board) : Board × Phase :=
  match phase with
  | .called (.deviceCode clientId scope) => b.deviceCode L env clientId scope
  | .called (.delegate bearer req) => b.delegate L env bearer req
  | .called (.approve bearer userCode constraints) => b.approve env bearer userCode constraints
  | .called (.deny bearer userCode) => b.deny env bearer userCode
  | .called (.token deviceCode clientId) => b.token env.now deviceCode clientId
  | .called (.claim pin) => b.claim pin
  | .issuing deviceCode userCode => b.issue L deviceCode userCode
  | .delegating userCode a =>
    ({ b with table := b.table.insertIndex userCode a.deviceCode }, .signing a)
  | .approving deviceCode ownerWaId ownerRole asked =>
    b.snapshot env.now deviceCode ownerWaId ownerRole asked
  | .signing a => b.sign env a
  | .marking a ownerKeyId attestationId => b.mark env.now a ownerKeyId attestationId
  | .denying deviceCode => b.setDenied deviceCode
  | .claiming pin deviceCode => b.consumeClaim env.now pin deviceCode
  | .gating deviceCode door r => b.mint env deviceCode door r
  | .told reply => (b, .told reply)

/-- The routes of one table, side by side. -/
def grantServer (L : Lib) : System Board Phase Call Env where
  spawn call b := (b, .called call)
  advance env phase b := phase.advance L env b

/-- A router just built, and no calls. -/
def start : Config Board Phase := ⟨⟨.new, []⟩, []⟩

end CirisServer.DeviceFlow
