import CirisServer.ForStd.Except
import CirisServer.ForStd.Interleave
import CirisServer.ForStd.Utf8
import CirisServer.Native.AuthStore

/-!
# The first claim of a node

`POST /v1/setup/root` of `src/auth/bootstrap.rs`: the caller proves the PIN of the node's console
and sends an owner binding, and the node's ROOT cert is written. A sign-in before the claim may
have left a ROOT that is named after the door (`adoptable_oauth_placeholder`); the claim goes
on over it, and afterwards retires the other certs that hold the pair it was sent.

A request runs in steps, one store call or one hold of the PIN's lock each, and other requests
run between them. The rest of the route touches neither the certs nor the PIN.
-/

namespace CirisServer.SetupRoot

open Interleave
open AuthStore (WaCert WaRole Rows)

/-- `refusal::refuse`. -/
structure Refusal where
  status : Nat
  reasonId : String
  error : String
deriving DecidableEq

/-! ## The request -/

/-- What the checks of the route read in the signed envelope; a field that is missing is empty. -/
structure OwnerBindingEnvelope where
  nodeKeyId : String := ""
  delegationPurpose : String := ""
  scope : List String := []
  attestingKeyId : String := ""
deriving DecidableEq

structure SignedOwnerBinding where
  attestingKeyId : String
  envelope : OwnerBindingEnvelope := {}
  /-- The keys, the signatures and the signed `row` mirror, which the substrate reads. -/
  rest : String := ""
deriving DecidableEq

/-- A row of the key directory. -/
structure KeyRecord where
  keyId : String
  identityType : String
deriving DecidableEq

structure IdentityOccurrence where
  occurrenceKeyId : String
  identityKeyId : String
deriving DecidableEq

/-- The fedID behind a signer that is one of its roster keys. -/
structure RosterProof where
  identityKeyRecord : KeyRecord
  occurrences : List IdentityOccurrence
deriving DecidableEq

structure SetupRootRequest where
  nodeCode : Option String := none
  keyId : Option String := none
  pubkeyEd25519Base64 : Option String := none
  cohortScope : Option String := none
  ownerBinding : Option SignedOwnerBinding := none
  claimPin : Option String := none
  ownerUsername : Option String := none
  ownerOauthProvider : Option String := none
  ownerOauthExternalId : Option String := none
  ownerRosterProof : Option RosterProof := none
deriving DecidableEq

/-- What the body is read as: nothing when it is empty, else what `serde_json` makes of it. -/
abbrev Body := Option (Except String SetupRootRequest)

def Body.parse : Body → Except Refusal SetupRootRequest
  | none => .ok {}
  | some (.ok req) => .ok req
  | some (.error e) =>
    .error ⟨400, "auth.claim.body_invalid", "setup/root body is not valid JSON: " ++ e⟩

/-! ## The node -/

/-- What the router is built with, the codec, and the `{:?}` of a text. -/
structure Lib where
  nodeKeyId : String
  nodePubkeyEd25519Base64 : String
  /-- `fedcode::decode`: the key id and the pubkey. -/
  decode : String → Except String (String × String)
  /-- `cohort_scope::ALL`. -/
  cohortScopes : List String
  debug : String → String

/-- The certs, and the armed PIN. -/
structure Node where
  rows : Rows
  claimPin : Option String
deriving DecidableEq

/-! ## The checks of a request -/

/-- `verify_node_code_pin`. -/
def verifyNodeCodePin (L : Lib) (req : SetupRootRequest) : Except Refusal Unit := do
  let (claimKeyId, claimPubkey) ←
    match req.nodeCode, req.keyId, req.pubkeyEd25519Base64 with
    | some code, _, _ =>
      match L.decode code with
      | .ok fc => .ok fc
      | .error e => .error ⟨400, "auth.claim.node_code_invalid",
          "supplied NodeCode is undecodable: " ++ e⟩
    | none, some k, some p => .ok (k, p)
    | none, _, _ => .error ⟨400, "auth.claim.node_code_missing",
        "first-run ROOT claim must pin this node's identity: supply `node_code` " ++
        "(CIRIS-V1-...) or `key_id` + `pubkey_ed25519_base64`"⟩
  if claimKeyId ≠ L.nodeKeyId ∨ claimPubkey ≠ L.nodePubkeyEd25519Base64 then
    .error ⟨400, "auth.claim.wrong_node", "supplied NodeCode does not match this node's " ++
      "identity — you may have reached the wrong node"⟩
  else .ok ()

/-- The comparison of the PINs: over all bytes of the one expected, whatever was supplied. -/
def pinMatches (supplied expected : String) : Bool :=
  let a := utf8 supplied
  let b := utf8 expected
  let padded := (List.range b.length).map fun i => a.getD i 0
  a.length == b.length && padded == b

/-- `verify_claim_pin`. -/
def verifyClaimPin (armed : Option String) (req : SetupRootRequest) : Except Refusal Unit :=
  match armed, req.claimPin with
  | none, _ => .error ⟨401, "auth.claim.not_armed", "this node is not armed for a first-run " ++
      "claim (no one-time PIN) — ownership may already be claimed"⟩
  | some _, none => .error ⟨401, "auth.claim.pin_missing", "first-run ROOT claim must carry " ++
      "`claim_pin` (the one-time PIN printed on this node's console at boot)"⟩
  | some expected, some supplied =>
    if pinMatches supplied expected then .ok ()
    else .error ⟨401, "auth.claim.pin_invalid", "invalid one-time claim PIN"⟩

/-- `validate_cohort_scope`. -/
def validateCohortScope (L : Lib) (req : SetupRootRequest) : Except Refusal String :=
  let listed := "|".intercalate L.cohortScopes
  match req.cohortScope with
  | none => .error ⟨400, "auth.claim.cohort_missing",
      "first-run ROOT claim must carry `cohort_scope` (one of " ++ listed ++ ")"⟩
  | some raw =>
    if trim raw ∈ L.cohortScopes then .ok (trim raw)
    else .error ⟨400, "auth.claim.cohort_invalid",
      "invalid cohort_scope " ++ L.debug (trim raw) ++ " — must be one of " ++ listed⟩

/-- The owner binding has to be there. -/
def requireOwnerBinding (req : SetupRootRequest) : Except Refusal SignedOwnerBinding :=
  match req.ownerBinding with
  | some binding => .ok binding
  | none => .error ⟨400, "auth.claim.owner_binding_missing",
      "first-run ROOT claim must carry a complete `owner_binding` " ++
      "(the user-signed delegates_to: envelope + signatures + key_id + pubkeys)"⟩

/-! ## The owner binding -/

inductive OwnershipError where
  | agencyScopeRefused
  | canonicalize (e : String)
  | sign (e : String)
  | persist (e : String)
  | validation (e : String)
  | verify (e : String)
deriving DecidableEq

/-- The `Display` of the error. -/
def OwnershipError.display : OwnershipError → String
  | .agencyScopeRefused => "refused to emit owner-binding: a node delegation MUST carry only " ++
      "infra:* scopes (no agency:* / no legacy agency kinds) — CC 1.13.5"
  | .canonicalize e => "canonicalize owner-binding: " ++ e
  | .sign e => "hybrid-sign owner-binding: " ++ e
  | .persist e => "persist owner-binding: " ++ e
  | .validation e => "owner-binding validation: " ++ e
  | .verify e => "owner-binding signature verify: " ++ e

/-- The status that the route maps the error to. -/
def OwnershipError.status : OwnershipError → Nat
  | .agencyScopeRefused | .validation _ | .canonicalize _ => 400
  | .verify _ => 401
  | .sign _ | .persist _ => 500

/-- The binding is persisted: what the answer says of it. -/
structure Applied where
  identityKeyId : String
  cohortScope : String
  attestationId : String
deriving DecidableEq

/-! ## The certs -/

/-- `list_by_role`. -/
def listByRole (role : WaRole) (limit : Nat) (rows : Rows) : List WaCert :=
  ((rows.filter fun c => c.active ∧ c.role = role).insertionSort
    fun a b => b.created ≤ a.created).take limit

/-- The cert is named after a federation identity. -/
def identityDerived (c : WaCert) : Bool := "wa-root-".toList.isPrefixOf c.waId.toList

/-- `adoptable_oauth_placeholder`, once the certs are read. -/
def adoptableOauthPlaceholder (rows : Rows) : Option WaCert :=
  match listByRole .root 8 rows with
  | [only] =>
    let hasPair := only.oauthProvider.isSome ∧ only.oauthExternalId.isSome
    if ¬ identityDerived only ∧ hasPair then some only else none
  | _ => none

/-- `root_wa_id_for_identity`. -/
def rootWaIdForIdentity (identityKeyId : String) : String := "wa-root-" ++ identityKeyId

/-- A trimmed field; an empty one counts as absent. -/
def trimmed (field : Option String) : Option String := (field.map trim).filter (· ≠ "")

/-- The pair of the sign-in: both halves or neither. -/
def SetupRootRequest.oauthIdentity (req : SetupRootRequest) : Option (String × String) :=
  match trimmed req.ownerOauthProvider, trimmed req.ownerOauthExternalId with
  | some p, some e => some (AuthStore.WaStore.toAsciiLowercase p, e)
  | _, _ => none

/-! ## The steps -/

structure SetupRootResponse where
  waId : String
  identityKeyId : String
  cohortScope : String
  role : String
  ownerBindingAttestationId : String
deriving DecidableEq

inductive Reply where
  | refused (refusal : Refusal)
  /-- 201. -/
  | created (response : SetupRootResponse)
deriving DecidableEq

/-- A claim that passed every check: its body, what became of the owner binding, and when. -/
structure Claim where
  req : SetupRootRequest
  applied : Applied
  now : Int
deriving DecidableEq

namespace Claim

variable (claim : Claim)

def oauthIdentity : Option (String × String) := claim.req.oauthIdentity

/-- The cert that the claim writes. -/
def cert : WaCert where
  waId := rootWaIdForIdentity claim.applied.identityKeyId
  name := (trimmed claim.req.ownerUsername).getD ("root:" ++ claim.applied.identityKeyId)
  role := .root
  oauthProvider := claim.oauthIdentity.map (·.1)
  oauthExternalId := claim.oauthIdentity.map (·.2)
  oauthLinks := none
  created := claim.now
  active := true

/-- The answer of a claim that went through. -/
def response : SetupRootResponse where
  waId := rootWaIdForIdentity claim.applied.identityKeyId
  identityKeyId := claim.applied.identityKeyId
  cohortScope := claim.applied.cohortScope
  role := "SYSTEM_ADMIN"
  ownerBindingAttestationId := claim.applied.attestationId

end Claim

/-- Where a request stands. -/
inductive Phase where
  | called (body : Body)
  /-- The placeholder is read; is there a ROOT? -/
  | probing (body : Body) (placeholder : Option WaCert)
  /-- The PIN is to be checked. -/
  | proving (req : SetupRootRequest) (placeholder : Option WaCert)
  /-- The owner binding is to be written. -/
  | applying (req : SetupRootRequest) (placeholder : Option WaCert) (cohortScope : String)
      (ownerBinding : SignedOwnerBinding)
  /-- Is there a ROOT by now? -/
  | rechecking (req : SetupRootRequest) (placeholder : Option WaCert) (applied : Applied)
  /-- The ROOT is to be written. -/
  | claiming (claim : Claim)
  /-- The PIN is to be cleared. -/
  | clearing (claim : Claim)
  /-- `live_oauth_holders`: the roles whose page is to be read, and the holders so far. -/
  | scanning (claim : Claim) (provider externalId : String) (roles : List WaRole)
      (holders : List WaCert)
  /-- The certs that are to be retired. -/
  | retiring (claim : Claim) (others : List WaCert)
  | told (reply : Reply)
deriving DecidableEq

/-- What a step meets: the error of its store call, if that fails, the time, and what becomes of
    the owner binding (`apply_signed_owner_binding`). -/
structure Env where
  storeError : Option String := none
  now : Int := 0
  applied : Except OwnershipError String := .ok ""

/-- `auth.claim.already_claimed`. -/
def alreadyClaimed : Refusal :=
  ⟨409, "auth.claim.already_claimed", "root already claimed; first-run setup is closed"⟩

/-- `auth.claim.store_unavailable`. -/
def storeUnavailable (e : String) : Refusal :=
  ⟨503, "auth.claim.store_unavailable", "store: " ++ e⟩

/-- The route answers an error, or goes on. -/
def refusedOr {α : Type} (x : Except Refusal α) (k : α → Phase) : Phase :=
  match x with
  | .error e => .told (.refused e)
  | .ok a => k a

/-- A ROOT exists, and nothing was there to be adopted. -/
def closed (rows : Rows) (placeholder : Option WaCert) : Bool :=
  !(listByRole .root 1 rows).isEmpty && placeholder.isNone

/-- The ROOT probe, the body and the NodeCode. -/
def probe (L : Lib) (env : Env) (body : Body) (placeholder : Option WaCert) (node : Node) :
    Phase :=
  match env.storeError with
  | some e => .told (.refused (storeUnavailable e))
  | none =>
    if closed node.rows placeholder then .told (.refused alreadyClaimed)
    else
      refusedOr body.parse fun req =>
      refusedOr (verifyNodeCodePin L req) fun _ => .proving req placeholder

/-- The PIN, and what the body has to carry. The PIN is not consumed. -/
def prove (L : Lib) (req : SetupRootRequest) (placeholder : Option WaCert) (node : Node) : Phase :=
  refusedOr (verifyClaimPin node.claimPin req) fun _ =>
  refusedOr (validateCohortScope L req) fun cohortScope =>
  refusedOr (requireOwnerBinding req) fun ownerBinding =>
  .applying req placeholder cohortScope ownerBinding

/-- The owner binding. -/
def apply (env : Env) (req : SetupRootRequest) (placeholder : Option WaCert)
    (cohortScope : String) (ownerBinding : SignedOwnerBinding) : Phase :=
  match env.applied with
  | .ok attestationId =>
    .rechecking req placeholder ⟨ownerBinding.attestingKeyId, cohortScope, attestationId⟩
  | .error e => .told (.refused
      ⟨e.status, "auth.claim.owner_binding_rejected", "owner-binding rejected: " ++ e.display⟩)

/-- The re-check, which a store that fails passes. -/
def recheck (env : Env) (req : SetupRootRequest) (placeholder : Option WaCert) (applied : Applied)
    (node : Node) : Phase :=
  if env.storeError.isNone ∧ closed node.rows placeholder then .told (.refused alreadyClaimed)
  else .claiming ⟨req, applied, env.now⟩

/-- The holders of the pair on the next page. -/
def holdersOn (rows : Rows) (role : WaRole) (provider externalId : String) : List WaCert :=
  (listByRole role 128 rows).filter (AuthStore.WaStore.holdsPair provider externalId)

/-- The scan for the other holders: a page, or its end. A page that fails ends it with nothing
    retired. -/
def scan (env : Env) (claim : Claim) (provider externalId : String) (holders : List WaCert)
    (node : Node) : List WaRole → Phase
  | [] => .retiring claim (holders.filter (·.waId ≠ claim.cert.waId))
  | role :: roles =>
    match env.storeError with
    | some _ => .told (.created claim.response)
    | none =>
      .scanning claim provider externalId roles
        (holders ++ holdersOn node.rows role provider externalId)

/-- The next step of a request. -/
def Phase.advance (L : Lib) (env : Env) (phase : Phase) (node : Node) : Node × Phase :=
  match phase with
  | .called body =>
    (node, .probing body
      (if env.storeError.isSome then none else adoptableOauthPlaceholder node.rows))
  | .probing body placeholder => (node, probe L env body placeholder node)
  | .proving req placeholder => (node, prove L req placeholder node)
  | .applying req placeholder cohortScope ownerBinding =>
    (node, apply env req placeholder cohortScope ownerBinding)
  | .rechecking req placeholder applied => (node, recheck env req placeholder applied node)
  | .claiming claim =>
    match env.storeError with
    | some e => (node, .told (.refused (storeUnavailable e)))
    | none => ({ node with rows := node.rows.upsert claim.cert }, .clearing claim)
  | .clearing claim =>
    ({ node with claimPin := none },
      match claim.oauthIdentity with
      | some (provider, externalId) =>
        .scanning claim provider externalId [.root, .authority, .observer] []
      | none => .told (.created claim.response))
  | .scanning claim provider externalId roles holders =>
    (node, scan env claim provider externalId holders node roles)
  | .retiring claim [] => (node, .told (.created claim.response))
  | .retiring claim (other :: others) =>
    -- a cert that could not be retired is logged
    if env.storeError.isSome then (node, .retiring claim others)
    else ({ node with rows := node.rows.setActive other.waId false }, .retiring claim others)
  | .told reply => (node, .told reply)

/-- The claims that reach one node, side by side. -/
def setupServer (L : Lib) : System Node Phase Body Env where
  spawn body node := (node, .called body)
  advance env phase node := phase.advance L env node

/-- A node, and no requests. -/
def start (node : Node) : Config Node Phase := ⟨node, []⟩

end CirisServer.SetupRoot

/-!
## What the first claim writes of its owner

`POST /v1/setup/root` again, with the directory: between the checks of the body and the re-check of
the ROOT, the route registers the fedID behind the signer, verifies the owner binding
(`verify_signed_owner_binding` of `src/auth/ownership.rs`), registers the owner's key
(`register_user_key`), puts the binding (`persist_user_signed_owner_binding`) and the occurrences of
the roster proof. What the substrate computes, and what the directory answers, is given.
-/

namespace CirisServer.SetupRoot

open Interleave
open AuthStore (WaCert)

/-! ## The node, with its directory -/

/-- A `delegates_to` of an owner over this node. -/
structure OwnerBindingRow where
  attestationId : String
  attestingKeyId : String
  cohortScope : String
deriving DecidableEq

structure OwnedNode where
  node : Node
  keys : List KeyRecord
  ownerBindings : List OwnerBindingRow
  occurrences : List IdentityOccurrence
deriving DecidableEq

namespace OwnedNode

def lookupPublicKey (s : OwnedNode) (keyId : String) : Option KeyRecord :=
  s.keys.find? (·.keyId = keyId)

/-- A key that is registered already stays as it is. -/
def registerKey (s : OwnedNode) (record : KeyRecord) : OwnedNode :=
  if (s.lookupPublicKey record.keyId).isSome then s else { s with keys := s.keys ++ [record] }

/-- A binding that is there already stays as it is. -/
def putBinding (s : OwnedNode) (row : OwnerBindingRow) : OwnedNode :=
  if s.ownerBindings.any (·.attestationId = row.attestationId) then s
  else { s with ownerBindings := s.ownerBindings ++ [row] }

def putIdentityOccurrence (s : OwnedNode) (occurrence : IdentityOccurrence) : OwnedNode :=
  if occurrence ∈ s.occurrences then s
  else { s with occurrences := s.occurrences ++ [occurrence] }

end OwnedNode

/-! ## The owner binding -/

/-- The columns that the signed envelope mirrors. -/
structure RowMirror where
  attestationId : String
  attestingKeyId : String
  attestedKeyId : String
  cohortScope : String
  attestationType : String
  subjectKeyIds : List String

/-- What persist and verify compute. -/
structure Substrate where
  /-- `owner_binding::PURPOSE`. -/
  ownerBindingPurpose : String
  scopesAreInfraOnly : List String → Bool
  canonicalize : SignedOwnerBinding → Except String Unit
  verifyHybrid : SignedOwnerBinding → Except String Unit
  /-- `identity_type::set_contains`. -/
  identityTypeContains : String → String → Bool
  /-- `bind_subject_into_envelope`, of the registration envelope. -/
  bindSubject : SignedOwnerBinding → Except String Unit
  canonicalizeRegistration : SignedOwnerBinding → Except String Unit
  /-- `Emit::adopt`. -/
  adopt : SignedOwnerBinding → Except String RowMirror
  /-- `assemble_from_b64`. -/
  assemble : SignedOwnerBinding → Except String Unit

/-- `identity_type::USER`. -/
def user : String := "user"

/-- `attestation_type::DELEGATES_TO`. -/
def delegatesTo : String := "delegates_to"

def verifySignedOwnerBinding (P : Substrate) (L : Lib) (binding : SignedOwnerBinding) :
    Except OwnershipError Unit := do
  let envelope := binding.envelope
  ensure (envelope.nodeKeyId = L.nodeKeyId)
    (.validation "owner-binding does not attest THIS node (node_key_id mismatch)")
  ensure (envelope.delegationPurpose = P.ownerBindingPurpose)
    (.validation ("owner-binding delegation_purpose must be " ++ L.debug P.ownerBindingPurpose))
  ensure (P.scopesAreInfraOnly (envelope.scope.map trim)) .agencyScopeRefused
  ensure (envelope.attestingKeyId ≠ "" ∧ envelope.attestingKeyId = binding.attestingKeyId)
    (.validation ("owner-binding envelope attesting_key_id is empty or does not match the " ++
      "claiming user (binding.attesting_key_id)"))
  (P.canonicalize binding).mapError .canonicalize
  (P.verifyHybrid binding).mapError .verify

/-- The envelope that `register_user_key` has the directory register. -/
def registrationEnvelope (P : Substrate) (binding : SignedOwnerBinding) :
    Except OwnershipError Unit := do
  (P.bindSubject binding).mapError .sign
  (P.canonicalizeRegistration binding).mapError .canonicalize

/-- What `persist_user_signed_owner_binding` makes of the envelope, up to its store. -/
def adoptOwnerBinding (P : Substrate) (L : Lib) (binding : SignedOwnerBinding)
    (cohortScope : String) : Except OwnershipError OwnerBindingRow := do
  let adopted ← (P.adopt binding).mapError .validation
  let mirrorSays (field signed ours : String) : Except OwnershipError Unit :=
    ensure (signed = ours) (.validation ("owner-binding `" ++ field ++ "` is " ++ L.debug signed ++
      " in the envelope the owner SIGNED, but this node is applying it as " ++ L.debug ours ++
      ". Refused rather than reconciled: the signed value is the owner's statement and the local " ++
      "value is this node's, and silently preferring either one is how a claim gets applied to " ++
      "something its owner never agreed to (CIRISPersist#643)"))
  mirrorSays "attesting_key_id" adopted.attestingKeyId binding.attestingKeyId
  mirrorSays "attested_key_id" adopted.attestedKeyId L.nodeKeyId
  mirrorSays "cohort_scope" adopted.cohortScope cohortScope
  mirrorSays "attestation_type" adopted.attestationType delegatesTo
  ensure (L.nodeKeyId ∈ adopted.subjectKeyIds)
    (.validation ("owner-binding `subject_key_ids` [" ++
      ", ".intercalate (adopted.subjectKeyIds.map L.debug) ++ "] does not name this node (" ++
      L.nodeKeyId ++ "). `subject_key_ids` is what grants revocation authority, so a binding " ++
      "that confers authority over this node without naming it as a subject is authority this " ++
      "node can never withdraw"))
  (P.assemble binding).mapError .validation
  .ok ⟨adopted.attestationId, adopted.attestingKeyId, adopted.cohortScope⟩

/-- `roster_proof_about`: the part of a proof that speaks for the signer. -/
def rosterProofAbout (proof : RosterProof) (signer : String) : Option RosterProof :=
  let identity := proof.identityKeyRecord
  let aboutSigner (o : IdentityOccurrence) : Bool :=
    o.occurrenceKeyId = signer && o.identityKeyId = identity.keyId
  if identity.identityType = user ∧ identity.keyId ≠ signer ∧ !proof.occurrences.isEmpty ∧
      proof.occurrences.all aboutSigner then some proof
  else none

/-! ## The steps -/

/-- A claim whose body has passed its checks. -/
structure Applying where
  req : SetupRootRequest
  placeholder : Option WaCert
  cohortScope : String
  ownerBinding : SignedOwnerBinding
deriving DecidableEq

namespace Applying

variable (x : Applying)

def rosterProof : Option RosterProof :=
  x.req.ownerRosterProof.bind (rosterProofAbout · x.ownerBinding.attestingKeyId)

def rosterOccurrences : List IdentityOccurrence := (x.rosterProof.map (·.occurrences)).getD []

/-- The binding is persisted, and the route goes on. -/
def applied (attestationId : String) : Applied :=
  ⟨x.ownerBinding.attestingKeyId, x.cohortScope, attestationId⟩

end Applying

/-- Where a request stands. The owner binding's one phase `.applying` is drawn out to four. -/
inductive OwnerPhase where
  | outer (phase : Phase)
  /-- The fedID's record is to be registered. -/
  | recording (x : Applying)
  /-- The binding is to be verified, and the owner's key to be looked up. -/
  | verifying (x : Applying)
  /-- The owner's key is to be registered. -/
  | registering (x : Applying)
  /-- The binding is to be put. -/
  | persisting (x : Applying)
  /-- The occurrences that are still to be put. -/
  | occurring (x : Applying) (attestationId : String) (occurrences : List IdentityOccurrence)
deriving DecidableEq

/-- What a step meets: what the directory answers to its call. -/
structure OwnerEnv extends Env where
  lookup : Except String Unit := .ok ()
  register : Except String Unit := .ok ()
  put : Except String Unit := .ok ()

/-- The rest of the route, into the phases of the owner binding. -/
def OwnerPhase.enter : Phase → OwnerPhase
  | .applying req placeholder cohortScope ownerBinding =>
    .recording ⟨req, placeholder, cohortScope, ownerBinding⟩
  | phase => .outer phase

/-- The answer to a binding that is refused. -/
def OwnerPhase.rejected (e : OwnershipError) : OwnerPhase :=
  .outer (.told (.refused
    ⟨e.status, "auth.claim.owner_binding_rejected", "owner-binding rejected: " ++ e.display⟩))

/-- The fedID's record; what the directory refuses is logged. -/
def record (env : OwnerEnv) (x : Applying) (s : OwnedNode) : OwnedNode :=
  match x.rosterProof, env.register with
  | some proof, .ok () => s.registerKey proof.identityKeyRecord
  | _, _ => s

/-- A look-up that fails counts as finding nothing. -/
def holdsUser (P : Substrate) (env : OwnerEnv) (x : Applying) (s : OwnedNode) : Bool :=
  match env.lookup, s.lookupPublicKey x.ownerBinding.attestingKeyId with
  | .ok (), some existing => P.identityTypeContains existing.identityType user
  | _, _ => false

def verify (P : Substrate) (L : Lib) (env : OwnerEnv) (x : Applying) (s : OwnedNode) : OwnerPhase :=
  match verifySignedOwnerBinding P L x.ownerBinding with
  | .error e => .rejected e
  | .ok () => if holdsUser P env x s then .persisting x else .registering x

def register (P : Substrate) (env : OwnerEnv) (x : Applying) (s : OwnedNode) :
    OwnedNode × OwnerPhase :=
  match registrationEnvelope P x.ownerBinding, env.register with
  | .error e, _ => (s, .rejected e)
  | .ok (), .error e => (s, .rejected (.persist e))
  | .ok (), .ok () => (s.registerKey ⟨x.ownerBinding.attestingKeyId, user⟩, .persisting x)

def persist (P : Substrate) (L : Lib) (env : OwnerEnv) (x : Applying) (s : OwnedNode) :
    OwnedNode × OwnerPhase :=
  match adoptOwnerBinding P L x.ownerBinding x.cohortScope, env.put with
  | .error e, _ => (s, .rejected e)
  | .ok _, .error e => (s, .rejected (.persist e))
  | .ok row, .ok () => (s.putBinding row, .occurring x row.attestationId x.rosterOccurrences)

/-- The next step of a request. -/
def OwnerPhase.advance (P : Substrate) (L : Lib) (env : OwnerEnv) (phase : OwnerPhase)
    (s : OwnedNode) : OwnedNode × OwnerPhase :=
  match phase with
  | .outer phase =>
    let (node, phase) := phase.advance L env.toEnv s.node
    ({ s with node }, .enter phase)
  | .recording x => (record env x s, .verifying x)
  | .verifying x => (s, verify P L env x s)
  | .registering x => register P env x s
  | .persisting x => persist P L env x s
  | .occurring x attestationId [] =>
    (s, .outer (.rechecking x.req x.placeholder (x.applied attestationId)))
  | .occurring x attestationId (occurrence :: occurrences) =>
    (match env.put with
      | .ok () => s.putIdentityOccurrence occurrence
      | .error _ => s,
      .occurring x attestationId occurrences)

/-- The claims that reach one node, side by side. -/
def ownerServer (P : Substrate) (L : Lib) : System OwnedNode OwnerPhase Body OwnerEnv where
  spawn body s := (s, .outer (.called body))
  advance env phase s := phase.advance P L env s

end CirisServer.SetupRoot
