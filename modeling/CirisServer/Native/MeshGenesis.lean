import CirisServer.ForStd.Except
import CirisServer.Native.GraphConfig

/-!
# The genesis bundle

`src/mesh_genesis.rs`, `verify_bundle`: a portable bundle of a trust root and the nodes that
serve it is checked against itself, offline. The charter is signed by a carried holder,
every serve node is blessed, rooted and granted, and a quorum of carried holders signed the
digest of the whole.

The bundle type, its digest and the hybrid signature check are persist's, the policy parser
and the majority verify's; they are the parameter `GenesisLib`. A bundle has the fields
`verify_bundle` reads; the heartbeat it only warns about is left out.
-/

namespace CirisServer

/-- A key record, as far as a bundle is verified. -/
structure KeyRecord where
  keyId : String
  pubkeyEd25519Base64 : String
  pubkeyMlDsa65Base64 : Option String
  scrubKeyId : String
  identityType : String
  capabilityRoles : List String
  registrationEnvelope : Json
deriving DecidableEq

/-- An attestation carried in a bundle. -/
structure CarriedAttestation where
  attestationId : String
  attestationType : AttestationType
  attestingKeyId : String
  attestedKeyId : String
  attestationEnvelope : Json
deriving DecidableEq

/-- One holder's signature over the bundle's digest. -/
structure GenesisAuthorization where
  holderKeyId : String
  signatureClassical : String
  signaturePqc : String
deriving DecidableEq

structure GenesisBundle where
  consensusProtocol : String
  holders : List KeyRecord
  serveNodes : List KeyRecord
  attestations : List CarriedAttestation
  authorizations : List GenesisAuthorization
deriving DecidableEq

/-- What `verify_bundle` calls of persist and of verify. -/
structure GenesisLib where
  /-- `authorization_digest`. -/
  authorizationDigest : GenesisBundle → Except String String
  /-- `verify_hybrid` under the strict policy: digest, the two signatures, the two keys. -/
  verifyHybrid : String → String → String → String → Option String → Except String Unit
  /-- `QuorumPolicy::parse`, its `m`. -/
  quorumPolicyM : String → Option Nat
  /-- `identity_type::set_contains`. -/
  setContains : String → String → Bool
  /-- `accord_genesis::strict_majority`. -/
  strictMajority : Nat → Nat
  strictMajority_spec : ∀ n, n < 2 * strictMajority n

/-- What is wrong with a charter. -/
inductive CharterFault where
  | signerNotCarried (signer : String)
  | scopeMissing (scope : String)
  | noPreRotation
  | digest (cause : String)
deriving DecidableEq

/-- What is wrong with the authorizations. -/
inductive AuthorizationFault where
  | policyUnreadable (consensusProtocol : String)
  | notAHolder (holder : String)
  | duplicate (holder : String)
  | hybridVerify (holder cause : String)
deriving DecidableEq

/-- `GenesisError`, the part verification raises. -/
inductive GenesisError where
  | noServeNode
  | serveNodeUnblessed (keyId : String)
  | serveNodeUnrooted (keyId : String)
  | noHolders
  | noCharter
  | charterInvalid (fault : CharterFault)
  | serveNodeUngranted (keyId : String)
  | quorumNotMet (present needed : Nat)
  | authorizationInvalid (fault : AuthorizationFault)
deriving DecidableEq

/-- `attestation_type::DELEGATES_TO`. -/
def delegatesTo : AttestationType := .other "delegates_to"

/-- `INFRA_SERVE`, the role, and `INFRA_SERVE_SCOPE`, the scope: one string. -/
def infraServe : String := "infra:serve"

/-- `INFRA_ATTEST_SCOPE`. -/
def infraAttest : String := "infra:attest"

/-- `CHARTER_ATTESTATION_ID`. -/
def charterAttestationId : String := "genesis-charter"

/-- `CHARTER_PRE_ROTATION_FIELD`. -/
def charterPreRotationField : String := "pre_rotation_commitment"

/-- `carries_infra_serve`: in the scrub-signed envelope, in the identity-type set, or among
    the lifted roles. -/
def carriesInfraServe (L : GenesisLib) (rec : KeyRecord) : Bool :=
  (match rec.registrationEnvelope.get? "roles" with
    | some (.arr roles) => roles.any fun r => r.asStr == some infraServe
    | _ => false) ||
  L.setContains rec.identityType infraServe || rec.capabilityRoles.contains infraServe

/-- `scope_has`. -/
def scopeHas (env : Json) (want : String) : Bool :=
  match env.get? "scope" with
  | some (.str s) => s == want
  | some (.arr items) => items.any fun v => v.asStr == some want
  | _ => false

/-- `char::is_ascii_hexdigit`. -/
def isAsciiHexdigit (c : Char) : Bool :=
  ('0' ≤ c && c ≤ '9') || ('a' ≤ c && c ≤ 'f') || ('A' ≤ c && c ≤ 'F')

/-- 64 hex digits. -/
def isCommitment (s : String) : Bool := s.utf8ByteSize = 64 && s.toList.all isAsciiHexdigit

/-- The charter's pre-rotation commitment, empty if it has none. -/
def CarriedAttestation.preRotation (charter : CarriedAttestation) : String :=
  ((charter.attestationEnvelope.get? charterPreRotationField).bind Json.asStr).getD ""

namespace GenesisBundle

variable (L : GenesisLib) (bundle : GenesisBundle)

/-- `charter_of`. -/
def charterOf : Option CarriedAttestation :=
  bundle.attestations.find? fun a =>
    a.attestationType = delegatesTo && a.attestationId = charterAttestationId

/-- `policy_m`: the M of the carried policy. -/
def policyM : Option Nat :=
  if "quorum:".toList.isPrefixOf bundle.consensusProtocol.toList then
    L.quorumPolicyM (String.ofList (bundle.consensusProtocol.toList.drop 7))
  else none

/-- The carried holder ids. -/
def holderIds : List String := bundle.holders.map (·.keyId)

/-- The record an authorization is checked against: the first with its holder's id. -/
def holderOf (auth : GenesisAuthorization) : Option KeyRecord :=
  bundle.holders.find? fun h => h.keyId = auth.holderKeyId

/-- The first pass over the serve nodes. -/
def checkServeNode (n : KeyRecord) : Except GenesisError Unit := do
  ensure (carriesInfraServe L n) (.serveNodeUnblessed n.keyId)
  ensure (bundle.holderIds.contains n.scrubKeyId) (.serveNodeUnrooted n.keyId)

/-- The charter's own checks. -/
def checkCharter (charter : CarriedAttestation) : Except GenesisError Unit := do
  ensure (bundle.holderIds.contains charter.attestingKeyId)
    (.charterInvalid (.signerNotCarried charter.attestingKeyId))
  [infraServe, infraAttest].forM fun want =>
    ensure (scopeHas charter.attestationEnvelope want) (.charterInvalid (.scopeMissing want))
  ensure (isCommitment charter.preRotation) (.charterInvalid .noPreRotation)

/-- `a` grants `infra:serve` to `n` in the name of the charter's signer. -/
def grantsServe (signer : String) (n : KeyRecord) (a : CarriedAttestation) : Bool :=
  a.attestationType = delegatesTo && a.attestingKeyId = signer && a.attestedKeyId = n.keyId &&
    scopeHas a.attestationEnvelope infraServe

/-- The second pass over the serve nodes. -/
def checkGrant (signer : String) (n : KeyRecord) : Except GenesisError Unit :=
  ensure (bundle.attestations.any (grantsServe signer n)) (.serveNodeUngranted n.keyId)

/-- The authorizations, one after the other; `seen` are the holders counted so far. -/
def checkAuthorizations (digest : String) :
    List GenesisAuthorization → List String → Except GenesisError Unit
  | [], _ => .ok ()
  | auth :: rest, seen =>
    match bundle.holderOf auth with
    | none => .error (.authorizationInvalid (.notAHolder auth.holderKeyId))
    | some holder => do
      ensure (!seen.contains auth.holderKeyId)
        (.authorizationInvalid (.duplicate auth.holderKeyId))
      (L.verifyHybrid digest auth.signatureClassical auth.signaturePqc holder.pubkeyEd25519Base64
        holder.pubkeyMlDsa65Base64).mapError fun e =>
          .authorizationInvalid (.hybridVerify auth.holderKeyId e)
      checkAuthorizations digest rest (seen ++ [auth.holderKeyId])

/-- The policy's M, or why there is none. -/
def carriedM : Except GenesisError Nat :=
  (bundle.policyM L).elim
    (.error (.authorizationInvalid (.policyUnreadable bundle.consensusProtocol))) .ok

/-- `verify_bundle_structure`: everything but the quorum count. -/
def verifyBundleStructure : Except GenesisError Unit := do
  ensure (!bundle.holders.isEmpty) .noHolders
  ensure (!bundle.serveNodes.isEmpty) .noServeNode
  bundle.serveNodes.forM (bundle.checkServeNode L)
  let charter ← (bundle.charterOf).elim (.error .noCharter) .ok
  bundle.checkCharter charter
  bundle.serveNodes.forM (bundle.checkGrant charter.attestingKeyId)
  let _ ← bundle.carriedM L
  let digest ← (L.authorizationDigest bundle).mapError fun e => .charterInvalid (.digest e)
  bundle.checkAuthorizations L digest bundle.authorizations []

/-- `authorizations_needed`: the policy's M, floored at a majority of the carried records. -/
def authorizationsNeeded : Except GenesisError Nat := do
  let m ← bundle.carriedM L
  .ok (max m (L.strictMajority bundle.holders.length))

/-- `verify_bundle`: structure and quorum. -/
def verifyBundle : Except GenesisError Unit := do
  bundle.verifyBundleStructure L
  let needed ← bundle.authorizationsNeeded L
  ensure (needed ≤ bundle.authorizations.length)
    (.quorumNotMet bundle.authorizations.length needed)

end GenesisBundle

end CirisServer
