import Mathlib.Data.List.Sort
import Mathlib.Data.Prod.Lex
import Mathlib.Data.String.Basic
import CirisServer.Native.TraceCapture

/-!
# Consent to emit traces

`crates/ciris-lens-core/src/capture/consent.rs`: the consent of a key is what its newest row on
the consent dimension says, and operator config where there is none. Then `prepare_for_seal` of
`capture/client.rs`, which asks for it whenever a trace is sealed.

The directory answers with the rows of every page, or with the error of the page that failed.
-/

namespace CirisServer.Consent

open TraceCapture

/-- `CONSENT_DIMENSION`. -/
def consentDimension : String := "consent:community_trust:v1"

/-- What the resolution reads of an attestation row. -/
structure Attestation where
  attestationId : String
  attestationType : String
  assertedAt : Int
  attestationEnvelope : Json
deriving DecidableEq

namespace Attestation

/-- The dimension that the row's envelope names. -/
def dimension (a : Attestation) : Option String :=
  (a.attestationEnvelope.get? "dimension").bind Json.asStr

/-- When the row was asserted, ties by its id. -/
def stamp (a : Attestation) : Int ×ₗ String := toLex (a.assertedAt, a.attestationId)

/-- `sort_by` of `resolve_grant`: the newest first. -/
def newestFirst (a b : Attestation) : Prop := b.stamp ≤ a.stamp

instance : DecidableRel newestFirst := fun a b => inferInstanceAs (Decidable (b.stamp ≤ a.stamp))

end Attestation

inductive GrantState where
  | inForce (assertedAt : Int)
  | withdrawn (since : Int)
  | absent
deriving DecidableEq

structure ConsentConfig where
  consentTimestamp : Option String
deriving DecidableEq

/-- `effective_timestamp`. -/
def ConsentConfig.effectiveTimestamp (c : ConsentConfig) : Option String :=
  c.consentTimestamp.filter (· ≠ "")

inductive ConsentResolution where
  | cegGrant (assertedAt : Int)
  | configFallback (consentTimestamp : String)
  | withdrawn (since : Int)
  | noConsent
deriving DecidableEq

/-- The rows of the consent dimension. -/
def matching (rows : List Attestation) : List Attestation :=
  rows.filter fun a => a.dimension = some consentDimension

/-- What the newest row says. -/
def grantOf (newest : Attestation) : GrantState :=
  match newest.attestationType with
  | "scores" | "supersedes" => .inForce newest.assertedAt
  | "withdraws" | "recants" => .withdrawn newest.assertedAt
  -- a type that is not known counts as no row at all
  | _ => .absent

/-- `resolve_grant`. -/
def resolveGrant (rows : List Attestation) : GrantState :=
  match (matching rows).insertionSort Attestation.newestFirst with
  | [] => .absent
  | newest :: _ => grantOf newest

/-- `resolve_consent`. -/
def resolveConsent (grant : GrantState) (config : ConsentConfig) : ConsentResolution :=
  match grant with
  | .inForce assertedAt => .cegGrant assertedAt
  | .withdrawn t => .withdrawn t
  | .absent =>
    match config.effectiveTimestamp with
    | some ts => .configFallback ts
    | none => .noConsent

inductive ClientError where
  | consent (text : String)
deriving DecidableEq

/-- The rows by a key, as the directory of the engine lists them. -/
abbrev Directory := String → Except String (List Attestation)

/-- `resolve_consent_via_engine`. -/
def resolveConsentViaEngine (dir : Directory) (attestingKeyId : String) (config : ConsentConfig) :
    Except ClientError ConsentResolution :=
  match dir attestingKeyId with
  | .error e =>
    .error (.consent ("federation directory error reading consent attestations: " ++ e))
  | .ok rows => .ok (resolveConsent (resolveGrant rows) config)

/-! ## The client -/

structure CorrelationMetadata where
  deploymentRegion : Option String
  deploymentType : Option String
  agentRole : Option String
  agentTemplate : Option String
  userLocation : Option String
  userTimezone : Option String
  userLatitude : Option String
  userLongitude : Option String

namespace CorrelationMetadata

/-- The members, by their names on the wire. -/
def members (c : CorrelationMetadata) : List (String × Option String) :=
  [("deployment_region", c.deploymentRegion), ("deployment_type", c.deploymentType),
    ("agent_role", c.agentRole), ("agent_template", c.agentTemplate),
    ("user_location", c.userLocation), ("user_timezone", c.userTimezone),
    ("user_latitude", c.userLatitude), ("user_longitude", c.userLongitude)]

def isEmpty (c : CorrelationMetadata) : Bool := c.members.all (·.2.isNone)

/-- `to_value`: a member that is absent is left out. -/
def toValue (c : CorrelationMetadata) : Json :=
  .obj (c.members.filterMap fun m => m.2.map fun v => (m.1, .str v))

end CorrelationMetadata

structure BatchProvenance where
  batchTimestamp : String
  consentTimestamp : String
  traceLevel : String
  traceSchemaVersion : String
  correlationMetadata : Option Json

structure CaptureClient where
  traceLevel : String
  traceSchemaVersion : String
  correlation : Option CorrelationMetadata
  deploymentProfile : Option Json
  consentAttestingKeyId : Option String
  consentConfig : ConsentConfig

inductive CaptureEventOutcome where
  | opened
  | appended
  | rejected (raw : String)
  | consentBlocked (reason : String)

inductive PrepareSealOutcome where
  | notSealing (outcome : CaptureEventOutcome)
  | readyToSeal (trace : CompleteTrace) (provenance : BatchProvenance)
      (deploymentProfile : Option Json)

/-- The directory of the engine, and the time as `chrono` writes it. -/
structure Env where
  dir : Directory
  now : Int
  toRfc3339 : Int → String

namespace CaptureClient

/-- The consent at a seal: of the key that the client names, or of operator config alone. -/
def consentResolution (client : CaptureClient) (env : Env) :
    Except ClientError ConsentResolution :=
  match client.consentAttestingKeyId with
  | some keyId => resolveConsentViaEngine env.dir keyId client.consentConfig
  | none => .ok (resolveConsent .absent client.consentConfig)

/-- A trace that is sealed under a consent of that time. -/
def readyToSeal (client : CaptureClient) (env : Env) (trace : CompleteTrace)
    (consentTimestamp : String) : PrepareSealOutcome :=
  .readyToSeal trace
    { batchTimestamp := env.toRfc3339 env.now
      consentTimestamp
      traceLevel := client.traceLevel
      traceSchemaVersion := client.traceSchemaVersion
      correlationMetadata := (client.correlation.filter (!·.isEmpty)).map (·.toValue) }
    client.deploymentProfile

/-- What becomes of a sealed trace. -/
def gateSeal (client : CaptureClient) (env : Env) (trace : CompleteTrace) :
    Except ClientError PrepareSealOutcome := do
  match ← client.consentResolution env with
  | .cegGrant assertedAt => return client.readyToSeal env trace (env.toRfc3339 assertedAt)
  | .configFallback ts => return client.readyToSeal env trace ts
  | .withdrawn _ => return .notSealing (.consentBlocked "withdrawn")
  | .noConsent => return .notSealing (.consentBlocked "no_consent")

/-- `prepare_for_seal`: the partial traces after it, and its result. -/
def prepareForSeal (client : CaptureClient) (env : Env) (store : PartialTraceStore)
    (event : InboundEvent) : PartialTraceStore × Except ClientError PrepareSealOutcome :=
  let (store, outcome) := store.capture event event.thoughtId
  match outcome with
  | .opened => (store, .ok (.notSealing .opened))
  | .appended => (store, .ok (.notSealing .appended))
  | .unknownEvent raw => (store, .ok (.notSealing (.rejected raw)))
  | .sealed trace => (store, client.gateSeal env trace)

end CaptureClient

end CirisServer.Consent
