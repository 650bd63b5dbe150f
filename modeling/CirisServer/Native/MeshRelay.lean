import CirisServer.ForStd.Except
import CirisServer.ForStd.SeenQueue
import CirisServer.Native.Json

/-!
# The mesh control responder

`src/mesh_relay.rs`, `MeshControlResponder::handle`: a control envelope arrives over the mesh,
signed by its owner. The responder verifies the signature against the directory, checks the
target and the freshness, spends the nonce, and only then asks whether the signer acts for
this node's owner; an allowed operation is dispatched into the node's own router.

The wire formats and what the node's engine answers at the time are parameters. The clock and
the envelope's `ts` are `i64` seconds, and the subtraction wraps as it does in a release
build.
-/

namespace CirisServer

/-- `RELAY_FRESHNESS_SECS`. -/
def relayFreshnessSecs : Int64 := 300

/-- `REPLAY_GUARD_CAP`. -/
def replayGuardCap : Nat := 4096

/-- `RELAYABLE`: the closed allow-list. -/
def relayable : List (String × String) :=
  [("POST", "/v1/federation/announce"),
   ("POST", "/v1/federation/peering"),
   ("GET", "/v1/federation/self-key-record"),
   ("GET", "/v1/setup/owned-nodes")]

/-- `is_relayable`. -/
def isRelayable (method path : String) : Bool := relayable.contains (method, path)

/-- The inner envelope the owner signs. -/
structure ControlEnvelope where
  v : UInt8
  targetKeyId : String
  method : String
  path : String
  body : Json
  nonce : String
  ts : Int64
deriving DecidableEq

/-- The opaque payload: signature headers, and the exact signed bytes in base64. -/
structure ControlPayload where
  headers : List (String × String)
  envelopeB64 : String
deriving DecidableEq

/-- A response body: the responder's own error, or what the dispatched handler wrote. -/
inductive WireBody where
  | error (message : String)
  | handler (bytes : String)
deriving DecidableEq

structure WireResponse where
  status : Nat
  payload : WireBody
deriving DecidableEq

/-- `wire_err`. -/
def wireErr (status : Nat) (message : String) : WireResponse := ⟨status, .error message⟩

/-- `VerifyError`. -/
inductive VerifyError where
  | missingHeader (header : String)
  | noDirectory
  | signatureInvalid (cause : String)
deriving DecidableEq

/-- The responder's answer to a signature that does not verify. -/
def VerifyError.response : VerifyError → WireResponse
  | .missingHeader h => wireErr 401 ("missing signature header " ++ h)
  | .noDirectory => wireErr 503 "no federation directory"
  | .signatureInvalid e => wireErr 401 ("owner signature verification failed: " ++ e)

/-- The wire formats: serde_json and base64. -/
structure RelayCodec where
  Bytes : Type
  parsePayload : Bytes → Except String ControlPayload
  decodeB64 : String → Except String Bytes
  parseEnvelope : Bytes → Except String ControlEnvelope

/-- The request dispatched into the node's router. -/
structure DispatchRequest where
  method : String
  path : String
  bearer : Option String
  body : Option Json
deriving DecidableEq

/-- What the node answers while one payload is handled. -/
structure RelayEnv (W : RelayCodec) where
  /-- `chrono::Utc::now().timestamp()`. -/
  now : Int64
  /-- `verify_request`, strict: the signer the headers prove for these bytes. -/
  verifyRequest : List (String × String) → W.Bytes → Except VerifyError String
  /-- `is_steward_bound`. -/
  owner : Option String
  /-- `signer_acts_for`. -/
  signerActsFor : String → String → Bool
  routerReady : Bool
  /-- A session bearer for the oldest active root certificate, if there is one. -/
  rootBearer : Except String (Option String)
  methodParses : String → Bool
  /-- Assembling the request can fail. -/
  assemble : DispatchRequest → Except String Unit
  /-- The router's status, and its body as far as it could be collected. -/
  router : DispatchRequest → Nat × Except String String

/-- The guard's key for an envelope. -/
def replayKey (signer : String) (env : ControlEnvelope) : String := signer ++ ":" ++ env.nonce

/-- `ts` is inside the freshness window, as the responder computes it. -/
def isFresh (now ts : Int64) : Bool := !(relayFreshnessSecs < (now - ts).abs)

namespace RelayEnv

variable {W : RelayCodec} (env : RelayEnv W) (nodeKeyId : String)

/-- Steps (1) to (5): decode, verify, parse, target, freshness. -/
def authenticate (payload : W.Bytes) : Except WireResponse (String × ControlEnvelope) := do
  let payload ← (W.parsePayload payload).mapError fun e =>
    wireErr 400 ("bad mesh control payload: " ++ e)
  let bytes ← (W.decodeB64 payload.envelopeB64).mapError fun e =>
    wireErr 400 ("bad envelope_b64: " ++ e)
  let caller ← (env.verifyRequest payload.headers bytes).mapError VerifyError.response
  let envelope ← (W.parseEnvelope bytes).mapError fun e =>
    wireErr 400 ("bad control envelope: " ++ e)
  ensure (envelope.targetKeyId = nodeKeyId) (wireErr 421
    ("control envelope targets " ++ envelope.targetKeyId ++ " but this node is " ++ nodeKeyId))
  ensure (isFresh env.now envelope.ts) (wireErr 401
    "control envelope outside the freshness window")
  .ok (caller, envelope)

/-- Steps (7) to (9), up to the request that goes into the router. -/
def authorize (caller : String) (envelope : ControlEnvelope) :
    Except WireResponse DispatchRequest := do
  let owner ← env.owner.elim (.error (wireErr 403
    "this node has no responsible party (owner-binding) — mesh control refused")) .ok
  ensure (env.signerActsFor caller owner) (wireErr 403
    "signer does not act for this node's owner — mesh control refused")
  ensure (isRelayable envelope.method envelope.path) (wireErr 403
    (envelope.method ++ " " ++ envelope.path ++ " is not a relayable control op"))
  ensure env.routerReady (wireErr 503 "mesh_dispatch_not_ready (v1 router not built yet)")
  let bearer ← env.rootBearer.mapError fun e => wireErr 503 ("wa_cert store: " ++ e)
  ensure (env.methodParses envelope.method) (wireErr 400 ("bad method " ++ envelope.method))
  let request : DispatchRequest :=
    { method := envelope.method, path := envelope.path, bearer
      body := if envelope.body = .null then none else some envelope.body }
  (env.assemble request).mapError fun e => wireErr 400 ("assemble dispatch request: " ++ e)
  .ok request

/-- The dispatched handler's answer. -/
def dispatch (request : DispatchRequest) : WireResponse :=
  match env.router request with
  | (status, .ok body) => ⟨status, .handler body⟩
  | (_, .error e) => wireErr 500 ("collect dispatched response: " ++ e)

end RelayEnv

/-- An envelope that went into the router, when, and on whose signature. -/
structure Dispatched where
  signer : String
  envelope : ControlEnvelope
  time : Int64
deriving DecidableEq

/-- `MeshControlResponder::handle`. The nonce is spent before the signer's authority is
    looked at. -/
def handle {W : RelayCodec} (nodeKeyId : String) (guard : SeenQueue String) (env : RelayEnv W)
    (payload : W.Bytes) : SeenQueue String × WireResponse × Option Dispatched :=
  match env.authenticate nodeKeyId payload with
  | .error response => (guard, response, none)
  | .ok (caller, envelope) =>
    match guard.admitKey replayGuardCap (replayKey caller envelope) with
    | (false, guard) =>
      (guard, wireErr 409 "control envelope replayed (nonce already seen)", none)
    | (true, guard) =>
      match env.authorize caller envelope with
      | .error response => (guard, response, none)
      | .ok request => (guard, env.dispatch request, some ⟨caller, envelope, env.now⟩)

end CirisServer
