import CirisServer.ForStd.Members
import CirisServer.Native.TraceCapture

/-!
# What is signed and what is shipped

`crates/ciris-lens-core/src/capture/seal.rs` builds the envelope whose canonical bytes are signed,
and `batch.rs` the wire JSON of the signed trace. The canonicalizers are persist's.
-/

namespace CirisServer

/-- `json!` of an optional text. -/
def Json.ofOption : Option String → Json
  | some s => .str s
  | none => .null

/-- `Value::is_null`. -/
def Json.isNull : Json → Bool
  | .null => true
  | _ => false

namespace TraceSeal

open TraceCapture

/-- `is_empty`. -/
def isEmpty : Json → Bool
  | .null => true
  | .str s => s == ""
  | .arr items => items.isEmpty
  | .obj members => members.isEmpty
  | .bool _ | .num _ => false

mutual

/-- `strip_empty`. -/
def stripEmpty : Json → Json
  | .obj members => .obj (stripMembers members)
  | .arr items => .arr (stripItems items)
  | .null => .null
  | .bool b => .bool b
  | .num n => .num n
  | .str s => .str s

/-- The members of a stripped object. A map's keys are distinct, so each `insert` adds a member. -/
def stripMembers : List (String × Json) → List (String × Json)
  | [] => []
  | (k, v) :: rest =>
    if isEmpty (stripEmpty v) then stripMembers rest else (k, stripEmpty v) :: stripMembers rest

/-- The items of a stripped array. -/
def stripItems : List Json → List Json
  | [] => []
  | v :: rest => if v.isNull then stripItems rest else stripEmpty v :: stripItems rest

end

/-- `TraceComponent::data_with_attempt_index`. -/
def dataWithAttemptIndex (c : TraceComponent) : Json :=
  let map :=
    match c.data with
    | .obj m => m
    | _ => []
  .obj (Members.insert "attempt_index" (.num (.int c.attemptIndex.toNat)) map)

/-- A component of the envelope. -/
def canonicalComponent (trace : CompleteTrace) (c : TraceComponent) : Json :=
  let agentIdHash := if c.agentIdHash == "" then trace.agentIdHash else c.agentIdHash
  stripEmpty (.obj
    [("agent_id_hash", .str agentIdHash),
      ("component_type", .str c.componentType.asWireStr),
      ("data", dataWithAttemptIndex c),
      ("event_type", .str c.eventType.asWireStr),
      ("timestamp", .str c.timestamp)])

/-- `build_canonical_envelope`. -/
def buildCanonicalEnvelope (trace : CompleteTrace) : Json :=
  .obj (
    [("trace_id", .str trace.traceId),
      ("thought_id", .str trace.thoughtId),
      ("task_id", .ofOption trace.taskId),
      ("agent_id_hash", .str trace.agentIdHash),
      ("started_at", .str trace.startedAt),
      ("completed_at", .ofOption trace.completedAt),
      ("trace_level", .ofOption trace.traceLevel),
      ("trace_schema_version", .str trace.traceSchemaVersion),
      ("components", .arr (trace.components.map (canonicalComponent trace)))] ++
    (match trace.deploymentProfile with
      | some dp => [("deployment_profile", dp)]
      | none => []))

/-- `obj.insert(name, json!(v))`, where there is a `v`. -/
def insertSome (name : String) (v : Option String) (obj : List (String × Json)) :
    List (String × Json) :=
  match v with
  | some v => Members.insert name (.str v) obj
  | none => obj

/-- `trace_to_wire_json`. -/
def traceToWireJson (trace : CompleteTrace) : Json :=
  match buildCanonicalEnvelope trace with
  | .obj obj =>
    let obj := Members.insert "signature" (.ofOption trace.signature) obj
    let obj := Members.insert "signature_key_id" (.ofOption trace.signatureKeyId) obj
    let obj := insertSome "signature_ml_dsa_65" trace.signatureMlDsa65 obj
    let obj := insertSome "pubkey_ml_dsa_65" trace.pubkeyMlDsa65 obj
    let obj := insertSome "pqc_key_id" trace.pqcKeyId obj
    .obj obj
  | other => other

end TraceSeal

end CirisServer
