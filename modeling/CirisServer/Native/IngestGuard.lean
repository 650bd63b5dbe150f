import CirisServer.ForStd.Utf8
import CirisServer.Native.Json

/-!
# The check on a batch of traces

`crates/ciris-lens-core/src/ingest_guard.rs`: a batch that holds a call of the mock model is
refused, on its bytes. What the bytes parse to (`serde_json::from_slice`) is a parameter.
-/

namespace CirisServer

/-- `Value::as_array`. -/
def Json.asArray : Json → Option (List Json)
  | .arr items => some items
  | _ => none

namespace IngestGuard

def mockLlmModel : String := "mock-model"

def llmCallEvent : String := "LLM_CALL"

/-- `slice::windows`. -/
def windows (n : Nat) (bytes : List UInt8) : List (List UInt8) :=
  (List.range (bytes.length + 1 - n)).map fun i => (bytes.drop i).take n

def contains (hay needle : List UInt8) : Bool := (windows needle.length hay).any (· == needle)

def isMockLlmComponent (c : Json) : Bool :=
  (c.get? "event_type").bind Json.asStr = some llmCallEvent &&
    ((c.get? "data").bind (Json.get? · "model")).bind Json.asStr = some mockLlmModel

/-- The components of an event's trace. -/
def componentsOf (e : Json) : Option (List Json) :=
  ((e.get? "trace").bind (Json.get? · "components")).bind Json.asArray

def hasMockLlmCall (v : Json) : Bool :=
  match (v.get? "events").bind Json.asArray with
  | none => false
  | some events => (events.filterMap componentsOf).flatten.any isMockLlmComponent

/-- `batch_has_mock_llm_call`: the batch is not parsed if its bytes cannot spell the model. -/
def batchHasMockLlmCall (fromSlice : List UInt8 → Option Json) (body : List UInt8) : Bool :=
  if !contains body (utf8 mockLlmModel) && !contains body (utf8 "\\u") then false
  else
    match fromSlice body with
    | none => false
    | some v => hasMockLlmCall v

end IngestGuard
end CirisServer
