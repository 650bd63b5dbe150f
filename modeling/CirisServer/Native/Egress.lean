import CirisServer.ForStd.Members
import CirisServer.Native.Json

/-!
# Egress filtering

`crates/ciris-lens-core/src/config/egress.rs`: what an upstream's filter leaves of a batch of
traces. The batch is JSON of any shape; a part that is missing or has another type than the filter
looks for is left as it is. `DetectionSeverity::from_db_str` is persist's.
-/

namespace CirisServer

/-- A change to the members of an object; any other value stays. -/
def Json.onObj (f : List (String × Json) → List (String × Json)) : Json → Json
  | .obj members => .obj (f members)
  | other => other

/-- A change to the items of an array; any other value stays. -/
def Json.onArr (f : List Json → List Json) : Json → Json
  | .arr items => .arr (f items)
  | other => other

namespace Egress

inductive TraceLevel where
  | generic | detailed | fullTraces
deriving DecidableEq

inductive DetectionSeverity where
  | info | warning | critical
deriving DecidableEq

structure EgressFilter where
  traceLevel : TraceLevel
  minSeverity : Option DetectionSeverity
  includeDetectionEvents : Bool
  includeScores : Bool
  redactUserPrompts : Bool
  redactCompletions : Bool

/-- `EgressFilter::new`. -/
def EgressFilter.new (traceLevel : TraceLevel) : EgressFilter where
  traceLevel
  minSeverity := none
  includeDetectionEvents := true
  includeScores := true
  redactUserPrompts := true
  redactCompletions := true

/-- `SCORE_FIELDS`. -/
def scoreFields : List String := ["conformity", "k_eff", "n_eff", "cohort_id", "phase"]

/-- `DETECTION_COMPONENT_TYPES`. -/
def detectionComponentTypes : List String := ["llm_call"]

def severityOrd : DetectionSeverity → Nat
  | .info => 0
  | .warning => 1
  | .critical => 2

def traceLevelWireStr : TraceLevel → String
  | .generic => "generic"
  | .detailed => "detailed"
  | .fullTraces => "full_traces"

/-! ## Components -/

/-- What `components.retain` drops when detection events are left out. -/
def isDetection (c : Json) : Bool :=
  detectionComponentTypes.contains (((c.get? "component_type").bind Json.asStr).getD "")

/-- One redaction: where `redact` is set, a value that is there becomes null. -/
def redactField (redact : Bool) (field : String) (data : List (String × Json)) :
    List (String × Json) :=
  if redact && Members.contains field data then Members.insert field .null data else data

/-- What the loop over the components does to one component's data. -/
def filterData (filter : EgressFilter) (data : List (String × Json)) : List (String × Json) :=
  let data := if filter.includeScores then data else Members.removeAll scoreFields data
  let data := redactField filter.redactUserPrompts "user_prompt" data
  redactField filter.redactCompletions "llm_completion" data

/-- What the loop over the components does to one component. -/
def filterComponent (filter : EgressFilter) : Json → Json :=
  Json.onObj (Members.modify "data" (Json.onObj (filterData filter)))

/-- The components of a trace after the filter. -/
def filterComponents (filter : EgressFilter) (components : List Json) : List Json :=
  let components :=
    if filter.includeDetectionEvents then components
    else components.filter fun c => !isDetection c
  components.map (filterComponent filter)

/-- `apply_component_filters`. -/
def applyComponentFilters (filter : EgressFilter) : Json → Json :=
  Json.onObj (Members.modify "components" (Json.onArr (filterComponents filter)))

/-! ## Batches -/

/-- What `events.retain` keeps at a severity gate: an event without a severity, or with one that is
    not known, passes. -/
def passesSeverity (fromDbStr : String → Option DetectionSeverity) (min : DetectionSeverity)
    (ev : Json) : Bool :=
  match (ev.get? "severity").bind Json.asStr with
  | some sevStr =>
    match fromDbStr sevStr with
    | some s => decide (severityOrd min ≤ severityOrd s)
    | none => true
  | none => true

/-- What the loop over the events does to one event. -/
def filterEvent (filter : EgressFilter) : Json → Json :=
  Json.onObj fun objEv =>
    let objEv := Members.insert "trace_level" (.str (traceLevelWireStr filter.traceLevel)) objEv
    Members.modify "trace" (applyComponentFilters filter) objEv

/-- The events of a batch after the filter. -/
def filterEvents (fromDbStr : String → Option DetectionSeverity) (filter : EgressFilter)
    (events : List Json) : List Json :=
  let events :=
    match filter.minSeverity with
    | some min => events.filter (passesSeverity fromDbStr min)
    | none => events
  events.map (filterEvent filter)

/-- `apply_egress_filter`. -/
def applyEgressFilter (fromDbStr : String → Option DetectionSeverity) (filter : EgressFilter) :
    Json → Json :=
  Json.onObj fun obj =>
    let obj := Members.insert "trace_level" (.str (traceLevelWireStr filter.traceLevel)) obj
    Members.modify "events" (Json.onArr (filterEvents fromDbStr filter)) obj

end Egress

end CirisServer
