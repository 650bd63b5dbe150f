import CirisServer.Native.Json

/-!
# Trace assembly

`crates/ciris-lens-core/src/capture/event.rs` and `partial.rs`: the events of the agent's stream
and the store that puts them together, thought by thought, until an `ACTION_RESULT` seals a trace.
The two tables are hash maps, as in the source; an attempt index is a `u32`.
-/

namespace CirisServer.TraceCapture

/-! ## The events -/

inductive ReasoningEventType where
  | thoughtStart | snapshotAndContext | dmaResults | idmaResult | aspdmaResult | tsaspdmaResult
  | verbSecondPassResult | conscienceResult | actionResult | llmCall | deferralRouted
  | deferralReceived | deferralResolved | gratitudeSignaled | creditGenerated
deriving DecidableEq

inductive ComponentType where
  | observation | context | rationale | verbSecondPass | conscience | action | llmCall
  | deferralRouted | deferralReceived | deferralResolved | gratitudeSignaled | creditGenerated
deriving DecidableEq

def ComponentType.asWireStr : ComponentType → String
  | observation => "observation"
  | context => "context"
  | rationale => "rationale"
  | verbSecondPass => "verb_second_pass"
  | conscience => "conscience"
  | action => "action"
  | llmCall => "llm_call"
  | deferralRouted => "deferral_routed"
  | deferralReceived => "deferral_received"
  | deferralResolved => "deferral_resolved"
  | gratitudeSignaled => "gratitude_signaled"
  | creditGenerated => "credit_generated"

/-- `ENUM_QUALIFIER`. -/
def enumQualifier : String := "ReasoningEvent."

namespace ReasoningEventType

/-- `ALL`, in declaration order. -/
def all : List ReasoningEventType :=
  [thoughtStart, snapshotAndContext, dmaResults, idmaResult, aspdmaResult, tsaspdmaResult,
    verbSecondPassResult, conscienceResult, actionResult, llmCall, deferralRouted,
    deferralReceived, deferralResolved, gratitudeSignaled, creditGenerated]

def asWireStr : ReasoningEventType → String
  | thoughtStart => "THOUGHT_START"
  | snapshotAndContext => "SNAPSHOT_AND_CONTEXT"
  | dmaResults => "DMA_RESULTS"
  | idmaResult => "IDMA_RESULT"
  | aspdmaResult => "ASPDMA_RESULT"
  | tsaspdmaResult => "TSASPDMA_RESULT"
  | verbSecondPassResult => "VERB_SECOND_PASS_RESULT"
  | conscienceResult => "CONSCIENCE_RESULT"
  | actionResult => "ACTION_RESULT"
  | llmCall => "LLM_CALL"
  | deferralRouted => "DEFERRAL_ROUTED"
  | deferralReceived => "DEFERRAL_RECEIVED"
  | deferralResolved => "DEFERRAL_RESOLVED"
  | gratitudeSignaled => "GRATITUDE_SIGNALED"
  | creditGenerated => "CREDIT_GENERATED"

def componentType : ReasoningEventType → ComponentType
  | thoughtStart => .observation
  | snapshotAndContext => .context
  | dmaResults | idmaResult | aspdmaResult | tsaspdmaResult => .rationale
  | verbSecondPassResult => .verbSecondPass
  | conscienceResult => .conscience
  | actionResult => .action
  | llmCall => .llmCall
  | deferralRouted => .deferralRouted
  | deferralReceived => .deferralReceived
  | deferralResolved => .deferralResolved
  | gratitudeSignaled => .gratitudeSignaled
  | creditGenerated => .creditGenerated

def sealsTrace (eventType : ReasoningEventType) : Bool := eventType == actionResult

/-- `ReasoningEventType::parse`: one `ReasoningEvent.` in front is passed over. -/
def parse (raw : String) : Option ReasoningEventType :=
  let bare := (raw.toList.dropPrefix? enumQualifier.toList).elim raw String.ofList
  all.find? fun ev => ev.asWireStr == bare

theorem asWireStr_injective {a b : ReasoningEventType} (h : a.asWireStr = b.asWireStr) :
    a = b := by
  revert h
  cases a <;> cases b <;> decide

theorem parse_asWireStr (ev : ReasoningEventType) : parse ev.asWireStr = some ev := by
  cases ev <;> decide

end ReasoningEventType

/-! ## Components and traces -/

structure TraceComponent where
  componentType : ComponentType
  eventType : ReasoningEventType
  timestamp : String
  attemptIndex : UInt32
  data : Json
  agentIdHash : String

/-- `TRACE_SCHEMA_VERSION`. -/
def traceSchemaVersion : String := "3.0.0"

structure CompleteTrace where
  traceId : String
  thoughtId : String
  taskId : Option String
  agentIdHash : String
  startedAt : String
  completedAt : Option String
  components : List TraceComponent
  signature : Option String
  signatureKeyId : Option String
  signatureMlDsa65 : Option String
  pubkeyMlDsa65 : Option String
  pqcKeyId : Option String
  traceLevel : Option String
  traceSchemaVersion : String
  deploymentProfile : Option Json

inductive CaptureOutcome where
  | opened
  | appended
  | sealed (trace : CompleteTrace)
  | unknownEvent (raw : String)

structure InboundEvent where
  eventType : String
  thoughtId : String
  taskId : Option String
  agentIdHash : String
  timestamp : String
  traceLevel : Option String
  data : Json

/-! ## The store -/

structure PartialTraceStore where
  /-- Active traces, by thought. -/
  active : Std.HashMap String CompleteTrace
  /-- The next attempt index, by thought and event type. -/
  attemptCounters : Std.HashMap (String × String) UInt32

namespace PartialTraceStore

def new : PartialTraceStore := ⟨∅, ∅⟩

/-- The trace a thought's first event opens, before its component is pushed. -/
def openedBy (ev : InboundEvent) (traceIdForNew : String) : CompleteTrace where
  traceId := traceIdForNew
  thoughtId := ev.thoughtId
  taskId := ev.taskId
  agentIdHash := ev.agentIdHash
  startedAt := ev.timestamp
  completedAt := none
  components := []
  signature := none
  signatureKeyId := none
  signatureMlDsa65 := none
  pubkeyMlDsa65 := none
  pqcKeyId := none
  traceLevel := ev.traceLevel
  traceSchemaVersion := traceSchemaVersion
  deploymentProfile := none

/-- `capture`: the store after it, and what it did. The increment of an attempt counter wraps. -/
def capture (s : PartialTraceStore) (ev : InboundEvent) (traceIdForNew : String) :
    PartialTraceStore × CaptureOutcome :=
  match ReasoningEventType.parse ev.eventType with
  | none => (s, .unknownEvent ev.eventType)
  | some eventType =>
    let key := (ev.thoughtId, eventType.asWireStr)
    let attemptIndex := s.attemptCounters.getD key 0
    let attemptCounters := s.attemptCounters.insert key (attemptIndex + 1)
    let component : TraceComponent :=
      { componentType := eventType.componentType
        eventType
        timestamp := ev.timestamp
        attemptIndex
        data := ev.data
        agentIdHash := ev.agentIdHash }
    let opened := !s.active.contains ev.thoughtId
    let trace := s.active[ev.thoughtId]?.getD (openedBy ev traceIdForNew)
    -- A late task id or trace level fills in what the opening event lacked.
    let trace :=
      { trace with
        taskId := trace.taskId.or ev.taskId
        traceLevel := trace.traceLevel.or ev.traceLevel
        components := trace.components ++ [component] }
    if eventType.sealsTrace then
      let trace := { trace with completedAt := some ev.timestamp }
      ({ active := (s.active.insert ev.thoughtId trace).erase ev.thoughtId
         attemptCounters := attemptCounters.filter fun key _ => key.1 != ev.thoughtId },
        .sealed trace)
    else
      ({ active := s.active.insert ev.thoughtId trace, attemptCounters },
        if opened then .opened else .appended)

/-- Whether a trace that started at `startedAt` has outlived `maxAgeSecs` at `now`, or says of its
    start nothing that chrono reads. `num_seconds` drops the fraction. -/
def stale (parseFromRfc3339 : String → Option Int) (now maxAgeSecs : Int)
    (startedAt : String) : Bool :=
  match parseFromRfc3339 startedAt with
  | some started => maxAgeSecs < (now - started).tdiv nanosPerSec
  | none => true

/-- One turn of the purge's loop. -/
def purge (s : PartialTraceStore) (tid : String) : PartialTraceStore where
  active := s.active.erase tid
  attemptCounters := s.attemptCounters.filter fun key _ => key.1 != tid

/-- `orphan_sweep`: the store after it, and how many traces it purged. -/
def orphanSweep (parseFromRfc3339 : String → Option Int) (s : PartialTraceStore)
    (now maxAgeSecs : Int) : PartialTraceStore × Nat :=
  let before := s.active.size
  let purgedThoughts :=
    (s.active.toList.filter fun entry =>
      stale parseFromRfc3339 now maxAgeSecs entry.2.startedAt).map (·.1)
  let s := purgedThoughts.foldl purge s
  (s, before - s.active.size)

end PartialTraceStore

end CirisServer.TraceCapture
