import CirisServer.ForStd.Run
import CirisServer.Native.TraceCapture
import Mathlib.Data.List.Induction

/-!
# Trace assembly and its reference

The reference takes one thought by itself. A call belongs to the thought's segment from the seal or
purge before it on, and the trace is what the segment's events say: `assemble`. `Tracks` is the
invariant: what the two tables hold under the thought is a function of its segment. Every call keeps
it, whichever thought the call is about, so a thought's answers are those of its own calls alone.
-/

namespace CirisServer.TraceCapture

open PartialTraceStore

/-! ## Runs -/

/-- A call on the store. -/
inductive Op where
  | capture (ev : InboundEvent) (traceIdForNew : String)
  | orphanSweep (now maxAgeSecs : Int)

/-- The store after a call. -/
def step (parseFromRfc3339 : String → Option Int) (s : PartialTraceStore) :
    Op → PartialTraceStore
  | .capture ev traceIdForNew => (s.capture ev traceIdForNew).1
  | .orphanSweep now maxAgeSecs => (s.orphanSweep parseFromRfc3339 now maxAgeSecs).1

/-- The store after the calls `ops`. -/
def run (parseFromRfc3339 : String → Option Int) (ops : List Op) : PartialTraceStore :=
  Run.after (step parseFromRfc3339) new ops

/-- The call is a capture for `t`, or a sweep. -/
def Op.concerns (t : String) : Op → Bool
  | .capture ev _ => ev.thoughtId == t
  | .orphanSweep _ _ => true

/-- What the captures for `t` are answered in the calls `ops` from `s`, in order. -/
def answersTo (parseFromRfc3339 : String → Option Int) (t : String) :
    PartialTraceStore → List Op → List CaptureOutcome
  | _, [] => []
  | s, op :: ops =>
    let rest := answersTo parseFromRfc3339 t (step parseFromRfc3339 s op) ops
    match op with
    | .capture ev traceIdForNew =>
      if ev.thoughtId = t then (s.capture ev traceIdForNew).2 :: rest else rest
    | .orphanSweep _ _ => rest

/-- The call seals the trace of `t`, or purges it. -/
def Ends (parseFromRfc3339 : String → Option Int) (t : String) (s : PartialTraceStore) :
    Op → Prop
  | .capture ev traceIdForNew =>
    ev.thoughtId = t ∧ ∃ trace, (s.capture ev traceIdForNew).2 = .sealed trace
  | .orphanSweep now maxAgeSecs =>
    t ∈ s.active ∧ t ∉ (s.orphanSweep parseFromRfc3339 now maxAgeSecs).1.active

/-! ## The reference -/

/-- An event that parsed, and the trace id offered with it. -/
structure Received where
  eventType : ReasoningEventType
  ev : InboundEvent
  traceIdForNew : String

/-- The parsed event of `t` that a call brings. -/
def received (t : String) : Op → Option Received
  | .capture ev traceIdForNew =>
    if ev.thoughtId = t then
      (ReasoningEventType.parse ev.eventType).map fun eventType => ⟨eventType, ev, traceIdForNew⟩
    else none
  | .orphanSweep _ _ => none

/-- How many of the earlier events are of `eventType`. -/
def attempts (eventType : ReasoningEventType) (earlier : List Received) : Nat :=
  earlier.countP fun r => r.eventType == eventType

/-- The component of an event that arrives after `earlier`. -/
def Received.component (r : Received) (earlier : List Received) : TraceComponent where
  componentType := r.eventType.componentType
  eventType := r.eventType
  timestamp := r.ev.timestamp
  attemptIndex := UInt32.ofNat (attempts r.eventType earlier)
  data := r.ev.data
  agentIdHash := r.ev.agentIdHash

/-- One component for each event, in order, each numbered by the earlier events of its type. -/
def components (segment : List Received) : List TraceComponent :=
  segment.mapIdx fun i r => r.component (segment.take i)

/-- The trace of a segment: opened by its first event, with the first task id and the first trace
    level any event brought. -/
def assemble : List Received → Option CompleteTrace
  | [] => none
  | first :: rest =>
    some
      { openedBy first.ev first.traceIdForNew with
        taskId := (first :: rest).findSome? (·.ev.taskId)
        traceLevel := (first :: rest).findSome? (·.ev.traceLevel)
        components := components (first :: rest) }

/-- The segment of `t` after one more call. -/
def next (parseFromRfc3339 : String → Option Int) (t : String) (segment : List Received)
    (op : Op) : List Received :=
  match op with
  | .capture _ _ =>
    match received t op with
    | some r => if r.eventType.sealsTrace then [] else segment ++ [r]
    | none => segment
  | .orphanSweep now maxAgeSecs =>
    if segment.head?.any (fun r => stale parseFromRfc3339 now maxAgeSecs r.ev.timestamp) then []
    else segment

/-- What a segment makes of the attempt counter under a wire string. -/
def counter (segment : List Received) (wire : String) : Option UInt32 :=
  let n := segment.countP fun r => r.eventType.asWireStr == wire
  if n = 0 then none else some (UInt32.ofNat n)

theorem attempts_eq (eventType : ReasoningEventType) (segment : List Received) :
    attempts eventType segment =
      segment.countP fun r => r.eventType.asWireStr == eventType.asWireStr := by
  apply List.countP_congr
  intro r _
  simp only [beq_iff_eq]
  exact ⟨fun h => by rw [h], ReasoningEventType.asWireStr_injective⟩

theorem counter_getD (segment : List Received) (eventType : ReasoningEventType) :
    (counter segment eventType.asWireStr).getD 0 = UInt32.ofNat (attempts eventType segment) := by
  rw [attempts_eq, counter]
  split
  case isTrue h => rw [h]; rfl
  case isFalse => rfl

theorem counter_append (segment : List Received) (r : Received) (wire : String) :
    counter (segment ++ [r]) wire =
      if r.eventType.asWireStr = wire then
        some (UInt32.ofNat (attempts r.eventType segment) + 1)
      else counter segment wire := by
  unfold counter
  by_cases hw : r.eventType.asWireStr = wire
  · subst hw
    simp [List.countP_append, attempts_eq, UInt32.ofNat_add]
  · simp [List.countP_append, hw]

theorem components_append (segment : List Received) (r : Received) :
    components (segment ++ [r]) = components segment ++ [r.component segment] := by
  unfold components
  rw [List.mapIdx_append]
  congr 1
  · apply List.ext_getElem
    · simp
    · intro i hi _
      have hlt : i < segment.length := by simpa using hi
      simp [List.take_append_of_le_length hlt.le]
  · simp

/-- A segment's trace with one event more, as `capture` builds it. -/
theorem assemble_append (segment : List Received) (r : Received) :
    assemble (segment ++ [r]) =
      some (
        let trace := (assemble segment).getD (openedBy r.ev r.traceIdForNew)
        { trace with
          taskId := trace.taskId.or r.ev.taskId
          traceLevel := trace.traceLevel.or r.ev.traceLevel
          components := trace.components ++ [r.component segment] }) := by
  cases segment with
  | nil => simp [assemble, components, openedBy, Received.component]
  | cons first rest =>
    have hcomps := components_append (first :: rest) r
    rw [List.cons_append] at hcomps
    rw [List.cons_append, assemble, assemble, hcomps, ← List.cons_append]
    simp only [List.findSome?_append, Option.getD_some]
    congr 2 <;> simp

/-! ## What one call does -/

/-- What the tables hold under `t` is a function of its segment. -/
structure Tracks (t : String) (s : PartialTraceStore) (segment : List Received) : Prop where
  active : s.active[t]? = assemble segment
  counters : ∀ wire, s.attemptCounters[(t, wire)]? = counter segment wire

theorem assemble_eq_none_iff (segment : List Received) :
    assemble segment = none ↔ segment = [] := by
  cases segment <;> simp [assemble]

theorem tracks_new (t : String) : Tracks t new [] where
  active := by simp [new, assemble]
  counters := by simp [new, counter]

theorem Tracks.mem_active_iff {t : String} {s : PartialTraceStore} {segment : List Received}
    (h : Tracks t s segment) : t ∈ s.active ↔ segment ≠ [] := by
  rw [Std.HashMap.mem_iff_isSome_getElem?, h.active, Option.isSome_iff_ne_none, ne_eq,
    assemble_eq_none_iff]

theorem Tracks.getD_counter {t : String} {s : PartialTraceStore} {segment : List Received}
    (h : Tracks t s segment) (eventType : ReasoningEventType) :
    s.attemptCounters.getD (t, eventType.asWireStr) 0 =
      UInt32.ofNat (attempts eventType segment) := by
  rw [Std.HashMap.getD_eq_getD_getElem?, h.counters, counter_getD]

/-- The counters that `retain` keeps: all but those of `tid`. -/
theorem getElem?_retain (m : Std.HashMap (String × String) UInt32) (tid t wire : String) :
    (m.filter fun key _ => key.1 != tid)[(t, wire)]? =
      if t = tid then none else m[(t, wire)]? := by
  rw [Std.HashMap.getElem?_filter']
  by_cases ht : t = tid
  · simp [ht]
  · cases hm : m[(t, wire)]? with
    | none => simp
    | some n => simp [ht, Option.filter]

/-- An event that does not parse is answered so, and leaves the store as it is. -/
theorem capture_refused {ev : InboundEvent} (h : ReasoningEventType.parse ev.eventType = none)
    (s : PartialTraceStore) (traceIdForNew : String) :
    s.capture ev traceIdForNew = (s, .unknownEvent ev.eventType) := by
  simp [capture, h]

/-- The sealed trace of a segment: the active one, completed by its last event. -/
def sealedTrace (segment : List Received) (r : Received) : Option CompleteTrace :=
  (assemble (segment ++ [r])).map fun trace => { trace with completedAt := some r.ev.timestamp }

/-- What a capture of `r` is answered after `segment`. -/
def outcome (segment : List Received) (r : Received) : CaptureOutcome :=
  match sealedTrace segment r with
  | some trace =>
    if r.eventType.sealsTrace then .sealed trace
    else if segment = [] then .opened else .appended
  | none => .appended

/-- A capture is answered with the segment's trace if its event seals, and with no trace else. -/
theorem outcome_eq_sealed_iff (segment : List Received) (r : Received) (trace : CompleteTrace) :
    outcome segment r = .sealed trace ↔
      r.eventType.sealsTrace = true ∧ sealedTrace segment r = some trace := by
  have happend := assemble_append segment r
  simp only [outcome, sealedTrace, happend, Option.map_some, Option.some.injEq]
  by_cases hseals : r.eventType.sealsTrace = true
  · simp [hseals]
  · by_cases hnil : segment = [] <;> simp [hseals, hnil]

/-- What `capture` does with an event of `t` that parses. -/
theorem Tracks.capture {t : String} {s : PartialTraceStore} {segment : List Received}
    (h : Tracks t s segment) {r : Received} (ht : r.ev.thoughtId = t)
    (hparse : ReasoningEventType.parse r.ev.eventType = some r.eventType) :
    (s.capture r.ev r.traceIdForNew).2 = outcome segment r ∧
      Tracks t (s.capture r.ev r.traceIdForNew).1
        (if r.eventType.sealsTrace then [] else segment ++ [r]) := by
  subst ht
  have hcount := h.getD_counter r.eventType
  have happend := assemble_append segment r
  simp only [PartialTraceStore.capture, hparse, hcount, h.active, outcome, sealedTrace, happend,
    Option.map_some]
  by_cases hseals : r.eventType.sealsTrace = true
  · rw [if_pos hseals, if_pos hseals, if_pos hseals]
    refine ⟨rfl, ?_, ?_⟩
    · simp [assemble]
    · intro wire
      rw [getElem?_retain, if_pos rfl]
      simp [counter]
  · rw [if_neg hseals, if_neg hseals, if_neg hseals]
    refine ⟨?_, ?_, ?_⟩
    · simp only [Std.HashMap.contains_eq_isSome_getElem?, h.active]
      cases segment <;> simp [assemble]
    · simp [happend, Received.component]
    · intro wire
      rw [counter_append, ← h.counters]
      simp [Std.HashMap.getElem?_insert]

/-- An event of another thought leaves what the tables hold under `t`. -/
theorem Tracks.capture_other {t : String} {s : PartialTraceStore} {segment : List Received}
    (h : Tracks t s segment) {ev : InboundEvent} (ht : ev.thoughtId ≠ t)
    (traceIdForNew : String) : Tracks t (s.capture ev traceIdForNew).1 segment := by
  cases hparse : ReasoningEventType.parse ev.eventType with
  | none =>
    rw [capture_refused hparse]
    exact h
  | some eventType =>
    simp only [PartialTraceStore.capture, hparse]
    split
    · constructor
      · simp [Std.HashMap.getElem?_erase, Std.HashMap.getElem?_insert, ht, h.active]
      · intro wire
        rw [getElem?_retain, if_neg (Ne.symm ht)]
        simp [Std.HashMap.getElem?_insert, ht, h.counters]
    · constructor
      · simp [Std.HashMap.getElem?_insert, ht, h.active]
      · intro wire
        simp [Std.HashMap.getElem?_insert, ht, h.counters]

/-- What the tables hold after the purge's loop: nothing under the thoughts it goes through. -/
theorem getElem?_foldl_purge (tids : List String) (s : PartialTraceStore) (t : String) :
    (tids.foldl purge s).active[t]? = (if t ∈ tids then none else s.active[t]?) ∧
      ∀ wire : String, (tids.foldl purge s).attemptCounters[(t, wire)]? =
        if t ∈ tids then none else s.attemptCounters[(t, wire)]? := by
  induction tids generalizing s with
  | nil => simp
  | cons tid tids ih =>
    obtain ⟨hactive, hcounters⟩ := ih (purge s tid)
    rw [List.foldl_cons]
    constructor
    · rw [hactive]
      by_cases ht : t = tid
      · simp [purge, ht]
      · simp [purge, Std.HashMap.getElem?_erase, ht, Ne.symm ht]
    · intro wire
      rw [hcounters, purge, getElem?_retain]
      by_cases ht : t = tid
      · simp [ht]
      · simp [ht]

/-- A sweep empties the segments whose first event is stale, and leaves the others. -/
theorem Tracks.orphanSweep {t : String} {s : PartialTraceStore} {segment : List Received}
    (h : Tracks t s segment) (parseFromRfc3339 : String → Option Int) (now maxAgeSecs : Int) :
    Tracks t (s.orphanSweep parseFromRfc3339 now maxAgeSecs).1
      (next parseFromRfc3339 t segment (.orphanSweep now maxAgeSecs)) := by
  have hmem : t ∈ (s.active.toList.filter fun entry =>
        stale parseFromRfc3339 now maxAgeSecs entry.2.startedAt).map (·.1) ↔
      segment.head?.any (fun r => stale parseFromRfc3339 now maxAgeSecs r.ev.timestamp) := by
    simp only [List.mem_map, List.mem_filter, Prod.exists, exists_and_right, exists_eq_right,
      Std.HashMap.mem_toList_iff_getElem?_eq_some, h.active]
    cases segment <;> simp [assemble, openedBy]
  obtain ⟨hactive, hcounters⟩ := getElem?_foldl_purge _ s t
  simp only [next]
  constructor
  · refine hactive.trans ?_
    rw [h.active]
    split
    case isTrue hin => rw [if_pos (hmem.mp hin)]; rfl
    case isFalse hout => rw [if_neg fun hs => hout (hmem.mpr hs)]
  · intro wire
    refine (hcounters wire).trans ?_
    rw [h.counters]
    split
    case isTrue hin => rw [if_pos (hmem.mp hin)]; rfl
    case isFalse hout => rw [if_neg fun hs => hout (hmem.mpr hs)]

/-- Every call keeps the invariant, of every thought. -/
theorem Tracks.step {t : String} {s : PartialTraceStore} {segment : List Received}
    (h : Tracks t s segment) (parseFromRfc3339 : String → Option Int) (op : Op) :
    Tracks t (step parseFromRfc3339 s op) (next parseFromRfc3339 t segment op) := by
  cases op with
  | orphanSweep now maxAgeSecs => exact h.orphanSweep parseFromRfc3339 now maxAgeSecs
  | capture ev traceIdForNew =>
    by_cases ht : ev.thoughtId = t
    · cases hparse : ReasoningEventType.parse ev.eventType with
      | none =>
        simp only [TraceCapture.step, capture_refused hparse, next, received, hparse, ht]
        exact h
      | some eventType =>
        have hcapture := (h.capture (r := ⟨eventType, ev, traceIdForNew⟩) ht hparse).2
        simpa only [TraceCapture.step, next, received, hparse, if_pos ht, Option.map_some]
          using hcapture
    · simp only [next, received, if_neg ht]
      exact h.capture_other ht traceIdForNew

/-! ## Runs -/

/-- The segment of `t` after the calls `ops`. -/
def segment (parseFromRfc3339 : String → Option Int) (t : String) (ops : List Op) :
    List Received :=
  Run.after (next parseFromRfc3339 t) [] ops

section Runs

variable {parseFromRfc3339 : String → Option Int} {t : String}

theorem run_concat (ops : List Op) (op : Op) :
    run parseFromRfc3339 (ops ++ [op]) =
      step parseFromRfc3339 (run parseFromRfc3339 ops) op := by
  simp [run, Run.after_append]

theorem segment_concat (ops : List Op) (op : Op) :
    segment parseFromRfc3339 t (ops ++ [op]) =
      next parseFromRfc3339 t (segment parseFromRfc3339 t ops) op := by
  simp [segment, Run.after_append]

/-- The store tracks every thought's segment, after any calls. -/
theorem tracks_run (parseFromRfc3339 : String → Option Int) (t : String) (ops : List Op) :
    Tracks t (run parseFromRfc3339 ops) (segment parseFromRfc3339 t ops) := by
  induction ops using List.reverseRecOn with
  | nil => exact tracks_new t
  | append_singleton ops op ih =>
    rw [run_concat, segment_concat]
    exact ih.step parseFromRfc3339 op

/-- A call that ends `t`'s trace empties its segment. -/
theorem Tracks.next_of_ends {s : PartialTraceStore} {segment : List Received}
    (h : Tracks t s segment) {op : Op} (hends : Ends parseFromRfc3339 t s op) :
    next parseFromRfc3339 t segment op = [] := by
  cases op with
  | orphanSweep now maxAgeSecs =>
    by_contra hne
    exact hends.2 ((h.orphanSweep parseFromRfc3339 now maxAgeSecs).mem_active_iff.mpr hne)
  | capture ev traceIdForNew =>
    obtain ⟨ht, trace, hsealed⟩ := hends
    cases hparse : ReasoningEventType.parse ev.eventType with
    | none => simp [capture_refused hparse] at hsealed
    | some eventType =>
      have hout := (h.capture (r := ⟨eventType, ev, traceIdForNew⟩) ht hparse).1
      have hseals := ((outcome_eq_sealed_iff _ _ trace).mp (hout.symm.trans hsealed)).1
      simp [next, received, ht, hparse, hseals]

/-- A call that does not end `t`'s trace adds to its segment the event it brings. -/
theorem Tracks.next_of_not_ends {s : PartialTraceStore} {segment : List Received}
    (h : Tracks t s segment) {op : Op} (hends : ¬ Ends parseFromRfc3339 t s op) :
    next parseFromRfc3339 t segment op = segment ++ (received t op).toList := by
  cases op with
  | orphanSweep now maxAgeSecs =>
    have hafter := (h.orphanSweep parseFromRfc3339 now maxAgeSecs).mem_active_iff
    simp only [Ends, h.mem_active_iff, hafter, not_and, not_not] at hends
    simp only [received, Option.toList_none, List.append_nil]
    by_cases hnil : segment = []
    · simp [hnil, next]
    · have hne := hends hnil
      simp only [next] at hne ⊢
      split at hne
      · exact absurd rfl hne
      · next hfresh => rw [if_neg hfresh]
  | capture ev traceIdForNew =>
    by_cases ht : ev.thoughtId = t
    · cases hparse : ReasoningEventType.parse ev.eventType with
      | none => simp [next, received, ht, hparse]
      | some eventType =>
        have hout := (h.capture (r := ⟨eventType, ev, traceIdForNew⟩) ht hparse).1
        by_cases hseals : eventType.sealsTrace = true
        · refine absurd ⟨ht, ?_⟩ hends
          rw [hout, outcome, sealedTrace, assemble_append]
          exact ⟨_, if_pos hseals⟩
        · simp [next, received, ht, hparse, hseals]
    · simp [next, received, ht]

variable (parseFromRfc3339 t) in
/-- A segment is the events since the last call that ended the thought's trace. -/
theorem segment_eq_since (ops : List Op) :
    ∃ before since, ops = before ++ since ∧
      (∀ earlier op, before = earlier ++ [op] →
        Ends parseFromRfc3339 t (run parseFromRfc3339 earlier) op) ∧
      Run.Guarded (step parseFromRfc3339) (fun s op => ¬ Ends parseFromRfc3339 t s op)
        (run parseFromRfc3339 before) since ∧
      segment parseFromRfc3339 t ops = since.filterMap (received t) := by
  induction ops using List.reverseRecOn with
  | nil => exact ⟨[], [], rfl, by simp, trivial, rfl⟩
  | append_singleton ops op ih =>
    have htracks := tracks_run parseFromRfc3339 t ops
    rw [segment_concat]
    by_cases hends : Ends parseFromRfc3339 t (run parseFromRfc3339 ops) op
    · refine ⟨ops ++ [op], [], by simp, ?_, trivial, htracks.next_of_ends hends⟩
      intro earlier op' heq
      obtain ⟨rfl, hop⟩ := List.append_inj' heq rfl
      cases hop
      exact hends
    · obtain ⟨before, since, rfl, hbefore, hsince, hseg⟩ := ih
      refine ⟨before, since ++ [op], by simp, hbefore, ?_, ?_⟩
      · rw [Run.guarded_append_iff]
        refine ⟨hsince, ?_, trivial⟩
        rwa [run, Run.after_append] at hends
      · rw [htracks.next_of_not_ends hends, hseg, List.filterMap_append]
        cases hreceived : received t op <;> simp [hreceived]

/-- Two stores that track one segment of `t` answer its captures alike, though one of them
    sees the calls that concern `t` alone. -/
theorem Tracks.answersTo_eq {s s' : PartialTraceStore} {segment : List Received}
    (h : Tracks t s segment) (h' : Tracks t s' segment) (ops : List Op) :
    answersTo parseFromRfc3339 t s ops =
      answersTo parseFromRfc3339 t s' (ops.filter (Op.concerns t)) := by
  induction ops generalizing s s' segment with
  | nil => rfl
  | cons op ops ih =>
    have hstep := h.step parseFromRfc3339 op
    have hstep' := h'.step parseFromRfc3339 op
    cases op with
    | orphanSweep now maxAgeSecs => exact ih hstep hstep'
    | capture ev traceIdForNew =>
      by_cases ht : ev.thoughtId = t
      · have hanswer : (s.capture ev traceIdForNew).2 = (s'.capture ev traceIdForNew).2 := by
          cases hparse : ReasoningEventType.parse ev.eventType with
          | none => rw [capture_refused hparse, capture_refused hparse]
          | some eventType =>
            have hout := (h.capture (r := ⟨eventType, ev, traceIdForNew⟩) ht hparse).1
            have hout' := (h'.capture (r := ⟨eventType, ev, traceIdForNew⟩) ht hparse).1
            exact hout.trans hout'.symm
        simp only [answersTo, Op.concerns, ht, beq_self_eq_true, List.filter_cons, ite_true,
          hanswer, ih hstep hstep']
      · have hkeep : next parseFromRfc3339 t segment (.capture ev traceIdForNew) = segment := by
          simp [next, received, ht]
        rw [hkeep] at hstep
        simp only [answersTo, Op.concerns, ht, beq_iff_eq, List.filter_cons, ite_false,
          ih hstep h']

/-- The attempt counters are those of thoughts with an active trace. -/
theorem mem_active_of_mem_attemptCounters (ops : List Op) {key : String × String}
    (hkey : key ∈ (run parseFromRfc3339 ops).attemptCounters) :
    key.1 ∈ (run parseFromRfc3339 ops).active := by
  have htracks := tracks_run parseFromRfc3339 key.1 ops
  rw [htracks.mem_active_iff]
  intro hnil
  rw [Std.HashMap.mem_iff_isSome_getElem?, htracks.counters key.2, hnil] at hkey
  simp [counter] at hkey

/-- **Trace assembly.** After any calls, the trace a capture for `t` seals is the one assembled from
    `t`'s parsed events since the last call that sealed or purged its trace; the captures for `t`
    are answered as if no other thought's had come in; a refused event changes nothing; and no
    attempt counter is left of a thought without an active trace. -/
theorem capture_assembles (parseFromRfc3339 : String → Option Int) (t : String)
    (ops : List Op) :
    (∃ before since, ops = before ++ since ∧
      (∀ earlier op, before = earlier ++ [op] →
        Ends parseFromRfc3339 t (run parseFromRfc3339 earlier) op) ∧
      Run.Guarded (step parseFromRfc3339) (fun s op => ¬ Ends parseFromRfc3339 t s op)
        (run parseFromRfc3339 before) since ∧
      ∀ ev traceIdForNew trace, ev.thoughtId = t →
        (((run parseFromRfc3339 ops).capture ev traceIdForNew).2 = .sealed trace ↔
          ∃ r, received t (.capture ev traceIdForNew) = some r ∧ r.eventType = .actionResult ∧
            sealedTrace (since.filterMap (received t)) r = some trace)) ∧
    answersTo parseFromRfc3339 t new ops =
      answersTo parseFromRfc3339 t new (ops.filter (Op.concerns t)) ∧
    (∀ s ev traceIdForNew, ReasoningEventType.parse ev.eventType = none →
      PartialTraceStore.capture s ev traceIdForNew = (s, .unknownEvent ev.eventType)) ∧
    ∀ key ∈ (run parseFromRfc3339 ops).attemptCounters,
      key.1 ∈ (run parseFromRfc3339 ops).active := by
  have htracks := tracks_run parseFromRfc3339 t ops
  refine ⟨?_, (tracks_new t).answersTo_eq (tracks_new t) ops,
    fun s ev traceIdForNew hparse => capture_refused hparse s traceIdForNew,
    fun key => mem_active_of_mem_attemptCounters ops⟩
  obtain ⟨before, since, hops, hbefore, hsince, hsegment⟩ :=
    segment_eq_since parseFromRfc3339 t ops
  refine ⟨before, since, hops, hbefore, hsince, ?_⟩
  intro ev traceIdForNew trace ht
  rw [← hsegment]
  cases hparse : ReasoningEventType.parse ev.eventType with
  | none => simp [capture_refused hparse, received, hparse]
  | some eventType =>
    have hout := (htracks.capture (r := ⟨eventType, ev, traceIdForNew⟩) ht hparse).1
    rw [hout, outcome_eq_sealed_iff]
    simp [received, ht, hparse, ReasoningEventType.sealsTrace]

end Runs

end CirisServer.TraceCapture
