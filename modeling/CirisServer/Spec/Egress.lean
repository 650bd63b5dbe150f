import CirisServer.ForStd.List
import CirisServer.Native.Egress

/-!
# Egress filtering does not interfere

Two batches are alike when they differ only in what a filter withholds: under a redacted key of a
component's data, under a score field there, in components that are detection events. The filter
takes alike batches to one batch. Filtering twice is filtering once, and two filters commute but for
the trace level they stamp.

Each level of the batch (data, component, trace, event, batch) has the same three facts, one from
the other; the levels are changes under one key, so they rest on the laws of `Members`.
-/

namespace CirisServer

/-! ## Changes to objects and arrays -/

namespace Json

variable {f g : List (String × Json) → List (String × Json)} {name key : String}

theorem onObj_onObj (j : Json) : onObj f (onObj g j) = onObj (fun ms => f (g ms)) j := by
  cases j <;> rfl

theorem onArr_onArr {f g : List Json → List Json} (j : Json) :
    onArr f (onArr g j) = onArr (fun items => f (g items)) j := by
  cases j <;> rfl

theorem onObj_congr (h : ∀ ms, f ms = g ms) (j : Json) : onObj f j = onObj g j := by
  cases j <;> simp [onObj, h]

/-- A change that keeps what is read under `name` does not move `get`. -/
theorem get?_onObj (h : ∀ ms, (f ms).lookup name = ms.lookup name) (j : Json) :
    (onObj f j).get? name = j.get? name := by
  cases j <;> simp [onObj, get?, h]

end Json

namespace Egress

/-! ## Data -/

theorem redactField_eq (redact : Bool) (field : String) (data : List (String × Json)) :
    redactField redact field data =
      if redact then Members.modify field (fun _ => .null) data else data := by
  unfold redactField
  cases redact with
  | false => rfl
  | true => exact Members.insert_of_contains

/-- Two redactions do not disturb each other, under one key or two. -/
theorem redactField_comm (a b : Bool) (k l : String) (data : List (String × Json)) :
    redactField a k (redactField b l data) = redactField b l (redactField a k data) := by
  simp only [redactField_eq]
  by_cases h : k = l
  · subst h
    cases a <;> cases b <;> rfl
  · cases a <;> cases b <;> simp [Members.modify_comm h]

theorem redactField_redactField (a : Bool) (k : String) (data : List (String × Json)) :
    redactField a k (redactField a k data) = redactField a k data := by
  simp only [redactField_eq]
  cases a with
  | false => rfl
  | true => simp only [ite_true, Members.modify_modify]

/-- The removal of the score fields. -/
def dropScores (includeScores : Bool) (data : List (String × Json)) : List (String × Json) :=
  if includeScores then data else Members.removeAll scoreFields data

theorem dropScores_redactField (i a : Bool) (k : String) (data : List (String × Json)) :
    dropScores i (redactField a k data) = redactField a k (dropScores i data) := by
  simp only [redactField_eq, dropScores]
  cases i <;> cases a <;> simp [Members.removeAll_modify]

theorem dropScores_comm (i i' : Bool) (data : List (String × Json)) :
    dropScores i (dropScores i' data) = dropScores i' (dropScores i data) := by
  cases i <;> cases i' <;> rfl

theorem dropScores_dropScores (i : Bool) (data : List (String × Json)) :
    dropScores i (dropScores i data) = dropScores i data := by
  cases i with
  | true => rfl
  | false => exact Members.removeAll_removeAll

theorem filterData_eq (filter : EgressFilter) (data : List (String × Json)) :
    filterData filter data =
      redactField filter.redactCompletions "llm_completion"
        (redactField filter.redactUserPrompts "user_prompt"
          (dropScores filter.includeScores data)) := rfl

theorem filterData_comm (filter other : EgressFilter) (data : List (String × Json)) :
    filterData filter (filterData other data) = filterData other (filterData filter data) := by
  simp only [filterData_eq, dropScores_redactField]
  rw [dropScores_comm, redactField_comm filter.redactUserPrompts other.redactCompletions,
    redactField_comm filter.redactUserPrompts other.redactUserPrompts,
    redactField_comm filter.redactCompletions other.redactCompletions,
    redactField_comm filter.redactCompletions other.redactUserPrompts]

theorem filterData_filterData (filter : EgressFilter) (data : List (String × Json)) :
    filterData filter (filterData filter data) = filterData filter data := by
  simp only [filterData_eq, dropScores_redactField]
  rw [dropScores_dropScores, redactField_comm filter.redactUserPrompts filter.redactCompletions,
    redactField_redactField, redactField_redactField]

/-! ## Components -/

theorem filterComponent_comm (filter other : EgressFilter) (c : Json) :
    filterComponent filter (filterComponent other c) =
      filterComponent other (filterComponent filter c) := by
  simp only [filterComponent, Json.onObj_onObj, Members.modify_modify, filterData_comm filter other]

theorem filterComponent_filterComponent (filter : EgressFilter) (c : Json) :
    filterComponent filter (filterComponent filter c) = filterComponent filter c := by
  simp only [filterComponent, Json.onObj_onObj, Members.modify_modify, filterData_filterData]

/-- Whether a component stays in the trace. -/
def keeps (filter : EgressFilter) (c : Json) : Bool :=
  filter.includeDetectionEvents || !isDetection c

theorem filterComponents_eq (filter : EgressFilter) (cs : List Json) :
    filterComponents filter cs = (cs.filter (keeps filter)).map (filterComponent filter) := by
  unfold filterComponents keeps
  cases filter.includeDetectionEvents <;> simp

/-- What the filter does to a component's data does not change what component it is. -/
theorem keeps_filterComponent (filter other : EgressFilter) (c : Json) :
    keeps filter (filterComponent other c) = keeps filter c := by
  have hget : (filterComponent other c).get? "component_type" = c.get? "component_type" :=
    Json.get?_onObj (fun ms => Members.lookup_modify_of_ne (by decide)) c
  simp only [keeps, isDetection, hget]

theorem filterComponents_comm (filter other : EgressFilter) (cs : List Json) :
    filterComponents filter (filterComponents other cs) =
      filterComponents other (filterComponents filter cs) := by
  simp only [filterComponents_eq]
  rw [List.map_filter_map_filter (keeps_filterComponent filter other),
    List.map_filter_map_filter (keeps_filterComponent other filter)]
  simp only [filterComponent_comm filter other, Bool.and_comm]

theorem filterComponents_filterComponents (filter : EgressFilter) (cs : List Json) :
    filterComponents filter (filterComponents filter cs) = filterComponents filter cs := by
  simp only [filterComponents_eq]
  rw [List.map_filter_map_filter (keeps_filterComponent filter filter)]
  simp only [filterComponent_filterComponent, Bool.and_self]

theorem applyComponentFilters_comm (filter other : EgressFilter) (trace : Json) :
    applyComponentFilters filter (applyComponentFilters other trace) =
      applyComponentFilters other (applyComponentFilters filter trace) := by
  simp only [applyComponentFilters, Json.onObj_onObj, Members.modify_modify, Json.onArr_onArr,
    filterComponents_comm filter other]

theorem applyComponentFilters_applyComponentFilters (filter : EgressFilter) (trace : Json) :
    applyComponentFilters filter (applyComponentFilters filter trace) =
      applyComponentFilters filter trace := by
  simp only [applyComponentFilters, Json.onObj_onObj, Members.modify_modify, Json.onArr_onArr,
    filterComponents_filterComponents]

/-! ## Events -/

/-- An event without the trace level stamped on it. -/
def unstampEvent : Json → Json := Json.onObj (Members.remove "trace_level")

/-- What two filters in turn do to an event: the second's level is the one stamped. -/
theorem filterEvent_filterEvent (filter other : EgressFilter) (ev : Json) :
    filterEvent filter (filterEvent other ev) =
      Json.onObj (fun ms =>
        Members.modify "trace"
          (fun trace => applyComponentFilters filter (applyComponentFilters other trace))
          (Members.insert "trace_level" (.str (traceLevelWireStr filter.traceLevel)) ms)) ev := by
  unfold filterEvent
  rw [Json.onObj_onObj]
  apply Json.onObj_congr
  intro ms
  rw [← Members.modify_insert_comm (by decide), Members.insert_insert, Members.modify_modify]

theorem filterEvent_self (filter : EgressFilter) (ev : Json) :
    filterEvent filter (filterEvent filter ev) = filterEvent filter ev := by
  rw [filterEvent_filterEvent]
  simp only [applyComponentFilters_applyComponentFilters, filterEvent]

theorem unstampEvent_comm (filter other : EgressFilter) (ev : Json) :
    unstampEvent (filterEvent filter (filterEvent other ev)) =
      unstampEvent (filterEvent other (filterEvent filter ev)) := by
  simp only [filterEvent_filterEvent, unstampEvent, Json.onObj_onObj, Members.remove_modify,
    Members.remove_insert, applyComponentFilters_comm filter other]

variable (fromDbStr : String → Option DetectionSeverity)

/-- Whether an event stays in the batch. -/
def keepsEvent (filter : EgressFilter) (ev : Json) : Bool :=
  filter.minSeverity.all fun min => passesSeverity fromDbStr min ev

theorem filterEvents_eq (filter : EgressFilter) (evs : List Json) :
    filterEvents fromDbStr filter evs =
      (evs.filter (keepsEvent fromDbStr filter)).map (filterEvent filter) := by
  unfold filterEvents keepsEvent
  cases filter.minSeverity <;> simp

/-- An event's severity is its `severity` field, which no filter touches. -/
theorem keepsEvent_congr {ev ev' : Json} (h : ev.get? "severity" = ev'.get? "severity")
    (filter : EgressFilter) : keepsEvent fromDbStr filter ev = keepsEvent fromDbStr filter ev' := by
  simp only [keepsEvent, passesSeverity, h]

theorem keepsEvent_filterEvent (filter other : EgressFilter) (ev : Json) :
    keepsEvent fromDbStr filter (filterEvent other ev) = keepsEvent fromDbStr filter ev := by
  apply keepsEvent_congr
  apply Json.get?_onObj
  intro ms
  rw [Members.lookup_modify_of_ne (by decide), Members.lookup_insert_of_ne (by decide)]

theorem filterEvents_self (filter : EgressFilter) (evs : List Json) :
    filterEvents fromDbStr filter (filterEvents fromDbStr filter evs) =
      filterEvents fromDbStr filter evs := by
  simp only [filterEvents_eq]
  rw [List.map_filter_map_filter (keepsEvent_filterEvent fromDbStr filter filter)]
  simp only [filterEvent_self, Bool.and_self]

theorem unstampEvents_comm (filter other : EgressFilter) (evs : List Json) :
    (filterEvents fromDbStr filter (filterEvents fromDbStr other evs)).map unstampEvent =
      (filterEvents fromDbStr other (filterEvents fromDbStr filter evs)).map unstampEvent := by
  simp only [filterEvents_eq]
  rw [List.map_filter_map_filter (keepsEvent_filterEvent fromDbStr filter other),
    List.map_filter_map_filter (keepsEvent_filterEvent fromDbStr other filter), List.map_map,
    List.map_map]
  simp only [Function.comp_def, unstampEvent_comm filter other, Bool.and_comm]

/-! ## Batches -/

/-- A batch without the trace level stamped on it and on its events. -/
def unstamp : Json → Json :=
  Json.onObj fun ms =>
    Members.modify "events" (Json.onArr (List.map unstampEvent)) (Members.remove "trace_level" ms)

/-- What two filters in turn do to a batch. -/
theorem applyEgressFilter_applyEgressFilter (filter other : EgressFilter) (batch : Json) :
    applyEgressFilter fromDbStr filter (applyEgressFilter fromDbStr other batch) =
      Json.onObj (fun ms =>
        Members.modify "events"
          (Json.onArr fun evs => filterEvents fromDbStr filter (filterEvents fromDbStr other evs))
          (Members.insert "trace_level" (.str (traceLevelWireStr filter.traceLevel)) ms)) batch := by
  unfold applyEgressFilter
  rw [Json.onObj_onObj]
  apply Json.onObj_congr
  intro ms
  rw [← Members.modify_insert_comm (by decide), Members.insert_insert, Members.modify_modify]
  simp only [Json.onArr_onArr]

/-- Filtering twice is filtering once. -/
theorem applyEgressFilter_self (filter : EgressFilter) (batch : Json) :
    applyEgressFilter fromDbStr filter (applyEgressFilter fromDbStr filter batch) =
      applyEgressFilter fromDbStr filter batch := by
  rw [applyEgressFilter_applyEgressFilter]
  simp only [filterEvents_self, applyEgressFilter]

/-- Two filters commute, but for the stamp. -/
theorem unstamp_comm (filter other : EgressFilter) (batch : Json) :
    unstamp (applyEgressFilter fromDbStr filter (applyEgressFilter fromDbStr other batch)) =
      unstamp (applyEgressFilter fromDbStr other (applyEgressFilter fromDbStr filter batch)) := by
  simp only [applyEgressFilter_applyEgressFilter, unstamp, Json.onObj_onObj, Members.remove_modify,
    Members.remove_insert, Members.modify_modify, Json.onArr_onArr,
    unstampEvents_comm fromDbStr filter other]

/-! ## Two batches that differ in what is withheld -/

/-- Two values that are one, or objects that differ under `key` alone, and there as `R` allows. -/
def AlikeAt (key : String) (R : Json → Json → Prop) (j j' : Json) : Prop :=
  j = j' ∨ ∃ ms ms', j = .obj ms ∧ j' = .obj ms' ∧
    List.Forall₂ (fun m m' => m.1 = m'.1 ∧ (m.2 = m'.2 ∨ m.1 = key ∧ R m.2 m'.2)) ms ms'

/-- Two arrays whose items, those that `shown` selects, are pairwise as `R` allows. -/
def AlikeItems (shown : Json → Bool) (R : Json → Json → Prop) (j j' : Json) : Prop :=
  ∃ items items', j = .arr items ∧ j' = .arr items' ∧
    List.Forall₂ R (items.filter shown) (items'.filter shown)

/-- The keys of a component's data whose values the filter redacts. -/
def Redacts (filter : EgressFilter) (key : String) : Prop :=
  (filter.redactUserPrompts = true ∧ key = "user_prompt") ∨
    (filter.redactCompletions = true ∧ key = "llm_completion")

/-- The keys of a component's data that the filter lets out, with a value or with null. -/
def showsKey (filter : EgressFilter) (key : String) : Bool :=
  filter.includeScores || decide (key ∉ scoreFields)

/-- The components that the filter lets out. -/
def showsComponent (filter : EgressFilter) (c : Json) : Bool :=
  filter.includeDetectionEvents || decide (c.get? "component_type" ≠ some (.str "llm_call"))

/-- Two data objects alike: but for the score fields, where scores are excluded, the keys are the
    same, and so are the values, but for those that are redacted. -/
def DataAlike (filter : EgressFilter) (j j' : Json) : Prop :=
  ∃ d d', j = .obj d ∧ j' = .obj d' ∧
    List.Forall₂ (fun m m' => m.1 = m'.1 ∧ (m.2 = m'.2 ∨ Redacts filter m.1))
      (d.filter fun m => showsKey filter m.1) (d'.filter fun m => showsKey filter m.1)

/-- Two components alike: only their data differ, and are alike. -/
def ComponentAlike (filter : EgressFilter) : Json → Json → Prop :=
  AlikeAt "data" (DataAlike filter)

/-- Two events alike: only the components of their traces differ. Those that the filter lets out are
    pairwise alike. -/
def EventAlike (filter : EgressFilter) : Json → Json → Prop :=
  AlikeAt "trace" (AlikeAt "components"
    (AlikeItems (showsComponent filter) (ComponentAlike filter)))

/-- Two batches alike: only their events differ, and are pairwise alike. -/
def BatchAlike (filter : EgressFilter) : Json → Json → Prop :=
  AlikeAt "events" (AlikeItems (fun _ => true) (EventAlike filter))

/-- A change that takes what `R` relates to one value takes what is alike to one value. -/
theorem AlikeAt.modify_eq {key : String} {R : Json → Json → Prop} {F : Json → Json}
    (hF : ∀ v v', R v v' → F v = F v') {j j' : Json} (h : AlikeAt key R j j') :
    Json.onObj (Members.modify key F) j = Json.onObj (Members.modify key F) j' := by
  obtain rfl | ⟨ms, ms', rfl, rfl, hms⟩ := h
  · rfl
  · simp only [Json.onObj, Json.obj.injEq]
    induction hms with
    | nil => rfl
    | @cons m m' ms ms' hm _ ih =>
      obtain ⟨hkey, hvalue⟩ := hm
      simp only [Members.modify, List.map_cons, List.cons.injEq] at ih ⊢
      refine ⟨?_, ih⟩
      rw [← hkey]
      cases hvalue with
      | inl heq => rw [Prod.ext hkey heq]
      | inr hR => rw [if_pos hR.1, if_pos hR.1, hF _ _ hR.2]

/-- What is alike under one key is the same under the others. -/
theorem AlikeAt.get?_eq {key name : String} {R : Json → Json → Prop} {j j' : Json}
    (h : AlikeAt key R j j') (hne : name ≠ key) : j.get? name = j'.get? name := by
  obtain rfl | ⟨ms, ms', rfl, rfl, hms⟩ := h
  · rfl
  · simp only [Json.get?]
    induction hms with
    | nil => rfl
    | @cons m m' ms ms' hm _ ih =>
      obtain ⟨k, v⟩ := m
      obtain ⟨k', v'⟩ := m'
      obtain ⟨hkey, hvalue⟩ := hm
      simp only at hkey hvalue
      subst hkey
      rw [List.lookup_cons, List.lookup_cons, ih]
      by_cases hname : name = k
      · have hvv : v = v' := hvalue.resolve_right fun hR => hne (hname.trans hR.1)
        rw [hvv]
      · rw [beq_eq_false_iff_ne.mpr hname]

/-- One redaction of one member. -/
def redactMember (redact : Bool) (field : String) (m : String × Json) : String × Json :=
  if redact = true ∧ m.1 = field then (m.1, .null) else m

theorem redactField_eq_map (redact : Bool) (field : String) (data : List (String × Json)) :
    redactField redact field data = data.map (redactMember redact field) := by
  rw [redactField_eq]
  unfold redactMember
  cases redact <;> simp [Members.modify]

theorem dropScores_eq_filter (filter : EgressFilter) (data : List (String × Json)) :
    dropScores filter.includeScores data = data.filter fun m => showsKey filter m.1 := by
  unfold dropScores showsKey
  cases filter.includeScores <;> simp [Members.removeAll_eq_filter]

/-- The filter takes alike data to one. -/
theorem DataAlike.filterData_eq {filter : EgressFilter} {j j' : Json}
    (h : DataAlike filter j j') :
    Json.onObj (filterData filter) j = Json.onObj (filterData filter) j' := by
  obtain ⟨d, d', rfl, rfl, hd⟩ := h
  simp only [Json.onObj, Json.obj.injEq, Egress.filterData_eq, redactField_eq_map,
    dropScores_eq_filter, List.map_map]
  apply hd.map_eq
  intro m m' hm
  obtain ⟨hkey, hvalue⟩ := hm
  cases hvalue with
  | inl heq => rw [Prod.ext hkey heq]
  | inr hredacts =>
    obtain ⟨k, v⟩ := m
    obtain ⟨k', v'⟩ := m'
    simp only at hkey hredacts
    subst hkey
    obtain ⟨hset, rfl⟩ | ⟨hset, rfl⟩ := hredacts
    · simp [redactMember, hset]
    · simp [redactMember, hset]

theorem ComponentAlike.filterComponent_eq {filter : EgressFilter} {c c' : Json}
    (h : ComponentAlike filter c c') : filterComponent filter c = filterComponent filter c' :=
  h.modify_eq fun _ _ hdata => hdata.filterData_eq

/-- What the filter keeps of the components is what it lets out. -/
theorem keeps_eq_showsComponent (filter : EgressFilter) (c : Json) :
    keeps filter c = showsComponent filter c := by
  have htype : isDetection c = decide (c.get? "component_type" = some (.str "llm_call")) := by
    unfold isDetection
    cases hget : c.get? "component_type" with
    | none => rfl
    | some v => cases v <;> simp [Json.asStr, detectionComponentTypes]
  simp only [keeps, showsComponent, htype, ne_eq, decide_not]

theorem ComponentsAlike.filterComponents_eq {filter : EgressFilter} {j j' : Json}
    (h : AlikeItems (showsComponent filter) (ComponentAlike filter) j j') :
    Json.onArr (filterComponents filter) j = Json.onArr (filterComponents filter) j' := by
  obtain ⟨cs, cs', rfl, rfl, hcs⟩ := h
  have hkeeps : keeps filter = showsComponent filter := funext (keeps_eq_showsComponent filter)
  simp only [Json.onArr, Json.arr.injEq, Egress.filterComponents_eq, hkeeps]
  exact hcs.map_eq fun _ _ hc => hc.filterComponent_eq

theorem EventAlike.filterEvent_eq {filter : EgressFilter} {ev ev' : Json}
    (h : EventAlike filter ev ev') : filterEvent filter ev = filterEvent filter ev' := by
  have htrace : Json.onObj (Members.modify "trace" (applyComponentFilters filter)) ev =
      Json.onObj (Members.modify "trace" (applyComponentFilters filter)) ev' :=
    h.modify_eq fun _ _ ht => ht.modify_eq fun _ _ hcs => ComponentsAlike.filterComponents_eq hcs
  have hstamp : ∀ ev, filterEvent filter ev =
      Json.onObj (Members.insert "trace_level" (.str (traceLevelWireStr filter.traceLevel)))
        (Json.onObj (Members.modify "trace" (applyComponentFilters filter)) ev) := by
    intro ev
    rw [Json.onObj_onObj]
    exact Json.onObj_congr (fun ms => Members.modify_insert_comm (by decide)) ev
  rw [hstamp, hstamp, htrace]

theorem EventsAlike.filterEvents_eq {filter : EgressFilter} {j j' : Json}
    (h : AlikeItems (fun _ => true) (EventAlike filter) j j') :
    Json.onArr (filterEvents fromDbStr filter) j =
      Json.onArr (filterEvents fromDbStr filter) j' := by
  obtain ⟨evs, evs', rfl, rfl, hevs⟩ := h
  rw [List.filter_true, List.filter_true] at hevs
  simp only [Json.onArr, Json.arr.injEq, Egress.filterEvents_eq]
  -- The severities are the same, so the same events stay.
  have hkept : List.Forall₂ (EventAlike filter) (evs.filter (keepsEvent fromDbStr filter))
      (evs'.filter (keepsEvent fromDbStr filter)) := by
    apply List.rel_filter _ hevs
    intro ev ev' hev
    simp only [keepsEvent_congr fromDbStr (hev.get?_eq (by decide)) filter]
  exact hkept.map_eq fun _ _ hev => hev.filterEvent_eq

/-- The filter takes alike batches to one. -/
theorem BatchAlike.applyEgressFilter_eq {filter : EgressFilter} {b b' : Json}
    (h : BatchAlike filter b b') :
    applyEgressFilter fromDbStr filter b = applyEgressFilter fromDbStr filter b' := by
  have hevents : Json.onObj (Members.modify "events" (Json.onArr (filterEvents fromDbStr filter))) b =
      Json.onObj (Members.modify "events" (Json.onArr (filterEvents fromDbStr filter))) b' :=
    h.modify_eq fun _ _ hevs => EventsAlike.filterEvents_eq fromDbStr hevs
  have hstamp : ∀ b, applyEgressFilter fromDbStr filter b =
      Json.onObj (Members.insert "trace_level" (.str (traceLevelWireStr filter.traceLevel)))
        (Json.onObj (Members.modify "events" (Json.onArr (filterEvents fromDbStr filter))) b) := by
    intro b
    rw [Json.onObj_onObj]
    exact Json.onObj_congr (fun ms => Members.modify_insert_comm (by decide)) b
  rw [hstamp, hstamp, hevents]

/-- **Egress filtering does not interfere.** Batches that differ only in what the filter withholds
    are filtered to one batch; filtering twice is filtering once; and two filters, in either order,
    leave the same but for the trace level that they stamp. -/
theorem applyEgressFilter_noninterfering (filter : EgressFilter) :
    (∀ b b', BatchAlike filter b b' →
      applyEgressFilter fromDbStr filter b = applyEgressFilter fromDbStr filter b') ∧
    (∀ b, applyEgressFilter fromDbStr filter (applyEgressFilter fromDbStr filter b) =
      applyEgressFilter fromDbStr filter b) ∧
    ∀ other b,
      unstamp (applyEgressFilter fromDbStr filter (applyEgressFilter fromDbStr other b)) =
        unstamp (applyEgressFilter fromDbStr other (applyEgressFilter fromDbStr filter b)) :=
  ⟨fun _ _ h => h.applyEgressFilter_eq fromDbStr, applyEgressFilter_self fromDbStr filter,
    fun other b => unstamp_comm fromDbStr filter other b⟩

end Egress

end CirisServer
