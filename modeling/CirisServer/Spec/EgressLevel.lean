import CirisServer.Spec.Egress

/-!
# The level stamped on egress

A filter's trace level is a ceiling: a batch that declares a lower one was captured at that level,
and leaves at it. The filter stamps its own level on the batch and on each event, so that is the
lower of the two only where nothing declares a lower one.
-/

namespace CirisServer.Egress

def TraceLevel.rank : TraceLevel → Nat
  | .generic => 0
  | .detailed => 1
  | .fullTraces => 2

theorem traceLevelWireStr_inj {l m : TraceLevel}
    (h : traceLevelWireStr l = traceLevelWireStr m) : l = m := by
  revert h
  cases l <;> cases m <;> decide

/-- The level that a batch or an event declares. -/
def declaredLevel (j : Json) : Option TraceLevel :=
  ((j.get? "trace_level").bind Json.asStr).bind fun s =>
    [.generic, .detailed, .fullTraces].find? fun level => traceLevelWireStr level == s

/-- The lower of a ceiling and of a level that is declared, if one is. -/
def lowered (ceiling : TraceLevel) : Option TraceLevel → TraceLevel
  | none => ceiling
  | some level => if level.rank < ceiling.rank then level else ceiling

/-- The level that is stamped on an object; nothing else carries one. -/
def Stamped (level : TraceLevel) : Json → Prop
  | .obj ms => ms.lookup "trace_level" = some (.str (traceLevelWireStr level))
  | _ => True

/-- What is declared, if anything, is not below the ceiling. -/
def Reaches (ceiling : TraceLevel) (declared : Option TraceLevel) : Prop :=
  ∀ level, declared = some level → ceiling.rank ≤ level.rank

theorem lowered_eq_iff {ceiling : TraceLevel} {declared : Option TraceLevel} :
    lowered ceiling declared = ceiling ↔ Reaches ceiling declared := by
  cases declared with
  | none => simp [lowered, Reaches]
  | some level =>
    simp only [lowered, Reaches, Option.some.injEq, forall_eq']
    split
    · next hlt =>
      refine iff_of_false (fun heq => ?_) (by omega)
      rw [heq] at hlt
      exact Nat.lt_irrefl _ hlt
    · next hle => exact iff_of_true rfl (by omega)

/-- The events of a batch. -/
def eventsOf (batch : Json) : List Json :=
  match batch.get? "events" with
  | some (.arr events) => events
  | _ => []

variable {fromDbStr : String → Option DetectionSeverity} {filter : EgressFilter}

/-- A write of the level is what is stamped, if nothing writes over it. -/
theorem stamped_insert_iff {key : String} (hkey : "trace_level" ≠ key) {f : Json → Json}
    {level ceiling : TraceLevel} {ms : List (String × Json)} :
    Stamped level (.obj (Members.modify key f
      (Members.insert "trace_level" (.str (traceLevelWireStr ceiling)) ms))) ↔ level = ceiling := by
  rw [Stamped, Members.lookup_modify_of_ne hkey, Members.lookup_insert_self, Option.some.injEq,
    Json.str.injEq]
  constructor
  · intro h
    exact (traceLevelWireStr_inj h).symm
  · rintro rfl
    rfl

theorem stamped_filterEvent_iff {level : TraceLevel} {ms : List (String × Json)} :
    Stamped level (filterEvent filter (.obj ms)) ↔ level = filter.traceLevel :=
  stamped_insert_iff (by decide)

theorem stamped_applyEgressFilter_iff {level : TraceLevel} {ms : List (String × Json)} :
    Stamped level (applyEgressFilter fromDbStr filter (.obj ms)) ↔ level = filter.traceLevel :=
  stamped_insert_iff (by decide)

/-- What is not an object declares nothing. -/
theorem reaches_of_not_obj {ceiling : TraceLevel} {j : Json} (h : ∀ ms, j ≠ .obj ms) :
    Reaches ceiling (declaredLevel j) := by
  cases j with
  | obj ms => exact absurd rfl (h ms)
  | _ => exact fun level hlevel => nomatch hlevel

theorem eventsOf_applyEgressFilter (batch : Json) :
    eventsOf (applyEgressFilter fromDbStr filter batch) =
      filterEvents fromDbStr filter (eventsOf batch) := by
  cases batch with
  | obj ms =>
    simp only [eventsOf, Json.get?, applyEgressFilter, Json.onObj, Members.lookup_modify,
      Members.lookup_insert_of_ne (show "events" ≠ "trace_level" by decide)]
    cases hevents : ms.lookup "events" with
    | none => simp [filterEvents_eq]
    | some events => cases events <;> simp [Json.onArr, filterEvents_eq]
  | _ => simp [eventsOf, Json.get?, applyEgressFilter, Json.onObj, filterEvents_eq]

/-- **A ceiling where nothing is below it**: the batch and each event that is kept leave with the
    lower of the filter's level and the declared one (an event that declares none has its batch's)
    exactly if no level declared by them is below the filter's. -/
theorem applyEgressFilter_lowered_iff (fromDbStr : String → Option DetectionSeverity)
    (filter : EgressFilter) (batch : Json) :
    (Stamped (lowered filter.traceLevel (declaredLevel batch))
        (applyEgressFilter fromDbStr filter batch) ∧
      List.Forall₂ (fun ev out =>
          Stamped (lowered filter.traceLevel ((declaredLevel ev).or (declaredLevel batch))) out)
        ((eventsOf batch).filter (keepsEvent fromDbStr filter))
        (eventsOf (applyEgressFilter fromDbStr filter batch))) ↔
      Reaches filter.traceLevel (declaredLevel batch) ∧
        ∀ ev ∈ (eventsOf batch).filter (keepsEvent fromDbStr filter),
          Reaches filter.traceLevel (declaredLevel ev) := by
  rw [eventsOf_applyEgressFilter, filterEvents_eq, List.forall₂_map_right_iff, List.forall₂_same]
  constructor
  · rintro ⟨hbatch, hevents⟩
    constructor
    · cases batch with
      | obj ms => exact lowered_eq_iff.mp (stamped_applyEgressFilter_iff.mp hbatch)
      | _ => exact reaches_of_not_obj (by simp)
    · intro ev hev
      cases ev with
      | obj ms =>
        have hlowered := stamped_filterEvent_iff.mp (hevents _ hev)
        cases hdeclared : declaredLevel (.obj ms) with
        | none => exact fun level hlevel => nomatch hlevel
        | some level =>
          rw [hdeclared] at hlowered
          exact lowered_eq_iff.mp hlowered
      | _ => exact reaches_of_not_obj (by simp)
  · rintro ⟨hbatch, hevents⟩
    constructor
    · cases batch with
      | obj ms => exact stamped_applyEgressFilter_iff.mpr (lowered_eq_iff.mpr hbatch)
      | _ => trivial
    · intro ev hev
      cases ev with
      | obj ms =>
        refine stamped_filterEvent_iff.mpr (lowered_eq_iff.mpr ?_)
        cases hdeclared : declaredLevel (.obj ms) with
        | none => exact hbatch
        | some level =>
          have hreaches := hevents _ hev
          rw [hdeclared] at hreaches
          exact hreaches
      | _ => trivial

/-- A batch that was captured at the lowest level. -/
def genericBatch : Json :=
  .obj [("trace_level", .str "generic"), ("events", .arr [.obj [("trace_level", .str "generic")]])]

/-- It leaves as a batch of full traces. -/
theorem applyEgressFilter_genericBatch :
    declaredLevel genericBatch = some .generic ∧
    applyEgressFilter (fun _ => none) (.new .fullTraces) genericBatch =
      .obj [("trace_level", .str "full_traces"),
        ("events", .arr [.obj [("trace_level", .str "full_traces")]])] ∧
    ¬ Stamped (lowered .fullTraces (declaredLevel genericBatch))
      (applyEgressFilter (fun _ => none) (.new .fullTraces) genericBatch) := by
  refine ⟨by decide +kernel, by decide +kernel, ?_⟩
  rw [show declaredLevel genericBatch = some .generic by decide +kernel]
  exact mt stamped_applyEgressFilter_iff.mp (by decide)

end CirisServer.Egress
