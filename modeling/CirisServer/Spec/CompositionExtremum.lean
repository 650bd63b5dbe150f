import CirisServer.Spec.CompositionClock

/-!
# The word of the extreme row

Under a polarity of extremes a group composes to the score of one row among those that tie for the
least, or the greatest, score. Rows tie within a tolerance, and Policy D chooses among them by the
populations that they name, so the word is the extreme score itself only where the chosen row has
it. Where it always is, one negative row makes a verdict of the least score negative, and a row more
makes no verdict weaker.
-/

namespace CirisServer.ComposePolicy

variable {L : Lib} {c : Composer} {track : TrackRecord} {density : CohortDensity} {p : Pair}
  {group : List Row}

/-- The rows of a group with what they contribute to its verdict. -/
def Composer.weighedGroup (c : Composer) (track : TrackRecord) (density : CohortDensity) (p : Pair)
    (group : List Row) : List Weighed :=
  weighed (c.contribution track density (c.licensureCap (ofLex p).1 group)) group

/-- A verdict is that of the aggregate of the weighed rows. -/
theorem composeGroup_eq : c.composeGroup L track density p group =
    (aggregate L (polarityFor (ofLex p).1) (c.weighedGroup track density p group)).map
      (c.verdictOf p (c.licensureCap (ofLex p).1 group)
        ((c.weighedGroup track density p group).map Prod.fst)) := by
  rw [Composer.composeGroup]
  show (aggregate L _ (c.weighedGroup track density p group)).bind _ = _
  cases aggregate L (polarityFor (ofLex p).1) (c.weighedGroup track density p group) with
  | none => rfl
  | some a =>
    show some _ = some _
    simp only [Composer.verdictOf, Composer.weighedGroup, weighed, List.isEmpty_map]
    rfl

theorem weighedGroup_isEmpty (hne : group ≠ []) :
    (c.weighedGroup track density p group).isEmpty = false := by
  simpa [Composer.weighedGroup, weighed] using hne

/-! ## Extremes -/

/-- The polarities that take an extreme score: the least, or the greatest. -/
def Polarity.isMin : Polarity → Bool
  | .booleanViaScore | .negativeOnly => true
  | _ => false

def Polarity.isExtreme : Polarity → Bool
  | .booleanViaScore | .negativeOnly | .positiveOnly => true
  | _ => false

/-- `x` is at least as strong a word as `y`: a lower one where the least counts, and else a higher
    one. -/
def Polarity.Outranks (polarity : Polarity) (x y : ℚ) : Prop :=
  if polarity.isMin then x ≤ y else y ≤ x

/-- `x` is the extreme score of the group. -/
def Extreme (polarity : Polarity) (x : ℚ) (group : List Row) : Prop :=
  (∃ r ∈ group, r.score = x) ∧ ∀ r ∈ group, polarity.Outranks x r.score

/-- Of the rows that tie, those that name the smallest population, to the tolerance. -/
def mostAffected (tied : List Row) : List Row :=
  tied.filter fun r => r.affectedPopulation.any fun population =>
    tied.all fun s => s.affectedPopulation.all fun q => decide (population < q + 1 / 10 ^ 9)

/-- Policy D prefers the row: it alone names the smallest population, or the substrate takes it out
    of those that do. -/
def Prefers (L : Lib) (tied : List Row) (r : Row) : Prop :=
  mostAffected tied = [r] ∨ (mostAffected tied).length ≠ 1 ∧
    ∃ att, L.precedenceWinner ((mostAffected tied).map (·.att)) = some att ∧
      (mostAffected tied).find? (·.att.attestationId == att.attestationId) = some r

/-- One row stands alone at the extreme of the group, or else Policy D prefers a row of exactly the
    extreme score among those that tie. -/
def Decided (L : Lib) (polarity : Polarity) (group : List Row) : Prop :=
  (foremost polarity group).length = 1 ∨
    ∃ r, Prefers L (foremost polarity group) r ∧ ∀ s ∈ group, polarity.Outranks r.score s.score

section Winner

variable {w : Row → Contribution} {tied : List Row} {r : Row} {a : Aggregate} {polarity : Polarity}

/-- The finalists are the rows of the smallest population. -/
theorem finalists_weighed {least : ℚ}
    (h : ((weighed w tied).filterMap (·.2.affectedPopulation)).min? = some least) :
    finalists (weighed w tied) least = weighed w (mostAffected tied) := by
  have hpopulations : (weighed w tied).filterMap (·.2.affectedPopulation) =
      tied.filterMap Row.affectedPopulation := by
    rw [weighed, List.filterMap_map]
    rfl
  rw [hpopulations] at h
  rw [finalists, weighed_filter, mostAffected]
  congr 1
  apply List.filter_congr
  intro r hr
  cases hpopulation : r.affectedPopulation with
  | none => rfl
  | some population =>
    have hmem : population ∈ tied.filterMap Row.affectedPopulation :=
      List.mem_filterMap.mpr ⟨r, hr, hpopulation⟩
    rw [Option.any_some, Option.any_some, near_min_iff h hmem, List.all_filterMap]
    rfl

theorem mostAffected_eq_nil
    (h : (weighed w tied).filterMap (·.2.affectedPopulation) = []) : mostAffected tied = [] := by
  rw [mostAffected, List.filter_eq_nil_iff]
  intro r hr
  rw [List.filterMap_eq_nil_iff] at h
  have hnone : r.affectedPopulation = none := h (w r, r) (List.mem_map_of_mem hr)
  simp [hnone]

/-- The winner of a tie is the row that Policy D prefers. -/
theorem winner_eq_some_iff {v : Weighed} : lexicalVulnerabilityWinner L (weighed w tied) = some v ↔
    ∃ r, Prefers L tied r ∧ v = (w r, r) := by
  rw [lexicalVulnerabilityWinner]
  cases hmin : ((weighed w tied).filterMap (·.2.affectedPopulation)).min? with
  | none =>
    have hnil := mostAffected_eq_nil (List.min?_eq_none_iff.mp hmin)
    simp [Prefers, hnil]
  | some least =>
    rw [Option.bind_eq_bind, Option.bind_some, finalists_weighed hmin]
    by_cases hone : (mostAffected tied).length = 1
    · obtain ⟨r, hr⟩ := List.length_eq_one_iff.mp hone
      rw [hr]
      constructor
      · intro h
        cases h
        exact ⟨r, .inl hr, rfl⟩
      · rintro ⟨s, hs | ⟨hmany, -⟩, rfl⟩
        · rw [hr] at hs
          cases hs
          rfl
        · exact absurd hone hmany
    · have hmany : ∀ r, mostAffected tied ≠ [r] := by
        intro r hr
        exact hone (by rw [hr]; rfl)
      have hatts : (weighed w (mostAffected tied)).map (·.2.att) =
          (mostAffected tied).map (·.att) := by
        rw [weighed, List.map_map]
        rfl
      rw [if_neg (by simpa [weighed] using hone), hatts, Option.bind_eq_bind,
        Option.bind_eq_some_iff]
      simp only [weighed, List.find?_map, Option.map_eq_some_iff]
      constructor
      · rintro ⟨att, hatt, r, hr, rfl⟩
        exact ⟨r, .inr ⟨hone, att, hatt, hr⟩, rfl⟩
      · rintro ⟨r, hr | ⟨-, att, hatt, hr⟩, rfl⟩
        · exact absurd hr (hmany r)
        · exact ⟨att, hatt, r, hr, rfl⟩

/-- The one row, or the preferred one, lends its score to the verdict. -/
theorem oneOf_value_iff (hw : ∀ r, (w r).score = r.score) {x : ℚ} :
    (∃ a, oneOf L (weighed w tied) = some a ∧ a.value = x) ↔
      ∃ r, (tied = [r] ∨ tied.length ≠ 1 ∧ Prefers L tied r) ∧ r.score = x := by
  by_cases hone : tied.length = 1
  · obtain ⟨r, rfl⟩ := List.length_eq_one_iff.mp hone
    simp [weighed, oneOf, hw]
  · have hmany : ∀ r, tied ≠ [r] := by
      intro r hr
      exact hone (by rw [hr]; rfl)
    rw [oneOf_of_length_ne (by simpa [weighed] using hone)]
    simp only [hmany, hone, false_or, ne_eq, not_false_eq_true, true_and, Option.map_eq_some_iff]
    constructor
    · rintro ⟨a, ⟨v, hv, rfl⟩, rfl⟩
      obtain ⟨r, hr, rfl⟩ := winner_eq_some_iff.mp hv
      exact ⟨r, hr, (hw r).symm⟩
    · rintro ⟨r, hr, rfl⟩
      exact ⟨_, ⟨_, winner_eq_some_iff.mpr ⟨r, hr, rfl⟩, rfl⟩, hw r⟩

theorem prefers_mem (h : Prefers L tied r) : r ∈ tied := by
  rcases h with hone | ⟨-, att, -, hfind⟩
  · have hmem : r ∈ mostAffected tied := hone ▸ List.mem_singleton_self r
    exact (List.mem_filter.mp hmem).1
  · exact (List.mem_filter.mp (List.mem_of_find?_eq_some hfind)).1

end Winner

section Group

variable {polarity : Polarity}

/-- Some row of the extreme score is among the foremost. -/
theorem exists_extreme (hp : polarity.isExtreme = true) (hne : group ≠ []) :
    ∃ r ∈ foremost polarity group, ∀ s ∈ group, polarity.Outranks r.score s.score := by
  have hrows : (group : Multiset Row) ≠ 0 := by simpa using hne
  cases polarity with
  | signed | enumerated | detector => cases hp
  | booleanViaScore | negativeOnly =>
    obtain ⟨r, hr, hle⟩ := Multiset.exists_min_image Row.score hrows
    refine ⟨r, List.mem_filter.mpr ⟨hr, List.all_eq_true.mpr fun s hs => ?_⟩, fun s hs => hle s hs⟩
    exact decide_eq_true (by linarith [hle s hs])
  | positiveOnly =>
    obtain ⟨r, hr, hge⟩ := Multiset.exists_max_image Row.score hrows
    refine ⟨r, List.mem_filter.mpr ⟨hr, List.all_eq_true.mpr fun s hs => ?_⟩, fun s hs => hge s hs⟩
    exact decide_eq_true (by linarith [hge s hs])

/-- A polarity of extremes takes the word of one of the foremost rows. -/
theorem aggregate_extreme {w : Row → Contribution} (hw : ∀ r, (w r).score = r.score)
    (hp : polarity.isExtreme = true) (hne : group ≠ []) :
    aggregate L polarity (weighed w group) = oneOf L (weighed w (foremost polarity group)) := by
  have hcons : (weighed w group).isEmpty = false := by simpa [weighed] using hne
  rw [aggregate.eq_def, hcons, if_neg Bool.false_ne_true]
  cases polarity with
  | signed | enumerated | detector => cases hp
  | booleanViaScore | negativeOnly => exact extremum_min hw hne
  | positiveOnly => exact extremum_max hw hne

/-- The verdict has the extreme score exactly if the group is decided. -/
theorem composeGroup_value_extreme_iff (hp : (polarityFor (ofLex p).1).isExtreme = true)
    (hne : group ≠ []) :
    (∃ v, c.composeGroup L track density p group = some v ∧
      Extreme (polarityFor (ofLex p).1) v.value group) ↔
      Decided L (polarityFor (ofLex p).1) group := by
  obtain ⟨most, hmost, hextreme⟩ := exists_extreme hp hne
  rw [composeGroup_eq, Composer.weighedGroup, aggregate_extreme (fun _ => rfl) hp hne]
  constructor
  · rintro ⟨v, hv, hvalue⟩
    obtain ⟨a, ha, rfl⟩ := Option.map_eq_some_iff.mp hv
    obtain ⟨r, halone | ⟨-, hprefers⟩, hscore⟩ :=
      (oneOf_value_iff (contribution_score track density _)).mp ⟨a, ha, rfl⟩
    · exact .inl (by rw [halone]; rfl)
    · refine .inr ⟨r, hprefers, fun s hs => ?_⟩
      rw [hscore]
      exact hvalue.2 s hs
  · intro hdecided
    obtain ⟨r, hr, hmem, hrank⟩ : ∃ r, (foremost (polarityFor (ofLex p).1) group = [r] ∨
        (foremost (polarityFor (ofLex p).1) group).length ≠ 1 ∧
          Prefers L (foremost (polarityFor (ofLex p).1) group) r) ∧ r ∈ group ∧
        ∀ s ∈ group, (polarityFor (ofLex p).1).Outranks r.score s.score := by
      by_cases hone : (foremost (polarityFor (ofLex p).1) group).length = 1
      · obtain ⟨r, hr⟩ := List.length_eq_one_iff.mp hone
        rw [hr, List.mem_singleton] at hmost
        subst hmost
        exact ⟨most, .inl hr, mem_of_foremost (hr ▸ List.mem_singleton_self most), hextreme⟩
      · obtain ⟨r, hprefers, hrank⟩ := hdecided.resolve_left hone
        exact ⟨r, .inr ⟨hone, hprefers⟩, mem_of_foremost (prefers_mem hprefers), hrank⟩
    obtain ⟨a, ha, hvalue⟩ := (oneOf_value_iff (contribution_score track density _)).mpr ⟨r, hr, rfl⟩
    exact ⟨_, by rw [ha]; rfl, ⟨r, hmem, hvalue.symm⟩, fun s hs => hvalue ▸ hrank s hs⟩

/-- **The fail-secure word**: a group's verdict has the extreme score, with a negative row it denies,
    and a row more makes it no weaker, exactly if both groups are decided. -/
theorem composeGroup_failSecure_iff (L : Lib) (c : Composer) (track track' : TrackRecord)
    (density density' : CohortDensity) {group' : List Row} {row : Row}
    (hp : (polarityFor (ofLex p).1).isExtreme = true) (hne : group ≠ [])
    (hadd : List.Inserted row group group') :
    (∃ v v', c.composeGroup L track density p group = some v ∧
      c.composeGroup L track' density' p group' = some v' ∧
      Extreme (polarityFor (ofLex p).1) v.value group ∧
      Extreme (polarityFor (ofLex p).1) v'.value group' ∧
      ((polarityFor (ofLex p).1).isMin = true → (∃ r ∈ group, r.score < 0) →
        v.value < 0 ∧ (c.cfg.threshold = 0 → v.decision = .deny)) ∧
      (polarityFor (ofLex p).1).Outranks v'.value v.value) ↔
      Decided L (polarityFor (ofLex p).1) group ∧ Decided L (polarityFor (ofLex p).1) group' := by
  have hne' : group' ≠ [] := List.ne_nil_of_mem (hadd.mem_iff.mpr (.inl rfl))
  constructor
  · rintro ⟨v, v', hv, hv', hvalue, hvalue', -⟩
    exact ⟨(composeGroup_value_extreme_iff hp hne).mp ⟨v, hv, hvalue⟩,
      (composeGroup_value_extreme_iff hp hne').mp ⟨v', hv', hvalue'⟩⟩
  · rintro ⟨hdecided, hdecided'⟩
    obtain ⟨v, hv, hvalue⟩ := (composeGroup_value_extreme_iff hp hne).mpr hdecided
    obtain ⟨v', hv', hvalue'⟩ := (composeGroup_value_extreme_iff hp hne').mpr hdecided'
    refine ⟨v, v', hv, hv', hvalue, hvalue', ?_, ?_⟩
    · rintro hmin ⟨r, hr, hneg⟩
      have hbelow : v.value < 0 := by
        have hle := hvalue.2 r hr
        rw [Polarity.Outranks, if_pos hmin] at hle
        exact lt_of_le_of_lt hle hneg
      refine ⟨hbelow, fun hthreshold => ?_⟩
      rw [composeGroup_eq] at hv
      obtain ⟨a, -, rfl⟩ := Option.map_eq_some_iff.mp hv
      have hsome : ((c.weighedGroup track density p group).map Prod.fst).isEmpty = false := by
        rw [List.isEmpty_map]
        exact weighedGroup_isEmpty hne
      show (if _ then _ else if _ then _ else Decision.deny) = Decision.deny
      rw [hsome, if_neg Bool.false_ne_true, if_neg]
      rw [hthreshold]
      exact not_le.mpr hbelow
    · obtain ⟨r, hr, hscore⟩ := hvalue.1
      rw [← hscore]
      exact hvalue'.2 r (hadd.mem_iff.mpr (.inr hr))

end Group

section Samples

/-- A row of the sample with the score `x`, about a population. -/
def sampleScored (id : String) (x : ℚ) (population : Int) : Attestation where
  attestationId := id
  attestingKeyId := "steward"
  attestedKeyId := "node"
  attestationType := scoresType
  assertedAt := 0
  expiresAt := none
  attestationEnvelope := .obj [("dimension", .str "prohibited:weapons"), ("score", .num (.float x)),
    ("confidence", .num (.int 1)),
    ("context", .obj [("affected_population_estimate", .num (.int population))])]

/-- Two rows of opposite signs that tie within the tolerance. -/
def nearlyZero : List Attestation :=
  [sampleScored "a" (-1 / 2 ^ 43) 1000, sampleScored "b" (1 / 2 ^ 43) 10]

/-- The negative row does not trump: the verdict is the other row's score, and affirms. -/
theorem compose_nearlyZero :
    (sampleComposer.admitted sampleLib 0 nearlyZero).map (fun r => (r.dimension, r.score)) =
      [("prohibited:weapons", -1 / 2 ^ 43), ("prohibited:weapons", 1 / 2 ^ 43)] ∧
    polarityFor "prohibited:weapons" = .negativeOnly ∧ sampleComposer.cfg.threshold = 0 ∧
    (sampleComposer.compose sampleLib 0 nearlyZero).map
      (fun k => k.verdicts.map fun v => (v.value, v.decision)) =
        some [(1 / 2 ^ 43, .affirm)] := by
  refine ⟨by decide +kernel, by decide +kernel, rfl, by decide +kernel⟩

/-- The row that is admitted of a scored attestation. -/
def scoredRow (id : String) (x : ℚ) : Row :=
  ⟨sampleScored id x 10, "prohibited:weapons", x, 1, "external", some 10, none⟩

/-- One row against another and, a third being added, against two. -/
theorem composeGroup_failSecure_iff_sample :
    ∃ v, sampleComposer.composeGroup sampleLib (TrackRecord.of []) (CohortDensity.of [])
      (toLex ("prohibited:weapons", "node")) [scoredRow "a" (-1 / 2), scoredRow "b" 1] = some v ∧
      v.value < 0 ∧ v.decision = .deny := by
  have hadd : List.Inserted (scoredRow "c" 1) [scoredRow "a" (-1 / 2), scoredRow "b" 1]
      [scoredRow "a" (-1 / 2), scoredRow "b" 1, scoredRow "c" 1] :=
    ⟨[scoredRow "a" (-1 / 2), scoredRow "b" 1], [], rfl, rfl⟩
  obtain ⟨v, -, hv, -, -, -, hnegative, -⟩ := (composeGroup_failSecure_iff sampleLib sampleComposer
    (TrackRecord.of []) (TrackRecord.of []) (CohortDensity.of []) (CohortDensity.of [])
    (p := toLex ("prohibited:weapons", "node")) (by decide +kernel) (List.cons_ne_nil _ _)
    hadd).mpr ⟨.inl (by decide +kernel), .inl (by decide +kernel)⟩
  obtain ⟨hbelow, hdeny⟩ := hnegative (by decide +kernel)
    ⟨scoredRow "a" (-1 / 2), by simp, by decide +kernel⟩
  exact ⟨v, hv, hbelow, hdeny rfl⟩

end Samples

end CirisServer.ComposePolicy
