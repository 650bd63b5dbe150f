import CirisServer.ForStd.OrderStat
import CirisServer.Spec.CompositionExtremum

/-!
# One attester among the detectors

A detector dimension composes to the middle of the rows' scores. The rows count, not their
attesters: one key moves the verdict beyond what all others say as soon as half of the rows are its
own and on one side of theirs, and not before.
-/

namespace CirisServer.ComposePolicy

/-- The rows of the other attesters. -/
def others (k : String) (group : List Row) : List Row :=
  group.filter fun r => r.att.attestingKeyId != k

/-- `x` lies between the smallest and the largest score of the rows. -/
def Between (x : ℚ) (rows : List Row) : Prop :=
  (∃ r ∈ rows, r.score ≤ x) ∧ ∃ r ∈ rows, x ≤ r.score

/-- The rows above everything that the others say, and those below it. -/
def above (k : String) (group : List Row) : List Row :=
  group.filter fun r => (others k group).all fun s => decide (s.score < r.score)

def below (k : String) (group : List Row) : List Row :=
  group.filter fun r => (others k group).all fun s => decide (r.score < s.score)

/-- Fewer than half of the rows are above all of the others', and fewer than half below them. -/
def Outnumbered (k : String) (group : List Row) : Prop :=
  2 * (above k group).length < group.length ∧ 2 * (below k group).length < group.length

instance (k : String) (group : List Row) : Decidable (Outnumbered k group) :=
  inferInstanceAs (Decidable (_ ∧ _))

variable {k : String} {group : List Row}

/-- The median is the middle of the sorted scores. -/
theorem median_eq_middle (scores : List ℚ) :
    median scores = (scores.insertionSort (· ≤ ·)).middle := rfl

/-- The largest score of the others bounds the median if few enough rows are above it. -/
theorem median_le_others_iff (hne : others k group ≠ []) :
    (∃ r ∈ others k group, median (group.map Row.score) ≤ r.score) ↔
      2 * (above k group).length < group.length := by
  obtain ⟨top, htop, hmax⟩ := Multiset.exists_max_image Row.score
    (s := (others k group : Multiset Row)) (by simpa using hne)
  rw [Multiset.mem_coe] at htop
  have hmem : top.score ∈ (group.map Row.score).insertionSort (· ≤ ·) :=
    (List.mem_insertionSort _).mpr (List.mem_map_of_mem (List.mem_filter.mp htop).1)
  have hcount : ((group.map Row.score).insertionSort (· ≤ ·)).countP
      (fun x => decide (top.score < x)) = (above k group).length := by
    rw [(List.perm_insertionSort _ _).countP_eq, List.countP_map, above,
      ← List.countP_eq_length_filter]
    apply List.countP_congr
    intro r _
    simp only [Function.comp_apply, decide_eq_true_eq, List.all_eq_true]
    constructor
    · intro hlt s hs
      exact lt_of_le_of_lt (hmax s (Multiset.mem_coe.mpr hs)) hlt
    · intro hall
      exact hall top htop
  have hmiddle := (List.pairwise_insertionSort (· ≤ ·) (group.map Row.score)).middle_le_iff hmem
  rw [hcount, List.length_insertionSort, List.length_map, ← median_eq_middle] at hmiddle
  rw [← hmiddle]
  constructor
  · rintro ⟨r, hr, hle⟩
    exact hle.trans (hmax r (Multiset.mem_coe.mpr hr))
  · intro hle
    exact ⟨top, htop, hle⟩

/-- And the smallest one bounds it from below if few enough are below it. -/
theorem others_le_median_iff (hne : others k group ≠ []) :
    (∃ r ∈ others k group, r.score ≤ median (group.map Row.score)) ↔
      2 * (below k group).length < group.length := by
  obtain ⟨bottom, hbottom, hmin⟩ := Multiset.exists_min_image Row.score
    (s := (others k group : Multiset Row)) (by simpa using hne)
  rw [Multiset.mem_coe] at hbottom
  have hmem : bottom.score ∈ (group.map Row.score).insertionSort (· ≤ ·) :=
    (List.mem_insertionSort _).mpr (List.mem_map_of_mem (List.mem_filter.mp hbottom).1)
  have hcount : ((group.map Row.score).insertionSort (· ≤ ·)).countP
      (fun x => decide (x < bottom.score)) = (below k group).length := by
    rw [(List.perm_insertionSort _ _).countP_eq, List.countP_map, below,
      ← List.countP_eq_length_filter]
    apply List.countP_congr
    intro r _
    simp only [Function.comp_apply, decide_eq_true_eq, List.all_eq_true]
    constructor
    · intro hlt s hs
      exact lt_of_lt_of_le hlt (hmin s (Multiset.mem_coe.mpr hs))
    · intro hall
      exact hall bottom hbottom
  have hmiddle := (List.pairwise_insertionSort (· ≤ ·) (group.map Row.score)).le_middle_iff hmem
  rw [hcount, List.length_insertionSort, List.length_map, ← median_eq_middle] at hmiddle
  rw [← hmiddle]
  constructor
  · rintro ⟨r, hr, hle⟩
    exact (hmin r (Multiset.mem_coe.mpr hr)).trans hle
  · intro hle
    exact ⟨bottom, hbottom, hle⟩

/-- A detector's verdict is the median of its rows. -/
theorem composeGroup_detector (L : Lib) (c : Composer) (track : TrackRecord)
    (density : CohortDensity) {p : Pair} (hp : polarityFor (ofLex p).1 = .detector)
    (hne : group ≠ []) :
    ∃ v, c.composeGroup L track density p group = some v ∧
      v.value = median (group.map Row.score) := by
  have hscores : (c.weighedGroup track density p group).map (·.1.score) = group.map Row.score :=
    scores_weighed fun _ => rfl
  rw [composeGroup_eq, hp, aggregate, weighedGroup_isEmpty hne, hscores]
  exact ⟨_, rfl, rfl⟩

/-- **One captured attester**: the verdict stays among the scores of the others exactly if the
    attester's rows beyond them are outnumbered, on either side. -/
theorem composeGroup_between_iff (L : Lib) (c : Composer) (track : TrackRecord)
    (density : CohortDensity) {p : Pair} (hp : polarityFor (ofLex p).1 = .detector)
    (hne : others k group ≠ []) :
    (∃ v, c.composeGroup L track density p group = some v ∧ Between v.value (others k group)) ↔
      Outnumbered k group := by
  obtain ⟨r, hr⟩ := List.exists_mem_of_ne_nil _ hne
  have hgroup : group ≠ [] := List.ne_nil_of_mem (List.mem_filter.mp hr).1
  obtain ⟨v, hv, hvalue⟩ := composeGroup_detector L c track density hp hgroup
  rw [Outnumbered, ← median_le_others_iff hne, ← others_le_median_iff hne, ← hvalue]
  constructor
  · rintro ⟨v', hv', hlow, hhigh⟩
    cases hv.symm.trans hv'
    exact ⟨hhigh, hlow⟩
  · rintro ⟨hhigh, hlow⟩
    exact ⟨v, hv, hlow, hhigh⟩

section Samples

/-- Three keys are pinned. -/
def threePinned : Composer :=
  { sampleComposer with trust := ⟨["first", "second", "captured"], []⟩ }

def detectorRow (id attester : String) (score : Int) : Attestation :=
  sampleRow id attester "detection:correlated_action:burst" score []

/-- Two detectors see nothing, and a third says otherwise three times. -/
def shoutedDown : List Attestation :=
  [detectorRow "a" "first" 0, detectorRow "b" "second" 0, detectorRow "c" "captured" 1,
    detectorRow "d" "captured" 1, detectorRow "e" "captured" 1]

/-- The verdict is the word of the one key, which none of the others' rows reaches. -/
theorem compose_shoutedDown :
    (threePinned.admitted sampleLib 0 shoutedDown).map (fun r => (r.att.attestingKeyId, r.score)) =
      [("first", 0), ("second", 0), ("captured", 1), ("captured", 1), ("captured", 1)] ∧
    (threePinned.compose sampleLib 0 shoutedDown).map
      (fun k => k.verdicts.map fun v => (v.polarity, v.value)) = some [(.detector, 1)] ∧
    ¬ Between 1 (others "captured" (threePinned.admitted sampleLib 0 shoutedDown)) := by
  have hothers : ((others "captured" (threePinned.admitted sampleLib 0 shoutedDown)).all
      fun r => decide (r.score < 1)) = true := by decide +kernel
  refine ⟨by decide +kernel, by decide +kernel, ?_⟩
  rintro ⟨-, r, hr, hle⟩
  have hlt := of_decide_eq_true (List.all_eq_true.mp hothers r hr)
  exact absurd hle (not_le.mpr hlt)

/-- With one row the captured key is outnumbered. -/
theorem composeGroup_between_iff_sample :
    let rows := threePinned.admitted sampleLib 0 (shoutedDown.take 3)
    ∃ v, threePinned.composeGroup sampleLib (TrackRecord.of rows) (CohortDensity.of rows)
      (toLex ("detection:correlated_action:burst", "node")) rows = some v ∧
      Between v.value (others "captured" rows) := by
  intro rows
  have hlen : (others "captured" rows).length = 2 := by decide +kernel
  refine (composeGroup_between_iff sampleLib threePinned _ _ (by decide +kernel) ?_).mpr (by decide +kernel)
  exact List.ne_nil_of_length_pos (by omega)

end Samples

end CirisServer.ComposePolicy
