import Mathlib.Data.Finset.Max
import Mathlib.Tactic.Linarith
import CirisServer.Native.ComposePolicy

/-!
# What a composition consists of

A composition is one verdict for each pair of a dimension and an attested key, in order: that of
the pair's admitted rows, or no verdict on either side where none was admitted. It exists unless
one of the pairs has several rows that tie and none of them names a population.
-/

namespace CirisServer.ComposePolicy

variable {L : Lib} {c : Composer} {now utcNow : Int} {corpus : List Attestation}

/-! ## The verdicts, pair by pair -/

/-- The pairs with a row of a readable dimension. -/
def Composer.pairs (L : Lib) (c : Composer) (now : Int) (corpus : List Attestation) :
    List Pair :=
  ((c.admitted L now corpus).map Row.pair ++
    (c.refused L now corpus).filterMap (·.pair? corpus)).sortedKeys

/-- The admitted rows of a pair. -/
def Composer.group (L : Lib) (c : Composer) (now : Int) (corpus : List Attestation) (p : Pair) :
    List Row :=
  (c.admitted L now corpus).filter fun r => r.pair == p

/-- The verdict on a pair. -/
def Composer.verdictAt (L : Lib) (c : Composer) (now : Int) (corpus : List Attestation)
    (p : Pair) : Option Verdict :=
  if p ∈ (c.admitted L now corpus).map Row.pair then
    c.composeGroup L (TrackRecord.of (c.admitted L now corpus))
      (CohortDensity.of (c.admitted L now corpus)) p (c.group L now corpus p)
  else some (.undecided p)

theorem pair_of_composeGroup {track : TrackRecord} {density : CohortDensity} {p : Pair}
    {group : List Row} {v : Verdict} (h : c.composeGroup L track density p group = some v) :
    v.pair = p := by
  simp only [Composer.composeGroup, Option.bind_eq_bind, Option.bind_eq_some_iff] at h
  obtain ⟨a, _, hv⟩ := h
  cases hv
  rfl

theorem pair_of_verdictAt {p : Pair} {v : Verdict}
    (h : c.verdictAt L now corpus p = some v) : v.pair = p := by
  rw [Composer.verdictAt] at h
  split at h
  · exact pair_of_composeGroup h
  · cases h
    rfl

/-- **One verdict for each pair, in order.** -/
theorem compose_eq : c.compose L utcNow corpus =
    ((c.pairs L (c.cfg.now.getD utcNow) corpus).mapM
      (c.verdictAt L (c.cfg.now.getD utcNow) corpus)).map
        fun verdicts => ⟨verdicts, c.refused L (c.cfg.now.getD utcNow) corpus⟩ := by
  generalize hnow : c.cfg.now.getD utcNow = now
  let decided : List Pair := ((c.admitted L now corpus).map Row.pair).sortedKeys
  let others : List Pair := (((c.refused L now corpus).filterMap
    (·.pair? corpus)).sortedKeys).filter fun p => !decided.contains p
  have hpairs : (decided ++ others).insertionSort (· ≤ ·) = c.pairs L now corpus := by
    have hnodup : (decided ++ others).Nodup := by
      rw [List.nodup_append']
      refine ⟨List.nodup_sortedKeys _, (List.nodup_sortedKeys _).filter _, ?_⟩
      intro p hp hp'
      simp [others, hp] at hp'
    rw [← List.sortedKeys_eq_insertionSort hnodup]
    apply List.sortedKeys_congr
    intro p
    simp only [others, List.mem_append, List.mem_filter, List.mem_sortedKeys, decided,
      List.contains_eq_mem, Bool.not_eq_true', decide_eq_false_iff_not]
    by_cases hp : p ∈ (c.admitted L now corpus).map Row.pair
    · simp only [hp, true_or]
    · simp only [hp, false_or, not_false_eq_true, and_true]
  have hdecided : decided.mapM (c.verdictAt L now corpus) = decided.mapM fun p =>
      c.composeGroup L (TrackRecord.of (c.admitted L now corpus))
        (CohortDensity.of (c.admitted L now corpus)) p (c.group L now corpus p) := by
    apply List.mapM_congr
    intro p hp
    rw [Composer.verdictAt, if_pos (List.mem_sortedKeys.mp hp)]
  have hothers : others.mapM (c.verdictAt L now corpus) = some (others.map Verdict.undecided) := by
    rw [List.mapM_eq_some_iff, List.map_map]
    apply List.map_congr_left
    intro p hp
    have hnot : p ∉ decided := by simpa using (List.mem_filter.mp hp).2
    rw [Composer.verdictAt, if_neg fun h => hnot (List.mem_sortedKeys.mpr h)]
    rfl
  have hcompose : c.compose L utcNow corpus = (decided.mapM fun p =>
      c.composeGroup L (TrackRecord.of (c.admitted L now corpus))
        (CohortDensity.of (c.admitted L now corpus)) p (c.group L now corpus p)).bind fun verdicts =>
      some ⟨(verdicts ++ others.map Verdict.undecided).insertionSort fun v w => v.pair ≤ w.pair,
        c.refused L now corpus⟩ := by
    rw [Composer.compose, hnow]
    rfl
  rw [← hpairs, ← List.insertionSort_mapM (fun _ _ => pair_of_verdictAt), List.mapM_append,
    hdecided, hothers, hcompose]
  cases decided.mapM fun p => c.composeGroup L (TrackRecord.of (c.admitted L now corpus))
    (CohortDensity.of (c.admitted L now corpus)) p (c.group L now corpus p) <;> rfl

theorem isSome_compose_iff : (c.compose L utcNow corpus).isSome = true ↔
    ∀ p ∈ c.pairs L (c.cfg.now.getD utcNow) corpus,
      (c.verdictAt L (c.cfg.now.getD utcNow) corpus p).isSome = true := by
  rw [compose_eq, Option.isSome_map, List.isSome_mapM_iff]

/-! ## Ties -/

/-- What is relied on of the choice among attestations: it chooses one of them. -/
def Lib.Chooses (L : Lib) : Prop :=
  ∀ atts ≠ [], ∃ att ∈ atts, L.precedenceWinner atts = some att

theorem finalists_ne_nil {rows : List Weighed} {least : ℚ}
    (h : (rows.filterMap (·.2.affectedPopulation)).min? = some least) :
    finalists rows least ≠ [] := by
  obtain ⟨w, hw, hleast⟩ := List.mem_filterMap.mp (List.min?_mem h)
  apply List.ne_nil_of_mem (a := w)
  rw [finalists, List.mem_filter, hleast]
  exact ⟨hw, by simp [near]⟩

/-- There is a winner exactly if some row names a population. -/
theorem isSome_winner_iff (hL : L.Chooses) (rows : List Weighed) :
    (lexicalVulnerabilityWinner L rows).isSome = true ↔
      ∃ w ∈ rows, w.2.affectedPopulation.isSome = true := by
  cases hleast : (rows.filterMap (·.2.affectedPopulation)).min? with
  | none =>
    have hwinner : lexicalVulnerabilityWinner L rows = none := by
      rw [lexicalVulnerabilityWinner, hleast]
      rfl
    rw [List.min?_eq_none_iff, List.filterMap_eq_nil_iff] at hleast
    have hnone : ¬ ∃ w ∈ rows, w.2.affectedPopulation.isSome = true := by
      rintro ⟨w, hw, hp⟩
      simp [hleast w hw] at hp
    simp [hwinner, hnone]
  | some least =>
    have hne := finalists_ne_nil hleast
    obtain ⟨w, hw, hp⟩ := List.mem_filterMap.mp (List.min?_mem hleast)
    have hnamed : ∃ w ∈ rows, w.2.affectedPopulation.isSome = true :=
      ⟨w, hw, Option.isSome_of_eq_some hp⟩
    refine (iff_true_right hnamed).mpr ?_
    rw [lexicalVulnerabilityWinner, hleast]
    show (if (finalists rows least).length = 1 then _ else _ : Option Weighed).isSome = true
    split
    · rw [List.isSome_head?]
      simpa using hne
    · -- the winner is one of the finalists, so that it is found among them
      obtain ⟨att, hmem, hatt⟩ := hL ((finalists rows least).map (·.2.att)) (by simpa using hne)
      obtain ⟨v, hv, rfl⟩ := List.mem_map.mp hmem
      rw [hatt]
      show (List.find? _ _).isSome = true
      rw [List.find?_isSome]
      exact ⟨v, hv, by simp⟩

/-- Several rows: the winner's word. -/
theorem oneOf_of_length_ne {tied : List Weighed} (h : tied.length ≠ 1) : oneOf L tied =
    (lexicalVulnerabilityWinner L tied).map fun w => ⟨w.1.score, w.1.confidence, true⟩ := by
  unfold oneOf
  split
  · exact absurd rfl h
  · rfl

/-- The word of several rows that tie needs a population. -/
theorem isSome_oneOf_iff (hL : L.Chooses) {tied : List Weighed} (hne : tied ≠ []) :
    (oneOf L tied).isSome = true ↔
      tied.length ≤ 1 ∨ ∃ w ∈ tied, w.2.affectedPopulation.isSome = true := by
  unfold oneOf
  split
  · simp
  · next hmany =>
    have hlen : ¬ tied.length ≤ 1 := by
      intro hle
      have hone : tied.length = 1 := by
        have := List.length_pos_iff.mpr hne
        omega
      obtain ⟨w, rfl⟩ := List.length_eq_one_iff.mp hone
      exact hmany w rfl
    simp [hlen, isSome_winner_iff hL]

/-- The rows whose word a polarity takes: those of the least or the greatest score, as far as the
    tolerance tells, or those latest by the column. The other polarities take no row's word. -/
def foremost (polarity : Polarity) (group : List Row) : List Row :=
  match polarity with
  | .booleanViaScore | .negativeOnly =>
    group.filter fun r => group.all fun s => decide (r.score < s.score + 1 / 10 ^ 12)
  | .positiveOnly =>
    group.filter fun r => group.all fun s => decide (s.score < r.score + 1 / 10 ^ 12)
  | .enumerated =>
    group.filter fun r => group.all fun s => decide (s.att.assertedAt ≤ r.att.assertedAt)
  | .signed | .detector => []

/-- A tie that can be broken: at most one row, or one of them names a population. -/
def Breakable (tied : List Row) : Prop :=
  tied.length ≤ 1 ∨ ∃ r ∈ tied, r.affectedPopulation.isSome = true

/-- In no pair do several rows tie without one that names a population. -/
def Composer.Settled (L : Lib) (c : Composer) (now : Int) (corpus : List Attestation) : Prop :=
  ∀ p : Pair, Breakable (foremost (polarityFor (ofLex p).1) (c.group L now corpus p))

theorem near_min_iff {scores : List ℚ} {target x tolerance : ℚ}
    (h : scores.min? = some target) (hx : x ∈ scores) :
    near tolerance x target = scores.all fun s => decide (x < s + tolerance) := by
  have hle : target ≤ x := (List.min?_eq_some_iff.mp h).2 x hx
  rw [near, abs_of_nonneg (by linarith), Bool.eq_iff_iff, decide_eq_true_iff, List.all_eq_true]
  constructor
  · intro hnear s hs
    have := (List.min?_eq_some_iff.mp h).2 s hs
    exact decide_eq_true (by linarith)
  · intro hall
    have := of_decide_eq_true (hall target (List.min?_mem h))
    linarith

theorem near_max_iff {scores : List ℚ} {target x tolerance : ℚ}
    (h : scores.max? = some target) (hx : x ∈ scores) :
    near tolerance x target = scores.all fun s => decide (s < x + tolerance) := by
  have hle : x ≤ target := (List.max?_eq_some_iff.mp h).2 x hx
  rw [near, abs_of_nonpos (by linarith), Bool.eq_iff_iff, decide_eq_true_iff, List.all_eq_true]
  constructor
  · intro hnear s hs
    have := (List.max?_eq_some_iff.mp h).2 s hs
    exact decide_eq_true (by linarith)
  · intro hall
    have := of_decide_eq_true (hall target (List.max?_mem h))
    linarith

section Weighing

variable {group : List Row} {w : Row → Contribution}

/-- The rows with what they contribute. -/
def weighed (w : Row → Contribution) (group : List Row) : List Weighed :=
  group.map fun r => (w r, r)

theorem weighed_filter (p : Weighed → Bool) :
    (weighed w group).filter p = weighed w (group.filter fun r => p (w r, r)) := List.filter_map

theorem scores_weighed (hw : ∀ r, (w r).score = r.score) :
    (weighed w group).map (·.1.score) = group.map Row.score := by
  rw [weighed, List.map_map]
  exact List.map_congr_left fun r _ => hw r

/-- The rows that tie are the foremost. -/
theorem extremum_min (hw : ∀ r, (w r).score = r.score) (hne : group ≠ []) :
    extremum L List.min? (weighed w group) =
      oneOf L (weighed w (foremost .booleanViaScore group)) := by
  obtain ⟨target, htarget⟩ := Option.isSome_iff_exists.mp
    (List.isSome_min?_of_ne_nil (l := group.map Row.score) (by simpa using hne))
  rw [extremum, scores_weighed hw, htarget, Option.bind_eq_bind, Option.bind_some,
    weighed_filter]
  congr 2
  apply List.filter_congr
  intro r hr
  rw [hw, near_min_iff htarget (List.mem_map_of_mem hr), List.all_map]
  rfl

theorem extremum_max (hw : ∀ r, (w r).score = r.score) (hne : group ≠ []) :
    extremum L List.max? (weighed w group) =
      oneOf L (weighed w (foremost .positiveOnly group)) := by
  obtain ⟨target, htarget⟩ := Option.isSome_iff_exists.mp
    (List.isSome_max?_of_ne_nil (l := group.map Row.score) (by simpa using hne))
  rw [extremum, scores_weighed hw, htarget, Option.bind_eq_bind, Option.bind_some,
    weighed_filter]
  congr 2
  apply List.filter_congr
  intro r hr
  rw [hw, near_max_iff htarget (List.mem_map_of_mem hr), List.all_map]
  rfl

theorem mostRecent_eq (hne : group ≠ []) :
    mostRecent L (weighed w group) = oneOf L (weighed w (foremost .enumerated group)) := by
  have hinstants : (weighed w group).map (·.2.att.assertedAt) =
      group.map (·.att.assertedAt) := by
    rw [weighed, List.map_map]
    rfl
  obtain ⟨latest, hlatest⟩ := Option.isSome_iff_exists.mp
    (List.isSome_max?_of_ne_nil (l := group.map (·.att.assertedAt)) (by simpa using hne))
  rw [mostRecent, hinstants, hlatest, Option.bind_eq_bind, Option.bind_some,
    weighed_filter]
  congr 2
  apply List.filter_congr
  intro r hr
  obtain ⟨hmem, hmax⟩ := List.max?_eq_some_iff.mp hlatest
  rw [Bool.eq_iff_iff, beq_iff_eq, List.all_eq_true]
  constructor
  · intro heq s hs
    rw [heq]
    exact decide_eq_true (hmax _ (List.mem_map_of_mem hs))
  · intro hall
    obtain ⟨s, hs, hst⟩ := List.mem_map.mp hmem
    have hle := of_decide_eq_true (hall s hs)
    have hge := hmax _ (List.mem_map_of_mem hr)
    simp only at hst hge ⊢
    omega

/-- Some row is foremost, under a polarity that takes a row's word. -/
theorem foremost_ne_nil {polarity : Polarity} (hne : group ≠ [])
    (hword : polarity ≠ .signed ∧ polarity ≠ .detector) : foremost polarity group ≠ [] := by
  have hrows : (group : Multiset Row) ≠ 0 := by simpa using hne
  cases polarity with
  | signed => exact absurd rfl hword.1
  | detector => exact absurd rfl hword.2
  | booleanViaScore | negativeOnly =>
    obtain ⟨r, hr, hle⟩ := Multiset.exists_min_image Row.score hrows
    apply List.ne_nil_of_mem (a := r)
    refine List.mem_filter.mpr ⟨hr, List.all_eq_true.mpr fun s hs => ?_⟩
    exact decide_eq_true (by linarith [hle s hs])
  | positiveOnly =>
    obtain ⟨r, hr, hge⟩ := Multiset.exists_max_image Row.score hrows
    apply List.ne_nil_of_mem (a := r)
    refine List.mem_filter.mpr ⟨hr, List.all_eq_true.mpr fun s hs => ?_⟩
    exact decide_eq_true (by linarith [hge s hs])
  | enumerated =>
    obtain ⟨r, hr, hge⟩ := Multiset.exists_max_image (fun r : Row => r.att.assertedAt) hrows
    apply List.ne_nil_of_mem (a := r)
    exact List.mem_filter.mpr ⟨hr, List.all_eq_true.mpr fun s hs => decide_eq_true (hge s hs)⟩

theorem isSome_oneOf_weighed_iff (hL : L.Chooses) (hne : group ≠ []) :
    (oneOf L (weighed w group)).isSome = true ↔ Breakable group := by
  rw [isSome_oneOf_iff hL (by simpa [weighed] using hne), Breakable, weighed, List.length_map]
  simp

/-- A group has a word unless its foremost rows tie and none names a population. -/
theorem isSome_aggregate_iff (hL : L.Chooses) (hw : ∀ r, (w r).score = r.score)
    (hne : group ≠ []) (polarity : Polarity) :
    (aggregate L polarity (weighed w group)).isSome = true ↔
      Breakable (foremost polarity group) := by
  have hcons : (weighed w group).isEmpty = false := by simpa [weighed] using hne
  have hfree : Breakable [] := .inl (Nat.zero_le 1)
  rw [aggregate.eq_def, hcons, if_neg Bool.false_ne_true]
  cases polarity with
  | signed | detector => exact iff_of_true rfl hfree
  | booleanViaScore | negativeOnly =>
    show (extremum L List.min? _).isSome = true ↔ _
    rw [extremum_min hw hne]
    exact isSome_oneOf_weighed_iff hL (foremost_ne_nil hne (by decide))
  | positiveOnly =>
    show (extremum L List.max? _).isSome = true ↔ _
    rw [extremum_max hw hne]
    exact isSome_oneOf_weighed_iff hL (foremost_ne_nil hne (by decide))
  | enumerated =>
    show (mostRecent L _).isSome = true ↔ _
    rw [mostRecent_eq hne]
    exact isSome_oneOf_weighed_iff hL (foremost_ne_nil hne (by decide))

end Weighing

/-- A contribution carries the row's score. -/
@[simp] theorem contribution_score (track : TrackRecord) (density : CohortDensity)
    (capped : Bool) (r : Row) : (c.contribution track density capped r).score = r.score := rfl

theorem group_ne_nil_iff {p : Pair} :
    c.group L now corpus p ≠ [] ↔ p ∈ (c.admitted L now corpus).map Row.pair := by
  rw [Composer.group, Ne, List.filter_eq_nil_iff, List.mem_map]
  push Not
  simp

/-- The verdict on a pair is there exactly if its tie can be broken. -/
theorem isSome_verdictAt_iff (hL : L.Chooses) (p : Pair) :
    (c.verdictAt L now corpus p).isSome = true ↔
      Breakable (foremost (polarityFor (ofLex p).1) (c.group L now corpus p)) := by
  rw [Composer.verdictAt]
  split
  · next hp =>
    rw [← isSome_aggregate_iff hL (w := c.contribution (TrackRecord.of (c.admitted L now corpus))
      (CohortDensity.of (c.admitted L now corpus))
      (c.licensureCap (ofLex p).1 (c.group L now corpus p)))
      (fun _ => rfl) (group_ne_nil_iff.mpr hp), Composer.composeGroup]
    show (Option.bind (aggregate L _ (weighed _ _)) _).isSome = true ↔ _
    rw [Option.isSome_bind]
    simp
  · next hp =>
    have hnil : c.group L now corpus p = [] := by
      by_contra hne
      exact hp (group_ne_nil_iff.mp hne)
    rw [hnil]
    cases polarityFor (ofLex p).1 <;> exact iff_of_true rfl (.inl (Nat.zero_le 1))

theorem forall_isSome_verdictAt_iff (hL : L.Chooses) :
    (∀ p ∈ c.pairs L now corpus, (c.verdictAt L now corpus p).isSome = true) ↔
      c.Settled L now corpus := by
  constructor
  · intro h p
    by_cases hp : p ∈ c.pairs L now corpus
    · exact (isSome_verdictAt_iff hL p).mp (h p hp)
    · have hout : p ∉ (c.admitted L now corpus).map Row.pair := fun hin =>
        hp (List.mem_sortedKeys.mpr (List.mem_append_left _ hin))
      rw [← isSome_verdictAt_iff hL, Composer.verdictAt, if_neg hout]
      rfl
  · intro h p _
    exact (isSome_verdictAt_iff hL p).mpr (h p)

/-- **When a composition exists**: exactly if no tie lacks a row that names a population. -/
theorem compose_isSome_iff (hL : L.Chooses) (c : Composer) (utcNow : Int)
    (corpus : List Attestation) :
    (c.compose L utcNow corpus).isSome = true ↔
      c.Settled L (c.cfg.now.getD utcNow) corpus := by
  rw [isSome_compose_iff, forall_isSome_verdictAt_iff hL]

section Samples

/-- Among `scores` rows the substrate takes the latest, and of these the smallest id. -/
def sampleLe (a b : Attestation) : Prop :=
  b.assertedAt < a.assertedAt ∨ a.assertedAt = b.assertedAt ∧ a.attestationId ≤ b.attestationId

instance : DecidableRel sampleLe := fun a b => inferInstanceAs (Decidable
  (b.assertedAt < a.assertedAt ∨
    a.assertedAt = b.assertedAt ∧ a.attestationId ≤ b.attestationId))

def sampleLib : Lib where
  parseRfc3339 _ := none
  foldKeyStatementStanding _ _ rows _ _ := if rows.isEmpty then .stands else .suspectUnbounded
  precedenceWinner atts := (atts.insertionSort sampleLe).head?

theorem sampleLib_chooses : sampleLib.Chooses := by
  intro atts hne
  have hsome : (sampleLib.precedenceWinner atts).isSome = true := by
    rw [sampleLib, List.isSome_head?]
    simpa [← List.length_eq_zero_iff] using hne
  obtain ⟨att, hatt⟩ := Option.isSome_iff_exists.mp hsome
  exact ⟨att, (List.mem_insertionSort _).mp (List.mem_of_head? hatt), hatt⟩

/-- The default policy at the instant zero, with one key pinned. -/
def sampleComposer : Composer where
  trust := ⟨["steward"], []⟩
  cfg := ⟨3, 1 / 2, 0, .structuralThenFrickerian, some 0⟩
  revocations := []

/-- A row about `node`, with full confidence. -/
def sampleRow (id attester dimension : String) (score : Int) (more : List (String × Json)) :
    Attestation where
  attestationId := id
  attestingKeyId := attester
  attestedKeyId := "node"
  attestationType := scoresType
  assertedAt := 0
  expiresAt := none
  attestationEnvelope := .obj ([("dimension", .str dimension), ("score", .num (.int score)),
    ("confidence", .num (.int 1))] ++ more)

/-- Two rows that say the same, neither with a population. -/
def twoOfAMind : List Attestation :=
  [sampleRow "a" "steward" "prohibited:weapons" (-1) [],
    sampleRow "b" "steward" "prohibited:weapons" (-1) []]

/-- Two trusted rows of one mind reach the `expect`. -/
theorem compose_twoOfAMind : sampleLib.Chooses ∧
    sampleComposer.compose sampleLib 0 twoOfAMind = none :=
  ⟨sampleLib_chooses, by decide +kernel⟩

theorem compose_isSome_iff_sample : ¬ sampleComposer.Settled sampleLib 0 twoOfAMind := by
  have hiff := compose_isSome_iff sampleLib_chooses sampleComposer 0 twoOfAMind
  have hnone : ¬ (sampleComposer.compose sampleLib 0 twoOfAMind).isSome = true := by
    decide +kernel
  exact fun hsettled => hnone (hiff.mpr hsettled)

end Samples

end CirisServer.ComposePolicy
