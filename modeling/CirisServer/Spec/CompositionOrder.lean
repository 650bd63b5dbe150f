import Mathlib.Algebra.BigOperators.Group.List.Basic
import CirisServer.Spec.Composition

/-!
# A composition accounts for its corpus, in any order

Every row is in one verdict's contributions or in one refusal, every pair with a readable row has
one verdict, and a corpus in another order composes to the same verdicts and refusals.
-/

namespace CirisServer.ComposePolicy

variable {L : Lib} {c : Composer} {now utcNow : Int} {corpus corpus' : List Attestation}
  {att : Attestation}

/-- The pair a row is about, where its dimension can be read. -/
def Attestation.pair? (att : Attestation) : Option Pair :=
  (envelopeStr att "dimension").map fun dimension => toLex (dimension, att.attestedKeyId)

/-- What an admitted row is, and the checks that say so. -/
theorem vet_ok {row : Row} (h : c.vet L att now = .ok row) :
    row.att = att ∧ envelopeStr att "dimension" = some row.dimension ∧
      att.attestationType = scoresType ∧ c.trust.contains att.attestingKeyId = true := by
  simp only [Composer.vet, except_bind_eq_ok_iff, ensure_eq_ok_iff, except_elim_eq_ok_iff] at h
  obtain ⟨_, htype, _, htrust, _, _, _, _, _, _, dimension, hdimension, score, _, confidence, _, _,
    _, _, _, _, _, hrow⟩ := h
  cases hrow
  exact ⟨rfl, hdimension, by simpa using htype, htrust⟩

theorem vet_of_screen {row : Row} (h : c.screen L corpus now att = .ok row) :
    c.vet L att now = .ok row := by
  simp only [Composer.screen, except_bind_eq_ok_iff] at h
  obtain ⟨row', hvet, _, _, _, _, hrow⟩ := h
  cases hrow
  exact hvet

theorem att_of_screen {row : Row} (h : c.screen L corpus now att = .ok row) : row.att = att :=
  (vet_ok (vet_of_screen h)).1

theorem pair?_of_screen {row : Row} (h : c.screen L corpus now att = .ok row) :
    att.pair? = some row.pair := by
  obtain ⟨hatt, hdimension, _⟩ := vet_ok (vet_of_screen h)
  rw [Attestation.pair?, hdimension, Row.pair, hatt]
  rfl

theorem mem_admitted {row : Row} : row ∈ c.admitted L now corpus ↔
    ∃ att ∈ corpus, c.screen L corpus now att = .ok row := by
  rw [Composer.admitted, List.mem_filterMap]
  refine exists_congr fun att => and_congr_right fun _ => ?_
  cases c.screen L corpus now att <;> simp [Except.toOption]

/-! ## Every row once -/

theorem screened_perm {s : Attestation → Except RefusalReason Row}
    (hs : ∀ att row, s att = .ok row → row.att = att) (l : List Attestation) :
    ((l.filterMap fun att => (s att).toOption).map (·.att.attestationId) ++
      (l.filterMap fun att => refusal? att (s att)).map (·.attestationId)).Perm
        (l.map (·.attestationId)) := by
  induction l with
  | nil => exact .refl _
  | cons att l ih =>
    cases hatt : s att with
    | ok row =>
      simpa [hatt, refusal?, Except.toOption, hs att row hatt] using ih
    | error reason =>
      have hmid : ((l.filterMap fun att => (s att).toOption).map (·.att.attestationId) ++
          att.attestationId :: (l.filterMap fun att => refusal? att (s att)).map
            (·.attestationId)).Perm _ := List.perm_middle
      simpa [hatt, refusal?, Except.toOption] using hmid.trans (ih.cons _)

/-- Each row is admitted or refused. -/
theorem admitted_refused_perm : ((c.admitted L now corpus).map (·.att.attestationId) ++
    (c.refused L now corpus).map (·.attestationId)).Perm (corpus.map (·.attestationId)) :=
  screened_perm (fun _ _ => att_of_screen) corpus

/-- The ids of admitted rows are those of rows of the corpus. -/
theorem nodup_admitted (hids : (corpus.map (·.attestationId)).Nodup) :
    ((c.admitted L now corpus).map (·.att.attestationId)).Nodup :=
  (List.nodup_append.mp ((admitted_refused_perm.nodup_iff).mpr hids)).1

/-- The verdict on a pair is on its admitted rows, one contribution each. -/
theorem contributions_of_verdictAt {p : Pair} {v : Verdict}
    (h : c.verdictAt L now corpus p = some v) :
    v.contributions.map (·.attestationId) =
      (c.group L now corpus p).map (·.att.attestationId) := by
  rw [Composer.verdictAt] at h
  split at h
  · simp only [Composer.composeGroup, Option.bind_eq_bind, Option.bind_eq_some_iff] at h
    obtain ⟨a, _, hv⟩ := h
    cases hv
    show ((_ : List Weighed).map Prod.fst).map _ = _
    rw [List.map_map, List.map_map]
    rfl
  · next hp =>
    have hnil : c.group L now corpus p = [] := by
      by_contra hne
      exact hp (group_ne_nil_iff.mp hne)
    cases h
    rw [hnil]
    rfl

theorem decision_of_verdictAt {p : Pair} {v : Verdict}
    (h : c.verdictAt L now corpus p = some v) :
    v.decision = .undetermined ↔ p ∉ (c.admitted L now corpus).map Row.pair := by
  rw [Composer.verdictAt] at h
  split at h
  · next hp =>
    have hne := group_ne_nil_iff.mpr hp
    simp only [Composer.composeGroup, Option.bind_eq_bind, Option.bind_eq_some_iff] at h
    obtain ⟨a, _, hv⟩ := h
    cases hv
    refine iff_of_false ?_ (not_not_intro hp)
    have hrows : ((c.group L now corpus p).map fun r => (c.contribution
        (TrackRecord.of (c.admitted L now corpus)) (CohortDensity.of (c.admitted L now corpus))
        (c.licensureCap (ofLex p).1 (c.group L now corpus p)) r, r)).isEmpty = false := by
      simpa using hne
    show ¬ (if _ then _ else if _ then _ else _ : Decision) = _
    rw [hrows, if_neg Bool.false_ne_true]
    split <;> exact Decision.noConfusion
  · next hp =>
    cases h
    exact iff_of_true rfl hp

/-- What accounts for a corpus: every row is in one verdict or in one refusal, every pair with a
    readable row has one verdict, and this is undetermined where no row was admitted. -/
structure Accounts (L : Lib) (c : Composer) (now : Int) (corpus : List Attestation)
    (k : Composition) : Prop where
  rows : ((k.verdicts.flatMap (·.contributions)).map (·.attestationId) ++
    k.refusals.map (·.attestationId)).Perm (corpus.map (·.attestationId))
  nodup : (k.verdicts.map Verdict.pair).Nodup
  pairs : ∀ p, p ∈ k.verdicts.map Verdict.pair ↔ ∃ att ∈ corpus, att.pair? = some p
  undetermined : ∀ v ∈ k.verdicts, v.decision = .undetermined ↔
    ∀ att ∈ corpus, att.pair? = some v.pair → ∃ reason, c.screen L corpus now att = .error reason

/-- A refusal is about the pair of its row, if ids are unique. -/
theorem pair?_refusal (hids : (corpus.map (·.attestationId)).Nodup) (hatt : att ∈ corpus)
    {reason : RefusalReason} {r : Refusal} (h : refusal? att (.error reason) = some r) :
    r.pair? corpus = att.pair? := by
  cases h
  have hfind := (List.find?_key_eq_some_iff hids (k := att.attestationId)).mpr ⟨hatt, rfl⟩
  simp only [Refusal.pair?, hfind, Attestation.pair?]
  cases envelopeStr att "dimension" <;> rfl

theorem mem_pairs_iff (hids : (corpus.map (·.attestationId)).Nodup) {p : Pair} :
    p ∈ c.pairs L now corpus ↔ ∃ att ∈ corpus, att.pair? = some p := by
  rw [Composer.pairs, List.mem_sortedKeys, List.mem_append, List.mem_map, List.mem_filterMap]
  constructor
  · rintro (⟨row, hrow, rfl⟩ | ⟨r, hr, hpair⟩)
    · obtain ⟨att, hatt, hok⟩ := mem_admitted.mp hrow
      exact ⟨att, hatt, pair?_of_screen hok⟩
    · obtain ⟨att, hatt, href⟩ := List.mem_filterMap.mp hr
      cases hscreen : c.screen L corpus now att with
      | ok row => simp [hscreen, refusal?] at href
      | error reason =>
        rw [hscreen] at href
        exact ⟨att, hatt, (pair?_refusal hids hatt href).symm.trans hpair⟩
  · rintro ⟨att, hatt, hpair⟩
    cases hscreen : c.screen L corpus now att with
    | ok row =>
      left
      refine ⟨row, mem_admitted.mpr ⟨att, hatt, hscreen⟩, ?_⟩
      rw [pair?_of_screen hscreen] at hpair
      exact Option.some.inj hpair
    | error reason =>
      right
      refine ⟨_, List.mem_filterMap.mpr ⟨att, hatt, by rw [hscreen]; rfl⟩, ?_⟩
      rw [pair?_refusal hids hatt rfl, hpair]

/-- **Every composition accounts for its corpus.** -/
theorem accounts_of_compose (hids : (corpus.map (·.attestationId)).Nodup) {k : Composition}
    (h : c.compose L utcNow corpus = some k) :
    Accounts L c (c.cfg.now.getD utcNow) corpus k := by
  rw [compose_eq] at h
  generalize c.cfg.now.getD utcNow = now at h ⊢
  obtain ⟨verdicts, hverdicts, rfl⟩ := Option.map_eq_some_iff.mp h
  have hof : ∀ v ∈ verdicts, c.verdictAt L now corpus v.pair = some v := fun v =>
    List.eq_some_of_mem_mapM (fun _ _ => pair_of_verdictAt) hverdicts
  have hpairs : verdicts.map Verdict.pair = c.pairs L now corpus :=
    List.map_key_of_mapM (fun _ _ => pair_of_verdictAt) hverdicts
  have hnodup : (verdicts.map Verdict.pair).Nodup := hpairs ▸ List.nodup_sortedKeys _
  refine ⟨?_, hnodup, fun p => ?_, fun v hv => ?_⟩
  · have hcontributions : (verdicts.flatMap (·.contributions)).map (·.attestationId) =
        ((c.pairs L now corpus).flatMap fun p => c.group L now corpus p).map
          (·.att.attestationId) := by
      rw [List.map_flatMap, List.map_flatMap, ← hpairs, List.flatMap_map]
      apply List.flatMap_congr
      intro v hv
      exact contributions_of_verdictAt (hof v hv)
    have hgroups : ((c.pairs L now corpus).flatMap fun p => c.group L now corpus p).Perm
        (c.admitted L now corpus) := by
      have hpairs : (c.pairs L now corpus).Nodup := List.nodup_sortedKeys _
      apply List.flatMap_filter_perm hpairs
      intro row hrow
      exact List.mem_sortedKeys.mpr (List.mem_append_left _ (List.mem_map_of_mem hrow))
    rw [hcontributions]
    exact ((hgroups.map _).append_right _).trans admitted_refused_perm
  · rw [hpairs, mem_pairs_iff hids]
  · rw [decision_of_verdictAt (hof v hv), List.mem_map]
    constructor
    · intro hnone att hatt hpair
      cases hscreen : c.screen L corpus now att with
      | error reason => exact ⟨reason, rfl⟩
      | ok row =>
        rw [pair?_of_screen hscreen] at hpair
        exact absurd ⟨row, mem_admitted.mpr ⟨att, hatt, hscreen⟩, Option.some.inj hpair⟩ hnone
    · rintro hrefused ⟨row, hrow, hpair⟩
      obtain ⟨att, hatt, hok⟩ := mem_admitted.mp hrow
      obtain ⟨reason, herror⟩ := hrefused att hatt (hpair ▸ pair?_of_screen hok)
      rw [hok] at herror
      cases herror

/-! ## Any order -/

/-- The choice among attestations with different ids does not depend on their order. -/
def Lib.OrderFree (L : Lib) : Prop :=
  ∀ atts atts' : List Attestation, (atts.map (·.attestationId)).Nodup → atts.Perm atts' →
    L.precedenceWinner atts = L.precedenceWinner atts'

section Rows

variable {rows rows' : List Row}

theorem trackRecord_perm (h : rows.Perm rows') : TrackRecord.of rows = TrackRecord.of rows' := by
  simp only [TrackRecord.of, (h.filter _).countP_eq]

theorem cohortDensity_perm (h : rows.Perm rows') :
    CohortDensity.of rows = CohortDensity.of rows' := by
  simp only [CohortDensity.of, h.countP_eq]

theorem licensureCap_perm (h : rows.Perm rows') (dimension : String) :
    c.licensureCap dimension rows = c.licensureCap dimension rows' := by
  rw [Composer.licensureCap, Composer.licensureCap, (h.filterMap _).dedup.length_eq]

end Rows

section Weighed

variable {rows rows' : List Weighed}

/-- No two rows have one id. -/
def DistinctIds (rows : List Weighed) : Prop := (rows.map (·.2.att.attestationId)).Nodup

theorem DistinctIds.filter (h : DistinctIds rows) (p : Weighed → Bool) :
    DistinctIds (rows.filter p) := h.sublist (List.filter_sublist.map _)

theorem winner_perm (hL : L.OrderFree) (h : rows.Perm rows') (hids : DistinctIds rows) :
    lexicalVulnerabilityWinner L rows = lexicalVulnerabilityWinner L rows' := by
  rw [lexicalVulnerabilityWinner, lexicalVulnerabilityWinner, (h.filterMap _).min?_eq]
  refine Option.bind_congr fun least _ => ?_
  have hfinal : (finalists rows least).Perm (finalists rows' least) := h.filter _
  have hfinalIds : DistinctIds (finalists rows least) := hids.filter _
  simp only
  rw [hfinal.length_eq, hL _ _ (by rwa [List.map_map]) (hfinal.map _)]
  split
  · next hone =>
    obtain ⟨w, hw⟩ := List.length_eq_one_iff.mp hone
    rw [hw] at hfinal ⊢
    rw [List.perm_singleton.mp hfinal]
  · refine Option.bind_congr fun winner _ => ?_
    exact hfinal.find?_key hfinalIds

theorem oneOf_perm (hL : L.OrderFree) (h : rows.Perm rows') (hids : DistinctIds rows) :
    oneOf L rows = oneOf L rows' := by
  by_cases hone : rows.length = 1
  · obtain ⟨w, rfl⟩ := List.length_eq_one_iff.mp hone
    rw [List.singleton_perm.mp h]
  · rw [oneOf_of_length_ne hone, oneOf_of_length_ne (h.length_eq ▸ hone), winner_perm hL h hids]

theorem mean_perm {values values' : List ℚ} (h : values.Perm values') :
    mean values = mean values' := by
  rw [mean, mean, h.sum_eq, h.length_eq]

theorem median_perm {scores scores' : List ℚ} (h : scores.Perm scores') :
    median scores = median scores' := by
  rw [median, median, h.insertionSort_eq]

theorem signedMean_perm (hL : L.OrderFree) (h : rows.Perm rows') (hids : DistinctIds rows) :
    signedMean L rows = signedMean L rows' := by
  have hconflict : hasConflict rows = hasConflict rows' := by
    rw [hasConflict, hasConflict, h.any_eq, h.any_eq]
  rw [signedMean, signedMean, mean_perm (h.map _), mean_perm (h.map _), h.length_eq, hconflict,
    winner_perm hL h hids]

/-- What a group comes to does not depend on the order of its rows. -/
theorem aggregate_perm (hL : L.OrderFree) (h : rows.Perm rows') (hids : DistinctIds rows)
    (polarity : Polarity) : aggregate L polarity rows = aggregate L polarity rows' := by
  have hempty : rows.isEmpty = rows'.isEmpty := by
    rw [Bool.eq_iff_iff, List.isEmpty_iff_length_eq_zero, List.isEmpty_iff_length_eq_zero,
      h.length_eq]
  have hextremum : ∀ fold : List ℚ → Option ℚ,
      fold (rows.map (·.1.score)) = fold (rows'.map (·.1.score)) →
        extremum L fold rows = extremum L fold rows' := by
    intro fold hfold
    rw [extremum, extremum, hfold]
    refine Option.bind_congr fun target _ => ?_
    exact oneOf_perm hL (h.filter _) (hids.filter _)
  rw [aggregate.eq_def, aggregate.eq_def, hempty]
  split
  · rfl
  · cases polarity with
    | signed => exact congrArg some (signedMean_perm hL h hids)
    | booleanViaScore | negativeOnly => exact hextremum _ (h.map _).min?_eq
    | positiveOnly => exact hextremum _ (h.map _).max?_eq
    | enumerated =>
      show mostRecent L rows = mostRecent L rows'
      rw [mostRecent, mostRecent, (h.map _).max?_eq]
      refine Option.bind_congr fun latest _ => ?_
      exact oneOf_perm hL (h.filter _) (hids.filter _)
    | detector =>
      show some _ = some _
      rw [median_perm (h.map _), mean_perm (h.map _)]

end Weighed

/-- The same verdict, up to the order of its contributions. -/
structure Verdict.Same (v w : Verdict) : Prop where
  contributions : v.contributions.Perm w.contributions
  rest : { v with contributions := [] } = { w with contributions := [] }

theorem composeGroup_perm (hL : L.OrderFree) {group group' : List Row}
    (h : group.Perm group') (hids : (group.map (·.att.attestationId)).Nodup)
    {track : TrackRecord} {density : CohortDensity} {p : Pair} {v : Verdict}
    (hv : c.composeGroup L track density p group = some v) :
    ∃ v', c.composeGroup L track density p group' = some v' ∧ v.Same v' := by
  have hcap := licensureCap_perm (c := c) h (ofLex p).1
  have hweighed := h.map fun r =>
    (c.contribution track density (c.licensureCap (ofLex p).1 group) r, r)
  have hdistinct : DistinctIds (group.map fun r =>
      (c.contribution track density (c.licensureCap (ofLex p).1 group) r, r)) := by
    rw [DistinctIds, List.map_map]
    exact hids
  have hempty : group.isEmpty = group'.isEmpty := by
    rw [Bool.eq_iff_iff, List.isEmpty_iff_length_eq_zero, List.isEmpty_iff_length_eq_zero,
      h.length_eq]
  simp only [Composer.composeGroup, Option.bind_eq_bind, Option.bind_eq_some_iff, ← hcap,
    List.isEmpty_map, hempty] at hv ⊢
  obtain ⟨a, ha, hv⟩ := hv
  refine ⟨_, ⟨a, ?_, rfl⟩, ?_⟩
  · rw [← ha]
    exact (aggregate_perm hL hweighed hdistinct _).symm
  · cases hv
    exact ⟨hweighed.map _, rfl⟩

section Corpora

variable (hids : (corpus.map (·.attestationId)).Nodup) (hperm : corpus.Perm corpus')
include hids hperm

/-- The screens read the rest of the corpus by id. -/
theorem screen_perm (att : Attestation) :
    c.screen L corpus now att = c.screen L corpus' now att := by
  have hevidence : resolvedEvidence att corpus = resolvedEvidence att corpus' := by
    apply List.filterMap_congr
    intro id _
    exact hperm.find?_key hids
  have hsole : ∀ kind, soleEvidence kind att corpus = soleEvidence kind att corpus' := by
    intro kind
    rw [soleEvidence, soleEvidence, hevidence]
  rw [Composer.screen, Composer.screen]
  simp only [testimonialSoleEvidence, detectorSoleEvidence, hsole]

theorem admitted_perm : (c.admitted L now corpus).Perm (c.admitted L now corpus') := by
  simp only [Composer.admitted, screen_perm hids hperm]
  exact hperm.filterMap _

theorem refused_perm : (c.refused L now corpus).Perm (c.refused L now corpus') := by
  simp only [Composer.refused, screen_perm hids hperm]
  exact hperm.filterMap _

theorem pairs_perm : c.pairs L now corpus = c.pairs L now corpus' := by
  have hids' := (hperm.map (·.attestationId)).nodup_iff.mp hids
  have hmem : ∀ p, p ∈ c.pairs L now corpus ↔ p ∈ c.pairs L now corpus' := by
    intro p
    rw [mem_pairs_iff hids, mem_pairs_iff hids']
    simp only [hperm.mem_iff]
  apply List.sortedKeys_congr
  intro p
  have hp := hmem p
  rwa [Composer.pairs, Composer.pairs, List.mem_sortedKeys, List.mem_sortedKeys] at hp

/-- The verdict on a pair is the same in any order. -/
theorem verdictAt_perm (hL : L.OrderFree) {p : Pair} {v : Verdict}
    (h : c.verdictAt L now corpus p = some v) :
    ∃ v', c.verdictAt L now corpus' p = some v' ∧ v.Same v' := by
  have hrows : (c.admitted L now corpus).Perm (c.admitted L now corpus') :=
    admitted_perm hids hperm
  have hmem := (hrows.map Row.pair).mem_iff (a := p)
  rw [Composer.verdictAt] at h ⊢
  rw [← trackRecord_perm hrows, ← cohortDensity_perm hrows]
  split at h
  · next hp =>
    rw [if_pos (hmem.mp hp)]
    exact composeGroup_perm hL (hrows.filter _)
      ((nodup_admitted hids).sublist (List.filter_sublist.map _)) h
  · next hp =>
    rw [if_neg fun hin => hp (hmem.mpr hin)]
    cases h
    exact ⟨_, rfl, .refl _, rfl⟩

/-- **Any order**: the same verdicts, the same refusals. -/
theorem compose_perm (hL : L.OrderFree) {k : Composition}
    (h : c.compose L utcNow corpus = some k) :
    ∃ k', c.compose L utcNow corpus' = some k' ∧
      List.Forall₂ Verdict.Same k.verdicts k'.verdicts ∧ k.refusals.Perm k'.refusals := by
  rw [compose_eq] at h ⊢
  generalize c.cfg.now.getD utcNow = now at h ⊢
  obtain ⟨verdicts, hverdicts, rfl⟩ := Option.map_eq_some_iff.mp h
  obtain ⟨verdicts', hverdicts', hsame⟩ := List.mapM_forall₂ (R := Verdict.Same)
    (fun _ _ _ => verdictAt_perm hids hperm hL) hverdicts
  rw [← pairs_perm hids hperm, hverdicts']
  exact ⟨_, rfl, hsame, refused_perm hids hperm⟩

end Corpora

/-- **Accounting and order.** A corpus with distinct ids is composed, with every row accounted
    for and to the same end in every order, exactly if its ties can be broken. -/
theorem compose_accounts_iff (hL : L.Chooses) (horder : L.OrderFree) (c : Composer)
    (utcNow : Int) {corpus : List Attestation} (hids : (corpus.map (·.attestationId)).Nodup) :
    (∃ k, c.compose L utcNow corpus = some k ∧
      Accounts L c (c.cfg.now.getD utcNow) corpus k ∧
      ∀ corpus' : List Attestation, corpus.Perm corpus' →
        ∃ k', c.compose L utcNow corpus' = some k' ∧
          List.Forall₂ Verdict.Same k.verdicts k'.verdicts ∧ k.refusals.Perm k'.refusals) ↔
      c.Settled L (c.cfg.now.getD utcNow) corpus := by
  rw [← forall_isSome_verdictAt_iff hL, ← isSome_compose_iff, Option.isSome_iff_exists]
  constructor
  · rintro ⟨k, hk, _⟩
    exact ⟨k, hk⟩
  · rintro ⟨k, hk⟩
    exact ⟨k, hk, accounts_of_compose hids hk, fun _ hperm => compose_perm hids hperm horder hk⟩

section Samples

theorem pairwise_sampleLe (atts : List Attestation) :
    (atts.insertionSort sampleLe).Pairwise sampleLe := by
  have : Std.Total sampleLe := ⟨fun a b => by
    rcases lt_trichotomy a.assertedAt b.assertedAt with h | h | h
    · exact .inr (.inl h)
    · exact (le_total a.attestationId b.attestationId).imp
        (fun hid => .inr ⟨h, hid⟩) fun hid => .inr ⟨h.symm, hid⟩
    · exact .inl (.inl h)⟩
  have : IsTrans Attestation sampleLe := ⟨fun a b d hab hbd => by
    rcases hab with h | ⟨h, hid⟩ <;> rcases hbd with h' | ⟨h', hid'⟩
    · exact .inl (h'.trans h)
    · exact .inl (h' ▸ h)
    · exact .inl (h ▸ h')
    · exact .inr ⟨h.trans h', hid.trans hid'⟩⟩
  exact List.pairwise_insertionSort sampleLe atts

theorem sampleLib_orderFree : sampleLib.OrderFree := by
  intro atts atts' hids hperm
  have hsorted : atts.insertionSort sampleLe = atts'.insertionSort sampleLe := by
    refine List.Perm.eq_of_pairwise ?_ (pairwise_sampleLe atts) (pairwise_sampleLe atts')
      (((List.perm_insertionSort _ _).trans hperm).trans (List.perm_insertionSort _ _).symm)
    intro a b ha hb hab hba
    have hid : a.attestationId = b.attestationId := by
      rcases hab with h | ⟨h, hid⟩ <;> rcases hba with h' | ⟨h', hid'⟩
      · omega
      · omega
      · omega
      · exact le_antisymm hid hid'
    rw [List.mem_insertionSort] at ha hb
    exact List.inj_on_of_nodup_map hids ha (hperm.mem_iff.mpr hb) hid
  exact congrArg List.head? hsorted

/-- Two rows with different ids, and no composition that could account for them. -/
theorem compose_accounts_twoOfAMind : sampleLib.Chooses ∧ sampleLib.OrderFree ∧
    (twoOfAMind.map (·.attestationId)).Nodup ∧
      ¬ ∃ k, sampleComposer.compose sampleLib 0 twoOfAMind = some k ∧
        Accounts sampleLib sampleComposer 0 twoOfAMind k := by
  refine ⟨sampleLib_chooses, sampleLib_orderFree, by decide, ?_⟩
  rintro ⟨k, hk, _⟩
  have hnone : sampleComposer.compose sampleLib 0 twoOfAMind = none := by decide +kernel
  rw [hnone] at hk
  cases hk

/-- A row of the pinned key, and one of a stranger. -/
def withAStranger : List Attestation :=
  [sampleRow "a" "steward" "prohibited:weapons" (-1) [],
    sampleRow "b" "stranger" "prohibited:weapons" 1 []]

theorem compose_accounts_iff_sample : ∃ k,
    sampleComposer.compose sampleLib 0 withAStranger = some k ∧
      Accounts sampleLib sampleComposer 0 withAStranger k := by
  have hids : (withAStranger.map (·.attestationId)).Nodup := by decide
  have hsome : (sampleComposer.compose sampleLib 0 withAStranger).isSome = true := by
    decide +kernel
  rw [isSome_compose_iff, forall_isSome_verdictAt_iff sampleLib_chooses] at hsome
  obtain ⟨k, hk, haccounts, _⟩ := (compose_accounts_iff sampleLib_chooses sampleLib_orderFree
    sampleComposer 0 hids).mpr hsome
  exact ⟨k, hk, haccounts⟩

end Samples

end CirisServer.ComposePolicy
