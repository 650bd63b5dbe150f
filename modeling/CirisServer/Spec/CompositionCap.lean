import Mathlib.Algebra.Order.BigOperators.Group.List
import Mathlib.Algebra.Order.Ring.Abs
import CirisServer.Spec.CompositionExtremum

/-!
# The cap on a single source

A verdict on a `licensure:*` dimension stays within half of the scale until attesters of both
classes of co-steward are among its admitted rows. Weights lie between zero and one, and the
dimensions of witnesses and of non-maleficence are weighed by the attester's track record alone.
-/

namespace CirisServer.ComposePolicy

variable {L : Lib} {c : Composer} {track : TrackRecord} {density : CohortDensity} {p : Pair}
  {group : List Row} {now utcNow : Int} {corpus : List Attestation} {r : Row}

/-! ## Bounds -/

theorem clamp01_mem (x : ℚ) : 0 ≤ clamp01 x ∧ clamp01 x ≤ 1 :=
  ⟨le_max_left _ _, max_le zero_le_one (min_le_right _ _)⟩

theorem clamp01_of_mem {x : ℚ} (h : 0 ≤ x ∧ x ≤ 1) : clamp01 x = x := by
  rw [clamp01, min_eq_left h.2, max_eq_right h.1]

theorem clamp01_le {x b : ℚ} (hb : 0 ≤ b) (h : x ≤ b) : clamp01 x ≤ b :=
  max_le hb ((min_le_left _ _).trans h)

/-- A mean is no further from zero than the values are. -/
theorem abs_mean_le {values : List ℚ} {b : ℚ} (hb : 0 ≤ b) (h : ∀ x ∈ values, |x| ≤ b) :
    |mean values| ≤ b := by
  rcases Nat.eq_zero_or_pos values.length with hzero | hpos
  · rw [mean, hzero, Nat.cast_zero, div_zero, abs_zero]
    exact hb
  · have hupper := List.sum_le_card_nsmul values b fun x hx => (abs_le.mp (h x hx)).2
    have hlower := List.card_nsmul_le_sum values (-b) fun x hx => (abs_le.mp (h x hx)).1
    have hlength : (0 : ℚ) < values.length := Nat.cast_pos.mpr hpos
    rw [nsmul_eq_mul] at hupper hlower
    rw [mean, abs_le, le_div_iff₀ hlength, div_le_iff₀ hlength]
    constructor <;> linarith

/-- The weight of a track record is positive and at most one. -/
theorem selfWeight_mem (t : TrackRecord) (attester : String) :
    0 ≤ t.selfWeight attester ∧ t.selfWeight attester ≤ 1 := by
  have hslf : (0 : ℚ) ≤ (t.counts attester).1 := Nat.cast_nonneg _
  have hother : (0 : ℚ) ≤ (t.counts attester).2 := Nat.cast_nonneg _
  show 0 ≤ (1 + (t.counts attester).2 : ℚ) / (1 + (t.counts attester).2 + (t.counts attester).1) ∧
    (1 + (t.counts attester).2 : ℚ) / (1 + (t.counts attester).2 + (t.counts attester).1) ≤ 1
  refine ⟨div_nonneg (by linarith) (by linarith), ?_⟩
  rw [div_le_one₀ (by linarith)]
  linarith

/-- An admitted row is within the scale. -/
theorem vet_mem {att : Attestation} {row : Row} (h : c.vet L att now = .ok row) :
    (0 ≤ row.confidence ∧ row.confidence ≤ 1) ∧ |row.score| ≤ 1 := by
  simp only [Composer.vet, except_bind_eq_ok_iff, ensure_eq_ok_iff, decide_eq_true_eq] at h
  obtain ⟨_, _, _, _, _, _, _, _, _, _, _, _, _, _, _, _, _, hconfidence, _, hscore, _, _, hrow⟩ := h
  cases hrow
  exact ⟨hconfidence, abs_le.mpr hscore⟩

theorem mem_scale (h : r ∈ c.admitted L now corpus) :
    (0 ≤ r.confidence ∧ r.confidence ≤ 1) ∧ |r.score| ≤ 1 := by
  obtain ⟨att, _, hscreen⟩ := mem_admitted.mp h
  exact vet_mem (vet_of_screen hscreen)

/-! ## Weights -/

/-- The dimensions that the density of a cohort does not weigh. -/
def isProtected (dimension : String) : Bool :=
  startsWith dimension dimTestimonialWitness || startsWith dimension dimNonMaleficence

theorem weigh_mem (r : Row) : 0 ≤ (c.weigh track density r).1 ∧ (c.weigh track density r).1 ≤ 1 := by
  unfold Composer.weigh
  dsimp only
  split
  · exact ⟨zero_le_one, le_refl _⟩
  · exact clamp01_mem _

/-- In the default order a protected row weighs as much as the attester's track record says. -/
theorem weigh_protected (horder : c.cfg.order = .structuralThenFrickerian)
    (hprotected : isProtected r.dimension = true) : c.weigh track density r =
      (if r.witnessRelation == "self" then track.selfWeight r.att.attestingKeyId else 1,
        r.witnessRelation == "self", false) := by
  have hweight : (0 : ℚ) ≤
      (if r.witnessRelation == "self" then track.selfWeight r.att.attestingKeyId else 1) ∧
      (if r.witnessRelation == "self" then track.selfWeight r.att.attestingKeyId else 1) ≤ (1 : ℚ)
      := by
    split
    · exact selfWeight_mem track _
    · exact ⟨zero_le_one, le_refl _⟩
  rw [isProtected] at hprotected
  simp only [Composer.weigh, horder, hprotected, reduceCtorEq, false_and, if_false, Bool.not_true,
    Bool.false_and, Bool.false_eq_true, clamp01_of_mem hweight]

/-! ## The cap -/

theorem startsWith_other {d a b : String} (h : startsWith d a = true)
    (hab : a.toList.isPrefixOf b.toList = false) (hba : b.toList.isPrefixOf a.toList = false) :
    startsWith d b = false := by
  rw [Bool.eq_false_iff]
  intro hb
  rw [startsWith, List.isPrefixOf_iff_prefix] at h hb
  rw [Bool.eq_false_iff, Ne, List.isPrefixOf_iff_prefix] at hab hba
  rcases List.prefix_or_prefix_of_prefix h hb with hprefix | hprefix
  · exact hab hprefix
  · exact hba hprefix

theorem polarityFor_licensure {d : String} (h : startsWith d dimLicensure = true) :
    polarityFor d = .signed := by
  have hother : ∀ head ∈ [dimDetection, dimRatchetFlag, "prohibited:", dimRevocation,
      "attestation:", dimSlashing, "witness_diversity:", dimJudgeModel, "activity_tier:", "need:",
      dimBenchmarkHe300, "credits:", "content_class:", "cw_class:", "age_assurance:",
      dimPartnerRole], dimLicensure.toList.isPrefixOf head.toList = false ∧
      head.toList.isPrefixOf dimLicensure.toList = false := by decide +kernel
  have hnot : ∀ head ∈ _, startsWith d head = false := fun head hhead =>
    startsWith_other h (hother head hhead).1 (hother head hhead).2
  simp only [List.forall_mem_cons] at hnot
  simp [polarityFor, hnot]

/-- No more than half of the scale on either side. -/
def Verdict.Capped (v : Verdict) : Prop := v.confidence ≤ 1 / 2 ∧ |v.value| ≤ 1 / 2

/-- Both classes of co-steward are among the attesters of the rows. -/
def CoStewarded (t : TrustSet) (rows : List Row) : Prop :=
  (∃ r ∈ rows, t.coSteward r.att.attestingKeyId = some .registry) ∧
    ∃ r ∈ rows, t.coSteward r.att.attestingKeyId = some .verify

instance (t : TrustSet) (rows : List Row) : Decidable (CoStewarded t rows) :=
  inferInstanceAs (Decidable (_ ∧ _))

/-- The cap is lifted by the two classes and by nothing else. -/
theorem licensureCap_eq_false_iff {d : String} (h : startsWith d dimLicensure = true) :
    c.licensureCap d group = false ↔ CoStewarded c.trust group := by
  let classes := group.filterMap fun r => c.trust.coSteward r.att.attestingKeyId
  have hmem : ∀ role, role ∈ classes.dedup ↔
      ∃ r ∈ group, c.trust.coSteward r.att.attestingKeyId = some role := by
    intro role
    rw [List.mem_dedup, List.mem_filterMap]
  rw [Composer.licensureCap, h, Bool.true_and, decide_eq_false_iff_not, not_lt, CoStewarded,
    ← hmem, ← hmem]
  show 2 ≤ classes.dedup.length ↔ _
  constructor
  · intro htwo
    have hall : ∀ role other : CoSteward, (∀ r, r = role ∨ r = other) → role ∈ classes.dedup := by
      intro role other hcases
      by_contra hnot
      have hsub : classes.dedup ⊆ [other] := by
        intro r hr
        rcases hcases r with rfl | rfl
        · exact absurd hr hnot
        · exact List.mem_singleton_self _
      have hle := (List.subperm_of_subset (List.nodup_dedup classes) hsub).length_le
      rw [List.length_singleton] at hle
      omega
    exact ⟨hall .registry .verify (by intro r; cases r <;> simp),
      hall .verify .registry (by intro r; cases r <;> simp)⟩
  · rintro ⟨hregistry, hverify⟩
    have hsub : [CoSteward.registry, .verify] ⊆ classes.dedup := by simp [hregistry, hverify]
    exact (List.subperm_of_subset (by decide) hsub).length_le

/-- What a capped row contributes to a mean. -/
theorem contribution_capped (hr : (0 ≤ r.confidence ∧ r.confidence ≤ 1) ∧ |r.score| ≤ 1) :
    |(c.contribution track density true r).confidence| ≤ 1 / 2 ∧
      |(c.contribution track density true r).score * (c.contribution track density true r).confidence
        * (c.contribution track density true r).weight| ≤ 1 / 2 := by
  obtain ⟨⟨hlow, -⟩, hscore⟩ := hr
  have hconfidence : |min r.confidence (1 / 2)| ≤ 1 / 2 := by
    rw [abs_of_nonneg (le_min hlow (by norm_num))]
    exact min_le_right _ _
  have hweight : |(c.weigh track density r).1| ≤ 1 := by
    rw [abs_of_nonneg (weigh_mem r).1]
    exact (weigh_mem r).2
  refine ⟨hconfidence, ?_⟩
  show |r.score * min r.confidence (1 / 2) * (c.weigh track density r).1| ≤ 1 / 2
  calc |r.score * min r.confidence (1 / 2) * (c.weigh track density r).1|
      = |r.score| * |min r.confidence (1 / 2)| * |(c.weigh track density r).1| := by
        rw [abs_mul, abs_mul]
    _ ≤ 1 * (1 / 2) * 1 := by gcongr
    _ = 1 / 2 := by norm_num

/-- A mean of capped rows is capped, and so is the word that breaks a tie. -/
theorem signedMean_capped (hrows : ∀ r ∈ group,
    (0 ≤ r.confidence ∧ r.confidence ≤ 1) ∧ |r.score| ≤ 1) :
    (signedMean L (weighed (c.contribution track density true) group)).confidence ≤ 1 / 2 ∧
      |(signedMean L (weighed (c.contribution track density true) group)).value| ≤ 1 / 2 := by
  have hbound : ∀ v ∈ weighed (c.contribution track density true) group,
      |v.1.confidence| ≤ 1 / 2 ∧ |v.1.score * v.1.confidence * v.1.weight| ≤ 1 / 2 := by
    intro v hv
    obtain ⟨r, hr, rfl⟩ := List.mem_map.mp hv
    exact contribution_capped (hrows r hr)
  have hconfidence : clamp01 (mean ((weighed (c.contribution track density true) group).map
      (·.1.confidence))) ≤ 1 / 2 := by
    refine clamp01_le (by norm_num) ((le_abs_self _).trans (abs_mean_le (by norm_num) ?_))
    exact List.forall_mem_map.mpr fun v hv => (hbound v hv).1
  have hvalue : |mean ((weighed (c.contribution track density true) group).map
      fun w => w.1.score * w.1.confidence * w.1.weight)| ≤ 1 / 2 :=
    abs_mean_le (by norm_num) (List.forall_mem_map.mpr fun v hv => (hbound v hv).2)
  unfold signedMean
  dsimp only
  split
  · split
    · next v hwinner =>
      -- the winner is one of the rows
      obtain ⟨r, hprefers, rfl⟩ := winner_eq_some_iff.mp hwinner
      have hword := hbound _ (List.mem_map_of_mem (prefers_mem hprefers))
      exact ⟨(le_abs_self _).trans hword.1, hword.2⟩
    · exact ⟨hconfidence, hvalue⟩
  · exact ⟨hconfidence, hvalue⟩

theorem composeGroup_capped {v : Verdict} (hp : startsWith (ofLex p).1 dimLicensure = true)
    (hrows : ∀ r ∈ group, (0 ≤ r.confidence ∧ r.confidence ≤ 1) ∧ |r.score| ≤ 1)
    (hv : c.composeGroup L track density p group = some v) :
    v.Capped ∨ CoStewarded c.trust group := by
  cases hcap : c.licensureCap (ofLex p).1 group with
  | false => exact .inr ((licensureCap_eq_false_iff hp).mp hcap)
  | true =>
    rw [composeGroup_eq, Composer.weighedGroup, hcap, polarityFor_licensure hp, aggregate] at hv
    split at hv
    · cases hv
      exact .inl ⟨by show (0 : ℚ) ≤ 1 / 2; norm_num, by show |(0 : ℚ)| ≤ 1 / 2; norm_num⟩
    · cases hv
      exact .inl (signedMean_capped hrows)

/-! ## Verdicts -/

/-- The contributions of a verdict are those of its rows. -/
theorem contributions_of_composeGroup {v : Verdict}
    (hv : c.composeGroup L track density p group = some v) : v.contributions =
      group.map (c.contribution track density (c.licensureCap (ofLex p).1 group)) := by
  rw [composeGroup_eq] at hv
  obtain ⟨a, -, rfl⟩ := Option.map_eq_some_iff.mp hv
  show (weighed _ group).map Prod.fst = _
  rw [weighed, List.map_map]
  rfl

/-- A verdict is that of its pair's admitted rows, or an undecided one. -/
theorem verdict_of_compose {k : Composition} (hk : c.compose L utcNow corpus = some k)
    {v : Verdict} (hv : v ∈ k.verdicts) :
    v = .undecided v.pair ∨
      c.composeGroup L (TrackRecord.of (c.admitted L (c.cfg.now.getD utcNow) corpus))
        (CohortDensity.of (c.admitted L (c.cfg.now.getD utcNow) corpus)) v.pair
        (c.group L (c.cfg.now.getD utcNow) corpus v.pair) = some v := by
  rw [compose_eq] at hk
  obtain ⟨verdicts, hverdicts, rfl⟩ := Option.map_eq_some_iff.mp hk
  have hof := List.eq_some_of_mem_mapM (fun _ _ => pair_of_verdictAt) hverdicts hv
  rw [Composer.verdictAt] at hof
  split at hof
  · exact .inr hof
  · exact .inl (Option.some.inj hof).symm

theorem verdict_capped {k : Composition} (hk : c.compose L utcNow corpus = some k) {v : Verdict}
    (hv : v ∈ k.verdicts) (hp : startsWith v.dimension dimLicensure = true) :
    v.Capped ∨ CoStewarded c.trust (c.group L (c.cfg.now.getD utcNow) corpus v.pair) := by
  rcases verdict_of_compose hk hv with hundecided | hgroup
  · rw [hundecided]
    exact .inl ⟨by show (0 : ℚ) ≤ 1 / 2; norm_num, by show |(0 : ℚ)| ≤ 1 / 2; norm_num⟩
  · exact composeGroup_capped (p := v.pair) hp (fun r hr => mem_scale (List.mem_filter.mp hr).1) hgroup

/-- **The cap and the weights of a composition.** -/
theorem compose_capped (L : Lib) (c : Composer) (utcNow : Int) (corpus : List Attestation)
    {k : Composition} (hk : c.compose L utcNow corpus = some k) {v : Verdict}
    (hv : v ∈ k.verdicts) :
    (startsWith v.dimension dimLicensure = true →
      ¬ CoStewarded c.trust (c.group L (c.cfg.now.getD utcNow) corpus v.pair) → v.Capped) ∧
    (∀ x ∈ v.contributions, 0 ≤ x.weight ∧ x.weight ≤ 1) ∧
    (c.cfg.order = .structuralThenFrickerian → isProtected v.dimension = true →
      ∀ x ∈ v.contributions, x.lowDensityApplied = false ∧ x.weight =
        if x.selfTrackRecordApplied then
          (TrackRecord.of (c.admitted L (c.cfg.now.getD utcNow) corpus)).selfWeight x.attestingKeyId
        else 1) := by
  refine ⟨fun hp hnot => (verdict_capped hk hv hp).resolve_right hnot, ?_, ?_⟩
  · rcases verdict_of_compose hk hv with hundecided | hgroup
    · rw [hundecided]
      exact List.forall_mem_nil _
    · rw [contributions_of_composeGroup hgroup]
      exact List.forall_mem_map.mpr fun r _ => weigh_mem r
  · intro horder hprotected
    rcases verdict_of_compose hk hv with hundecided | hgroup
    · rw [hundecided]
      exact List.forall_mem_nil _
    · rw [contributions_of_composeGroup hgroup]
      refine List.forall_mem_map.mpr fun r hr => ?_
      have hdimension : r.dimension = v.dimension :=
        congrArg (fun q => (ofLex q).1) (beq_iff_eq.mp (List.mem_filter.mp hr).2)
      simp only [Composer.contribution, weigh_protected horder (hdimension ▸ hprotected), and_self]

/-! ## Co-stewards by conferral -/

/-- The substrate confers the class on the key. -/
def Substrate.Confers (S : Substrate) (keyId : String) (role : CoSteward) : Prop :=
  S.hasAccordConferredRole keyId role = .ok true

theorem confers_of_hasRole {S : Substrate} {keyId : String} {role : CoSteward}
    (h : S.hasRole keyId role = .ok true) : S.Confers keyId role := by
  rw [Substrate.hasRole] at h
  cases hread : S.hasAccordConferredRole keyId role with
  | error e =>
    rw [hread] at h
    cases h
  | ok answer =>
    rw [hread] at h
    cases h
    exact hread

/-- A class that is resolved is conferred. -/
theorem confers_of_coStewardOf {S : Substrate} {keyId : String} {role : CoSteward}
    (h : S.coStewardOf keyId = .ok (some role)) : S.Confers keyId role := by
  simp only [Substrate.coStewardOf, except_bind_eq_ok_iff] at h
  obtain ⟨registry, hregistry, h⟩ := h
  cases registry with
  | true =>
    cases h
    exact confers_of_hasRole hregistry
  | false =>
    obtain ⟨verify, hverify, h⟩ := except_bind_ok h
    cases verify with
    | true =>
      cases h
      exact confers_of_hasRole hverify
    | false => cases h

/-- The loop resolves only what is conferred. -/
theorem confers_of_resolve {S : Substrate} {rows : List Attestation} :
    ∀ {resolved found : List (String × CoSteward)}, (∀ e ∈ resolved, S.Confers e.1 e.2) →
      S.resolveCoStewards resolved rows = .ok found → ∀ e ∈ found, S.Confers e.1 e.2 := by
  induction rows with
  | nil =>
    intro resolved found hresolved h
    cases h
    exact hresolved
  | cons att rows ih =>
    intro resolved found hresolved h
    rw [Substrate.resolveCoStewards] at h
    split at h
    · obtain ⟨role, hrole, h⟩ := except_bind_ok h
      cases role with
      | none =>
        dsimp only at h
        exact ih hresolved h
      | some role =>
        dsimp only at h
        have hadded : ∀ e ∈ (att.attestingKeyId, role) :: resolved, S.Confers e.1 e.2 :=
          List.forall_mem_cons.mpr ⟨confers_of_coStewardOf hrole, hresolved⟩
        exact ih hadded h
    · exact ih hresolved h

/-- A key's class after the pins is that of a pin, or the one it had. -/
theorem coSteward_pins {pins : List (String × CoSteward)} {keyId : String} {role : CoSteward} :
    ∀ {t : TrustSet}, (pins.foldl (fun t e => t.pinCoSteward e.1 e.2) t).coSteward keyId =
      some role → (keyId, role) ∈ pins ∨ t.coSteward keyId = some role := by
  induction pins with
  | nil => exact fun h => .inr h
  | cons pin pins ih =>
    intro t h
    rcases ih h with hmem | hlookup
    · exact .inl (List.mem_cons_of_mem _ hmem)
    · change List.lookup keyId (pin :: t.coStewards) = some role at hlookup
      rw [List.lookup_cons] at hlookup
      split at hlookup
      · next heq =>
        cases hlookup
        rw [beq_iff_eq.mp heq]
        exact .inl List.mem_cons_self
      · exact .inr hlookup

/-- **Composed from the substrate**, a licensure is lifted only by attesters on whom the two classes
    were conferred, or whom the trust set had pinned. -/
theorem composeForKey_capped {S : Substrate} {attestedKeyId : String} {k : Composition}
    (h : c.composeForKey L S utcNow attestedKeyId = .ok (some k)) {v : Verdict}
    (hv : v ∈ k.verdicts) (hp : startsWith v.dimension dimLicensure = true) :
    v.Capped ∨ ∀ role, ∃ rows att, S.attestationsToAll attestedKeyId = .ok rows ∧ att ∈ rows ∧
      (S.Confers att.attestingKeyId role ∨ c.trust.coSteward att.attestingKeyId = some role) := by
  simp only [Composer.composeForKey, except_bind_eq_ok_iff] at h
  obtain ⟨rows, hrows, resolved, hresolved, revocations, -, h⟩ := h
  have hread : S.attestationsToAll attestedKeyId = .ok rows := by
    cases hread : S.attestationsToAll attestedKeyId with
    | error e =>
      rw [hread] at hrows
      cases hrows
    | ok found =>
      rw [hread] at hrows
      cases hrows
      rfl
  have hconfers := confers_of_resolve (List.forall_mem_nil _) hresolved
  refine (verdict_capped (Except.ok.inj h) hv hp).imp_right fun hboth role => ?_
  obtain ⟨r, hr, hrole⟩ : ∃ r : Row, r ∈ _ ∧ TrustSet.coSteward _ r.att.attestingKeyId = some role := by
    cases role with
    | registry => exact hboth.1
    | verify => exact hboth.2
  obtain ⟨att, hatt, hscreen⟩ := mem_admitted.mp (List.mem_filter.mp hr).1
  refine ⟨rows, att, hread, hatt, ?_⟩
  rw [← att_of_screen hscreen]
  exact (coSteward_pins hrole).imp_left (hconfers _)

section Samples

/-- Two keys of the registry's class are pinned, and one of the verifier's. -/
def coStewardedComposer : Composer :=
  { sampleComposer with trust :=
      ⟨["registry", "registrar", "verifier"],
        [("registry", .registry), ("registrar", .registry), ("verifier", .verify)]⟩ }

/-- Two keys of one class license, and the other class's row has no confidence that can be read. -/
def singleSourced : List Attestation :=
  [sampleRow "a" "registry" "licensure:board" 1 [], sampleRow "b" "registrar" "licensure:board" 1 [],
    { sampleRow "c" "verifier" "licensure:board" 1 [] with
      attestationEnvelope := .obj [("dimension", .str "licensure:board")] }]

/-- Neither a second key of the class nor the refused row lifts the cap. -/
theorem compose_capped_sample : ∃ k v, coStewardedComposer.compose sampleLib 0 singleSourced =
    some k ∧ k.verdicts = [v] ∧ v.Capped := by
  obtain ⟨k, hk⟩ : ∃ k, coStewardedComposer.compose sampleLib 0 singleSourced = some k :=
    Option.isSome_iff_exists.mp (by decide +kernel)
  have hpairs : (coStewardedComposer.compose sampleLib 0 singleSourced).map
      (·.verdicts.map Verdict.pair) = some [toLex ("licensure:board", "node")] := by decide +kernel
  rw [hk, Option.map_some, Option.some.injEq] at hpairs
  obtain ⟨v, hv, hpair⟩ := List.map_eq_singleton_iff.mp hpairs
  have hdimension : v.dimension = "licensure:board" := congrArg (fun q => (ofLex q).1) hpair
  refine ⟨k, v, hk, hv, ?_⟩
  refine (compose_capped sampleLib coStewardedComposer 0 singleSourced hk
    (hv ▸ List.mem_singleton_self v)).1 ?_ ?_
  · rw [hdimension]
    decide +kernel
  · rw [hpair]
    decide +kernel

end Samples

end CirisServer.ComposePolicy
