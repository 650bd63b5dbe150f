import CirisServer.Spec.CompositionOrder

/-!
# Rows nobody trusts

A row whose attester is not pinned is refused. It moves no verdict exactly if it changes no answer
of the sole-evidence screens, which resolve evidence in the whole corpus.
-/

namespace CirisServer.ComposePolicy

variable {L : Lib} {c : Composer} {now utcNow : Int} {before after corpus : List Attestation}
  {att x : Attestation}

/-! ## The evidence screens -/

/-- Both sole-evidence screens answer alike over two corpora. -/
def SameEvidence (att : Attestation) (corpus corpus' : List Attestation) : Prop :=
  testimonialSoleEvidence att corpus' = testimonialSoleEvidence att corpus ∧
    detectorSoleEvidence att corpus' = detectorSoleEvidence att corpus

/-- The row `x` changes no answer about a `slashing:*` row that passes the other screens. -/
def Composer.Undisturbed (L : Lib) (c : Composer) (now : Int) (before after : List Attestation)
    (x : Attestation) : Prop :=
  ∀ att ∈ before ++ after, ∀ row, c.vet L att now = .ok row →
    startsWith row.dimension dimSlashing = true →
      SameEvidence att (before ++ after) (before ++ x :: after)

theorem head_of_startsWith {d head : String} {a : Char} {as : List Char}
    (hhead : head.toList = a :: as) (h : startsWith d head = true) : d.toList.head? = some a := by
  rw [startsWith, hhead] at h
  cases hd : d.toList with
  | nil => simp [hd] at h
  | cons b bs =>
    rw [hd, List.isPrefixOf, Bool.and_eq_true, beq_iff_eq] at h
    rw [List.head?_cons, h.1]

/-- No dimension is a witness's and a detector's. -/
theorem isDetector_eq_false {d : String} (h : isTestimonial d = true) : isDetector d = false := by
  have hwitness := head_of_startsWith (show dimTestimonialWitness.toList = 't' :: _ from rfl) h
  rw [isDetector, Bool.or_eq_false_iff]
  constructor
  · by_contra hd
    have := head_of_startsWith (show dimDetection.toList = 'd' :: _ from rfl) (by simpa using hd)
    simp [hwitness] at this
  · by_contra hd
    have := head_of_startsWith (show dimRatchetFlag.toList = 'r' :: _ from rfl) (by simpa using hd)
    simp [hwitness] at this

/-- Evidence is not of two kinds. -/
theorem detector_of_testimonial (h : testimonialSoleEvidence att corpus = true) :
    detectorSoleEvidence att corpus = false := by
  rw [testimonialSoleEvidence, soleEvidence] at h
  simp only [Bool.and_eq_true, decide_eq_true_eq, beq_iff_eq] at h
  obtain ⟨hpos, hall⟩ := h
  rw [eq_comm, List.countP_eq_length] at hall
  obtain ⟨row, hrow⟩ := List.exists_mem_of_length_pos hpos
  rw [detectorSoleEvidence, soleEvidence, Bool.and_eq_false_iff, beq_eq_false_iff_ne]
  right
  intro hdetector
  rw [eq_comm, List.countP_eq_length] at hdetector
  obtain ⟨d, hd, hkind⟩ := (Option.any_eq_true _ _).mp (hall row hrow)
  obtain ⟨d', hd', hkind'⟩ := (Option.any_eq_true _ _).mp (hdetector row hrow)
  rw [hd] at hd'
  cases hd'
  rw [isDetector_eq_false hkind] at hkind'
  cases hkind'

/-- What becomes of a row after the screens that read it alone. -/
theorem screen_of_vet {row : Row} (h : c.vet L att now = .ok row) : c.screen L corpus now att =
    if startsWith row.dimension dimSlashing = true then
      if testimonialSoleEvidence att corpus then .error .testimonialSoleEvidenceForSlashing
      else if detectorSoleEvidence att corpus then .error .detectorSoleEvidenceForSlashing
      else .ok row
    else .ok row := by
  rw [Composer.screen, h]
  show ((ensure (!(startsWith row.dimension dimSlashing && testimonialSoleEvidence att corpus)) _ :
    Except RefusalReason PUnit) >>= fun _ =>
      ensure (!(startsWith row.dimension dimSlashing && detectorSoleEvidence att corpus)) _ >>=
        fun _ => .ok row) = _
  cases startsWith row.dimension dimSlashing <;> cases testimonialSoleEvidence att corpus <;>
    cases detectorSoleEvidence att corpus <;> rfl

theorem screen_of_vet_error {reason : RefusalReason} (h : c.vet L att now = .error reason) :
    c.screen L corpus now att = .error reason := by
  rw [Composer.screen, h]
  rfl

/-- A row fares the same in both corpora exactly if the evidence screens answer alike on it. -/
theorem refusal?_screen_eq_iff {corpus' : List Attestation} :
    refusal? att (c.screen L corpus' now att) = refusal? att (c.screen L corpus now att) ↔
      ∀ row, c.vet L att now = .ok row → startsWith row.dimension dimSlashing = true →
        SameEvidence att corpus corpus' := by
  cases hvet : c.vet L att now with
  | error reason => simp [screen_of_vet_error hvet]
  | ok row =>
    rw [screen_of_vet hvet, screen_of_vet hvet]
    by_cases hslashing : startsWith row.dimension dimSlashing = true
    · have hdisjoint : testimonialSoleEvidence att corpus = true → _ := detector_of_testimonial
      have hdisjoint' : testimonialSoleEvidence att corpus' = true → _ := detector_of_testimonial
      rw [SameEvidence]
      revert hdisjoint hdisjoint'
      cases testimonialSoleEvidence att corpus <;> cases testimonialSoleEvidence att corpus' <;>
        cases detectorSoleEvidence att corpus <;> cases detectorSoleEvidence att corpus' <;>
          simp [hslashing, refusal?]
    · simp [hslashing]

theorem screen_eq_of_refusal?_eq {corpus' : List Attestation}
    (h : refusal? att (c.screen L corpus' now att) = refusal? att (c.screen L corpus now att)) :
    c.screen L corpus' now att = c.screen L corpus now att := by
  cases hvet : c.vet L att now with
  | error reason => rw [screen_of_vet_error hvet, screen_of_vet_error hvet]
  | ok row =>
    have hsame := refusal?_screen_eq_iff.mp h row hvet
    rw [screen_of_vet hvet, screen_of_vet hvet]
    split
    · next hslashing =>
      obtain ⟨htestimonial, hdetector⟩ := hsame hslashing
      rw [htestimonial, hdetector]
    · rfl

/-! ## The refusals -/

theorem refusals_of_compose {k : Composition} (h : c.compose L utcNow corpus = some k) :
    k.refusals = c.refused L (c.cfg.now.getD utcNow) corpus := by
  rw [compose_eq] at h
  obtain ⟨_, _, rfl⟩ := Option.map_eq_some_iff.mp h
  rfl

theorem id_of_refusal? {s : Except RefusalReason Row} {r : Refusal}
    (h : refusal? att s = some r) : r.attestationId = att.attestationId := by
  cases s with
  | ok row => cases h
  | error reason =>
    cases h
    rfl

/-- The refusal of a row is found by its id. -/
theorem mem_refused_iff (hids : (corpus.map (·.attestationId)).Nodup) (hatt : att ∈ corpus)
    {r : Refusal} : refusal? att (c.screen L corpus now att) = some r ↔
      r ∈ c.refused L now corpus ∧ r.attestationId = att.attestationId := by
  rw [Composer.refused, List.mem_filterMap]
  constructor
  · intro h
    exact ⟨⟨att, hatt, h⟩, id_of_refusal? h⟩
  · rintro ⟨⟨other, hother, h⟩, hid⟩
    have hsame := List.inj_on_of_nodup_map hids hother hatt ((id_of_refusal? h).symm.trans hid)
    rwa [← hsame]

theorem vet_untrusted (L : Lib) (now : Int) (h : c.trust.contains x.attestingKeyId = false) :
    ∃ reason, c.vet L x now = .error reason := by
  cases hvet : c.vet L x now with
  | error reason => exact ⟨reason, rfl⟩
  | ok row =>
    rw [(vet_ok hvet).2.2.2] at h
    cases h

/-! ## An untrusted row in the corpus -/

/-- What an untrusted row may do: it adds a refusal, and an undetermined verdict for a pair
    without an admitted row. -/
structure Unmoved (L : Lib) (c : Composer) (now : Int) (corpus : List Attestation)
    (k k' : Composition) : Prop where
  refusals : ∃ r, List.Inserted r k.refusals k'.refusals
  verdicts : k'.verdicts = k.verdicts ∨ ∃ v, v.decision = .undetermined ∧
    v.pair ∉ (c.admitted L now corpus).map Row.pair ∧ List.Inserted v k.verdicts k'.verdicts

theorem inserted_mid (x : Attestation) : List.Inserted x (before ++ after) (before ++ x :: after) :=
  ⟨before, after, rfl, rfl⟩

theorem nodup_without (hids : ((before ++ x :: after).map (·.attestationId)).Nodup) :
    ((before ++ after).map (·.attestationId)).Nodup ∧
      ∀ att ∈ before ++ after, att.attestationId ≠ x.attestationId := by
  rw [List.map_append, List.map_cons, List.nodup_middle, List.nodup_cons, ← List.map_append] at hids
  refine ⟨hids.2, fun att hatt heq => hids.1 ?_⟩
  exact heq ▸ List.mem_map_of_mem hatt

section Undisturbed

variable (hids : ((before ++ x :: after).map (·.attestationId)).Nodup)
  (hx : c.trust.contains x.attestingKeyId = false)
include hx

theorem admitted_undisturbed (h : c.Undisturbed L now before after x) :
    c.admitted L now (before ++ x :: after) = c.admitted L now (before ++ after) := by
  obtain ⟨reason, hreason⟩ := vet_untrusted L now hx
  have hcongr : ∀ att ∈ before ++ after, (c.screen L (before ++ x :: after) now att).toOption =
      (c.screen L (before ++ after) now att).toOption := fun att hatt =>
    congrArg _ (screen_eq_of_refusal?_eq (refusal?_screen_eq_iff.mpr (h att hatt)))
  rw [List.forall_mem_append] at hcongr
  rw [Composer.admitted, Composer.admitted, List.filterMap_append, List.filterMap_append,
    List.filterMap_cons, screen_of_vet_error hreason, List.filterMap_congr hcongr.1,
    List.filterMap_congr hcongr.2]
  rfl

theorem refused_undisturbed (h : c.Undisturbed L now before after x) :
    ∃ r, List.Inserted r (c.refused L now (before ++ after))
      (c.refused L now (before ++ x :: after)) := by
  obtain ⟨reason, hreason⟩ := vet_untrusted L now hx
  have hcongr : ∀ att ∈ before ++ after, refusal? att (c.screen L (before ++ x :: after) now att) =
      refusal? att (c.screen L (before ++ after) now att) := fun att hatt =>
    refusal?_screen_eq_iff.mpr (h att hatt)
  rw [List.forall_mem_append] at hcongr
  rw [Composer.refused, Composer.refused, List.filterMap_append, List.filterMap_append,
    List.filterMap_cons, screen_of_vet_error hreason, List.filterMap_congr hcongr.1,
    List.filterMap_congr hcongr.2]
  exact ⟨_, _, _, rfl, rfl⟩

include hids

theorem unmoved_of_undisturbed (h : c.Undisturbed L (c.cfg.now.getD utcNow) before after x)
    {k : Composition} (hk : c.compose L utcNow (before ++ after) = some k) :
    ∃ k', c.compose L utcNow (before ++ x :: after) = some k' ∧
      Unmoved L c (c.cfg.now.getD utcNow) (before ++ after) k k' := by
  rw [compose_eq] at hk ⊢
  generalize c.cfg.now.getD utcNow = now at hk h ⊢
  obtain ⟨verdicts, hverdicts, rfl⟩ := Option.map_eq_some_iff.mp hk
  have hadmitted := admitted_undisturbed hx h
  have hat : c.verdictAt L now (before ++ x :: after) = c.verdictAt L now (before ++ after) := by
    funext p
    simp only [Composer.verdictAt, Composer.group, hadmitted]
  have hpairs : ∀ p, p ∈ c.pairs L now (before ++ x :: after) ↔
      x.pair? = some p ∨ p ∈ c.pairs L now (before ++ after) := by
    intro p
    rw [mem_pairs_iff hids, mem_pairs_iff (nodup_without hids).1]
    simp only [(inserted_mid x).mem_iff, exists_eq_or_imp]
  rw [hat]
  by_cases hnew : ∃ p, x.pair? = some p ∧ p ∉ c.pairs L now (before ++ after)
  · -- the row's pair is new: its verdict is undetermined
    obtain ⟨p, hp, hout⟩ := hnew
    have hkeys : List.Inserted p (c.pairs L now (before ++ after))
        (c.pairs L now (before ++ x :: after)) := by
      rw [Composer.pairs, List.mem_sortedKeys] at hout
      apply List.sortedKeys_inserted hout
      intro q
      have hq := hpairs q
      rw [Composer.pairs, Composer.pairs, List.mem_sortedKeys, List.mem_sortedKeys, hp,
        Option.some.injEq, eq_comm (a := p)] at hq
      exact hq
    have hnone : p ∉ (c.admitted L now (before ++ after)).map Row.pair := fun hin =>
      hout (List.mem_sortedKeys.mpr (List.mem_append_left _ hin))
    have hundecided : c.verdictAt L now (before ++ after) p = some (.undecided p) := by
      rw [Composer.verdictAt, if_neg hnone]
    obtain ⟨verdicts', hverdicts', hinserted⟩ := List.mapM_inserted hkeys hundecided hverdicts
    exact ⟨_, by rw [hverdicts']; rfl, refused_undisturbed hx h,
      .inr ⟨.undecided p, rfl, hnone, hinserted⟩⟩
  · -- no new pair
    have hkeys : c.pairs L now (before ++ x :: after) = c.pairs L now (before ++ after) := by
      apply List.sortedKeys_congr
      intro q
      have hq := hpairs q
      rw [Composer.pairs, Composer.pairs, List.mem_sortedKeys, List.mem_sortedKeys] at hq
      rw [hq, or_iff_right_of_imp]
      intro hxq
      by_contra hout
      exact hnew ⟨q, hxq, by rwa [Composer.pairs, List.mem_sortedKeys]⟩
    rw [hkeys, hverdicts]
    exact ⟨_, rfl, refused_undisturbed hx h, .inl rfl⟩

/-- The refusals of the other rows show what the evidence screens answered. -/
theorem undisturbed_of_inserted {r : Refusal}
    (h : List.Inserted r (c.refused L now (before ++ after))
      (c.refused L now (before ++ x :: after))) : c.Undisturbed L now before after x := by
  obtain ⟨hold, hne⟩ := nodup_without hids
  obtain ⟨reason, hreason⟩ := vet_untrusted L now hx
  -- the refusal that came in is the row's own
  have hr : r.attestationId = x.attestationId := by
    have hown : refusal? x (c.screen L (before ++ x :: after) now x) =
        some ⟨x.attestationId, x.attestingKeyId, envelopeStr x "dimension", reason⟩ := by
      rw [screen_of_vet_error hreason]
      rfl
    obtain ⟨hmem, hid⟩ :=
      (mem_refused_iff hids ((inserted_mid x).mem_iff.mpr (.inl rfl))).mp hown
    rcases h.mem_iff.mp hmem with heq | hin
    · rw [← heq]
    · obtain ⟨att, hatt, hrefusal⟩ := List.mem_filterMap.mp hin
      exact absurd (id_of_refusal? hrefusal).symm (hne att hatt)
  intro att hatt
  rw [← refusal?_screen_eq_iff]
  ext ρ
  rw [mem_refused_iff hids ((inserted_mid x).mem_iff.mpr (.inr hatt)), mem_refused_iff hold hatt,
    h.mem_iff, or_and_right, or_iff_right]
  rintro ⟨heq, hid⟩
  exact hne att hatt (by rw [← hid, heq, hr])

end Undisturbed

/-- **Untrusted rows.** A row whose attester is not pinned moves no verdict of a corpus that is
    composed exactly if it changes no answer of the sole-evidence screens. -/
theorem compose_unmoved_iff (L : Lib) (c : Composer) (utcNow : Int)
    {before after : List Attestation} {x : Attestation}
    (hids : ((before ++ x :: after).map (·.attestationId)).Nodup)
    (hx : c.trust.contains x.attestingKeyId = false) {k : Composition}
    (hk : c.compose L utcNow (before ++ after) = some k) :
    (∃ k', c.compose L utcNow (before ++ x :: after) = some k' ∧
      Unmoved L c (c.cfg.now.getD utcNow) (before ++ after) k k') ↔
        c.Undisturbed L (c.cfg.now.getD utcNow) before after x := by
  constructor
  · rintro ⟨k', hk', ⟨r, hr⟩, _⟩
    rw [refusals_of_compose hk, refusals_of_compose hk'] at hr
    exact undisturbed_of_inserted hids hx hr
  · intro h
    exact unmoved_of_undisturbed hids hx h hk

section Samples

/-- A trusted row that cites one row as its evidence. -/
def citing : Attestation :=
  sampleRow "s" "steward" "slashing:PROVEN_ROGUE" (-1) [("evidence_refs", .arr [.str "w"])]

/-- The row cited, of a key that nobody pinned. -/
def strangersWitness : Attestation := sampleRow "w" "stranger" "testimonial_witness:harm" (-1) []

/-- The stranger's row takes a verdict away. -/
theorem compose_strangersWitness :
    sampleComposer.trust.contains strangersWitness.attestingKeyId = false ∧
      (sampleComposer.compose sampleLib 0 [citing]).map
        (fun k => k.verdicts.map fun v => (v.dimension, v.decision)) =
          some [("slashing:PROVEN_ROGUE", .deny)] ∧
      (sampleComposer.compose sampleLib 0 [citing, strangersWitness]).map
        (fun k => k.verdicts.map fun v => (v.dimension, v.decision)) =
          some [("slashing:PROVEN_ROGUE", .undetermined),
            ("testimonial_witness:harm", .undetermined)] := by
  refine ⟨by decide +kernel, by decide +kernel, by decide +kernel⟩

theorem compose_unmoved_iff_sample :
    ¬ sampleComposer.Undisturbed sampleLib 0 [citing] [] strangersWitness := by
  have hids : (([citing] ++ [strangersWitness] : List Attestation).map
    (·.attestationId)).Nodup := by decide
  have hnone : (sampleComposer.compose sampleLib 0 [citing]).map (·.refusals.length) =
      some 0 := by decide +kernel
  have htwo : (sampleComposer.compose sampleLib 0 [citing, strangersWitness]).map
      (·.refusals.length) = some 2 := by decide +kernel
  obtain ⟨k, hk, hlen⟩ := Option.map_eq_some_iff.mp hnone
  intro h
  obtain ⟨k', hk', ⟨r, l, m, hl, hm⟩, _⟩ :=
    (compose_unmoved_iff sampleLib sampleComposer 0 hids (by decide +kernel) hk).mpr h
  have hlen' : k'.refusals.length = 2 := by
    have hsome := hk' ▸ htwo
    simpa using hsome
  rw [hl, List.length_append] at hlen
  rw [hm, List.length_append, List.length_cons] at hlen'
  omega

end Samples

end CirisServer.ComposePolicy
