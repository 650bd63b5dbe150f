import CirisServer.Spec.EquivocationIndex

/-!
# What the detector reports

A candidate is a pair of held claims that contradict one another. `detect` reports of rows with
different ids exactly the pairs of rows that do, in any order of the rows. Two pairs have one event
id exactly if their ids, joined by colons, overlap.
-/

namespace CirisServer.Equivocation

variable {L : Lib} {rows rows' : List Attestation}

/-- Two rows of one key about one subject and dimension, for one signed instant, that make different
    claims. -/
structure Contradicts (L : Lib) (a b : Attestation) (coord : ClaimCoordinate) (t : Int) : Prop where
  coord_left : coordinateOf L a = some coord
  coord_right : coordinateOf L b = some coord
  signed_left : ComposePolicy.signedInstant L.policy a.toAttestation = some t
  signed_right : ComposePolicy.signedInstant L.policy b.toAttestation = some t
  differ : sameClaim (RowClaim.of L a) (RowClaim.of L b) = false

/-! ## Candidates -/

theorem classifyClaims_eq_contradiction_iff {a b : RowClaim} :
    classifyClaims a b = .contradiction ↔
      sameClaim a b = false ∧ ∃ t, a.signedAt = some t ∧ b.signedAt = some t := by
  constructor
  · intro h
    refine ⟨?_, signedAt_of_contradiction h⟩
    cases hsame : sameClaim a b with
    | false => rfl
    | true => rw [classifyClaims, hsame] at h; cases h
  · rintro ⟨hsame, t, ha, hb⟩
    simp [classifyClaims, hsame, ha, hb]

/-- The candidate of two entries that contradict one another. -/
theorem entryOutcome_candidate_iff {e e' : Entry} {c : ClaimContradiction} :
    (∃ o, entryOutcome (e, e') = some o ∧ o.2 = some c) ↔
      e.1 = c.coordinate ∧ e'.1 = c.coordinate ∧ classifyClaims e.2 e'.2 = .contradiction ∧
        e.2.signedAt = some c.signedAt ∧ c.attestationIds = sortedIds e.2 e'.2 := by
  obtain ⟨coord, claim⟩ := e
  obtain ⟨coord', claim'⟩ := e'
  obtain ⟨coordinate, signedAt, attestationIds⟩ := c
  by_cases hcoord : coord = coord'
  · subst hcoord
    cases hverdict : classifyClaims claim claim' with
    | contradiction =>
      obtain ⟨t, ht, -⟩ := signedAt_of_contradiction hverdict
      simp [entryOutcome, outcome, hverdict, ht, eq_comm]
    | sameStatement | superseded | noSignedInstant => simp [entryOutcome, outcome, hverdict]
  · have hdiffer : ¬ (coord = coordinate ∧ coord' = coordinate) := by
      rintro ⟨rfl, rfl⟩
      exact hcoord rfl
    simp only [entryOutcome, hcoord, if_false, reduceCtorEq, false_and, exists_false, false_iff]
    tauto

/-- The candidates of an index: its pairs of claims that contradict one another, the lesser id
    first. -/
theorem mem_candidates_iff {index : ClaimIndex} (h : index.WellFormed) {c : ClaimContradiction} :
    c ∈ index.verdicts.candidates ↔ ∃ e ∈ entries index.groups, ∃ e' ∈ entries index.groups,
      e.1 = c.coordinate ∧ e'.1 = c.coordinate ∧
      e.2.attestationId < e'.2.attestationId ∧
      classifyClaims e.2 e'.2 = .contradiction ∧ e.2.signedAt = some c.signedAt ∧
      c.attestationIds = (e.2.attestationId, e'.2.attestationId) := by
  have hmem : c ∈ index.verdicts.candidates ↔
      ∃ p ∈ (entries index.groups).pairs, ∃ o, entryOutcome p = some o ∧ o.2 = some c := by
    rw [ClaimIndex.verdicts, detectClaims_eq, tally, List.mem_filterMap]
    simp only [(outcomes_perm h.coords).mem_iff, List.mem_filterMap]
    constructor
    · rintro ⟨o, ⟨p, hp, ho⟩, hc⟩
      exact ⟨p, hp, o, ho, hc⟩
    · rintro ⟨p, hp, o, ho, hc⟩
      exact ⟨o, ⟨p, hp, ho⟩, hc⟩
  rw [hmem]
  constructor
  · rintro ⟨⟨e, e'⟩, hp, ho⟩
    obtain ⟨he, he'⟩ := List.mem_of_mem_pairs hp
    obtain ⟨hcoord, hcoord', hverdict, hat, hids⟩ := entryOutcome_candidate_iff.mp ho
    have hne : e.2.attestationId ≠ e'.2.attestationId := fun heq =>
      List.ne_of_mem_pairs h.keys hp (Prod.ext (hcoord.trans hcoord'.symm) heq)
    rcases lt_or_gt_of_ne hne with hlt | hgt
    · refine ⟨e, he, e', he', hcoord, hcoord', hlt, hverdict, hat, ?_⟩
      rw [hids, sortedIds, if_pos hlt.le]
    · obtain ⟨t, ht, ht'⟩ := signedAt_of_contradiction hverdict
      refine ⟨e', he', e, he, hcoord', hcoord, hgt, ?_, ?_, ?_⟩
      · rw [classifyClaims_comm, hverdict]
      · rw [ht', ← ht, hat]
      · rw [hids, sortedIds, if_neg (not_le.mpr hgt)]
  · rintro ⟨e, he, e', he', hcoord, hcoord', hlt, hverdict, hat, hids⟩
    have ho : ∃ o, entryOutcome (e, e') = some o ∧ o.2 = some c := by
      refine entryOutcome_candidate_iff.mpr ⟨hcoord, hcoord', hverdict, hat, ?_⟩
      rw [hids, sortedIds, if_pos hlt.le]
    have hne : e ≠ e' := by
      rintro rfl
      exact lt_irrefl _ hlt
    rcases List.mem_pairs_or he he' hne with hp | hp
    · exact ⟨(e, e'), hp, ho⟩
    · refine ⟨(e', e), hp, ?_⟩
      rwa [entryOutcome_comm]

/-! ## Evidence -/

/-- The evidence for a candidate, where both its rows are in hand. -/
def evidenceOf (L : Lib) (rows : List Attestation) (c : ClaimContradiction) :
    Option Contradiction := do
  let a ← byId rows c.attestationIds.1
  let b ← byId rows c.attestationIds.2
  return Contradiction.new L a b c.coordinate.dimension c.signedAt

theorem recordCandidate_contradictions (report : DetectorReport) (c : ClaimContradiction) :
    (recordCandidate L rows report c).contradictions =
      report.contradictions ++ (evidenceOf L rows c).toList := by
  unfold recordCandidate evidenceOf
  cases byId rows c.attestationIds.1 with
  | none => exact (List.append_nil _).symm
  | some a =>
    cases byId rows c.attestationIds.2 with
    | none => exact (List.append_nil _).symm
    | some b => rfl

theorem foldl_recordCandidate_contradictions (cs : List ClaimContradiction)
    (report : DetectorReport) : (cs.foldl (recordCandidate L rows) report).contradictions =
      report.contradictions ++ cs.filterMap (evidenceOf L rows) := by
  induction cs generalizing report with
  | nil => exact (List.append_nil _).symm
  | cons c cs ih =>
    rw [List.foldl_cons, ih, recordCandidate_contradictions, List.append_assoc, List.filterMap_cons]
    cases evidenceOf L rows c <;> rfl

theorem detect_contradictions :
    (detect L rows).contradictions =
      (indexOf L rows).verdicts.candidates.filterMap (evidenceOf L rows) :=
  foldl_recordCandidate_contradictions _ _

theorem wellFormed_indexOf : (indexOf L rows).WellFormed := by
  rw [indexOf_eq]
  exact ClaimIndex.wellFormed_empty.upsertAll _

theorem mem_entries_indexOf (hids : (rows.map (·.attestationId)).Nodup) {e : Entry} :
    e ∈ entries (indexOf L rows).groups ↔
      ∃ r ∈ rows, coordinateOf L r = some e.1 ∧ RowClaim.of L r = e.2 := by
  rw [(entries_indexOf hids).mem_iff, List.mem_filterMap]
  simp only [rowEntry_eq_some_iff]

theorem evidenceOf_eq (hids : (rows.map (·.attestationId)).Nodup) {a b : Attestation}
    (ha : a ∈ rows) (hb : b ∈ rows) (coord : ClaimCoordinate) (t : Int) :
    evidenceOf L rows ⟨coord, t, (a.attestationId, b.attestationId)⟩ =
      some (Contradiction.new L a b coord.dimension t) := by
  show (byId rows a.attestationId).bind _ = _
  rw [byId_eq_some hids ha]
  show (byId rows b.attestationId).bind _ = _
  rw [byId_eq_some hids hb]
  rfl

/-- What `detect` reports: the pairs of rows that contradict one another. -/
theorem mem_detect_iff (hids : (rows.map (·.attestationId)).Nodup) {x : Contradiction} :
    x ∈ (detect L rows).contradictions ↔ ∃ a ∈ rows, ∃ b ∈ rows, ∃ coord t,
      a.attestationId < b.attestationId ∧ Contradicts L a b coord t ∧
        x = Contradiction.new L a b coord.dimension t := by
  rw [detect_contradictions, List.mem_filterMap]
  simp only [mem_candidates_iff wellFormed_indexOf, mem_entries_indexOf hids]
  constructor
  · rintro ⟨⟨coord, t, ids⟩, ⟨e, ⟨a, ha, hacoord, haclaim⟩, e', ⟨b, hb, hbcoord, hbclaim⟩, hcoord,
      hcoord', hlt, hverdict, hat, hpair⟩, hx⟩
    simp only at hcoord hcoord' hat hpair
    rw [← haclaim, ← hbclaim] at hlt hverdict hpair
    rw [← haclaim] at hat
    obtain ⟨hsame, t', ht, ht'⟩ := classifyClaims_eq_contradiction_iff.mp hverdict
    cases ht.symm.trans hat
    refine ⟨a, ha, b, hb, coord, t, hlt, ⟨hcoord ▸ hacoord, hcoord' ▸ hbcoord, ht, ht', hsame⟩, ?_⟩
    have hevidence := evidenceOf_eq (L := L) hids ha hb coord t
    rw [hpair] at hx
    exact (Option.some.inj (hevidence.symm.trans hx)).symm
  · rintro ⟨a, ha, b, hb, coord, t, hlt, hcontradicts, rfl⟩
    refine ⟨⟨coord, t, (a.attestationId, b.attestationId)⟩, ⟨(coord, RowClaim.of L a),
      ⟨a, ha, hcontradicts.coord_left, rfl⟩, (coord, RowClaim.of L b),
      ⟨b, hb, hcontradicts.coord_right, rfl⟩, rfl, rfl, hlt, ?_, hcontradicts.signed_left, rfl⟩,
      evidenceOf_eq hids ha hb coord t⟩
    exact classifyClaims_eq_contradiction_iff.mpr
      ⟨hcontradicts.differ, t, hcontradicts.signed_left, hcontradicts.signed_right⟩

/-! ## The order of the rows -/

/-- Two reports of the same counts and, in some order, the same contradictions. -/
structure DetectorReport.Agree (r s : DetectorReport) : Prop where
  rowsScanned : r.rowsScanned = s.rowsScanned
  pairsCompared : r.pairsCompared = s.pairsCompared
  sameStatement : r.sameStatement = s.sameStatement
  superseded : r.superseded = s.superseded
  noSignedInstant : r.noSignedInstant = s.noSignedInstant
  contradictions : r.contradictions.Perm s.contradictions

theorem rowsScanned_detect : (detect L rows).rowsScanned = rows.length := by
  have hfold : ∀ (cs : List ClaimContradiction) (report : DetectorReport),
      (cs.foldl (recordCandidate L rows) report).rowsScanned = report.rowsScanned := by
    intro cs
    induction cs with
    | nil => exact fun _ => rfl
    | cons c cs ih =>
      intro report
      rw [List.foldl_cons, ih, recordCandidate]
      split <;> rfl
  exact hfold _ _

theorem byId_perm (hids : (rows.map (·.attestationId)).Nodup) (hperm : rows'.Perm rows)
    (id : String) : byId rows' id = byId rows id := by
  have hreverse : rows'.reverse.Perm rows.reverse :=
    (List.reverse_perm _).trans (hperm.trans (List.reverse_perm _).symm)
  have hids' : (rows'.reverse.map (·.attestationId)).Nodup :=
    ((hreverse.trans (List.reverse_perm _)).map _).nodup_iff.mpr hids
  exact List.Perm.find?_key hreverse hids'

/-- `detect` does not look at the order of rows with different ids. -/
theorem detect_agree (hids : (rows.map (·.attestationId)).Nodup) (hperm : rows'.Perm rows) :
    (detect L rows').Agree (detect L rows) := by
  have hids' : (rows'.map (·.attestationId)).Nodup := (hperm.map _).nodup_iff.mpr hids
  have hentries : ((entries (indexOf L rows').groups).map unseen).Perm
      ((entries (indexOf L rows).groups).map unseen) :=
    ((entries_indexOf hids').trans ((hperm.filterMap _).trans (entries_indexOf hids).symm)).map _
  have hverdicts := verdicts_agree wellFormed_indexOf wellFormed_indexOf hentries
  have hreported := verdicts_indexOf_reported (L := L) hids
  have hreported' := verdicts_indexOf_reported (L := L) hids'
  have hevidence : evidenceOf L rows' = evidenceOf L rows := by
    funext c
    rw [evidenceOf, evidenceOf, byId_perm hids hperm, byId_perm hids hperm]
  constructor
  · rw [rowsScanned_detect, rowsScanned_detect, hperm.length_eq]
  · rw [← hreported'.pairsCompared, hverdicts.pairsCompared, hreported.pairsCompared]
  · rw [← hreported'.sameStatement, hverdicts.sameStatement, hreported.sameStatement]
  · rw [← hreported'.superseded, hverdicts.superseded, hreported.superseded]
  · rw [← hreported'.noSignedInstant, hverdicts.noSignedInstant, hreported.noSignedInstant]
  · rw [detect_contradictions, detect_contradictions, hevidence]
    exact hverdicts.candidates.filterMap _

/-! ## Event ids -/

/-- The lesser id of the one pair begins that of the other, and the rest of it, with a colon on
    either side, ends where the greater id of the other begins. -/
def Overlaps (p q : String × String) : Prop :=
  ∃ middle, q.1 = p.1 ++ ":" ++ middle ∧ p.2 = middle ++ ":" ++ q.2

/-- Two pairs joined by a colon are one text exactly if they are one pair or overlap. -/
theorem joined_eq_iff {p q : String × String} (hne : p ≠ q) :
    p.1 ++ ":" ++ p.2 = q.1 ++ ":" ++ q.2 ↔ Overlaps p q ∨ Overlaps q p := by
  obtain ⟨a, b⟩ := p
  obtain ⟨c, d⟩ := q
  constructor
  · intro h
    have hlist : a.toList ++ (':' :: b.toList) = c.toList ++ (':' :: d.toList) := by
      simpa using congrArg String.toList h
    -- one of the first ids begins the other; what is left of it is empty or starts with the colon
    rcases List.append_eq_append_iff.mp hlist with ⟨rest, hc, hrest⟩ | ⟨rest, ha, hrest⟩
    · cases rest with
      | nil =>
        have hac : a = c := String.toList_injective (by simpa using hc.symm)
        have hbd : b = d := String.toList_injective (by simpa using hrest)
        exact absurd (Prod.ext hac hbd) hne
      | cons colon middle =>
        obtain ⟨rfl, hb⟩ := List.cons_eq_cons.mp hrest
        refine .inl ⟨String.ofList middle, ?_, ?_⟩
        · exact String.toList_injective (by simpa using hc)
        · exact String.toList_injective (by simpa using hb)
    · cases rest with
      | nil =>
        have hac : a = c := String.toList_injective (by simpa using ha)
        have hbd : b = d := String.toList_injective (by simpa using hrest.symm)
        exact absurd (Prod.ext hac hbd) hne
      | cons colon middle =>
        obtain ⟨rfl, hd⟩ := List.cons_eq_cons.mp hrest
        refine .inr ⟨String.ofList middle, ?_, ?_⟩
        · exact String.toList_injective (by simpa using ha)
        · exact String.toList_injective (by simpa using hd)
  · rintro (⟨middle, hc, hb⟩ | ⟨middle, ha, hd⟩)
    · simp only at hc hb
      simp only [hc, hb, String.append_assoc]
    · simp only at ha hd
      simp only [ha, hd, String.append_assoc]

theorem eventId_eq_iff {x y : Contradiction} (hne : x.attestationIds ≠ y.attestationIds) :
    x.eventId = y.eventId ↔
      Overlaps x.attestationIds y.attestationIds ∨ Overlaps y.attestationIds x.attestationIds := by
  rw [← joined_eq_iff hne, Contradiction.eventId, Contradiction.eventId]
  simp only [String.append_assoc]
  rw [String.append_right_inj, String.append_right_inj]

/-- **Evidence is order-free**, and exactly the pairs that contradict one another; two pairs keep
    their own event ids exactly if they do not overlap. -/
theorem detect_evidence_iff (L : Lib) (hids : (rows.map (·.attestationId)).Nodup)
    (hperm : rows'.Perm rows) {x y : Contradiction} (hne : x.attestationIds ≠ y.attestationIds) :
    ((detect L rows').Agree (detect L rows) ∧
      (∀ z, z ∈ (detect L rows).contradictions ↔ ∃ a ∈ rows, ∃ b ∈ rows, ∃ coord t,
        a.attestationId < b.attestationId ∧ Contradicts L a b coord t ∧
          z = Contradiction.new L a b coord.dimension t) ∧
      x.eventId ≠ y.eventId) ↔
    ¬ (Overlaps x.attestationIds y.attestationIds ∨
      Overlaps y.attestationIds x.attestationIds) := by
  rw [Ne, eventId_eq_iff hne]
  constructor
  · exact fun h => h.2.2
  · exact fun h => ⟨detect_agree hids hperm, fun _ => mem_detect_iff hids, h⟩

section Samples

/-- The substrate on the sample: a revoked key's statements are suspect. -/
def toneLib : Lib where
  policy :=
    { parseRfc3339 := fun s => if s = "2026-08-01T00:00:00Z" then some 1785542400000000000 else none
      foldKeyStatementStanding := fun _ _ rows _ _ =>
        if rows.isEmpty then .stands else .suspectUnbounded
      precedenceWinner := List.head? }
  row := "row"
  assertedAt := "asserted_at"
  expiresAt := "expires_at"
  widenedAt := "widened_at"
  referencesAttestationId := "references_attestation_id"
  differsIn := "differs_in"
  envelopeDimension := fun envelope => (envelope.get? "dimension").bind Json.asStr
  canonicalDigest := fun claim =>
    if claim.get? "score" = some (.num (.int 1)) then
      some "f7278089bb7463fa23131eaa8b65f0d84248c8d6c2a8ad35bec0e6d27f0a503f"
    else some "75f778061f879f6b33854da877fc55d1c507f82a7947576f0138b003b898bf0a"

/-- A row of one moderator, for one instant. -/
def toneRow (id subject : String) (score : Int) : Attestation where
  attestationId := id
  attestingKeyId := "moderator"
  attestedKeyId := subject
  attestationType := ComposePolicy.scoresType
  assertedAt := 0
  expiresAt := none
  attestationEnvelope := .obj [("dimension", .str "moderation:tone:v1"), ("score", .num (.int score)),
    ("asserted_at", .str "2026-08-01T00:00:00Z")]
  tier := federation
  originalContentHash := id

/-- Two contradictions about two subjects. -/
def toneRows : List Attestation :=
  [toneRow "a" "one" 1, toneRow "b:c" "one" 0, toneRow "a:b" "two" 1, toneRow "c" "two" 0]

/-- They have one event id. -/
theorem detect_toneRows : (toneRows.map (·.attestationId)).Nodup ∧
    (detect toneLib toneRows).contradictions.map (fun c => (c.attestationIds, c.eventId)) =
      [(("a", "b:c"), "attestation_equivocation:a:b:c"),
        (("a:b", "c"), "attestation_equivocation:a:b:c")] :=
  ⟨by decide +kernel, by decide +kernel⟩

theorem detect_evidence_iff_toneRows :
    (detect toneLib [toneRow "b" "one" 0, toneRow "a" "one" 1]).Agree
      (detect toneLib [toneRow "a" "one" 1, toneRow "b" "one" 0]) := by
  let x := Contradiction.new toneLib (toneRow "a" "one" 1) (toneRow "b" "one" 0) "tone" 0
  let y := Contradiction.new toneLib (toneRow "c" "one" 1) (toneRow "d" "one" 0) "tone" 0
  have hx : x.attestationIds = ("a", "b") := by decide +kernel
  have hy : y.attestationIds = ("c", "d") := by decide +kernel
  have hne : x.attestationIds ≠ y.attestationIds := by rw [hx, hy]; decide
  refine ((detect_evidence_iff toneLib (by decide +kernel) (List.Perm.swap _ _ _) hne).mpr ?_).1
  rw [hx, hy]
  rintro (⟨middle, h, -⟩ | ⟨middle, h, -⟩)
  · simpa using congrArg String.toList h
  · simpa using congrArg String.toList h

end Samples

end CirisServer.Equivocation
