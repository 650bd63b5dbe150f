import CirisServer.Spec.CompositionOrder

/-!
# The column `asserted_at` in a composition

The column is not signed. Two corpora that differ in it alone are screened, grouped and weighed
alike; it decides which row's word is taken, by the most-recent rule and among rows that tie.
-/

namespace CirisServer.ComposePolicy

variable {L : Lib} {c : Composer} {now utcNow : Int} {corpus corpus' : List Attestation}
  {att : Attestation}

/-- The row without its column. -/
def Attestation.unstamped (att : Attestation) : Attestation := { att with assertedAt := 0 }

def Row.unstamped (r : Row) : Row := { r with att := r.att.unstamped }

/-! ## Everything but the column -/

theorem vet_unstamped : c.vet L att.unstamped now = (c.vet L att now).map Row.unstamped := by
  show _ = Row.unstamped <$> c.vet L att now
  simp only [Composer.vet, map_bind, map_pure]
  rfl

theorem find?_unstamped (id : String) :
    (corpus.map Attestation.unstamped).find? (·.attestationId == id) =
      (corpus.find? (·.attestationId == id)).map Attestation.unstamped := List.find?_map

theorem soleEvidence_unstamped (kind : String → Bool) :
    soleEvidence kind att.unstamped (corpus.map Attestation.unstamped) =
      soleEvidence kind att corpus := by
  have hresolved : resolvedEvidence att.unstamped (corpus.map Attestation.unstamped) =
      (resolvedEvidence att corpus).map Attestation.unstamped := by
    rw [resolvedEvidence, resolvedEvidence, List.map_filterMap]
    apply List.filterMap_congr
    intro id _
    exact find?_unstamped id
  rw [soleEvidence, soleEvidence, hresolved, List.length_map, List.countP_map]
  rfl

theorem screen_unstamped : c.screen L (corpus.map Attestation.unstamped) now att.unstamped =
    (c.screen L corpus now att).map Row.unstamped := by
  show _ = Row.unstamped <$> c.screen L corpus now att
  rw [Composer.screen, Composer.screen, vet_unstamped, testimonialSoleEvidence,
    detectorSoleEvidence, soleEvidence_unstamped, soleEvidence_unstamped]
  cases c.vet L att now with
  | error reason => rfl
  | ok row =>
    show (ensure _ _ >>= fun _ => ensure _ _ >>= fun _ => .ok row.unstamped :
      Except RefusalReason Row) = Row.unstamped <$> (ensure _ _ >>= fun _ => ensure _ _ >>= fun _ =>
        .ok row)
    simp only [map_bind]
    rfl

theorem admitted_unstamped : c.admitted L now (corpus.map Attestation.unstamped) =
    (c.admitted L now corpus).map Row.unstamped := by
  rw [Composer.admitted, Composer.admitted, List.filterMap_map, List.map_filterMap]
  apply List.filterMap_congr
  intro att _
  show (c.screen L _ now att.unstamped).toOption = _
  rw [screen_unstamped]
  cases c.screen L corpus now att <;> rfl

theorem refused_unstamped : c.refused L now (corpus.map Attestation.unstamped) =
    c.refused L now corpus := by
  rw [Composer.refused, Composer.refused, List.filterMap_map]
  apply List.filterMap_congr
  intro att _
  show refusal? att.unstamped (c.screen L _ now att.unstamped) = _
  rw [screen_unstamped]
  cases c.screen L corpus now att <;> rfl

theorem pairs_unstamped : c.pairs L now (corpus.map Attestation.unstamped) =
    c.pairs L now corpus := by
  have hlookup : ∀ r : Refusal, r.pair? (corpus.map Attestation.unstamped) = r.pair? corpus := by
    intro r
    rw [Refusal.pair?, Refusal.pair?, find?_unstamped]
    cases r.dimension <;> cases corpus.find? (·.attestationId == r.attestationId) <;> rfl
  rw [Composer.pairs, Composer.pairs, admitted_unstamped, refused_unstamped, List.map_map]
  simp only [hlookup]
  rfl

theorem group_unstamped (p : Pair) : c.group L now (corpus.map Attestation.unstamped) p =
    (c.group L now corpus p).map Row.unstamped := by
  rw [Composer.group, admitted_unstamped, List.filter_map]
  rfl

theorem trackRecord_unstamped (rows : List Row) :
    TrackRecord.of (rows.map Row.unstamped) = TrackRecord.of rows := by
  simp only [TrackRecord.of, List.filter_map, List.countP_map]
  rfl

theorem cohortDensity_unstamped (rows : List Row) :
    CohortDensity.of (rows.map Row.unstamped) = CohortDensity.of rows := by
  simp only [CohortDensity.of, List.countP_map]
  rfl

/-! ## What a pair comes to -/

/-- What each row of a pair contributes. -/
def Composer.weighing (L : Lib) (c : Composer) (now : Int) (corpus : List Attestation)
    (p : Pair) : Row → Contribution :=
  c.contribution (TrackRecord.of (c.admitted L now corpus))
    (CohortDensity.of (c.admitted L now corpus))
    (c.licensureCap (ofLex p).1 (c.group L now corpus p))

/-- The rows of a pair, weighed. -/
def Composer.weighedAt (L : Lib) (c : Composer) (now : Int) (corpus : List Attestation)
    (p : Pair) : List Weighed :=
  weighed (c.weighing L now corpus p) (c.group L now corpus p)

/-- What the rows of a pair come to. -/
def Composer.outcome (L : Lib) (c : Composer) (now : Int) (corpus : List Attestation)
    (p : Pair) : Option Aggregate :=
  aggregate L (polarityFor (ofLex p).1) (c.weighedAt L now corpus p)

theorem weighing_unstamped (p : Pair) :
    c.weighing L now (corpus.map Attestation.unstamped) p = c.weighing L now corpus p := by
  have hcap : c.licensureCap (ofLex p).1 ((c.group L now corpus p).map Row.unstamped) =
      c.licensureCap (ofLex p).1 (c.group L now corpus p) := by
    rw [Composer.licensureCap, List.filterMap_map]
    rfl
  rw [Composer.weighing, Composer.weighing, admitted_unstamped, group_unstamped,
    trackRecord_unstamped, cohortDensity_unstamped, hcap]

/-- A weighed row without its column. -/
def unstampedWeighed (w : Weighed) : Weighed := (w.1, w.2.unstamped)

theorem weighed_unstamped (p : Pair) (group : List Row) :
    weighed (c.weighing L now corpus p) (group.map Row.unstamped) =
      (weighed (c.weighing L now corpus p) group).map unstampedWeighed := by
  rw [weighed, weighed, List.map_map, List.map_map]
  rfl

theorem weighedAt_unstamped (p : Pair) : c.weighedAt L now (corpus.map Attestation.unstamped) p =
    (c.weighedAt L now corpus p).map unstampedWeighed := by
  rw [Composer.weighedAt, weighing_unstamped, group_unstamped, weighed_unstamped]
  rfl

/-- The verdict of the outcome. -/
def Composer.verdictOf (c : Composer) (p : Pair) (capped : Bool) (contributions : List Contribution)
    (a : Aggregate) : Verdict where
  dimension := (ofLex p).1
  attestedKeyId := (ofLex p).2
  polarity := polarityFor (ofLex p).1
  value := a.value
  confidence := a.confidence
  singleSourceLicensure := capped
  lexicalTieBreakApplied := a.tieBreak
  contributions
  decision := if contributions.isEmpty then .undetermined
    else if c.cfg.threshold ≤ a.value then .affirm else .deny

theorem verdictOf_inj {p : Pair} {capped : Bool} {contributions : List Contribution}
    {a b : Aggregate} (h : c.verdictOf p capped contributions a =
      c.verdictOf p capped contributions b) : a = b := by
  simp only [Composer.verdictOf, Verdict.mk.injEq] at h
  cases a
  cases b
  simp_all

theorem verdictAt_eq_outcome {p : Pair} (hp : p ∈ (c.admitted L now corpus).map Row.pair) :
    c.verdictAt L now corpus p = (c.outcome L now corpus p).map
      (c.verdictOf p (c.licensureCap (ofLex p).1 (c.group L now corpus p))
        ((c.weighedAt L now corpus p).map Prod.fst)) := by
  rw [Composer.verdictAt, if_pos hp, Composer.composeGroup]
  show (c.outcome L now corpus p).bind _ = _
  cases c.outcome L now corpus p with
  | none => rfl
  | some a =>
    show some _ = some _
    simp only [Composer.verdictOf, Composer.weighedAt, weighed, List.isEmpty_map]
    rfl

section SameContent

variable (hsame : corpus'.map Attestation.unstamped = corpus.map Attestation.unstamped)
include hsame

theorem pairs_same : c.pairs L now corpus' = c.pairs L now corpus :=
  pairs_unstamped.symm.trans ((congrArg (c.pairs L now) hsame).trans pairs_unstamped)

theorem refused_same : c.refused L now corpus' = c.refused L now corpus :=
  refused_unstamped.symm.trans ((congrArg (c.refused L now) hsame).trans refused_unstamped)

theorem group_same (p : Pair) : (c.group L now corpus' p).map Row.unstamped =
    (c.group L now corpus p).map Row.unstamped := by
  rw [← group_unstamped, hsame, group_unstamped]

theorem weighing_same (p : Pair) : c.weighing L now corpus' p = c.weighing L now corpus p :=
  (weighing_unstamped p).symm.trans
    ((congrArg (fun k => c.weighing L now k p) hsame).trans (weighing_unstamped p))

theorem weighedAt_same (p : Pair) : (c.weighedAt L now corpus' p).map unstampedWeighed =
    (c.weighedAt L now corpus p).map unstampedWeighed := by
  rw [← weighedAt_unstamped, hsame, weighedAt_unstamped]

theorem mem_admitted_same {p : Pair} : p ∈ (c.admitted L now corpus').map Row.pair ↔
    p ∈ (c.admitted L now corpus).map Row.pair := by
  have hrows : (c.admitted L now corpus').map Row.unstamped =
      (c.admitted L now corpus).map Row.unstamped := by
    rw [← admitted_unstamped, hsame, admitted_unstamped]
  have hpairs := congrArg (List.map Row.pair) hrows
  rw [List.map_map, List.map_map] at hpairs
  show p ∈ (c.admitted L now corpus').map (Row.pair ∘ Row.unstamped) ↔ _
  rw [hpairs]
  rfl

/-- Two verdicts on a pair are the same exactly if its rows come to the same. -/
theorem verdictAt_eq_iff {p : Pair} (hp : p ∈ (c.admitted L now corpus).map Row.pair) :
    c.verdictAt L now corpus' p = c.verdictAt L now corpus p ↔
      c.outcome L now corpus' p = c.outcome L now corpus p := by
  have hcap : c.licensureCap (ofLex p).1 (c.group L now corpus' p) =
      c.licensureCap (ofLex p).1 (c.group L now corpus p) := by
    have hgroup : c.licensureCap (ofLex p).1 ((c.group L now corpus' p).map Row.unstamped) =
        c.licensureCap (ofLex p).1 ((c.group L now corpus p).map Row.unstamped) :=
      congrArg _ (group_same hsame p)
    rwa [Composer.licensureCap, Composer.licensureCap, List.filterMap_map,
      List.filterMap_map] at hgroup
  have hcontributions : (c.weighedAt L now corpus' p).map Prod.fst =
      (c.weighedAt L now corpus p).map Prod.fst := by
    have hweighed : ((c.weighedAt L now corpus' p).map unstampedWeighed).map Prod.fst =
        ((c.weighedAt L now corpus p).map unstampedWeighed).map Prod.fst :=
      congrArg _ (weighedAt_same hsame p)
    rwa [List.map_map, List.map_map] at hweighed
  rw [verdictAt_eq_outcome hp, verdictAt_eq_outcome ((mem_admitted_same hsame).mpr hp), hcap,
    hcontributions]
  constructor
  · intro h
    exact Option.map_injective (fun _ _ => verdictOf_inj) h
  · intro h
    rw [h]

end SameContent

/-! ## The winner of a tie -/

/-- The row that is found under the id of `w`. -/
def foundAs (ws : List Weighed) (w : Weighed) : Option Weighed :=
  ws.find? (·.2.att.attestationId == w.2.att.attestationId)

/-- Whichever finalist wins, `val` of it is the same. -/
def Agree {β : Type} (val : Weighed → β) (ws : List Weighed) : Prop :=
  ∀ least, (ws.filterMap (·.2.affectedPopulation)).min? = some least →
    ∀ w ∈ finalists ws least, ∀ w' ∈ finalists ws least,
      (foundAs (finalists ws least) w).map val = (foundAs (finalists ws least) w').map val

/-- The winner is found under the id of a finalist. -/
theorem winner_found (hL : L.Chooses) {ws : List Weighed} {v : Weighed}
    (h : lexicalVulnerabilityWinner L ws = some v) :
    ∃ least, (ws.filterMap (·.2.affectedPopulation)).min? = some least ∧
      ∃ w ∈ finalists ws least, foundAs (finalists ws least) w = some v := by
  simp only [lexicalVulnerabilityWinner, Option.bind_eq_bind, Option.bind_eq_some_iff] at h
  obtain ⟨least, hleast, h⟩ := h
  refine ⟨least, hleast, ?_⟩
  split at h
  · next hone =>
    obtain ⟨w, hw⟩ := List.length_eq_one_iff.mp hone
    rw [hw] at h ⊢
    cases h
    exact ⟨v, List.mem_singleton_self v, by simp [foundAs]⟩
  · obtain ⟨winner, hwinner, h⟩ := Option.bind_eq_some_iff.mp h
    obtain ⟨att, hatt, hchosen⟩ := hL ((finalists ws least).map (·.2.att))
      (by simpa using finalists_ne_nil hleast)
    rw [hchosen] at hwinner
    cases hwinner
    obtain ⟨w, hw, rfl⟩ := List.mem_map.mp hatt
    exact ⟨w, hw, h⟩

section Same

variable {β : Type} {val : Weighed → β} {ws ws' : List Weighed}

theorem finalists_unstamped (least : ℚ) : finalists (ws.map unstampedWeighed) least =
    (finalists ws least).map unstampedWeighed := List.filter_map

theorem foundAs_unstamped (w : Weighed) :
    foundAs (ws.map unstampedWeighed) w = (foundAs ws w).map unstampedWeighed := List.find?_map

theorem populations_unstamped :
    (ws.map unstampedWeighed).filterMap (·.2.affectedPopulation) =
      ws.filterMap (·.2.affectedPopulation) := by
  rw [List.filterMap_map]
  rfl

variable (hval : ∀ w, val (unstampedWeighed w) = val w)
  (hsame : ws'.map unstampedWeighed = ws.map unstampedWeighed)
include hsame

theorem populations_same : ws'.filterMap (·.2.affectedPopulation) =
    ws.filterMap (·.2.affectedPopulation) :=
  populations_unstamped.symm.trans
    ((congrArg (List.filterMap (·.2.affectedPopulation)) hsame).trans populations_unstamped)

theorem finalists_same (least : ℚ) : (finalists ws' least).map unstampedWeighed =
    (finalists ws least).map unstampedWeighed := by
  rw [← finalists_unstamped, hsame, finalists_unstamped]

include hval in
theorem foundAs_same (w : Weighed) : (foundAs ws' w).map val = (foundAs ws w).map val := by
  have hcomp : val = val ∘ unstampedWeighed := funext fun w => (hval w).symm
  rw [hcomp, ← Option.map_map, ← Option.map_map, ← foundAs_unstamped, hsame, foundAs_unstamped]

/-- Where the finalists agree, the winner's word does not depend on the column. -/
theorem winner_same (hL : L.Chooses) (hval : ∀ w, val (unstampedWeighed w) = val w)
    (hagree : Agree val ws) :
    (lexicalVulnerabilityWinner L ws').map val = (lexicalVulnerabilityWinner L ws).map val := by
  have hsome : (lexicalVulnerabilityWinner L ws').isSome = (lexicalVulnerabilityWinner L ws).isSome
      := by
    have hnamed : ∀ us : List Weighed, (∃ w ∈ us, w.2.affectedPopulation.isSome = true) ↔
        us.filterMap (·.2.affectedPopulation) ≠ [] := by
      intro us
      simp [List.filterMap_eq_nil_iff, Option.isSome_iff_ne_none]
    rw [Bool.eq_iff_iff, isSome_winner_iff hL, isSome_winner_iff hL, hnamed, hnamed,
      populations_same hsame]
  cases hv : lexicalVulnerabilityWinner L ws with
  | none =>
    rw [hv, Option.isSome_none, Option.isSome_eq_false_iff, Option.isNone_iff_eq_none] at hsome
    rw [hsome]
  | some v =>
    rw [hv, Option.isSome_some] at hsome
    obtain ⟨v', hv'⟩ := Option.isSome_iff_exists.mp hsome
    obtain ⟨least, hleast, w, hw, hfound⟩ := winner_found hL hv
    obtain ⟨least', hleast', w', hw', hfound'⟩ := winner_found hL hv'
    rw [populations_same hsame, hleast] at hleast'
    cases hleast'
    -- the other winner's id is that of a finalist here
    obtain ⟨u, hu, huw⟩ : ∃ u ∈ finalists ws least, unstampedWeighed u = unstampedWeighed w' := by
      rw [← List.mem_map, ← finalists_same hsame]
      exact List.mem_map_of_mem hw'
    have hid : w'.2.att.attestationId = u.2.att.attestationId := by
      show (unstampedWeighed w').2.att.attestationId = _
      rw [← huw]
      rfl
    have hword : (foundAs (finalists ws' least) w').map val =
        (foundAs (finalists ws least) u).map val := by
      rw [foundAs_same hval (finalists_same hsame least), foundAs, hid]
      rfl
    rw [hv', ← hfound', hword, hagree least hleast u hu w hw, hfound]

theorem length_same : ws'.length = ws.length := by
  have hlen := congrArg List.length hsame
  rwa [List.length_map, List.length_map] at hlen

theorem contributions_same {γ : Type} (f : Contribution → γ) :
    ws'.map (fun w => f w.1) = ws.map fun w => f w.1 := by
  have hmap := congrArg (List.map fun w : Weighed => f w.1) hsame
  rwa [List.map_map, List.map_map] at hmap

/-- The score and the confidence of a row. -/
def word (w : Weighed) : ℚ × ℚ := (w.1.score, w.1.confidence)

/-- The weighted score and the confidence of a row. -/
def weightedWord (w : Weighed) : ℚ × ℚ :=
  (w.1.score * w.1.confidence * w.1.weight, w.1.confidence)

omit hsame in
theorem oneOf_of_many (h : ws.length ≠ 1) : oneOf L ws =
    ((lexicalVulnerabilityWinner L ws).map word).map fun q => ⟨q.1, q.2, true⟩ := by
  rw [oneOf_of_length_ne h, Option.map_map]
  rfl

theorem oneOf_eq (hL : L.Chooses) (hagree : Agree word ws) : oneOf L ws' = oneOf L ws := by
  by_cases hone : ws.length = 1
  · obtain ⟨w, rfl⟩ := List.length_eq_one_iff.mp hone
    obtain ⟨w', rfl⟩ := List.length_eq_one_iff.mp ((length_same hsame).trans hone)
    have hw : unstampedWeighed w' = unstampedWeighed w := by simpa using hsame
    have hcontribution : w'.1 = w.1 := by
      show (unstampedWeighed w').1 = _
      rw [hw]
      rfl
    rw [oneOf, oneOf, hcontribution]
  · rw [oneOf_of_many hone, oneOf_of_many (by rwa [length_same hsame]),
      winner_same hsame hL (fun _ => rfl) hagree]

/-- The mean of these rows is a tie. -/
def MeanTies (ws : List Weighed) : Prop :=
  2 ≤ ws.length ∧ near (1 / 10 ^ 9) (mean (ws.map fun w => w.1.score * w.1.confidence * w.1.weight))
    0 ∧ hasConflict ws

theorem hasConflict_same : hasConflict ws' = hasConflict ws := by
  have hscores := contributions_same hsame Contribution.score
  have hany : ∀ us : List Weighed, hasConflict us =
      ((us.map fun w => w.1.score).any (fun s => decide (0 < s)) &&
        (us.map fun w => w.1.score).any fun s => decide (s < 0)) := by
    intro us
    rw [List.any_map, List.any_map]
    rfl
  rw [hany, hany, hscores]

theorem meanTies_same : MeanTies ws' ↔ MeanTies ws := by
  rw [MeanTies, MeanTies, length_same hsame, hasConflict_same hsame,
    contributions_same hsame fun k => k.score * k.confidence * k.weight]

omit hsame in
/-- Where the mean ties, the winner's weighted word is taken. -/
theorem signedMean_of_ties (h : MeanTies ws) {v : Weighed}
    (hv : lexicalVulnerabilityWinner L ws = some v) :
    signedMean L ws = ⟨(weightedWord v).1, (weightedWord v).2, true⟩ := by
  unfold MeanTies at h
  rw [signedMean, if_pos h, hv]
  rfl

theorem signedMean_eq (hL : L.Chooses) (hagree : MeanTies ws → Agree weightedWord ws) :
    signedMean L ws' = signedMean L ws := by
  have hvalue := contributions_same hsame fun k => k.score * k.confidence * k.weight
  have hconfidence := contributions_same hsame Contribution.confidence
  have hconflict := hasConflict_same hsame
  rw [signedMean, signedMean, hvalue, hconfidence, hconflict, length_same hsame]
  split
  · next htie =>
    have hwinner := winner_same hsame hL (fun _ => rfl) (hagree htie)
    cases hv : lexicalVulnerabilityWinner L ws with
    | none =>
      rw [hv] at hwinner
      rw [Option.map_eq_none_iff.mp hwinner]
    | some v =>
      rw [hv] at hwinner
      obtain ⟨v', hv', hword⟩ := Option.map_eq_some_iff.mp hwinner
      rw [hv']
      simp only [weightedWord, Prod.mk.injEq] at hword
      rw [Aggregate.mk.injEq]
      exact ⟨hword.1, hword.2, rfl⟩
  · rfl

end Same

/-! ## Pairs that the column cannot move -/

/-- A pair whose outcome does not depend on the column: an enumerated pair has at most one row;
    where a tie is broken, the finalists agree. -/
def Composer.Steady (L : Lib) (c : Composer) (now : Int) (corpus : List Attestation)
    (p : Pair) : Prop :=
  match polarityFor (ofLex p).1 with
  | .enumerated => (c.group L now corpus p).length ≤ 1
  | .booleanViaScore | .negativeOnly | .positiveOnly =>
    Agree word (weighed (c.weighing L now corpus p)
      (foremost (polarityFor (ofLex p).1) (c.group L now corpus p)))
  | .signed => MeanTies (c.weighedAt L now corpus p) →
      Agree weightedWord (c.weighedAt L now corpus p)
  | .detector => True

/-- The column moves nothing: the scores alone leave a tie that cannot be broken, so that there is
    no composition, or no pair can be moved. -/
def Composer.Timeless (L : Lib) (c : Composer) (now : Int) (corpus : List Attestation) : Prop :=
  (∃ p : Pair, polarityFor (ofLex p).1 ≠ .enumerated ∧
    ¬ Breakable (foremost (polarityFor (ofLex p).1) (c.group L now corpus p))) ∨
  ∀ p : Pair, c.Steady L now corpus p

theorem foremost_unstamped {polarity : Polarity} (h : polarity ≠ .enumerated)
    (group : List Row) : foremost polarity (group.map Row.unstamped) =
      (foremost polarity group).map Row.unstamped := by
  cases polarity with
  | signed | detector => rfl
  | enumerated => exact absurd rfl h
  | booleanViaScore | negativeOnly | positiveOnly =>
    simp only [foremost, List.filter_map, List.all_map]
    rfl

theorem breakable_unstamped (tied : List Row) :
    Breakable (tied.map Row.unstamped) ↔ Breakable tied := by
  rw [Breakable, Breakable, List.length_map]
  simp only [List.mem_map, exists_exists_and_eq_and]
  rfl

theorem weighedAt_isEmpty {p : Pair} (hne : c.group L now corpus p ≠ []) :
    (c.weighedAt L now corpus p).isEmpty = false := by
  simpa [Composer.weighedAt, weighed] using hne

/-- Under a polarity that takes a row's word, the foremost rows have it. -/
theorem outcome_eq_oneOf {p : Pair} (hne : c.group L now corpus p ≠ [])
    (hword : polarityFor (ofLex p).1 ≠ .signed ∧ polarityFor (ofLex p).1 ≠ .detector) :
    c.outcome L now corpus p = oneOf L (weighed (c.weighing L now corpus p)
      (foremost (polarityFor (ofLex p).1) (c.group L now corpus p))) := by
  rw [Composer.outcome, aggregate.eq_def, weighedAt_isEmpty hne, if_neg Bool.false_ne_true]
  cases hpolarity : polarityFor (ofLex p).1 with
  | signed => exact absurd hpolarity hword.1
  | detector => exact absurd hpolarity hword.2
  | booleanViaScore | negativeOnly => exact extremum_min (fun _ => rfl) hne
  | positiveOnly => exact extremum_max (fun _ => rfl) hne
  | enumerated => exact mostRecent_eq hne

theorem mostRecent_singleton (w : Weighed) :
    mostRecent L [w] = some ⟨w.1.score, w.1.confidence, false⟩ := by
  simp [mostRecent, oneOf]

section SameContent

variable (hsame : corpus'.map Attestation.unstamped = corpus.map Attestation.unstamped)
include hsame

theorem foremost_same {p : Pair} {polarity : Polarity} (h : polarity ≠ .enumerated) :
    (foremost polarity (c.group L now corpus' p)).map Row.unstamped =
      (foremost polarity (c.group L now corpus p)).map Row.unstamped := by
  rw [← foremost_unstamped h, group_same hsame, foremost_unstamped h]

theorem breakable_same {p : Pair} {polarity : Polarity} (h : polarity ≠ .enumerated) :
    Breakable (foremost polarity (c.group L now corpus' p)) ↔
      Breakable (foremost polarity (c.group L now corpus p)) := by
  rw [← breakable_unstamped, foremost_same hsame h, breakable_unstamped]

theorem weighed_foremost_same {p : Pair} {polarity : Polarity} (h : polarity ≠ .enumerated) :
    (weighed (c.weighing L now corpus' p) (foremost polarity (c.group L now corpus' p))).map
        unstampedWeighed =
      (weighed (c.weighing L now corpus p) (foremost polarity (c.group L now corpus p))).map
        unstampedWeighed := by
  rw [← weighed_unstamped, ← weighed_unstamped, foremost_same hsame h, weighing_same hsame]

/-- A steady pair comes to the same whatever the column says. -/
theorem outcome_same (hL : L.Chooses) {p : Pair}
    (hp : p ∈ (c.admitted L now corpus).map Row.pair) (h : c.Steady L now corpus p) :
    c.outcome L now corpus' p = c.outcome L now corpus p := by
  have hne := group_ne_nil_iff.mpr hp
  have hne' := group_ne_nil_iff.mpr ((mem_admitted_same hsame).mpr hp)
  have hweighed : (c.weighedAt L now corpus' p).map unstampedWeighed =
      (c.weighedAt L now corpus p).map unstampedWeighed := weighedAt_same hsame p
  rw [Composer.Steady] at h
  cases hpolarity : polarityFor (ofLex p).1 with
  | enumerated =>
    rw [hpolarity] at h
    -- one row, whose word is taken
    have hone : (c.weighedAt L now corpus p).length = 1 := by
      have hpos := List.length_pos_iff.mpr hne
      rw [Composer.weighedAt, weighed, List.length_map]
      omega
    obtain ⟨w, hw⟩ := List.length_eq_one_iff.mp hone
    obtain ⟨w', hw'⟩ := List.length_eq_one_iff.mp ((length_same hweighed).trans hone)
    have hcontribution := contributions_same hweighed id
    rw [Composer.outcome, Composer.outcome, hpolarity]
    rw [hw, hw'] at hcontribution ⊢
    have hword : w'.1 = w.1 := by simpa using hcontribution
    show mostRecent L [w'] = mostRecent L [w]
    rw [mostRecent_singleton, mostRecent_singleton, hword]
  | booleanViaScore | negativeOnly | positiveOnly =>
    rw [outcome_eq_oneOf hne (by rw [hpolarity]; decide),
      outcome_eq_oneOf hne' (by rw [hpolarity]; decide)]
    rw [hpolarity] at h ⊢
    exact oneOf_eq (weighed_foremost_same hsame (by decide)) hL h
  | signed =>
    rw [Composer.outcome, Composer.outcome, aggregate.eq_def, aggregate.eq_def,
      weighedAt_isEmpty hne, weighedAt_isEmpty hne', if_neg Bool.false_ne_true,
      if_neg Bool.false_ne_true]
    rw [hpolarity] at h ⊢
    exact congrArg some (signedMean_eq hweighed hL h)
  | detector =>
    rw [Composer.outcome, Composer.outcome, aggregate.eq_def, aggregate.eq_def,
      weighedAt_isEmpty hne, weighedAt_isEmpty hne', if_neg Bool.false_ne_true,
      if_neg Bool.false_ne_true, hpolarity]
    show some _ = some _
    rw [contributions_same hweighed Contribution.score,
      contributions_same hweighed Contribution.confidence]

/-- Where the column moves nothing, both corpora compose to the same. -/
theorem compose_same (hL : L.Chooses) (h : c.Timeless L (c.cfg.now.getD utcNow) corpus) :
    c.compose L utcNow corpus' = c.compose L utcNow corpus := by
  rcases h with ⟨p, hpolarity, htie⟩ | hsteady
  · -- neither corpus composes
    have hnone : ∀ other : List Attestation,
        ¬ Breakable (foremost (polarityFor (ofLex p).1)
          (c.group L (c.cfg.now.getD utcNow) other p)) → c.compose L utcNow other = none := by
      intro other hother
      rw [← Option.not_isSome_iff_eq_none, isSome_compose_iff, forall_isSome_verdictAt_iff hL]
      exact fun hsettled => hother (hsettled p)
    rw [hnone corpus htie, hnone corpus' fun h => htie ((breakable_same hsame hpolarity).mp h)]
  · rw [compose_eq, compose_eq, pairs_same hsame, refused_same hsame]
    congr 1
    apply List.mapM_congr
    intro p _
    by_cases hp : p ∈ (c.admitted L (c.cfg.now.getD utcNow) corpus).map Row.pair
    · exact (verdictAt_eq_iff hsame hp).mpr (outcome_same hsame hL hp (hsteady p))
    · rw [Composer.verdictAt, Composer.verdictAt, if_neg hp,
        if_neg fun hin => hp ((mem_admitted_same hsame).mp hin)]

end SameContent

/-! ## Columns that move a verdict -/

/-- Among `scores` rows the choice is one of the latest. -/
def Lib.TakesLatest (L : Lib) : Prop :=
  ∀ atts att, (∀ other ∈ atts, other.attestationType = scoresType) →
    L.precedenceWinner atts = some att → ∀ other ∈ atts, other.assertedAt ≤ att.assertedAt

/-- The finalist later than those of other ids wins, as far as its id tells. -/
theorem winner_of_latest (hL : L.Chooses) (hlatest : L.TakesLatest) {ws : List Weighed}
    {least : ℚ} (hleast : (ws.filterMap (·.2.affectedPopulation)).min? = some least)
    {w : Weighed} (hw : w ∈ finalists ws least)
    (hscores : ∀ v ∈ ws, v.2.att.attestationType = scoresType)
    (hstamp : ∀ v ∈ ws, v.2.att.attestationId ≠ w.2.att.attestationId →
      v.2.att.assertedAt < w.2.att.assertedAt) :
    lexicalVulnerabilityWinner L ws = foundAs (finalists ws least) w := by
  have hmem : ∀ v ∈ finalists ws least, v ∈ ws := fun v => List.mem_of_mem_filter
  rw [lexicalVulnerabilityWinner, hleast, Option.bind_eq_bind, Option.bind_some]
  show (if (finalists ws least).length = 1 then (finalists ws least).head? else _) = _
  split
  · next hone =>
    obtain ⟨v, hv⟩ := List.length_eq_one_iff.mp hone
    rw [hv, List.mem_singleton] at hw
    rw [hv, hw]
    simp [foundAs]
  · obtain ⟨att, hatt, hchosen⟩ := hL ((finalists ws least).map (·.2.att))
      (by simpa using finalists_ne_nil hleast)
    obtain ⟨v, hv, rfl⟩ := List.mem_map.mp hatt
    have hle := hlatest _ _ (by
      intro other hother
      obtain ⟨u, hu, rfl⟩ := List.mem_map.mp hother
      exact hscores u (hmem u hu)) hchosen w.2.att (List.mem_map_of_mem hw)
    have hid : v.2.att.attestationId = w.2.att.attestationId := by
      by_contra hne
      have hlt := hstamp v (hmem v hv) hne
      omega
    rw [hchosen, Option.bind_eq_bind, Option.bind_some, hid]
    rfl

/-- The corpus with the rows of one id later than the others. -/
def favouring (id : String) (corpus : List Attestation) : List Attestation :=
  corpus.map fun att => { att with assertedAt := if att.attestationId = id then 1 else 0 }

/-- The corpus with its rows dated in turn. -/
def inTurn (corpus : List Attestation) : List Attestation :=
  corpus.mapIdx fun i att => { att with assertedAt := i }

theorem favouring_same (corpus : List Attestation) (id : String) :
    (favouring id corpus).map Attestation.unstamped = corpus.map Attestation.unstamped := by
  rw [favouring, List.map_map]
  rfl

theorem inTurn_same (corpus : List Attestation) :
    (inTurn corpus).map Attestation.unstamped = corpus.map Attestation.unstamped := by
  apply List.ext_getElem
  · simp [inTurn]
  · intro i _ _
    simp [inTurn, Attestation.unstamped]

theorem unstamped_same (corpus : List Attestation) :
    (corpus.map Attestation.unstamped).map Attestation.unstamped =
      corpus.map Attestation.unstamped := by
  rw [List.map_map]
  rfl

theorem att_of_mem_group {p : Pair} {r : Row} (h : r ∈ c.group L now corpus p) :
    r.att ∈ corpus ∧ r.att.attestationType = scoresType := by
  obtain ⟨att, hatt, hok⟩ := mem_admitted.mp (List.mem_of_mem_filter h)
  obtain ⟨heq, _, htype, _⟩ := vet_ok (vet_of_screen hok)
  rw [heq]
  exact ⟨hatt, htype⟩

/-- Rows dated in turn have one that is the latest. -/
theorem foremost_inTurn (p : Pair) :
    (foremost .enumerated (c.group L now (inTurn corpus) p)).length ≤ 1 := by
  have hcorpus : (inTurn corpus).Pairwise fun a b => a.assertedAt < b.assertedAt := by
    rw [List.pairwise_iff_getElem]
    intro i j _ _ hij
    simpa [inTurn] using hij
  have hrows : (c.group L now (inTurn corpus) p).Pairwise fun r s =>
      r.att.assertedAt < s.att.assertedAt := by
    have hatt : ∀ att row, (c.screen L (inTurn corpus) now att).toOption = some row →
        row.att = att := by
      intro att row h
      cases hscreen : c.screen L (inTurn corpus) now att with
      | error reason => simp [hscreen, Except.toOption] at h
      | ok row' =>
        rw [hscreen] at h
        cases h
        exact att_of_screen hscreen
    apply List.Pairwise.filter
    refine List.Pairwise.filterMap _ (fun a b hab r hr s hs => ?_) hcorpus
    rw [hatt a r hr, hatt b s hs]
    exact hab
  -- of two foremost rows the earlier would not be foremost
  have hnone : (foremost .enumerated (c.group L now (inTurn corpus) p)).Pairwise
      fun _ _ => False := by
    refine (List.Pairwise.filter _ hrows).imp_of_mem fun {r s} hr hs hlt => ?_
    obtain ⟨_, hall⟩ := List.mem_filter.mp hr
    have hle := of_decide_eq_true (List.all_eq_true.mp hall s (List.mem_of_mem_filter hs))
    omega
  generalize foremost .enumerated (c.group L now (inTurn corpus) p) = tied at hnone ⊢
  cases tied with
  | nil => exact Nat.zero_le 1
  | cons r tied =>
    cases tied with
    | nil => exact Nat.le_refl 1
    | cons s tied => exact absurd (List.rel_of_pairwise_cons hnone List.mem_cons_self) not_false

/-- Equal compositions have equal outcomes. -/
theorem outcome_of_compose_eq
    (hsame : corpus'.map Attestation.unstamped = corpus.map Attestation.unstamped)
    (h : c.compose L utcNow corpus' = c.compose L utcNow corpus)
    (hsome : (c.compose L utcNow corpus).isSome = true) {p : Pair}
    (hp : p ∈ (c.admitted L (c.cfg.now.getD utcNow) corpus).map Row.pair) :
    c.outcome L (c.cfg.now.getD utcNow) corpus' p =
      c.outcome L (c.cfg.now.getD utcNow) corpus p := by
  rw [compose_eq, compose_eq, pairs_same hsame, refused_same hsame] at h
  rw [compose_eq, Option.isSome_map] at hsome
  obtain ⟨verdicts, hverdicts⟩ := Option.isSome_iff_exists.mp hsome
  rw [hverdicts] at h
  obtain ⟨verdicts', hverdicts', heq⟩ := Option.map_eq_some_iff.mp h
  cases heq
  have hmap := (List.mapM_eq_some_iff.mp hverdicts').trans (List.mapM_eq_some_iff.mp hverdicts).symm
  exact (verdictAt_eq_iff hsame hp).mp (List.map_inj_left.mp hmap p
    (List.mem_sortedKeys.mpr (List.mem_append_left _ hp)))

/-- Finalists that do not agree: two of them, with different words. -/
theorem not_agree {β : Type} {val : Weighed → β} {ws : List Weighed} (h : ¬ Agree val ws) :
    ∃ least, (ws.filterMap (·.2.affectedPopulation)).min? = some least ∧
      ∃ w ∈ finalists ws least, ∃ w' ∈ finalists ws least,
        (foundAs (finalists ws least) w).map val ≠ (foundAs (finalists ws least) w').map val := by
  rw [Agree] at h
  push Not at h
  exact h

theorem mem_of_foremost {polarity : Polarity} {group : List Row} {r : Row}
    (h : r ∈ foremost polarity group) : r ∈ group := by
  cases polarity with
  | signed | detector => cases h
  | booleanViaScore | negativeOnly | positiveOnly | enumerated => exact List.mem_of_mem_filter h

theorem tieBreak_of_oneOf {ws : List Weighed} {a : Aggregate} (h : oneOf L ws = some a) :
    a.tieBreak = false ↔ ws.length = 1 := by
  by_cases hone : ws.length = 1
  · obtain ⟨w, rfl⟩ := List.length_eq_one_iff.mp hone
    cases h
    exact iff_of_true rfl rfl
  · rw [oneOf_of_length_ne hone] at h
    obtain ⟨w, _, rfl⟩ := Option.map_eq_some_iff.mp h
    exact iff_of_false Bool.noConfusion hone

/-- A pair without rows is steady. -/
theorem steady_of_no_rows {p : Pair} (hp : p ∉ (c.admitted L now corpus).map Row.pair) :
    c.Steady L now corpus p := by
  have hnil : c.group L now corpus p = [] := by
    by_contra hne
    exact hp (group_ne_nil_iff.mp hne)
  have hagree : ∀ {val : Weighed → ℚ × ℚ}, Agree val [] := by
    intro val least hleast
    cases hleast
  rw [Composer.Steady, Composer.weighedAt, hnil]
  cases polarityFor (ofLex p).1 with
  | enumerated => exact Nat.zero_le 1
  | booleanViaScore | negativeOnly | positiveOnly => exact hagree
  | signed => exact fun _ => hagree
  | detector => trivial

section Moved

variable (hL : L.Chooses) (hlatest : L.TakesLatest)
include hL hlatest

/-- Under the column that favours a finalist, its word is taken. -/
theorem winner_favouring {β : Type} {val : Weighed → β}
    (hval : ∀ w, val (unstampedWeighed w) = val w) {ws ws' : List Weighed} {w : Weighed}
    (hsame : ws'.map unstampedWeighed = ws.map unstampedWeighed)
    (hrows : ∀ v ∈ ws', v.2.att ∈ favouring w.2.att.attestationId corpus ∧
      v.2.att.attestationType = scoresType) {least : ℚ}
    (hleast : (ws.filterMap (·.2.affectedPopulation)).min? = some least)
    (hw : w ∈ finalists ws least) :
    (lexicalVulnerabilityWinner L ws').map val = (foundAs (finalists ws least) w).map val := by
  have hfinalists := finalists_same hsame least
  obtain ⟨w', hw', hu⟩ : ∃ w' ∈ finalists ws' least,
      unstampedWeighed w' = unstampedWeighed w := by
    rw [← List.mem_map, hfinalists]
    exact List.mem_map_of_mem hw
  have hid : w'.2.att.attestationId = w.2.att.attestationId := by
    show (unstampedWeighed w').2.att.attestationId = _
    rw [hu]
    rfl
  have hstamp : ∀ v ∈ ws', v.2.att.assertedAt =
      if v.2.att.attestationId = w.2.att.attestationId then 1 else 0 := by
    intro v hv
    obtain ⟨att, _, hatt⟩ := List.mem_map.mp (hrows v hv).1
    rw [← hatt]
  rw [winner_of_latest hL hlatest (by rwa [populations_same hsame]) hw'
    (fun v hv => (hrows v hv).2), foundAs_same hval hfinalists, foundAs, hid]
  · rfl
  · intro v hv hne
    rw [hstamp v hv, hstamp w' (List.mem_of_mem_filter hw'), hid, if_pos rfl, if_neg (hid ▸ hne)]
    exact Int.zero_lt_one

variable (hstill : ∀ corpus', corpus'.map Attestation.unstamped =
  corpus.map Attestation.unstamped → c.compose L utcNow corpus' = c.compose L utcNow corpus)
  (hfree : ∀ p : Pair, polarityFor (ofLex p).1 ≠ .enumerated →
    Breakable (foremost (polarityFor (ofLex p).1) (c.group L (c.cfg.now.getD utcNow) corpus p)))

omit hlatest in
include hfree in
/-- Dated in turn, the rows compose. -/
theorem isSome_compose_inTurn : (c.compose L utcNow (inTurn corpus)).isSome = true := by
  rw [isSome_compose_iff, forall_isSome_verdictAt_iff hL]
  intro p
  by_cases hpolarity : polarityFor (ofLex p).1 = .enumerated
  · rw [hpolarity]
    exact .inl (foremost_inTurn p)
  · exact (breakable_same (inTurn_same corpus) hpolarity).mpr (hfree p hpolarity)

omit hlatest in
include hstill hfree in
/-- An enumerated pair that the column cannot move has one row. -/
theorem enumerated_of_still {p : Pair} (hpolarity : polarityFor (ofLex p).1 = .enumerated) :
    (c.group L (c.cfg.now.getD utcNow) corpus p).length ≤ 1 := by
  by_contra hmany
  generalize hnow : c.cfg.now.getD utcNow = now at *
  have hsome : (c.compose L utcNow (inTurn corpus)).isSome = true :=
    isSome_compose_inTurn hL (hnow ▸ hfree)
  have hne : c.group L now corpus p ≠ [] := by
    intro hnil
    rw [hnil] at hmany
    exact hmany (Nat.zero_le 1)
  have hp := group_ne_nil_iff.mp hne
  have hpTurn := (mem_admitted_same (inTurn_same corpus)).mpr hp
  have hpZero := (mem_admitted_same (unstamped_same corpus)).mpr hp
  have heq := outcome_of_compose_eq (p := p) ((unstamped_same corpus).trans (inTurn_same corpus).symm)
    ((hstill _ (unstamped_same corpus)).trans (hstill _ (inTurn_same corpus)).symm) hsome (hnow ▸ hpTurn)
  rw [hnow, outcome_eq_oneOf (group_ne_nil_iff.mpr hpZero) (by rw [hpolarity]; decide),
    outcome_eq_oneOf (group_ne_nil_iff.mpr hpTurn) (by rw [hpolarity]; decide), hpolarity] at heq
  -- dated in turn, one row is the latest; without dates, all are
  have hword : ∃ a, oneOf L (weighed (c.weighing L now (inTurn corpus) p)
      (foremost .enumerated (c.group L now (inTurn corpus) p))) = some a := by
    rw [← Option.isSome_iff_exists, isSome_oneOf_weighed_iff hL
      (foremost_ne_nil (group_ne_nil_iff.mpr hpTurn) (by decide))]
    exact .inl (foremost_inTurn p)
  obtain ⟨a, ha⟩ := hword
  have hone : (foremost .enumerated (c.group L now (inTurn corpus) p)).length = 1 := by
    have hpos : 0 < (foremost .enumerated (c.group L now (inTurn corpus) p)).length :=
      List.length_pos_iff.mpr (foremost_ne_nil (group_ne_nil_iff.mpr hpTurn) (by decide))
    have hle : (foremost .enumerated (c.group L now (inTurn corpus) p)).length ≤ 1 :=
      foremost_inTurn p
    omega
  have hall : foremost .enumerated (c.group L now (corpus.map Attestation.unstamped) p) =
      (c.group L now corpus p).map Row.unstamped := by
    rw [group_unstamped, foremost, List.filter_eq_self]
    intro r hr
    rw [List.all_eq_true]
    intro s hs
    obtain ⟨_, _, rfl⟩ := List.mem_map.mp hr
    obtain ⟨_, _, rfl⟩ := List.mem_map.mp hs
    exact decide_eq_true (Int.le_refl 0)
  have hfalse := (tieBreak_of_oneOf ha).mpr (by rwa [weighed, List.length_map])
  rw [ha] at heq
  have hzero := (tieBreak_of_oneOf heq).mp hfalse
  rw [hall, weighed, List.length_map, List.length_map] at hzero
  omega

omit hlatest in
include hstill hfree in
/-- Favouring one row or another makes no difference. -/
theorem outcome_favouring {p : Pair}
    (hp : p ∈ (c.admitted L (c.cfg.now.getD utcNow) corpus).map Row.pair) (id id' : String) :
    c.outcome L (c.cfg.now.getD utcNow) (favouring id corpus) p =
      c.outcome L (c.cfg.now.getD utcNow) (favouring id' corpus) p := by
  have hturn : (c.compose L utcNow (inTurn corpus)).isSome = true :=
    isSome_compose_inTurn hL hfree
  rw [hstill _ (inTurn_same corpus), ← hstill _ (favouring_same _ id')] at hturn
  exact outcome_of_compose_eq ((favouring_same corpus id).trans (favouring_same corpus id').symm)
    ((hstill _ (favouring_same _ id)).trans (hstill _ (favouring_same _ id')).symm) hturn
    ((mem_admitted_same (favouring_same _ id')).mpr hp)

include hstill hfree in
theorem extremum_of_still {p : Pair}
    (hp : p ∈ (c.admitted L (c.cfg.now.getD utcNow) corpus).map Row.pair)
    (hpolarity : polarityFor (ofLex p).1 ≠ .enumerated)
    (hword : polarityFor (ofLex p).1 ≠ .signed ∧ polarityFor (ofLex p).1 ≠ .detector) :
    Agree word (weighed (c.weighing L (c.cfg.now.getD utcNow) corpus p)
      (foremost (polarityFor (ofLex p).1) (c.group L (c.cfg.now.getD utcNow) corpus p))) := by
  by_contra hagree
  obtain ⟨least, hleast, w, hw, w', hw', hdiffer⟩ := not_agree hagree
  have heq := outcome_favouring hL hstill hfree hp w.2.att.attestationId w'.2.att.attestationId
  generalize c.cfg.now.getD utcNow = now at *
  have hne : ∀ id, c.group L now (favouring id corpus) p ≠ [] := fun id =>
    group_ne_nil_iff.mpr ((mem_admitted_same (favouring_same corpus id)).mpr hp)
  rw [outcome_eq_oneOf (hne _) hword, outcome_eq_oneOf (hne _) hword] at heq
  have hrows : ∀ id, ∀ v ∈ weighed (c.weighing L now (favouring id corpus) p)
      (foremost (polarityFor (ofLex p).1) (c.group L now (favouring id corpus) p)),
      v.2.att ∈ favouring id corpus ∧ v.2.att.attestationType = scoresType := by
    intro id v hv
    obtain ⟨r, hr, rfl⟩ := List.mem_map.mp hv
    exact att_of_mem_group (mem_of_foremost hr)
  have hsame : ∀ id, (weighed (c.weighing L now (favouring id corpus) p)
      (foremost (polarityFor (ofLex p).1) (c.group L now (favouring id corpus) p))).map
        unstampedWeighed = (weighed (c.weighing L now corpus p)
          (foremost (polarityFor (ofLex p).1) (c.group L now corpus p))).map unstampedWeighed :=
    fun id => weighed_foremost_same (favouring_same corpus id) hpolarity
  -- several rows tie, as two of them differ
  have hmany : ∀ id, (weighed (c.weighing L now (favouring id corpus) p)
      (foremost (polarityFor (ofLex p).1) (c.group L now (favouring id corpus) p))).length ≠ 1 := by
    intro id hone
    rw [length_same (hsame id)] at hone
    obtain ⟨u, hu⟩ := List.length_eq_one_iff.mp hone
    rw [hu] at hw hw' hdiffer
    have hwu := List.mem_singleton.mp (List.mem_of_mem_filter hw)
    have hwu' := List.mem_singleton.mp (List.mem_of_mem_filter hw')
    exact hdiffer (by rw [hwu, hwu'])
  rw [oneOf_of_many (hmany _), oneOf_of_many (hmany _),
    winner_favouring hL hlatest (fun _ => rfl) (hsame _) (hrows _) hleast hw,
    winner_favouring hL hlatest (fun _ => rfl) (hsame _) (hrows _) hleast hw'] at heq
  refine hdiffer (Option.map_injective (fun q q' hq => ?_) heq)
  rw [Aggregate.mk.injEq] at hq
  exact Prod.ext hq.1 hq.2.1

include hstill hfree in
theorem signed_of_still {p : Pair}
    (hp : p ∈ (c.admitted L (c.cfg.now.getD utcNow) corpus).map Row.pair)
    (hpolarity : polarityFor (ofLex p).1 = .signed)
    (hties : MeanTies (c.weighedAt L (c.cfg.now.getD utcNow) corpus p)) :
    Agree weightedWord (c.weighedAt L (c.cfg.now.getD utcNow) corpus p) := by
  by_contra hagree
  obtain ⟨least, hleast, w, hw, w', hw', hdiffer⟩ := not_agree hagree
  have heq := outcome_favouring hL hstill hfree hp w.2.att.attestationId w'.2.att.attestationId
  generalize c.cfg.now.getD utcNow = now at *
  -- the outcome under a column that favours a finalist
  have houtcome : ∀ u ∈ finalists (c.weighedAt L now corpus p) least,
      c.outcome L now (favouring u.2.att.attestationId corpus) p =
        ((foundAs (finalists (c.weighedAt L now corpus p) least) u).map weightedWord).map
          fun q => ⟨q.1, q.2, true⟩ := by
    intro u hu
    have hsame : (c.weighedAt L now (favouring u.2.att.attestationId corpus) p).map
        unstampedWeighed = (c.weighedAt L now corpus p).map unstampedWeighed :=
      weighedAt_same (favouring_same corpus u.2.att.attestationId) p
    have hrows : ∀ v ∈ c.weighedAt L now (favouring u.2.att.attestationId corpus) p,
        v.2.att ∈ favouring u.2.att.attestationId corpus ∧
          v.2.att.attestationType = scoresType := by
      intro v hv
      obtain ⟨r, hr, rfl⟩ := List.mem_map.mp hv
      exact att_of_mem_group hr
    have hword : (lexicalVulnerabilityWinner L
        (c.weighedAt L now (favouring u.2.att.attestationId corpus) p)).map weightedWord = _ :=
      winner_favouring hL hlatest (fun _ => rfl) hsame hrows hleast hu
    have hne := group_ne_nil_iff.mpr
      ((mem_admitted_same (favouring_same _ u.2.att.attestationId)).mpr hp)
    rw [← hword, Composer.outcome, aggregate.eq_def, weighedAt_isEmpty hne,
      if_neg Bool.false_ne_true, hpolarity]
    show some (signedMean L _) = _
    have hfound : (foundAs (finalists (c.weighedAt L now corpus p) least) u).isSome = true :=
      List.find?_isSome.mpr ⟨u, hu, by simp⟩
    rw [← Option.isSome_map (f := weightedWord), ← hword, Option.isSome_map] at hfound
    obtain ⟨v, hv⟩ := Option.isSome_iff_exists.mp hfound
    rw [signedMean_of_ties ((meanTies_same hsame).mpr hties) hv, hv]
    rfl
  rw [houtcome w hw, houtcome w' hw'] at heq
  refine hdiffer (Option.map_injective (fun q q' hq => ?_) heq)
  rw [Aggregate.mk.injEq] at hq
  exact Prod.ext hq.1 hq.2.1

end Moved

/-- **Signed content only.** What a corpus composes to does not depend on its column `asserted_at`
    exactly if no pair can be moved by it. -/
theorem compose_timeless_iff (hL : L.Chooses) (hlatest : L.TakesLatest) (c : Composer)
    (utcNow : Int) (corpus : List Attestation) :
    (∀ corpus' : List Attestation,
      corpus'.map Attestation.unstamped = corpus.map Attestation.unstamped →
        c.compose L utcNow corpus' = c.compose L utcNow corpus) ↔
      c.Timeless L (c.cfg.now.getD utcNow) corpus := by
  constructor
  · intro hstill
    by_cases hfree : ∀ p : Pair, polarityFor (ofLex p).1 ≠ .enumerated →
        Breakable (foremost (polarityFor (ofLex p).1)
          (c.group L (c.cfg.now.getD utcNow) corpus p))
    · right
      intro p
      by_cases hp : p ∈ (c.admitted L (c.cfg.now.getD utcNow) corpus).map Row.pair
      · rw [Composer.Steady]
        cases hpolarity : polarityFor (ofLex p).1 with
        | enumerated => exact enumerated_of_still hL hstill hfree hpolarity
        | detector => trivial
        | signed => exact signed_of_still hL hlatest hstill hfree hp hpolarity
        | booleanViaScore | negativeOnly | positiveOnly =>
          have hagree := extremum_of_still hL hlatest hstill hfree hp (by rw [hpolarity]; decide)
            (by rw [hpolarity]; decide)
          rwa [hpolarity] at hagree
      · exact steady_of_no_rows hp
    · left
      push Not at hfree
      exact hfree
  · intro h corpus' hsame
    exact compose_same hsame hL h

section Samples

theorem sampleLib_takesLatest : sampleLib.TakesLatest := by
  intro atts att _ hchosen other hother
  have hhead : (atts.insertionSort sampleLe).head? = some att := hchosen
  obtain ⟨rest, hrest⟩ := List.head?_eq_some_iff.mp hhead
  have hmem : other ∈ atts.insertionSort sampleLe := (List.mem_insertionSort _).mpr hother
  have hsorted := pairwise_sampleLe atts
  rw [hrest] at hmem hsorted
  rcases List.mem_cons.mp hmem with rfl | hin
  · exact Int.le_refl _
  · rcases List.rel_of_pairwise_cons hsorted hin with hlt | ⟨heq, _⟩
    · exact Int.le_of_lt hlt
    · exact Int.le_of_eq heq.symm

/-- A row of the sample, with its column. -/
def sampleRowAt (assertedAt : Int) (id : String) (score : Int) : Attestation :=
  { sampleRow id "steward" "cw_class:horror" score [] with assertedAt }

/-- The same two rows, as two nodes stamped them. -/
theorem compose_columns :
    ([sampleRowAt 1 "a" 1, sampleRowAt 0 "b" (-1)].map Attestation.unstamped =
      [sampleRowAt 0 "a" 1, sampleRowAt 1 "b" (-1)].map Attestation.unstamped) ∧
    sampleComposer.cfg.now = some 0 ∧
    (sampleComposer.compose sampleLib 0 [sampleRowAt 1 "a" 1, sampleRowAt 0 "b" (-1)]).map
      (fun k => k.verdicts.map (·.decision)) = some [.affirm] ∧
    (sampleComposer.compose sampleLib 0 [sampleRowAt 0 "a" 1, sampleRowAt 1 "b" (-1)]).map
      (fun k => k.verdicts.map (·.decision)) = some [.deny] := by
  refine ⟨rfl, rfl, by decide +kernel, by decide +kernel⟩

theorem compose_timeless_iff_sample :
    ¬ sampleComposer.Timeless sampleLib 0 [sampleRowAt 1 "a" 1, sampleRowAt 0 "b" (-1)] := by
  intro h
  have hsame := (compose_timeless_iff sampleLib_chooses sampleLib_takesLatest sampleComposer 0
    [sampleRowAt 1 "a" 1, sampleRowAt 0 "b" (-1)]).mpr h
      [sampleRowAt 0 "a" 1, sampleRowAt 1 "b" (-1)] rfl
  have hdiffer : sampleComposer.compose sampleLib 0
      [sampleRowAt 0 "a" 1, sampleRowAt 1 "b" (-1)] ≠ sampleComposer.compose sampleLib 0
        [sampleRowAt 1 "a" 1, sampleRowAt 0 "b" (-1)] := by decide +kernel
  exact hdiffer hsame

end Samples

end CirisServer.ComposePolicy
