import Mathlib.Algebra.Order.Field.Rat
import Mathlib.Data.Prod.Lex
import Mathlib.Data.String.Basic
import CirisServer.ForStd.Except
import CirisServer.ForStd.Group
import CirisServer.Native.Json

/-!
# Composition of attestations into verdicts

`src/compose_policy.rs`: the rows of a corpus are screened, grouped by the dimension and the key
they are about, weighed, and folded into a verdict by the polarity of the dimension. A row is
dated for the revocation screen by `src/key_standing.rs`, which also reads the revocations held.

Scores, confidences and weights are rationals. Where an `expect` of the source fails, the model
has no value.
-/

namespace CirisServer

/-- `Value::as_f64`. -/
def Json.asF64 : Json → Option ℚ
  | .num (.int n) => some n
  | .num (.float x) => some x
  | _ => none

/-- `DateTime::<Utc>::MAX_UTC`, the last nanosecond of the year 262142. -/
def maxUtc : Int := 8210266876799 * nanosPerSec + 999999999

namespace ComposePolicy

/-- `str::starts_with`. -/
def startsWith (s head : String) : Bool := head.toList.isPrefixOf s.toList

def dimTestimonialWitness : String := "testimonial_witness:"
def dimNonMaleficence : String := "non_maleficence:"
def dimLicensure : String := "licensure:"
def dimSlashing : String := "slashing:"
def dimCapacity : String := "capacity:"
def dimDetection : String := "detection:"
def dimRatchetFlag : String := "ratchet:flag:"
def dimRevocation : String := "revocation:"
def dimBenchmarkHe300 : String := "benchmark:he300:"
def dimJudgeModel : String := "judge_model:"
def dimPartnerRole : String := "partner_role:"

inductive Polarity where
  | signed
  | booleanViaScore
  | positiveOnly
  | negativeOnly
  | enumerated
  | detector
deriving DecidableEq

/-- `polarity_for`. -/
def polarityFor (dimension : String) : Polarity :=
  if startsWith dimension dimDetection || startsWith dimension dimRatchetFlag then
    .detector
  else if startsWith dimension "prohibited:" || startsWith dimension dimRevocation then
    .negativeOnly
  else if startsWith dimension "attestation:" || startsWith dimension dimSlashing ||
      startsWith dimension "witness_diversity:" || startsWith dimension dimJudgeModel ||
      startsWith dimension "activity_tier:" then
    .booleanViaScore
  else if startsWith dimension "need:" || startsWith dimension dimBenchmarkHe300 ||
      startsWith dimension "credits:" then
    .positiveOnly
  else if startsWith dimension "content_class:" || startsWith dimension "cw_class:" ||
      startsWith dimension "age_assurance:" || startsWith dimension dimPartnerRole then
    .enumerated
  else .signed

inductive CoSteward where
  | registry
  | verify
deriving DecidableEq

/-- The pinned keys, and which of them are co-stewards of `licensure:*`. -/
structure TrustSet where
  pinned : List String
  coStewards : List (String × CoSteward)

def TrustSet.contains (t : TrustSet) (keyId : String) : Bool := List.contains t.pinned keyId

def TrustSet.coSteward (t : TrustSet) (keyId : String) : Option CoSteward :=
  t.coStewards.lookup keyId

inductive WeightingOrder where
  | structuralThenFrickerian
  | frickerianFirst
deriving DecidableEq

structure PolicyConfig where
  lowDensityMinEmissions : Nat
  lowDensityWeight : ℚ
  threshold : ℚ
  order : WeightingOrder
  now : Option Int

/-! ## Rows and envelopes -/

/-- `attestation_type::SCORES`. -/
def scoresType : String := "scores"

/-- What the composition reads of an attestation. `asserted_at` is a column of the row; the
    envelope is what was signed. -/
structure Attestation where
  attestationId : String
  attestingKeyId : String
  attestedKeyId : String
  attestationType : String
  assertedAt : Int
  expiresAt : Option Int
  attestationEnvelope : Json
deriving DecidableEq

def envelopeStr (att : Attestation) (key : String) : Option String :=
  (att.attestationEnvelope.get? key).bind Json.asStr

def envelopeF64 (att : Attestation) (key : String) : Option ℚ :=
  (att.attestationEnvelope.get? key).bind Json.asF64

def envelopeContextF64 (att : Attestation) (key : String) : Option ℚ :=
  ((att.attestationEnvelope.get? "context").bind (Json.get? · key)).bind Json.asF64

def envelopeContextStr (att : Attestation) (key : String) : Option String :=
  ((att.attestationEnvelope.get? "context").bind (Json.get? · key)).bind Json.asStr

/-! ## Key standing -/

/-- What is read here of a revocation row. -/
structure Revocation where
  revocationId : String
  revokedKeySha256Ed25519Raw : String
  effectiveAt : Int
  revokedAfter : Option Int

inductive KeyStatementStanding where
  | stands
  | suspectAfterBound
  | suspectUnbounded
deriving DecidableEq

def KeyStatementStanding.isSuspect : KeyStatementStanding → Bool
  | .stands => false
  | .suspectAfterBound | .suspectUnbounded => true

/-- What is called outside of the repository: chrono's reader of RFC 3339, and the two rules of
    the substrate, its fold of revocations and its choice among attestations. -/
structure Lib where
  parseRfc3339 : String → Option Int
  foldKeyStatementStanding :
    (keyId subject : String) → List Revocation → (statementAt now : Int) → KeyStatementStanding
  precedenceWinner : List Attestation → Option Attestation

/-- `UNDATED_STATEMENT_AT`. -/
def undatedStatementAt : Int := maxUtc

/-- `signed_instant`. -/
def signedInstant (L : Lib) (att : Attestation) : Option Int :=
  (envelopeStr att "asserted_at").bind L.parseRfc3339

abbrev HeldRevocations := List (String × List Revocation)

def HeldRevocations.fold (L : Lib) (held : HeldRevocations) (keyId : String)
    (statementAt now : Int) : KeyStatementStanding :=
  let rows := (held.lookup keyId).getD []
  let subject := (rows.head?.map Revocation.revokedKeySha256Ed25519Raw).getD ""
  L.foldKeyStatementStanding keyId subject rows statementAt now

def HeldRevocations.statementStanding (L : Lib) (held : HeldRevocations) (att : Attestation)
    (now : Int) : KeyStatementStanding :=
  held.fold L att.attestingKeyId ((signedInstant L att).getD undatedStatementAt) now

/-! ## Screening -/

inductive RefusalReason where
  | notInTrustSet
  | expired
  | malformedEnvelope (text : String)
  | selfEmission
  | testimonialSoleEvidenceForSlashing
  | detectorSoleEvidenceForSlashing
  | notAScore
  | keyStatementSuspect (standing : KeyStatementStanding)
deriving DecidableEq

structure Refusal where
  attestationId : String
  attestingKeyId : String
  dimension : Option String
  reason : RefusalReason
deriving DecidableEq

/-- An admitted attestation. -/
structure Row where
  att : Attestation
  dimension : String
  score : ℚ
  confidence : ℚ
  witnessRelation : String
  affectedPopulation : Option ℚ
  cohortId : Option String

/-- A dimension and an attested key: the unit of composition. -/
abbrev Pair := String ×ₗ String

def Row.pair (r : Row) : Pair := toLex (r.dimension, r.att.attestedKeyId)

structure Composer where
  trust : TrustSet
  cfg : PolicyConfig
  revocations : HeldRevocations

/-- The ids in `evidence_refs`. -/
def evidenceRefs (att : Attestation) : List String :=
  match att.attestationEnvelope.get? "evidence_refs" with
  | some (.arr refs) => refs.filterMap Json.asStr
  | _ => []

/-- The rows of the corpus that `att` names as its evidence. -/
def resolvedEvidence (att : Attestation) (corpus : List Attestation) : List Attestation :=
  (evidenceRefs att).filterMap fun id => corpus.find? (·.attestationId == id)

/-- There is evidence, and all of it is of one kind. -/
def soleEvidence (kind : String → Bool) (att : Attestation) (corpus : List Attestation) : Bool :=
  let resolved := resolvedEvidence att corpus
  let ofKind := resolved.countP fun row => (envelopeStr row "dimension").any kind
  decide (0 < resolved.length) && resolved.length == ofKind

/-- The dimensions of a witness. -/
def isTestimonial (d : String) : Bool := startsWith d dimTestimonialWitness

/-- The dimensions of a detector. -/
def isDetector (d : String) : Bool := startsWith d dimDetection || startsWith d dimRatchetFlag

/-- `testimonial_sole_evidence`. -/
def testimonialSoleEvidence : Attestation → List Attestation → Bool := soleEvidence isTestimonial

/-- `detector_sole_evidence`. -/
def detectorSoleEvidence : Attestation → List Attestation → Bool := soleEvidence isDetector

/-- The screens of `screen` that read the row alone. -/
def Composer.vet (L : Lib) (c : Composer) (att : Attestation) (now : Int) :
    Except RefusalReason Row := do
  ensure (att.attestationType == scoresType) .notAScore
  ensure (c.trust.contains att.attestingKeyId) .notInTrustSet
  -- the instant compared is the signed one
  let standing := c.revocations.statementStanding L att now
  ensure (!standing.isSuspect) (.keyStatementSuspect standing)
  ensure (!att.expiresAt.any (· ≤ now)) .expired
  ensure (!((envelopeStr att "valid_until").bind L.parseRfc3339).any (· ≤ now)) .expired
  let dimension ← (envelopeStr att "dimension").elim (.error (.malformedEnvelope "dimension")) .ok
  let score ← (envelopeF64 att "score").elim (.error (.malformedEnvelope "score")) .ok
  let confidence ←
    (envelopeF64 att "confidence").elim (.error (.malformedEnvelope "confidence")) .ok
  ensure (decide (0 ≤ confidence ∧ confidence ≤ 1))
    (.malformedEnvelope "confidence out of [0,1]")
  ensure (decide (-1 ≤ score ∧ score ≤ 1)) (.malformedEnvelope "score out of [-1,1]")
  ensure (!(startsWith dimension dimCapacity && att.attestingKeyId == att.attestedKeyId))
    .selfEmission
  return {
    att, dimension, score, confidence
    witnessRelation := (envelopeStr att "witness_relation").getD "external"
    affectedPopulation := envelopeContextF64 att "affected_population_estimate"
    cohortId := envelopeContextStr att "cohort_id" }

/-- `screen`: the sole-evidence screens come last, and they alone read the corpus. -/
def Composer.screen (L : Lib) (c : Composer) (corpus : List Attestation) (now : Int)
    (att : Attestation) : Except RefusalReason Row := do
  let row ← c.vet L att now
  ensure (!(startsWith row.dimension dimSlashing && testimonialSoleEvidence att corpus))
    .testimonialSoleEvidenceForSlashing
  ensure (!(startsWith row.dimension dimSlashing && detectorSoleEvidence att corpus))
    .detectorSoleEvidenceForSlashing
  return row

/-! ## Weighting -/

/-- The emissions of each attester about itself, and its other emissions. -/
structure TrackRecord where
  counts : String → Nat × Nat

def TrackRecord.of (rows : List Row) : TrackRecord where
  counts attester :=
    let own := rows.filter (·.att.attestingKeyId == attester)
    (own.countP (·.witnessRelation == "self"), own.countP (·.witnessRelation != "self"))

def TrackRecord.selfWeight (t : TrackRecord) (attester : String) : ℚ :=
  let (slf, other) := t.counts attester
  (1 + other) / (1 + other + slf)

/-- How many rows each cohort accounts for. -/
structure CohortDensity where
  counts : String → Nat

def CohortDensity.of (rows : List Row) : CohortDensity where
  counts cohort := rows.countP (·.cohortId == some cohort)

def CohortDensity.isLow (d : CohortDensity) (cohort : String) (minEmissions : Nat) : Bool :=
  d.counts cohort < minEmissions

/-- `f64::clamp(0.0, 1.0)`. -/
def clamp01 (x : ℚ) : ℚ := max 0 (min x 1)

/-- `weigh`: the weight, and which of the two downweights were applied. -/
def Composer.weigh (c : Composer) (track : TrackRecord) (density : CohortDensity) (r : Row) :
    ℚ × Bool × Bool :=
  let isProtected := startsWith r.dimension dimTestimonialWitness ||
    startsWith r.dimension dimNonMaleficence
  if c.cfg.order = .frickerianFirst ∧ isProtected then (1, false, false)
  else
    let isSelf := r.witnessRelation == "self"
    let weight := if isSelf then track.selfWeight r.att.attestingKeyId else 1
    -- an unknown cohort is not downweighted
    let isLow := !isProtected &&
      r.cohortId.any fun cohort => density.isLow cohort c.cfg.lowDensityMinEmissions
    (clamp01 (if isLow then weight * c.cfg.lowDensityWeight else weight), isSelf, isLow)

/-- `licensure_cap`. -/
def Composer.licensureCap (c : Composer) (dimension : String) (group : List Row) : Bool :=
  startsWith dimension dimLicensure &&
    decide ((group.filterMap fun r => c.trust.coSteward r.att.attestingKeyId).dedup.length < 2)

structure Contribution where
  attestationId : String
  attestingKeyId : String
  score : ℚ
  confidence : ℚ
  weight : ℚ
  selfTrackRecordApplied : Bool
  lowDensityApplied : Bool
  licensureCapped : Bool
deriving DecidableEq

/-- What one row contributes. -/
def Composer.contribution (c : Composer) (track : TrackRecord) (density : CohortDensity)
    (capped : Bool) (r : Row) : Contribution :=
  let (weight, selfTrack, lowDensity) := c.weigh track density r
  { attestationId := r.att.attestationId
    attestingKeyId := r.att.attestingKeyId
    score := r.score
    confidence := if capped then min r.confidence (1 / 2) else r.confidence
    weight
    selfTrackRecordApplied := selfTrack
    lowDensityApplied := lowDensity
    licensureCapped := capped }

/-! ## Aggregation -/

/-- A row and what it contributes. -/
abbrev Weighed := Contribution × Row

/-- A value, a confidence, and whether a tie was broken. -/
structure Aggregate where
  value : ℚ
  confidence : ℚ
  tieBreak : Bool
deriving DecidableEq

/-- `(x - y).abs() < tolerance`. -/
def near (tolerance x y : ℚ) : Bool := decide (|x - y| < tolerance)

/-- The rows that name the smallest population. -/
def finalists (rows : List Weighed) (least : ℚ) : List Weighed :=
  rows.filter fun w => w.2.affectedPopulation.any fun p => near (1 / 10 ^ 9) p least

/-- `lexical_vulnerability_winner`: none where no row names a population. -/
def lexicalVulnerabilityWinner (L : Lib) (rows : List Weighed) : Option Weighed := do
  let least ← (rows.filterMap (·.2.affectedPopulation)).min?
  let finalists := finalists rows least
  if finalists.length = 1 then finalists.head?
  else
    let winner ← L.precedenceWinner (finalists.map (·.2.att))
    finalists.find? (·.2.att.attestationId == winner.attestationId)

/-- `has_conflict`. -/
def hasConflict (rows : List Weighed) : Bool :=
  rows.any (fun w => decide (0 < w.1.score)) && rows.any fun w => decide (w.1.score < 0)

/-- The word of one row where it stands alone, and of the winner where several tie: the end of
    `extremum` and of the `Enumerated` arm. -/
def oneOf (L : Lib) (tied : List Weighed) : Option Aggregate :=
  match tied with
  | [w] => some ⟨w.1.score, w.1.confidence, false⟩
  | _ => (lexicalVulnerabilityWinner L tied).map fun w => ⟨w.1.score, w.1.confidence, true⟩

/-- `extremum`, with `List.min?` or `List.max?` as the fold. -/
def extremum (L : Lib) (fold : List ℚ → Option ℚ) (rows : List Weighed) : Option Aggregate := do
  let target ← fold (rows.map (·.1.score))
  oneOf L (rows.filter fun w => near (1 / 10 ^ 12) w.1.score target)

/-- `values.sum() / n`. -/
def mean (values : List ℚ) : ℚ := values.sum / values.length

/-- The middle of the sorted scores. -/
def median (scores : List ℚ) : ℚ :=
  let vals := scores.insertionSort (· ≤ ·)
  let mid := vals.length / 2
  if vals.length % 2 = 0 then (vals.getD (mid - 1) 0 + vals.getD mid 0) / 2 else vals.getD mid 0

/-- The `Signed` arm: a weighted mean of zero among rows in conflict is a tie. -/
def signedMean (L : Lib) (rows : List Weighed) : Aggregate :=
  let value := mean (rows.map fun w => w.1.score * w.1.confidence * w.1.weight)
  let plain : Aggregate := ⟨value, clamp01 (mean (rows.map (·.1.confidence))), false⟩
  if 2 ≤ rows.length ∧ near (1 / 10 ^ 9) value 0 ∧ hasConflict rows then
    match lexicalVulnerabilityWinner L rows with
    | some w => ⟨w.1.score * w.1.confidence * w.1.weight, w.1.confidence, true⟩
    | none => plain
  else plain

/-- The `Enumerated` arm: the rows latest by the column `asserted_at`. -/
def mostRecent (L : Lib) (rows : List Weighed) : Option Aggregate := do
  let latest ← (rows.map (·.2.att.assertedAt)).max?
  oneOf L (rows.filter (·.2.att.assertedAt == latest))

/-- `aggregate`. -/
def aggregate (L : Lib) (polarity : Polarity) (rows : List Weighed) : Option Aggregate :=
  if rows.isEmpty then some ⟨0, 0, false⟩
  else
    match polarity with
    | .signed => some (signedMean L rows)
    | .booleanViaScore | .negativeOnly => extremum L List.min? rows
    | .positiveOnly => extremum L List.max? rows
    | .enumerated => mostRecent L rows
    | .detector => some ⟨median (rows.map (·.1.score)),
        clamp01 (mean (rows.map (·.1.confidence))), false⟩

/-! ## Composition -/

inductive Decision where
  | affirm
  | deny
  | undetermined
deriving DecidableEq

structure Verdict where
  dimension : String
  attestedKeyId : String
  polarity : Polarity
  value : ℚ
  confidence : ℚ
  singleSourceLicensure : Bool
  lexicalTieBreakApplied : Bool
  contributions : List Contribution
  decision : Decision
deriving DecidableEq

def Verdict.pair (v : Verdict) : Pair := toLex (v.dimension, v.attestedKeyId)

structure Composition where
  verdicts : List Verdict
  refusals : List Refusal
deriving DecidableEq

/-- `compose_group`. -/
def Composer.composeGroup (L : Lib) (c : Composer) (track : TrackRecord)
    (density : CohortDensity) (p : Pair) (group : List Row) : Option Verdict := do
  let (dimension, attestedKeyId) := ofLex p
  let polarity := polarityFor dimension
  let capped := c.licensureCap dimension group
  let contributions := group.map fun r => (c.contribution track density capped r, r)
  let a ← aggregate L polarity contributions
  return {
    dimension, attestedKeyId, polarity
    value := a.value
    confidence := a.confidence
    singleSourceLicensure := capped
    lexicalTieBreakApplied := a.tieBreak
    contributions := contributions.map Prod.fst
    decision := if contributions.isEmpty then .undetermined
      else if c.cfg.threshold ≤ a.value then .affirm else .deny }

/-- The verdict on a pair none of whose rows was admitted. -/
def Verdict.undecided (p : Pair) : Verdict where
  dimension := (ofLex p).1
  attestedKeyId := (ofLex p).2
  polarity := polarityFor (ofLex p).1
  value := 0
  confidence := 0
  singleSourceLicensure := false
  lexicalTieBreakApplied := false
  contributions := []
  decision := .undetermined

/-- The refusal of a row, if it is refused. -/
def refusal? (att : Attestation) : Except RefusalReason Row → Option Refusal
  | .ok _ => none
  | .error reason =>
    some ⟨att.attestationId, att.attestingKeyId, envelopeStr att "dimension", reason⟩

/-- The pair a refusal is about: the attested key is looked up by the row's id. -/
def Refusal.pair? (corpus : List Attestation) (r : Refusal) : Option Pair := do
  let dimension ← r.dimension
  let att ← corpus.find? (·.attestationId == r.attestationId)
  return toLex (dimension, att.attestedKeyId)

/-- The rows that pass the screen. -/
def Composer.admitted (L : Lib) (c : Composer) (now : Int) (corpus : List Attestation) :
    List Row :=
  corpus.filterMap fun att => (c.screen L corpus now att).toOption

/-- The refusals of the others. -/
def Composer.refused (L : Lib) (c : Composer) (now : Int) (corpus : List Attestation) :
    List Refusal :=
  corpus.filterMap fun att => refusal? att (c.screen L corpus now att)

/-- `compose`, with the clock's instant for a configuration that names none. -/
def Composer.compose (L : Lib) (c : Composer) (utcNow : Int) (corpus : List Attestation) :
    Option Composition := do
  let now := c.cfg.now.getD utcNow
  let rows := c.admitted L now corpus
  let refusals := c.refused L now corpus
  let track := TrackRecord.of rows
  let density := CohortDensity.of rows
  let groups := (rows.map Row.pair).sortedKeys
  let decided ← groups.mapM fun p =>
    c.composeGroup L track density p (rows.filter fun r => r.pair == p)
  let undetermined :=
    (refusals.filterMap (·.pair? corpus)).sortedKeys.filter fun p => !groups.contains p
  let verdicts := (decided ++ undetermined.map Verdict.undecided).insertionSort
    fun v w => v.pair ≤ w.pair
  return ⟨verdicts, refusals⟩

/-! ## The corpus about one key -/

/-- A failed read of the substrate. -/
structure FederationError where
  unsupported : Bool
  display : String

/-- What `compose_for_key` reads of the substrate. -/
structure Substrate where
  attestationsToAll : (attestedKeyId : String) → Except FederationError (List Attestation)
  hasAccordConferredRole : (keyId : String) → CoSteward → Except FederationError Bool
  revocationsFor : (keyId : String) → Except FederationError (List Revocation)

/-- `TrustSet::pin_co_steward`. -/
def TrustSet.pinCoSteward (t : TrustSet) (keyId : String) (role : CoSteward) : TrustSet where
  pinned := keyId :: t.pinned
  coStewards := (keyId, role) :: t.coStewards

/-- The name of a co-steward in an error. -/
def CoSteward.name : CoSteward → String
  | .registry => "registry"
  | .verify => "verify"

/-- One read of `has_accord_conferred_role`. -/
def Substrate.hasRole (S : Substrate) (keyId : String) (role : CoSteward) : Except String Bool :=
  (S.hasAccordConferredRole keyId role).mapError fun e =>
    "has_accord_conferred_role(" ++ keyId ++ ", " ++ role.name ++ "): " ++ e.display

/-- The co-steward a key is: registry is asked for first. -/
def Substrate.coStewardOf (S : Substrate) (keyId : String) : Except String (Option CoSteward) := do
  if ← S.hasRole keyId .registry then return some .registry
  else if ← S.hasRole keyId .verify then return some .verify
  else return none

/-- The co-stewards among the attesters of `licensure:*` rows. -/
def Substrate.resolveCoStewards (S : Substrate) (resolved : List (String × CoSteward)) :
    List Attestation → Except String (List (String × CoSteward))
  | [] => .ok resolved
  | att :: rows =>
    if (envelopeStr att "dimension").any (startsWith · dimLicensure) &&
        (resolved.lookup att.attestingKeyId).isNone then do
      match ← S.coStewardOf att.attestingKeyId with
      | some role => S.resolveCoStewards ((att.attestingKeyId, role) :: resolved) rows
      | none => S.resolveCoStewards resolved rows
    else S.resolveCoStewards resolved rows

/-- `HeldRevocations::for_keys`: a substrate without revocations holds none. -/
def HeldRevocations.forKeys (S : Substrate) (keys : List String) : Except String HeldRevocations :=
  keys.mapM fun key =>
    match S.revocationsFor key with
    | .ok rows => .ok (key, rows)
    | .error e =>
      if e.unsupported then .ok (key, [])
      else .error ("revocations_for(" ++ key ++ "): " ++ e.display)

/-- `Composer::compose_for_key`. -/
def Composer.composeForKey (L : Lib) (S : Substrate) (c : Composer) (utcNow : Int)
    (attestedKeyId : String) : Except String (Option Composition) := do
  let rows ← (S.attestationsToAll attestedKeyId).mapError fun e =>
    "list_attestations_for(" ++ attestedKeyId ++ "): " ++ e.display
  let resolved ← S.resolveCoStewards [] rows
  let trust := resolved.foldl (fun t entry => t.pinCoSteward entry.1 entry.2) c.trust
  let revocations ← HeldRevocations.forKeys S (rows.map (·.attestingKeyId)).sortedKeys
  return { c with trust, revocations }.compose L utcNow rows

end ComposePolicy

end CirisServer
