import CirisServer.ForStd.KeyedRows
import CirisServer.ForStd.Members
import CirisServer.ForStd.Pairs
import CirisServer.Native.ComposePolicy

/-!
# Same-key equivocation

`src/equivocation.rs`: rows are reduced to claims, claims at one coordinate are compared pair by
pair, and a pair that one key signed for one instant with two contents is a contradiction. `detect`
takes rows all at once; `scanWindow` streams the live tier page by page, pass after pass, into an
index of claims. `claim_view` is `src/attest.rs`'s, the standing of a row `src/key_standing.rs`'s.

Persist's names of envelope fields, its canonicalizer and its pages come from outside. The index is
a `BTreeMap` of coordinates; here a new coordinate comes last, and nothing but the order of the
candidates depends on it.
-/

namespace CirisServer.Equivocation

/-- What is called outside of the repository: the substrate's rules and, for an envelope, the names
    of its fields, its dimension, and the digest of its canonical form where it has one. -/
structure Lib where
  policy : ComposePolicy.Lib
  row : String
  assertedAt : String
  expiresAt : String
  widenedAt : String
  referencesAttestationId : String
  differsIn : String
  envelopeDimension : Json → Option String
  canonicalDigest : Json → Option String

/-- What the detector reads of an attestation. -/
structure Attestation extends ComposePolicy.Attestation where
  tier : String
  originalContentHash : String
deriving DecidableEq

/-- `attestation_tier::FEDERATION`. -/
def federation : String := "federation"

/-! ## Claims -/

/-- `is_placement_widening_envelope`. -/
def isPlacementWideningEnvelope (L : Lib) (envelope : Json) : Bool :=
  ((envelope.get? L.widenedAt).bind Json.asStr).any fun s => s != ""

/-- `claim_view`. -/
def claimView (L : Lib) (envelope : Json) : Json :=
  match envelope with
  | .obj obj =>
    let out := Members.removeAll [L.row, L.assertedAt, L.expiresAt, L.widenedAt] obj
    .obj (if isPlacementWideningEnvelope L envelope then
      Members.removeAll [L.referencesAttestationId, L.differsIn] out else out)
  | other => other

/-- `claim_digest`. -/
def claimDigest (L : Lib) (envelope : Json) : Option String :=
  L.canonicalDigest (claimView L envelope)

structure ClaimCoordinate where
  attestingKeyId : String
  subjectKeyId : String
  dimension : String
deriving DecidableEq

/-- `coordinate_of`. -/
def coordinateOf (L : Lib) (a : Attestation) : Option ClaimCoordinate :=
  (L.envelopeDimension a.attestationEnvelope).map fun dimension =>
    { attestingKeyId := a.attestingKeyId, subjectKeyId := a.attestedKeyId, dimension }

structure RowClaim where
  attestationId : String
  contentHash : String
  claimDigest : Option String
  signedAt : Option Int
  /-- The pass that last saw the row. -/
  seenPass : Nat
deriving DecidableEq

/-- `RowClaim::of`. -/
def RowClaim.of (L : Lib) (a : Attestation) : RowClaim where
  attestationId := a.attestationId
  contentHash := a.originalContentHash
  claimDigest := Equivocation.claimDigest L a.attestationEnvelope
  signedAt := ComposePolicy.signedInstant L.policy a.toAttestation
  seenPass := 0

inductive PairVerdict where
  | sameStatement
  | superseded
  | noSignedInstant
  | contradiction
deriving DecidableEq

/-- `same_claim`: the same digest, or the same stored hash where one of them has no digest. -/
def sameClaim (a b : RowClaim) : Bool :=
  match a.claimDigest, b.claimDigest with
  | some da, some db => da == db
  | _, _ => a.contentHash == b.contentHash

/-- `classify_claims`. -/
def classifyClaims (a b : RowClaim) : PairVerdict :=
  if sameClaim a b then .sameStatement
  else
    match a.signedAt, b.signedAt with
    | some ta, some tb => if ta = tb then .contradiction else .superseded
    | _, _ => .noSignedInstant

structure ClaimContradiction where
  coordinate : ClaimCoordinate
  signedAt : Int
  attestationIds : String × String
deriving DecidableEq

structure ClaimVerdicts where
  pairsCompared : Nat
  sameStatement : Nat
  superseded : Nat
  noSignedInstant : Nat
  candidates : List ClaimContradiction
deriving DecidableEq

/-- The two ids, the lesser first. -/
def sortedIds (a b : RowClaim) : String × String :=
  if a.attestationId ≤ b.attestationId then (a.attestationId, b.attestationId)
  else (b.attestationId, a.attestationId)

/-- One turn of the inner loop. A contradiction has a signed instant, so the `expect` holds. -/
def ClaimVerdicts.record (coord : ClaimCoordinate) (out : ClaimVerdicts)
    (pair : RowClaim × RowClaim) : ClaimVerdicts :=
  let out := { out with pairsCompared := out.pairsCompared + 1 }
  match classifyClaims pair.1 pair.2, pair.1.signedAt with
  | .sameStatement, _ => { out with sameStatement := out.sameStatement + 1 }
  | .superseded, _ => { out with superseded := out.superseded + 1 }
  | .noSignedInstant, _ => { out with noSignedInstant := out.noSignedInstant + 1 }
  | .contradiction, some at_ =>
    { out with
      candidates := out.candidates ++ [⟨coord, at_, sortedIds pair.1 pair.2⟩] }
  | .contradiction, none => out

/-- `detect_claims`. -/
def detectClaims (groups : List (ClaimCoordinate × List RowClaim)) : ClaimVerdicts :=
  groups.foldl (fun out group => group.2.pairs.foldl (ClaimVerdicts.record group.1) out)
    ⟨0, 0, 0, 0, []⟩

/-! ## The index -/

structure ClaimIndex where
  groups : List (ClaimCoordinate × List RowClaim)
  rows : Nat

namespace ClaimIndex

def empty : ClaimIndex := ⟨[], 0⟩

/-- The claim goes into the group of its coordinate, in the place of the claim with its id or as
    the last. -/
def upsertGroup (coord : ClaimCoordinate) (claim : RowClaim) :
    List (ClaimCoordinate × List RowClaim) → List (ClaimCoordinate × List RowClaim)
  | [] => [(coord, [claim])]
  | (k, group) :: groups =>
    if k = coord then (k, KeyedRows.upsert RowClaim.attestationId claim group) :: groups
    else (k, group) :: upsertGroup coord claim groups

/-- A claim with the id is held at the coordinate. -/
def holds (coord : ClaimCoordinate) (id : String) (groups : List (ClaimCoordinate × List RowClaim)) :
    Bool :=
  groups.any fun group => group.1 == coord && group.2.any fun c => c.attestationId == id

/-- `ClaimIndex::upsert`. -/
def upsert (index : ClaimIndex) (coord : ClaimCoordinate) (claim : RowClaim) : ClaimIndex where
  groups := upsertGroup coord claim index.groups
  rows := if holds coord claim.attestationId index.groups then index.rows else index.rows + 1

/-- `ClaimIndex::evict_unseen_since`: the index after it, and how many claims left. -/
def evictUnseenSince (index : ClaimIndex) (pass : Nat) : ClaimIndex × Nat :=
  let retained := index.groups.map fun group =>
    (group.1, group.2.filter fun c => decide (pass ≤ c.seenPass))
  let evicted := (index.groups.map fun group =>
    group.2.length - (group.2.filter fun c => decide (pass ≤ c.seenPass)).length).sum
  ({ groups := retained.filter fun group => !group.2.isEmpty, rows := index.rows - evicted },
    evicted)

def coordinates (index : ClaimIndex) : Nat := index.groups.length

/-- `ClaimIndex::verdicts`. -/
def verdicts (index : ClaimIndex) : ClaimVerdicts := detectClaims index.groups

end ClaimIndex

/-! ## All rows at once -/

structure Contradiction where
  attestingKeyId : String
  subjectKeyId : String
  dimension : String
  assertedAt : Int
  attestationIds : String × String
  contentHashes : String × String
  differingFields : List String
deriving DecidableEq

/-- `differing_fields`. -/
def differingFields (L : Lib) (a b : Json) : List String :=
  match claimView L a, claimView L b with
  | .obj oa, .obj ob =>
    ((oa ++ ob).map (·.1)).sortedKeys.filter fun k => oa.lookup k ≠ ob.lookup k
  | _, _ => []

/-- `Contradiction::new`. -/
def Contradiction.new (L : Lib) (a b : Attestation) (dimension : String) (assertedAt : Int) :
    Contradiction :=
  let (lo, hi) := if a.attestationId ≤ b.attestationId then (a, b) else (b, a)
  { attestingKeyId := lo.attestingKeyId
    subjectKeyId := lo.attestedKeyId
    dimension
    assertedAt
    attestationIds := (lo.attestationId, hi.attestationId)
    contentHashes := (lo.originalContentHash, hi.originalContentHash)
    differingFields := Equivocation.differingFields L lo.attestationEnvelope hi.attestationEnvelope }

/-- `HARD_CASE_KIND`. -/
def hardCaseKind : String := "attestation_equivocation"

/-- `Contradiction::event_id`. -/
def Contradiction.eventId (c : Contradiction) : String :=
  hardCaseKind ++ ":" ++ c.attestationIds.1 ++ ":" ++ c.attestationIds.2

structure HardCaseEvent where
  eventId : String
  kind : String
  targetKeyId : Option String
  subjectKeyId : Option String
  detail : Json
  emittedAt : Int

/-- `Contradiction::hard_case`, with `to_rfc3339`. -/
def Contradiction.hardCase (toRfc3339 : Int → String) (c : Contradiction) (emittedAt : Int) :
    HardCaseEvent where
  eventId := c.eventId
  kind := hardCaseKind
  targetKeyId := some c.attestingKeyId
  subjectKeyId := some c.subjectKeyId
  detail := .obj [
    ("attesting_key_id", .str c.attestingKeyId),
    ("subject_key_id", .str c.subjectKeyId),
    ("dimension", .str c.dimension),
    ("signed_asserted_at", .str (toRfc3339 c.assertedAt)),
    ("attestation_ids", .arr [.str c.attestationIds.1, .str c.attestationIds.2]),
    ("content_hashes", .arr [.str c.contentHashes.1, .str c.contentHashes.2]),
    ("differing_fields", .arr (c.differingFields.map .str)),
    ("rule", .str "CC 6.1.1 N4"),
    ("detection", .str "local — this node holds both rows; no consensus, no penalty")]
  emittedAt

/-- A pass's report, without its wall times. -/
structure DetectorReport where
  rowsScanned : Nat
  pairsCompared : Nat
  sameStatement : Nat
  superseded : Nat
  noSignedInstant : Nat
  suspectRows : Nat
  contradictions : List Contradiction
  truncated : Bool
  pages : Nat
  resumed : Bool
  wrapped : Bool
  candidatesUnverified : Nat
  indexRows : Nat
  indexCoordinates : Nat
deriving DecidableEq

def DetectorReport.default : DetectorReport :=
  ⟨0, 0, 0, 0, 0, 0, [], false, 0, false, false, 0, 0, 0⟩

/-- `by_id`: the last row with an id. -/
def byId (rows : List Attestation) (id : String) : Option Attestation :=
  rows.reverse.find? (·.attestationId == id)

/-- The index that `detect` fills. -/
def indexOf (L : Lib) (rows : List Attestation) : ClaimIndex :=
  rows.foldl
    (fun index r =>
      match coordinateOf L r with
      | some coord => index.upsert coord (RowClaim.of L r)
      | none => index)
    .empty

/-- What `detect` makes of one candidate: evidence, or one more that is not verified. -/
def recordCandidate (L : Lib) (rows : List Attestation) (report : DetectorReport)
    (c : ClaimContradiction) : DetectorReport :=
  match byId rows c.attestationIds.1, byId rows c.attestationIds.2 with
  | some a, some b =>
    { report with
      contradictions :=
        report.contradictions ++ [Contradiction.new L a b c.coordinate.dimension c.signedAt] }
  | _, _ => { report with candidatesUnverified := report.candidatesUnverified + 1 }

/-- `detect`. -/
def detect (L : Lib) (rows : List Attestation) : DetectorReport :=
  let verdicts := (indexOf L rows).verdicts
  let report :=
    { DetectorReport.default with
      rowsScanned := rows.length
      pairsCompared := verdicts.pairsCompared
      sameStatement := verdicts.sameStatement
      superseded := verdicts.superseded
      noSignedInstant := verdicts.noSignedInstant }
  verdicts.candidates.foldl (recordCandidate L rows) report

/-! ## Passes -/

section Passes

variable {κ : Type}

structure ScanState (κ : Type) where
  cursor : Option κ
  pass : Nat
  /-- The pass number the current walk of the tier started at. -/
  cycleStartedAt : Nat
  index : ClaimIndex

def ScanState.default : ScanState κ := ⟨none, 0, 0, .empty⟩

/-- A page of `list_attestations`. -/
structure Page (κ : Type) where
  items : List Attestation
  nextCursor : Option κ

/-- How one turn of the scan's loop is answered from outside. -/
inductive Answer (κ : Type) where
  /-- `list_attestations` fails. -/
  | listFailed
  /-- A page, and the revocations held against its keys; `none` where reading them, or digesting
      the page, fails. -/
  | page (page : Page κ) (held : Option ComposePolicy.HeldRevocations)

/-- The outside of one pass: its instant, whether the node is admitted as itself, and what each
    turn's read is answered, given the cursor it is made with. Where the answers run out, the pass
    was dropped while it waited. -/
structure PassEnv (κ : Type) where
  now : Int
  admitted : Bool
  answers : List (Option κ → Answer κ)

/-- `HeldRevocations::suspects`. -/
def suspects (L : Lib) (held : ComposePolicy.HeldRevocations) (now : Int) (a : Attestation) : Bool :=
  (held.statementStanding L.policy a.toAttestation now).isSuspect

/-- The claims of one page. -/
def digestPage (L : Lib) (pass : Nat) (suspect : Attestation → Bool) (rows : List Attestation) :
    List (ClaimCoordinate × RowClaim) :=
  rows.filterMap fun a =>
    if a.tier ≠ federation then none
    else if suspect a then none
    else (coordinateOf L a).map fun coord => (coord, { RowClaim.of L a with seenPass := pass })

/-- The suspect rows of one page. -/
def suspectRows (suspect : Attestation → Bool) (rows : List Attestation) : Nat :=
  rows.countP fun a => a.tier == federation && suspect a

/-- The loop of `scan_window`. A read takes the cursor; only a page puts one back. -/
def scanLoop (L : Lib) (maxRows : Nat) (now : Int) :
    List (Option κ → Answer κ) → ScanState κ → Nat → DetectorReport →
      ScanState κ × Option DetectorReport
  | [], state, _, _ => ({ state with cursor := none }, none)
  | answer :: answers, state, scanned, report =>
    match answer state.cursor with
    | .listFailed => ({ state with cursor := none }, none)
    | .page _ none => ({ state with cursor := none }, none)
    | .page page (some held) =>
      let suspect := suspects L held now
      let scanned := scanned + page.items.length
      let report :=
        { report with
          pages := report.pages + 1
          rowsScanned := report.rowsScanned + page.items.length
          suspectRows := report.suspectRows + suspectRows suspect page.items }
      let index := (digestPage L state.pass suspect page.items).foldl
        (fun index claim => index.upsert claim.1 claim.2) state.index
      match page.nextCursor with
      | none =>
        -- End of the tier: what this cycle did not produce leaves, and the next one starts.
        ({ state with
            cursor := none
            cycleStartedAt := state.pass + 1
            index := (index.evictUnseenSince state.cycleStartedAt).1 },
          some { report with wrapped := true, truncated := false })
      | some c =>
        if maxRows ≤ scanned then
          ({ state with cursor := some c, index }, some { report with truncated := true })
        else scanLoop L maxRows now answers { state with cursor := some c, index } scanned report

/-- `scan_window`. -/
def scanWindow (L : Lib) (maxRows : Nat) (env : PassEnv κ) (state : ScanState κ)
    (report : DetectorReport) : ScanState κ × Option DetectorReport :=
  if env.admitted then
    let (state, report?) := scanLoop L maxRows env.now env.answers state 0
      { report with resumed := state.cursor.isSome }
    (state, report?.map fun report =>
      { report with
        indexRows := state.index.rows
        indexCoordinates := state.index.coordinates })
  else (state, none)

/-- `run_pass_with`, up to the verdicts: the state after it, and its report unless it failed. -/
def runPassWith (L : Lib) (maxRows : Nat) (env : PassEnv κ) (state : ScanState κ) :
    ScanState κ × Option DetectorReport :=
  let state := { state with pass := state.pass + 1 }
  let (state, report?) := scanWindow L maxRows env state .default
  let verdicts := state.index.verdicts
  (state, report?.map fun report =>
    { report with
      pairsCompared := verdicts.pairsCompared
      sameStatement := verdicts.sameStatement
      superseded := verdicts.superseded
      noSignedInstant := verdicts.noSignedInstant })

/-! ## Evidence -/

/-- What a pass asks of the directory after its scan: its second instant, `get_attestation`, and
    whether `record_hard_case` takes an event. -/
structure Directory where
  now : Int
  getAttestation : String → Except Unit (Option Attestation)
  recordHardCase : HardCaseEvent → Bool

/-- A federation-tier row that is live at `now`. -/
def isLive (now : Int) (a : Attestation) : Bool :=
  a.tier == federation && decide (a.assertedAt ≤ now) && a.expiresAt.all fun e => decide (now < e)

/-- `verify_candidate`. -/
def verifyCandidate (L : Lib) (dir : Directory) (c : ClaimContradiction) :
    Except Unit (Option Contradiction) := do
  let a ← dir.getAttestation c.attestationIds.1
  let b ← dir.getAttestation c.attestationIds.2
  match a, b with
  | some a, some b =>
    if isLive dir.now a && isLive dir.now b then
      return some (Contradiction.new L a b c.coordinate.dimension c.signedAt)
    else return none
  | _, _ => return none

/-- What a pass makes of one candidate: evidence, or one more that is not verified. -/
def recordVerified (L : Lib) (dir : Directory) (report : DetectorReport)
    (c : ClaimContradiction) : DetectorReport :=
  match verifyCandidate L dir c with
  | .ok (some contradiction) =>
    { report with contradictions := report.contradictions ++ [contradiction] }
  | _ => { report with candidatesUnverified := report.candidatesUnverified + 1 }

/-- `run_pass_with`: the state after it and, unless its scan failed, its report and the hard cases
    that were recorded. -/
def verifiedPass (L : Lib) (toRfc3339 : Int → String) (maxRows : Nat) (env : PassEnv κ)
    (dir : Directory) (state : ScanState κ) :
    ScanState κ × Option (DetectorReport × List HardCaseEvent) :=
  let (state, report?) := runPassWith L maxRows env state
  (state, report?.map fun report =>
    let report := state.index.verdicts.candidates.foldl (recordVerified L dir) report
    (report,
      (report.contradictions.map (·.hardCase toRfc3339 dir.now)).filter dir.recordHardCase))

end Passes

end CirisServer.Equivocation
