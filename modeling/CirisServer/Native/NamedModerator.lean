import CirisServer.Native.ComposePolicy
import Mathlib.Data.List.Sort

/-!
# The moderator that a community must have

`src/safety/named.rs` and the reading of the track record in `src/safety/moderation.rs`: a community
without a live moderator promotes the member with the best record, and is quiesced if the records
name nobody or cannot be read.
-/

namespace CirisServer.NamedModerator

/-- A row of the directory. -/
abbrev Attestation := ComposePolicy.Attestation

structure CommunityMember where
  keyId : String
  joinedAt : Int
deriving DecidableEq

/-- What is read of the federation directory. A read can fail, with the text of its failure. -/
structure Directory (C : Type) where
  lookupCommunity : String → Except String (Option C)
  effectiveRoster : C → Except String (List CommunityMember)
  /-- `is_named_moderator`, of a key, in a community, for the duty to moderate. -/
  isNamedModerator : String → String → Except String Bool
  isStewardBound : String → Except String Bool
  attestationsByAll : String → Except String (List Attestation)

variable {C : Type}

/-- `map_err`, with the name of the read in front. -/
def labelled {α : Type} (what : String) : Except String α → Except String α :=
  Except.mapError fun e => what ++ ": " ++ e

/-! ## The track record -/

def moderationDimensionPrefix : String := "moderation:"

def trackRecordDimensionPrefix : String := "moderation_track_record:"

/-- `track_record_row_counts`. -/
def trackRecordRowCounts (communityKeyId : String) (row : Attestation) : Bool :=
  if row.attestationType ≠ ComposePolicy.scoresType then false
  else
    match ComposePolicy.envelopeStr row "dimension" with
    | none => false
    | some dimension =>
      let isModSignal := ComposePolicy.startsWith dimension moderationDimensionPrefix ||
        ComposePolicy.startsWith dimension trackRecordDimensionPrefix
      if !isModSignal then false
      else if ComposePolicy.envelopeStr row "community_id" ≠ some communityKeyId then false
      else (ComposePolicy.envelopeStr row "witness_relation").getD "external" ≠ "self"

inductive MeritUnreadable where
  | noDirectory
  | ledgerReadFailed (detail : String)
  | federationTierClosed (communityKeyId : String)
deriving DecidableEq

/-- `read_track_record`. -/
def readTrackRecord (D : Directory C) (memberKeyId communityKeyId : String) :
    Except MeritUnreadable Nat :=
  match D.attestationsByAll memberKeyId with
  | .error e => .error (.ledgerReadFailed e)
  | .ok rows => .ok (rows.filter (trackRecordRowCounts communityKeyId)).length

/-! ## The live moderator -/

/-- The members are asked in the order of the roster, up to the first moderator. -/
def anyNamed (D : Directory C) (communityKeyId : String) : List CommunityMember → Except String Bool
  | [] => .ok false
  | m :: rest => do
    if ← labelled "is_named_moderator" (D.isNamedModerator m.keyId communityKeyId) then .ok true
    else anyNamed D communityKeyId rest

/-- `community_has_live_moderator`. -/
def communityHasLiveModerator (D : Directory C) (communityKeyId : String) : Except String Bool := do
  match ← labelled "lookup_community" (D.lookupCommunity communityKeyId) with
  | none => .ok false
  | some community =>
    let roster ← labelled "effective_roster" (D.effectiveRoster community)
    anyNamed D communityKeyId roster

/-! ## Promotion by merit -/

structure RankedMember where
  keyId : String
  trackRecord : Nat
  joinedAt : Int
deriving DecidableEq

inductive PromotionOutcome where
  | candidate (keyId : String) (trackRecord : Nat)
  | noQualifiedCandidate
  | meritUnreadable (reason : MeritUnreadable)
deriving DecidableEq

/-- The eligible members with their records, in the order of the roster, or the reason why a
    record cannot be read. -/
def score (D : Directory C) (communityKeyId : String) :
    List CommunityMember → Except String (Except MeritUnreadable (List RankedMember))
  | [] => .ok (.ok [])
  | m :: rest => do
    let eligible ← labelled "is_steward_bound" (D.isStewardBound m.keyId)
    if !eligible then score D communityKeyId rest
    else
      match readTrackRecord D m.keyId communityKeyId with
      | .error reason => .ok (.error reason)
      | .ok n =>
        let scored ← score D communityKeyId rest
        .ok (scored.map (⟨m.keyId, n, m.joinedAt⟩ :: ·))

/-- The best record first, of equal ones the earliest member, and of these the smallest key. -/
def ranksBefore (a b : RankedMember) : Prop :=
  b.trackRecord < a.trackRecord ∨ a.trackRecord = b.trackRecord ∧
    (a.joinedAt < b.joinedAt ∨ a.joinedAt = b.joinedAt ∧ a.keyId ≤ b.keyId)

instance : DecidableRel ranksBefore := fun a b =>
  inferInstanceAs (Decidable (b.trackRecord < a.trackRecord ∨ a.trackRecord = b.trackRecord ∧
    (a.joinedAt < b.joinedAt ∨ a.joinedAt = b.joinedAt ∧ a.keyId ≤ b.keyId)))

/-- The outcome of the ranking, with the answer whether there is a live moderator, which is only
    asked for if there is no record at all. -/
def rank (communityKeyId : String) (hasLive : Except String Bool) (ranked : List RankedMember) :
    Except String PromotionOutcome := do
  if ranked = [] then return .noQualifiedCandidate
  if ranked.all (·.trackRecord = 0) then
    if !(← hasLive) then return .meritUnreadable (.federationTierClosed communityKeyId)
  match (ranked.filter (0 < ·.trackRecord)).insertionSort ranksBefore with
  | [] => return .noQualifiedCandidate
  | winner :: _ => return .candidate winner.keyId winner.trackRecord

/-- `auto_promotion_outcome`. -/
def autoPromotionOutcome (D : Directory C) (communityKeyId : String) :
    Except String PromotionOutcome := do
  match ← labelled "lookup_community" (D.lookupCommunity communityKeyId) with
  | none => return .noQualifiedCandidate
  | some community =>
    let roster ← labelled "effective_roster" (D.effectiveRoster community)
    match ← score D communityKeyId roster with
    | .error reason => return .meritUnreadable reason
    | .ok ranked => rank communityKeyId (communityHasLiveModerator D communityKeyId) ranked

/-! ## The verdict -/

def hardCaseCommunityUnmoderated : String := "community_unmoderated"

def hardCaseCommunityModeratorPromoted : String := "community_moderator_promoted"

def hardCaseCommunityMeritUnreadable : String := "community_merit_unreadable"

inductive ExistenceVerdict where
  | operate (moderatorPresent : Bool)
  | autoPromote (candidateKeyId hardCase : String)
  | quiesce (hardCase : String)
deriving DecidableEq

def verdictOf : PromotionOutcome → ExistenceVerdict
  | .candidate keyId _ => .autoPromote keyId hardCaseCommunityModeratorPromoted
  | .noQualifiedCandidate => .quiesce hardCaseCommunityUnmoderated
  | .meritUnreadable _ => .quiesce hardCaseCommunityMeritUnreadable

/-- `existence_verdict`. -/
def existenceVerdict (D : Directory C) (communityKeyId : String) :
    Except String ExistenceVerdict := do
  if ← communityHasLiveModerator D communityKeyId then return .operate true
  else return verdictOf (← autoPromotionOutcome D communityKeyId)

end CirisServer.NamedModerator
