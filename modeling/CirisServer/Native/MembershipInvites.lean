import CirisServer.Native.Json

/-!
# Invitations into a group

`src/membership_invites.rs`: the proposals that invite somebody into a group, found by paging
through the node's attestation log, the state that the rows about each of them put it in, and
the two places where those who accepted are seated.

What edge reads of a row and what the directory answers are parameters.
-/

namespace CirisServer.Invites

inductive GroupScope where
  | family
  | community
  | affiliations
deriving DecidableEq

/-- What is read of an attestation. -/
structure Row where
  attestationId : String
  attestingKeyId : String
  attestationType : String
  attestationEnvelope : Json
  subjectKeyIds : List String
  assertedAt : Int
  expiresAt : Option Int
deriving DecidableEq

/-- `ciris_edge::membership`, and the id of a pair's room (`ciris_edge::chat`). -/
structure Edge where
  dimensionOf : Row → Option String
  scopeOf : Row → Option GroupScope
  targetMember : GroupScope → String
  proposalDimension : String
  acceptanceDimension : String
  declineDimension : String
  pairCommunityKeyId : String → String → String

/-- The federation directory, and what it answers. -/
structure Directory where
  /-- Every row that is held, in the order of the log. -/
  log : List Row
  /-- Why the page that starts at this row cannot be read. -/
  pageError : Nat → Option String
  attestationsToAll : String → Except String (List Row)
  listAttestationsReferencing : String → Except String (List Row)
  /-- Who is an active member of a group. -/
  members : String → List String
  /-- Why the roster of a group cannot be read. -/
  rosterError : String → Option String
  admissionIdentityForWriter : String → Except String String
  /-- `membership::reply`, of an acceptance. -/
  reply : String → Except String Unit

namespace Directory

/-- At most `limit` rows, from the place that the last page ended at. -/
def listAttestationsSince (dir : Directory) (since limit : Nat) : Except String (List Row) :=
  match dir.pageError since with
  | some e => .error e
  | none => .ok ((dir.log.drop since).take limit)

def activeCommunityMembers (dir : Directory) (group : String) : Except String (List String) :=
  match dir.rosterError group with
  | some e => .error e
  | none => .ok (dir.members group)

end Directory

variable (edge : Edge) (dir : Directory)

def envelopeStr (row : Row) (member : String) : Option String :=
  (row.attestationEnvelope.get? member).bind Json.asStr

def groupOf (row : Row) (scope : GroupScope) : Option String :=
  envelopeStr row (edge.targetMember scope)

/-- The row is a proposal into the group. -/
def isProposalInto (scope : GroupScope) (group : String) (row : Row) : Bool :=
  edge.dimensionOf row == some edge.proposalDimension && edge.scopeOf row == some scope &&
    groupOf edge row scope == some group

def pageSize : Nat := 512

/-- The loop of `proposals_into`, from a place in the log, for `fuel` pages. -/
def proposalsFrom (scope : GroupScope) (group : String) : Nat → Nat → Except String (List Row)
  | 0, _ => .ok []
  | fuel + 1, since => do
    let page ← (dir.listAttestationsSince since pageSize).mapError
      ("list_attestations_since: " ++ ·)
    let out := page.filter (isProposalInto edge scope group)
    if page.length = pageSize then
      return out ++ (← proposalsFrom scope group fuel (since + page.length))
    else return out

/-- Each page but the last one is full, so there are no more pages than rows, and one. -/
def proposalsInto (scope : GroupScope) (group : String) : Except String (List Row) :=
  (proposalsFrom edge dir scope group (dir.log.length + 1) 0).map fun out =>
    out.mergeSort fun p q => p.assertedAt ≤ q.assertedAt

/-- One round of the loop of `replies_to`. -/
def replyStep (proposalId : String) (found : Option Row × Option Row) (r : Row) :
    Option Row × Option Row :=
  if envelopeStr r "references_attestation_id" ≠ some proposalId then found
  else if edge.dimensionOf r = some edge.acceptanceDimension then (some r, found.2)
  else if edge.dimensionOf r = some edge.declineDimension then (found.1, some r)
  else found

/-- The acceptance and the decline among the invitee's replies, the last one read of each. -/
def repliesTo (invitee proposalId : String) : Except String (Option Row × Option Row) := do
  let rows ← (dir.attestationsToAll invitee).mapError
    (("list_attestations_for(" ++ invitee ++ "): ") ++ ·)
  return rows.foldl (replyStep edge proposalId) (none, none)

def withdrawn (proposalId : String) : Except String Bool := do
  let rows ← (dir.listAttestationsReferencing proposalId).mapError
    (("list_attestations_referencing(" ++ proposalId ++ "): ") ++ ·)
  return rows.any (·.attestationType = "withdraws")

inductive InviteState where
  | pending
  | accepted
  | joined
  | declined
  | expired
  | withdrawn
deriving DecidableEq

structure InviteView where
  proposalId : String
  inviteeKeyId : String
  role : Option String
  proposerKeyId : String
  proposedAt : Rfc3339
  expiresAt : Option Rfc3339
  state : InviteState
  replyId : Option String
deriving DecidableEq

/-- The state of a proposal, from the replies to it. Whether it was withdrawn is looked up
    only where there are none. -/
def inviteState (now : Int) (active : List String) (p : Row) (invitee : String)
    (accepted declined : Option Row) : Except String InviteState := do
  let acceptedInTime := accepted.any fun a => p.expiresAt.all fun t => a.assertedAt ≤ t
  if active.contains invitee && accepted.isSome then return .joined
  else if acceptedInTime then return .accepted
  else if accepted.isSome then return .expired
  else if declined.isSome then return .declined
  else if ← withdrawn dir p.attestationId then return .withdrawn
  else if p.expiresAt.any fun t => t ≤ now then return .expired
  else return .pending

/-- One round of the loop of `group_invites`. -/
def inviteOf (now : Int) (active : List String) (p : Row) :
    Except String (Option (InviteView × Option Row)) :=
  match p.subjectKeyIds.head? with
  | none => .ok none
  | some invitee => do
    let (accepted, declined) ← repliesTo edge dir invitee p.attestationId
    let state ← inviteState dir now active p invitee accepted declined
    let view : InviteView :=
      { proposalId := p.attestationId
        inviteeKeyId := invitee
        role := envelopeStr p "role"
        proposerKeyId := p.attestingKeyId
        proposedAt := .ofInstant p.assertedAt
        expiresAt := p.expiresAt.map Rfc3339.ofInstant
        state
        replyId := (accepted.or declined).map Row.attestationId }
    return some (view, accepted)

def groupInvites (now : Int) (scope : GroupScope) (group : String) (active : List String) :
    Except String (List (InviteView × Option Row)) := do
  let proposals ← proposalsInto edge dir scope group
  let out ← proposals.mapM (inviteOf edge dir now active)
  return out.filterMap id

/-! ## Seating -/

/-- `WidenOutcome`, of which only a seat that is given is told apart. -/
inductive WidenOutcome where
  | widened (scope : GroupScope) (groupKeyId memberKeyId : String)
  | other
deriving DecidableEq

/-- The members whom edge's `widen_on_acceptance` seats, over the acceptances it is called with. -/
def seated (widenOnAcceptance : Row → Except String WidenOutcome) (attempts : List Row) :
    List String :=
  attempts.filterMap fun acceptance =>
    match widenOnAcceptance acceptance with
    | .ok (.widened _ _ memberKeyId) => some memberKeyId
    | .ok .other | .error _ => none

/-- The acceptances that `widen_held_acceptances` attempts, with the views they are listed in. -/
def heldAcceptances (invites : List (InviteView × Option Row)) : List (InviteView × Row) :=
  invites.filterMap fun x => if x.1.state = .accepted then x.2.map (x.1, ·) else none

/-- `widen_held_acceptances`. -/
def widenHeldAcceptances (widenOnAcceptance : Row → Except String WidenOutcome)
    (invites : List (InviteView × Option Row)) : List String :=
  seated widenOnAcceptance ((heldAcceptances invites).map Prod.snd)

/-- `attestations_by_all`. -/
abbrev AttestationsByAll := String → Except String (List Row)

/-- The proposals of these authors that have not run out. -/
def ownProposals (byAll : AttestationsByAll) (now : Int) (authors : List String) :
    Except String (List Row) := do
  let rows ← authors.mapM byAll
  return rows.flatten.filter fun p =>
    edge.dimensionOf p == some edge.proposalDimension && p.expiresAt.all fun t => now < t

/-- The acceptances that `widen_own_accepted_proposals` attempts, with the proposals they are to.
    It has none without the owner's pen, or if the proposals cannot be read. -/
def sweptAcceptances (byAll : AttestationsByAll) (now : Int) (capsule : Option String)
    (nodeKeyId : String) : List (Row × Row) :=
  match capsule with
  | none => []
  | some ownerKeyId =>
    match ownProposals edge byAll now [ownerKeyId, nodeKeyId] with
    | .error _ => []
    | .ok proposals =>
      proposals.filterMap fun p => do
        let invitee ← p.subjectKeyIds.head?
        match repliesTo edge dir invitee p.attestationId with
        | .ok (some acceptance, _) => some (p, acceptance)
        | .ok (none, _) | .error _ => none

/-- `widen_own_accepted_proposals`. -/
def widenOwnAcceptedProposals (widenOnAcceptance : Row → Except String WidenOutcome)
    (byAll : AttestationsByAll) (now : Int) (capsule : Option String) (nodeKeyId : String) :
    List String :=
  seated widenOnAcceptance ((sweptAcceptances edge dir byAll now capsule nodeKeyId).map Prod.snd)

end CirisServer.Invites
