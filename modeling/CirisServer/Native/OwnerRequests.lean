import CirisServer.Native.SetupRoot

/-!
# What the owner signed, applied on the node

`src/owner_requests.rs`, `apply`: a bundle that the owner signed on their own device is brought to
the node. The key record and the roster proof of its signer go in first, so that the signer is known
to act for the owner; then each row is checked and put. The doors of the directory, which verify
what they admit, are parameters.
-/

namespace CirisServer.OwnerRequests

open SetupRoot (IdentityOccurrence RosterProof SignedOwnerBinding OwnershipError Substrate
  Lib rosterProofAbout verifySignedOwnerBinding registrationEnvelope adoptOwnerBinding)

/-- What is read here of an attestation. -/
structure Attestation where
  attestationId : String
  attestingKeyId : String
  attestedKeyId : String
  attestationType : String
  attestationEnvelope : Json
deriving DecidableEq

def dimensionOf (a : Attestation) : Option String :=
  (a.attestationEnvelope.get? "dimension").bind Json.asStr

structure StagedOwnerBinding where
  cohortScope : String
  ownerBinding : SignedOwnerBinding
deriving DecidableEq

structure SignedRequestRow where
  requestId : String
  kind : String
  attestation : Attestation
deriving DecidableEq

structure SignedOwnerRequests where
  nodeKeyId : String
  signerKeyId : String
  signerKeyRecord : Option SetupRoot.KeyRecord
  rosterProof : Option RosterProof
  announce : Option StagedOwnerBinding
  rows : List SignedRequestRow
deriving DecidableEq

structure RequestOutcome where
  requestId : String
  outcome : String
  detail : String
deriving DecidableEq

structure Applied where
  nodeKeyId : String
  ownerKeyId : String
  outcomes : List RequestOutcome
deriving DecidableEq

inductive ApplyRefusal where
  | wrongNode (message : String)
  | unowned
  | notTheOwner (message : String)
  | proofRefused (message : String)
  | directory (message : String)
deriving DecidableEq

/-! ## The directory -/

structure Directory where
  keys : List SetupRoot.KeyRecord
  occurrences : List IdentityOccurrence
  attestations : List Attestation
deriving DecidableEq

namespace Directory

def holdsKey (s : Directory) (keyId : String) : Bool := s.keys.any (·.keyId = keyId)

/-- A key that is registered already stays as it is. -/
def insertKey (s : Directory) (record : SetupRoot.KeyRecord) : Directory :=
  if s.holdsKey record.keyId then s else { s with keys := s.keys ++ [record] }

def insertOccurrence (s : Directory) (occurrence : IdentityOccurrence) : Directory :=
  if occurrence ∈ s.occurrences then s
  else { s with occurrences := s.occurrences ++ [occurrence] }

/-- A row that is held already stays as it is. -/
def insertAttestation (s : Directory) (row : Attestation) : Directory :=
  if s.attestations.any (·.attestationId = row.attestationId) then s
  else { s with attestations := s.attestations ++ [row] }

end Directory

/-- What persist answers, over what it holds. -/
structure Doors where
  thisNodeId : Except String String
  ownerOf : Directory → String → Except String (Option String)
  lookupPublicKey : Directory → String → Except String (Option SetupRoot.KeyRecord)
  registerFederationKey : Directory → SetupRoot.KeyRecord → Except String Unit
  /-- The owner's key, by `register_attested_federation_key` or `put_public_key`. -/
  registerOwnerKey : Directory → SignedOwnerBinding → Except String Unit
  putIdentityOccurrence : Directory → IdentityOccurrence → Except String Unit
  listIdentityOccurrencesActive : Directory → String → Except String (List IdentityOccurrence)
  putAttestationAuthored : Directory → Attestation → Except String Unit
  bindingEnvelope : SignedOwnerBinding → Json
  communityTrustDimension : String
  trustAcceptsDimension : String

variable (D : Doors) (P : Substrate) (L : Lib)

/-! ## Who signed -/

/-- What the directory refuses of a key is passed over. -/
def admitKey (s : Directory) (record : SetupRoot.KeyRecord) : Directory :=
  match D.registerFederationKey s record with
  | .ok () => s.insertKey record
  | .error _ => s

/-- The occurrences go in one by one, up to the first that is refused. -/
def admitOccurrences (s : Directory) : List IdentityOccurrence → Directory × Except String Unit
  | [] => (s, .ok ())
  | occurrence :: rest =>
    match D.putIdentityOccurrence s occurrence with
    | .error e => (s, .error e)
    | .ok () => admitOccurrences (s.insertOccurrence occurrence) rest

def admitRosterProof (bundle : SignedOwnerRequests) (s : Directory) :
    Directory × Except ApplyRefusal Unit :=
  match bundle.rosterProof.bind (rosterProofAbout · bundle.signerKeyId) with
  | none => (s, .ok ())
  | some proof =>
    let (s, admitted) := admitOccurrences D (admitKey D s proof.identityKeyRecord) proof.occurrences
    (s, admitted.mapError fun e => .proofRefused ("the roster proof was refused: " ++ e))

/-- The signer's key record, and then the roster proof. -/
def admitProof (bundle : SignedOwnerRequests) (s : Directory) :
    Directory × Except ApplyRefusal Unit :=
  match bundle.signerKeyRecord with
  | none => admitRosterProof D bundle s
  | some record =>
    if record.keyId ≠ bundle.signerKeyId then
      (s, .error (.proofRefused ("the key record is for " ++ record.keyId ++ ", not the signer " ++
        bundle.signerKeyId)))
    else admitRosterProof D bundle (admitKey D s record)

/-- `signer_acts_for` of `src/auth/verify.rs`. -/
def signerActsFor (s : Directory) (signer identityKeyId : String) : Bool :=
  if signer = identityKeyId then true
  else
    match D.listIdentityOccurrencesActive s identityKeyId with
    | .ok occurrences => occurrences.any (·.occurrenceKeyId = signer)
    | .error _ => false

/-! ## The announcement -/

/-- `attest::put`. -/
def put (s : Directory) (row : Attestation) : Directory × Except String String :=
  match D.putAttestationAuthored s row with
  | .error e => (s, .error e)
  | .ok () => (s.insertAttestation row, .ok row.attestationId)

/-- A look-up that fails counts as finding nothing. -/
def holdsUser (s : Directory) (keyId : String) : Bool :=
  match D.lookupPublicKey s keyId with
  | .ok (some existing) => P.identityTypeContains existing.identityType SetupRoot.user
  | .ok none | .error _ => false

/-- `register_user_key`. -/
def registerUserKey (s : Directory) (binding : SignedOwnerBinding) :
    Directory × Except OwnershipError Unit :=
  if holdsUser D P s binding.attestingKeyId then (s, .ok ())
  else
    match registrationEnvelope P binding, D.registerOwnerKey s binding with
    | .error e, _ => (s, .error e)
    | .ok (), .error e => (s, .error (.persist e))
    | .ok (), .ok () => (s.insertKey ⟨binding.attestingKeyId, SetupRoot.user⟩, .ok ())

/-- `apply_signed_owner_binding`. -/
def applySignedOwnerBinding (s : Directory) (node cohortScope : String)
    (binding : SignedOwnerBinding) : Directory × Except OwnershipError String :=
  let L := { L with nodeKeyId := node }
  match verifySignedOwnerBinding P L binding with
  | .error e => (s, .error e)
  | .ok () =>
    match registerUserKey D P s binding with
    | (s, .error e) => (s, .error e)
    | (s, .ok ()) =>
      match adoptOwnerBinding P L binding cohortScope with
      | .error e => (s, .error e)
      | .ok row =>
        let (s, stored) := put D s ⟨row.attestationId, row.attestingKeyId, node,
          SetupRoot.delegatesTo, D.bindingEnvelope binding⟩
        (s, stored.mapError .persist)

/-- `cohort_scope::FEDERATION`. -/
def federation : String := "federation"

def kindAnnounce : String := "announce"
def kindRootAcceptance : String := "root_acceptance"
def kindCommunityTrust : String := "community_trust"

def applyAnnounce (s : Directory) (node signer : String) (staged : StagedOwnerBinding) :
    Directory × RequestOutcome :=
  let id := kindAnnounce ++ ":" ++ node
  let binding := staged.ownerBinding
  if binding.attestingKeyId ≠ signer then
    (s, ⟨id, "refused", "the binding is signed by another key"⟩)
  else if staged.cohortScope ≠ federation then
    (s, ⟨id, "refused", "an announcement is a federation-scope binding"⟩)
  else
    match applySignedOwnerBinding D P L s node staged.cohortScope binding with
    | (s, .ok attestationId) => (s, ⟨id, "applied", attestationId⟩)
    | (s, .error e) => (s, ⟨id, "refused", e.display⟩)

/-! ## The rows -/

/-- `attestation_type::SCORES`. -/
def scores : String := "scores"

/-- What the row must be, by its kind. -/
def shaped (node signer kind : String) (a : Attestation) : Bool :=
  a.attestingKeyId = signer &&
    if kind = kindCommunityTrust then
      a.attestedKeyId = node && a.attestationType = scores &&
        dimensionOf a = some D.communityTrustDimension
    else if kind = kindRootAcceptance then
      a.attestationType = SetupRoot.delegatesTo && dimensionOf a = some D.trustAcceptsDimension
    else false

def applyRow (s : Directory) (node signer : String) (row : SignedRequestRow) :
    Directory × RequestOutcome :=
  if !shaped D node signer row.kind row.attestation then
    (s, ⟨row.requestId, "refused",
      "not a " ++ row.kind ++ " row about this node signed by " ++ signer⟩)
  else
    match put D s row.attestation with
    | (s, .ok id) => (s, ⟨row.requestId, "applied", id⟩)
    | (s, .error e) => (s, ⟨row.requestId, "refused", e⟩)

def applyRows (s : Directory) (node signer : String) :
    List SignedRequestRow → Directory × List RequestOutcome
  | [] => (s, [])
  | row :: rest =>
    let (s, outcome) := applyRow D s node signer row
    let (s, outcomes) := applyRows s node signer rest
    (s, outcome :: outcomes)

/-- What is done once it is known that the owner has signed. -/
def applySigned (s : Directory) (node owner : String) (bundle : SignedOwnerRequests) :
    Directory × Applied :=
  let signer := bundle.signerKeyId
  let (s, announced) := match bundle.announce with
    | none => (s, [])
    | some staged =>
      let (s, outcome) := applyAnnounce D P L s node signer staged
      (s, [outcome])
  let (s, outcomes) := applyRows D s node signer bundle.rows
  (s, ⟨node, owner, announced ++ outcomes⟩)

/-! ## The bundle -/

/-- `apply`. -/
def apply (bundle : SignedOwnerRequests) (s : Directory) :
    Directory × Except ApplyRefusal Applied :=
  match D.thisNodeId with
  | .error e => (s, .error (.directory e))
  | .ok node =>
    if bundle.nodeKeyId ≠ node then
      (s, .error (.wrongNode ("signed for " ++ bundle.nodeKeyId ++ ", and this node is " ++ node)))
    else
      match D.ownerOf s node with
      | .error e => (s, .error (.directory ("owner_of(" ++ node ++ "): " ++ e)))
      | .ok none => (s, .error .unowned)
      | .ok (some owner) =>
        let signer := bundle.signerKeyId
        match admitProof D bundle s with
        | (s, .error e) => (s, .error e)
        | (s, .ok ()) =>
          if signer ≠ owner ∧ !signerActsFor D s signer owner then
            (s, .error (.notTheOwner ("signed by " ++ signer ++
              ", which is neither this node's owner " ++ owner ++ " nor a live roster key of it")))
          else
            let (s, applied) := applySigned D P L s node owner bundle
            (s, .ok applied)

end CirisServer.OwnerRequests
