import CirisServer.ForStd.List
import CirisServer.Native.OwnerRequests

/-!
# What a bundle leaves behind

A bundle that is refused writes no attestation: what it may leave is the proof of its signer, which
goes in before it is known whether the signer is the owner. From a bundle that is applied, every row
is the signer's, who is the owner or acts for them.

Key results:
- `admitProof_proofOnly`: the proof of the signer, and nothing else
- `applySigned_rightful`: the rows that are written
- `apply_accounts`: what a bundle leaves behind
-/

namespace CirisServer.OwnerRequests

open SetupRoot (IdentityOccurrence RosterProof SignedOwnerBinding OwnershipError Substrate
  Lib rosterProofAbout adoptOwnerBinding)

variable {D : Doors} {P : Substrate} {L : Lib} {bundle : SignedOwnerRequests}
  {s s' s'' : Directory} {node signer : String}

/-! ## The proof of the signer -/

/-- The key record is the signer's own, or that of the identity in the roster proof. -/
def ProofKey (bundle : SignedOwnerRequests) (record : SetupRoot.KeyRecord) : Prop :=
  (bundle.signerKeyRecord = some record ∧ record.keyId = bundle.signerKeyId) ∨
    ∃ proof, bundle.rosterProof = some proof ∧ record = proof.identityKeyRecord

/-- The occurrence is one of the roster proof, of the signer under its identity. -/
def ProofOccurrence (bundle : SignedOwnerRequests) (occurrence : IdentityOccurrence) : Prop :=
  occurrence.occurrenceKeyId = bundle.signerKeyId ∧
    ∃ proof, bundle.rosterProof = some proof ∧ occurrence ∈ proof.occurrences ∧
      occurrence.identityKeyId = proof.identityKeyRecord.keyId

/-- The directory has nothing new but the proof of the bundle's signer, admitted by its doors. -/
structure ProofOnly (D : Doors) (bundle : SignedOwnerRequests) (s s' : Directory) : Prop where
  keys : s.keys.GrownBy (fun record => ProofKey bundle record ∧
    ∃ s₀, D.registerFederationKey s₀ record = .ok ()) s'.keys
  occurrences : s.occurrences.GrownBy (fun occurrence => ProofOccurrence bundle occurrence ∧
    ∃ s₀, D.putIdentityOccurrence s₀ occurrence = .ok ()) s'.occurrences
  attestations : s'.attestations = s.attestations

theorem ProofOnly.refl (D : Doors) (bundle : SignedOwnerRequests) (s : Directory) :
    ProofOnly D bundle s s :=
  ⟨.refl _ _, .refl _ _, rfl⟩

theorem ProofOnly.trans (h : ProofOnly D bundle s s') (h' : ProofOnly D bundle s' s'') :
    ProofOnly D bundle s s'' :=
  ⟨h.keys.trans h'.keys, h.occurrences.trans h'.occurrences,
    h'.attestations.trans h.attestations⟩

theorem admitKey_proofOnly {record : SetupRoot.KeyRecord} (hrecord : ProofKey bundle record) :
    ProofOnly D bundle s (admitKey D s record) := by
  rw [admitKey]
  split
  · next hdoor =>
    rw [Directory.insertKey]
    split
    · exact .refl D bundle s
    · exact ⟨.concat _ ⟨hrecord, s, hdoor⟩, .refl _ _, rfl⟩
  · exact .refl D bundle s

theorem insertOccurrence_proofOnly {occurrence : IdentityOccurrence}
    (hoccurrence : ProofOccurrence bundle occurrence)
    (hdoor : D.putIdentityOccurrence s occurrence = .ok ()) :
    ProofOnly D bundle s (s.insertOccurrence occurrence) := by
  rw [Directory.insertOccurrence]
  split
  · exact .refl D bundle s
  · exact ⟨.refl _ _, .concat _ ⟨hoccurrence, s, hdoor⟩, rfl⟩

/-- However many occurrences go in before one is refused, they are of the proof. -/
theorem admitOccurrences_proofOnly {occurrences : List IdentityOccurrence}
    (h : ∀ o ∈ occurrences, ProofOccurrence bundle o) :
    ProofOnly D bundle s (admitOccurrences D s occurrences).1 := by
  induction occurrences generalizing s with
  | nil => exact .refl D bundle s
  | cons occurrence rest ih =>
    obtain ⟨hfirst, hrest⟩ := List.forall_mem_cons.mp h
    rw [admitOccurrences]
    split
    · exact .refl D bundle s
    · next hdoor => exact (insertOccurrence_proofOnly hfirst hdoor).trans (ih hrest)

theorem rosterProofAbout_eq_some {proof proof' : RosterProof}
    (h : rosterProofAbout proof signer = some proof') : proof' = proof ∧
      ∀ o ∈ proof.occurrences,
        o.occurrenceKeyId = signer ∧ o.identityKeyId = proof.identityKeyRecord.keyId := by
  simp only [rosterProofAbout] at h
  split at h
  · next hall =>
    refine ⟨(Option.some.inj h).symm, fun o ho => ?_⟩
    simpa using List.all_eq_true.mp hall.2.2.2 o ho
  · cases h

theorem admitRosterProof_proofOnly : ProofOnly D bundle s (admitRosterProof D bundle s).1 := by
  rw [admitRosterProof]
  split
  · exact .refl D bundle s
  · next proof hproof =>
    obtain ⟨given, hgiven, habout⟩ := Option.bind_eq_some_iff.mp hproof
    obtain ⟨rfl, hoccurrences⟩ := rosterProofAbout_eq_some habout
    have hkey : ProofKey bundle proof.identityKeyRecord := Or.inr ⟨proof, hgiven, rfl⟩
    refine (admitKey_proofOnly hkey).trans (admitOccurrences_proofOnly fun o ho => ?_)
    exact ⟨(hoccurrences o ho).1, proof, hgiven, ho, (hoccurrences o ho).2⟩

/-- **The proof**, and nothing else, goes in before it is known who signed. -/
theorem admitProof_proofOnly : ProofOnly D bundle s (admitProof D bundle s).1 := by
  rw [admitProof]
  split
  · exact admitRosterProof_proofOnly
  · next record hrecord =>
    split_ifs with hother
    · exact .refl D bundle s
    · exact (admitKey_proofOnly (Or.inl ⟨hrecord, not_not.mp hother⟩)).trans
        admitRosterProof_proofOnly

/-! ## The rows -/

/-- The owner's acceptance of a trust root, which is about the root. -/
def RootAcceptance (D : Doors) (row : Attestation) : Prop :=
  row.attestationType = SetupRoot.delegatesTo ∧ dimensionOf row = some D.trustAcceptsDimension

/-- The row is the signer's, and about the node or the acceptance of a root. -/
def Rightful (D : Doors) (node signer : String) (row : Attestation) : Prop :=
  row.attestingKeyId = signer ∧ (row.attestedKeyId = node ∨ RootAcceptance D row)

/-- Rightful rows are written, which the directory's door has admitted. -/
def RightfulOnly (D : Doors) (node signer : String) (s s' : Directory) : Prop :=
  s.attestations.GrownBy (fun row => Rightful D node signer row ∧
    ∃ s₀, D.putAttestationAuthored s₀ row = .ok ()) s'.attestations

theorem put_rightful {row : Attestation} (hrow : Rightful D node signer row) :
    RightfulOnly D node signer s (put D s row).1 := by
  rw [put]
  split
  · exact .refl _ _
  · next hdoor =>
    rw [Directory.insertAttestation]
    split
    · exact .refl _ _
    · exact .concat _ ⟨hrow, s, hdoor⟩

/-- What is shaped as its kind is rightful. -/
theorem rightful_of_shaped {kind : String} {a : Attestation}
    (h : shaped D node signer kind a = true) : Rightful D node signer a := by
  rw [shaped, Bool.and_eq_true, decide_eq_true_eq] at h
  refine ⟨h.1, ?_⟩
  have hkind := h.2
  split_ifs at hkind with htrust hroot
  · simp only [Bool.and_eq_true, decide_eq_true_eq] at hkind
    exact Or.inl hkind.1.1
  · simp only [Bool.and_eq_true, decide_eq_true_eq] at hkind
    exact Or.inr hkind

theorem applyRow_rightful {row : SignedRequestRow} :
    RightfulOnly D node signer s (applyRow D s node signer row).1 := by
  rw [applyRow]
  split
  · exact .refl _ _
  · next hshaped =>
    rw [Bool.not_eq_true', Bool.not_eq_false] at hshaped
    have hput := put_rightful (s := s) (rightful_of_shaped hshaped)
    split <;> next heq => rw [heq] at hput; exact hput

theorem applyRows_rightful {rows : List SignedRequestRow} :
    RightfulOnly D node signer s (applyRows D s node signer rows).1 := by
  induction rows generalizing s with
  | nil => exact .refl _ _
  | cons row rest ih => exact List.GrownBy.trans applyRow_rightful ih

/-! ## The announcement -/

theorem registerUserKey_attestations {binding : SignedOwnerBinding} :
    (registerUserKey D P s binding).1.attestations = s.attestations := by
  rw [registerUserKey]
  split
  · rfl
  · split
    · rfl
    · rfl
    · rw [Directory.insertKey]
      split <;> rfl

/-- The mirror of a binding that is adopted names its signer. -/
theorem attestingKeyId_of_adopt {binding : SignedOwnerBinding} {cohortScope : String}
    {row : SetupRoot.OwnerBindingRow}
    (h : adoptOwnerBinding P L binding cohortScope = .ok row) :
    row.attestingKeyId = binding.attestingKeyId := by
  obtain ⟨adopted, -, h⟩ := except_bind_ok h
  obtain ⟨_, hsame, h⟩ := except_bind_ok h
  obtain ⟨_, -, h⟩ := except_bind_ok h
  obtain ⟨_, -, h⟩ := except_bind_ok h
  obtain ⟨_, -, h⟩ := except_bind_ok h
  obtain ⟨_, -, h⟩ := except_bind_ok h
  obtain ⟨_, -, h⟩ := except_bind_ok h
  cases h
  exact of_decide_eq_true (ensure_eq_ok_iff.mp hsame)

theorem applySignedOwnerBinding_rightful {binding : SignedOwnerBinding} {cohortScope : String} :
    RightfulOnly D node binding.attestingKeyId s
      (applySignedOwnerBinding D P L s node cohortScope binding).1 := by
  simp only [applySignedOwnerBinding]
  split
  · exact .refl _ _
  have hregister : (registerUserKey D P s binding).1.attestations = s.attestations :=
    registerUserKey_attestations
  split
  · next heq =>
    rw [heq] at hregister
    rw [RightfulOnly, hregister]
    exact .refl _ _
  · next s₁ heq =>
    rw [heq] at hregister
    split
    · rw [RightfulOnly, hregister]
      exact .refl _ _
    · next row hadopt =>
      let mirror : Attestation := ⟨row.attestationId, row.attestingKeyId, node,
        SetupRoot.delegatesTo, D.bindingEnvelope binding⟩
      have hmirror : Rightful D node binding.attestingKeyId mirror :=
        ⟨attestingKeyId_of_adopt hadopt, Or.inl rfl⟩
      have hput := put_rightful (s := s₁) hmirror
      rw [RightfulOnly, hregister] at hput
      exact hput

theorem applyAnnounce_rightful {staged : StagedOwnerBinding} :
    RightfulOnly D node signer s (applyAnnounce D P L s node signer staged).1 := by
  simp only [applyAnnounce]
  split
  · exact .refl _ _
  · next hsigner =>
    split
    · exact .refl _ _
    · have hbinding : RightfulOnly D node staged.ownerBinding.attestingKeyId s
          (applySignedOwnerBinding D P L s node staged.cohortScope staged.ownerBinding).1 :=
        applySignedOwnerBinding_rightful
      rw [not_not.mp hsigner] at hbinding
      split <;> next heq => rw [heq] at hbinding; exact hbinding

/-- **The rows that are written** are rightful. -/
theorem applySigned_rightful {owner : String} :
    RightfulOnly D node bundle.signerKeyId s (applySigned D P L s node owner bundle).1 := by
  simp only [applySigned]
  split
  · exact applyRows_rightful
  · exact List.GrownBy.trans applyAnnounce_rightful applyRows_rightful

/-! ## The bundle -/

/-- The refusal came before any part of the bundle was looked at, or for a key record of another
    key. -/
def Untouched (bundle : SignedOwnerRequests) (refusal : ApplyRefusal) : Prop :=
  (∃ why, refusal = .directory why) ∨ refusal = .unowned ∨ (∃ why, refusal = .wrongNode why) ∨
    (∃ record, bundle.signerKeyRecord = some record ∧ record.keyId ≠ bundle.signerKeyId)

/-- A refusal writes no attestation and leaves nothing but the proof of the signer; of a bundle that
    carries none, or one that is not looked at, it leaves nothing. What is applied is for this node,
    by its owner or by a key that acts for them with the proof, and the rows are rightful. -/
def Accounts (D : Doors) (bundle : SignedOwnerRequests) (s : Directory) :
    Directory × Except ApplyRefusal Applied → Prop
  | (s', .error refusal) =>
    s'.attestations = s.attestations ∧ ProofOnly D bundle s s' ∧
      (bundle.signerKeyRecord = none ∧ bundle.rosterProof = none ∨ Untouched bundle refusal →
        s' = s)
  | (s', .ok applied) =>
    bundle.nodeKeyId = applied.nodeKeyId ∧ D.thisNodeId = .ok applied.nodeKeyId ∧
      D.ownerOf s applied.nodeKeyId = .ok (some applied.ownerKeyId) ∧
      (∃ s₁, ProofOnly D bundle s s₁ ∧ (bundle.signerKeyId = applied.ownerKeyId ∨
        signerActsFor D s₁ bundle.signerKeyId applied.ownerKeyId = true)) ∧
      RightfulOnly D applied.nodeKeyId bundle.signerKeyId s s'

/-- A bundle without a proof, or with the key record of another key, brings nothing in. -/
theorem admitProof_untouched
    (h : bundle.signerKeyRecord = none ∧ bundle.rosterProof = none ∨
      ∃ record, bundle.signerKeyRecord = some record ∧ record.keyId ≠ bundle.signerKeyId) :
    (admitProof D bundle s).1 = s := by
  rcases h with ⟨hrecord, hproof⟩ | ⟨record, hrecord, hother⟩
  · rw [admitProof, hrecord]
    simp only [admitRosterProof, hproof, Option.bind_none]
  · rw [admitProof, hrecord]
    simp only [if_pos hother]

theorem admitProof_refused {refusal : ApplyRefusal}
    (h : (admitProof D bundle s).2 = .error refusal) : ∃ why, refusal = .proofRefused why := by
  rw [admitProof] at h
  have hroster {s : Directory} (h : (admitRosterProof D bundle s).2 = .error refusal) :
      ∃ why, refusal = .proofRefused why := by
    rw [admitRosterProof] at h
    split at h
    · cases h
    · obtain ⟨why, -, hwhy⟩ := except_mapError_error h
      exact ⟨_, hwhy.symm⟩
  split at h
  · exact hroster h
  · split_ifs at h
    · exact ⟨_, (Except.error.inj h).symm⟩
    · exact hroster h

/-- A refusal that came with the proof admitted leaves nothing but the proof. -/
theorem accounts_of_admitted {refusal : ApplyRefusal}
    (hrefusal : (∃ why, refusal = .proofRefused why) ∨ ∃ why, refusal = .notTheOwner why) :
    Accounts D bundle s ((admitProof D bundle s).1, .error refusal) := by
  have hproof : ProofOnly D bundle s (admitProof D bundle s).1 := admitProof_proofOnly
  refine ⟨hproof.attestations, hproof, fun huntouched => admitProof_untouched ?_⟩
  rcases huntouched with hnone | ⟨_, h⟩ | h | ⟨_, h⟩ | hother
  · exact Or.inl hnone
  · obtain ⟨_, rfl⟩ | ⟨_, rfl⟩ := hrefusal <;> cases h
  · obtain ⟨_, rfl⟩ | ⟨_, rfl⟩ := hrefusal <;> cases h
  · obtain ⟨_, rfl⟩ | ⟨_, rfl⟩ := hrefusal <;> cases h
  · exact Or.inr hother

/-- **What a bundle leaves behind.** -/
theorem apply_accounts (D : Doors) (P : Substrate) (L : Lib) (bundle : SignedOwnerRequests)
    (s : Directory) : Accounts D bundle s (apply D P L bundle s) := by
  rw [apply]
  split
  · exact ⟨rfl, .refl D bundle s, fun _ => rfl⟩
  next node hnode =>
  split_ifs with hwrong
  · exact ⟨rfl, .refl D bundle s, fun _ => rfl⟩
  split
  · exact ⟨rfl, .refl D bundle s, fun _ => rfl⟩
  · exact ⟨rfl, .refl D bundle s, fun _ => rfl⟩
  next owner howner =>
  have hproof : ProofOnly D bundle s (admitProof D bundle s).1 := admitProof_proofOnly
  have hadmitted {refusal : ApplyRefusal}
      (h : (∃ why, refusal = .proofRefused why) ∨ ∃ why, refusal = .notTheOwner why) :
      Accounts D bundle s ((admitProof D bundle s).1, .error refusal) := accounts_of_admitted h
  split
  · -- the proof is refused
    next s₁ refusal heq =>
    have hrefused := admitProof_refused (congrArg Prod.snd heq)
    rw [heq] at hadmitted
    exact hadmitted (Or.inl hrefused)
  · next s₁ heq =>
    rw [heq] at hproof hadmitted
    dsimp only
    split_ifs with hstranger
    · -- the proof is in, and the signer is not the owner
      exact hadmitted (Or.inr ⟨_, rfl⟩)
    · have hrows : RightfulOnly D node bundle.signerKeyId s₁
          (applySigned D P L s₁ node owner bundle).1 := applySigned_rightful
      rw [RightfulOnly, hproof.attestations] at hrows
      have hacts : bundle.signerKeyId = owner ∨
          signerActsFor D s₁ bundle.signerKeyId owner = true := by
        by_contra hnot
        rw [not_or, Bool.not_eq_true] at hnot
        exact hstranger ⟨hnot.1, by rw [hnot.2]; rfl⟩
      exact ⟨not_not.mp hwrong, hnode, howner, ⟨s₁, hproof, hacts⟩, hrows⟩

/-! ### A stranger's bundle, and the owner's -/

namespace Fixture

/-- The node is the owner's, and the doors admit everything. -/
def doors : Doors where
  thisNodeId := .ok "node"
  ownerOf _ _ := .ok (some "owner")
  lookupPublicKey s keyId := .ok (s.keys.find? (·.keyId = keyId))
  registerFederationKey _ _ := .ok ()
  registerOwnerKey _ _ := .ok ()
  putIdentityOccurrence _ _ := .ok ()
  listIdentityOccurrencesActive s identityKeyId :=
    .ok (s.occurrences.filter (·.identityKeyId = identityKeyId))
  putAttestationAuthored _ _ := .ok ()
  bindingEnvelope _ := .null
  communityTrustDimension := "consent:community_trust:v1"
  trustAcceptsDimension := "trust:accepts:v1"

def substrate : Substrate where
  ownerBindingPurpose := "owner"
  scopesAreInfraOnly _ := true
  canonicalize _ := .ok ()
  verifyHybrid _ := .ok ()
  identityTypeContains := (· = ·)
  bindSubject _ := .ok ()
  canonicalizeRegistration _ := .ok ()
  adopt binding := .ok ⟨"binding", binding.attestingKeyId, "node", "federation",
    SetupRoot.delegatesTo, ["node"]⟩
  assemble _ := .ok ()

def lib : Lib where
  nodeKeyId := "node"
  nodePubkeyEd25519Base64 := ""
  decode _ := .error "not a code"
  cohortScopes := ["self"]
  debug s := s

def owned : Directory := ⟨[⟨"owner", SetupRoot.user⟩], [], []⟩

/-- What the signer hands over for the root that the node accepts. -/
def acceptance (signer : String) : SignedRequestRow where
  requestId := "root_acceptance:node:root"
  kind := kindRootAcceptance
  attestation := ⟨"acceptance", signer, "root", SetupRoot.delegatesTo,
    .ofStrings [("dimension", "trust:accepts:v1")]⟩

def bundleOf (signer : String) : SignedOwnerRequests where
  nodeKeyId := "node"
  signerKeyId := signer
  signerKeyRecord := some ⟨signer, SetupRoot.user⟩
  rosterProof := none
  announce := none
  rows := [acceptance signer]

end Fixture

/-- A stranger's bundle is refused, and their key is in the directory; from the owner's bundle a row
    is written that is about the root and not about this node. -/
theorem stranger_leaves_a_key :
    apply Fixture.doors Fixture.substrate Fixture.lib (Fixture.bundleOf "stranger") Fixture.owned =
      ({ Fixture.owned with
          keys := [⟨"owner", SetupRoot.user⟩, ⟨"stranger", SetupRoot.user⟩] },
        .error (.notTheOwner ("signed by stranger, which is neither this node's owner owner nor " ++
          "a live roster key of it"))) ∧
    apply Fixture.doors Fixture.substrate Fixture.lib (Fixture.bundleOf "owner") Fixture.owned =
      ({ Fixture.owned with attestations := [(Fixture.acceptance "owner").attestation] },
        .ok ⟨"node", "owner", [⟨"root_acceptance:node:root", "applied", "acceptance"⟩]⟩) ∧
    (Fixture.acceptance "owner").attestation.attestedKeyId ≠ "node" := by
  decide +kernel

end CirisServer.OwnerRequests
