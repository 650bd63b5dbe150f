import CirisServer.Native.MeshGenesis

/-!
# The quorum of a genesis bundle

The authorizations of a bundle come from distinct holder ids, and each is checked against
the first carried record with its id. Nothing compares the keys of the records: two holder
ids that carry one key let that key sign twice. Records that repeat an id do no harm, since
only the first is used and the others raise the majority.

Key results:
- `verifyBundle_ok_iff`: what an accepted bundle has, check by check
- `genesis_quorum_iff`: exactly when acceptance proves a quorum of different keys
-/

namespace CirisServer

namespace GenesisBundle

/-! ## What acceptance means -/

variable (L : GenesisLib) (bundle : GenesisBundle)

/-- The bundle passes every check of `verify_bundle`. -/
structure Admissible (c : CarriedAttestation) (d : String) (m : Nat) : Prop where
  holders : bundle.holders ≠ []
  serveNodes : bundle.serveNodes ≠ []
  blessed : ∀ n ∈ bundle.serveNodes, carriesInfraServe L n = true
  rooted : ∀ n ∈ bundle.serveNodes, n.scrubKeyId ∈ bundle.holderIds
  charter : bundle.charterOf = some c
  signer : c.attestingKeyId ∈ bundle.holderIds
  scopes : ∀ want ∈ [infraServe, infraAttest], scopeHas c.attestationEnvelope want = true
  preRotation : isCommitment c.preRotation = true
  granted : ∀ n ∈ bundle.serveNodes,
    ∃ a ∈ bundle.attestations, grantsServe c.attestingKeyId n a = true
  policy : bundle.policyM L = some m
  digest : L.authorizationDigest bundle = .ok d
  signed : ∀ auth ∈ bundle.authorizations, ∃ holder, bundle.holderOf auth = some holder ∧
    L.verifyHybrid d auth.signatureClassical auth.signaturePqc holder.pubkeyEd25519Base64
      holder.pubkeyMlDsa65Base64 = .ok ()
  distinct : (bundle.authorizations.map (·.holderKeyId)).Nodup
  quorum : max m (L.strictMajority bundle.holders.length) ≤ bundle.authorizations.length

variable {L bundle}

theorem checkServeNode_ok_iff {n : KeyRecord} {u : Unit} :
    bundle.checkServeNode L n = .ok u ↔
      carriesInfraServe L n = true ∧ n.scrubKeyId ∈ bundle.holderIds := by
  simp only [checkServeNode, except_bind_eq_ok_iff, ensure_eq_ok_iff, List.contains_iff_mem,
    exists_const]

theorem checkCharter_ok_iff {c : CarriedAttestation} {u : Unit} :
    bundle.checkCharter c = .ok u ↔
      c.attestingKeyId ∈ bundle.holderIds ∧
      (∀ want ∈ [infraServe, infraAttest], scopeHas c.attestationEnvelope want = true) ∧
      isCommitment c.preRotation = true := by
  simp only [checkCharter, except_bind_eq_ok_iff, except_forM_eq_ok_iff, ensure_eq_ok_iff,
    List.contains_iff_mem, exists_const]

theorem checkGrant_ok_iff {signer : String} {n : KeyRecord} {u : Unit} :
    bundle.checkGrant signer n = .ok u ↔
      ∃ a ∈ bundle.attestations, grantsServe signer n a = true := by
  simp only [checkGrant, ensure_eq_ok_iff, List.any_eq_true]

/-- The authorization loop passes exactly if each one verifies against its holder's record and
    no holder comes twice, before or within the list. -/
theorem checkAuthorizations_ok_iff {d : String} {auths : List GenesisAuthorization}
    {seen : List String} {u : Unit} :
    bundle.checkAuthorizations L d auths seen = .ok u ↔
      (∀ auth ∈ auths, ∃ holder, bundle.holderOf auth = some holder ∧
        L.verifyHybrid d auth.signatureClassical auth.signaturePqc
          holder.pubkeyEd25519Base64 holder.pubkeyMlDsa65Base64 = .ok ()) ∧
      (auths.map (·.holderKeyId)).Nodup ∧
      ∀ auth ∈ auths, auth.holderKeyId ∉ seen := by
  induction auths generalizing seen with
  | nil => simp [checkAuthorizations]
  | cons auth auths ih =>
    cases hholder : bundle.holderOf auth with
    | none => simp [checkAuthorizations, hholder]
    | some holder =>
      simp only [checkAuthorizations, hholder, except_bind_eq_ok_iff, ensure_eq_ok_iff,
        except_mapError_eq_ok_iff, ih, List.forall_mem_cons, List.map_cons, List.nodup_cons,
        Option.some.injEq, exists_eq_left', exists_const, List.mem_append, List.mem_singleton,
        not_or, List.mem_map, not_exists, not_and, Bool.not_eq_true', List.contains_eq_mem,
        decide_eq_false_iff_not]
      constructor
      · rintro ⟨hnew, _, hverify, hsigned, hnodup, hseen⟩
        exact ⟨⟨hverify, hsigned⟩, ⟨fun a ha => (hseen a ha).2, hnodup⟩, hnew,
          fun a ha => (hseen a ha).1⟩
      · rintro ⟨⟨hverify, hsigned⟩, ⟨hfirst, hnodup⟩, hnew, hseen⟩
        exact ⟨hnew, (), hverify, hsigned, hnodup, fun a ha => ⟨hseen a ha, hfirst a ha⟩⟩

/-- `verify_bundle` accepts exactly the bundles that pass every check. -/
theorem verifyBundle_ok_iff {u : Unit} :
    bundle.verifyBundle L = .ok u ↔ ∃ c d m, bundle.Admissible L c d m := by
  simp only [verifyBundle, verifyBundleStructure, authorizationsNeeded, carriedM,
    except_bind_eq_ok_iff, ensure_eq_ok_iff, except_forM_eq_ok_iff, except_mapError_eq_ok_iff,
    except_elim_eq_ok_iff, checkServeNode_ok_iff, checkCharter_ok_iff, checkGrant_ok_iff,
    checkAuthorizations_ok_iff, exists_const]
  constructor
  · rintro ⟨⟨hholders, hserve, hnodes, c, hcharter, ⟨hsigner, hscopes, hrotation⟩, hgranted, m, hm,
      d, hdigest, hsigned, hdistinct, -⟩, needed, ⟨m', hm', hmax⟩, hquorum⟩
    have hmm : m = m' := by
      rw [hm, Option.some.injEq] at hm'
      exact hm'
    obtain rfl := Except.ok.inj hmax
    exact ⟨c, d, m,
      { holders := by simpa using hholders
        serveNodes := by simpa using hserve
        blessed := fun n hn => (hnodes n hn).1
        rooted := fun n hn => (hnodes n hn).2
        charter := hcharter
        signer := hsigner
        scopes := hscopes
        preRotation := hrotation
        granted := hgranted
        policy := hm
        digest := hdigest
        signed := hsigned
        distinct := hdistinct
        quorum := by simpa [hmm] using hquorum }⟩
  · rintro ⟨c, d, m, h⟩
    refine ⟨⟨by simpa using h.holders, by simpa using h.serveNodes,
      fun n hn => ⟨h.blessed n hn, h.rooted n hn⟩, c, h.charter,
      ⟨h.signer, h.scopes, h.preRotation⟩, h.granted, m, h.policy, d, h.digest, h.signed,
      h.distinct, by simp⟩, _, ⟨m, h.policy, rfl⟩, by simpa using h.quorum⟩

/-! ## Keys -/

/-- The two records have no public key in common: what `assert_distinct_roster` asks of a
    roster. -/
def DifferentKeys (h h' : KeyRecord) : Prop :=
  h.pubkeyEd25519Base64 ≠ h'.pubkeyEd25519Base64 ∧
    ∀ pq ∈ h.pubkeyMlDsa65Base64, pq ∉ h'.pubkeyMlDsa65Base64

theorem DifferentKeys.symm {h h' : KeyRecord} (hd : DifferentKeys h h') : DifferentKeys h' h :=
  ⟨hd.1.symm, fun pq hpq' hpq => hd.2 pq hpq hpq'⟩

variable (L bundle)

/-- The records the authorizations are checked against, in their order. -/
def signers : List KeyRecord := bundle.authorizations.filterMap bundle.holderOf

/-- The carried record's key signed the digest, as the authorization says. -/
def SignedBy (d : String) (auth : GenesisAuthorization) (holder : KeyRecord) : Prop :=
  holder ∈ bundle.holders ∧ holder.keyId = auth.holderKeyId ∧
    L.verifyHybrid d auth.signatureClassical auth.signaturePqc holder.pubkeyEd25519Base64
      holder.pubkeyMlDsa65Base64 = .ok ()

/-- What acceptance is to prove: the authorizations are signatures of the digest by records
    with pairwise different keys, as many as the policy's M and a strict majority of the
    carried holders ask for; the charter and every serve node root in carried holders; and
    every serve node is blessed and granted. -/
structure Proven : Prop where
  quorum : ∃ d m, L.authorizationDigest bundle = .ok d ∧ bundle.policyM L = some m ∧
    List.Forall₂ (bundle.SignedBy L d) bundle.authorizations bundle.signers ∧
    bundle.signers.Pairwise DifferentKeys ∧
    m ≤ bundle.signers.length ∧ bundle.holders.length < 2 * bundle.signers.length
  charter : ∃ c, bundle.charterOf = some c ∧ c.attestingKeyId ∈ bundle.holderIds ∧
    ∀ n ∈ bundle.serveNodes, ∃ a ∈ bundle.attestations,
      a.attestationType = delegatesTo ∧ a.attestingKeyId = c.attestingKeyId ∧
      a.attestedKeyId = n.keyId ∧ scopeHas a.attestationEnvelope infraServe = true
  serves : ∀ n ∈ bundle.serveNodes,
    carriesInfraServe L n = true ∧ n.scrubKeyId ∈ bundle.holderIds

/-- The bundle is refused, or what it is accepted for is true. -/
def QuorumOfKeys : Prop := bundle.verifyBundle L = .ok () → bundle.Proven L

/-- No two holders that authorize, under different ids, carry one key. -/
def NoAlias : Prop :=
  ∀ auth ∈ bundle.authorizations, ∀ auth' ∈ bundle.authorizations,
    auth.holderKeyId ≠ auth'.holderKeyId →
      ∀ h ∈ bundle.holderOf auth, ∀ h' ∈ bundle.holderOf auth', DifferentKeys h h'

variable {L bundle}

theorem holderOf_some {auth : GenesisAuthorization} {h : KeyRecord}
    (hf : bundle.holderOf auth = some h) : h ∈ bundle.holders ∧ h.keyId = auth.holderKeyId := by
  have hid := List.find?_some hf
  exact ⟨List.mem_of_find?_eq_some hf, by simpa using hid⟩

/-- Every authorization that verifies is signed by the record it is checked against. -/
theorem forall₂_signedBy {d : String} {auths : List GenesisAuthorization}
    (hsigned : ∀ auth ∈ auths, ∃ holder, bundle.holderOf auth = some holder ∧
      L.verifyHybrid d auth.signatureClassical auth.signaturePqc holder.pubkeyEd25519Base64
        holder.pubkeyMlDsa65Base64 = .ok ()) :
    List.Forall₂ (bundle.SignedBy L d) auths (auths.filterMap bundle.holderOf) := by
  induction auths with
  | nil => exact .nil
  | cons auth auths ih =>
    obtain ⟨h, hf, hverify⟩ := hsigned auth List.mem_cons_self
    obtain ⟨hmem, hid⟩ := holderOf_some hf
    rw [List.filterMap_cons_some hf]
    exact .cons ⟨hmem, hid, hverify⟩ (ih fun a ha => hsigned a (List.mem_cons_of_mem _ ha))

/-- With distinct ids, the keys that count are pairwise different exactly if no two of the
    holders that authorize share one. -/
theorem signers_pairwise_iff (hdistinct : (bundle.authorizations.map (·.holderKeyId)).Nodup) :
    bundle.signers.Pairwise DifferentKeys ↔ bundle.NoAlias := by
  unfold signers
  rw [List.pairwise_filterMap]
  rw [List.nodup_iff_pairwise_ne, List.pairwise_map] at hdistinct
  constructor
  · intro hpair auth hauth auth' hauth' hne h hh h' hh'
    -- sharing no key is symmetric, so the order of the two authorizations is immaterial
    have hsymm : Std.Symm fun a a' : GenesisAuthorization =>
        ∀ h, bundle.holderOf a = some h → ∀ h', bundle.holderOf a' = some h' →
          DifferentKeys h h' :=
      ⟨fun a a' hd h hh h' hh' => (hd h' hh' h hh).symm⟩
    have hdiff : auth ≠ auth' := fun heq => hne (by rw [heq])
    exact hpair.forall hauth hauth' hdiff h hh h' hh'
  · intro halias
    refine hdistinct.imp_of_mem fun {auth auth'} hauth hauth' hne => ?_
    exact fun h hh h' hh' => halias auth hauth auth' hauth' hne h hh h' hh'

/-- What an accepted bundle always has, and what it has if the keys are different. -/
theorem Admissible.proven_iff {c : CarriedAttestation} {d : String} {m : Nat}
    (h : bundle.Admissible L c d m) : bundle.Proven L ↔ bundle.NoAlias := by
  rw [← signers_pairwise_iff h.distinct]
  have hsigned := forall₂_signedBy h.signed
  have hlength : bundle.signers.length = bundle.authorizations.length := hsigned.length_eq.symm
  have hmax := h.quorum
  have hmajority := L.strictMajority_spec bundle.holders.length
  constructor
  · intro hp
    obtain ⟨-, -, -, -, -, hpair, -⟩ := hp.quorum
    exact hpair
  · intro hpair
    refine ⟨⟨d, m, h.digest, h.policy, hsigned, hpair, by omega, by omega⟩,
      ⟨c, h.charter, h.signer, fun n hn => ?_⟩, fun n hn => ⟨h.blessed n hn, h.rooted n hn⟩⟩
    obtain ⟨a, ha, hgrant⟩ := h.granted n hn
    simp only [grantsServe, Bool.and_eq_true, decide_eq_true_eq] at hgrant
    exact ⟨a, ha, hgrant.1.1.1, hgrant.1.1.2, hgrant.1.2, hgrant.2⟩

end GenesisBundle

/-- **A genesis bundle's quorum counts distinct keys, exactly when** no two of the holders that
    authorize it carry one key, or the bundle fails another check. -/
theorem genesis_quorum_iff (L : GenesisLib) (bundle : GenesisBundle) :
    bundle.QuorumOfKeys L ↔
      ((∃ c d m, bundle.Admissible L c d m) → bundle.NoAlias) := by
  unfold GenesisBundle.QuorumOfKeys
  rw [GenesisBundle.verifyBundle_ok_iff]
  constructor
  · rintro h ⟨c, d, m, hadm⟩
    exact hadm.proven_iff.mp (h ⟨c, d, m, hadm⟩)
  · rintro h ⟨c, d, m, hadm⟩
    exact hadm.proven_iff.mpr (h ⟨c, d, m, hadm⟩)

namespace Fixture

/-- Signatures that name their key: what only the key can make. -/
def genesisLib : GenesisLib where
  authorizationDigest b := .ok ("/".intercalate (b.holders.map (·.keyId)))
  verifyHybrid digest sig pqc ed pq :=
    if sig = ed ++ ":" ++ digest ∧ pq = some pqc then .ok () else .error "signature"
  quorumPolicyM s := if s = "2/3" then some 2 else none
  setContains cell want := cell = want
  strictMajority n := n / 2 + 1
  strictMajority_spec n := by omega

/-- A holder record; `key` is its key material. -/
def genesisHolder (keyId key : String) : KeyRecord where
  keyId := keyId
  pubkeyEd25519Base64 := key
  pubkeyMlDsa65Base64 := some key
  scrubKeyId := keyId
  identityType := "user"
  capabilityRoles := []
  registrationEnvelope := .null

/-- A bundle of three holders, the second with the key `second`, authorized by the first
    two. -/
def genesisBundle (second : String) : GenesisBundle where
  consensusProtocol := "quorum:2/3"
  holders := [genesisHolder "A1" "k1", genesisHolder "B1" second, genesisHolder "C1" "k3"]
  serveNodes := [{ genesisHolder "canon-1" "k4" with
    scrubKeyId := "A1", capabilityRoles := [infraServe] }]
  attestations :=
    [⟨charterAttestationId, delegatesTo, "A1", "A1", .obj
        [("scope", .arr [.str infraServe, .str infraAttest]),
         (charterPreRotationField, .str (String.ofList (List.replicate 64 'a')))]⟩,
     ⟨"genesis-grant:canon-1", delegatesTo, "A1", "canon-1", .obj [("scope", .str infraServe)]⟩]
  authorizations := [⟨"A1", "k1:A1/B1/C1", "k1"⟩, ⟨"B1", second ++ ":A1/B1/C1", second⟩]

end Fixture

/-- One key under two holder ids signs twice and is the whole quorum of two. -/
theorem aliased_holder_counts_twice :
    ¬ (Fixture.genesisBundle "k1").QuorumOfKeys Fixture.genesisLib := by
  intro h
  have hp := h (by decide +kernel)
  obtain ⟨d, m, -, -, -, hpair, -⟩ := hp.quorum
  have hsigners : (Fixture.genesisBundle "k1").signers =
      [Fixture.genesisHolder "A1" "k1", Fixture.genesisHolder "B1" "k1"] := by decide
  rw [hsigners, List.pairwise_cons] at hpair
  exact (hpair.1 _ List.mem_cons_self).1 rfl

end CirisServer
