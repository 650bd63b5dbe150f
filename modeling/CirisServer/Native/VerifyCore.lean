import Mathlib.Algebra.Ring.Nat
import Mathlib.Data.List.Dedup
import Mathlib.Data.List.Perm.Subperm
import CirisServer.Native.Json

/-!
# The verify crate, as the server sees it

The accord modules decide nothing about signatures themselves: they call
`ciris_verify_core`, which is not part of this repository. `VerifyCore` carries the
functions they call, together with the documented facts the server relies on:

- `accord_invocation_status` reports exactly the distinct roster seats that signed
- `verify_threshold_signatures` counts the same seats against a threshold
- `required_signatures` is the table of `FSD/CONSTITUTIONAL_HALT.md` §1

A wire object is represented by what verify's `parse_accord_invocation` reads out
of it, so that parsing and rebuilding are definitions here.
-/

namespace CirisServer

/-- `humanity_accord::InvocationKind`. -/
inductive InvocationKind where
  | constitutional
  | notify
  | drill
  | lifecycleConfirmed
  | lifecycleActive
deriving DecidableEq

/-- `threshold::ThresholdMember`: a seat and its hybrid public keys (the `role` is
    never read by the accord modules). -/
structure ThresholdMember where
  memberId : String
  ed25519PublicKeyBase64 : String
  mldsa65PublicKeyBase64 : Option String
deriving DecidableEq

/-- `threshold::ThresholdSignature`: one seat's hybrid cosignature. -/
structure ThresholdSignature where
  memberId : String
  ed25519SignatureBase64 : String
  mldsa65SignatureBase64 : Option String
deriving DecidableEq

/-- `humanity_accord::Invocation`. -/
structure Invocation where
  invocationKind : InvocationKind
  invocationId : String
  /-- The halt a `lifecycle:active` ends. -/
  resumesHaltId : Option String
  /-- The halt a `lifecycle:confirmed` keeps. -/
  confirmsHaltId : Option String
  nonce : String
  assertedAt : Rfc3339
  validUntil : Rfc3339
  payloadSha256 : String
deriving DecidableEq

/-- What `parse_accord_invocation` reads out of an accord object. -/
structure ParsedAccord where
  familyKeyId : String
  roster : List ThresholdMember
  invocation : Invocation
  signatures : List ThresholdSignature
deriving DecidableEq

/-- `ceg_outbox::SignedCegObject` as an accord object: the result of parsing it, and
    the plaintext `message` an announce carries beside the invocation. -/
structure SignedCegObject where
  parsed : Except String ParsedAccord
  message : Option String
  createdAt : Rfc3339
deriving DecidableEq

/-- `accord_genesis::parse_accord_invocation`. -/
def parseAccordInvocation (obj : SignedCegObject) : Except String ParsedAccord :=
  obj.parsed

/-- `accord_genesis::build_accord_invocation_object`: parses back to its parts. -/
def buildAccordInvocationObject (familyKeyId : String) (roster : List ThresholdMember)
    (invocation : Invocation) (signatures : List ThresholdSignature) (now : Rfc3339) :
    SignedCegObject where
  parsed := .ok { familyKeyId, roster, invocation, signatures }
  message := none
  createdAt := now

/-- The part of `accord_genesis::AccordInvocationStatus` the server acts on. -/
structure AccordStatus where
  invocationKind : InvocationKind
  invocationId : String
  validSigners : List String
deriving DecidableEq

/-- The seats of `roster` that one of `signatures` verifies for, each once: what
    both of verify's counters are documented to count. -/
def distinctSeats {Bytes : Type} (hybridVerifies : ThresholdMember → Bytes → ThresholdSignature → Bool)
    (bytes : Bytes) (roster : List ThresholdMember) (signatures : List ThresholdSignature) :
    List String :=
  ((roster.filter fun m => signatures.any fun s =>
    s.memberId == m.memberId && hybridVerifies m bytes s).map (·.memberId)).dedup

/-- The functions of `ciris_verify_core` the accord modules call, with the
    documented behaviour they rely on. -/
structure VerifyCore where
  Bytes : Type
  /-- `Invocation::canonical_bytes`, the signature preimage. -/
  canonicalBytes : Invocation → Bytes
  /-- One seat's hybrid (Ed25519 and ML-DSA-65) cosignature over some bytes verifies. -/
  hybridVerifies : ThresholdMember → Bytes → ThresholdSignature → Bool
  /-- `InvocationKind::required_signatures`. -/
  requiredSignatures : InvocationKind → Nat → Option Nat
  /-- `accord_genesis::accord_invocation_status`. -/
  accordInvocationStatus : ParsedAccord → Except String AccordStatus
  /-- `threshold::verify_threshold_signatures`. -/
  verifyThresholdSignatures :
    Bytes → List ThresholdMember → List ThresholdSignature → Nat → Except String Nat
  required_empty : ∀ kind, requiredSignatures kind 0 = none
  required_fire : ∀ kind n, n ≠ 0 →
    kind = .constitutional ∨ kind = .drill ∨ kind = .notify →
    requiredSignatures kind n = some 1
  required_majority : ∀ kind n, n ≠ 0 →
    kind = .lifecycleConfirmed ∨ kind = .lifecycleActive →
    requiredSignatures kind n = some (n / 2 + 1)
  status_spec : ∀ p st, accordInvocationStatus p = .ok st →
    st.invocationKind = p.invocation.invocationKind ∧
    st.invocationId = p.invocation.invocationId ∧
    st.validSigners.Perm
      (distinctSeats hybridVerifies (canonicalBytes p.invocation) p.roster p.signatures)
  threshold_ok : ∀ bytes roster sigs m n,
    verifyThresholdSignatures bytes roster sigs m = .ok n →
    n = (distinctSeats hybridVerifies bytes roster sigs).length ∧ m ≤ n
  threshold_met : ∀ bytes roster sigs m, 0 < m →
    m ≤ (distinctSeats hybridVerifies bytes roster sigs).length →
    ∃ n, verifyThresholdSignatures bytes roster sigs m = .ok n

namespace VerifyCore

/-- The distinct seats of `roster` whose cosignature over `inv` is among `sigs`. -/
def validSeats (V : VerifyCore) (roster : List ThresholdMember) (inv : Invocation)
    (sigs : List ThresholdSignature) : List String :=
  distinctSeats V.hybridVerifies (V.canonicalBytes inv) roster sigs

/-- A strict majority of `roster` cosigned `inv`. -/
def StrictMajority (V : VerifyCore) (roster : List ThresholdMember) (inv : Invocation)
    (sigs : List ThresholdSignature) : Prop :=
  roster.length < 2 * (V.validSeats roster inv sigs).length

instance (V : VerifyCore) (roster : List ThresholdMember) (inv : Invocation)
    (sigs : List ThresholdSignature) : Decidable (V.StrictMajority roster inv sigs) :=
  inferInstanceAs (Decidable (_ < _))

end VerifyCore

theorem mem_distinctSeats {Bytes : Type}
    {hv : ThresholdMember → Bytes → ThresholdSignature → Bool} {bytes : Bytes}
    {roster : List ThresholdMember} {sigs : List ThresholdSignature} {id : String} :
    id ∈ distinctSeats hv bytes roster sigs ↔
      ∃ m ∈ roster, m.memberId = id ∧
        ∃ s ∈ sigs, s.memberId = m.memberId ∧ hv m bytes s = true := by
  simp only [distinctSeats, List.mem_dedup, List.mem_map, List.mem_filter, List.any_eq_true,
    Bool.and_eq_true, beq_iff_eq]
  constructor
  · rintro ⟨m, ⟨hm, s, hs, hid, hv⟩, rfl⟩
    exact ⟨m, hm, rfl, s, hs, hid, hv⟩
  · rintro ⟨m, hm, rfl, s, hs, hid, hv⟩
    exact ⟨m, ⟨hm, s, hs, hid, hv⟩, rfl⟩

/-- More cosignatures never count fewer seats. -/
theorem distinctSeats_length_mono {Bytes : Type}
    {hv : ThresholdMember → Bytes → ThresholdSignature → Bool} {bytes : Bytes}
    {roster : List ThresholdMember} {sigs sigs' : List ThresholdSignature}
    (h : sigs ⊆ sigs') :
    (distinctSeats hv bytes roster sigs).length ≤ (distinctSeats hv bytes roster sigs').length := by
  refine (List.subperm_of_subset (List.nodup_dedup _) ?_).length_le
  intro id hid
  obtain ⟨m, hm, hmid, s, hs, hsig⟩ := mem_distinctSeats.mp hid
  exact mem_distinctSeats.mpr ⟨m, hm, hmid, s, h hs, hsig⟩

/-! ## An idealised verify

Signatures that only their key can make: a cosignature is the text that names the
key and every field the invocation carries. It shows the documented facts to be
consistent, and runs where the real crate cannot. -/

/-- The name of a kind on the wire. -/
def InvocationKind.asStr : InvocationKind → String
  | .constitutional => "constitutional"
  | .notify => "notify"
  | .drill => "drill"
  | .lifecycleConfirmed => "lifecycle:confirmed"
  | .lifecycleActive => "lifecycle:active"

/-- What `member` produces when it cosigns `inv`. -/
def idealCosign (member : ThresholdMember) (inv : Invocation) : ThresholdSignature where
  memberId := member.memberId
  ed25519SignatureBase64 := "/".intercalate
    [member.ed25519PublicKeyBase64, inv.invocationKind.asStr, inv.invocationId,
     inv.resumesHaltId.getD "-", inv.confirmsHaltId.getD "-", inv.nonce, inv.payloadSha256]
  mldsa65SignatureBase64 := none

/-- Verify over idealised signatures. -/
def VerifyCore.ideal : VerifyCore where
  Bytes := Invocation
  canonicalBytes inv := inv
  hybridVerifies m inv s := s = idealCosign m inv
  requiredSignatures kind n :=
    if n = 0 then none
    else match kind with
      | .constitutional | .drill | .notify => some 1
      | .lifecycleConfirmed | .lifecycleActive => some (n / 2 + 1)
  accordInvocationStatus p := .ok
    { invocationKind := p.invocation.invocationKind
      invocationId := p.invocation.invocationId
      validSigners := distinctSeats (fun m inv s => s = idealCosign m inv) p.invocation p.roster
        p.signatures }
  verifyThresholdSignatures inv roster sigs m :=
    let seats := distinctSeats (fun m inv s => s = idealCosign m inv) inv roster sigs
    if m ≤ seats.length then .ok seats.length else .error "threshold not met"
  required_empty kind := rfl
  required_fire kind n hn hk := by
    rcases hk with rfl | rfl | rfl <;> simp [hn]
  required_majority kind n hn hk := by
    rcases hk with rfl | rfl <;> simp [hn]
  status_spec p st h := by
    simp only [Except.ok.injEq] at h
    subst h
    exact ⟨rfl, rfl, List.Perm.refl _⟩
  threshold_ok inv roster sigs m n h := by
    simp only at h
    split at h
    next hle =>
      simp only [Except.ok.injEq] at h
      exact ⟨h.symm, h ▸ hle⟩
    next => cases h
  threshold_met inv roster sigs m _ h := ⟨_, if_pos h⟩

/-- `accord::halt_plane_threshold`: verify's table, with an empty roster admitting
    nothing (`usize::MAX`, so that no count ever reaches it). -/
def haltPlaneThreshold (V : VerifyCore) (kind : InvocationKind) (rosterLen : Nat) : Nat :=
  (V.requiredSignatures kind rosterLen).getD (2 ^ 64 - 1)

end CirisServer
