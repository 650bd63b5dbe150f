import CirisServer.Native.VerifyCore

/-!
# The constitutional halt latch

`src/accord_halt.rs`: the record a verified halt leaves on disk, the fuse that
decides whether it is in effect, and the file operations on it. The release
binding (`src/accord_release.rs`, `ReleaseBinding`) is here too, because
`HaltRecord::new` stamps it into every latch.

The latch is one file. `LatchFile` is what `read_halt_latch` can find there; each
write takes the outcome the disk gives it, so that a failed write is a case of the
model and not an assumption about it.
-/

namespace CirisServer

/-- `HALT_FUSE_SECS_DEFAULT`: 24 h. -/
def haltFuseSecsDefault : Nat := 86400

/-- The strict-majority confirmation that keeps a one-holder halt past its fuse. -/
structure HaltConfirmation where
  invocationId : String
  signers : List String
  /-- When this node received the confirmation. -/
  receivedAt : Rfc3339
deriving DecidableEq

/-- What the latch records. The optional fields are the ones later latch shapes
    added, absent from a latch an older build wrote. -/
structure HaltRecord where
  invocationKind : InvocationKind
  invocationId : String
  validSigners : List String
  quorumThreshold : Nat
  latchedAt : Rfc3339
  receivedAt : Option Rfc3339
  fuseSecs : Option Nat
  confirmed : Option HaltConfirmation
  nodeId : Option String
  haltPayloadSha256 : Option String
  latchId : Option String
  releasePayloadSha256 : Option String
  releaseBinding : Option Json
deriving DecidableEq

/-! ## The release binding -/

/-- The canonicaliser and the digest behind `payload_sha256`: verify's `jcs` and
    SHA-256, taken to be injective (on all-string objects, which is all the server
    hashes with them here). -/
structure PayloadDigest where
  Bytes : Type
  /-- `jcs::canonicalize`. -/
  canonicalize : Json → Except String Bytes
  /-- The bytes of a text. -/
  utf8 : String → Bytes
  /-- `hex::encode(Sha256::digest(..))`. -/
  sha256Hex : Bytes → String
  canonicalize_inj : ∀ fs gs bytes, fs.map Prod.fst = gs.map Prod.fst →
    canonicalize (Json.ofStrings fs) = .ok bytes →
    canonicalize (Json.ofStrings gs) = .ok bytes → fs = gs
  sha256Hex_inj : ∀ a b, sha256Hex a = sha256Hex b → a = b

/-- A text spelt out so that a list of them can be put end to end and read back:
    every character is marked, and the end is. -/
def spell (s : String) : List Char :=
  s.toList.flatMap (fun c => ['+', c]) ++ ['.']

theorem spell_append_inj {s t : String} {xs ys : List Char}
    (h : spell s ++ xs = spell t ++ ys) : s = t ∧ xs = ys := by
  have key : ∀ (as bs : List Char),
      as.flatMap (fun c => ['+', c]) ++ ['.'] ++ xs =
        bs.flatMap (fun c => ['+', c]) ++ ['.'] ++ ys → as = bs ∧ xs = ys := by
    intro as
    induction as with
    | nil =>
      intro bs h
      cases bs with
      | nil => exact ⟨rfl, by simpa using h⟩
      | cons b bs => simp at h
    | cons a as ih =>
      intro bs h
      cases bs with
      | nil => simp at h
      | cons b bs =>
        simp only [List.flatMap_cons, List.cons_append, List.nil_append, List.cons.injEq,
          true_and] at h
        obtain ⟨rfl, rfl⟩ := ih bs h.2
        simp [h.1]
  obtain ⟨hst, hxy⟩ := key s.toList t.toList h
  exact ⟨String.toList_inj.mp hst, hxy⟩

/-- The idealised canonical form of an all-string object: its values, spelt out. -/
def spellValues : List (String × Json) → Except String (List Char)
  | [] => .ok []
  | (_, .str s) :: rest =>
    match spellValues rest with
    | .ok cs => .ok (spell s ++ cs)
    | .error e => .error e
  | _ => .error "not an object of strings"

theorem spellValues_ofStrings (fs : List (String × String)) :
    spellValues (fs.map fun m => (m.1, Json.str m.2)) =
      .ok (fs.flatMap fun m => spell m.2) := by
  induction fs with
  | nil => rfl
  | cons f fs ih => simp [spellValues, ih]

theorem spellValues_inj {fs gs : List (String × String)}
    (hk : fs.map Prod.fst = gs.map Prod.fst)
    (h : (fs.flatMap fun m => spell m.2) = gs.flatMap fun m => spell m.2) : fs = gs := by
  induction fs generalizing gs with
  | nil => cases gs with
    | nil => rfl
    | cons g gs => simp at hk
  | cons f fs ih => cases gs with
    | nil => simp at hk
    | cons g gs =>
      simp only [List.map_cons, List.cons.injEq] at hk
      simp only [List.flatMap_cons] at h
      obtain ⟨hv, hrest⟩ := spell_append_inj h
      rw [ih hk.2 hrest, Prod.ext hk.1 hv]

/-- An injective digest: the canonical form itself. -/
def PayloadDigest.ideal : PayloadDigest where
  Bytes := String
  canonicalize
    | .obj members => (spellValues members).map String.ofList
    | _ => .error "not an object"
  utf8 s := s
  sha256Hex s := s
  canonicalize_inj fs gs bytes hk hf hg := by
    simp only [Json.ofStrings, spellValues_ofStrings, Except.map, Except.ok.injEq] at hf hg
    exact spellValues_inj hk (String.ofList_inj.mp (hf.trans hg.symm))
  sha256Hex_inj _ _ h := h

/-- What a release token must be bound to, read off the latch. -/
structure ReleaseBinding where
  nodeId : String
  haltInvocationId : String
  haltPayloadSha256 : String
  latchId : String
deriving DecidableEq

/-- Why a step of the release path refused. -/
inductive ReleaseError where
  /-- The latch carries no such binding field (or an empty one). -/
  | latchCarriesNo (what : String)
  /-- `canonicalize the release binding: {e}` -/
  | canonicalize (e : String)
  | notLifecycleActive (got : InvocationKind)
  | resumesOther (id latched : String)
  | noResumesHaltId
  | notBoundToLatch (expected carried : String) (binding : ReleaseBinding)
  | validUntilUnparseable (text : Rfc3339)
  | expired (validUntil : Rfc3339) (reference : Int) (now latchedAt : Rfc3339)
  | quorumNotMet (threshold seats : Nat) (source e : String)
  | journalUnwritable
  | latchNotRemoved
deriving DecidableEq

/-- `Option<String>::filter(|s| !s.is_empty())`. -/
def nonEmpty (s : Option String) : Option String :=
  s.filter fun s => !s.isEmpty

/-- A field the binding needs, or the refusal that names it. -/
def requireField (what : String) : Option String → Except ReleaseError String
  | some s => .ok s
  | none => .error (.latchCarriesNo what)

namespace ReleaseBinding

/-- `ReleaseBinding::from_halt_record`. -/
def fromHaltRecord (record : HaltRecord) : Except ReleaseError ReleaseBinding := do
  let nodeId ← requireField "node_id" (nonEmpty record.nodeId)
  let haltPayloadSha256 ← requireField "halt_payload_sha256" (nonEmpty record.haltPayloadSha256)
  let latchId ← requireField "latch_id" (nonEmpty record.latchId)
  return { nodeId, haltInvocationId := record.invocationId, haltPayloadSha256, latchId }

/-- The members of the release payload, in the order `to_json` lists them. -/
def members (b : ReleaseBinding) : List (String × String) :=
  [("purpose", "ciris.accord.halt_release.v1"), ("node_id", b.nodeId),
   ("halt_invocation_id", b.haltInvocationId), ("halt_payload_sha256", b.haltPayloadSha256),
   ("latch_id", b.latchId)]

/-- `ReleaseBinding::to_json`. -/
def toJson (b : ReleaseBinding) : Json := Json.ofStrings b.members

/-- `ReleaseBinding::payload_sha256`: `sha256(JCS(payload))` in hex. -/
def payloadSha256 (D : PayloadDigest) (b : ReleaseBinding) : Except ReleaseError String :=
  match D.canonicalize b.toJson with
  | .ok bytes => .ok (D.sha256Hex bytes)
  | .error e => .error (.canonicalize e)

end ReleaseBinding

/-! ## The record and its fuse -/

/-- Whether a latch is in effect at an instant. -/
inductive HaltStanding where
  /-- The agents are paused; `lapsesAt` is `none` once confirmed. -/
  | inEffect (lapsesAt : Option Rfc3339)
  /-- The fuse passed with no confirmation. -/
  | lapsed (lapsedAt : Rfc3339)
deriving DecidableEq

namespace HaltRecord

/-- `HaltRecord::new`. `rng` is what the CSPRNG gives: the hex of 32 fresh bytes, or
    nothing, in which case the latch carries no release binding. -/
def new (D : PayloadDigest) (invocationKind : InvocationKind) (invocationId : String)
    (validSigners : List String) (quorumThreshold : Nat) (latchedAt : Rfc3339)
    (nodeId haltPayloadSha256 rng : Option String) : HaltRecord :=
  let rec₀ : HaltRecord :=
    { invocationKind, invocationId, validSigners, quorumThreshold
      receivedAt := some latchedAt
      latchedAt
      fuseSecs := some haltFuseSecsDefault
      confirmed := none
      nodeId, haltPayloadSha256
      latchId := rng
      releasePayloadSha256 := none
      releaseBinding := none }
  match ReleaseBinding.fromHaltRecord rec₀ with
  | .ok binding =>
    { rec₀ with
      releasePayloadSha256 := (binding.payloadSha256 D).toOption
      releaseBinding := some binding.toJson }
  | .error _ => rec₀

/-- `HaltRecord::with_fuse`. -/
def withFuse (r : HaltRecord) (fuseSecs : Nat) : HaltRecord :=
  { r with fuseSecs := some fuseSecs }

/-- `HaltRecord::received_at`: the instant the fuse counts from. A text chrono
    cannot read counts as the beginning of time, so that such a latch lapses at once. -/
def receivedInstant (r : HaltRecord) : Int :=
  (r.receivedAt.getD r.latchedAt).parse.getD minUtc

/-- `HaltRecord::fuse_secs`. -/
def fuse (r : HaltRecord) : Nat := r.fuseSecs.getD haltFuseSecsDefault

/-- `i64::MAX`, where the fuse saturates before it becomes a chrono duration. -/
def i64Max : Nat := 2 ^ 63 - 1

/-- `HaltRecord::lapses_at`: when an unconfirmed latch lapses. -/
def lapsesAt (r : HaltRecord) : Int :=
  r.receivedInstant + (min r.fuse i64Max : Nat) * nanosPerSec

/-- `HaltRecord::standing_at`. -/
def standingAt (r : HaltRecord) (now : Int) : HaltStanding :=
  if r.confirmed.isSome then .inEffect none
  else if now < r.lapsesAt then .inEffect (some (.ofInstant r.lapsesAt))
  else .lapsed (.ofInstant r.lapsesAt)

/-- `HaltRecord::in_effect_at`. -/
def inEffectAt (r : HaltRecord) (now : Int) : Bool :=
  match r.standingAt now with
  | .inEffect _ => true
  | .lapsed _ => false

/-- A latch is in effect while it is confirmed or its fuse runs. -/
theorem inEffectAt_iff (r : HaltRecord) (now : Int) :
    r.inEffectAt now = true ↔ r.confirmed.isSome = true ∨ now < r.lapsesAt := by
  cases hc : r.confirmed with
  | some c => simp [inEffectAt, standingAt, hc]
  | none =>
    by_cases hlt : now < r.lapsesAt
    · simp [inEffectAt, standingAt, hc, hlt]
    · simp [inEffectAt, standingAt, hc, hlt]

/-- An unconfirmed latch past its fuse reads as lapsed. -/
theorem standingAt_lapsed (r : HaltRecord) (now : Int) (hc : r.confirmed = none)
    (h : r.lapsesAt ≤ now) : r.standingAt now = .lapsed (.ofInstant r.lapsesAt) := by
  have hlt : ¬ now < r.lapsesAt := by omega
  simp [standingAt, hc, hlt]

/-- A latch that stands with no end to its fuse is confirmed. -/
theorem confirmed_of_standingAt (r : HaltRecord) (now : Int)
    (h : r.standingAt now = .inEffect none) : r.confirmed.isSome = true := by
  unfold standingAt at h
  split at h
  · assumption
  · split at h <;> cases h

/-- What `new` and `with_fuse` leave for the fuse to read: the id, the receipt, the
    fuse and no confirmation. -/
theorem new_withFuse_fields (D : PayloadDigest) (kind : InvocationKind) (id : String)
    (signers : List String) (m : Nat) (now : Int) (nodeId payload rng : Option String)
    (fuseSecs : Nat) :
    let r := (new D kind id signers m (.ofInstant now) nodeId payload rng).withFuse fuseSecs
    r.invocationId = id ∧ r.confirmed = none ∧
      r.lapsesAt = now + (min fuseSecs i64Max : Nat) * nanosPerSec := by
  simp only [new, withFuse, lapsesAt, receivedInstant, fuse]
  split <;> simp [Rfc3339.ofInstant, Rfc3339.parse]

end HaltRecord

/-! ## The latch file -/

/-- What stands at the latch path. -/
inductive LatchFile where
  | absent
  | record (r : HaltRecord)
  /-- Present, but not a parseable record. -/
  | unreadable
deriving DecidableEq

/-- How the disk answers a whole-file write: done, refused before the file was
    touched, or failed after it was truncated. -/
inductive WriteResult where
  | written
  | refused
  | torn
deriving DecidableEq

/-- `read_halt_latch`. `readable` is whether the disk gives the file's bytes. -/
def readHaltLatch (latch : LatchFile) (readable : Bool) : Except Unit (Option HaltRecord) :=
  match latch with
  | .absent => .ok none
  | .record r => if readable then .ok (some r) else .error ()
  | .unreadable => .error ()

/-- `latch_halt`: overwrite the latch. -/
def latchHalt (latch : LatchFile) (record : HaltRecord) : WriteResult → LatchFile × Bool
  | .written => (.record record, true)
  | .refused => (latch, false)
  | .torn => (.unreadable, false)

/-- The halt arm's retry loop: `latch_halt` until it succeeds, with the disk's
    answers in `writes`. -/
def latchRetry (record : HaltRecord) : List WriteResult → LatchFile → LatchFile × Bool
  | [], latch => (latch, false)
  | w :: ws, latch =>
    match latchHalt latch record w with
    | (latch, true) => (latch, true)
    | (latch, false) => latchRetry record ws latch

/-- `confirm_halt`: the record with the confirmation, written over the latch. -/
def confirmHalt (latch : LatchFile) (record : HaltRecord) (confirmation : HaltConfirmation)
    (w : WriteResult) : LatchFile × Bool :=
  latchHalt latch { record with confirmed := some confirmation } w

/-- Reading gives a record only if that record is the latch. -/
theorem readHaltLatch_some {latch : LatchFile} {readable : Bool} {r : HaltRecord}
    (h : readHaltLatch latch readable = .ok (some r)) : latch = .record r := by
  cases latch with
  | absent => simp [readHaltLatch] at h
  | record r' =>
    simp only [readHaltLatch] at h
    split at h
    · simpa using h
    · cases h
  | unreadable => simp [readHaltLatch] at h

/-- The retry loop ends with the record on disk as soon as one write lands; otherwise
    the file is as it was, or torn if one write tore it. -/
theorem latchRetry_cases (record : HaltRecord) (ws : List WriteResult) (latch : LatchFile) :
    (.written ∈ ws ∧ latchRetry record ws latch = (.record record, true)) ∨
    (.written ∉ ws ∧ .torn ∉ ws ∧ latchRetry record ws latch = (latch, false)) ∨
    (.written ∉ ws ∧ .torn ∈ ws ∧ latchRetry record ws latch = (.unreadable, false)) := by
  induction ws generalizing latch with
  | nil => exact Or.inr (Or.inl ⟨by simp, by simp, rfl⟩)
  | cons w ws ih =>
    cases w with
    | written => exact Or.inl ⟨List.mem_cons_self, rfl⟩
    | refused => simpa [latchRetry, latchHalt] using ih latch
    | torn =>
      -- from here on the file is torn, whatever the later attempts find
      rcases ih .unreadable with ⟨hw, h⟩ | ⟨hw, -, h⟩ | ⟨hw, -, h⟩
      · exact Or.inl ⟨List.mem_cons_of_mem _ hw, h⟩
      · exact Or.inr (Or.inr ⟨by simp [hw], List.mem_cons_self, h⟩)
      · exact Or.inr (Or.inr ⟨by simp [hw], List.mem_cons_self, h⟩)

end CirisServer
