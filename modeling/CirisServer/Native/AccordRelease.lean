import CirisServer.Native.AccordHalt

/-!
# The offline halt release

`src/accord_release.rs`: a release token is a `lifecycle:active` invocation whose
`payload_sha256` is the digest of the binding the latch demands. Verifying it reads
the latch, the token and a pinned authority, nothing else; honouring it journals the
release and then removes the latch.
-/

namespace CirisServer

/-- `ReleaseToken`: the artifact an operator presents. -/
structure ReleaseToken where
  invocation : Invocation
  signatures : List ThresholdSignature
  /-- The binding in the clear, for a human reader. -/
  binding : Option Json
deriving DecidableEq

/-- `ReleaseAuthority`: who may authorize a release, and at what threshold. -/
structure ReleaseAuthority where
  roster : List ThresholdMember
  threshold : Nat
  source : String
deriving DecidableEq

/-- `ReleaseVerdict`: what a verified release proved. -/
structure ReleaseVerdict where
  releaseInvocationId : String
  validSigners : Nat
  threshold : Nat
  rosterSize : Nat
  authoritySource : String
  boundPayloadSha256 : String
  latchId : String
  nodeId : String
deriving DecidableEq

/-- `release_reference_time`: `max(now, latched_at)`. A `now` that does not parse is
    replaced by the wall clock, an unreadable `latched_at` by no floor. -/
def releaseReferenceTime (record : HaltRecord) (now : Rfc3339) (wall : Int) : Int :=
  let now := now.parse.getD wall
  match record.latchedAt.parse with
  | some latched => if latched > now then latched else now
  | none => now

/-- Check (3): the token's `resumes_halt_id` names the latched halt. -/
def checkResumes (resumesHaltId : Option String) (latched : String) : Except ReleaseError Unit :=
  match resumesHaltId with
  | some id => if id = latched then .ok () else .error (.resumesOther id latched)
  | none => .error .noResumesHaltId

/-- Check (5): the token is not expired at `reference`. -/
def checkFreshness (record : HaltRecord) (token : ReleaseToken) (now : Rfc3339) (reference : Int) :
    Except ReleaseError Unit :=
  match token.invocation.validUntil.parse with
  | none => .error (.validUntilUnparseable token.invocation.validUntil)
  | some validUntil =>
    if validUntil < reference then
      .error (.expired token.invocation.validUntil reference now record.latchedAt)
    else .ok ()

/-- `verify_release_token`, its six checks in the source's order. -/
def verifyReleaseToken (V : VerifyCore) (D : PayloadDigest) (record : HaltRecord)
    (token : ReleaseToken) (authority : ReleaseAuthority) (now : Rfc3339) (wall : Int) :
    Except ReleaseError ReleaseVerdict := do
  -- (1) what this latch demands
  let binding ← ReleaseBinding.fromHaltRecord record
  let expected ← binding.payloadSha256 D
  -- (2) scope
  if token.invocation.invocationKind ≠ .lifecycleActive then
    throw (.notLifecycleActive token.invocation.invocationKind)
  -- (3) which halt
  checkResumes token.invocation.resumesHaltId binding.haltInvocationId
  -- (4) which node, which latch instance
  if token.invocation.payloadSha256 ≠ expected then
    throw (.notBoundToLatch expected token.invocation.payloadSha256 binding)
  -- (5) freshness
  checkFreshness record token now (releaseReferenceTime record now wall)
  -- (6) the quorum
  match V.verifyThresholdSignatures (V.canonicalBytes token.invocation) authority.roster
      token.signatures authority.threshold with
  | .error e =>
    throw (.quorumNotMet authority.threshold authority.roster.length authority.source e)
  | .ok valid =>
    return { releaseInvocationId := token.invocation.invocationId
             validSigners := valid
             threshold := authority.threshold
             rosterSize := authority.roster.length
             authoritySource := authority.source
             boundPayloadSha256 := expected
             latchId := binding.latchId
             nodeId := binding.nodeId }

/-! ## The journal and the disk -/

/-- One line of the release journal. -/
inductive JournalEntry where
  | honored (releasedAt : Rfc3339) (verdict : ReleaseVerdict) (record : HaltRecord)
      (token : ReleaseToken)
  | honoredOverWire (releasedAt : Rfc3339) (resumptionInvocationId : String)
      (signers : List String) (threshold : Nat) (record : HaltRecord)
  /-- The line's `token_sha256` stands for the token itself. -/
  | refused (attemptedAt : Rfc3339) (reason : ReleaseError) (token : ReleaseToken)
      (haltInvocationId : String) (latchId : Option String)
  | latchRemovalFailed (releasedAt : Rfc3339)
deriving DecidableEq

/-- The files under the node `home` that the accord modules touch. -/
structure Disk where
  latch : LatchFile
  journal : List JournalEntry
  /-- A release token lies beside the latch. -/
  tokenPresented : Bool
deriving DecidableEq

/-- How the disk answers the operations of one release. -/
structure ReleaseIo where
  journalWritable : Bool
  latchRemovable : Bool
  /-- The second, best-effort line after a failed removal. -/
  failureLineWritable : Bool
  tokenRemovable : Bool
deriving DecidableEq

/-- The answer of `std::fs::remove_file` on the latch. -/
inductive RemoveResult where
  | removed
  | notFound
  | failed
deriving DecidableEq

/-- `std::fs::remove_file` on the latch path. -/
def removeLatch (latch : LatchFile) (removable : Bool) : LatchFile × RemoveResult :=
  match latch with
  | .absent => (.absent, .notFound)
  | latch => if removable then (.absent, .removed) else (latch, .failed)

/-- `append_journal_line`. -/
def appendJournalLine (disk : Disk) (entry : JournalEntry) (writable : Bool) : Disk × Bool :=
  if writable then ({ disk with journal := disk.journal ++ [entry] }, true) else (disk, false)

/-- `journal_rejection`: one line, unless the previous line is the same refusal of
    the same token. -/
def journalRejection (disk : Disk) (record : HaltRecord) (token : ReleaseToken)
    (now : Rfc3339) (reason : ReleaseError) (writable : Bool) : Disk :=
  let repeated : Bool := match disk.journal.getLast? with
    | some (.refused _ reason' token' _ _) => token' = token && reason' = reason
    | _ => false
  if repeated then disk
  else (appendJournalLine disk
    (.refused now reason token record.invocationId record.latchId) writable).1

/-- `honor_release_token`: verify, journal, remove the latch, consume the token. -/
def honorReleaseToken (V : VerifyCore) (D : PayloadDigest) (io : ReleaseIo) (disk : Disk)
    (record : HaltRecord) (token : ReleaseToken) (authority : ReleaseAuthority) (now : Rfc3339)
    (wall : Int) : Disk × Except ReleaseError ReleaseVerdict :=
  match verifyReleaseToken V D record token authority now wall with
  | .error e => (journalRejection disk record token now e io.journalWritable, .error e)
  | .ok verdict =>
    match appendJournalLine disk (.honored now verdict record token) io.journalWritable with
    | (disk, false) => (disk, .error .journalUnwritable)
    | (disk, true) =>
      match removeLatch disk.latch io.latchRemovable with
      | (latch, .removed) =>
        ({ disk with latch, tokenPresented := disk.tokenPresented && !io.tokenRemovable },
          .ok verdict)
      | (latch, _) =>
        ((appendJournalLine { disk with latch } (.latchRemovalFailed now)
          io.failureLineWritable).1, .error .latchNotRemoved)

/-- `release_halt`: journal a resumption delivered over the wire, then remove the
    latch. A latch that is already gone counts as removed. -/
def releaseHalt (disk : Disk) (entry : JournalEntry) (journalWritable latchRemovable : Bool) :
    Disk × Bool :=
  match appendJournalLine disk entry journalWritable with
  | (disk, false) => (disk, false)
  | (disk, true) =>
    match removeLatch disk.latch latchRemovable with
    | (latch, .failed) => ({ disk with latch }, false)
    | (latch, _) => ({ disk with latch }, true)

@[simp] theorem appendJournalLine_latch (disk : Disk) (entry : JournalEntry) (w : Bool) :
    (appendJournalLine disk entry w).1.latch = disk.latch := by
  simp only [appendJournalLine]; split <;> rfl

@[simp] theorem journalRejection_latch (disk : Disk) (record : HaltRecord) (token : ReleaseToken)
    (now : Rfc3339) (reason : ReleaseError) (w : Bool) :
    (journalRejection disk record token now reason w).latch = disk.latch := by
  simp only [journalRejection]
  split
  · split <;> simp
  · simp

/-- What `remove_file` leaves: the latch gone, or the latch as it was. -/
theorem removeLatch_cases (latch : LatchFile) (removable : Bool) :
    (removeLatch latch removable = (.absent, .removed) ∧ latch ≠ .absent) ∨
    (removeLatch latch removable = (.absent, .notFound) ∧ latch = .absent) ∨
    removeLatch latch removable = (latch, .failed) := by
  cases latch <;> cases removable <;> simp [removeLatch]

/-- A release over the wire that succeeds leaves no latch; one that fails leaves the
    latch as it was. -/
theorem releaseHalt_latch (disk : Disk) (entry : JournalEntry) (jw lr : Bool) :
    ((releaseHalt disk entry jw lr).2 = true ∧ (releaseHalt disk entry jw lr).1.latch = .absent) ∨
    ((releaseHalt disk entry jw lr).2 = false ∧
      (releaseHalt disk entry jw lr).1.latch = disk.latch) := by
  cases jw with
  | false => exact Or.inr ⟨rfl, rfl⟩
  | true =>
    simp only [releaseHalt, appendJournalLine, if_true]
    rcases removeLatch_cases disk.latch lr with ⟨h, -⟩ | ⟨h, -⟩ | h
    · simp [h]
    · simp [h]
    · simp [h]

end CirisServer
