import CirisServer.ForStd.Except
import CirisServer.Spec.AccordStep

/-!
# A release token releases one latch instance

What `verify_release_token` accepts is gathered once, in `Accepted`; the facts about
tokens and latches follow from it and from the injectivity of the payload digest.

Key results:
- `verifyReleaseToken_accepted`: what an accepted token establishes
- `binding_eq_of_payloadSha256_eq`: the payload digest determines the binding
- `release_token_one_latch`: the whole contract of the offline release
-/

namespace CirisServer

/-! ## The binding -/

/-- A present, non-empty field. -/
theorem requireField_nonEmpty {what s : String} {field : Option String}
    (h : requireField what (nonEmpty field) = .ok s) : field = some s ∧ s ≠ "" := by
  cases field with
  | none => cases h
  | some v =>
    by_cases hv : v = ""
    · subst hv
      cases h
    · have hne : v.isEmpty = false := by simpa using hv
      simp only [nonEmpty, Option.filter, hne, requireField, Bool.not_false, if_true,
        Except.ok.injEq] at h
      exact ⟨congrArg some h, h ▸ hv⟩

/-- The binding a latch demands: its own four fields, none of them empty but the id. -/
theorem fromHaltRecord_ok {record : HaltRecord} {binding : ReleaseBinding}
    (h : ReleaseBinding.fromHaltRecord record = .ok binding) :
    record.nodeId = some binding.nodeId ∧ binding.nodeId ≠ "" ∧
    record.haltPayloadSha256 = some binding.haltPayloadSha256 ∧ binding.haltPayloadSha256 ≠ "" ∧
    record.latchId = some binding.latchId ∧ binding.latchId ≠ "" ∧
    record.invocationId = binding.haltInvocationId := by
  unfold ReleaseBinding.fromHaltRecord at h
  obtain ⟨nodeId, hnode, h⟩ := except_bind_ok h
  obtain ⟨payload, hpay, h⟩ := except_bind_ok h
  obtain ⟨latchId, hlatch, h⟩ := except_bind_ok h
  obtain rfl := Except.ok.inj h
  obtain ⟨h₁, h₁'⟩ := requireField_nonEmpty hnode
  obtain ⟨h₂, h₂'⟩ := requireField_nonEmpty hpay
  obtain ⟨h₃, h₃'⟩ := requireField_nonEmpty hlatch
  exact ⟨h₁, h₁', h₂, h₂', h₃, h₃', rfl⟩

/-- The payload digest determines the binding: JCS and SHA-256 are injective on it. -/
theorem binding_eq_of_payloadSha256_eq {D : PayloadDigest} {b₁ b₂ : ReleaseBinding} {digest : String}
    (h₁ : b₁.payloadSha256 D = .ok digest) (h₂ : b₂.payloadSha256 D = .ok digest) : b₁ = b₂ := by
  unfold ReleaseBinding.payloadSha256 ReleaseBinding.toJson at h₁ h₂
  cases hc₁ : D.canonicalize (Json.ofStrings b₁.members) with
  | error e => simp [hc₁] at h₁
  | ok bytes₁ =>
    cases hc₂ : D.canonicalize (Json.ofStrings b₂.members) with
    | error e => simp [hc₂] at h₂
    | ok bytes₂ =>
      simp only [hc₁, hc₂, Except.ok.injEq] at h₁ h₂
      -- equal digests, hence equal canonical bytes, hence equal members
      have hbytes : bytes₁ = bytes₂ := D.sha256Hex_inj _ _ (h₁.trans h₂.symm)
      have hmembers := D.canonicalize_inj b₁.members b₂.members bytes₁ rfl hc₁ (hbytes ▸ hc₂)
      obtain ⟨n₁, i₁, p₁, l₁⟩ := b₁
      obtain ⟨n₂, i₂, p₂, l₂⟩ := b₂
      simpa [ReleaseBinding.members] using hmembers

/-! ## Acceptance -/

/-- What an accepted token establishes, check by check. -/
structure Accepted (V : VerifyCore) (D : PayloadDigest) (record : HaltRecord)
    (token : ReleaseToken) (authority : ReleaseAuthority) (now : Rfc3339) (wall : Int) : Prop where
  binding : ∃ b, ReleaseBinding.fromHaltRecord record = .ok b ∧
    b.payloadSha256 D = .ok token.invocation.payloadSha256
  kind : token.invocation.invocationKind = .lifecycleActive
  resumes : token.invocation.resumesHaltId = some record.invocationId
  fresh : ∃ validUntil, token.invocation.validUntil.parse = some validUntil ∧
    releaseReferenceTime record now wall ≤ validUntil
  quorum : authority.threshold ≤
    (V.validSeats authority.roster token.invocation token.signatures).length

theorem checkResumes_ok {resumesHaltId : Option String} {latched : String} {u : Unit}
    (h : checkResumes resumesHaltId latched = .ok u) : resumesHaltId = some latched := by
  unfold checkResumes at h
  split at h
  · split at h
    · rename_i heq
      rw [heq]
    · cases h
  · cases h

theorem checkFreshness_ok {record : HaltRecord} {token : ReleaseToken} {now : Rfc3339}
    {reference : Int} {u : Unit} (h : checkFreshness record token now reference = .ok u) :
    ∃ validUntil, token.invocation.validUntil.parse = some validUntil ∧ reference ≤ validUntil := by
  unfold checkFreshness at h
  split at h
  · cases h
  · rename_i validUntil hparse
    split at h
    · cases h
    · exact ⟨validUntil, hparse, by omega⟩

/-- A token is accepted only with every check passed. -/
theorem verifyReleaseToken_accepted {V : VerifyCore} {D : PayloadDigest} {record : HaltRecord}
    {token : ReleaseToken} {authority : ReleaseAuthority} {now : Rfc3339} {wall : Int}
    {verdict : ReleaseVerdict}
    (h : verifyReleaseToken V D record token authority now wall = .ok verdict) :
    Accepted V D record token authority now wall := by
  unfold verifyReleaseToken at h
  -- check 1, the binding, is recomputed from the latch and never read off the token
  obtain ⟨b, hb, h⟩ := except_bind_ok h
  obtain ⟨expected, hexp, h⟩ := except_bind_ok h
  dsimp only at h
  split at h
  · cases h
  rename_i hkind
  -- checks 2 to 4: the named halt, the digest, the clock
  obtain ⟨_, hres, h⟩ := except_bind_ok h
  split at h
  · cases h
  rename_i hpay
  obtain ⟨_, hfresh, h⟩ := except_bind_ok h
  split at h
  · cases h
  rename_i valid hq
  have hid := (fromHaltRecord_ok hb).2.2.2.2.2.2
  exact
    { binding := ⟨b, hb, by rw [hexp, not_not.mp hpay]⟩
      kind := not_not.mp hkind
      resumes := by rw [checkResumes_ok hres, hid]
      fresh := checkFreshness_ok hfresh
      quorum := by
        obtain ⟨hn, hle⟩ := V.threshold_ok _ _ _ _ _ hq
        rw [hn] at hle
        exact hle }

/-- The reference instant is the later of the clock and the latch. -/
theorem le_releaseReferenceTime (record : HaltRecord) (now : Rfc3339) (wall : Int) :
    now.parse.getD wall ≤ releaseReferenceTime record now wall ∧
    ∀ latched, record.latchedAt.parse = some latched →
      latched ≤ releaseReferenceTime record now wall := by
  unfold releaseReferenceTime
  cases hl : record.latchedAt.parse with
  | none => exact ⟨Int.le_refl _, fun _ h => nomatch h⟩
  | some latched =>
    dsimp only
    split
    · refine ⟨by omega, fun l h => ?_⟩
      cases h
      omega
    · refine ⟨by omega, fun l h => ?_⟩
      cases h
      omega

/-! ## Honouring a token -/

/-- A refused release leaves the latch in place; only a failed removal is not a refusal. -/
theorem honorReleaseToken_error {V : VerifyCore} {D : PayloadDigest} {io : ReleaseIo} {disk : Disk}
    {record : HaltRecord} {token : ReleaseToken} {authority : ReleaseAuthority} {now : Rfc3339}
    {wall : Int} {e : ReleaseError}
    (h : (honorReleaseToken V D io disk record token authority now wall).2 = .error e)
    (hne : e ≠ .latchNotRemoved) :
    (honorReleaseToken V D io disk record token authority now wall).1.latch = disk.latch := by
  unfold honorReleaseToken at h ⊢
  cases hv : verifyReleaseToken V D record token authority now wall with
  | error e' => simp
  | ok verdict =>
    -- an accepted token is journaled before the latch goes, and fails there first
    simp only [hv] at h ⊢
    cases hj : io.journalWritable with
    | false => simp [appendJournalLine]
    | true =>
      simp only [hj, appendJournalLine, if_true] at h ⊢
      rcases removeLatch_cases disk.latch io.latchRemovable with ⟨hr, -⟩ | ⟨hr, -⟩ | hr
      · simp [hr] at h
      · simp only [hr, Except.error.injEq] at h
        exact absurd h.symm hne
      · simp only [hr, Except.error.injEq] at h
        exact absurd h.symm hne

/-- A latch that `honor_release_token` removed was released by an accepted token. -/
theorem honorReleaseToken_removed {V : VerifyCore} {D : PayloadDigest} {io : ReleaseIo} {disk : Disk}
    {record : HaltRecord} {token : ReleaseToken} {authority : ReleaseAuthority} {now : Rfc3339}
    {wall : Int} (hlatch : disk.latch ≠ .absent)
    (h : (honorReleaseToken V D io disk record token authority now wall).1.latch = .absent) :
    Accepted V D record token authority now wall := by
  cases hv : verifyReleaseToken V D record token authority now wall with
  | error e =>
    -- a rejection writes to the journal only
    simp only [honorReleaseToken, hv, journalRejection_latch] at h
    exact absurd h hlatch
  | ok verdict => exact verifyReleaseToken_accepted hv

/-- **An offline release token releases exactly one latch instance.** Whatever it is
    accepted for agrees on the node, the halt, its payload and the latch instance; the
    latch carries all of these and the token outlives both the clock and the latch; the
    token's `binding` and the latch's stored release fields decide nothing; and a
    refusal leaves the latch in place. -/
theorem release_token_one_latch (V : VerifyCore) (D : PayloadDigest) (token : ReleaseToken) :
    (∀ r₁ r₂ a₁ a₂ now₁ now₂ wall₁ wall₂ v₁ v₂,
      verifyReleaseToken V D r₁ token a₁ now₁ wall₁ = .ok v₁ →
      verifyReleaseToken V D r₂ token a₂ now₂ wall₂ = .ok v₂ →
      r₁.nodeId = r₂.nodeId ∧ r₁.invocationId = r₂.invocationId ∧
        r₁.haltPayloadSha256 = r₂.haltPayloadSha256 ∧ r₁.latchId = r₂.latchId) ∧
    (∀ record authority now wall verdict,
      verifyReleaseToken V D record token authority now wall = .ok verdict →
      (∀ field ∈ [record.nodeId, record.haltPayloadSha256, record.latchId],
        ∃ s, field = some s ∧ s ≠ "") ∧
      ∃ validUntil, token.invocation.validUntil.parse = some validUntil ∧
        now.parse.getD wall ≤ validUntil ∧
        ∀ latched, record.latchedAt.parse = some latched → latched ≤ validUntil) ∧
    (∀ record authority now wall binding digest stored,
      verifyReleaseToken V D
        { record with releasePayloadSha256 := digest, releaseBinding := stored }
        { token with binding } authority now wall =
      verifyReleaseToken V D record token authority now wall) ∧
    (∀ io disk record authority now wall e,
      (honorReleaseToken V D io disk record token authority now wall).2 = .error e →
      e ≠ .latchNotRemoved →
      (honorReleaseToken V D io disk record token authority now wall).1.latch = disk.latch) := by
  refine ⟨?_, ?_, ?_, ?_⟩
  · intro r₁ r₂ a₁ a₂ now₁ now₂ wall₁ wall₂ v₁ v₂ h₁ h₂
    obtain ⟨b₁, hb₁, hd₁⟩ := (verifyReleaseToken_accepted h₁).binding
    obtain ⟨b₂, hb₂, hd₂⟩ := (verifyReleaseToken_accepted h₂).binding
    -- both bindings have the digest the token was signed with
    obtain rfl : b₁ = b₂ := binding_eq_of_payloadSha256_eq hd₁ hd₂
    obtain ⟨hn₁, -, hp₁, -, hl₁, -, hi₁⟩ := fromHaltRecord_ok hb₁
    obtain ⟨hn₂, -, hp₂, -, hl₂, -, hi₂⟩ := fromHaltRecord_ok hb₂
    exact ⟨hn₁.trans hn₂.symm, hi₁.trans hi₂.symm, hp₁.trans hp₂.symm, hl₁.trans hl₂.symm⟩
  · intro record authority now wall verdict h
    have hacc := verifyReleaseToken_accepted h
    obtain ⟨b, hb, -⟩ := hacc.binding
    obtain ⟨hn, hn', hp, hp', hl, hl', -⟩ := fromHaltRecord_ok hb
    obtain ⟨validUntil, hparse, hle⟩ := hacc.fresh
    obtain ⟨hnow, hlatched⟩ := le_releaseReferenceTime record now wall
    refine ⟨?_, validUntil, hparse, by omega, fun latched h => ?_⟩
    · intro field hfield
      simp only [List.mem_cons, List.not_mem_nil, or_false] at hfield
      rcases hfield with rfl | rfl | rfl
      · exact ⟨_, hn, hn'⟩
      · exact ⟨_, hp, hp'⟩
      · exact ⟨_, hl, hl'⟩
    · have := hlatched latched h
      omega
  · intro record authority now wall binding digest stored
    rfl
  · intro io disk record authority now wall e h hne
    exact honorReleaseToken_error h hne

namespace Fixture

/-- A latch of the halt `h`; `latchId` is its instance. -/
def latchOf (latchId : String) : HaltRecord :=
  .new .ideal .constitutional "h" ["A1"] 1 (.instant 0) (some "node") (some "p") (some latchId)

/-- Two seats' release of the latch instance `latchId` of `h`. -/
def releaseToken (latchId : String) : ReleaseToken :=
  let inv := { invocation .lifecycleActive "r" (some "h") with
    payloadSha256 := ((latchOf latchId).releasePayloadSha256).getD "" }
  { invocation := inv, signatures := ["A1", "A2"].map fun s => idealCosign (seat s) inv
    binding := none }

def authority : ReleaseAuthority := ⟨family, 2, "baked"⟩

end Fixture

/-- A token for one latch instance of a halt is refused for the next one. -/
theorem release_token_one_latch_relatched :
    (∃ v, verifyReleaseToken .ideal .ideal (Fixture.latchOf "00") (Fixture.releaseToken "00")
      Fixture.authority (.instant 1) 0 = .ok v) ∧
    ∀ authority now wall v, verifyReleaseToken .ideal .ideal (Fixture.latchOf "01")
      (Fixture.releaseToken "00") authority now wall ≠ .ok v := by
  have hok : ∃ v, verifyReleaseToken .ideal .ideal (Fixture.latchOf "00")
      (Fixture.releaseToken "00") Fixture.authority (.instant 1) 0 = .ok v := ⟨_, rfl⟩
  refine ⟨hok, fun authority now wall v h => ?_⟩
  -- accepted for both, it would make their latch ids equal
  obtain ⟨v₀, h₀⟩ := hok
  have hsame := (release_token_one_latch .ideal .ideal (Fixture.releaseToken "00")).1
    _ _ _ _ _ _ _ _ _ _ h₀ h
  exact absurd hsame.2.2.2 (by decide)

end CirisServer
