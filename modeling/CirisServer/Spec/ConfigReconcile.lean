import CirisServer.Native.Retention

/-!
# A failed config read

`resolve` gives a knob whose read failed its baked default, and the reconciler publishes
what `resolve` returns. So a tick whose reads fail publishes defaults over whatever the
operator set: it leaves the published configuration alone exactly when that already
holds the defaults of the failed reads.

Key results:
- `failed_tick_keeps_iff`: when a failed tick keeps the last good snapshot
- `failed_snapshot_ageCutoff`: an operator's "keep forever" becomes a 90-day cutoff
-/

namespace CirisServer

/-- The config plane could not be read on this tick, or not all of it. -/
def PlaneReads.Failed (reads : PlaneReads) : Prop :=
  reads.snapshot.toOption = none ∨ reads.bootstrapPeers.toOption = none ∨
    reads.adminKeyIds.toOption = none

/-- The two configurations agree on every knob but the lists. -/
def ResolvedConfig.SameScalars (a b : ResolvedConfig) : Prop :=
  { a with bootstrapPeers := [], adminKeyIds := [] } =
    { b with bootstrapPeers := [], adminKeyIds := [] }

/-- The tick keeps the last good snapshot: what is published stays, and a node that keeps
    traces forever goes on being handed plans without an age cutoff. -/
def KeepsLastGood (jsonText : Json → String) (s : Reconciler) (wake : Wake)
    (reads : PlaneReads) : Prop :=
  (s.step jsonText (.tick wake reads)).published = s.published ∧
  (s.published.retentionMaxAgeDays = 0 → ∀ summary now,
    planEviction summary (RetentionConfig.fromResolved
      (s.step jsonText (.tick wake reads)).published).policy now =
    planEviction summary { (RetentionConfig.fromResolved
      (s.step jsonText (.tick wake reads)).published).policy with maxAgeDays := none } now)

/-- `current` holds the baked default of every knob whose read failed, and what was read of
    every other. -/
structure HoldsFallback (jsonText : Json → String) (reads : PlaneReads) (current : ResolvedConfig) :
    Prop where
  scalarsFailed : ∀ e, reads.snapshot = .error e → current.SameScalars .default
  scalarsRead : ∀ snap, reads.snapshot = .ok snap → current.SameScalars (.ofSnapshot (some snap))
  peersFailed : ∀ e, reads.bootstrapPeers = .error e → current.bootstrapPeers = []
  peersRead : ∀ snap, reads.bootstrapPeers = .ok snap →
    current.bootstrapPeers = (snap.strList jsonText keyBootstrapPeers).getD []
  adminsFailed : ∀ e, reads.adminKeyIds = .error e → current.adminKeyIds = []
  adminsRead : ∀ snap, reads.adminKeyIds = .ok snap →
    current.adminKeyIds = (snap.strList jsonText keyAdminKeyIds).getD []

section Tick

variable {jsonText : Json → String} {s : Reconciler} {wake : Wake} {reads : PlaneReads}

/-- While the loop runs, a tick publishes what it resolves. -/
theorem step_tick_published (hrun : s.running = true) :
    (s.step jsonText (.tick wake reads)).published = resolve jsonText reads := by
  simp only [Reconciler.step, hrun, if_true, sendIfModified_eq]

/-- A node without an age bound is handed no age cutoff. -/
theorem planEviction_no_age {r : ResolvedConfig} (h : r.retentionMaxAgeDays = 0)
    (summary : StorageSummary) (now : Int) :
    planEviction summary (RetentionConfig.fromResolved r).policy now =
      planEviction summary { (RetentionConfig.fromResolved r).policy with maxAgeDays := none } now := by
  have hage : (RetentionConfig.fromResolved r).policy.maxAgeDays = none := by
    simp [RetentionConfig.fromResolved, h]
  rw [← hage]

/-- Two configurations are equal if their scalars and their lists are. -/
theorem ResolvedConfig.eq_iff (a b : ResolvedConfig) :
    a = b ↔ a.SameScalars b ∧ a.bootstrapPeers = b.bootstrapPeers ∧ a.adminKeyIds = b.adminKeyIds := by
  constructor
  · rintro rfl
    exact ⟨rfl, rfl, rfl⟩
  · rintro ⟨hscalars, hpeers, hadmins⟩
    cases a
    cases b
    simp only [SameScalars, ResolvedConfig.mk.injEq] at hscalars
    simp_all

/-- The last good snapshot survives exactly if `resolve` gives it again. -/
theorem keepsLastGood_iff (hrun : s.running = true) :
    KeepsLastGood jsonText s wake reads ↔ s.published = resolve jsonText reads := by
  unfold KeepsLastGood
  rw [step_tick_published hrun]
  constructor
  · rintro ⟨heq, -⟩
    exact heq.symm
  · intro heq
    refine ⟨heq.symm, fun hzero summary now => ?_⟩
    rw [heq] at hzero
    exact planEviction_no_age hzero summary now

theorem listKnob_eq_iff {read : Except ConfigError ConfigSnapshot} {key : String} {l : List String} :
    l = listKnob jsonText read key [] ↔
      (∀ e, read = .error e → l = []) ∧
        ∀ snap, read = .ok snap → l = (snap.strList jsonText key).getD [] := by
  cases read with
  | error e => simp [listKnob, Except.toOption]
  | ok snap => simp [listKnob, Except.toOption]

theorem sameScalars_iff {current : ResolvedConfig} :
    current.SameScalars (resolve jsonText reads) ↔
      (∀ e, reads.snapshot = .error e → current.SameScalars .default) ∧
        ∀ snap, reads.snapshot = .ok snap → current.SameScalars (.ofSnapshot (some snap)) := by
  have hresolve : current.SameScalars (resolve jsonText reads) ↔
      current.SameScalars (.ofSnapshot reads.snapshot.toOption) := Iff.rfl
  rw [hresolve]
  cases reads.snapshot with
  | error e => simp [Except.toOption, ofSnapshot_none]
  | ok snap => simp [Except.toOption]

/-- What `resolve` gives is held exactly if the fallbacks are. -/
theorem eq_resolve_iff {current : ResolvedConfig} :
    current = resolve jsonText reads ↔ HoldsFallback jsonText reads current := by
  rw [ResolvedConfig.eq_iff, sameScalars_iff]
  constructor
  · rintro ⟨⟨h₁, h₂⟩, hpeers, hadmins⟩
    obtain ⟨h₃, h₄⟩ := listKnob_eq_iff.mp hpeers
    obtain ⟨h₅, h₆⟩ := listKnob_eq_iff.mp hadmins
    exact ⟨h₁, h₂, h₃, h₄, h₅, h₆⟩
  · intro h
    exact ⟨⟨h.scalarsFailed, h.scalarsRead⟩, listKnob_eq_iff.mpr ⟨h.peersFailed, h.peersRead⟩,
      listKnob_eq_iff.mpr ⟨h.adminsFailed, h.adminsRead⟩⟩

/-- Where the snapshot read fails, an age bound of 90 days is planned with, whatever the
    operator set. -/
theorem failed_snapshot_ageCutoff (hrun : s.running = true) {e : ConfigError}
    (hfail : reads.snapshot = .error e) (now : Int) :
    ageCutoff (RetentionConfig.fromResolved (s.step jsonText (.tick wake reads)).published).policy now =
      some (now - 90 * nanosPerDay) := by
  have hage : (resolve jsonText reads).retentionMaxAgeDays = 90 := by
    simp only [resolve, hfail, Except.toOption, ofSnapshot_none]
    rfl
  rw [step_tick_published hrun]
  simp [ageCutoff, RetentionConfig.fromResolved, hage]

end Tick

/-- A tick on which a read of the config plane fails keeps the last good snapshot exactly if
    that snapshot already holds the defaults of the failed reads (and what the others read). -/
theorem failed_tick_keeps_iff (jsonText : Json → String) (s : Reconciler) (wake : Wake)
    (reads : PlaneReads) (hrun : s.running = true) (_hfail : reads.Failed) :
    KeepsLastGood jsonText s wake reads ↔ HoldsFallback jsonText reads s.published :=
  (keepsLastGood_iff hrun).trans eq_resolve_iff

/-- A tick on which nothing can be read. -/
def Fixture.unreadable : PlaneReads where
  snapshot := .error (.admission "locked")
  bootstrapPeers := .error (.admission "locked")
  adminKeyIds := .error (.admission "locked")

/-- A node on the baked defaults keeps them. -/
theorem failed_tick_keeps_defaults :
    KeepsLastGood (fun _ => "") ⟨.default, true⟩ .cadence Fixture.unreadable :=
  (failed_tick_keeps_iff (fun _ => "") ⟨.default, true⟩ .cadence Fixture.unreadable rfl
    (Or.inl rfl)).mpr
    { scalarsFailed := fun _ _ => rfl
      scalarsRead := fun _ h => by cases h
      peersFailed := fun _ _ => rfl
      peersRead := fun _ h => by cases h
      adminsFailed := fun _ _ => rfl
      adminsRead := fun _ h => by cases h }

/-- A node that keeps its traces forever. -/
def Fixture.archive : Reconciler where
  published := { ResolvedConfig.default with retentionMaxAgeDays := 0 }
  running := true

/-- One failed tick, and the archive's next plan deletes what is older than 90 days. -/
theorem failed_tick_bounds_archive :
    ¬ KeepsLastGood (fun _ => "") Fixture.archive .cadence Fixture.unreadable ∧
    (planEviction ⟨⟨0, none, none⟩, ⟨0, none, none⟩, 0⟩
      (RetentionConfig.fromResolved (Fixture.archive.step (fun _ => "")
        (.tick .cadence Fixture.unreadable)).published).policy 0).deleteTracesOlderThan =
      some (-90 * nanosPerDay) := by
  have hresolve : resolve (fun _ => "") Fixture.unreadable = .default :=
    congrArg (fun r : ResolvedConfig => { r with bootstrapPeers := [], adminKeyIds := [] })
      ofSnapshot_none
  constructor
  · rw [keepsLastGood_iff rfl, hresolve]
    intro heq
    exact absurd (congrArg ResolvedConfig.retentionMaxAgeDays heq) (by decide)
  · rw [step_tick_published rfl, hresolve]
    decide

end CirisServer
