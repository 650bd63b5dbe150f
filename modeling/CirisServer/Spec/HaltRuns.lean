import CirisServer.Spec.AccordStep

/-!
# A halt over whole runs

The fuse and the persistence of a halt, over every sequence of accord objects. The
latch is one file that the halt arm overwrites with a fresh receipt whenever it is
handed a quorum-complete `constitutional` row, whatever stands there; both results
below hold as long as no such overwrite takes place, and fail in runs where one does.

Key results:
- `lone_halt_lapses`: a halt received once and never confirmed lapses with its fuse
- `halt_stands`: a halt in effect ends by its own fuse or by a majority's resumption
-/

namespace CirisServer

open Run

/-- The fuse of the node's charter, as a duration. -/
def Node.fuse (node : Node) : Int :=
  (min node.fuseSecs HaltRecord.i64Max : Nat) * nanosPerSec

/-- The latch records a halt other than `h`, or none. -/
def LatchSpares (h : String) (latch : LatchFile) : Prop :=
  ∀ r, latch = .record r → r.invocationId ≠ h

theorem latchSpares_absent (h : String) : LatchSpares h .absent := by
  intro r hr
  cases hr

theorem latchSpares_unreadable (h : String) : LatchSpares h .unreadable := by
  intro r hr
  cases hr

/-- `d` is an authentic `constitutional` row with id `h`. -/
def ReceivesHalt (node : Node) (h : String) (st : AccordState) (d : Delivery) : Prop :=
  match judgedRow node (receivedAt st d) d with
  | some row => row.invocation.invocationKind = .constitutional ∧ row.invocation.invocationId = h
  | none => False

instance (node : Node) (h : String) (st : AccordState) (d : Delivery) :
    Decidable (ReceivesHalt node h st d) := by
  unfold ReceivesHalt
  split <;> infer_instance

/-- Some latch write of the halt arm lands. -/
def WriteLands (node : Node) (d : Delivery) : Prop :=
  node.home.isSome = true ∧ .written ∈ d.env.latchWrites.take 8

instance (node : Node) (d : Delivery) : Decidable (WriteLands node d) :=
  inferInstanceAs (Decidable (_ ∧ _))

/-- What a read of the latch at `t` shows: the halt it records, and its standing. -/
def LatchFile.reads (latch : LatchFile) (t : Int) : Option (String × HaltStanding) :=
  match latch with
  | .record r => some (r.invocationId, r.standingAt t)
  | _ => none

/-- A read that shows a halt found its record. -/
theorem LatchFile.reads_some {latch : LatchFile} {t : Int} {id : String} {standing : HaltStanding}
    (h : latch.reads t = some (id, standing)) :
    ∃ r, latch = .record r ∧ r.invocationId = id ∧ r.standingAt t = standing := by
  cases latch with
  | absent => cases h
  | unreadable => cases h
  | record r =>
    simp only [reads, Option.some.injEq, Prod.mk.injEq] at h
    exact ⟨r, rfl, h.1, h.2⟩

/-- What `haltRecord` leaves for the fuse to read. -/
theorem haltRecord_fields (node : Node) (row : AccordRow) (rng : Option String) :
    (haltRecord node row rng).invocationId = row.status.invocationId ∧
    (haltRecord node row rng).confirmed = none ∧
    (haltRecord node row rng).lapsesAt = row.now + node.fuse :=
  HaltRecord.new_withFuse_fields node.digest row.status.invocationKind row.status.invocationId
    row.status.validSigners row.threshold row.now node.nodeId
    (some row.invocation.payloadSha256) rng node.fuseSecs

/-- A judged halt row is a receipt of the halt it latches. -/
theorem receivesHalt_of_judged {node : Node} {st : AccordState} {d : Delivery} {row : AccordRow}
    (hrow : judgedRow node (receivedAt st d) d = some row) (hh : row.isGlobalHalt = true) :
    ReceivesHalt node row.status.invocationId st d := by
  have hj := judgedRow_judged hrow
  simp only [AccordRow.isGlobalHalt, Bool.and_eq_true, decide_eq_true_eq] at hh
  simp only [ReceivesHalt, hrow]
  exact ⟨hh.1, hj.id.symm⟩

/-! ## A lone halt lapses -/

/-- The halt `h`, first received with `d` after the deliveries `pre`, does not outlive
    its fuse in the run that goes on with `post`: if no majority confirms `h` within
    the fuse, then from the end of the fuse on a latch of `h` stands lapsed. -/
def LoneHaltLapses (node : Node) (h : String) (st : AccordState) (pre : List Delivery)
    (d : Delivery) (post : List Delivery) : Prop :=
  let first := after (deliver node) st pre
  let received := receivedAt first d
  let last := after (deliver node) first (d :: post)
  LatchSpares h st.disk.latch →
  Guarded (deliver node) (fun s e => ¬ ReceivesHalt node h s e) st pre →
  ReceivesHalt node h first d →
  ¬ Happens (deliver node) (fun s e => MajorityConfirms node h e ∧
      received ≤ processedAt s e ∧ processedAt s e < received + node.fuse) first (d :: post) →
  ∀ t, last.clock ≤ t → received + node.fuse ≤ t →
    ∀ r, last.disk.latch = .record r → r.invocationId = h →
      ∃ lapsedAt, r.standingAt t = .lapsed lapsedAt

/-- `e` stamps the latch of `h` with a receipt later than `received`. -/
def RestampsHalt (node : Node) (h : String) (received : Int) (st : AccordState) (e : Delivery) :
    Prop :=
  ReceivesHalt node h st e ∧ received < receivedAt st e ∧ WriteLands node e

instance (node : Node) (h : String) (received : Int) (st : AccordState) (e : Delivery) :
    Decidable (RestampsHalt node h received st e) :=
  inferInstanceAs (Decidable (_ ∧ _ ∧ _))

/-- Only a receipt of `h` makes the latch one of `h`. -/
theorem deliver_latchSpares {node : Node} {h : String} {st : AccordState} {d : Delivery}
    (hinv : LatchSpares h st.disk.latch) (hnot : ¬ ReceivesHalt node h st d) :
    LatchSpares h (deliver node st d).disk.latch := by
  have heff := deliver_latch node st d
  generalize (deliver node st d).disk.latch = latch at heff
  intro r hr hid
  cases heff with
  | kept => exact hinv r hr hid
  | haltTorn => cases hr
  | confirmTorn => cases hr
  | released => cases hr
  | halted row hrow hh =>
    cases hr
    apply hnot
    rw [(haltRecord_fields node row d.env.rng).1] at hid
    exact hid ▸ receivesHalt_of_judged hrow hh
  | confirmed r' c hl =>
    cases hr
    exact hinv r' hl hid

/-- What holds from the first receipt of `h` on: the clock is past it, and a latch of
    `h` is unconfirmed and lapses with the fuse counted from it. -/
structure FuseRuns (node : Node) (h : String) (received : Int) (st : AccordState) : Prop where
  clock : received ≤ st.clock
  latch : ∀ r, st.disk.latch = .record r → r.invocationId = h →
    r.confirmed = none ∧ r.lapsesAt ≤ received + node.fuse

/-- A halt row leaves a latch whose fuse counts from its own receipt. -/
theorem haltRecord_lapsesAt {node : Node} {st : AccordState} {d : Delivery} {row : AccordRow}
    (hrow : judgedRow node (receivedAt st d) d = some row) (rng : Option String) :
    (haltRecord node row rng).lapsesAt = receivedAt st d + node.fuse := by
  rw [(haltRecord_fields node row rng).2.2, (judgedRow_judged hrow).now]

/-- The first receipt of `h` starts its fuse. -/
theorem deliver_fuseRuns_first {node : Node} {h : String} {st : AccordState} {d : Delivery}
    (hinv : LatchSpares h st.disk.latch) :
    FuseRuns node h (receivedAt st d) (deliver node st d) := by
  refine ⟨deliver_receivedAt_le node st d, ?_⟩
  have heff := deliver_latch node st d
  generalize (deliver node st d).disk.latch = latch at heff
  intro r hr hid
  cases heff with
  | kept => exact absurd hid (hinv r hr)
  | haltTorn => cases hr
  | confirmTorn => cases hr
  | released => cases hr
  | halted row hrow hh =>
    cases hr
    exact ⟨(haltRecord_fields node row d.env.rng).2.1, Int.le_of_eq (haltRecord_lapsesAt hrow _)⟩
  | confirmed r' c hl =>
    cases hr
    exact absurd hid (hinv r' hl)

/-- **Step.** A delivery that neither confirms `h` within the fuse nor re-stamps its
    latch keeps the fuse running. -/
theorem deliver_fuseRuns {node : Node} {h : String} {received : Int} {st : AccordState}
    {d : Delivery} (hinv : FuseRuns node h received st)
    (hconf : ¬ (MajorityConfirms node h d ∧ received ≤ processedAt st d ∧
      processedAt st d < received + node.fuse))
    (hre : ¬ RestampsHalt node h received st d) :
    FuseRuns node h received (deliver node st d) := by
  -- the clock has passed the first receipt
  have hrecv : received ≤ receivedAt st d := by
    have := hinv.clock
    unfold receivedAt
    omega
  refine ⟨Int.le_trans hinv.clock (deliver_clock_le node st d), ?_⟩
  have heff := deliver_latch node st d
  generalize (deliver node st d).disk.latch = latch at heff
  intro r hr hid
  cases heff with
  | kept => exact hinv.latch r hr hid
  | haltTorn => cases hr
  | confirmTorn => cases hr
  | released => cases hr
  | halted row hrow hh hhome hw =>
    cases hr
    refine ⟨(haltRecord_fields node row d.env.rng).2.1, ?_⟩
    -- the row is a receipt of `h`, so it cannot be later than the first one
    have hreceives : ReceivesHalt node h st d := by
      rw [(haltRecord_fields node row d.env.rng).1] at hid
      exact hid ▸ receivesHalt_of_judged hrow hh
    have hle : receivedAt st d ≤ received := by
      by_contra hlt
      exact hre ⟨hreceives, by omega, hhome, hw⟩
    rw [haltRecord_lapsesAt hrow]
    omega
  | confirmed r' c hl hm _ he =>
    cases hr
    -- the arm checked that the fuse still runs, so this is a confirmation in time
    obtain ⟨hnone, hlapse⟩ := hinv.latch r' hl hid
    have hlt : processedAt st d < r'.lapsesAt := by
      simpa [hnone] using (HaltRecord.inEffectAt_iff r' _).mp he
    have hge : received ≤ processedAt st d := by
      unfold processedAt
      omega
    exact absurd ⟨hid ▸ hm, hge, by omega⟩ hconf

/-- **A lone halt cannot outlive its fuse**, in every run that never stamps a later
    receipt of the halt into the latch. -/
theorem lone_halt_lapses (node : Node) (h : String) (st : AccordState) (pre : List Delivery)
    (d : Delivery) (post : List Delivery)
    (hre : Guarded (deliver node)
      (fun s e => ¬ RestampsHalt node h (receivedAt (after (deliver node) st pre) d) s e)
      (deliver node (after (deliver node) st pre) d) post) :
    LoneHaltLapses node h st pre d post := by
  unfold LoneHaltLapses
  intro first received last hspares hpre hd hconf t _ ht r hr hid
  -- before the first receipt the latch is not one of `h`
  have hfirst : LatchSpares h first.disk.latch :=
    Guarded.invariant (I := fun s => LatchSpares h s.disk.latch)
      (fun s e hinv hnot => deliver_latchSpares hinv hnot) hpre hspares
  have hstart : FuseRuns node h received (deliver node first d) := deliver_fuseRuns_first hfirst
  -- from it on the fuse runs
  have hguard := (Guarded.of_not_happens hconf).2.and hre
  have hlast : FuseRuns node h received (after (deliver node) (deliver node first d) post) :=
    Guarded.invariant (fun s e hinv hok => deliver_fuseRuns hinv hok.1 hok.2) hguard hstart
  obtain ⟨hnone, hlapse⟩ := hlast.latch r hr hid
  exact ⟨_, r.standingAt_lapsed t hnone (by omega)⟩

/-- A halt handed in once, and a majority's confirmation a second too late for it. -/
theorem lone_halt_lapses_late_confirmation :
    let run := [Fixture.later 86400 (Fixture.confirm "c" "h")]
    let last := after (deliver Fixture.node) Fixture.fresh (Fixture.fire "h" "A1" :: run)
    ∃ r lapsedAt, last.disk.latch = .record r ∧ r.standingAt last.clock = .lapsed lapsedAt := by
  intro run last
  have hlapses := lone_halt_lapses Fixture.node "h" Fixture.fresh [] (Fixture.fire "h" "A1") run
    (by decide) (by intro r hr; cases hr) trivial (by decide) (by decide)
    last.clock (Int.le_refl _) (by decide)
  obtain ⟨r, hl, hid, -⟩ := LatchFile.reads_some
    (show last.disk.latch.reads 0 = some ("h", .inEffect (some (.instant 86401000000000))) by decide)
  obtain ⟨lapsedAt, hstand⟩ := hlapses r hl hid
  exact ⟨r, lapsedAt, hl, hstand⟩

/-- One holder keeps the agents stopped alone: the same row, handed in again before its
    fuse ends, is still in effect when the fuse has passed. -/
theorem redelivered_halt_outlives_fuse :
    ¬ LoneHaltLapses Fixture.node "h" Fixture.fresh [] (Fixture.fire "h" "A1")
      [Fixture.later 82800 (Fixture.fire "h" "A1")] := by
  intro hlapses
  have hstand := hlapses (by intro r hr; cases hr) trivial (by decide) (by decide)
    86401000000000 (by decide) (by decide)
  obtain ⟨r, hl, hid, heff⟩ := LatchFile.reads_some
    (show (after (deliver Fixture.node) Fixture.fresh [Fixture.fire "h" "A1",
      Fixture.later 82800 (Fixture.fire "h" "A1")]).disk.latch.reads 86401000000000 =
        some ("h", .inEffect (some (.instant 169202000000000))) by decide)
  obtain ⟨lapsedAt, hlapsed⟩ := hstand r hl hid
  rw [heff] at hlapsed
  cases hlapsed

/-! ## A standing halt ends only by authority -/

/-- A latch of `h` whose fuse has passed at `t` with no confirmation. -/
def LapsedUnconfirmed (h : String) (t : Int) (latch : LatchFile) : Prop :=
  ∃ r, latch = .record r ∧ r.invocationId = h ∧ r.confirmed = none ∧ r.lapsesAt ≤ t

/-- The node still recognises the resumption and the confirmation of `h`: a strict
    majority's row naming `h` is answered as such, if the disk takes it. -/
structure Recognises (node : Node) (h : String) (st : AccordState) (r : HaltRecord) : Prop where
  resumption : ∀ d row, judgedRow node (receivedAt st d) d = some row →
    MajorityResumes node h d → node.home.isSome = true → d.env.latchReadable = true →
    d.env.journalWritable = true → d.env.latchRemovable = true →
    (replicateAndMaybeHalt node d st).2 = .ok { row.outcome with released := true }
  confirmation : ∀ d row, judgedRow node (receivedAt st d) d = some row →
    MajorityConfirms node h d → node.home.isSome = true → d.env.latchReadable = true →
    d.env.confirmWrite = .written → r.inEffectAt (processedAt st d) = true →
    (replicateAndMaybeHalt node d st).2 = .ok { row.outcome with confirmed := true }

/-- A halt `h` in effect in `st` ends only by authority in `run`: at every time after
    it, `h` is in effect and recognised, and confirmed if it was, unless it was
    unconfirmed and its fuse has passed, or a strict majority's resumption of `h` was
    processed. -/
def HaltEndsByAuthority (node : Node) (h : String) (st : AccordState) (run : List Delivery) :
    Prop :=
  let last := after (deliver node) st run
  ∀ r, st.disk.latch = .record r → r.invocationId = h → r.inEffectAt st.clock = true →
  ∀ t, last.clock ≤ t →
    (∃ r', last.disk.latch = .record r' ∧ r'.invocationId = h ∧ r'.inEffectAt t = true ∧
      (r.confirmed.isSome = true → r'.confirmed.isSome = true) ∧ Recognises node h last r') ∨
    (r.confirmed = none ∧ (LapsedUnconfirmed h t last.disk.latch ∨
      Happens (deliver node) (fun s e => LapsedUnconfirmed h (receivedAt s e) s.disk.latch)
        st run)) ∨
    Happens (deliver node) (fun _ e => MajorityResumes node h e) st run

/-- `e` leaves a standing latch of `h` to its authorities. If it is a halt row, either
    the disk refuses its write altogether, or it is a row of `h` itself, `h` is still
    unconfirmed and the write lands; if it is a confirmation of `h`, the disk does not
    lose the file under it. -/
def LeavesHalt (node : Node) (h : String) (st : AccordState) (e : Delivery) : Prop :=
  match st.disk.latch with
  | .record r =>
    r.invocationId = h → r.inEffectAt (receivedAt st e) = true →
      (match judgedRow node (receivedAt st e) e with
        | some row => row.isGlobalHalt = true → node.home.isSome = true →
          (.written ∉ e.env.latchWrites.take 8 ∧ .torn ∉ e.env.latchWrites.take 8) ∨
          (row.status.invocationId = h ∧ r.confirmed = none ∧
            .written ∈ e.env.latchWrites.take 8)
        | none => True) ∧
      (MajorityConfirms node h e → r.confirmed = none → e.env.confirmWrite ≠ .torn)
  | _ => True

instance (node : Node) (h : String) (st : AccordState) (e : Delivery) :
    Decidable (LeavesHalt node h st e) := by
  unfold LeavesHalt
  cases st.disk.latch with
  | absent => exact isTrue trivial
  | unreadable => exact isTrue trivial
  | record r =>
    cases judgedRow node (receivedAt st e) e <;> infer_instance

/-- A node whose latch is a record of `h` recognises what is said about `h`. -/
theorem recognises_of_latch {node : Node} {st : AccordState} {r : HaltRecord}
    (hl : st.disk.latch = .record r) : Recognises node r.invocationId st r where
  resumption := by
    intro d row hrow hm hhome hread hjournal hremove
    obtain ⟨hk, hn, hq⟩ := (judgedRow_judged hrow).of_majority (Or.inr rfl) hm
    rcases beginHandling_eq node d st with ⟨hnone, -⟩ | ⟨row', hrow', hbegin⟩
    · rw [hrow] at hnone
      cases hnone
    obtain rfl : row = row' := by simpa [hrow] using hrow'
    have hread' : releaseRead d.env row (sighted node d row st) = .ok r := by
      simp [releaseRead, sighted, hl, readHaltLatch, hread, hn]
    simp only [replicateAndMaybeHalt, hbegin, chooseArm_resuming hq hk hhome, activeArm, hread']
    simp [releaseRemove, releaseHalt, appendJournalLine, removeLatch, hjournal, hremove, sighted, hl]
  confirmation := by
    intro d row hrow hm hhome hread hwrite heff
    obtain ⟨hk, hn, hq⟩ := (judgedRow_judged hrow).of_majority (Or.inl rfl) hm
    rcases beginHandling_eq node d st with ⟨hnone, -⟩ | ⟨row', hrow', hbegin⟩
    · rw [hrow] at hnone
      cases hnone
    obtain rfl : row = row' := by simpa [hrow] using hrow'
    have heff' : r.inEffectAt (receivedAt st d + d.env.handling) = true := heff
    simp only [replicateAndMaybeHalt, hbegin, chooseArm_confirming hq hk hhome, confirmedArm]
    cases hc : r.confirmed with
    | some c => simp [confirmRead, sighted, hl, readHaltLatch, hread, hn, heff', hc]
    | none =>
      simp [confirmRead, sighted, hl, readHaltLatch, hread, hn, heff', hc, confirmWrite,
        confirmHalt, latchHalt, hwrite]

/-- The latch is one of `h`, and confirmed if `r` was. -/
def Latched (h : String) (r : HaltRecord) (st : AccordState) : Prop :=
  ∃ r', st.disk.latch = .record r' ∧ r'.invocationId = h ∧
    (r.confirmed.isSome = true → r'.confirmed.isSome = true)

/-- **Step.** A delivery that leaves `h` to its authorities keeps it latched, unless its
    fuse has passed or the delivery is a majority's resumption. -/
theorem deliver_latched {node : Node} {h : String} {r : HaltRecord} {st : AccordState}
    {d : Delivery} (hinv : Latched h r st) (hok : LeavesHalt node h st d) :
    Latched h r (deliver node st d) ∨
      ((r.confirmed = none ∧ LapsedUnconfirmed h (receivedAt st d) st.disk.latch) ∨
        MajorityResumes node h d) := by
  obtain ⟨r', hl, hid, hkeep⟩ := hinv
  by_cases hstands : r'.inEffectAt (receivedAt st d) = true
  · simp only [LeavesHalt, hl] at hok
    obtain ⟨hhalt, hconf⟩ := hok hid hstands
    have heff := deliver_latch node st d
    unfold Latched
    generalize (deliver node st d).disk.latch = latch at heff
    cases heff with
    | kept => exact Or.inl ⟨r', hl, hid, hkeep⟩
    | haltTorn row hrow hh hhome ht hw =>
      rw [hrow] at hhalt
      rcases hhalt hh hhome with ⟨-, hnt⟩ | ⟨-, -, hw'⟩
      · exact absurd ht hnt
      · exact absurd hw' hw
    | halted row hrow hh hhome hw =>
      rw [hrow] at hhalt
      rcases hhalt hh hhome with ⟨hnw, -⟩ | ⟨hsame, hnone, -⟩
      · exact absurd hw hnw
      · -- a re-delivery of `h` itself, not confirmed so far
        refine Or.inl ⟨_, rfl, (haltRecord_fields node row _).1.trans hsame, fun hr => ?_⟩
        simp [hnone] at hkeep
        simp [hkeep] at hr
    | confirmTorn r₀ hl₀ hm hnone ht =>
      obtain rfl : r' = r₀ := by simpa [hl] using hl₀
      exact absurd ht (hconf (hid ▸ hm) hnone)
    | confirmed r₀ c hl₀ hm hnone he =>
      -- its own confirmation: now it stands without a fuse
      obtain rfl : r' = r₀ := by simpa [hl] using hl₀
      exact Or.inl ⟨_, rfl, hid, fun _ => rfl⟩
    | released r₀ hl₀ hm =>
      obtain rfl : r' = r₀ := by simpa [hl] using hl₀
      exact Or.inr (Or.inr (hid ▸ hm))
  · -- out of effect: unconfirmed, and the fuse has passed
    rw [HaltRecord.inEffectAt_iff, not_or] at hstands
    have hnone : r'.confirmed = none := by simpa using hstands.1
    have hr : r.confirmed = none := by simpa [hnone] using hkeep
    exact Or.inr (Or.inl ⟨hr, r', hl, hid, hnone, by omega⟩)

/-- **A standing halt ends only by authority**, in every run whose deliveries all leave
    it to its authorities. -/
theorem halt_stands (node : Node) (h : String) (st : AccordState) (run : List Delivery)
    (hok : Guarded (deliver node) (LeavesHalt node h) st run) :
    HaltEndsByAuthority node h st run := by
  unfold HaltEndsByAuthority
  intro last r hl hid _ t _
  have hstart : Latched h r st := ⟨r, hl, hid, id⟩
  -- the halt stays latched through the run, or some delivery ended it
  rcases Guarded.unless (fun s e hinv hleaves => deliver_latched hinv hleaves) hok hstart with
    hlast | hends
  · obtain ⟨r', hl', hid', hkeep⟩ := hlast
    by_cases hstands : r'.inEffectAt t = true
    · exact Or.inl ⟨r', hl', hid', hstands, hkeep, hid' ▸ recognises_of_latch hl'⟩
    · rw [HaltRecord.inEffectAt_iff, not_or] at hstands
      have hnone : r'.confirmed = none := by simpa using hstands.1
      have hr : r.confirmed = none := by simpa [hnone] using hkeep
      exact Or.inr (Or.inl ⟨hr, Or.inl ⟨r', hl', hid', hnone, by omega⟩⟩)
  · rcases hends.or with hlapse | hres
    · obtain ⟨hr, hlapse⟩ := hlapse.and_left
      exact Or.inr (Or.inl ⟨hr, Or.inr hlapse⟩)
    · exact Or.inr (Or.inr hres)

/-- A confirmed halt, through the confirmation and the resumption of another and a year. -/
theorem halt_stands_confirmed :
    let st := after (deliver Fixture.node) Fixture.fresh
      [Fixture.fire "h" "A1", Fixture.confirm "c" "h"]
    let last := after (deliver Fixture.node) st
      [Fixture.confirm "d" "g", Fixture.later 31536000 (Fixture.resume "r" "g")]
    ∃ r, last.disk.latch = .record r ∧ r.invocationId = "h" ∧ r.inEffectAt last.clock = true := by
  intro st last
  obtain ⟨r, hl, hid, hst⟩ := LatchFile.reads_some
    (show st.disk.latch.reads st.clock = some ("h", .inEffect none) by decide)
  have hconf := r.confirmed_of_standingAt _ hst
  have heff : r.inEffectAt st.clock = true := (r.inEffectAt_iff _).mpr (Or.inl hconf)
  rcases halt_stands Fixture.node "h" st _ (by decide) r hl hid heff last.clock (Int.le_refl _) with
    ⟨r', hl', hid', heff', -⟩ | ⟨hnone, -⟩ | hres
  · exact ⟨r', hl', hid', heff'⟩
  · simp [hnone] at hconf
  · exact absurd hres (by decide)

/-- Another holder's halt displaces a confirmed one: the latch is then the new halt's,
    and lapses with its fuse. -/
theorem second_fire_displaces_confirmed_halt :
    ¬ HaltEndsByAuthority Fixture.node "h"
      (after (deliver Fixture.node) Fixture.fresh [Fixture.fire "h" "A1", Fixture.confirm "c" "h"])
      [Fixture.fire "g" "A3"] := by
  intro hends
  obtain ⟨r, hl, hid, hst⟩ := LatchFile.reads_some
    (show (after (deliver Fixture.node) Fixture.fresh
      [Fixture.fire "h" "A1", Fixture.confirm "c" "h"]).disk.latch.reads 0 =
        some ("h", .inEffect none) by decide)
  have hconf := r.confirmed_of_standingAt _ hst
  obtain ⟨r', hl', hid', -⟩ := LatchFile.reads_some
    (show (after (deliver Fixture.node) Fixture.fresh
      [Fixture.fire "h" "A1", Fixture.confirm "c" "h", Fixture.fire "g" "A3"]).disk.latch.reads 0 =
        some ("g", .inEffect (some (.instant 86403000000000))) by decide)
  rcases hends r hl hid ((r.inEffectAt_iff _).mpr (Or.inl hconf)) _ (Int.le_refl _) with
    ⟨r₀, hl₀, hid₀, -⟩ | ⟨hnone, -⟩ | hres
  · obtain rfl : r₀ = r' := by simpa using hl₀.symm.trans hl'
    exact absurd (hid₀.symm.trans hid') (by decide)
  · simp [hnone] at hconf
  · exact absurd hres (by decide)

end CirisServer
