import CirisServer.ForStd.Run
import CirisServer.Native.Accord

/-!
# What one accord object can do to the latch

`replicate_and_maybe_halt` has one inversion lemma here, `deliver_latch`: after a
delivery the latch is as it was, torn by the disk, or what one of the three arms
wrote, with every check that arm made. The results about whole runs rest on it and
never unfold the message path again.

Key results:
- `judgedRow_judged`: everything judging an object establishes
- `Judged.majority`: a lifecycle row that meets its quorum is signed by a strict majority
- `deliver_latch`: the latch after a delivery
- `deliver_clock_le`: the clock never runs backwards
-/

namespace CirisServer

/-! ## Judged rows -/

/-- The invocation an object carries. -/
def SignedCegObject.invocation (obj : SignedCegObject) : Option Invocation :=
  match parseAccordInvocation obj with
  | .ok p => some p.invocation
  | .error _ => none

/-- The cosignatures an object carries. -/
def SignedCegObject.signatures (obj : SignedCegObject) : List ThresholdSignature :=
  match parseAccordInvocation obj with
  | .ok p => p.signatures
  | .error _ => []

/-- When the node judges `d`. -/
def receivedAt (st : AccordState) (d : Delivery) : Int := st.clock + d.env.wait

/-- When the confirmation arm reads the clock for `d`. -/
def processedAt (st : AccordState) (d : Delivery) : Int := receivedAt st d + d.env.handling

/-- The authentic row `d` is judged to be at `now`; nothing for an object that is
    refused or carries no valid cosignature. -/
def judgedRow (node : Node) (now : Int) (d : Delivery) : Option AccordRow :=
  match d.env.roster with
  | .error _ => none
  | .ok roster =>
    match judge node roster d.obj now with
    | .error _ => none
    | .ok row => if row.status.validSigners.isEmpty then none else some row

/-- What judging `d` at `now` to be `row` establishes. -/
structure Judged (node : Node) (now : Int) (d : Delivery) (row : AccordRow) : Prop where
  obj : row.obj = d.obj
  roster : d.env.roster = .ok row.roster
  parsed : ∃ p, parseAccordInvocation d.obj = .ok p ∧ p.invocation = row.invocation ∧
    p.signatures = row.signatures
  kind : row.status.invocationKind = row.invocation.invocationKind
  id : row.status.invocationId = row.invocation.invocationId
  seats : row.status.validSigners.Perm
    (node.verify.validSeats row.roster row.invocation row.signatures)
  authentic : row.status.validSigners ≠ []
  threshold : row.threshold =
    haltPlaneThreshold node.verify row.invocation.invocationKind row.roster.length
  now : row.now = now

/-- The row of a successful `judge`, field by field. -/
theorem judge_ok {node : Node} {roster : List ThresholdMember} {obj : SignedCegObject} {now : Int}
    {row : AccordRow} (h : judge node roster obj now = .ok row) :
    ∃ p status, parseAccordInvocation obj = .ok p ∧
      node.verify.accordInvocationStatus { p with roster } = .ok status ∧
      row = { obj, roster, invocation := p.invocation, signatures := p.signatures, status, now
              threshold := haltPlaneThreshold node.verify p.invocation.invocationKind
                roster.length } := by
  -- the re-bound object parses back to its parts, so one parse decides
  simp only [judge, parseAccordInvocation, buildAccordInvocationObject] at h ⊢
  cases hp : obj.parsed with
  | error e => simp [hp] at h
  | ok p =>
    simp only [hp] at h
    cases hs : node.verify.accordInvocationStatus { p with roster } with
    | error e => simp [hs] at h
    | ok status =>
      simp only [hs, Except.ok.injEq] at h
      exact ⟨p, status, rfl, hs, h.symm⟩

/-- A judged row is what `judge` makes of the object, with a valid signer. -/
theorem judgedRow_some {node : Node} {now : Int} {d : Delivery} {row : AccordRow}
    (h : judgedRow node now d = some row) :
    ∃ roster, d.env.roster = .ok roster ∧ judge node roster d.obj now = .ok row ∧
      row.status.validSigners ≠ [] := by
  unfold judgedRow at h
  cases hr : d.env.roster with
  | error e => simp [hr] at h
  | ok roster =>
    cases hj : judge node roster d.obj now with
    | error e => simp [hr, hj] at h
    | ok row' =>
      simp only [hr, hj] at h
      split at h
      · cases h
      · rename_i hne
        cases h
        exact ⟨roster, rfl, hj, by simpa using hne⟩

/-- Everything judging establishes. -/
theorem judgedRow_judged {node : Node} {now : Int} {d : Delivery} {row : AccordRow}
    (h : judgedRow node now d = some row) : Judged node now d row := by
  obtain ⟨roster, hr, hj, hne⟩ := judgedRow_some h
  obtain ⟨p, status, hp, hs, rfl⟩ := judge_ok hj
  obtain ⟨hkind, hid, hperm⟩ := node.verify.status_spec _ _ hs
  exact
    { obj := rfl, roster := hr, parsed := ⟨p, hp, rfl, rfl⟩, kind := hkind, id := hid
      seats := hperm, authentic := hne, threshold := rfl, now := rfl }

/-! ## Quorums -/

/-- An object whose invocation has kind `kind`, names `h` through `named`, and is
    signed by a strict majority of the standing roster. -/
def MajorityNames (node : Node) (kind : InvocationKind) (named : Invocation → Option String)
    (h : String) (d : Delivery) : Prop :=
  match d.env.roster, parseAccordInvocation d.obj with
  | .ok roster, .ok p =>
    p.invocation.invocationKind = kind ∧ named p.invocation = some h ∧
      node.verify.StrictMajority roster p.invocation p.signatures
  | _, _ => False

instance (node : Node) (kind : InvocationKind) (named : Invocation → Option String) (h : String)
    (d : Delivery) : Decidable (MajorityNames node kind named h d) := by
  unfold MajorityNames
  split <;> infer_instance

/-- A strict-majority `lifecycle:confirmed` naming `h`. -/
def MajorityConfirms (node : Node) (h : String) (d : Delivery) : Prop :=
  MajorityNames node .lifecycleConfirmed (·.confirmsHaltId) h d

/-- A strict-majority `lifecycle:active` naming `h`. -/
def MajorityResumes (node : Node) (h : String) (d : Delivery) : Prop :=
  MajorityNames node .lifecycleActive (·.resumesHaltId) h d

instance (node : Node) (h : String) (d : Delivery) : Decidable (MajorityConfirms node h d) :=
  inferInstanceAs (Decidable (MajorityNames ..))

instance (node : Node) (h : String) (d : Delivery) : Decidable (MajorityResumes node h d) :=
  inferInstanceAs (Decidable (MajorityNames ..))

/-- No count of roster seats exceeds the roster. -/
theorem validSeats_length_le (V : VerifyCore) (roster : List ThresholdMember) (inv : Invocation)
    (sigs : List ThresholdSignature) : (V.validSeats roster inv sigs).length ≤ roster.length := by
  unfold VerifyCore.validSeats distinctSeats
  calc _ ≤ ((roster.filter _).map (·.memberId)).length := (List.dedup_sublist _).length_le
    _ ≤ roster.length := by
      rw [List.length_map]
      exact List.length_filter_le _ _

namespace Judged

variable {node : Node} {now : Int} {d : Delivery} {row : AccordRow}

/-- The object of a judged row carries the row's invocation. -/
theorem invocation_eq (hj : Judged node now d row) : d.obj.invocation = some row.invocation := by
  obtain ⟨p, hp, hinv, -⟩ := hj.parsed
  simp only [SignedCegObject.invocation, hp, hinv]

/-- A seat that signed is on the roster, so an authentic row's roster is not empty. -/
theorem roster_ne_nil (hj : Judged node now d row) : row.roster.length ≠ 0 := by
  have hlen := hj.seats.length_eq
  have hle := validSeats_length_le node.verify row.roster row.invocation row.signatures
  have hpos : 0 < row.status.validSigners.length := List.length_pos_iff.mpr hj.authentic
  omega

/-- One holder fires: every authentic constitutional row meets its quorum. -/
theorem constitutional_quorumMet (hj : Judged node now d row)
    (hk : row.invocation.invocationKind = .constitutional) : row.quorumMet = true := by
  have hpos : 0 < row.status.validSigners.length := List.length_pos_iff.mpr hj.authentic
  have hm : row.threshold = 1 := by
    rw [hj.threshold, haltPlaneThreshold,
      node.verify.required_fire _ _ hj.roster_ne_nil (Or.inl hk), Option.getD_some]
  simp only [AccordRow.quorumMet, decide_eq_true_eq]
  omega

/-- A lifecycle row meets its quorum exactly when a strict majority signed it. -/
theorem quorumMet_iff (hj : Judged node now d row)
    (hk : row.invocation.invocationKind = .lifecycleConfirmed ∨
      row.invocation.invocationKind = .lifecycleActive) :
    row.quorumMet = true ↔
      node.verify.StrictMajority row.roster row.invocation row.signatures := by
  have hm : row.threshold = row.roster.length / 2 + 1 := by
    rw [hj.threshold, haltPlaneThreshold,
      node.verify.required_majority _ _ hj.roster_ne_nil hk, Option.getD_some]
  have hlen := hj.seats.length_eq
  -- `n / 2 + 1 ≤ k` and `n < 2 * k` say the same
  simp only [AccordRow.quorumMet, VerifyCore.StrictMajority, decide_eq_true_eq, hm]
  omega

/-- A quorum-meeting lifecycle row is an object a strict majority signed. -/
theorem majority (hj : Judged node now d row) {kind : InvocationKind}
    (hlife : kind = .lifecycleConfirmed ∨ kind = .lifecycleActive)
    (hk : row.invocation.invocationKind = kind) (hq : row.quorumMet = true)
    {named : Invocation → Option String} {h : String} (hn : named row.invocation = some h) :
    MajorityNames node kind named h d := by
  obtain ⟨p, hp, hinv, hsig⟩ := hj.parsed
  simp only [MajorityNames, hj.roster, hp, hinv, hsig]
  exact ⟨hk, hn, (hj.quorumMet_iff (hk ▸ hlife)).mp hq⟩

/-- The row an object that a strict majority signed is judged to be. -/
theorem of_majority (hj : Judged node now d row) {kind : InvocationKind}
    (hlife : kind = .lifecycleConfirmed ∨ kind = .lifecycleActive)
    {named : Invocation → Option String} {h : String} (hm : MajorityNames node kind named h d) :
    row.invocation.invocationKind = kind ∧ named row.invocation = some h ∧
      row.quorumMet = true := by
  obtain ⟨p, hp, hinv, hsig⟩ := hj.parsed
  simp only [MajorityNames, hj.roster, hp, hinv, hsig] at hm
  obtain ⟨hk, hn, hmaj⟩ := hm
  exact ⟨hk, hn, (hj.quorumMet_iff (hk ▸ hlife)).mpr hmaj⟩

end Judged

/-! ## The message path, arm by arm -/

/-- The state once `row` has been surfaced and marked seen. -/
def sighted (node : Node) (d : Delivery) (row : AccordRow) (st : AccordState) : AccordState :=
  { st with
    clock := receivedAt st d
    events := surface node row st.events
    seen := (seenInsert st.seen row.seenKey).2 }

/-- Whether `row` is new to `st`. -/
def firstSight (st : AccordState) (row : AccordRow) : Bool :=
  (seenInsert st.seen row.seenKey).1

/-- An answer that reports no effect. -/
def Inert (answer : Except Response AccordOutcome) : Prop :=
  ∀ o, answer = .ok o → o.halted = false ∧ o.confirmed = false ∧ o.released = false

/-- The outcome reports what judging `row` found. -/
def Reports (row : AccordRow) (o : AccordOutcome) : Prop :=
  o.authentic = row.outcome.authentic ∧ o.quorumMet = row.quorumMet

theorem inert_error (resp : Response) : Inert (.error resp) :=
  fun _ h => nomatch h

theorem inert_outcome (row : AccordRow) : Inert (.ok row.outcome) := by
  intro o h
  cases h
  exact ⟨rfl, rfl, rfl⟩

theorem inert_refused (row : AccordRow) (why : Refusal) : Inert (.ok (row.refused why)) := by
  intro o h
  cases h
  exact ⟨rfl, rfl, rfl⟩

/-- Up to the first file operation, an object is answered at once or is an authentic
    row that takes its arm. -/
theorem beginHandling_eq (node : Node) (d : Delivery) (st : AccordState) :
    (judgedRow node (receivedAt st d) d = none ∧ ∃ a, Inert a ∧
      beginHandling node d st = ({ st with clock := receivedAt st d }, .answered a)) ∨
    ∃ row, judgedRow node (receivedAt st d) d = some row ∧
      beginHandling node d st =
        chooseArm node d.env row (firstSight st row) (sighted node d row st) := by
  unfold beginHandling judgedRow
  cases hr : d.env.roster with
  | error e => exact Or.inl ⟨rfl, _, inert_error e, rfl⟩
  | ok roster =>
    simp only [receivedAt]
    cases hj : judge node roster d.obj (st.clock + d.env.wait) with
    | error e => exact Or.inl ⟨rfl, _, inert_error e, rfl⟩
    | ok row =>
      -- nobody on the roster signed: answered with the bare outcome
      cases hv : row.status.validSigners.isEmpty with
      | true => exact Or.inl ⟨by simp [hv], _, inert_outcome row, by simp [hv]⟩
      | false => exact Or.inr ⟨row, by simp [hv], by simp [hv, sighted, firstSight, receivedAt]⟩

/-- The fields `relayOnFirstSight` leaves alone. -/
@[simp] theorem relayOnFirstSight_disk (node : Node) (fs : Bool) (obj : SignedCegObject)
    (st : AccordState) : (relayOnFirstSight node fs obj st).disk = st.disk := by
  unfold relayOnFirstSight; split <;> rfl

@[simp] theorem relayOnFirstSight_seen (node : Node) (fs : Bool) (obj : SignedCegObject)
    (st : AccordState) : (relayOnFirstSight node fs obj st).seen = st.seen := by
  unfold relayOnFirstSight; split <;> rfl

@[simp] theorem relayOnFirstSight_pending (node : Node) (fs : Bool) (obj : SignedCegObject)
    (st : AccordState) : (relayOnFirstSight node fs obj st).pending = st.pending := by
  unfold relayOnFirstSight; split <;> rfl

theorem relayOnFirstSight_sent (node : Node) (fs : Bool) (obj : SignedCegObject)
    (st : AccordState) : st.sent ⊆ (relayOnFirstSight node fs obj st).sent := by
  unfold relayOnFirstSight
  split
  · exact List.subset_append_left _ _
  · exact List.Subset.refl _

@[simp] theorem relayOnFirstSight_clock (node : Node) (fs : Bool) (obj : SignedCegObject)
    (st : AccordState) : (relayOnFirstSight node fs obj st).clock = st.clock := by
  unfold relayOnFirstSight; split <;> rfl

/-- The state an arm starts from: the row is seen, and nothing else has changed but what
    was surfaced and relayed. -/
structure Ready (st : AccordState) (d : Delivery) (row : AccordRow) (s : AccordState) : Prop where
  disk : s.disk = st.disk
  clock : s.clock = receivedAt st d
  seen : s.seen = (seenInsert st.seen row.seenKey).2
  sent : st.sent ⊆ s.sent
  pending : s.pending = st.pending

theorem sighted_ready (node : Node) (st : AccordState) (d : Delivery) (row : AccordRow) :
    Ready st d row (sighted node d row st) :=
  ⟨rfl, rfl, rfl, List.Subset.refl _, rfl⟩

theorem Ready.relay {st s : AccordState} {d : Delivery} {row : AccordRow} (h : Ready st d row s)
    (node : Node) (fs : Bool) (obj : SignedCegObject) :
    Ready st d row (relayOnFirstSight node fs obj s) :=
  ⟨by rw [relayOnFirstSight_disk, h.disk], by rw [relayOnFirstSight_clock, h.clock],
    by rw [relayOnFirstSight_seen, h.seen],
    List.Subset.trans h.sent (relayOnFirstSight_sent node fs obj s),
    by rw [relayOnFirstSight_pending, h.pending]⟩

/-- A halt row is relayed, then goes to the halt arm; without a home there is none. -/
theorem chooseArm_halting {row : AccordRow} (hg : row.isGlobalHalt = true) (node : Node)
    (env : Env) (fs : Bool) (st : AccordState) :
    chooseArm node env row fs st = (relayOnFirstSight node fs row.obj st,
      match node.home with
      | some _ => .halting row (haltRecord node row env.rng)
      | none => .answered (.ok { row.outcome with halted := true })) := by
  unfold chooseArm
  rw [if_pos hg]
  cases node.home <;> rfl

/-- A quorum-complete confirmation goes to the confirmation arm. -/
theorem chooseArm_confirming {node : Node} {row : AccordRow} (hq : row.quorumMet = true)
    (hk : row.invocation.invocationKind = .lifecycleConfirmed) (hh : node.home.isSome = true)
    (env : Env) (fs : Bool) (st : AccordState) :
    chooseArm node env row fs st = (st, .confirming row fs) := by
  obtain ⟨home, hhome⟩ := Option.isSome_iff_exists.mp hh
  simp [chooseArm, AccordRow.isGlobalHalt, hq, hk, hhome]

/-- A quorum-complete resumption goes to the resumption arm. -/
theorem chooseArm_resuming {node : Node} {row : AccordRow} (hq : row.quorumMet = true)
    (hk : row.invocation.invocationKind = .lifecycleActive) (hh : node.home.isSome = true)
    (env : Env) (fs : Bool) (st : AccordState) :
    chooseArm node env row fs st = (st, .resuming row fs) := by
  obtain ⟨home, hhome⟩ := Option.isSome_iff_exists.mp hh
  simp [chooseArm, AccordRow.isGlobalHalt, hq, hk, hhome]

/-- **Inversion.** How an object is handled: answered at once, or handed as an authentic
    row to one of the three arms in a state where nothing but the seen set, the surfaced
    events and the relays has changed. -/
theorem replicateAndMaybeHalt_cases (node : Node) (d : Delivery) (st : AccordState) :
    (judgedRow node (receivedAt st d) d = none ∧ ∃ a, Inert a ∧
      replicateAndMaybeHalt node d st = ({ st with clock := receivedAt st d }, a)) ∨
    ∃ row s, judgedRow node (receivedAt st d) d = some row ∧ Ready st d row s ∧
      ((∃ o, (row.isGlobalHalt = true ∨ Inert (.ok o)) ∧ Reports row o ∧
        replicateAndMaybeHalt node d st = (s, .ok o)) ∨
       (row.isGlobalHalt = true ∧ node.home.isSome = true ∧
        replicateAndMaybeHalt node d st =
          ((haltWrite d.env row (haltRecord node row d.env.rng) s).1,
            .ok (haltWrite d.env row (haltRecord node row d.env.rng) s).2)) ∨
       (row.quorumMet = true ∧ row.invocation.invocationKind = .lifecycleConfirmed ∧
        node.home.isSome = true ∧
        replicateAndMaybeHalt node d st =
          ((confirmedArm node d.env row (firstSight st row) s).1,
            .ok (confirmedArm node d.env row (firstSight st row) s).2)) ∨
       (row.quorumMet = true ∧ row.invocation.invocationKind = .lifecycleActive ∧
        node.home.isSome = true ∧
        replicateAndMaybeHalt node d st =
          ((activeArm node d.env row (firstSight st row) s).1,
            .ok (activeArm node d.env row (firstSight st row) s).2))) := by
  unfold replicateAndMaybeHalt
  rcases beginHandling_eq node d st with ⟨hnone, a, hinert, hbegin⟩ | ⟨row, hrow, hbegin⟩
  · exact Or.inl ⟨hnone, a, hinert, by rw [hbegin]⟩
  right
  -- the source's branches in its order: fire, confirm, resume, the rest
  have hready := sighted_ready node st d row
  rw [hbegin]
  by_cases hg : row.isGlobalHalt = true
  · refine ⟨row, _, hrow, hready.relay node (firstSight st row) row.obj, ?_⟩
    rw [chooseArm_halting hg]
    cases hh : node.home with
    | none => exact Or.inl ⟨{ row.outcome with halted := true }, Or.inl hg, ⟨rfl, rfl⟩, rfl⟩
    | some home => exact Or.inr (Or.inl ⟨hg, rfl, rfl⟩)
  · by_cases hc : row.quorumMet = true ∧ row.invocation.invocationKind = .lifecycleConfirmed
    · refine ⟨row, _, hrow, hready, ?_⟩
      cases hh : node.home with
      | none =>
        -- no home, nowhere to keep a latch
        refine Or.inl ⟨_, Or.inr (inert_refused row .noLatchHome), ⟨rfl, rfl⟩, ?_⟩
        simp [chooseArm, hg, hc, hh]
      | some home =>
        have hhome : node.home.isSome = true := by rw [hh]; rfl
        rw [chooseArm_confirming hc.1 hc.2 hhome]
        exact Or.inr (Or.inr (Or.inl ⟨hc.1, hc.2, rfl, rfl⟩))
    · by_cases ha : row.quorumMet = true ∧ row.invocation.invocationKind = .lifecycleActive
      · refine ⟨row, _, hrow, hready, ?_⟩
        cases hh : node.home with
        | none =>
          refine Or.inl ⟨_, Or.inr (inert_refused row .noLatchHome), ⟨rfl, rfl⟩, ?_⟩
          simp [chooseArm, hg, ha, hh]
        | some home =>
          have hhome : node.home.isSome = true := by rw [hh]; rfl
          rw [chooseArm_resuming ha.1 ha.2 hhome]
          exact Or.inr (Or.inr (Or.inr ⟨ha.1, ha.2, rfl, rfl⟩))
      · -- nothing binding: at most gossiped
        refine ⟨row, if firstSight st row then
          { sighted node d row st with
            gossiped := st.gossiped ++ node.peers.map fun p => (p, row.obj) }
          else sighted node d row st, hrow, ?_,
          Or.inl ⟨_, Or.inr (inert_outcome row), ⟨rfl, rfl⟩, ?_⟩⟩
        · split
          · exact ⟨rfl, rfl, rfl, List.Subset.refl _, rfl⟩
          · exact hready
        · cases hfs : firstSight st row <;> simp [chooseArm, hg, hc, ha, sighted]

/-- The confirmation arm's reading: it answers and leaves the disk alone, or it has
    found the unconfirmed latch the row names, in effect at its own clock. -/
theorem confirmRead_cases (env : Env) (row : AccordRow) (st : AccordState) :
    st.clock ≤ (confirmRead env row st).1.clock ∧ (confirmRead env row st).1.disk = st.disk ∧
    ((∃ o, o.halted = false ∧ o.released = false ∧ (confirmRead env row st).2 = .error o) ∨
     ∃ r, readHaltLatch st.disk.latch env.latchReadable = .ok (some r) ∧
      row.invocation.confirmsHaltId = some r.invocationId ∧
      r.inEffectAt (st.clock + env.handling) = true ∧ r.confirmed = none ∧
      (confirmRead env row st).2 =
        .ok (r, { invocationId := row.status.invocationId, signers := row.status.validSigners
                  receivedAt := .ofInstant (st.clock + env.handling) })) := by
  have hclock : st.clock ≤ st.clock + (env.handling : Int) := by omega
  unfold confirmRead
  cases hread : readHaltLatch st.disk.latch env.latchReadable with
  | error e => exact ⟨Int.le_refl _, rfl, Or.inl ⟨_, rfl, rfl, rfl⟩⟩
  | ok found =>
    cases found with
    | none => exact ⟨Int.le_refl _, rfl, Or.inl ⟨_, rfl, rfl, rfl⟩⟩
    | some r =>
      -- the three refusals in the source's order, then the write
      by_cases hname : row.invocation.confirmsHaltId = some r.invocationId
      · cases heff : r.inEffectAt (st.clock + env.handling) with
        | false => simp [hname, heff, hclock, AccordRow.refused, AccordRow.outcome]
        | true =>
          cases hconf : r.confirmed with
          | some c => simp [hname, heff, hconf, hclock, AccordRow.outcome]
          | none => simp [hname, heff, hconf, hclock]
      · simp [hname, hclock, AccordRow.refused, AccordRow.outcome]

/-- The write-back: the confirmed record is the latch and the row relayed, or the write
    failed with the file as it was or torn. -/
theorem confirmWrite_cases (node : Node) (env : Env) (row : AccordRow) (fs : Bool)
    (r : HaltRecord) (c : HaltConfirmation) (st : AccordState) :
    (env.confirmWrite = .written ∧ confirmWrite node env row fs r c st =
      (relayOnFirstSight node fs row.obj
        { st with disk := { st.disk with latch := .record { r with confirmed := some c } } },
        { row.outcome with confirmed := true })) ∨
    (env.confirmWrite = .refused ∧ confirmWrite node env row fs r c st =
      (st, row.refused .latchWriteFailed)) ∨
    (env.confirmWrite = .torn ∧ confirmWrite node env row fs r c st =
      ({ st with disk := { st.disk with latch := .unreadable } },
        row.refused .latchWriteFailed)) := by
  cases hw : env.confirmWrite with
  | written => exact Or.inl ⟨rfl, by simp [confirmWrite, confirmHalt, latchHalt, hw]⟩
  | refused => exact Or.inr (Or.inl ⟨rfl, by simp [confirmWrite, confirmHalt, latchHalt, hw]⟩)
  | torn => exact Or.inr (Or.inr ⟨rfl, by simp [confirmWrite, confirmHalt, latchHalt, hw]⟩)

/-- The resumption arm's reading: it answers, or it has found the latch the row names. -/
theorem releaseRead_cases (env : Env) (row : AccordRow) (st : AccordState) :
    (∃ o, Inert (.ok o) ∧ releaseRead env row st = .error o) ∨
    ∃ r, readHaltLatch st.disk.latch env.latchReadable = .ok (some r) ∧
      row.invocation.resumesHaltId = some r.invocationId ∧ releaseRead env row st = .ok r := by
  unfold releaseRead
  cases hread : readHaltLatch st.disk.latch env.latchReadable with
  | error e => exact Or.inl ⟨_, inert_refused row _, rfl⟩
  | ok found =>
    cases found with
    | none => exact Or.inl ⟨_, inert_refused row _, rfl⟩
    | some r =>
      by_cases hname : row.invocation.resumesHaltId = some r.invocationId
      · exact Or.inr ⟨r, rfl, hname, by simp [hname]⟩
      · exact Or.inl ⟨_, inert_refused row .resumesUnknownHalt, by simp [hname]⟩

/-- Journal and remove: the latch is gone and the row relayed, or the latch is as it was. -/
theorem releaseRemove_cases (node : Node) (env : Env) (row : AccordRow) (fs : Bool)
    (r : HaltRecord) (st : AccordState) :
    (∃ disk, disk.latch = .absent ∧ releaseRemove node env row fs r st =
      (relayOnFirstSight node fs row.obj { st with disk },
        { row.outcome with released := true })) ∨
    ∃ disk, disk.latch = st.disk.latch ∧ releaseRemove node env row fs r st =
      ({ st with disk }, row.refused .latchWriteFailed) := by
  unfold releaseRemove
  -- the journal line's content decides nothing here
  generalize hentry : JournalEntry.honoredOverWire _ _ _ _ _ = entry
  have hcases := releaseHalt_latch st.disk entry env.journalWritable env.latchRemovable
  generalize releaseHalt st.disk entry env.journalWritable env.latchRemovable = rel at hcases ⊢
  obtain ⟨disk, ok⟩ := rel
  rcases hcases with ⟨hok, hlatch⟩ | ⟨hok, hlatch⟩
  · obtain rfl : ok = true := hok
    exact Or.inl ⟨disk, hlatch, rfl⟩
  · obtain rfl : ok = false := hok
    exact Or.inr ⟨disk, hlatch, rfl⟩

/-! ## The latch after one delivery -/

/-- What the message path can leave at the latch path when `d` reaches it in `st`. -/
inductive LatchEffect (node : Node) (d : Delivery) (st : AccordState) : LatchFile → Prop
  /-- Nothing was written. -/
  | kept : LatchEffect node d st st.disk.latch
  /-- A halt row, and the disk lost the file under it. -/
  | haltTorn (row : AccordRow) (hrow : judgedRow node (receivedAt st d) d = some row)
      (hh : row.isGlobalHalt = true) (hhome : node.home.isSome = true)
      (ht : .torn ∈ d.env.latchWrites.take 8)
      (hw : .written ∉ d.env.latchWrites.take 8) : LatchEffect node d st .unreadable
  /-- A halt row, latched. -/
  | halted (row : AccordRow) (hrow : judgedRow node (receivedAt st d) d = some row)
      (hh : row.isGlobalHalt = true) (hhome : node.home.isSome = true)
      (hw : .written ∈ d.env.latchWrites.take 8) :
      LatchEffect node d st (.record (haltRecord node row d.env.rng))
  /-- A confirmation of the standing latch, and the disk lost the file under it. -/
  | confirmTorn (r : HaltRecord) (hl : st.disk.latch = .record r)
      (hm : MajorityConfirms node r.invocationId d) (hn : r.confirmed = none)
      (ht : d.env.confirmWrite = .torn) :
      LatchEffect node d st .unreadable
  /-- A confirmation of the standing latch. -/
  | confirmed (r : HaltRecord) (c : HaltConfirmation) (hl : st.disk.latch = .record r)
      (hm : MajorityConfirms node r.invocationId d) (hn : r.confirmed = none)
      (he : r.inEffectAt (processedAt st d) = true) :
      LatchEffect node d st (.record { r with confirmed := some c })
  /-- A resumption of the standing latch. -/
  | released (r : HaltRecord) (hl : st.disk.latch = .record r)
      (hm : MajorityResumes node r.invocationId d) : LatchEffect node d st .absent

section Arms

variable {node : Node} {d : Delivery} {st s : AccordState} {row : AccordRow}

/-- The halt arm's write, as an effect. -/
theorem haltWrite_effect (hrow : judgedRow node (receivedAt st d) d = some row)
    (hh : row.isGlobalHalt = true) (hhome : node.home.isSome = true) (hdisk : s.disk = st.disk) :
    LatchEffect node d st
      (haltWrite d.env row (haltRecord node row d.env.rng) s).1.disk.latch := by
  simp only [haltWrite, hdisk]
  rcases latchRetry_cases (haltRecord node row d.env.rng) (d.env.latchWrites.take 8)
    st.disk.latch with ⟨hw, h⟩ | ⟨-, -, h⟩ | ⟨hw, ht, h⟩
  · rw [h]
    exact .halted row hrow hh hhome hw
  · rw [h]
    exact .kept
  · rw [h]
    exact .haltTorn row hrow hh hhome ht hw

/-- The confirmation arm, as an effect. -/
theorem confirmedArm_effect (hj : Judged node (receivedAt st d) d row) (hq : row.quorumMet = true)
    (hk : row.invocation.invocationKind = .lifecycleConfirmed) (hdisk : s.disk = st.disk)
    (hclock : s.clock = receivedAt st d) {fs : Bool} :
    LatchEffect node d st (confirmedArm node d.env row fs s).1.disk.latch := by
  unfold confirmedArm
  obtain ⟨-, hrdisk, hread⟩ := confirmRead_cases d.env row s
  generalize confirmRead d.env row s = read at hrdisk hread ⊢
  obtain ⟨s', res⟩ := read
  have hs' : s'.disk.latch = st.disk.latch := by rw [show s'.disk = s.disk from hrdisk, hdisk]
  rcases hread with ⟨o, -, -, rfl⟩ | ⟨r, hfound, hname, heff, hconf, rfl⟩
  · simp only
    rw [hs']
    exact .kept
  -- the record read is the one that stands, and the arm's clock is the delivery's
  have hl := readHaltLatch_some hfound
  rw [hdisk] at hl
  rw [hclock] at heff
  have hm : MajorityConfirms node r.invocationId d := hj.majority (Or.inl rfl) hk hq hname
  simp only
  rcases confirmWrite_cases node d.env row fs r
      { invocationId := row.status.invocationId, signers := row.status.validSigners
        receivedAt := .ofInstant (s.clock + d.env.handling) } s' with
    ⟨-, h⟩ | ⟨-, h⟩ | ⟨hw, h⟩
  · simp only [h, relayOnFirstSight_disk]
    exact .confirmed r _ hl hm hconf heff
  · simp only [h, hs']
    exact .kept
  · simp only [h]
    exact .confirmTorn r hl hm hconf hw

/-- The resumption arm, as an effect. -/
theorem activeArm_effect (hj : Judged node (receivedAt st d) d row) (hq : row.quorumMet = true)
    (hk : row.invocation.invocationKind = .lifecycleActive) (hdisk : s.disk = st.disk)
    {fs : Bool} :
    LatchEffect node d st (activeArm node d.env row fs s).1.disk.latch := by
  unfold activeArm
  rcases releaseRead_cases d.env row s with ⟨o, -, hread⟩ | ⟨r, hfound, hname, hread⟩
  · rw [hread]
    simp only
    rw [hdisk]
    exact .kept
  have hl := readHaltLatch_some hfound
  rw [hdisk] at hl
  have hm : MajorityResumes node r.invocationId d := hj.majority (Or.inr rfl) hk hq hname
  rw [hread]
  rcases releaseRemove_cases node d.env row fs r s with ⟨disk, hlatch, h⟩ | ⟨disk, hlatch, h⟩
  · simp only [h, relayOnFirstSight_disk, hlatch]
    exact .released r hl hm
  · simp only [h, hlatch, hdisk]
    exact .kept

end Arms

/-- **Inversion.** The latch after a delivery. -/
theorem deliver_latch (node : Node) (st : AccordState) (d : Delivery) :
    LatchEffect node d st (deliver node st d).disk.latch := by
  unfold deliver
  rcases replicateAndMaybeHalt_cases node d st with ⟨-, a, -, h⟩ | ⟨row, s, hrow, hready, harm⟩
  · rw [h]
    exact .kept
  have hj := judgedRow_judged hrow
  -- answered without a write, or one of the three arms
  rcases harm with ⟨o, -, -, h⟩ | ⟨hh, hhome, h⟩ | ⟨hq, hk, -, h⟩ | ⟨hq, hk, -, h⟩
  · rw [h, hready.disk]
    exact .kept
  · rw [h]
    exact haltWrite_effect hrow hh hhome hready.disk
  · rw [h]
    exact confirmedArm_effect hj hq hk hready.disk hready.clock
  · rw [h]
    exact activeArm_effect hj hq hk hready.disk

/-- What an arm leaves of the state it started from: the clock never runs backwards, the
    seen set and the pending table are as they were, and nothing sent is unsent. -/
structure Keeps (s s' : AccordState) : Prop where
  clock : s.clock ≤ s'.clock
  seen : s'.seen = s.seen
  sent : s.sent ⊆ s'.sent
  pending : s'.pending = s.pending

theorem Keeps.refl (s : AccordState) : Keeps s s :=
  ⟨Int.le_refl _, rfl, List.Subset.refl _, rfl⟩

/-- Keeping is about neither the disk nor what was surfaced. -/
theorem Keeps.disk {s s' : AccordState} (h : Keeps s s') (disk : Disk) :
    Keeps s { s' with disk } :=
  ⟨h.clock, h.seen, h.sent, h.pending⟩

/-- Relaying keeps the rest. -/
theorem Keeps.relay {s s' : AccordState} (h : Keeps s s') (node : Node) (fs : Bool)
    (obj : SignedCegObject) : Keeps s (relayOnFirstSight node fs obj s') :=
  ⟨by rw [relayOnFirstSight_clock]; exact h.clock, by rw [relayOnFirstSight_seen]; exact h.seen,
    List.Subset.trans h.sent (relayOnFirstSight_sent node fs obj s'),
    by rw [relayOnFirstSight_pending]; exact h.pending⟩

/-- Reading the latch for a confirmation moves the clock only. -/
theorem confirmRead_keeps (env : Env) (row : AccordRow) (s : AccordState) :
    Keeps s (confirmRead env row s).1 := by
  -- every branch behind a successful read has moved the clock and nothing else
  have hmoved : Keeps s { s with clock := s.clock + env.handling } :=
    ⟨by dsimp only; omega, rfl, List.Subset.refl _, rfl⟩
  unfold confirmRead
  split
  · dsimp only
    split
    · exact hmoved
    · split
      · exact hmoved
      · split
        · exact hmoved
        · exact hmoved
  · exact Keeps.refl s
  · exact Keeps.refl s

theorem confirmedArm_keeps (node : Node) (env : Env) (row : AccordRow) (fs : Bool)
    (s : AccordState) : Keeps s (confirmedArm node env row fs s).1 := by
  unfold confirmedArm
  have hread := confirmRead_keeps env row s
  generalize confirmRead env row s = read at hread ⊢
  obtain ⟨s', res⟩ := read
  cases res with
  | error o => exact hread
  | ok rc =>
    simp only
    rcases confirmWrite_cases node env row fs rc.1 rc.2 s' with ⟨-, h⟩ | ⟨-, h⟩ | ⟨-, h⟩
    · rw [h]
      exact (hread.disk _).relay node fs row.obj
    · rw [h]
      exact hread
    · rw [h]
      exact hread.disk _

theorem activeArm_keeps (node : Node) (env : Env) (row : AccordRow) (fs : Bool)
    (s : AccordState) : Keeps s (activeArm node env row fs s).1 := by
  unfold activeArm
  cases releaseRead env row s with
  | error o => exact Keeps.refl s
  | ok r =>
    rcases releaseRemove_cases node env row fs r s with ⟨disk, -, h⟩ | ⟨disk, -, h⟩
    · simp only [h]
      exact ((Keeps.refl s).disk disk).relay node fs row.obj
    · simp only [h]
      exact (Keeps.refl s).disk disk

/-- Once judged, a delivery keeps the state its arm started from. -/
theorem deliver_keeps (node : Node) (st : AccordState) (d : Delivery) :
    (judgedRow node (receivedAt st d) d = none ∧
      deliver node st d = { st with clock := receivedAt st d }) ∨
    ∃ row s, judgedRow node (receivedAt st d) d = some row ∧ Ready st d row s ∧
      Keeps s (deliver node st d) := by
  unfold deliver
  rcases replicateAndMaybeHalt_cases node d st with
    ⟨hnone, a, -, h⟩ | ⟨row, s, hrow, hready, harm⟩
  · exact Or.inl ⟨hnone, by rw [h]⟩
  refine Or.inr ⟨row, s, hrow, hready, ?_⟩
  rcases harm with ⟨o, -, -, h⟩ | ⟨-, -, h⟩ | ⟨-, -, -, h⟩ | ⟨-, -, -, h⟩
  · rw [h]
    exact Keeps.refl s
  · rw [h]
    exact (Keeps.refl s).disk _
  · rw [h]
    exact confirmedArm_keeps node d.env row _ s
  · rw [h]
    exact activeArm_keeps node d.env row _ s

/-- After a delivery the clock is past its receipt. -/
theorem deliver_receivedAt_le (node : Node) (st : AccordState) (d : Delivery) :
    receivedAt st d ≤ (deliver node st d).clock := by
  rcases deliver_keeps node st d with ⟨-, h⟩ | ⟨row, s, -, hready, hkeeps⟩
  · exact Int.le_of_eq (by rw [h])
  · rw [← hready.clock]
    exact hkeeps.clock

/-- The clock never runs backwards. -/
theorem deliver_clock_le (node : Node) (st : AccordState) (d : Delivery) :
    st.clock ≤ (deliver node st d).clock := by
  have h := deliver_receivedAt_le node st d
  unfold receivedAt at h
  omega

/-! ## A three-seat family

The node the concrete runs of the later modules are played on. -/

namespace Fixture

def seat (id : String) : ThresholdMember := ⟨id, "ed-" ++ id, some ("pq-" ++ id)⟩

def family : List ThresholdMember := [seat "A1", seat "A2", seat "A3"]

def node : Node where
  verify := .ideal
  digest := .ideal
  home := some "/var/lib/ciris"
  peers := ["peer"]
  nodeId := some "node"
  fuseSecs := haltFuseSecsDefault

/-- A disk that takes every operation, one second after the previous object. -/
def env : Env where
  roster := .ok family
  wait := 1000000000
  handling := 0
  rng := some "00"
  latchWrites := [.written]
  confirmWrite := .written
  latchReadable := true
  journalWritable := true
  latchRemovable := true

/-- The invocation `id` of kind `kind`; `halt` is the halt it confirms or resumes. -/
def invocation (kind : InvocationKind) (id : String) (halt : Option String) : Invocation where
  invocationKind := kind
  invocationId := id
  resumesHaltId := if kind = .lifecycleActive then halt else none
  confirmsHaltId := if kind = .lifecycleConfirmed then halt else none
  nonce := "n"
  assertedAt := .instant 0
  validUntil := .instant 1000000000000000
  payloadSha256 := "p"

/-- The object `signers` sign together. -/
def object (inv : Invocation) (signers : List String) : SignedCegObject :=
  buildAccordInvocationObject "accord" family inv
    (signers.map fun s => idealCosign (seat s) inv) (.instant 0)

/-- One holder's halt. -/
def fire (id signer : String) : Delivery :=
  ⟨object (invocation .constitutional id none) [signer], env⟩

/-- Two holders' confirmation of `halt`. -/
def confirm (id halt : String) : Delivery :=
  ⟨object (invocation .lifecycleConfirmed id (some halt)) ["A1", "A2"], env⟩

/-- Two holders' resumption of `halt`. -/
def resume (id halt : String) : Delivery :=
  ⟨object (invocation .lifecycleActive id (some halt)) ["A1", "A2"], env⟩

/-- `d`, reaching the node `secs` seconds later than it would have. -/
def later (secs : Nat) (d : Delivery) : Delivery :=
  { d with env := { d.env with wait := d.env.wait + secs * 1000000000 } }

/-- A node that has seen nothing. -/
def fresh : AccordState where
  pending := []
  seen := []
  events := []
  disk := { latch := .absent, journal := [], tokenPresented := false }
  sent := []
  gossiped := []
  clock := 0

end Fixture

end CirisServer
