import CirisServer.Spec.AccordStep

/-!
# Relaying what takes effect

A node passes on the binding rows it acts on. The relay is suppressed for a row whose
`(kind, id, binding)` the node has seen, and a row is marked seen before the latch is
asked whether it admits the row: a confirmation that overtakes its halt is marked seen
and refused, and is not relayed when it arrives again and takes effect. `Sightings`
keeps, beside the run, what first showed each key; the result holds where that first
row was the same invocation and was admitted.

Key results:
- `takesEffect_admits`: a delivery takes effect only where the latch admits its row
- `deliver_relays`: an admitted row is relayed at its first sighting
- `binding_row_relayed`: every effect of a run is relayed
-/

namespace CirisServer

open Run

/-- `d` latches a halt, records a confirmation or releases a latch. A confirmation of a
    halt that is confirmed already is answered `confirmed` and records nothing. -/
def TakesEffect (node : Node) (st : AccordState) (d : Delivery) : Prop :=
  match (replicateAndMaybeHalt node d st).2 with
  | .ok o => o.halted = true ∨ o.released = true ∨
    (o.confirmed = true ∧ (deliver node st d).disk.latch ≠ st.disk.latch)
  | .error _ => False

instance (node : Node) (st : AccordState) (d : Delivery) : Decidable (TakesEffect node st d) := by
  unfold TakesEffect
  split <;> infer_instance

/-- Every peer was sent the invocation `inv`. -/
def RelayedTo (node : Node) (sent : List (String × SignedCegObject)) (inv : Invocation) : Prop :=
  ∀ peer ∈ node.peers, ∃ m ∈ sent, m.1 = peer ∧ m.2.invocation = some inv

instance (node : Node) (sent : List (String × SignedCegObject)) (inv : Invocation) :
    Decidable (RelayedTo node sent inv) :=
  inferInstanceAs (Decidable (∀ peer ∈ node.peers, _))

/-- In the run, whatever takes effect has been relayed by the end of its delivery. -/
def EffectsRelayed (node : Node) (st : AccordState) (run : List Delivery) : Prop :=
  Guarded (deliver node) (fun s d => TakesEffect node s d →
    ∀ inv, d.obj.invocation = some inv → RelayedTo node (deliver node s d).sent inv) st run

/-! ## Admission -/

/-- The latch, as `d` finds it, admits `row`: a halt always, a confirmation of the halt
    in effect and not yet confirmed, a resumption of the latched halt; and the disk
    takes the arm's operations. -/
def Admits (node : Node) (st : AccordState) (d : Delivery) (row : AccordRow) : Prop :=
  match row.invocation.invocationKind with
  | .constitutional => True
  | .lifecycleConfirmed =>
    node.home.isSome = true ∧
    match readHaltLatch st.disk.latch d.env.latchReadable with
    | .ok (some r) =>
      row.invocation.confirmsHaltId = some r.invocationId ∧
      r.inEffectAt (processedAt st d) = true ∧ r.confirmed = none ∧ d.env.confirmWrite = .written
    | _ => False
  | .lifecycleActive =>
    node.home.isSome = true ∧
    match readHaltLatch st.disk.latch d.env.latchReadable with
    | .ok (some r) =>
      row.invocation.resumesHaltId = some r.invocationId ∧ d.env.journalWritable = true ∧
      d.env.latchRemovable = true
    | _ => False
  | _ => False

instance (node : Node) (st : AccordState) (d : Delivery) (row : AccordRow) :
    Decidable (Admits node st d row) := by
  unfold Admits
  cases row.invocation.invocationKind with
  | constitutional => exact isTrue trivial
  | notify => exact isFalse id
  | drill => exact isFalse id
  | lifecycleConfirmed =>
    dsimp only
    split <;> infer_instance
  | lifecycleActive =>
    dsimp only
    split <;> infer_instance

/-- A row that fires, confirms or resumes binds. -/
theorem binding_of_quorumMet {row : AccordRow} (hq : row.quorumMet = true)
    (hk : row.invocation.invocationKind = .constitutional ∨
      row.invocation.invocationKind = .lifecycleConfirmed ∨
      row.invocation.invocationKind = .lifecycleActive) : row.binding = true := by
  rcases hk with hk | hk | hk <;> simp [AccordRow.binding, hq, hk]

/-- A confirmation takes effect only where the latch admits it. -/
theorem confirmedArm_effect_admits {node : Node} {st s : AccordState} {d : Delivery}
    {row : AccordRow} (fs : Bool) (hk : row.invocation.invocationKind = .lifecycleConfirmed)
    (hhome : node.home.isSome = true) (hdisk : s.disk = st.disk)
    (hclock : s.clock = receivedAt st d) :
    Admits node st d row ∨
      ((confirmedArm node d.env row fs s).2.halted = false ∧
       (confirmedArm node d.env row fs s).2.released = false ∧
       ((confirmedArm node d.env row fs s).2.confirmed = true →
        (confirmedArm node d.env row fs s).1.disk.latch = st.disk.latch)) := by
  unfold confirmedArm
  obtain ⟨-, hrdisk, hread⟩ := confirmRead_cases d.env row s
  generalize confirmRead d.env row s = read at hrdisk hread ⊢
  obtain ⟨s', res⟩ := read
  rcases hread with ⟨o, hh, hr, rfl⟩ | ⟨r, hfound, hname, heff, hconf, rfl⟩
  -- answered from the read alone: whatever it says, no file was written
  · exact Or.inr ⟨hh, hr, fun _ => by rw [show s'.disk = s.disk from hrdisk, hdisk]⟩
  · rw [hdisk] at hfound
    rw [hclock] at heff
    rcases confirmWrite_cases node d.env row fs r
        { invocationId := row.status.invocationId, signers := row.status.validSigners
          receivedAt := .ofInstant (s.clock + d.env.handling) } s' with
      ⟨hw, -⟩ | ⟨-, h⟩ | ⟨-, h⟩
    · left
      simp only [Admits, hk, hfound]
      exact ⟨hhome, hname, heff, hconf, hw⟩
    · exact Or.inr (by simp [h, AccordRow.refused, AccordRow.outcome])
    · exact Or.inr (by simp [h, AccordRow.refused, AccordRow.outcome])

/-- A resumption takes effect only where the latch admits it. -/
theorem activeArm_effect_admits {node : Node} {st s : AccordState} {d : Delivery}
    {row : AccordRow} (fs : Bool) (hk : row.invocation.invocationKind = .lifecycleActive)
    (hhome : node.home.isSome = true) (hdisk : s.disk = st.disk) :
    Admits node st d row ∨ Inert (.ok (activeArm node d.env row fs s).2) := by
  unfold activeArm
  rcases releaseRead_cases d.env row s with ⟨o, hinert, hread⟩ | ⟨r, hfound, hname, hread⟩
  · rw [hread]
    exact Or.inr hinert
  rw [hread]
  rw [hdisk] at hfound
  -- both disk operations must succeed, or the arm refuses
  by_cases hio : d.env.journalWritable = true ∧ d.env.latchRemovable = true
  · left
    simp only [Admits, hk, hfound]
    exact ⟨hhome, hname, hio⟩
  · right
    have hl := readHaltLatch_some hfound
    rw [← hdisk] at hl
    have hfailed : (releaseRemove node d.env row fs r s).2 = row.refused .latchWriteFailed := by
      cases hj : d.env.journalWritable with
      | false => simp [releaseRemove, releaseHalt, appendJournalLine, hj]
      | true =>
        have hlr : d.env.latchRemovable = false := by simpa [hj] using hio
        simp [releaseRemove, releaseHalt, appendJournalLine, removeLatch, hj, hlr, hl]
    simp only [hfailed]
    exact inert_refused row _

/-- A delivery takes effect only if its row binds and the latch admits it. -/
theorem takesEffect_admits {node : Node} {st : AccordState} {d : Delivery}
    (h : TakesEffect node st d) :
    ∃ row, judgedRow node (receivedAt st d) d = some row ∧ row.binding = true ∧
      Admits node st d row := by
  unfold TakesEffect deliver at h
  -- an inert answer is no effect
  have hnot : ∀ a s, Inert a → replicateAndMaybeHalt node d st = (s, a) → False := by
    intro a s hinert heq
    simp only [heq] at h
    cases a with
    | error resp => exact h
    | ok o =>
      obtain ⟨hh, hc, hr⟩ := hinert o rfl
      simp [hh, hc, hr] at h
  rcases replicateAndMaybeHalt_cases node d st with
    ⟨-, a, hinert, heq⟩ | ⟨row, s, hrow, hready, harm⟩
  · exact (hnot a _ hinert heq).elim
  -- a halt row is admitted whatever the latch holds
  have hhalt : row.isGlobalHalt = true → row.binding = true ∧ Admits node st d row := by
    intro hg
    simp only [AccordRow.isGlobalHalt, Bool.and_eq_true, decide_eq_true_eq] at hg
    exact ⟨binding_of_quorumMet hg.2 (Or.inl hg.1), by simp [Admits, hg.1]⟩
  rcases harm with
    ⟨o, hg | hinert, -, heq⟩ | ⟨hg, -, -⟩ | ⟨hq, hk, hhome, heq⟩ | ⟨hq, hk, hhome, heq⟩
  · exact ⟨row, hrow, hhalt hg⟩
  · exact (hnot _ s hinert heq).elim
  · exact ⟨row, hrow, hhalt hg⟩
  · refine ⟨row, hrow, binding_of_quorumMet hq (Or.inr (Or.inl hk)), ?_⟩
    rcases confirmedArm_effect_admits (firstSight st row) hk hhome hready.disk hready.clock
      with hadm | ⟨hh, hr, hl⟩
    · exact hadm
    · -- a confirmation that is not admitted leaves the latch as it was
      simp only [heq] at h
      simp only [hh, hr, Bool.false_eq_true, false_or] at h
      exact absurd (hl h.1) h.2
  · refine ⟨row, hrow, binding_of_quorumMet hq (Or.inr (Or.inr hk)), ?_⟩
    rcases activeArm_effect_admits (firstSight st row) hk hhome hready.disk with hadm | hinert
    · exact hadm
    · exact (hnot _ _ hinert heq).elim

/-! ## Relays -/

/-- An admitted row is relayed at its first sighting. -/
theorem deliver_relays {node : Node} {st : AccordState} {d : Delivery} {row : AccordRow}
    (hrow : judgedRow node (receivedAt st d) d = some row) (hb : row.binding = true)
    (ha : Admits node st d row) (hfs : firstSight st row = true) :
    (deliver node st d).sent = st.sent ++ node.peers.map fun p => (p, d.obj) := by
  have hobj := (judgedRow_judged hrow).obj
  simp only [AccordRow.binding, Bool.and_eq_true, Bool.or_eq_true, decide_eq_true_eq] at hb
  obtain ⟨hq, hkind⟩ := hb
  unfold deliver replicateAndMaybeHalt
  rcases beginHandling_eq node d st with ⟨hnone, -⟩ | ⟨row', hrow', hbegin⟩
  · rw [hrow] at hnone
    cases hnone
  obtain rfl : row = row' := by simpa [hrow] using hrow'
  rw [hbegin, ← hobj]
  rcases hkind with (hk | hk) | hk
  · -- relayed before the latch is touched
    have hg : row.isGlobalHalt = true := by simp [AccordRow.isGlobalHalt, hk, hq]
    rw [chooseArm_halting hg, hfs]
    cases node.home <;> rfl
  · -- relayed after the write-back, which the disk takes
    simp only [Admits, hk] at ha
    obtain ⟨hhome, hadm⟩ := ha
    rw [chooseArm_confirming hq hk hhome]
    split at hadm
    · rename_i r hread
      obtain ⟨hname, heff, hconf, hw⟩ := hadm
      have heff' : r.inEffectAt (receivedAt st d + d.env.handling) = true := heff
      simp [confirmedArm, confirmRead, sighted, hread, hname, heff', hconf, confirmWrite,
        confirmHalt, latchHalt, hw, hfs, relayOnFirstSight, replicateToPeers]
    · exact hadm.elim
  · -- relayed after the removal, which the disk takes
    simp only [Admits, hk] at ha
    obtain ⟨hhome, hadm⟩ := ha
    rw [chooseArm_resuming hq hk hhome]
    split at hadm
    · rename_i r hread
      obtain ⟨hname, hj, hr⟩ := hadm
      have hl := readHaltLatch_some hread
      simp only [activeArm, releaseRead, sighted, hread, hname]
      simp [releaseRemove, releaseHalt, appendJournalLine, removeLatch, hj, hr, hl, hfs,
        relayOnFirstSight, replicateToPeers]
    · exact hadm.elim

/-- Nothing sent is ever unsent. -/
theorem deliver_sent_subset (node : Node) (st : AccordState) (d : Delivery) :
    st.sent ⊆ (deliver node st d).sent := by
  rcases deliver_keeps node st d with ⟨-, h⟩ | ⟨row, s, -, hready, hkeeps⟩
  · rw [h]
    exact List.Subset.refl _
  · exact List.Subset.trans hready.sent hkeeps.sent

/-- What a relay to every peer leaves in the log of relays. -/
theorem relayedTo_append (node : Node) (sent : List (String × SignedCegObject))
    {obj : SignedCegObject} {inv : Invocation} (h : obj.invocation = some inv) :
    RelayedTo node (sent ++ node.peers.map fun p => (p, obj)) inv := by
  intro peer hpeer
  refine ⟨(peer, obj), List.mem_append_right _ ?_, rfl, h⟩
  exact List.mem_map.mpr ⟨peer, hpeer, rfl⟩

theorem RelayedTo.mono {node : Node} {sent sent' : List (String × SignedCegObject)}
    {inv : Invocation} (h : RelayedTo node sent inv) (hsub : sent ⊆ sent') :
    RelayedTo node sent' inv := by
  intro peer hpeer
  obtain ⟨m, hm, hm'⟩ := h peer hpeer
  exact ⟨m, hsub hm, hm'⟩

/-! ## First sightings -/

/-- For each key the node has marked seen, the invocation that first showed it, and
    whether that row bound and was admitted by the latch. -/
abbrev Sightings := List (SeenKey × Invocation × Bool)

/-- The sightings after `d`. They are forgotten with the seen set. -/
def sight (node : Node) (st : AccordState) (d : Delivery) (shown : Sightings) : Sightings :=
  match judgedRow node (receivedAt st d) d with
  | none => shown
  | some row =>
    let shown := if maxSeenInvocations ≤ st.seen.length then [] else shown
    if firstSight st row then
      (row.seenKey, row.invocation, decide (row.binding = true ∧ Admits node st d row)) :: shown
    else shown

/-- A delivery, with the sightings kept beside the state. -/
def track (node : Node) (x : AccordState × Sightings) (d : Delivery) : AccordState × Sightings :=
  (deliver node x.1 d, sight node x.1 d x.2)

/-- If `d` carries a binding row that the latch admits, under a key the node has seen,
    then the row that first showed the key was the same invocation and was admitted. -/
def FirstShownAdmitted (node : Node) (x : AccordState × Sightings) (d : Delivery) : Prop :=
  match judgedRow node (receivedAt x.1 d) d with
  | none => True
  | some row => row.binding = true → Admits node x.1 d row → firstSight x.1 row = false →
    (row.seenKey, row.invocation, true) ∈ x.2

instance (node : Node) (x : AccordState × Sightings) (d : Delivery) :
    Decidable (FirstShownAdmitted node x d) := by
  unfold FirstShownAdmitted
  split <;> infer_instance

/-- Every row that was admitted when it first showed its key has been relayed. -/
def ShownRelayed (node : Node) (x : AccordState × Sightings) : Prop :=
  ∀ key inv, (key, inv, true) ∈ x.2 → RelayedTo node x.1.sent inv

/-- **Step.** Admitted first sightings stay relayed, and an effect is relayed. -/
theorem track_relayed {node : Node} {x : AccordState × Sightings} {d : Delivery}
    (hinv : ShownRelayed node x) (hok : FirstShownAdmitted node x d) :
    ShownRelayed node (track node x d) ∧ (TakesEffect node x.1 d →
      ∀ inv, d.obj.invocation = some inv → RelayedTo node (deliver node x.1 d).sent inv) := by
  have hmono := deliver_sent_subset node x.1 d
  constructor
  · intro key inv hmem
    -- an entry is an old one, or the one `d` adds
    unfold track sight at hmem
    cases hrow : judgedRow node (receivedAt x.1 d) d with
    | none =>
      rw [hrow] at hmem
      exact (hinv key inv hmem).mono hmono
    | some row =>
      simp only [hrow] at hmem
      have hold : (key, inv, true) ∈ (if maxSeenInvocations ≤ x.1.seen.length then [] else x.2) →
          RelayedTo node (deliver node x.1 d).sent inv := by
        intro hin
        split at hin
        · cases hin
        · exact (hinv key inv hin).mono hmono
      split at hmem
      · rename_i hfs
        rcases List.mem_cons.mp hmem with heq | hin
        · -- the new entry is marked admitted only if `d` itself was relayed
          simp only [Prod.mk.injEq] at heq
          obtain ⟨-, rfl, hflag⟩ := heq
          obtain ⟨hb, ha⟩ := of_decide_eq_true hflag.symm
          show RelayedTo node (deliver node x.1 d).sent row.invocation
          rw [deliver_relays hrow hb ha hfs]
          exact relayedTo_append node _ (judgedRow_judged hrow).invocation_eq
        · exact hold hin
      · exact hold hmem
  · intro heff inv hobj
    obtain ⟨row, hrow, hb, ha⟩ := takesEffect_admits heff
    have hrow_inv := (judgedRow_judged hrow).invocation_eq
    obtain rfl : row.invocation = inv := Option.some.inj (hrow_inv.symm.trans hobj)
    cases hfs : firstSight x.1 row with
    | true =>
      rw [deliver_relays hrow hb ha hfs]
      exact relayedTo_append node _ hobj
    | false =>
      -- not relayed now, so it must have been when its key was first shown
      simp only [FirstShownAdmitted, hrow] at hok
      exact (hinv _ _ (hok hb ha hfs)).mono hmono

/-- **A binding accord row is relayed by every node it takes effect on**, in every run in
    which a row that takes effect under a key already seen was admitted, as the same
    invocation, when the key was first shown. -/
theorem binding_row_relayed (node : Node) (st : AccordState) (run : List Delivery)
    (hok : Guarded (track node) (FirstShownAdmitted node) (st, []) run) :
    EffectsRelayed node st run := by
  have hstart : ShownRelayed node (st, []) := fun _ _ h => nomatch h
  have hall := Guarded.guarantee (fun x d hinv hd => track_relayed hinv hd) hok hstart
  exact Guarded.project (f := Prod.fst)
    (q := fun s d => TakesEffect node s d →
      ∀ inv, d.obj.invocation = some inv → RelayedTo node (deliver node s d).sent inv)
    (fun x d => rfl) hall

/-- A halt, its confirmation and its resumption, each delivered twice. -/
theorem binding_row_relayed_in_order :
    let run := [Fixture.fire "h" "A1", Fixture.fire "h" "A1", Fixture.confirm "c" "h",
      Fixture.confirm "c" "h", Fixture.resume "r" "h", Fixture.resume "r" "h"]
    EffectsRelayed Fixture.node Fixture.fresh run ∧
      (after (deliver Fixture.node) Fixture.fresh run).sent.length = 3 := by
  intro run
  exact ⟨binding_row_relayed Fixture.node Fixture.fresh run (by decide), by decide⟩

/-- A confirmation that overtakes its halt: refused and marked seen, it confirms the halt
    when it arrives again, and no peer is ever sent it. -/
theorem overtaking_confirmation_not_relayed :
    ¬ EffectsRelayed Fixture.node Fixture.fresh
      [Fixture.confirm "c" "h", Fixture.fire "h" "A1", Fixture.confirm "c" "h"] := by
  intro h
  have hsent := h.2.2.1 (by decide) (Fixture.invocation .lifecycleConfirmed "c" (some "h")) rfl
  exact absurd hsent (by decide)

end CirisServer
