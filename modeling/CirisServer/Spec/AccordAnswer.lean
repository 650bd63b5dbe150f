import CirisServer.Spec.HaltRuns

/-!
# What the accord answer says of the latch

`halted`, `confirmed` and `released` are set on three arms. The confirmation and the
resumption arm set theirs from the file operation that went through. The halt arm sets
its own whatever the eight latch writes answered, and with no home it writes nothing.

Key results:
- `confirmedArm_tells`, `activeArm_tells`: two arms answer as the latch stands
- `haltWrite_tells_iff`: when the halt arm does
- `answer_tells_iff`: the deliveries whose answer is true of the latch
-/

namespace CirisServer

/-- The latch holds a record with the property `p`. -/
def LatchFile.Holds (latch : LatchFile) (p : HaltRecord → Prop) : Prop :=
  match latch with
  | .record r => p r
  | _ => False

instance (latch : LatchFile) (p : HaltRecord → Prop) [DecidablePred p] :
    Decidable (latch.Holds p) := by
  cases latch <;> unfold LatchFile.Holds <;> infer_instance

/-- What an outcome, read at `now`, says of the latch is so. -/
structure AccordOutcome.Tells (o : AccordOutcome) (latch : LatchFile) (now : Int) : Prop where
  halted : o.halted = true →
    latch.Holds fun r => r.invocationId = o.invocationId ∧ r.inEffectAt now = true
  confirmed : o.confirmed = true → latch.Holds fun r => r.confirmed.isSome = true
  released : o.released = true → latch = .absent

instance (o : AccordOutcome) (latch : LatchFile) (now : Int) : Decidable (o.Tells latch now) :=
  decidable_of_iff
    ((o.halted = true →
        latch.Holds fun r => r.invocationId = o.invocationId ∧ r.inEffectAt now = true) ∧
      (o.confirmed = true → latch.Holds fun r => r.confirmed.isSome = true) ∧
      (o.released = true → latch = .absent))
    ⟨fun h => ⟨h.1, h.2.1, h.2.2⟩, fun h => ⟨h.halted, h.confirmed, h.released⟩⟩

/-- The latch at the node's home. Without a home there is none. -/
def AccordState.latchAt (s : AccordState) (node : Node) : LatchFile :=
  if node.home.isSome = true then s.disk.latch else .absent

/-- The answer to a delivery, read at `now`, is true of the latch the delivery left. -/
def AnswerTells (node : Node) (st : AccordState) (d : Delivery) (now : Int) : Prop :=
  ∀ o ∈ (replicateAndMaybeHalt node d st).2.toOption,
    o.Tells ((replicateAndMaybeHalt node d st).1.latchAt node) now

instance (node : Node) (st : AccordState) (d : Delivery) (now : Int) :
    Decidable (AnswerTells node st d now) :=
  inferInstanceAs (Decidable (∀ o ∈ (replicateAndMaybeHalt node d st).2.toOption, _))

/-- An outcome that reports no effect says nothing of the latch. -/
theorem Inert.tells {o : AccordOutcome} (h : Inert (.ok o)) (latch : LatchFile) (now : Int) :
    o.Tells latch now := by
  obtain ⟨hhalted, hconfirmed, hreleased⟩ := h o rfl
  exact
    { halted := by simp [hhalted]
      confirmed := by simp [hconfirmed]
      released := by simp [hreleased] }

/-! ## The confirmation and the resumption arm -/

/-- The reading answers `confirmed` only over a latch that carries a confirmation. -/
theorem confirmRead_tells (env : Env) (row : AccordRow) (s : AccordState) {o : AccordOutcome}
    (h : (confirmRead env row s).2 = .error o) (now : Int) : o.Tells s.disk.latch now := by
  unfold confirmRead at h
  cases hread : readHaltLatch s.disk.latch env.latchReadable with
  | error e =>
    rw [hread] at h
    cases h
    exact (inert_refused row .latchUnreadable).tells _ _
  | ok found =>
    rw [hread] at h
    cases found with
    | none =>
      cases h
      exact (inert_refused row .confirmsUnknownHalt).tells _ _
    | some r =>
      have hlatch := readHaltLatch_some hread
      simp only at h
      -- the three answers in the source's order
      split at h
      · cases h
        exact (inert_refused row .confirmsUnknownHalt).tells _ _
      · split at h
        · cases h
          exact (inert_refused row .haltFuseLapsed).tells _ _
        · split at h
          · rename_i hconf
            cases h
            rw [hlatch]
            exact
              { halted := by simp [AccordRow.outcome]
                confirmed := fun _ => hconf
                released := by simp [AccordRow.outcome] }
          · cases h

/-- The confirmation arm answers as the latch stands. -/
theorem confirmedArm_tells (node : Node) (env : Env) (row : AccordRow) (fs : Bool)
    (s : AccordState) (now : Int) :
    (confirmedArm node env row fs s).2.Tells (confirmedArm node env row fs s).1.disk.latch
      now := by
  have hdisk := (confirmRead_cases env row s).2.1
  have htells : ∀ o, (confirmRead env row s).2 = .error o → o.Tells s.disk.latch now :=
    fun o h => confirmRead_tells env row s h now
  unfold confirmedArm
  generalize confirmRead env row s = read at hdisk htells ⊢
  obtain ⟨s', answer⟩ := read
  have hlatch : s'.disk.latch = s.disk.latch := congrArg Disk.latch hdisk
  cases answer with
  | error o =>
    show o.Tells s'.disk.latch now
    rw [hlatch]
    exact htells o rfl
  | ok found =>
    obtain ⟨r, c⟩ := found
    show (confirmWrite node env row fs r c s').2.Tells
      (confirmWrite node env row fs r c s').1.disk.latch now
    rcases confirmWrite_cases node env row fs r c s' with ⟨-, h⟩ | ⟨-, h⟩ | ⟨-, h⟩
    · rw [h, relayOnFirstSight_disk]
      exact
        { halted := by simp [AccordRow.outcome]
          confirmed := fun _ => rfl
          released := by simp [AccordRow.outcome] }
    · rw [h]
      exact (inert_refused row .latchWriteFailed).tells _ _
    · rw [h]
      exact (inert_refused row .latchWriteFailed).tells _ _

/-- The resumption arm answers as the latch stands. -/
theorem activeArm_tells (node : Node) (env : Env) (row : AccordRow) (fs : Bool)
    (s : AccordState) (now : Int) :
    (activeArm node env row fs s).2.Tells (activeArm node env row fs s).1.disk.latch now := by
  unfold activeArm
  rcases releaseRead_cases env row s with ⟨o, hinert, hread⟩ | ⟨r, -, -, hread⟩
  · rw [hread]
    exact hinert.tells _ _
  · rw [hread]
    show (releaseRemove node env row fs r s).2.Tells
      (releaseRemove node env row fs r s).1.disk.latch now
    rcases releaseRemove_cases node env row fs r s with ⟨disk, habsent, h⟩ | ⟨disk, -, h⟩
    · rw [h, relayOnFirstSight_disk]
      exact
        { halted := by simp [AccordRow.outcome]
          confirmed := by simp [AccordRow.outcome]
          released := fun _ => habsent }
    · rw [h]
      exact (inert_refused row .latchWriteFailed).tells _ _

/-! ## The halt arm -/

/-- A latch of `row`'s halt stands at `now` once the writes of the halt arm are over: one
    of them landed and its fuse still runs, or none touched the file and it was such a
    latch before. -/
def HaltStands (node : Node) (st : AccordState) (d : Delivery) (row : AccordRow) (now : Int) :
    Prop :=
  if .written ∈ d.env.latchWrites.take 8 then now < receivedAt st d + node.fuse
  else .torn ∉ d.env.latchWrites.take 8 ∧
    st.disk.latch.Holds fun r =>
      r.invocationId = row.status.invocationId ∧ r.inEffectAt now = true

instance (node : Node) (st : AccordState) (d : Delivery) (row : AccordRow) (now : Int) :
    Decidable (HaltStands node st d row now) := by
  unfold HaltStands
  infer_instance

/-- The halt arm's outcome is true of the latch exactly when the halt stands. -/
theorem haltWrite_tells_iff {node : Node} {st s : AccordState} {d : Delivery} {row : AccordRow}
    (hrow : judgedRow node (receivedAt st d) d = some row) (hdisk : s.disk = st.disk)
    (now : Int) :
    (haltWrite d.env row (haltRecord node row d.env.rng) s).2.Tells
        (haltWrite d.env row (haltRecord node row d.env.rng) s).1.disk.latch now ↔
      HaltStands node st d row now := by
  have hwrite : ∀ latch : LatchFile,
      ({ row.outcome with halted := true } : AccordOutcome).Tells latch now ↔
        latch.Holds fun r =>
          r.invocationId = row.status.invocationId ∧ r.inEffectAt now = true := by
    intro latch
    constructor
    · intro h
      exact h.halted rfl
    · intro h
      exact
        { halted := fun _ => h
          confirmed := by simp [AccordRow.outcome]
          released := by simp [AccordRow.outcome] }
  unfold haltWrite
  rw [hwrite, hdisk]
  unfold HaltStands
  obtain ⟨hid, hnone, -⟩ := haltRecord_fields node row d.env.rng
  have hlapses := haltRecord_lapsesAt hrow d.env.rng
  rcases latchRetry_cases (haltRecord node row d.env.rng) (d.env.latchWrites.take 8)
    st.disk.latch with ⟨hw, h⟩ | ⟨hw, ht, h⟩ | ⟨hw, ht, h⟩
  · -- the record is on disk, and its fuse counts from the receipt
    simp only [h, hw, if_true, LatchFile.Holds, hid, true_and]
    rw [HaltRecord.inEffectAt_iff, hnone, hlapses]
    simp
  · simp only [h, hw, if_false, ht, not_false_eq_true, true_and]
  · simp only [h, hw, if_false, ht, not_true_eq_false, false_and, LatchFile.Holds]

/-! ## Every delivery -/

/-- The delivery halts nothing, or there is a home and the halt stands there at `now`. -/
def HaltHonoured (node : Node) (st : AccordState) (d : Delivery) (now : Int) : Prop :=
  ∀ row ∈ judgedRow node (receivedAt st d) d, row.isGlobalHalt = true →
    node.home.isSome = true ∧ HaltStands node st d row now

instance (node : Node) (st : AccordState) (d : Delivery) (now : Int) :
    Decidable (HaltHonoured node st d now) :=
  inferInstanceAs (Decidable (∀ row ∈ judgedRow node (receivedAt st d) d, _))

/-- A delivery that is no halt is answered as the latch stands. -/
theorem answerTells_of_not_halt {node : Node} {st : AccordState} {d : Delivery}
    (hno : ∀ row ∈ judgedRow node (receivedAt st d) d, row.isGlobalHalt = false) (now : Int) :
    AnswerTells node st d now := by
  unfold AnswerTells
  rcases replicateAndMaybeHalt_cases node d st with ⟨-, a, hinert, h⟩ | ⟨row, s, hrow, -, harm⟩
  · rw [h]
    intro o ho
    have ha : a = .ok o := by
      cases a with
      | error e => cases ho
      | ok o' => exact congrArg _ (Option.some.inj ho)
    exact (ha ▸ hinert).tells _ _
  have hhalt := hno row hrow
  rcases harm with ⟨o, ho, -, h⟩ | ⟨hh, -, -⟩ | ⟨-, -, hhome, h⟩ | ⟨-, -, hhome, h⟩
  · rw [h]
    intro o' ho'
    cases ho'
    exact (ho.resolve_left (by simp [hhalt])).tells _ _
  · rw [hh] at hhalt
    cases hhalt
  · rw [h]
    intro o ho
    cases ho
    rw [AccordState.latchAt, if_pos hhome]
    exact confirmedArm_tells node d.env row _ s now
  · rw [h]
    intro o ho
    cases ho
    rw [AccordState.latchAt, if_pos hhome]
    exact activeArm_tells node d.env row _ s now

/-- A halt is answered as the latch stands exactly when there is a home and it stands. -/
theorem answerTells_halt_iff {node : Node} {st : AccordState} {d : Delivery} {row : AccordRow}
    (hrow : judgedRow node (receivedAt st d) d = some row) (hhalt : row.isGlobalHalt = true)
    (now : Int) :
    AnswerTells node st d now ↔ node.home.isSome = true ∧ HaltStands node st d row now := by
  have hbegin : beginHandling node d st =
      chooseArm node d.env row (firstSight st row) (sighted node d row st) := by
    rcases beginHandling_eq node d st with ⟨hnone, -⟩ | ⟨row', hrow', h⟩
    · rw [hnone] at hrow
      cases hrow
    · rw [hrow] at hrow'
      cases hrow'
      exact h
  have hready := (sighted_ready node st d row).relay node (firstSight st row) row.obj
  unfold AnswerTells replicateAndMaybeHalt AccordState.latchAt
  rw [hbegin, chooseArm_halting hhalt]
  cases hhome : node.home with
  | none =>
    -- reported as halted, with nowhere to write
    constructor
    · intro h
      exact ((h _ rfl).halted rfl).elim
    · intro h
      simp at h
  | some home =>
    simp only [Except.toOption, Option.mem_some_iff, forall_eq', Option.isSome_some, true_and,
      if_true]
    exact haltWrite_tells_iff hrow hready.disk now

/-- The answer to a delivery is true of the latch exactly when the delivery halts nothing,
    or there is a home and a latch of its halt stands there. -/
theorem answer_tells_iff (node : Node) (st : AccordState) (d : Delivery) (now : Int) :
    AnswerTells node st d now ↔ HaltHonoured node st d now := by
  by_cases hhalt : ∃ row ∈ judgedRow node (receivedAt st d) d, row.isGlobalHalt = true
  · obtain ⟨row, hrow, hglobal⟩ := hhalt
    rw [answerTells_halt_iff hrow hglobal now]
    constructor
    · intro h row' hrow' _
      rw [hrow] at hrow'
      cases hrow'
      exact h
    · intro h
      exact h row hrow hglobal
  · have hno : ∀ row ∈ judgedRow node (receivedAt st d) d, row.isGlobalHalt = false := by
      intro row hrow
      by_contra hglobal
      exact hhalt ⟨row, hrow, by simpa using hglobal⟩
    constructor
    · intro _ row hrow hglobal
      rw [hno row hrow] at hglobal
      cases hglobal
    · intro _
      exact answerTells_of_not_halt hno now

/-- A disk that refuses all eight writes: the answer is `halted` and no latch is there. -/
theorem halted_without_latch :
    let d := Fixture.fire "h" "A1"
    let d := { d with env := { d.env with latchWrites := List.replicate 8 .refused } }
    ((replicateAndMaybeHalt Fixture.node d Fixture.fresh).2.toOption.map fun o =>
        (o.halted, o.refusal)) = some (true, none) ∧
      ¬ AnswerTells Fixture.node Fixture.fresh d 1000000000 := by
  decide

end CirisServer
