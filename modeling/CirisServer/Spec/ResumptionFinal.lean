import CirisServer.Native.Accord
import CirisServer.Spec.HaltRuns

/-!
# A resumption is final

Accord messages are handled side by side, and a halt that a message was told is
released must stay released. The confirmation arm writes back the record it read, and
the halt arm writes the record it built, without looking at the latch again; the
result holds as long as neither write comes after the release of its own halt.

Key results:
- `uninterrupted_eq`: a task nothing interrupts does what `replicate_and_maybe_halt` does
- `resumption_final`: no latch write for an ended halt, no halt in effect again
-/

namespace CirisServer

open Interleave Run

/-! ## Tasks without interruption -/

/-- The phase and state after a task alone takes one step per environment. -/
def Phase.settle (node : Node) (phase : Phase) (st : AccordState) (envs : List Env) :
    AccordState × Phase :=
  envs.foldl (fun sp env => sp.2.advance node env sp.1) (st, phase)

theorem settle_cons (node : Node) (phase : Phase) (st : AccordState) (e : Env) (es : List Env) :
    phase.settle node st (e :: es) =
      (phase.advance node e st).2.settle node (phase.advance node e st).1 es := rfl

/-- A lone task's moves are its phase settling. -/
theorem after_advance_alone (node : Node) (obj : SignedCegObject) (envs : List Env)
    (st : AccordState) (phase : Phase) :
    after (accordServer node).step ⟨st, [⟨obj, phase⟩]⟩ (envs.map fun e => .advance 0 e) =
      ⟨(phase.settle node st envs).1, [⟨obj, (phase.settle node st envs).2⟩]⟩ := by
  induction envs generalizing st phase with
  | nil => rfl
  | cons e envs ih => exact ih _ _

/-- The environment of `d` for one step: no time passes, `w` answers a latch write. -/
def Delivery.stepEnv (d : Delivery) (w : WriteResult) : Env :=
  { d.env with wait := 0, latchWrites := [w] }

@[simp] theorem Delivery.stepEnv_wait (d : Delivery) (w : WriteResult) :
    (d.stepEnv w).wait = 0 := rfl

/-- An answered task stays answered, and touches nothing. -/
theorem settle_answered (node : Node) (d : Delivery) (answer : Except Response AccordOutcome)
    (st : AccordState) (ws : List WriteResult) :
    (Phase.answered answer).settle node st (ws.map d.stepEnv) = (st, .answered answer) := by
  induction ws with
  | nil => rfl
  | cons w ws ih =>
    have hstep : (Phase.answered answer).advance node (d.stepEnv w) st = (st, .answered answer) := by
      simp [Phase.advance, Delivery.stepEnv]
    rw [List.map_cons, settle_cons, hstep]
    exact ih

/-- A task done with the latch answers at its next step. -/
theorem settle_replying (node : Node) (d : Delivery) (o : AccordOutcome) (st : AccordState)
    (w : WriteResult) (ws : List WriteResult) :
    (Phase.replying o).settle node st ((w :: ws).map d.stepEnv) = (st, .answered (.ok o)) := by
  have hstep : (Phase.replying o).advance node (d.stepEnv w) st = (st, .answered (.ok o)) := by
    simp [Phase.advance, Delivery.stepEnv]
  rw [List.map_cons, settle_cons, hstep]
  exact settle_answered node d (.ok o) st ws

/-- Refused writes at the end change nothing about the retry loop. -/
theorem latchRetry_append_refused (record : HaltRecord) (ws : List WriteResult) (n : Nat)
    (latch : LatchFile) :
    latchRetry record (ws ++ List.replicate n .refused) latch = latchRetry record ws latch := by
  induction ws generalizing latch with
  | nil =>
    rw [List.nil_append]
    induction n with
    | zero => rfl
    | succ n ih => exact ih
  | cons w ws ih =>
    simp only [List.cons_append, latchRetry]
    split
    · rfl
    · exact ih _

/-- One attempt: the halt arm is done, or has written nothing lasting and tries again. -/
theorem advance_halting (node : Node) (d : Delivery) (row : AccordRow) (record : HaltRecord)
    (left : Nat) (w : WriteResult) (st : AccordState) :
    (Phase.halting row record left).advance node (d.stepEnv w) st =
      haltAttempt row record left w st := by
  simp [Phase.advance, Delivery.stepEnv]

/-- The halt arm's attempts, one step each, are its retry loop. -/
theorem settle_halting (node : Node) (d : Delivery) (row : AccordRow) (record : HaltRecord)
    (ws : List WriteResult) (left : Nat) (hlen : ws.length = left + 1) (st : AccordState) :
    (Phase.halting row record left).settle node st
        ((ws ++ [WriteResult.refused]).map d.stepEnv) =
      ({ st with disk := { st.disk with latch := (latchRetry record ws st.disk.latch).1 } },
        .answered (.ok { row.outcome with halted := true })) := by
  -- on the attempts: `left` more may follow the one at hand
  induction ws generalizing left st with
  | nil => simp at hlen
  | cons w ws ih =>
    rw [List.cons_append, List.map_cons, settle_cons, advance_halting]
    obtain ⟨w', ws', hws⟩ : ∃ w' ws', ws ++ [WriteResult.refused] = w' :: ws' := by
      cases ws with
      | nil => exact ⟨_, _, rfl⟩
      | cons a as => exact ⟨_, _, rfl⟩
    cases w with
    | written =>
      -- done; the attempts that are left over find a task that replies
      rw [hws]
      exact settle_replying node d _ _ w' ws'
    | refused =>
      cases left with
      | zero =>
        obtain rfl : ws = [] := by simpa using hlen
        exact settle_replying node d _ _ _ _
      | succ left => exact ih left (by simpa using hlen) st
    | torn =>
      cases left with
      | zero =>
        obtain rfl : ws = [] := by simpa using hlen
        exact settle_replying node d _ _ _ _
      | succ left => exact ih left (by simpa using hlen) _

/-- The confirmation arm's read and write, one step each, are the arm. -/
theorem settle_confirming (node : Node) (d : Delivery) (row : AccordRow) (fs : Bool)
    (st : AccordState) (w₁ w₂ w₃ : WriteResult) :
    (Phase.confirming row fs).settle node st ([w₁, w₂, w₃].map d.stepEnv) =
      ((confirmedArm node d.env row fs st).1,
        .answered (.ok (confirmedArm node d.env row fs st).2)) := by
  rw [List.map_cons, settle_cons]
  unfold confirmedArm
  cases hconfirm : confirmRead d.env row st with
  | mk s res =>
    -- the read looks at neither the wait nor the writes
    have hsame : confirmRead (d.stepEnv w₁) row st = (s, res) := hconfirm
    cases res with
    | error o =>
      have hread : (Phase.confirming row fs).advance node (d.stepEnv w₁) st =
          (s, .replying o) := by
        simp [Phase.advance, hsame]
      rw [hread]
      exact settle_replying node d o s w₂ [w₃]
    | ok rc =>
      have hread : (Phase.confirming row fs).advance node (d.stepEnv w₁) st =
          (s, .confirmWriting row fs rc.1 rc.2) := by
        simp [Phase.advance, hsame]
      -- nothing came between: the record written back is the one just read
      have hwrite : (Phase.confirmWriting row fs rc.1 rc.2).advance node (d.stepEnv w₂) s =
          ((confirmWrite node d.env row fs rc.1 rc.2 s).1,
            .replying (confirmWrite node d.env row fs rc.1 rc.2 s).2) := by
        simp only [Phase.advance, Delivery.stepEnv, Int.natCast_zero, Int.add_zero]
        rfl
      rw [hread, List.map_cons, settle_cons, hwrite]
      exact settle_replying node d _ _ w₃ []

/-- The resumption arm's read and removal, one step each, are the arm. -/
theorem settle_resuming (node : Node) (d : Delivery) (row : AccordRow) (fs : Bool)
    (st : AccordState) (w₁ w₂ w₃ : WriteResult) :
    (Phase.resuming row fs).settle node st ([w₁, w₂, w₃].map d.stepEnv) =
      ((activeArm node d.env row fs st).1,
        .answered (.ok (activeArm node d.env row fs st).2)) := by
  rw [List.map_cons, settle_cons]
  unfold activeArm
  cases hrelease : releaseRead d.env row st with
  | error o =>
    have hsame : releaseRead (d.stepEnv w₁) row st = .error o := hrelease
    have hread : (Phase.resuming row fs).advance node (d.stepEnv w₁) st = (st, .replying o) := by
      simp [Phase.advance, hsame]
    rw [hread]
    exact settle_replying node d o st w₂ [w₃]
  | ok r =>
    have hsame : releaseRead (d.stepEnv w₁) row st = .ok r := hrelease
    have hread : (Phase.resuming row fs).advance node (d.stepEnv w₁) st =
        (st, .removing row fs r) := by
      simp [Phase.advance, hsame]
    have hremove : (Phase.removing row fs r).advance node (d.stepEnv w₂) st =
        ((releaseRemove node d.env row fs r st).1,
          .replying (releaseRemove node d.env row fs r st).2) := by
      simp only [Phase.advance, Delivery.stepEnv, Int.natCast_zero, Int.add_zero]
      rfl
    rw [hread, List.map_cons, settle_cons, hremove]
    exact settle_replying node d _ _ w₃ []

/-- The retry loop padded to its eight attempts. -/
def haltAttempts (d : Delivery) : List WriteResult :=
  d.env.latchWrites.take 8 ++ List.replicate (8 - (d.env.latchWrites.take 8).length) .refused

/-- **Connection.** A task that nothing interrupts does what `replicateAndMaybeHalt` does:
    the same state, and the same answer. -/
theorem uninterrupted_eq (node : Node) (d : Delivery) (st : AccordState) :
    ∃ envs : List Env,
      after (accordServer node).step ⟨st, []⟩ (.arrive d :: envs.map fun e => .advance 0 e) =
        ⟨deliver node st d, [⟨d.obj, .answered (replicateAndMaybeHalt node d st).2⟩]⟩ := by
  have harrive : ∀ ws : List WriteResult, after (accordServer node).step ⟨st, []⟩
        (.arrive d :: (ws.map d.stepEnv).map fun e => .advance 0 e) =
      let settled := (Phase.ofBegun (beginHandling node d st).2).settle node
        (beginHandling node d st).1 (ws.map d.stepEnv)
      ⟨settled.1, [⟨d.obj, settled.2⟩]⟩ := by
    intro ws
    rw [after_cons, System.step_arrive]
    exact after_advance_alone node d.obj (ws.map d.stepEnv) _ _
  unfold deliver replicateAndMaybeHalt
  generalize beginHandling node d st = begun at harrive ⊢
  obtain ⟨s, b⟩ := begun
  cases b with
  | answered answer =>
    refine ⟨([] : List WriteResult).map d.stepEnv, ?_⟩
    rw [harrive]
    rfl
  | halting row record =>
    refine ⟨(haltAttempts d ++ [WriteResult.refused]).map d.stepEnv, ?_⟩
    rw [harrive]
    -- the source tries eight times: one attempt, and seven more
    have hlen : (haltAttempts d).length = 7 + 1 := by
      simp only [haltAttempts, List.length_append, List.length_replicate, List.length_take]
      omega
    simp only [Phase.ofBegun]
    rw [settle_halting node d row record _ 7 hlen s, haltAttempts, latchRetry_append_refused]
    rfl
  | confirming row fs =>
    refine ⟨([.refused, .refused, .refused] : List WriteResult).map d.stepEnv, ?_⟩
    rw [harrive, show Phase.ofBegun (s, Begun.confirming row fs).2 = .confirming row fs from rfl,
      settle_confirming]
  | resuming row fs =>
    refine ⟨([.refused, .refused, .refused] : List WriteResult).map d.stepEnv, ?_⟩
    rw [harrive, show Phase.ofBegun (s, Begun.resuming row fs).2 = .resuming row fs from rfl,
      settle_resuming]

/-! ## Ended halts stay ended -/

/-- The handler has removed a latch. -/
def Phase.released : Phase → Bool
  | .replying o => o.released
  | .answered (.ok o) => o.released
  | _ => false

/-- The message was answered `released: true`. -/
def Phase.answeredReleased : Phase → Bool
  | .answered (.ok o) => o.released
  | _ => false

/-- The record the handler's next step leaves as the latch, if `env` lets it land. -/
def Phase.writes (env : Env) : Phase → Option HaltRecord
  | .halting _ record _ => if env.latchWrites.headD .refused = .written then some record else none
  | .confirmWriting _ _ r confirmation =>
    if env.confirmWrite = .written then some { r with confirmed := some confirmation } else none
  | _ => none

/-- Some message naming `h` has removed a latch. -/
def Ended (h : String) (c : Config AccordState Task) : Prop :=
  ∃ t ∈ c.tasks, t.resumes = some h ∧ t.phase.released = true

instance (h : String) (c : Config AccordState Task) : Decidable (Ended h c) :=
  inferInstanceAs (Decidable (∃ t ∈ c.tasks, _))

/-- Once a message has been answered `released: true` for `h`, no read of the latch at
    any time shows `h` in effect. -/
def ResumptionsFinal (c : Config AccordState Task) : Prop :=
  ∀ t ∈ c.tasks, ∀ h, t.resumes = some h → t.phase.answeredReleased = true →
    ∀ r now, c.shared.disk.latch = .record r → r.inEffectAt now = true → r.invocationId ≠ h

/-- The move puts no record of an ended halt back on the latch. -/
def LeavesEnded (c : Config AccordState Task) : Move Delivery Env → Prop
  | .arrive _ => True
  | .advance i env =>
    match c.tasks[i]? with
    | none => True
    | some t =>
      match t.phase.writes env with
      | none => True
      | some record => ¬ Ended record.invocationId c

instance (c : Config AccordState Task) (m : Move Delivery Env) : Decidable (LeavesEnded c m) := by
  unfold LeavesEnded
  cases m with
  | arrive d => exact isTrue trivial
  | advance i env =>
    dsimp only
    split
    · exact isTrue trivial
    · split <;> infer_instance

/-- Judging a message touches no file and releases nothing. -/
theorem beginHandling_spec (node : Node) (d : Delivery) (st : AccordState) :
    (beginHandling node d st).1.disk = st.disk ∧
      (Phase.ofBegun (beginHandling node d st).2).released = false := by
  rcases beginHandling_eq node d st with ⟨-, a, hinert, hbegin⟩ | ⟨row, -, hbegin⟩
  · rw [hbegin]
    refine ⟨rfl, ?_⟩
    cases a with
    | error resp => rfl
    | ok o => exact (hinert o rfl).2.2
  · rw [hbegin]
    unfold chooseArm
    split
    · refine ⟨?_, by cases node.home <;> rfl⟩
      cases node.home <;> exact relayOnFirstSight_disk node _ _ _
    · split
      · cases node.home <;> exact ⟨rfl, rfl⟩
      · split
        · cases node.home <;> exact ⟨rfl, rfl⟩
        · split <;> exact ⟨rfl, rfl⟩

/-- What one step of a handler does to the latch: nothing, or its write, or a torn file,
    or the removal; and it counts as released only if it removed or had removed. -/
theorem advance_cases (node : Node) (env : Env) (phase : Phase) (st : AccordState) :
    let next := phase.advance node env st
    (next.1.disk.latch = st.disk.latch ∧ (next.2.released = true → phase.released = true)) ∨
    next.1.disk.latch = .unreadable ∨ next.1.disk.latch = .absent ∨
    ∃ record, phase.writes env = some record ∧ next.1.disk.latch = .record record ∧
      next.2.released = false := by
  cases phase with
  | halting row record left =>
    simp only [Phase.advance, haltAttempt, Phase.writes]
    -- the write lands, is refused, or tears the file; the last attempt replies
    cases hw : env.latchWrites.headD .refused with
    | written => exact Or.inr (Or.inr (Or.inr ⟨record, rfl, rfl, rfl⟩))
    | refused => cases left <;> exact Or.inl ⟨rfl, id⟩
    | torn => cases left <;> exact Or.inr (Or.inl rfl)
  | confirming row fs =>
    -- a read: the file stays, and no answer of this arm says released
    simp only [Phase.advance]
    generalize hs : { st with clock := st.clock + (env.wait : Int) } = s
    obtain ⟨-, hdisk, hres⟩ := confirmRead_cases env row s
    have hlatch : (confirmRead env row s).1.disk.latch = st.disk.latch := by rw [hdisk, ← hs]
    generalize confirmRead env row s = read at hlatch hres
    obtain ⟨s', res⟩ := read
    rcases hres with ⟨o, -, hrel, rfl⟩ | ⟨r, -, -, -, -, rfl⟩
    · refine Or.inl ⟨hlatch, fun hreleased => ?_⟩
      rw [show o.released = true from hreleased] at hrel
      cases hrel
    · exact Or.inl ⟨hlatch, fun hreleased => nomatch hreleased⟩
  | confirmWriting row fs r confirmation =>
    simp only [Phase.advance]
    generalize hs : { st with clock := st.clock + (env.wait : Int) } = s
    have hlatch : s.disk.latch = st.disk.latch := by rw [← hs]
    rcases confirmWrite_cases node env row fs r confirmation s with
      ⟨hw, h⟩ | ⟨-, h⟩ | ⟨-, h⟩
    · refine Or.inr (Or.inr (Or.inr ⟨{ r with confirmed := some confirmation },
        by simp only [Phase.writes, hw, if_true], ?_, ?_⟩))
      · rw [h, relayOnFirstSight_disk]
      · rw [h]
        rfl
    · rw [h]
      exact Or.inl ⟨hlatch, fun hreleased => nomatch hreleased⟩
    · rw [h]
      exact Or.inr (Or.inl rfl)
  | resuming row fs =>
    simp only [Phase.advance]
    generalize hs : { st with clock := st.clock + (env.wait : Int) } = s
    have hlatch : s.disk.latch = st.disk.latch := by rw [← hs]
    rcases releaseRead_cases env row s with ⟨o, hinert, hread⟩ | ⟨r, -, -, hread⟩
    · rw [hread]
      refine Or.inl ⟨hlatch, fun hreleased => ?_⟩
      have hrel := (hinert o rfl).2.2
      rw [show o.released = true from hreleased] at hrel
      cases hrel
    · rw [hread]
      exact Or.inl ⟨hlatch, fun hreleased => nomatch hreleased⟩
  | removing row fs r =>
    -- the one step that removes the file
    simp only [Phase.advance]
    generalize hs : { st with clock := st.clock + (env.wait : Int) } = s
    have hlatch : s.disk.latch = st.disk.latch := by rw [← hs]
    rcases releaseRemove_cases node env row fs r s with ⟨disk, hgone, h⟩ | ⟨disk, hkept, h⟩
    · rw [h, relayOnFirstSight_disk]
      exact Or.inr (Or.inr (Or.inl hgone))
    · rw [h]
      exact Or.inl ⟨hkept.trans hlatch, fun hreleased => nomatch hreleased⟩
  | replying o => exact Or.inl ⟨rfl, id⟩
  | answered answer => exact Or.inl ⟨rfl, id⟩

/-- If the message of `t` has removed a latch, the latch is not one of the halt it named. -/
def EndedSpared (st : AccordState) (t : Task) : Prop :=
  ∀ h, t.resumes = some h → t.phase.released = true → LatchSpares h st.disk.latch

/-- **Step.** A move that puts no ended halt back keeps every ended halt off the latch. -/
theorem step_endedSpared {node : Node} {c : Config AccordState Task} {m : Move Delivery Env}
    (hinv : ∀ t ∈ c.tasks, EndedSpared c.shared t) (hok : LeavesEnded c m) :
    ∀ t ∈ ((accordServer node).step c m).tasks,
      EndedSpared ((accordServer node).step c m).shared t := by
  refine ((accordServer node).step_preserves (J := fun _ => True) (P := EndedSpared)
    trivial hinv ?_ ?_).2
  · -- a message that arrives has touched no file yet
    intro d _
    obtain ⟨hdisk, hnew⟩ := beginHandling_spec node d c.shared
    refine ⟨trivial, fun h _ hreleased => ?_, fun u hu h hr hreleased => ?_⟩
    · rw [show (Phase.ofBegun (beginHandling node d c.shared).2).released = true from hreleased]
        at hnew
      cases hnew
    · rw [show ((accordServer node).spawn d c.shared).1.disk = c.shared.disk from hdisk]
      exact hinv u hu h hr hreleased
  · rintro i env t rfl ht
    simp only [LeavesEnded, ht] at hok
    have hmem : t ∈ c.tasks := List.mem_of_getElem? ht
    rcases advance_cases node env t.phase c.shared with
      ⟨hkept, hrel⟩ | htorn | hgone | ⟨record, hwrites, hwritten, hrel⟩
    · -- the latch is as it was, and so is who has released
      refine ⟨trivial, fun h hr hreleased => ?_, fun u hu h hr hreleased => ?_⟩
      · exact hkept ▸ hinv t hmem h hr (hrel hreleased)
      · exact hkept ▸ hinv u hu h hr hreleased
    · exact ⟨trivial, fun h _ _ => htorn ▸ latchSpares_unreadable h,
        fun u hu h _ _ => htorn ▸ latchSpares_unreadable h⟩
    · exact ⟨trivial, fun h _ _ => hgone ▸ latchSpares_absent h,
        fun u hu h _ _ => hgone ▸ latchSpares_absent h⟩
    · -- a write: its halt has not ended, so it is none of those named by ended tasks
      rw [hwrites] at hok
      refine ⟨trivial, fun h _ hreleased => ?_, fun u hu h hr hreleased r hlatch hid => ?_⟩
      · rw [show (t.phase.advance node env c.shared).2.released = true from hreleased] at hrel
        cases hrel
      · obtain rfl : record = r := by simpa using hwritten.symm.trans hlatch
        exact hok ⟨u, hu, hid ▸ hr, hreleased⟩

/-- **A resumption is final for the halt it names**, in every interleaving in which no
    task writes a record of a halt that has been released by then. -/
theorem resumption_final (node : Node) (st : AccordState) (moves : List (Move Delivery Env))
    (hok : Guarded (accordServer node).step LeavesEnded ⟨st, []⟩ moves) :
    ResumptionsFinal (after (accordServer node).step ⟨st, []⟩ moves) := by
  have hinv : ∀ t ∈ (after (accordServer node).step ⟨st, []⟩ moves).tasks,
      EndedSpared (after (accordServer node).step ⟨st, []⟩ moves).shared t :=
    Guarded.invariant (I := fun c => ∀ t ∈ c.tasks, EndedSpared c.shared t)
      (fun c m h hleaves => step_endedSpared h hleaves) hok (by simp)
  intro t ht h hr hanswered r now hlatch _
  have hreleased : t.phase.released = true := by
    unfold Phase.answeredReleased at hanswered
    split at hanswered
    · rename_i hphase
      rw [hphase]
      exact hanswered
    · cases hanswered
  exact hinv t ht h hr hreleased r hlatch

/-- A halt `h` handled to its latch, then its confirmation and its resumption arriving
    side by side; `schedule` says whose step is next. -/
def Fixture.sideBySide (schedule : List Nat) : Config AccordState Task :=
  after (accordServer Fixture.node).step ⟨Fixture.fresh, []⟩
    ([.arrive (Fixture.fire "h" "A1"), .advance 0 Fixture.env,
      .arrive (Fixture.confirm "c" "h"), .arrive (Fixture.resume "r" "h")] ++
      schedule.map fun i => .advance i Fixture.env)

/-- The confirmation's write-back before the removal. -/
theorem resumption_final_confirmed_first :
    (∃ t ∈ (Fixture.sideBySide [1, 2, 1, 2, 2]).tasks,
      t.resumes = some "h" ∧ t.phase.answeredReleased = true) ∧
    ResumptionsFinal (Fixture.sideBySide [1, 2, 1, 2, 2]) :=
  ⟨by decide, resumption_final Fixture.node Fixture.fresh _ (by decide)⟩

/-- A confirmation that read the latch before the resumption removed it writes the halt
    back, confirmed, after the resumption was answered. -/
theorem confirmation_resurrects_halt :
    ¬ ResumptionsFinal (Fixture.sideBySide [1, 2, 2, 2, 1]) := by
  intro hfinal
  obtain ⟨r, hlatch, hid, hstands⟩ := LatchFile.reads_some
    (show (Fixture.sideBySide [1, 2, 2, 2, 1]).shared.disk.latch.reads 0 =
      some ("h", .inEffect none) by decide)
  obtain ⟨t, ht, hr, hanswered⟩ : ∃ t ∈ (Fixture.sideBySide [1, 2, 2, 2, 1]).tasks,
      t.resumes = some "h" ∧ t.phase.answeredReleased = true := by decide
  have heff : r.inEffectAt 0 = true := by rw [HaltRecord.inEffectAt, hstands]
  exact hfinal t ht "h" hr hanswered r 0 hlatch heff hid

end CirisServer
