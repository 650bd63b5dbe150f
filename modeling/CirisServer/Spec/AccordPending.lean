import CirisServer.Native.AccordPending
import CirisServer.Spec.AccordStep

/-!
# Cosignatures in the pending table

A concur writes back the object it read with its own cosignature added, and an open
writes an object with its own cosignature alone. Two calls that overlap lose a
cosignature: the later write does not have what the earlier one added. The result
holds for interleavings in which no call is answered between a concur's read and its
write, and an open writes first.

Key results:
- `replicateAndMaybeHalt_reports`: what an outcome says about the object's cosignatures
- `step_collected`: what one move preserves
- `cosignatures_kept`: no cosignature answered 200 is lost, and a majority is seen
-/

namespace CirisServer

open Interleave Run

/-! ## What a replication reports -/

theorem confirmedArm_reports (node : Node) (env : Env) (row : AccordRow) (fs : Bool)
    (st : AccordState) : Reports row (confirmedArm node env row fs st).2 := by
  unfold confirmedArm confirmRead
  cases hread : readHaltLatch st.disk.latch env.latchReadable with
  | error e => exact ⟨rfl, rfl⟩
  | ok found =>
    cases found with
    | none => exact ⟨rfl, rfl⟩
    | some r =>
      dsimp only
      -- each refusal is the row's outcome with a reason
      by_cases hname : row.invocation.confirmsHaltId ≠ some r.invocationId
      · rw [if_pos hname]
        exact ⟨rfl, rfl⟩
      rw [if_neg hname]
      cases heff : r.inEffectAt (st.clock + env.handling) with
      | false => exact ⟨rfl, rfl⟩
      | true =>
        cases hc : r.confirmed with
        | some c => exact ⟨rfl, rfl⟩
        | none =>
          cases hw : env.confirmWrite <;>
            simp [Reports, confirmWrite, confirmHalt, latchHalt, hw, AccordRow.refused,
              AccordRow.outcome]

theorem activeArm_reports (node : Node) (env : Env) (row : AccordRow) (fs : Bool)
    (st : AccordState) : Reports row (activeArm node env row fs st).2 := by
  unfold activeArm releaseRead
  split
  · rename_i o ho
    split at ho
    · split at ho
      · cases ho
        exact ⟨rfl, rfl⟩
      · cases ho
    · cases ho
      exact ⟨rfl, rfl⟩
    · cases ho
      exact ⟨rfl, rfl⟩
  · rename_i r _
    rcases releaseRemove_cases node env row fs r st with ⟨disk, -, h⟩ | ⟨disk, -, h⟩
    · rw [h]
      exact ⟨rfl, rfl⟩
    · rw [h]
      exact ⟨rfl, rfl⟩

/-- An outcome reports what judging the object against the standing roster found. -/
theorem replicateAndMaybeHalt_reports {node : Node} {d : Delivery} {st : AccordState}
    {o : AccordOutcome} (h : (replicateAndMaybeHalt node d st).2 = .ok o) :
    ∃ roster row, d.env.roster = .ok roster ∧
      judge node roster d.obj (receivedAt st d) = .ok row ∧ Reports row o := by
  rcases replicateAndMaybeHalt_cases node d st with
    ⟨hnone, a, -, heq⟩ | ⟨row, s, hrow, hready, harm⟩
  · -- nobody on the roster signed: the outcome is the bare one
    unfold replicateAndMaybeHalt beginHandling at h
    unfold judgedRow at hnone
    cases hr : d.env.roster with
    | error resp => simp [hr] at h
    | ok roster =>
      cases hj : judge node roster d.obj (receivedAt st d) with
      | error resp => simp [hr, show judge node roster d.obj (st.clock + d.env.wait) = _ from hj] at h
      | ok row =>
        have hv : row.status.validSigners.isEmpty = true := by simpa [hr, hj] using hnone
        simp only [hr, show judge node roster d.obj (st.clock + d.env.wait) = _ from hj, hv, if_true,
          Except.ok.injEq] at h
        exact ⟨roster, row, rfl, hj, h ▸ ⟨rfl, rfl⟩⟩
  · obtain ⟨roster, hr, hj, -⟩ := judgedRow_some hrow
    refine ⟨roster, row, hr, hj, ?_⟩
    rcases harm with ⟨o', -, hrep, heq⟩ | ⟨-, -, heq⟩ | ⟨-, -, -, heq⟩ | ⟨-, -, -, heq⟩
    · rw [heq] at h
      exact Except.ok.inj h ▸ hrep
    · rw [heq] at h
      exact Except.ok.inj h ▸ ⟨rfl, rfl⟩
    · rw [heq] at h
      exact Except.ok.inj h ▸ confirmedArm_reports node d.env row _ s
    · rw [heq] at h
      exact Except.ok.inj h ▸ activeArm_reports node d.env row _ s

/-! ## The table -/

section Collecting

variable (node : Node) (roster : List ThresholdMember) (inv : Invocation)

/-- The seats of the standing roster that `obj` carries a valid cosignature of. -/
def seatsOf (obj : SignedCegObject) : List String :=
  node.verify.validSeats roster inv obj.signatures

/-- The object carries the invocation, and some seat's valid cosignature. -/
structure Holds (obj : SignedCegObject) : Prop where
  invocation : obj.invocation = some inv
  authentic : seatsOf node roster inv obj ≠ []

/-- The object carries the cosignature of every call answered so far. -/
def Carries (answers : List Answered) (obj : SignedCegObject) : Prop :=
  ∀ a ∈ answers, a.signature ∈ obj.signatures

/-- The call's object holds the invocation and the call's own cosignature, and its
    outcome counted the object's seats. -/
structure FairAnswer (a : Answered) : Prop where
  holds : Holds node roster inv a.obj
  own : a.signature ∈ a.obj.signatures
  authentic : a.outcome.authentic = true
  quorumMet : a.outcome.quorumMet =
    decide (haltPlaneThreshold node.verify inv.invocationKind roster.length ≤
      (seatsOf node roster inv a.obj).length)

/-- No cosignature answered 200 is lost: the pending object carries them all, and if
    they are a strict majority's, some call saw the quorum met. -/
def CosignaturesKept (b : Board) : Prop :=
  (∀ obj ∈ PendingTable.get? b.st.pending inv.pendingKey, Carries b.answers obj) ∧
  (node.verify.StrictMajority roster inv (b.answers.map (·.signature)) →
    ∃ a ∈ b.answers, a.outcome.quorumMet = true)

instance (answers : List Answered) (obj : SignedCegObject) : Decidable (Carries answers obj) :=
  inferInstanceAs (Decidable (∀ a ∈ answers, _))

instance (b : Board) : Decidable (CosignaturesKept node roster inv b) :=
  inferInstanceAs (Decidable (_ ∧ _))

/-- The move does not overlap with another call's: calls are for `inv` and find the
    standing roster; an open that finds room writes before any call with another
    cosignature is answered; no call is answered between a concur's read and its write. -/
def NoOverlap (c : Config Board CallPhase) : Move PendingCall Env → Prop
  | .arrive (.opens invocation _) => invocation = inv
  | .arrive (.concurs key _) => key = inv.pendingKey
  | .advance i env =>
    (∀ r ∈ env.roster.toOption, r = roster) ∧
    match c.tasks[i]? with
    | some (.openWriting key answer) =>
      PendingTable.full (PendingTable.prune c.shared.st.pending (c.shared.st.clock + env.wait)) key
        = true ∨ ∀ a ∈ c.shared.answers, a.signature = answer.signature
    | some (.concurWriting _ _ since) => since = c.shared.answers.length
    | _ => True

instance (c : Config Board CallPhase) (m : Move PendingCall Env) :
    Decidable (NoOverlap roster inv c m) := by
  unfold NoOverlap
  cases m with
  | arrive call => cases call <;> infer_instance
  | advance i env =>
    dsimp only
    split <;> infer_instance

/-- What an outcome says about the object, when the standing roster is `roster`. -/
theorem replicate_fair {env : Env} {obj : SignedCegObject} {st : AccordState} {o : AccordOutcome}
    (hroster : ∀ r ∈ env.roster.toOption, r = roster) (hobj : obj.invocation = some inv)
    (h : (replicateAndMaybeHalt node ⟨obj, env⟩ st).2 = .ok o) :
    (o.authentic = true ↔ seatsOf node roster inv obj ≠ []) ∧
    o.quorumMet = decide (haltPlaneThreshold node.verify inv.invocationKind roster.length ≤
      (seatsOf node roster inv obj).length) := by
  obtain ⟨r, row, hr, hj, hauth, hquorum⟩ := replicateAndMaybeHalt_reports h
  obtain rfl : r = roster := hroster r (by rw [show env.roster = .ok r from hr]; rfl)
  obtain ⟨p, status, hp, hs, rfl⟩ := judge_ok hj
  obtain ⟨-, -, hperm⟩ := node.verify.status_spec _ _ hs
  -- what the object carries is what was judged
  have hparse : parseAccordInvocation obj = .ok p := hp
  obtain rfl : p.invocation = inv := by
    simpa [SignedCegObject.invocation, hparse] using hobj
  have hsigs : obj.signatures = p.signatures := by simp only [SignedCegObject.signatures, hparse]
  have hseats : status.validSigners.Perm (seatsOf node r p.invocation obj) := by
    unfold seatsOf
    rw [hsigs]
    exact hperm
  constructor
  · rw [hauth]
    simp only [AccordRow.outcome, Bool.not_eq_true', List.isEmpty_eq_false_iff]
    rw [not_iff_not]
    exact ⟨fun hnil => List.nil_perm.mp (hnil ▸ hseats), fun hnil => List.perm_nil.mp (hnil ▸ hseats)⟩
  · rw [hquorum]
    simp only [AccordRow.quorumMet, hseats.length_eq]

/-- Pruning only drops entries. -/
theorem prune_subset (pending : PendingTable) (now : Int) :
    PendingTable.prune pending now ⊆ pending :=
  List.filter_subset_self _

/-- After a write the key's only entry is what was written. -/
theorem mem_insert_same {pending : PendingTable} {key : PendingKey} {obj obj' : SignedCegObject}
    (h : (key, obj') ∈ PendingTable.insert pending key obj) : obj' = obj := by
  rcases List.mem_cons.mp h with h | h
  · exact (Prod.mk.inj h).2
  · simp at h

theorem mem_of_get? {pending : PendingTable} {key : PendingKey} {obj : SignedCegObject}
    (h : PendingTable.get? pending key = some obj) : (key, obj) ∈ pending := by
  obtain ⟨e, hfind, rfl⟩ := Option.map_eq_some_iff.mp h
  have hkey : e.1 = key := by simpa using List.find?_some hfind
  exact hkey ▸ List.mem_of_find?_eq_some hfind

/-! ## The invariant -/

/-- What holds of the table and the answers. -/
structure Collected (b : Board) : Prop where
  table : ∀ obj, (inv.pendingKey, obj) ∈ b.st.pending →
    Holds node roster inv obj ∧ Carries b.answers obj
  latest : b.answers ≠ [] → ∃ a ∈ b.answers, Carries b.answers a.obj ∧ FairAnswer node roster inv a

/-- What holds of a call: what a concur read, or is about to write, carries every call
    answered so far unless one was answered since it read. -/
def CallFair (b : Board) : CallPhase → Prop
  | .opening invocation _ => invocation = inv
  | .reading key _ => key = inv.pendingKey
  | .concurring key _ existing since =>
    key = inv.pendingKey ∧ Holds node roster inv existing ∧ since ≤ b.answers.length ∧
      (since = b.answers.length → Carries b.answers existing)
  | .openWriting key answer => key = inv.pendingKey ∧ FairAnswer node roster inv answer
  | .concurWriting key answer since =>
    key = inv.pendingKey ∧ FairAnswer node roster inv answer ∧ since ≤ b.answers.length ∧
      (since = b.answers.length → Carries b.answers answer.obj)
  | .refused _ => True
  | .answered _ => True

variable {node roster inv}

/-- Other calls' answers do not spoil a call: it has been overtaken, or nothing changed. -/
theorem CallFair.mono {b b' : Board} {phase : CallPhase} (h : CallFair node roster inv b phase)
    (hb : b'.answers = b.answers ∨ ∃ a, b'.answers = a :: b.answers) :
    CallFair node roster inv b' phase := by
  have hlen : b.answers.length ≤ b'.answers.length := by
    rcases hb with hb | ⟨a, hb⟩
    · rw [hb]
    · rw [hb, List.length_cons]
      omega
  -- a call that is not overtaken finds the answers it knew
  have hsame : ∀ since, since ≤ b.answers.length → since = b'.answers.length →
      b'.answers = b.answers := by
    intro since hle heq
    rcases hb with hb | ⟨a, hb⟩
    · exact hb
    · rw [hb, List.length_cons] at heq
      omega
  cases phase with
  | concurring key sig existing since =>
    obtain ⟨hkey, hholds, hle, hcarries⟩ := h
    refine ⟨hkey, hholds, by omega, fun heq => ?_⟩
    have hanswers := hsame since hle heq
    rw [hanswers] at heq ⊢
    exact hcarries heq
  | concurWriting key answer since =>
    obtain ⟨hkey, hfair, hle, hcarries⟩ := h
    refine ⟨hkey, hfair, by omega, fun heq => ?_⟩
    have hanswers := hsame since hle heq
    rw [hanswers] at heq ⊢
    exact hcarries heq
  | opening invocation sig => exact h
  | reading key sig => exact h
  | openWriting key answer => exact h
  | refused resp => trivial
  | answered answer => trivial

/-- A state that differs in neither table nor answers is as good. -/
theorem Collected.of_same {b b' : Board} (h : Collected node roster inv b)
    (hpending : b'.st.pending ⊆ b.st.pending) (hanswers : b'.answers = b.answers) :
    Collected node roster inv b' := by
  refine ⟨fun obj hobj => ?_, fun hne => ?_⟩
  · rw [hanswers]
    exact h.table obj (hpending hobj)
  · rw [hanswers] at hne ⊢
    exact h.latest hne

/-- A write whose object carries every answer leaves the table and the answers good. -/
theorem Collected.write {b : Board} {answer : Answered} (hfair : FairAnswer node roster inv answer)
    (hcarries : Carries b.answers answer.obj) (pending : PendingTable) (st : AccordState) :
    Collected node roster inv
      { st := { st with pending := PendingTable.insert pending inv.pendingKey answer.obj }
        answers := answer :: b.answers } := by
  have hall : Carries (answer :: b.answers) answer.obj := by
    intro a ha
    rcases List.mem_cons.mp ha with rfl | ha
    · exact hfair.own
    · exact hcarries a ha
  refine ⟨fun obj hobj => ?_, fun _ => ⟨answer, List.mem_cons_self, hall, hfair⟩⟩
  obtain rfl := mem_insert_same hobj
  exact ⟨hfair.holds, hall⟩

/-- A replication leaves the pending table alone. -/
theorem replicate_pending (node : Node) (d : Delivery) (st : AccordState) :
    (replicateAndMaybeHalt node d st).1.pending = st.pending := by
  rcases deliver_keeps node st d with ⟨-, h⟩ | ⟨row, s, -, hready, hkeeps⟩
  · rw [show (replicateAndMaybeHalt node d st).1 = _ from h]
  · exact hkeeps.pending.trans hready.pending

/-- A board after a replication: the same table and the same answers. -/
theorem Collected.replicate {b : Board} (hb : Collected node roster inv b) (d : Delivery) :
    Collected node roster inv { b with st := (replicateAndMaybeHalt node d b.st).1 } :=
  hb.of_same (replicate_pending node d b.st ▸ List.Subset.refl _) rfl

/-- An open up to its write. -/
theorem openReplicate_fair {b : Board} (hb : Collected node roster inv b) {env : Env}
    (hroster : ∀ r ∈ env.roster.toOption, r = roster)
    (sig : Except Response ThresholdSignature) :
    Collected node roster inv (openReplicate node env inv sig b).1 ∧
      CallFair node roster inv (openReplicate node env inv sig b).1
        (openReplicate node env inv sig b).2 ∧
      (openReplicate node env inv sig b).1.answers = b.answers := by
  unfold openReplicate
  split
  · exact ⟨hb, trivial, rfl⟩
  · exact ⟨hb, trivial, rfl⟩
  rename_i members s hmembers
  dsimp only
  -- the object holds the opener's cosignature alone
  generalize hobj : buildAccordInvocationObject humanityAccordFamilyKeyId members inv [s]
    (.ofInstant b.st.clock) = obj
  have hinv : obj.invocation = some inv := by rw [← hobj]; rfl
  have hsigs : obj.signatures = [s] := by rw [← hobj]; rfl
  have hafter := hb.replicate (⟨obj, env⟩ : Delivery)
  have hfair : ∀ o, (replicateAndMaybeHalt node ⟨obj, env⟩ b.st).2 = .ok o → _ :=
    fun o => replicate_fair node roster inv hroster hinv
  generalize replicateAndMaybeHalt node ⟨obj, env⟩ b.st = res at hafter hfair
  obtain ⟨st, answer⟩ := res
  cases answer with
  | error resp => exact ⟨hafter, trivial, rfl⟩
  | ok o =>
    obtain ⟨hauth, hquorum⟩ := hfair o rfl
    dsimp only
    split
    · rename_i ho
      exact ⟨hafter, ⟨rfl, ⟨⟨hinv, hauth.mp ho⟩, by rw [hsigs]; exact List.mem_singleton_self s,
        ho, hquorum⟩⟩, rfl⟩
    · exact ⟨hafter, trivial, rfl⟩

/-- More cosignatures on an authentic object leave it authentic. -/
theorem Holds.authentic_append {existing : SignedCegObject} (h : Holds node roster inv existing)
    {obj : SignedCegObject} (hsub : existing.signatures ⊆ obj.signatures) :
    seatsOf node roster inv obj ≠ [] := by
  have hle : (seatsOf node roster inv existing).length ≤ (seatsOf node roster inv obj).length :=
    distinctSeats_length_mono hsub
  have hpos := List.length_pos_iff.mpr h.authentic
  exact List.length_pos_iff.mp (by omega)

/-- A concur between its read and its write. -/
theorem concurReplicate_fair {b : Board} (hb : Collected node roster inv b) {env : Env}
    (hroster : ∀ r ∈ env.roster.toOption, r = roster)
    {sig : Except Response ThresholdSignature} {existing : SignedCegObject} {since : Nat}
    (h : CallFair node roster inv b (.concurring inv.pendingKey sig existing since)) :
    Collected node roster inv (concurReplicate node env inv.pendingKey sig existing since b).1 ∧
      CallFair node roster inv (concurReplicate node env inv.pendingKey sig existing since b).1
        (concurReplicate node env inv.pendingKey sig existing since b).2 ∧
      (concurReplicate node env inv.pendingKey sig existing since b).1.answers = b.answers := by
  obtain ⟨-, hholds, hle, hcarries⟩ := h
  unfold concurReplicate
  split
  · exact ⟨hb, trivial, rfl⟩
  · exact ⟨hb, trivial, rfl⟩
  rename_i parsed s hparsed
  have hexisting : existing.signatures = parsed.signatures := by
    simp only [SignedCegObject.signatures, hparsed]
  obtain rfl : parsed.invocation = inv := by
    simpa [SignedCegObject.invocation, hparsed] using hholds.invocation
  dsimp only
  -- the rebuilt object holds what was read, and the new cosignature
  generalize hobj : buildAccordInvocationObject parsed.familyKeyId parsed.roster parsed.invocation
    (parsed.signatures ++ [s]) (.ofInstant b.st.clock) = obj
  have hinv : obj.invocation = some parsed.invocation := by rw [← hobj]; rfl
  have hsigs : obj.signatures = existing.signatures ++ [s] := by rw [← hobj, hexisting]; rfl
  have hsub : existing.signatures ⊆ obj.signatures := by
    rw [hsigs]
    exact List.subset_append_left _ _
  have hafter := hb.replicate (⟨obj, env⟩ : Delivery)
  have hfair : ∀ o, (replicateAndMaybeHalt node ⟨obj, env⟩ b.st).2 = .ok o → _ :=
    fun o => replicate_fair node roster parsed.invocation hroster hinv
  generalize replicateAndMaybeHalt node ⟨obj, env⟩ b.st = res at hafter hfair
  obtain ⟨st, answer⟩ := res
  cases answer with
  | error resp => exact ⟨hafter, trivial, rfl⟩
  | ok o =>
    obtain ⟨hauth, hquorum⟩ := hfair o rfl
    -- what was authentic stays authentic, so the write will not be skipped
    have hseats := hholds.authentic_append hsub
    have hown : s ∈ obj.signatures := by rw [hsigs]; simp
    refine ⟨hafter, ⟨rfl, ⟨⟨hinv, hseats⟩, hown, hauth.mpr hseats, hquorum⟩, hle, ?_⟩, rfl⟩
    intro heq a ha
    exact hsub (hcarries heq a ha)

/-- An open's write: it finds no room, or it writes what carries every answer. -/
theorem openWrite_fair {b : Board} (hb : Collected node roster inv b) {answer : Answered}
    (hanswer : FairAnswer node roster inv answer)
    (hok : PendingTable.full (PendingTable.prune b.st.pending b.st.clock) inv.pendingKey = true ∨
      ∀ a ∈ b.answers, a.signature = answer.signature) :
    Collected node roster inv (openWrite inv.pendingKey answer b).1 ∧
      CallFair node roster inv (openWrite inv.pendingKey answer b).1
        (openWrite inv.pendingKey answer b).2 ∧
      ((openWrite inv.pendingKey answer b).1.answers = b.answers ∨
        ∃ a, (openWrite inv.pendingKey answer b).1.answers = a :: b.answers) := by
  by_cases hfull : PendingTable.full (PendingTable.prune b.st.pending b.st.clock) inv.pendingKey = true
  · have h : openWrite inv.pendingKey answer b = _ := if_pos hfull
    rw [h]
    exact ⟨hb.of_same (prune_subset _ _) rfl, trivial, Or.inl rfl⟩
  · have h : openWrite inv.pendingKey answer b = _ := if_neg hfull
    have hcarries : Carries b.answers answer.obj := by
      intro a ha
      rw [hok.resolve_left hfull a ha]
      exact hanswer.own
    rw [h]
    exact ⟨Collected.write hanswer hcarries _ _, trivial, Or.inr ⟨answer, rfl⟩⟩

/-- A concur's write. -/
theorem concurWrite_fair {b : Board} {answer : Answered}
    (hanswer : FairAnswer node roster inv answer) (hcarries : Carries b.answers answer.obj) :
    Collected node roster inv (concurWrite inv.pendingKey answer b).1 ∧
      CallFair node roster inv (concurWrite inv.pendingKey answer b).1
        (concurWrite inv.pendingKey answer b).2 ∧
      ((concurWrite inv.pendingKey answer b).1.answers = b.answers ∨
        ∃ a, (concurWrite inv.pendingKey answer b).1.answers = a :: b.answers) := by
  unfold concurWrite
  rw [if_pos hanswer.authentic]
  exact ⟨Collected.write hanswer hcarries _ b.st, trivial, Or.inr ⟨answer, rfl⟩⟩

/-- **Step.** A move without overlap keeps the table, the answers and every call good. -/
theorem step_collected {c : Config Board CallPhase} {m : Move PendingCall Env}
    (hb : Collected node roster inv c.shared)
    (hc : ∀ t ∈ c.tasks, CallFair node roster inv c.shared t) (hok : NoOverlap roster inv c m) :
    Collected node roster inv ((pendingServer node).step c m).shared ∧
      ∀ t ∈ ((pendingServer node).step c m).tasks,
        CallFair node roster inv ((pendingServer node).step c m).shared t := by
  refine (pendingServer node).step_preserves hb hc ?_ ?_
  · rintro call rfl
    cases call with
    | opens invocation sig => exact ⟨hb, hok, hc⟩
    | concurs key sig => exact ⟨hb, hok, hc⟩
  · rintro i env t rfl ht
    have hfair := hc t (List.mem_of_getElem? ht)
    simp only [NoOverlap, ht] at hok
    obtain ⟨hroster, hok⟩ := hok
    -- it is enough to say what the call itself does, and that it adds at most its answer
    suffices h : Collected node roster inv (t.advance node env c.shared).1 ∧
        CallFair node roster inv (t.advance node env c.shared).1
          (t.advance node env c.shared).2 ∧
        ((t.advance node env c.shared).1.answers = c.shared.answers ∨
          ∃ a, (t.advance node env c.shared).1.answers = a :: c.shared.answers) by
      exact ⟨h.1, h.2.1, fun u hu => (hc u hu).mono h.2.2⟩
    cases t with
    | opening invocation sig =>
      obtain rfl : invocation = inv := hfair
      obtain ⟨h₁, h₂, h₃⟩ := openReplicate_fair hb hroster sig
      exact ⟨h₁, h₂, Or.inl h₃⟩
    | reading key sig =>
      obtain rfl : key = inv.pendingKey := hfair
      simp only [CallPhase.advance, concurRead]
      cases hget : PendingTable.get? c.shared.st.pending inv.pendingKey with
      | none => exact ⟨hb, trivial, Or.inl rfl⟩
      | some existing =>
        obtain ⟨hholds, hcarries⟩ := hb.table existing (mem_of_get? hget)
        exact ⟨hb, ⟨rfl, hholds, Nat.le_refl _, fun _ => hcarries⟩, Or.inl rfl⟩
    | concurring key sig existing since =>
      -- `existing` is what the call read, maybe long ago
      obtain rfl : key = inv.pendingKey := hfair.1
      obtain ⟨h₁, h₂, h₃⟩ := concurReplicate_fair hb hroster hfair
      exact ⟨h₁, h₂, Or.inl h₃⟩
    | openWriting key answer =>
      obtain ⟨rfl, hanswer⟩ := hfair
      have hb' : Collected node roster inv (c.shared.tick env) :=
        hb.of_same (List.Subset.refl _) rfl
      exact openWrite_fair hb' hanswer hok
    | concurWriting key answer since =>
      obtain ⟨rfl, hanswer, -, hcarries⟩ := hfair
      have hcarries' : Carries (c.shared.tick env).answers answer.obj := hcarries hok
      exact concurWrite_fair hanswer hcarries'
    | refused resp => exact ⟨hb, trivial, Or.inl rfl⟩
    | answered answer => exact ⟨hb, trivial, Or.inl rfl⟩

/-! ## Runs -/

/-- No kind asks for more than a strict majority. -/
theorem haltPlaneThreshold_le_majority (V : VerifyCore) (kind : InvocationKind) {n : Nat}
    (hn : n ≠ 0) : haltPlaneThreshold V kind n ≤ n / 2 + 1 := by
  unfold haltPlaneThreshold
  have hfire := V.required_fire kind n hn
  have hmajority := V.required_majority kind n hn
  cases kind with
  | constitutional => rw [hfire (by simp), Option.getD_some]; omega
  | notify => rw [hfire (by simp), Option.getD_some]; omega
  | drill => rw [hfire (by simp), Option.getD_some]; omega
  | lifecycleConfirmed => rw [hmajority (by simp), Option.getD_some]
  | lifecycleActive => rw [hmajority (by simp), Option.getD_some]

/-- A call whose object carries a strict majority's cosignatures saw the quorum met. -/
theorem FairAnswer.quorumMet_of_majority {a : Answered} (ha : FairAnswer node roster inv a)
    {answers : List Answered} (hcarries : Carries answers a.obj)
    (hmaj : node.verify.StrictMajority roster inv (answers.map (·.signature))) :
    a.outcome.quorumMet = true := by
  have hsub : answers.map (·.signature) ⊆ a.obj.signatures := by
    intro sig hsig
    obtain ⟨a', ha', rfl⟩ := List.mem_map.mp hsig
    exact hcarries a' ha'
  have hle : (node.verify.validSeats roster inv (answers.map (·.signature))).length ≤
      (seatsOf node roster inv a.obj).length :=
    distinctSeats_length_mono hsub
  have hroster := validSeats_length_le node.verify roster inv (answers.map (·.signature))
  unfold VerifyCore.StrictMajority at hmaj
  have hthreshold := haltPlaneThreshold_le_majority node.verify inv.invocationKind
    (show roster.length ≠ 0 by omega)
  rw [ha.quorumMet, decide_eq_true_eq]
  omega

/-- What `Collected` says to the outside. -/
theorem Collected.kept {b : Board} (hb : Collected node roster inv b) :
    CosignaturesKept node roster inv b := by
  refine ⟨fun obj hobj => (hb.table obj (mem_of_get? hobj)).2, fun hmaj => ?_⟩
  have hne : b.answers ≠ [] := by
    intro hnil
    have hseats : node.verify.validSeats roster inv [] = [] := by
      simp [VerifyCore.validSeats, distinctSeats]
    simp [VerifyCore.StrictMajority, hnil, hseats] at hmaj
  obtain ⟨a, ha, hcarries, hfair⟩ := hb.latest hne
  exact ⟨a, ha, hfair.quorumMet_of_majority hcarries hmaj⟩

/-- A table without the key and no answers yet. -/
theorem Collected.start {st : AccordState}
    (hempty : PendingTable.get? st.pending inv.pendingKey = none) :
    Collected node roster inv ⟨st, []⟩ := by
  refine ⟨fun obj hobj => ?_, fun hne => absurd rfl hne⟩
  have hfind := List.find?_eq_none.mp (Option.map_eq_none_iff.mp hempty) _ hobj
  simp at hfind

end Collecting

/-- **Run.** While calls do not overlap, no cosignature that was answered 200 is lost: the
    pending object carries them all, and once they are a strict majority's, some call has
    seen the quorum met. -/
theorem cosignatures_kept (node : Node) (roster : List ThresholdMember) (inv : Invocation)
    (st : AccordState) (moves : List (Move PendingCall Env))
    (hempty : PendingTable.get? st.pending inv.pendingKey = none)
    (hok : Guarded (pendingServer node).step (NoOverlap roster inv) ⟨⟨st, []⟩, []⟩ moves) :
    CosignaturesKept node roster inv
      (after (pendingServer node).step ⟨⟨st, []⟩, []⟩ moves).shared := by
  have hinv := Guarded.invariant
    (I := fun c => Collected node roster inv c.shared ∧
      ∀ t ∈ c.tasks, CallFair node roster inv c.shared t)
    (fun c m h hm => step_collected h.1 h.2 hm) hok ⟨Collected.start hempty, by simp⟩
  exact hinv.1.kept

/-- A confirmation of `h`. -/
def Fixture.confirmation : Invocation :=
  Fixture.invocation .lifecycleConfirmed "c" (some "h")

/-- `signer`'s cosignature of the confirmation. -/
def Fixture.cosigned (signer : String) : Except Response ThresholdSignature :=
  .ok (idealCosign (Fixture.seat signer) Fixture.confirmation)

/-- A1 opens the confirmation, A2 and A3 concur with it; `schedule` says whose step is
    next. -/
def Fixture.collecting (schedule : List Nat) : List (Move PendingCall Env) :=
  [.arrive (.opens Fixture.confirmation (Fixture.cosigned "A1")),
   .arrive (.concurs Fixture.confirmation.pendingKey (Fixture.cosigned "A2")),
   .arrive (.concurs Fixture.confirmation.pendingKey (Fixture.cosigned "A3"))] ++
    schedule.map fun i => .advance i Fixture.env

/-- One concur after the other. -/
theorem cosignatures_kept_in_turn :
    (after (pendingServer Fixture.node).step ⟨⟨Fixture.fresh, []⟩, []⟩
      (Fixture.collecting [0, 0, 1, 1, 1, 2, 2, 2])).shared.answers.length = 3 ∧
    CosignaturesKept Fixture.node Fixture.family Fixture.confirmation
      (after (pendingServer Fixture.node).step ⟨⟨Fixture.fresh, []⟩, []⟩
        (Fixture.collecting [0, 0, 1, 1, 1, 2, 2, 2])).shared :=
  ⟨by decide, cosignatures_kept Fixture.node Fixture.family Fixture.confirmation Fixture.fresh _
    rfl (by decide)⟩

/-- Both concurs read the table before either writes: all three calls are answered 200, and
    A2's cosignature is gone. -/
theorem overlapping_concurs_lose_cosignature :
    (after (pendingServer Fixture.node).step ⟨⟨Fixture.fresh, []⟩, []⟩
      (Fixture.collecting [0, 0, 1, 2, 1, 2, 1, 2])).shared.answers.length = 3 ∧
    ¬ CosignaturesKept Fixture.node Fixture.family Fixture.confirmation
      (after (pendingServer Fixture.node).step ⟨⟨Fixture.fresh, []⟩, []⟩
        (Fixture.collecting [0, 0, 1, 2, 1, 2, 1, 2])).shared := by
  decide

end CirisServer
