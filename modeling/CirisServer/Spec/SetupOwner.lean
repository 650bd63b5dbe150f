import CirisServer.ForStd.Tracked
import CirisServer.Native.SetupRoot
import CirisServer.Spec.SetupRoot

/-!
# A refused claim, and what it leaves

The directory is written before the re-check and the ROOT. A claim that is refused after that leaves
what it has written, while the PIN stays armed.

Key results:
- `run_refines`: seen from its certs and its PIN, the node runs as in `Native/SetupRoot.lean`
- `ownerServer_allOrNothing`: which steps refuse a request, and which of them may come too late
- `leaves_nothing_iff`: the runs whose refused claims leave nothing
-/

namespace CirisServer.SetupRoot

open Interleave Run
open AuthStore (WaCert)

variable {P : Substrate} {L : Lib} {env : OwnerEnv} {s : OwnedNode} {x : Applying}

/-! ## The route without its directory -/

/-- Where the request stands in the route with one phase for the owner binding. -/
def OwnerPhase.phase : OwnerPhase → Phase
  | .outer phase => phase
  | .recording x | .verifying x | .registering x | .persisting x =>
    .applying x.req x.placeholder x.cohortScope x.ownerBinding
  | .occurring x attestationId _ => .rechecking x.req x.placeholder (x.applied attestationId)

def view (c : Config OwnedNode OwnerPhase) : Config Node Phase :=
  ⟨c.shared.node, c.tasks.map OwnerPhase.phase⟩

@[simp] theorem phase_enter (p : Phase) : (OwnerPhase.enter p).phase = p := by
  cases p <;> rfl

@[simp] theorem registerKey_node (s : OwnedNode) (r : KeyRecord) : (s.registerKey r).node = s.node := by
  rw [OwnedNode.registerKey]
  split_ifs <;> rfl

@[simp] theorem putBinding_node (s : OwnedNode) (row : OwnerBindingRow) :
    (s.putBinding row).node = s.node := by
  rw [OwnedNode.putBinding]
  split_ifs <;> rfl

@[simp] theorem putIdentityOccurrence_node (s : OwnedNode) (o : IdentityOccurrence) :
    (s.putIdentityOccurrence o).node = s.node := by
  rw [OwnedNode.putIdentityOccurrence]
  split_ifs <;> rfl

@[simp] theorem record_node (env : OwnerEnv) (x : Applying) (s : OwnedNode) :
    (record env x s).node = s.node := by
  rw [record]
  split
  · exact registerKey_node s _
  · rfl

/-- **Simulation.** A step of a request is a step of the route without the directory, or none. -/
theorem advance_refines (P : Substrate) (L : Lib) (env : OwnerEnv) (t : OwnerPhase)
    (s : OwnedNode) :
    ((t.advance P L env s).1.node = s.node ∧ (t.advance P L env s).2.phase = t.phase) ∨
    ∃ env' : Env, t.phase.advance L env' s.node =
      ((t.advance P L env s).1.node, (t.advance P L env s).2.phase) := by
  have hrejected : ∀ (x : Applying) (e : OwnershipError), ∃ env' : Env,
      Phase.advance L env' (.applying x.req x.placeholder x.cohortScope x.ownerBinding) s.node =
        (s.node, (OwnerPhase.rejected e).phase) :=
    fun x e => ⟨{ env.toEnv with applied := .error e }, rfl⟩
  cases t with
  | outer p =>
    right
    refine ⟨env.toEnv, ?_⟩
    show _ = ((p.advance L env.toEnv s.node).1, (OwnerPhase.enter _).phase)
    rw [phase_enter]
    rfl
  | recording x => exact Or.inl ⟨record_node env x s, rfl⟩
  | verifying x =>
    simp only [OwnerPhase.advance, verify]
    cases verifySignedOwnerBinding P L x.ownerBinding with
    | error e => exact Or.inr (hrejected x e)
    | ok u =>
      left
      refine ⟨trivial, ?_⟩
      simp only
      split_ifs <;> rfl
  | registering x =>
    simp only [OwnerPhase.advance, register]
    cases registrationEnvelope P x.ownerBinding with
    | error e => exact Or.inr (hrejected x e)
    | ok u =>
      cases env.register with
      | error e => exact Or.inr (hrejected x _)
      | ok u => exact Or.inl ⟨registerKey_node s _, rfl⟩
  | persisting x =>
    simp only [OwnerPhase.advance, persist]
    cases adoptOwnerBinding P L x.ownerBinding x.cohortScope with
    | error e => exact Or.inr (hrejected x e)
    | ok row =>
      cases env.put with
      | error e => exact Or.inr (hrejected x _)
      | ok u =>
        right
        refine ⟨{ env.toEnv with applied := .ok row.attestationId }, ?_⟩
        simp only [putBinding_node]
        rfl
  | occurring x attestationId occurrences =>
    left
    cases occurrences with
    | nil => exact ⟨rfl, rfl⟩
    | cons o occurrences =>
      simp only [OwnerPhase.advance]
      cases env.put with
      | error e => exact ⟨rfl, rfl⟩
      | ok u => exact ⟨putIdentityOccurrence_node s o, rfl⟩

/-- **Refinement.** The moves of a run with the directory are moves of the route without it. -/
theorem step_refines (P : Substrate) (L : Lib) (c : Config OwnedNode OwnerPhase)
    (m : Move Body OwnerEnv) :
    view ((ownerServer P L).step c m) = view c ∨
      ∃ m', view ((ownerServer P L).step c m) = (setupServer L).step (view c) m' := by
  cases m with
  | arrive body =>
    right
    refine ⟨.arrive body, ?_⟩
    rw [System.step_arrive, System.step_arrive, view, List.map_append]
    rfl
  | advance i env =>
    have htask : (view c).tasks[i]? = c.tasks[i]?.map OwnerPhase.phase := List.getElem?_map
    cases ht : c.tasks[i]? with
    | none =>
      left
      rw [System.step_advance_none _ _ ht]
    | some t =>
      rw [ht, Option.map_some] at htask
      rw [System.step_advance_some _ _ ht]
      have hview : view ⟨((ownerServer P L).advance env t c.shared).1,
          c.tasks.set i ((ownerServer P L).advance env t c.shared).2⟩ =
          ⟨(t.advance P L env c.shared).1.node,
            (view c).tasks.set i (t.advance P L env c.shared).2.phase⟩ := by
        rw [view, List.map_set]
        rfl
      rcases advance_refines P L env t c.shared with ⟨hnode, hphase⟩ | ⟨env', hstep⟩
      · left
        obtain ⟨hi, hget⟩ := List.getElem?_eq_some_iff.mp htask
        have hsame : (view c).tasks.set i t.phase = (view c).tasks := by
          rw [← hget]
          exact List.set_getElem_self hi
        rw [hview, hnode, hphase, hsame]
        rfl
      · right
        refine ⟨.advance i env', ?_⟩
        rw [hview, System.step_advance_some _ _ htask]
        show _ = Config.mk (t.phase.advance L env' c.shared.node).1
          ((view c).tasks.set i (t.phase.advance L env' c.shared.node).2)
        rw [hstep]

/-- **Run.** -/
theorem run_refines (P : Substrate) (L : Lib) (c : Config OwnedNode OwnerPhase)
    (moves : List (Move Body OwnerEnv)) :
    ∃ moves', view (after (ownerServer P L).step c moves) =
      after (setupServer L).step (view c) moves' := by
  induction moves generalizing c with
  | nil => exact ⟨[], rfl⟩
  | cons m moves ih =>
    obtain ⟨moves', hafter⟩ := ih ((ownerServer P L).step c m)
    rw [after_cons, hafter]
    rcases step_refines P L c m with hsame | ⟨m', hstep⟩
    · rw [hsame]
      exact ⟨moves', rfl⟩
    · rw [hstep]
      exact ⟨m' :: moves', rfl⟩

/-! ## What a refusal leaves -/

/-- The request was refused. -/
def isRefused : OwnerPhase → Bool
  | .outer (.told (.refused _)) => true
  | _ => false

/-- The request may have written to the node. -/
def Late : OwnerPhase → Prop
  | .recording _ => False
  | .verifying _ | .registering _ | .persisting _ | .occurring .. => True
  | .outer phase =>
    match phase with
    | .called _ | .probing .. | .proving .. | .applying .. => False
    | .rechecking .. | .claiming _ | .clearing _ | .scanning .. | .retiring .. | .told _ => True

/-- The condition on a step: it does not refuse the request. -/
def StepGoesOn (P : Substrate) (L : Lib) (env : OwnerEnv) (t : OwnerPhase) (s : OwnedNode) : Prop :=
  match t with
  -- the owner binding is what it says it is
  | .verifying x => verifySignedOwnerBinding P L x.ownerBinding = .ok ()
  -- the directory takes the owner's key
  | .registering x => registrationEnvelope P x.ownerBinding = .ok () ∧ env.register = .ok ()
  -- the signed row says what the claim says, and the directory takes it
  | .persisting x =>
    (∃ row, adoptOwnerBinding P L x.ownerBinding x.cohortScope = .ok row) ∧ env.put = .ok ()
  -- nobody has claimed the node meanwhile
  | .outer (.rechecking _ placeholder _) =>
    env.storeError ≠ none ∨ closed s.node.rows placeholder = false
  -- the store takes the ROOT
  | .outer (.claiming _) => env.storeError = none
  | _ => True

/-- The request has written its ROOT and cleared the PIN. -/
def hasCleared : OwnerPhase → Bool
  | .outer (.scanning ..) | .outer (.retiring ..) | .outer (.told (.created _)) => true
  | _ => false

/-- The PIN is the one of the start, unless a claim has gone through. -/
def Armed (start : OwnedNode) (c : Config OwnedNode (OwnerPhase × Bool)) : Prop :=
  c.shared.node.claimPin = start.node.claimPin ∨ ∃ t ∈ c.tasks, hasCleared t.1 = true

/-- A claim that is refused has changed nothing, and the PIN still admits the next one. -/
structure LeavesNothing (start : OwnedNode) (c : Config OwnedNode (OwnerPhase × Bool)) : Prop where
  refused : Clean (isRefused · = true) c
  armed : Armed start c

/-! ## The steps that refuse -/

/-- A step of the outer route that refuses changes no cert. -/
theorem advance_quiet {p : Phase} {env : Env} {node : Node} {refusal : Refusal}
    (h : (p.advance L env node).2 = .told (.refused refusal)) :
    (p.advance L env node).1 = node := by
  cases p with
  | called | probing | proving | applying | rechecking | told => rfl
  | claiming claim =>
    cases hstore : env.storeError with
    | some e => simp only [Phase.advance, hstore]
    | none =>
      simp only [Phase.advance, hstore] at h
      cases h
  | clearing claim =>
    simp only [Phase.advance] at h
    split at h <;> cases h
  | scanning claim provider externalId roles holders => rfl
  | retiring claim others =>
    cases others with
    | nil => rfl
    | cons other others =>
      simp only [Phase.advance] at h
      split_ifs at h

theorem isRefused_enter {p : Phase} (h : isRefused (.enter p) = true) :
    ∃ refusal, p = .told (.refused refusal) := by
  cases p with
  | told reply =>
    cases reply with
    | refused refusal => exact ⟨refusal, rfl⟩
    | created response => cases h
  | called | probing | proving | applying | rechecking | claiming | clearing | scanning | retiring =>
    cases h

/-- A request that has been refused is over. -/
theorem advance_over {t : OwnerPhase} (h : isRefused t = true) : t.advance P L env s = (s, t) := by
  cases t with
  | recording | verifying | registering | persisting | occurring => cases h
  | outer p =>
    cases p with
    | told reply =>
      cases reply with
      | refused refusal => rfl
      | created response => cases h
    | called | probing | proving | applying | rechecking | claiming | clearing | scanning
      | retiring => cases h

/-- A step that refuses a request writes nothing. -/
theorem owner_advance_quiet {t : OwnerPhase} (h : isRefused (t.advance P L env s).2 = true) :
    (t.advance P L env s).1 = s := by
  cases t with
  | outer p =>
    obtain ⟨refusal, hrefused⟩ := isRefused_enter h
    show { s with node := (p.advance L env.toEnv s.node).1 } = s
    rw [advance_quiet hrefused]
  | recording x => cases h
  | verifying x => rfl
  | registering x =>
    simp only [OwnerPhase.advance, register] at h ⊢
    split at h
    · rfl
    · rfl
    · cases h
  | persisting x =>
    simp only [OwnerPhase.advance, persist] at h ⊢
    split at h
    · rfl
    · rfl
    · cases h
  | occurring x attestationId occurrences =>
    cases occurrences with
    | nil => cases h
    | cons o occurrences => cases h

/-- Once late, or once it has written, a request is late. -/
theorem advance_late {t : OwnerPhase} (h : (t.advance P L env s).1 ≠ s ∨ Late t) :
    Late (t.advance P L env s).2 := by
  cases t with
  | recording x => trivial
  | verifying x =>
    simp only [OwnerPhase.advance, verify]
    split
    · trivial
    · split_ifs <;> trivial
  | registering x =>
    simp only [OwnerPhase.advance, register]
    split <;> trivial
  | persisting x =>
    simp only [OwnerPhase.advance, persist]
    split <;> trivial
  | occurring x attestationId occurrences => cases occurrences <;> trivial
  | outer p =>
    cases p with
    | called | probing | proving | applying =>
      -- nothing is written before the owner binding
      rcases h with hne | hlate
      · exact absurd rfl hne
      · exact hlate.elim
    | rechecking req placeholder applied =>
      simp only [OwnerPhase.advance, Phase.advance, recheck]
      split_ifs <;> trivial
    | claiming claim =>
      simp only [OwnerPhase.advance, Phase.advance]
      split <;> trivial
    | clearing claim =>
      simp only [OwnerPhase.advance, Phase.advance]
      split <;> trivial
    | scanning claim provider externalId roles holders =>
      cases roles with
      | nil => trivial
      | cons role roles =>
        simp only [OwnerPhase.advance, Phase.advance, scan]
        split <;> trivial
    | retiring claim others =>
      cases others with
      | nil => trivial
      | cons other others =>
        simp only [OwnerPhase.advance, Phase.advance]
        split_ifs <;> trivial
    | told reply => trivial

/-- **Exactness of a step.** A late request is refused by a step that does not go on. -/
theorem advance_goesOn_iff {t : OwnerPhase} (hlate : Late t) (halive : ¬ isRefused t = true) :
    ¬ isRefused (t.advance P L env s).2 = true ↔ StepGoesOn P L env t s := by
  cases t with
  | recording x => exact hlate.elim
  | verifying x =>
    simp only [OwnerPhase.advance, verify, StepGoesOn]
    cases verifySignedOwnerBinding P L x.ownerBinding with
    | error e => exact iff_of_false (fun h => h rfl) fun hgo => by cases hgo
    | ok u =>
      refine iff_of_true ?_ rfl
      simp only
      split_ifs <;> exact Bool.false_ne_true
  | registering x =>
    simp only [OwnerPhase.advance, register, StepGoesOn]
    cases registrationEnvelope P x.ownerBinding with
    | error e => exact iff_of_false (fun h => h rfl) fun hgo => by cases hgo.1
    | ok u =>
      cases env.register with
      | error e => exact iff_of_false (fun h => h rfl) fun hgo => by cases hgo.2
      | ok u => exact iff_of_true Bool.false_ne_true ⟨rfl, rfl⟩
  | persisting x =>
    simp only [OwnerPhase.advance, persist, StepGoesOn]
    cases adoptOwnerBinding P L x.ownerBinding x.cohortScope with
    | error e => exact iff_of_false (fun h => h rfl) fun hgo => by cases hgo.1.choose_spec
    | ok row =>
      cases env.put with
      | error e => exact iff_of_false (fun h => h rfl) fun hgo => by cases hgo.2
      | ok u => exact iff_of_true Bool.false_ne_true ⟨⟨row, rfl⟩, rfl⟩
  | occurring x attestationId occurrences =>
    refine iff_of_true ?_ trivial
    cases occurrences <;> exact Bool.false_ne_true
  | outer p =>
    cases p with
    | called | probing | proving | applying => exact hlate.elim
    | rechecking req placeholder applied =>
      simp only [OwnerPhase.advance, Phase.advance, recheck, StepGoesOn]
      split_ifs with hclosed
      · refine iff_of_false (fun h => h rfl) ?_
        rintro (hstore | hopen)
        · exact hstore (Option.isNone_iff_eq_none.mp hclosed.1)
        · rw [hclosed.2] at hopen
          cases hopen
      · refine iff_of_true Bool.false_ne_true ?_
        by_cases hstore : env.storeError = none
        · right
          rw [hstore] at hclosed
          simpa using hclosed
        · exact Or.inl hstore
    | claiming claim =>
      simp only [OwnerPhase.advance, Phase.advance, StepGoesOn]
      cases hstore : env.storeError with
      | some e => exact iff_of_false (fun h => h rfl) fun hgo => by cases hgo
      | none => exact iff_of_true Bool.false_ne_true rfl
    | clearing claim =>
      refine iff_of_true ?_ trivial
      simp only [OwnerPhase.advance, Phase.advance]
      split <;> exact Bool.false_ne_true
    | scanning claim provider externalId roles holders =>
      refine iff_of_true ?_ trivial
      cases roles with
      | nil => exact Bool.false_ne_true
      | cons role roles =>
        simp only [OwnerPhase.advance, Phase.advance, scan]
        split <;> exact Bool.false_ne_true
    | retiring claim others =>
      refine iff_of_true ?_ trivial
      cases others with
      | nil => exact Bool.false_ne_true
      | cons other others =>
        simp only [OwnerPhase.advance, Phase.advance]
        split_ifs <;> exact Bool.false_ne_true
    | told reply =>
      cases reply with
      | refused refusal => exact absurd rfl halive
      | created response => exact iff_of_true Bool.false_ne_true trivial

/-- Which steps refuse a request, and from when on a refusal comes too late. -/
theorem ownerServer_allOrNothing (P : Substrate) (L : Lib) :
    AllOrNothing (ownerServer P L) (isRefused · = true) Late (StepGoesOn P L) where
  spawn _ _ := ⟨rfl, nofun⟩
  ended _ _ _ := advance_over
  quiet _ _ _ := owner_advance_quiet
  stays_late _ _ _ := advance_late
  fails_iff _ _ _ := advance_goesOn_iff

/-! ## The PIN -/

/-- Only a claim that goes on to its answer 201 clears the PIN. -/
theorem advance_armed {t : OwnerPhase} {pin : Option String}
    (h : s.node.claimPin = pin ∨ hasCleared t = true) :
    (t.advance P L env s).1.node.claimPin = pin ∨ hasCleared (t.advance P L env s).2 = true := by
  cases t with
  | recording x =>
    left
    rw [OwnerPhase.advance, record_node]
    exact h.resolve_right nofun
  | verifying x => exact Or.inl (h.resolve_right nofun)
  | registering x =>
    left
    have hpin := h.resolve_right nofun
    simp only [OwnerPhase.advance, register]
    split
    · exact hpin
    · exact hpin
    · rw [registerKey_node]
      exact hpin
  | persisting x =>
    left
    have hpin := h.resolve_right nofun
    simp only [OwnerPhase.advance, persist]
    split
    · exact hpin
    · exact hpin
    · rw [putBinding_node]
      exact hpin
  | occurring x attestationId occurrences =>
    left
    have hpin := h.resolve_right nofun
    cases occurrences with
    | nil => exact hpin
    | cons o occurrences =>
      simp only [OwnerPhase.advance]
      split
      · rw [putIdentityOccurrence_node]
        exact hpin
      · exact hpin
  | outer p =>
    cases p with
    | called | probing | proving | applying | rechecking => exact Or.inl (h.resolve_right nofun)
    | claiming claim =>
      left
      have hpin := h.resolve_right nofun
      simp only [OwnerPhase.advance, Phase.advance]
      split <;> exact hpin
    | clearing claim =>
      right
      simp only [OwnerPhase.advance, Phase.advance]
      split <;> rfl
    | scanning claim provider externalId roles holders =>
      right
      cases roles with
      | nil => rfl
      | cons role roles =>
        simp only [OwnerPhase.advance, Phase.advance, scan]
        split <;> rfl
    | retiring claim others =>
      right
      cases others with
      | nil => rfl
      | cons other others =>
        simp only [OwnerPhase.advance, Phase.advance]
        split_ifs <;> rfl
    | told reply => exact h

/-- **Run.** The PIN stays armed until a claim goes through. -/
theorem stays_armed (P : Substrate) (L : Lib) (start : OwnedNode)
    (moves : List (Move Body OwnerEnv)) :
    Armed start (after (ownerServer P L).tracked.step ⟨start, []⟩ moves) :=
  after_invariant (I := Armed start)
    (fun _ _ h => (ownerServer P L).tracked.step_settles
      (A := fun s => s.node.claimPin = start.node.claimPin) (Q := fun t => hasCleared t.1 = true) h
      (fun _ hpin => Or.inl hpin) (fun _ _ h => advance_armed h))
    (Or.inl rfl)

/-! ## Every run -/

/-- **Exactness.** Refused claims leave nothing, exactly if no claim is refused that has already
    written to the node. -/
theorem leaves_nothing_iff (P : Substrate) (L : Lib) (start : OwnedNode)
    (moves : List (Move Body OwnerEnv)) :
    LeavesNothing start (after (ownerServer P L).tracked.step ⟨start, []⟩ moves) ↔
      Guarded (ownerServer P L).tracked.step (GoesOn (StepGoesOn P L)) ⟨start, []⟩ moves := by
  rw [(ownerServer_allOrNothing P L).guarded_iff_clean]
  exact ⟨fun h => h.refused, fun h => ⟨h, stays_armed P L start moves⟩⟩

/-! ## Claims that are refused late -/

namespace Fixture

/-- Every binding is signed, for the cohort `self`, and its row is named after the owner. -/
def signed : Substrate where
  ownerBindingPurpose := "owner"
  scopesAreInfraOnly _ := true
  canonicalize _ := .ok ()
  verifyHybrid _ := .ok ()
  identityTypeContains := (· = ·)
  bindSubject _ := .ok ()
  canonicalizeRegistration _ := .ok ()
  adopt binding := .ok ⟨"row-" ++ binding.attestingKeyId, binding.attestingKeyId, "node", "self",
    delegatesTo, ["node"]⟩
  assemble _ := .ok ()

def twoCohorts : Lib := { lib with cohortScopes := ["self", "family"] }

def ownerBody (identity cohortScope : String) : Body :=
  some (.ok
    { keyId := some "node", pubkeyEd25519Base64 := some "pubkey", cohortScope := some cohortScope
      claimPin := some "PIN"
      ownerBinding := some
        { attestingKeyId := identity, envelope := ⟨"node", "owner", ["infra:serve"], identity⟩ } })

def unclaimed : OwnedNode := ⟨fresh [], [], [], []⟩

def ownerSteps (n i : Nat) : List (Move Body OwnerEnv) := List.replicate n (.advance i {})

/-- The store fails as the ROOT is written. -/
def storeFails : List (Move Body OwnerEnv) :=
  .arrive (ownerBody "ada" "self") :: ownerSteps 9 0 ++ [.advance 0 { storeError := some "down" }]

/-- Another claim goes through between the binding and the re-check. -/
def comesLate : List (Move Body OwnerEnv) :=
  [.arrive (ownerBody "ada" "self"), .arrive (ownerBody "bob" "self")] ++
    ownerSteps 8 0 ++ ownerSteps 8 1 ++ ownerSteps 3 0 ++ ownerSteps 1 1

/-- The claim names another cohort than the binding that was signed. -/
def otherCohort : List (Move Body OwnerEnv) :=
  .arrive (ownerBody "ada" "family") :: ownerSteps 7 0

/-- The run of the node from its start. -/
def run (moves : List (Move Body OwnerEnv)) : Config OwnedNode (OwnerPhase × Bool) :=
  after (ownerServer signed twoCohorts).tracked.step ⟨unclaimed, []⟩ moves

end Fixture

/-- A failing store, and a claim that comes late, leave the key and the owner binding of a claim that
    was refused; a cohort that was not signed leaves the key. -/
theorem claims_leave_an_owner :
    ((Fixture.run Fixture.storeFails).shared =
        ⟨Fixture.fresh [], [⟨"ada", user⟩], [⟨"row-ada", "ada", "self"⟩], []⟩ ∧
      ¬ LeavesNothing Fixture.unclaimed (Fixture.run Fixture.storeFails)) ∧
    ((Fixture.run Fixture.comesLate).shared.ownerBindings =
        [⟨"row-ada", "ada", "self"⟩, ⟨"row-bob", "bob", "self"⟩] ∧
      ¬ LeavesNothing Fixture.unclaimed (Fixture.run Fixture.comesLate)) ∧
    ((Fixture.run Fixture.otherCohort).shared = ⟨Fixture.fresh [], [⟨"ada", user⟩], [], []⟩ ∧
      ¬ LeavesNothing Fixture.unclaimed (Fixture.run Fixture.otherCohort)) := by
  refine ⟨⟨by decide, fun h => ?_⟩, ⟨by decide, fun h => ?_⟩, by decide, fun h => ?_⟩
  · exact absurd h.refused (by decide)
  · exact absurd h.refused (by decide)
  · exact absurd h.refused (by decide)

end CirisServer.SetupRoot
