import Mathlib.Data.Set.Basic
import CirisServer.Native.DeviceGrant
import CirisServer.Spec.DeviceGrantInv

/-!
# Approvals only tighten

A delegation's bounds are the verbs they authorize, and an approval may only take verbs away.
`approve` tightens a snapshot of the grant's bounds, lets the owner's signer sign, and stores
what it computed over whatever the grant's bounds have become: of two approvals that overlap,
the later one undoes what the other took away. The result holds for runs in which every
approval stores bounds within those it finds.

Key results:
- `verbs_tightenedWith`: tightening is intersection
- `step_within`: a move keeps a device code within bounds it is within
- `approvals_only_tighten`: every run
-/

namespace CirisServer.DeviceFlow

open Interleave Run

/-! ## Bounds as sets of verbs -/

/-- The verbs a delegate with these bounds may exercise. -/
def verbs (c : DelegationConstraints) : Set CapabilityVerb :=
  {verb | verb.neverDelegatable = false ∧ verb.asStr ∉ c.actionsDeny ∧
    ∀ allow ∈ c.actionsAllow, verb.asStr ∈ allow}

/-- **Connection.** They are those that the gate lets a delegate with these bounds through
    for. -/
theorem mem_verbs_iff {caller : BoundCaller} {c : DelegationConstraints} {verb : CapabilityVerb}
    (hactor : caller.actor.isSome = true) (hc : caller.constraints = some c) :
    verb ∈ verbs c ↔ authorizeDelegated caller verb = .ok () := by
  have hdelegate : caller.actor.isNone = false := by
    rw [← Option.not_isSome, hactor]
    rfl
  simp only [verbs, authorizeDelegated, Set.mem_ofPred_eq, hdelegate, hc]
  cases verb.neverDelegatable with
  | true => simp
  | false =>
    cases c.actionsAllow with
    | none => simp
    | some allow =>
      by_cases hdeny : verb.asStr ∈ c.actionsDeny
      · simp [hdeny]
      · simp [hdeny]

/-- Denials pile up. -/
theorem mem_foldl_deny {v : String} (asked deny : List String) :
    v ∈ asked.foldl (fun deny d => if deny.contains d then deny else deny ++ [d]) deny ↔
      v ∈ deny ∨ v ∈ asked := by
  induction asked generalizing deny with
  | nil => simp
  | cons d asked ih =>
    rw [List.foldl_cons, ih, List.mem_cons]
    by_cases hd : d ∈ deny
    · have hcontains : deny.contains d = true := by simpa using hd
      rw [if_pos hcontains]
      constructor
      · rintro (hv | hv)
        · exact Or.inl hv
        · exact Or.inr (Or.inr hv)
      · rintro (hv | rfl | hv)
        · exact Or.inl hv
        · exact Or.inl hd
        · exact Or.inr hv
    · have hcontains : ¬ deny.contains d = true := by simpa using hd
      rw [if_neg hcontains, List.mem_append, List.mem_singleton, or_assoc]

/-- Tightening is intersection. -/
theorem verbs_tightenedWith (c asked : DelegationConstraints) :
    verbs (c.tightenedWith asked) = verbs c ∩ verbs asked := by
  ext verb
  simp only [verbs, Set.mem_inter_iff, Set.mem_ofPred_eq, DelegationConstraints.tightenedWith,
    mem_foldl_deny, not_or]
  cases c.actionsAllow with
  | none =>
    cases asked.actionsAllow with
    | none => simp; tauto
    | some b => simp; tauto
  | some a =>
    cases asked.actionsAllow with
    | none => simp; tauto
    | some b => simp; tauto

/-! ## One region -/

/-- The device code of a call that holds bounds of its own, with the bounds: one at the graph
    gate. -/
def Phase.bounds? : Phase → Option (String × DelegationConstraints)
  | .gating deviceCode _ r => some (deviceCode, r.constraints)
  | _ => none

/-- The approval that `approve` has under way, and what its caller asked for. -/
def Phase.approves? : Phase → Option (Approving × DelegationConstraints)
  | .delegating _ a | .signing a | .marking a _ _ =>
    match a.approver with
    | .approve asked => some (a, asked)
    | .delegate .. => none
  | _ => none

/-- The bounds that a region leaves a stored grant with: those it had, those of a grant just
    stored, or those that `approve` computed from its snapshot. -/
theorem advance_stored {L : Lib} {env : Env} {phase : Phase} {b : Board} {code : String}
    {grant : DeviceGrant} (h : (phase.advance L env b).1.table.grants code = some grant) :
    (∃ old, b.table.grants code = some old ∧ grant.constraints = old.constraints) ∨
    (phase.creates = true ∧ env.deviceCode = code) ∨
    (∃ a ownerKeyId attestationId asked old, phase = .marking a ownerKeyId attestationId ∧
      a.approver = .approve asked ∧ a.deviceCode = code ∧ b.table.grants code = some old ∧
      grant.constraints = a.constraints) := by
  have hkept {deviceCode : String} {old new : DeviceGrant}
      (hold : b.table.grants deviceCode = some old)
      (h : (b.table.insertGrant deviceCode new).grants code = some grant)
      (hnew : new.constraints = old.constraints) :
      ∃ old, b.table.grants code = some old ∧ grant.constraints = old.constraints := by
    rcases grants_of_insert h with ⟨rfl, rfl⟩ | hsame
    · exact ⟨old, hold, hnew⟩
    · exact ⟨grant, hsame, rfl⟩
  by_cases hmarking : ∃ a ownerKeyId attestationId, phase = .marking a ownerKeyId attestationId
  · obtain ⟨a, ownerKeyId, attestationId, rfl⟩ := hmarking
    simp only [Phase.advance, Board.mark] at h
    cases hold : b.table.grants a.deviceCode with
    | none =>
      cases happrover : a.approver with
      | approve asked =>
        simp only [hold, happrover] at h
        exact Or.inl ⟨grant, h, rfl⟩
      | delegate _ _ _ _ =>
        simp only [hold, happrover] at h
        exact Or.inl ⟨grant, h, rfl⟩
    | some old =>
      cases happrover : a.approver with
      | approve asked =>
        simp only [hold, happrover] at h
        rcases grants_of_insert h with ⟨rfl, rfl⟩ | hsame
        · exact Or.inr (Or.inr ⟨a, ownerKeyId, attestationId, asked, old, rfl, happrover, rfl,
            hold, rfl⟩)
        · exact Or.inl ⟨grant, hsame, rfl⟩
      | delegate _ _ _ _ =>
        simp only [hold, happrover] at h
        exact Or.inl (hkept hold h rfl)
  · rcases (advance_effect L env phase b).stored h with
      ⟨old, status, hold, rfl⟩ | ⟨a, ownerKeyId, attestationId, _, _, hphase, -, -⟩ | hnew
    · exact Or.inl ⟨old, hold, rfl⟩
    · exact absurd ⟨a, ownerKeyId, attestationId, hphase⟩ hmarking
    · exact Or.inr (Or.inl hnew)

/-- What a consumed grant takes to the gate: its bounds. -/
theorem redeem_bounds {now : Nat} {deviceCode code : String} {clientId : Option String}
    {unknown : Refusal} {door : Door} {b : Board} {c : DelegationConstraints}
    (h : (b.redeem now deviceCode clientId unknown door).2.bounds? = some (code, c)) :
    ∃ grant, b.table.grants code = some grant ∧ c = grant.constraints := by
  simp only [Board.redeem, Table.redeem] at h
  cases hgrant : b.table.grants deviceCode with
  | none =>
    simp only [hgrant, refusedOr, Phase.bounds?] at h
    cases h
  | some grant =>
    simp only [hgrant] at h
    split at h
    · cases h
    · split at h
      · cases h
      · cases hstatus : grant.status with
        | pending => simp [hstatus, refusedOr, Phase.bounds?] at h
        | denied => simp [hstatus, refusedOr, Phase.bounds?] at h
        | approved ownerWaId ownerRole ownerKeyId =>
          simp only [hstatus, refusedOr, Phase.bounds?, Option.some.injEq, Prod.mk.injEq] at h
          exact ⟨grant, h.1 ▸ hgrant, h.2.symm⟩

/-- The bounds that a call takes to the gate are those of the grant it consumes. -/
theorem advance_bounds {L : Lib} {env : Env} {phase : Phase} {b : Board} {code : String}
    {c : DelegationConstraints} (h : (phase.advance L env b).2.bounds? = some (code, c)) :
    ∃ grant, b.table.grants code = some grant ∧ c = grant.constraints := by
  have hgates : ∃ door, (phase.advance L env b).2.gates = some (code, door) := by
    generalize (phase.advance L env b).2 = t at h ⊢
    cases t with
    | gating deviceCode door r =>
      simp only [Phase.bounds?, Option.some.injEq, Prod.mk.injEq] at h
      exact ⟨door, by rw [Phase.gates, h.1]⟩
    | _ => simp [Phase.bounds?] at h
  obtain ⟨door, hgates⟩ := hgates
  have hredeems : (∃ clientId, phase = .called (.token code clientId)) ∨
      ∃ pin, phase = .claiming pin code := by
    have heffect := advance_effect L env phase b
    generalize phase.advance L env b = next at hgates heffect
    obtain ⟨b', t⟩ := next
    cases heffect with
    | still hgrants hlog ht => simp [ht] at hgates
    | issued hcreates ht => simp [ht] at hgates
    | delegated hcreates ht => simp [ht] at hgates
    | emitted ht => simp [ht] at hgates
    | approved => cases hgates
    | marked => cases hgates
    | denied => cases hgates
    | forgot => cases hgates
    | redeemed hgrant hlive happroved hredeems =>
      cases hgates
      rcases hredeems with ⟨hphase, -⟩ | ⟨pin, hphase, -⟩
      · exact Or.inl ⟨_, hphase⟩
      · exact Or.inr ⟨pin, hphase⟩
    | minted => cases hgates
  rcases hredeems with ⟨clientId, rfl⟩ | ⟨pin, rfl⟩
  · exact redeem_bounds h
  · exact redeem_bounds h

/-- A bearer is minted with the bounds its call brought to the gate. -/
theorem advance_minted {L : Lib} {env : Env} {phase : Phase} {b : Board} {code : String}
    {door : Door} {accessToken : String} {grant : DelegatedGrant}
    (h : .minted code door accessToken grant ∈ (phase.advance L env b).1.log) :
    .minted code door accessToken grant ∈ b.log ∨
      phase.bounds? = some (code, grant.constraints) := by
  by_cases hgating : ∃ deviceCode door r, phase = .gating deviceCode door r
  · obtain ⟨deviceCode, door', r, rfl⟩ := hgating
    simp only [Phase.advance, Board.mint] at h
    split at h
    · exact Or.inl h
    · exact Or.inl h
    · rcases List.mem_cons.mp h with hnew | hold
      · cases hnew
        exact Or.inr rfl
      · exact Or.inl hold
  · rcases (advance_effect L env phase b).logged h with hold | hnew
    · exact Or.inl hold
    · cases hnew with
      | minted => exact absurd ⟨_, _, _, rfl⟩ hgating

/-- An approval under way carries bounds that it was asked for, among others. -/
def Phase.Tightened (phase : Phase) : Prop :=
  ∀ a asked, phase.approves? = some (a, asked) → verbs a.constraints ⊆ verbs asked

/-- A refusal approves nothing. -/
theorem refusedOr_tightened {α : Type} {b : Board} {x : Except Refusal α} {k : α → Board × Phase}
    (hk : ∀ a, x = .ok a → (k a).2.Tightened) : (refusedOr b x k).2.Tightened := by
  cases x with
  | error e => intro a asked h; cases h
  | ok a => exact hk a rfl

theorem tightened_of_none {phase : Phase} (h : phase.approves? = none) : phase.Tightened := by
  intro a asked ha
  rw [h] at ha
  cases ha

/-- A call that redeems a grant approves nothing. -/
theorem redeem_tightened (now : Nat) (deviceCode : String) (clientId : Option String)
    (unknown : Refusal) (door : Door) (b : Board) :
    (b.redeem now deviceCode clientId unknown door).2.Tightened := by
  simp only [Board.redeem]
  exact refusedOr_tightened fun _ _ => tightened_of_none rfl

/-- A snapshot is tightened with what was asked for, and stays so while it is signed. -/
theorem advance_tightened {L : Lib} {env : Env} {phase : Phase} {b : Board}
    (h : phase.Tightened) : (phase.advance L env b).2.Tightened := by
  by_cases hsigning : ∃ a, phase = .signing a
  · obtain ⟨a, rfl⟩ := hsigning
    apply refusedOr_tightened
    intro ownerKeyId _
    dsimp only
    cases env.emit (a.edge ownerKeyId) with
    | error e => exact tightened_of_none rfl
    | ok attestationId => exact h
  cases phase with
  | signing a => exact absurd ⟨a, rfl⟩ hsigning
  | delegating userCode a => exact h
  | approving deviceCode ownerWaId ownerRole asked =>
    simp only [Phase.advance, Board.snapshot]
    split
    · exact tightened_of_none rfl
    · split
      · exact tightened_of_none rfl
      · split
        · exact tightened_of_none rfl
        · intro a asked' ha
          simp only [Phase.approves?, Option.some.injEq, Prod.mk.injEq] at ha
          rw [← ha.1, ← ha.2]
          exact Set.inter_subset_right.trans' (verbs_tightenedWith _ _).subset
        · intro a asked' ha
          simp only [Phase.approves?, Option.some.injEq, Prod.mk.injEq] at ha
          rw [← ha.1, ← ha.2]
          exact Set.inter_subset_right.trans' (verbs_tightenedWith _ _).subset
  | called call =>
    cases call with
    | deviceCode clientId scope =>
      simp only [Phase.advance, Board.deviceCode]
      split
      · exact tightened_of_none rfl
      · exact refusedOr_tightened fun _ _ => tightened_of_none rfl
    | delegate bearer req =>
      apply refusedOr_tightened
      intro owner _
      apply refusedOr_tightened
      intro clientId _
      split
      · exact tightened_of_none rfl
      · exact tightened_of_none rfl
    | approve bearer userCode constraints =>
      apply refusedOr_tightened
      intro owner _
      split
      · exact tightened_of_none rfl
      · exact tightened_of_none rfl
    | deny bearer userCode =>
      apply refusedOr_tightened
      intro owner _
      split
      · exact tightened_of_none rfl
      · exact tightened_of_none rfl
    | token deviceCode clientId => exact redeem_tightened _ _ _ _ _ _
    | claim pin =>
      simp only [Phase.advance, Board.claim]
      split
      · exact tightened_of_none rfl
      · exact tightened_of_none rfl
  | issuing deviceCode userCode => exact tightened_of_none rfl
  | marking a ownerKeyId attestationId =>
    simp only [Phase.advance, Board.mark]
    split <;> exact tightened_of_none rfl
  | denying deviceCode =>
    simp only [Phase.advance, Board.setDenied]
    split <;> exact tightened_of_none rfl
  | claiming pin deviceCode => exact redeem_tightened _ _ _ _ _ _
  | gating deviceCode door r =>
    simp only [Phase.advance, Board.mint]
    split <;> exact tightened_of_none rfl
  | told reply => exact tightened_of_none rfl

/-- `approve` answers 200 where it marks the grant. -/
theorem advance_approved {L : Lib} {env : Env} {phase : Phase} {b : Board} {code : String}
    {asked : DelegationConstraints}
    (h : .approved code asked ∈ (phase.advance L env b).1.log) :
    .approved code asked ∈ b.log ∨
      ∃ a ownerKeyId attestationId old, phase = .marking a ownerKeyId attestationId ∧
        a.approver = .approve asked ∧ a.deviceCode = code ∧ b.table.grants code = some old ∧
        (phase.advance L env b).1.table.grants code =
          some { old with
            constraints := a.constraints
            status := .approved a.ownerWaId a.ownerRole ownerKeyId } := by
  by_cases hmarking : ∃ a ownerKeyId attestationId, phase = .marking a ownerKeyId attestationId
  · obtain ⟨a, ownerKeyId, attestationId, rfl⟩ := hmarking
    simp only [Phase.advance, Board.mark] at h ⊢
    cases hold : b.table.grants a.deviceCode with
    | none =>
      cases happrover : a.approver with
      | approve asked =>
        simp only [hold, happrover] at h
        exact Or.inl h
      | delegate _ _ _ _ =>
        simp only [hold, happrover] at h
        exact Or.inl h
    | some old =>
      cases happrover : a.approver with
      | approve asked' =>
        simp only [hold, happrover] at h
        rcases List.mem_cons.mp h with hnew | hlog
        · cases hnew
          refine Or.inr ⟨a, ownerKeyId, attestationId, old, rfl, happrover, rfl, hold, ?_⟩
          simp only [Table.insertGrant, Function.update_self]
        · exact Or.inl hlog
      | delegate _ _ _ _ =>
        simp only [hold, happrover] at h
        exact Or.inl h
  · rcases (advance_effect L env phase b).logged h with hold | hnew
    · exact Or.inl hold
    · cases hnew with
      | approved => exact absurd ⟨_, _, _, rfl⟩ hmarking

/-! ## One device code -/

/-- Whatever goes by this device code is within `K`: the grant, a call at the gate with it, and
    the bearer. -/
structure Within (code : String) (K : Set CapabilityVerb) (c : Config Board Phase) : Prop where
  known : 0 < created code c.shared.log
  stored : ∀ grant, c.shared.table.grants code = some grant → verbs grant.constraints ⊆ K
  held : ∀ t ∈ c.tasks, ∀ bounds, t.bounds? = some (code, bounds) → verbs bounds ⊆ K
  minted : ∀ door accessToken grant, .minted code door accessToken grant ∈ c.shared.log →
    verbs grant.constraints ⊆ K

/-- An approval that stores its bounds finds bounds that they are within. -/
def KeepsBounds (c : Config Board Phase) (m : Move Call Env) : Prop :=
  ∀ i env a ownerKeyId attestationId asked grant, m = .advance i env →
    c.tasks[i]? = some (.marking a ownerKeyId attestationId) → a.approver = .approve asked →
    c.shared.table.grants a.deviceCode = some grant →
    verbs a.constraints ⊆ verbs grant.constraints

/-- A grant in the table is all there is of its device code. -/
theorem within_of_stored {code : String} {K : Set CapabilityVerb} {c : Config Board Phase}
    {grant : DeviceGrant} (hsound : Sound c) (hgrant : c.shared.table.grants code = some grant)
    (hK : verbs grant.constraints ⊆ K) : Within code K c where
  known := by
    have htickets := hsound.tickets code
    rw [stored_of_some hgrant] at htickets
    omega
  stored grant' hgrant' := by
    rw [hgrant] at hgrant'
    cases hgrant'
    exact hK
  held t ht bounds hbounds := by
    -- the one ticket is in the table, not in the call's hands
    have hholds := hsound.holds_le ht code
    have honce := hsound.once code
    have hone : t.holds code = 1 := by
      cases t with
      | gating deviceCode door r =>
        simp only [Phase.bounds?, Option.some.injEq, Prod.mk.injEq] at hbounds
        rw [holds_gating, if_pos hbounds.1]
      | _ => simp [Phase.bounds?] at hbounds
    rw [stored_of_some hgrant] at hholds
    omega
  minted door accessToken bearer hminted := by
    have htickets := hsound.tickets code
    have honce := hsound.once code
    have hbearers : 0 < bearers code c.shared.log :=
      List.countP_pos_iff.mpr ⟨_, hminted, by simp [GrantEvent.mints?]⟩
    rw [stored_of_some hgrant] at htickets
    omega

variable {L : Lib}

/-- **Step.** A move keeps a device code within bounds that it is within. -/
theorem step_within {code : String} {K : Set CapabilityVerb} {c : Config Board Phase}
    {m : Move Call Env} (hfresh : FreshCodes c m) (hkeeps : KeepsBounds c m)
    (h : Within code K c) : Within code K ((grantServer L).step c m) := by
  cases m with
  | arrive call =>
    refine ⟨h.known, h.stored, ?_, h.minted⟩
    intro t ht bounds hbounds
    rcases List.mem_append.mp ht with hold | hnew
    · exact h.held t hold bounds hbounds
    · rw [List.mem_singleton.mp hnew] at hbounds
      cases hbounds
  | advance i env =>
    cases ht : c.tasks[i]? with
    | none =>
      rw [System.step_advance_none _ env ht]
      exact h
    | some phase =>
      rw [System.step_advance_some _ env ht]
      refine ⟨?_, ?_, ?_, ?_⟩
      · have hmore := advance_created (advance_effect L env phase c.shared) code
        have hknown := h.known
        show 0 < created code (phase.advance L env c.shared).1.log
        rcases hmore with hsame | ⟨-, -, hmore⟩
        · omega
        · omega
      · intro grant hgrant
        rcases advance_stored hgrant with ⟨old, hold, hsame⟩ | ⟨hcreates, hcode⟩ |
          ⟨a, ownerKeyId, attestationId, asked, old, rfl, happrover, rfl, hold, hsame⟩
        · rw [hsame]
          exact h.stored old hold
        · -- the code of a new grant was not there before
          have hnew := hfresh i env phase rfl ht hcreates
          have hknown := h.known
          rw [hcode] at hnew
          omega
        · rw [hsame]
          exact (hkeeps i env a ownerKeyId attestationId asked old rfl ht happrover hold).trans
            (h.stored old hold)
      · intro t' ht' bounds hbounds
        rcases List.mem_or_eq_of_mem_set ht' with hold | rfl
        · exact h.held t' hold bounds hbounds
        · obtain ⟨grant, hgrant, rfl⟩ := advance_bounds hbounds
          exact h.stored grant hgrant
      · intro door accessToken grant hminted
        rcases advance_minted hminted with hold | hbounds
        · exact h.minted door accessToken grant hold
        · exact h.held phase (List.mem_of_getElem? ht) _ hbounds

/-! ## Runs -/

/-- Every approval that answered 200 binds its device code. -/
structure Tightens (c : Config Board Phase) : Prop where
  sound : Sound c
  tightened : ∀ t ∈ c.tasks, t.Tightened
  approved : ∀ code asked, .approved code asked ∈ c.shared.log → Within code (verbs asked) c

theorem tightens_start : Tightens start where
  sound := sound_start
  tightened := by
    rintro t ⟨⟩
  approved := by
    rintro code asked ⟨⟩

/-- **Step.** -/
theorem step_tightens {c : Config Board Phase} {m : Move Call Env} (hfresh : FreshCodes c m)
    (hkeeps : KeepsBounds c m) (h : Tightens c) : Tightens ((grantServer L).step c m) := by
  have hsound' := step_sound (L := L) hfresh h.sound
  refine ⟨hsound', ?_, ?_⟩
  · apply ((grantServer L).step_preserves (J := fun _ => True) (P := fun _ t => t.Tightened)
      trivial h.tightened _ _).2
    · intro call _
      exact ⟨trivial, tightened_of_none rfl, h.tightened⟩
    · intro i env t _ ht
      exact ⟨trivial, advance_tightened (h.tightened t (List.mem_of_getElem? ht)), h.tightened⟩
  · intro code asked happroved
    have hkept (hold : .approved code asked ∈ c.shared.log) :
        Within code (verbs asked) ((grantServer L).step c m) :=
      step_within hfresh hkeeps (h.approved code asked hold)
    cases m with
    | arrive call => exact hkept happroved
    | advance i env =>
      cases ht : c.tasks[i]? with
      | none =>
        rw [System.step_advance_none _ env ht] at happroved
        exact hkept happroved
      | some phase =>
        rw [System.step_advance_some _ env ht] at happroved
        rcases advance_approved happroved with
          hold | ⟨a, ownerKeyId, attestationId, old, rfl, happrover, rfl, hold, hgrant⟩
        · exact hkept hold
        · -- the grant has just been stored with bounds that were asked for
          rw [System.step_advance_some _ env ht] at hsound' ⊢
          apply within_of_stored hsound' hgrant
          apply h.tightened _ (List.mem_of_getElem? ht)
          simp only [Phase.approves?, happrover]

/-- **Run.** If every approval stores bounds within those it finds, the bearer minted for a
    device code authorizes only what the grant's bounds authorized at any time before, from
    those it was stored with on, and what every approval that answered 200 asked for. -/
theorem approvals_only_tighten (L : Lib) (moves later : List (Move Call Env))
    (hfresh : Guarded (grantServer L).step FreshCodes start (moves ++ later))
    (hkeeps : Guarded (grantServer L).step KeepsBounds start (moves ++ later))
    (code : String) (door : Door) (accessToken : String) (bearer : DelegatedGrant)
    (hminted : .minted code door accessToken bearer ∈
      (after (grantServer L).step start (moves ++ later)).shared.log)
    (verb : CapabilityVerb) (hverb : authorizeDelegated bearer.caller verb = .ok ()) :
    (∀ grant, (after (grantServer L).step start moves).shared.table.grants code = some grant →
      authorizeDelegated { bearer.caller with constraints := some grant.constraints } verb =
        .ok ()) ∧
    (∀ asked, .approved code asked ∈
        (after (grantServer L).step start (moves ++ later)).shared.log →
      authorizeDelegated { bearer.caller with constraints := some asked } verb = .ok ()) := by
  have hmem : verb ∈ verbs bearer.constraints := (mem_verbs_iff rfl rfl).mpr hverb
  constructor
  · intro grant hgrant
    obtain ⟨hfresh₁, hfresh₂⟩ := guarded_append_iff.mp hfresh
    have hkeeps₂ := (guarded_append_iff.mp hkeeps).2
    have hsound := Guarded.invariant (I := Sound) (fun _ _ h hm => step_sound hm h) hfresh₁
      sound_start
    have hwithin := Guarded.invariant (I := Within code (verbs grant.constraints))
      (fun _ _ h hm => step_within hm.1 hm.2 h) (hfresh₂.and hkeeps₂)
      (within_of_stored hsound hgrant subset_rfl)
    rw [← after_append] at hwithin
    exact (mem_verbs_iff rfl rfl).mp (hwithin.minted door accessToken bearer hminted hmem)
  · intro asked happroved
    have htightens := Guarded.invariant (I := Tightens)
      (fun _ _ h hm => step_tightens hm.1 hm.2 h) (hfresh.and hkeeps) tightens_start
    exact (mem_verbs_iff rfl rfl).mp
      ((htightens.approved code asked happroved).minted door accessToken bearer hminted hmem)

namespace Fixture

/-- `announce` and nothing else. -/
def announceOnly : DelegationConstraints := { actionsAllow := some ["announce"] }

/-- Anything but `announce`. -/
def notAnnounce : DelegationConstraints := { actionsDeny := ["announce"] }

/-- The owner approves what `agent` asked for, `announce` only, and `agent` collects. -/
def approvedAnnounce : List (Move Call Env) :=
  [.arrive (.approve (some "sess") userCode (some announceOnly)), .advance 1 (env 1),
   .advance 1 (env 1), .advance 1 (env 2), .advance 1 (env 3),
   .arrive (.token deviceCode "agent"), .advance 2 (env 8), .advance 2 (env 8)]

/-- The owner approves twice at a time, with different bounds: both take their snapshot before
    either marks the grant. -/
def approvedTwice : List (Move Call Env) :=
  [.arrive (.approve (some "sess") userCode (some announceOnly)), .advance 1 (env 1),
   .advance 1 (env 1),
   .arrive (.approve (some "sess") userCode (some notAnnounce)), .advance 2 (env 1),
   .advance 2 (env 1), .advance 1 (env 2), .advance 1 (env 3), .advance 2 (env 4),
   .advance 2 (env 5),
   .arrive (.token deviceCode "agent"), .advance 3 (env 8), .advance 3 (env 8)]

/-- The bearer of a run, with the bounds it was minted with. -/
def bearerWith (c : DelegationConstraints) : DelegatedGrant := { bearer with constraints := c }

/-- An approval's snapshot is still the grant's bounds while it is signed and stored. -/
def StoresTightened (c : Config Board Phase) : Move Call Env → Prop
  | .arrive _ => True
  | .advance i _ => ∀ p ∈ (c.tasks[i]?).bind Phase.approves?,
      ∀ grant ∈ c.shared.table.grants p.1.deviceCode,
        p.1.constraints = grant.constraints.tightenedWith p.2

instance decidableStoresTightened (c : Config Board Phase) : ∀ m, Decidable (StoresTightened c m)
  | .arrive _ => inferInstanceAs (Decidable True)
  | .advance i _ => inferInstanceAs (Decidable (∀ p ∈ (c.tasks[i]?).bind Phase.approves?,
      ∀ grant ∈ c.shared.table.grants p.1.deviceCode,
        p.1.constraints = grant.constraints.tightenedWith p.2))

theorem keepsBounds_of_storesTightened {L : Lib} {moves : List (Move Call Env)}
    (h : Guarded (grantServer L).step StoresTightened start moves) :
    Guarded (grantServer L).step KeepsBounds start moves := by
  apply h.imp
  intro c m hstores i env a ownerKeyId attestationId asked grant hm ht happrover hgrant
  cases hm
  have htight : a.constraints = grant.constraints.tightenedWith asked := by
    apply hstores (a, asked) _ grant hgrant
    rw [ht]
    simp only [Option.bind_some, Phase.approves?, happrover, Option.mem_def]
  rw [htight, verbs_tightenedWith]
  exact Set.inter_subset_left

end Fixture

/-- The theorem at a run in which `agent` is let announce. -/
theorem approvals_only_tighten_announce :
    (∀ grant, (after (grantServer Fixture.lib).step start Fixture.asked).shared.table.grants
        Fixture.deviceCode = some grant →
      authorizeDelegated { (Fixture.bearerWith Fixture.announceOnly).caller with
        constraints := some grant.constraints } .announce = .ok ()) ∧
    (∀ asked, .approved Fixture.deviceCode asked ∈ (after (grantServer Fixture.lib).step start
        (Fixture.asked ++ Fixture.approvedAnnounce)).shared.log →
      authorizeDelegated { (Fixture.bearerWith Fixture.announceOnly).caller with
        constraints := some asked } .announce = .ok ()) :=
  approvals_only_tighten Fixture.lib Fixture.asked Fixture.approvedAnnounce
    (Fixture.fresh_of_drawsNew (by decide +kernel))
    (Fixture.keepsBounds_of_storesTightened (by decide +kernel)) Fixture.deviceCode
    (.token Fixture.deviceCode "agent") "dgrant:EjRWeJASNFZ4kBI0VniQEjRWeJASNFZ4"
    (Fixture.bearerWith Fixture.announceOnly) (by decide +kernel) .announce (by decide +kernel)

/-- Of two approvals that overlap, the later one loses what the earlier one took away: the
    bearer may do what an approval that answered 200 did not allow. -/
theorem overlapping_approvals_widen :
    Guarded (grantServer Fixture.lib).step FreshCodes start
        (Fixture.asked ++ Fixture.approvedTwice) ∧
      .minted Fixture.deviceCode (.token Fixture.deviceCode "agent")
          "dgrant:EjRWeJASNFZ4kBI0VniQEjRWeJASNFZ4" (Fixture.bearerWith Fixture.notAnnounce) ∈
        (after (grantServer Fixture.lib).step start
          (Fixture.asked ++ Fixture.approvedTwice)).shared.log ∧
      .approved Fixture.deviceCode Fixture.announceOnly ∈
        (after (grantServer Fixture.lib).step start
          (Fixture.asked ++ Fixture.approvedTwice)).shared.log ∧
      authorizeDelegated (Fixture.bearerWith Fixture.notAnnounce).caller .peer = .ok () ∧
      authorizeDelegated { (Fixture.bearerWith Fixture.notAnnounce).caller with
        constraints := some Fixture.announceOnly } .peer ≠ .ok () :=
  ⟨Fixture.fresh_of_drawsNew (by decide +kernel), by decide +kernel, by decide +kernel,
    by decide +kernel, by decide +kernel⟩

end CirisServer.DeviceFlow
