import CirisServer.Spec.DeviceGrantInv

/-!
# A denied grant stays denied

`approve` looks at the grant's status before the owner's signer signs, and lets a denied one
through; the region that marks the grant afterwards does not look again. A grant denied in
between, or before, is approved all the same. The result holds for runs in which no grant that
is to be marked is found denied.

Key results:
- `advance_final`: what one region does to the denied grants
- `redeemed_once_and_final`: a device code yields one bearer, and none once it is denied
-/

namespace CirisServer.DeviceFlow

open Interleave Run

/-- The event minted a bearer for this device code. -/
def GrantEvent.mints (e : GrantEvent) (code : String) : Prop := e.mints? = some code

/-- The event is `deny`'s 200 for this device code. -/
def GrantEvent.denies (e : GrantEvent) (code : String) : Prop := e.denies? = some code

/-- No grant that is to be marked is found denied. -/
def MarksUndenied (c : Config Board Phase) (m : Move Call Env) : Prop :=
  ∀ i env a ownerKeyId attestationId grant, m = .advance i env →
    c.tasks[i]? = some (.marking a ownerKeyId attestationId) →
    c.shared.table.grants a.deviceCode = some grant → grant.status ≠ .denied

/-! ## One region -/

/-- A denied grant is denied in the table, and nobody mints for it. -/
structure Final (b : Board) : Prop where
  log : NeverAfter GrantEvent.mints GrantEvent.denies b.log
  known : ∀ code, Ended GrantEvent.denies b.log code → 0 < created code b.log
  status : ∀ code grant, Ended GrantEvent.denies b.log code →
    b.table.grants code = some grant → grant.status = .denied

/-- The call is not at the gate with a denied grant. -/
def Phase.Clear (b : Board) (t : Phase) : Prop :=
  ∀ code, Ended GrantEvent.denies b.log code → t.holds code = 0

theorem clear_of_gates_none {t : Phase} (ht : t.gates = none) (b : Board) : t.Clear b :=
  fun _ _ => holds_of_gates_none ht

/-- An event that denies nothing. -/
theorem ended_denies_cons {e : GrantEvent} {log : List GrantEvent} {code : String}
    (he : e.denies? = none) :
    Ended GrantEvent.denies (e :: log) code ↔ Ended GrantEvent.denies log code := by
  simp [ended_cons_iff, GrantEvent.denies, he]

/-- An event that neither mints nor denies leaves the log in order. -/
theorem neverAfter_cons {e : GrantEvent} {log : List GrantEvent} (he : e.mints? = none)
    (h : NeverAfter GrantEvent.mints GrantEvent.denies log) :
    NeverAfter GrantEvent.mints GrantEvent.denies (e :: log) := by
  apply h.cons
  intro code hmints
  rw [GrantEvent.mints, he] at hmints
  cases hmints

/-- A grant put where no denied one was. -/
theorem Final.insert {b : Board} (h : Final b) {deviceCode : String} (grant : DeviceGrant)
    (hopen : ¬ Ended GrantEvent.denies b.log deviceCode) (code : String) (grant' : DeviceGrant)
    (hended : Ended GrantEvent.denies b.log code)
    (hgrant : (b.table.insertGrant deviceCode grant).grants code = some grant') :
    grant'.status = .denied := by
  have hne : code ≠ deviceCode := fun heq => hopen (heq ▸ hended)
  simp only [Table.insertGrant, Function.update_of_ne hne] at hgrant
  exact h.status code grant' hended hgrant

/-- `deny` answers 200 only for a device code in the table. -/
theorem advance_denies {env : Env} {b b' : Board} {phase t : Phase}
    (he : Effect env b phase b' t) {code : String}
    (hended : Ended GrantEvent.denies b'.log code) :
    Ended GrantEvent.denies b.log code ∨ b.table.stored code = 1 := by
  obtain ⟨e, hlog, hdenies⟩ := hended
  rcases he.logged hlog with hold | hnew
  · exact Or.inl ⟨e, hold, hdenies⟩
  · cases hnew with
    | denied hgrant => exact Or.inr (Option.some.inj hdenies ▸ stored_of_some hgrant)
    | issued | delegated | emitted | approved | minted => cases hdenies

/-- **Step.** A region that marks no denied grant keeps denied grants from being redeemed. -/
theorem advance_final {env : Env} {b b' : Board} {phase t : Phase}
    (he : Effect env b phase b' t) (h : Final b) (hclear : phase.Clear b)
    (hstored : ∀ code, b.table.stored code = 1 → 0 < created code b.log)
    (hfresh : phase.creates = true → created env.deviceCode b.log = 0)
    (hmarks : ∀ a ownerKeyId attestationId grant, phase = .marking a ownerKeyId attestationId →
      b.table.grants a.deviceCode = some grant → grant.status ≠ .denied) :
    Final b' ∧ t.Clear b' := by
  have hknown {code : String} (hended : Ended GrantEvent.denies b'.log code) :
      0 < created code b'.log := by
    have hold : 0 < created code b.log :=
      (advance_denies he hended).elim (h.known code) (hstored code)
    rcases advance_created he code with hsame | ⟨-, -, hmore⟩
    · omega
    · omega
  have hopen (hcreates : phase.creates = true) :
      ¬ Ended GrantEvent.denies b.log env.deviceCode := by
    intro hended
    have hpos := h.known _ hended
    have hzero := hfresh hcreates
    omega
  cases he with
  | still hgrants hlog ht =>
    refine ⟨⟨hlog ▸ h.log, fun _ => hknown, ?_⟩, clear_of_gates_none ht _⟩
    intro code grant hended hgrant
    rw [hlog] at hended
    rw [hgrants] at hgrant
    exact h.status code grant hended hgrant
  | issued hcreates ht =>
    refine ⟨⟨neverAfter_cons rfl h.log, fun _ => hknown, ?_⟩, clear_of_gates_none ht _⟩
    intro code grant hended hgrant
    exact h.insert _ (hopen hcreates) code grant ((ended_denies_cons rfl).mp hended) hgrant
  | delegated hcreates ht =>
    refine ⟨⟨neverAfter_cons rfl h.log, fun _ => hknown, ?_⟩, clear_of_gates_none ht _⟩
    intro code grant hended hgrant
    exact h.insert _ (hopen hcreates) code grant ((ended_denies_cons rfl).mp hended) hgrant
  | emitted ht =>
    refine ⟨⟨neverAfter_cons rfl h.log, fun _ => hknown, ?_⟩, clear_of_gates_none ht _⟩
    intro code grant hended
    exact h.status code grant ((ended_denies_cons rfl).mp hended)
  | @approved a ownerKeyId attestationId _ _ old hold =>
    refine ⟨⟨neverAfter_cons rfl h.log, fun _ => hknown, ?_⟩, clear_of_gates_none rfl _⟩
    have hundenied := hmarks a ownerKeyId attestationId old rfl hold
    intro code grant hended hgrant
    exact h.insert _ (fun hden => hundenied (h.status _ old hden hold)) code grant
      ((ended_denies_cons rfl).mp hended) hgrant
  | @marked a ownerKeyId attestationId _ old hold =>
    refine ⟨⟨h.log, fun _ => hknown, ?_⟩, clear_of_gates_none rfl _⟩
    have hundenied := hmarks a ownerKeyId attestationId old rfl hold
    intro code grant hended hgrant
    exact h.insert _ (fun hden => hundenied (h.status _ old hden hold)) code grant hended hgrant
  | @denied deviceCode old _ hold =>
    refine ⟨⟨neverAfter_cons rfl h.log, fun _ => hknown, ?_⟩, clear_of_gates_none rfl _⟩
    intro code grant hended hgrant
    by_cases hcode : code = deviceCode
    · rw [hcode] at hgrant
      simp only [Table.insertGrant, Function.update_self, Option.some.injEq] at hgrant
      rw [← hgrant]
    · simp only [Table.insertGrant, Function.update_of_ne hcode] at hgrant
      rcases ended_cons_iff.mp hended with hnew | hended
      · exact absurd (Option.some.inj hnew).symm hcode
      · exact h.status code grant hended hgrant
  | @forgot _ deviceCode userCode _ =>
    refine ⟨⟨h.log, fun _ => hknown, ?_⟩, clear_of_gates_none rfl _⟩
    intro code grant hended hgrant
    exact h.status code grant hended (grants_of_forget hgrant)
  | @redeemed _ deviceCode door old redeemed hold hlive happroved hredeems =>
    refine ⟨⟨h.log, fun _ => hknown, ?_⟩, ?_⟩
    · intro code grant hended hgrant
      exact h.status code grant hended (grants_of_forget hgrant)
    · intro code hended
      rw [holds_gating, if_neg]
      rintro rfl
      -- a consumed grant was approved, a denied one is denied
      rw [h.status _ old hended hold] at happroved
      cases happroved
  | @minted deviceCode accessToken door redeemed grant reply =>
    have hclosed : ¬ Ended GrantEvent.denies b.log deviceCode := by
      intro hended
      have hholds := hclear deviceCode hended
      rw [holds_gating, if_pos rfl] at hholds
      omega
    refine ⟨⟨?_, fun _ => hknown, ?_⟩, clear_of_gates_none rfl _⟩
    · apply h.log.cons
      intro code hmints
      have hcode : deviceCode = code := Option.some.inj hmints
      exact hcode ▸ hclosed
    · intro code grant hended
      exact h.status code grant ((ended_denies_cons rfl).mp hended)

/-! ## Runs -/

/-- The invariant, over the calls too. -/
def Settled (c : Config Board Phase) : Prop :=
  Sound c ∧ Final c.shared ∧ ∀ t ∈ c.tasks, t.Clear c.shared

theorem settled_start : Settled start :=
  ⟨sound_start, ⟨.nil, fun code hended => (not_ended_nil code hended).elim,
    fun code _ hended => (not_ended_nil code hended).elim⟩, fun _ ht => nomatch ht⟩

variable {L : Lib}

/-- **Step.** A move that marks no denied grant keeps denied grants from being redeemed. -/
theorem step_settled {c : Config Board Phase} {m : Move Call Env} (hfresh : FreshCodes c m)
    (hmarks : MarksUndenied c m) (h : Settled c) : Settled ((grantServer L).step c m) := by
  obtain ⟨hsound, hfinal, hclear⟩ := h
  refine ⟨step_sound hfresh hsound, ?_⟩
  apply System.step_preserves (P := fun b t => t.Clear b) _ hfinal hclear
  · intro call _
    exact ⟨hfinal, clear_of_gates_none rfl _, hclear⟩
  · intro i env t hm ht
    have heffect := advance_effect L env t c.shared
    have hstored (code : String) (hcode : c.shared.table.stored code = 1) :
        0 < created code c.shared.log := by
      have htickets := hsound.tickets code
      omega
    obtain ⟨hfinal', hclear'⟩ := advance_final heffect hfinal (hclear t (List.mem_of_getElem? ht))
      hstored (hfresh i env t hm ht)
      (fun a ownerKeyId attestationId grant hphase =>
        hmarks i env a ownerKeyId attestationId grant hm (hphase ▸ ht))
    refine ⟨hfinal', hclear', ?_⟩
    intro u hu code hended
    rcases advance_denies heffect hended with hold | hcode
    · exact hclear u hu code hold
    · -- the ticket is in the table, so no other call has it
      have hholds := hsound.holds_le hu code
      have honce := hsound.once code
      omega

/-- **Run.** A device code yields one bearer at most; and if no grant is found denied where it
    is marked, none is minted once `deny` has answered 200. -/
theorem redeemed_once_and_final (L : Lib) (moves : List (Move Call Env))
    (hfresh : Guarded (grantServer L).step FreshCodes start moves) :
    (∀ code, bearers code (after (grantServer L).step start moves).shared.log ≤ 1) ∧
    (Guarded (grantServer L).step MarksUndenied start moves →
      NeverAfter GrantEvent.mints GrantEvent.denies
        (after (grantServer L).step start moves).shared.log) := by
  constructor
  · have hsound := Guarded.invariant (I := Sound) (fun _ _ h hm => step_sound hm h) hfresh
      sound_start
    exact hsound.bearers_le_one
  · intro hmarks
    have hsettled := Guarded.invariant (I := Settled)
      (fun _ _ h hm => step_settled hm.1 hm.2 h) (hfresh.and hmarks) settled_start
    exact hsettled.2.1.log

namespace Fixture

/-- The owner denies the grant while the owner's signer signs, and the client collects. -/
def deniedMeanwhile : List (Move Call Env) :=
  approving ++
    [.arrive (.deny (some "sess") userCode), .advance 2 (env 2), .advance 2 (env 2),
     .advance 1 (env 3), .advance 1 (env 4),
     .arrive (.token deviceCode "agent"), .advance 3 (env 8), .advance 3 (env 8)]

/-- The device code that the call is about to mark. -/
def marks? : Phase → Option String
  | .marking a _ _ => some a.deviceCode
  | _ => none

/-- Each region that marks a grant finds it undenied. -/
def FindsUndenied (c : Config Board Phase) : Move Call Env → Prop
  | .arrive _ => True
  | .advance i _ => ∀ code ∈ (c.tasks[i]?).bind marks?,
      ∀ grant ∈ c.shared.table.grants code, grant.status ≠ .denied

instance decidableFindsUndenied (c : Config Board Phase) : ∀ m, Decidable (FindsUndenied c m)
  | .arrive _ => inferInstanceAs (Decidable True)
  | .advance i _ => inferInstanceAs (Decidable (∀ code ∈ (c.tasks[i]?).bind marks?,
      ∀ grant ∈ c.shared.table.grants code, grant.status ≠ .denied))

theorem marks_of_findsUndenied {L : Lib} {moves : List (Move Call Env)}
    (h : Guarded (grantServer L).step FindsUndenied start moves) :
    Guarded (grantServer L).step MarksUndenied start moves := by
  apply h.imp
  intro c m hfinds i env a ownerKeyId attestationId grant hm ht hgrant
  cases hm
  apply hfinds a.deviceCode _ grant hgrant
  rw [ht]
  rfl

end Fixture

/-- The theorem at a run in which a bearer is minted. -/
theorem redeemed_once_and_final_collected :
    bearers Fixture.deviceCode
        (after (grantServer Fixture.lib).step start Fixture.collected).shared.log ≤ 1 ∧
      NeverAfter GrantEvent.mints GrantEvent.denies
        (after (grantServer Fixture.lib).step start Fixture.collected).shared.log := by
  obtain ⟨honce, hfinal⟩ := redeemed_once_and_final Fixture.lib Fixture.collected
    (Fixture.fresh_of_drawsNew (by decide +kernel))
  exact ⟨honce Fixture.deviceCode, hfinal (Fixture.marks_of_findsUndenied (by decide +kernel))⟩

/-- Denied while the owner's signer signed, the grant yields a bearer all the same. -/
theorem minted_after_denied :
    Guarded (grantServer Fixture.lib).step FreshCodes start Fixture.deniedMeanwhile ∧
      ¬ NeverAfter GrantEvent.mints GrantEvent.denies
        (after (grantServer Fixture.lib).step start Fixture.deniedMeanwhile).shared.log := by
  have hlog : (after (grantServer Fixture.lib).step start Fixture.deniedMeanwhile).shared.log =
      [.minted Fixture.deviceCode (.token Fixture.deviceCode "agent")
        "dgrant:EjRWeJASNFZ4kBI0VniQEjRWeJASNFZ4" Fixture.bearer,
       .approved Fixture.deviceCode {},
       .emitted Fixture.deviceCode
        ⟨"owner-key", "agent", "owner:act-on-behalf", false, none, none, 600⟩,
       .denied Fixture.deviceCode, .issued Fixture.deviceCode "agent"] := by
    decide +kernel
  refine ⟨Fixture.fresh_of_drawsNew (by decide +kernel), ?_⟩
  rw [hlog]
  intro h
  have hdenied : GrantEvent.denied Fixture.deviceCode ∈
      [.approved Fixture.deviceCode {},
       .emitted Fixture.deviceCode
        ⟨"owner-key", "agent", "owner:act-on-behalf", false, none, none, 600⟩,
       .denied Fixture.deviceCode, .issued Fixture.deviceCode "agent"] := by
    decide +kernel
  exact List.rel_of_pairwise_cons h hdenied Fixture.deviceCode rfl rfl

end CirisServer.DeviceFlow
