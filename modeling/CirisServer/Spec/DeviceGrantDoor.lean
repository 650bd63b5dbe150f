import CirisServer.Spec.DeviceGrantInv

/-!
# By which door a bearer leaves

`token` asks for the device code and the client it was issued to. `claim` asks for a user code
only, and `device_code` fills the same index of user codes as `delegate` does: whoever knows the
user code that a client shows its owner redeems the client's grant. The result holds for runs in
which no `claim` redeems a grant that `device_code` created.

Key results:
- `advance_doors`: what one region does to the client's grants
- `minted_by_its_client`: such a grant yields bearers to its client's `token` calls only
-/

namespace CirisServer.DeviceFlow

open Interleave Run

/-! ## The property -/

/-- Bearers of a grant that `device_code` created are minted for `token` calls with its device
    code and its client. -/
def ClientDoor (log : List GrantEvent) : Prop :=
  ∀ code clientId door accessToken grant, .issued code clientId ∈ log →
    .minted code door accessToken grant ∈ log → door = .token code clientId

/-- `claim` redeems no grant that `device_code` created. -/
def ClaimsDelegated (c : Config Board Phase) (m : Move Call Env) : Prop :=
  ∀ i env pin code grant clientId, m = .advance i env →
    c.tasks[i]? = some (.claiming pin code) → c.shared.table.grants code = some grant →
    env.now < grant.expiresAt → grant.status.isApproved = true →
    .issued code clientId ∉ c.shared.log

/-! ## One region -/

/-- A grant that `device_code` created is its client's, in the table and at the doors. -/
structure Doors (b : Board) : Prop where
  minted : ClientDoor b.log
  client : ∀ code clientId grant, .issued code clientId ∈ b.log →
    b.table.grants code = some grant → grant.clientId = clientId

/-- A call at the gate with such a grant came as its client. -/
def Phase.AtDoor (b : Board) (t : Phase) : Prop :=
  ∀ code door clientId, t.gates = some (code, door) → .issued code clientId ∈ b.log →
    door = .token code clientId

theorem atDoor_of_gates_none {t : Phase} (ht : t.gates = none) (b : Board) : t.AtDoor b := by
  intro code door clientId hgates
  rw [ht] at hgates
  cases hgates

theorem created_pos_of_issued {log : List GrantEvent} {code clientId : String}
    (h : .issued code clientId ∈ log) : 0 < created code log :=
  List.countP_pos_iff.mpr ⟨_, h, by simp [GrantEvent.creates?]⟩

theorem bearers_pos_of_minted {log : List GrantEvent} {code accessToken : String} {door : Door}
    {grant : DelegatedGrant} (h : .minted code door accessToken grant ∈ log) :
    0 < bearers code log :=
  List.countP_pos_iff.mpr ⟨_, h, by simp [GrantEvent.mints?]⟩

/-- A region issues its own new device code, or none. -/
theorem advance_issued {env : Env} {b b' : Board} {phase t : Phase}
    (he : Effect env b phase b' t) {code clientId : String} (h : .issued code clientId ∈ b'.log) :
    .issued code clientId ∈ b.log ∨ (phase.creates = true ∧ env.deviceCode = code) := by
  rcases he.logged h with hold | hnew
  · exact Or.inl hold
  · cases hnew with
    | issued hcreates => exact Or.inr ⟨hcreates, rfl⟩

/-- A region keeps what was minted of such grants, and mints by the door of its call. -/
theorem advance_minted_doors {env : Env} {b b' : Board} {phase t : Phase}
    (he : Effect env b phase b' t) (h : ClientDoor b.log) (hdoor : phase.AtDoor b)
    (hunused : phase.creates = true → bearers env.deviceCode b.log = 0) : ClientDoor b'.log := by
  intro code clientId door accessToken grant hissue hmint
  rcases he.logged hissue with hissue | hissue
  · rcases he.logged hmint with hmint | hmint
    · exact h code clientId door accessToken grant hissue hmint
    · cases hmint with
      | minted => exact hdoor code door clientId rfl hissue
  · cases hissue with
    | issued hcreates hgrant =>
      rcases he.logged hmint with hmint | hmint
      · -- no bearer was minted for a new device code
        have hpos := bearers_pos_of_minted hmint
        have hnone := hunused hcreates
        omega
      · cases hmint with
        | minted => cases hcreates

/-- A region leaves a grant that `device_code` created to its client. -/
theorem advance_client {env : Env} {b b' : Board} {phase t : Phase}
    (he : Effect env b phase b' t) (h : Doors b)
    (hunused : phase.creates = true → created env.deviceCode b.log = 0)
    {code clientId : String} {grant : DeviceGrant} (hissue : .issued code clientId ∈ b'.log)
    (hgrant : b'.table.grants code = some grant) : grant.clientId = clientId := by
  rcases he.logged hissue with hissue | hissue
  · rcases he.stored hgrant with
      ⟨old, _, hold, rfl⟩ | ⟨_, _, _, old, _, -, hold, rfl⟩ | ⟨hcreates, rfl⟩
    · exact h.client code clientId old hissue hold
    · exact h.client code clientId old hissue hold
    · -- the new device code was not issued before
      have hpos := created_pos_of_issued hissue
      have hnew := hunused hcreates
      omega
  · cases hissue with
    | issued hcreates hnew =>
      rw [hnew] at hgrant
      rw [Option.some.inj hgrant]

/-- **Step.** If `claim` redeems no client's grant, client's grants leave by the client's door. -/
theorem advance_doors {env : Env} {b b' : Board} {phase t : Phase}
    (he : Effect env b phase b' t) (h : Doors b) (hdoor : phase.AtDoor b)
    (hunused : phase.creates = true →
      created env.deviceCode b.log = 0 ∧ bearers env.deviceCode b.log = 0)
    (hclaims : ∀ pin code grant clientId, phase = .claiming pin code →
      b.table.grants code = some grant → env.now < grant.expiresAt →
      grant.status.isApproved = true → .issued code clientId ∉ b.log) :
    Doors b' ∧ t.AtDoor b' := by
  refine ⟨⟨?_, ?_⟩, ?_⟩
  · exact advance_minted_doors he h.minted hdoor fun hcreates => (hunused hcreates).2
  · exact fun _ _ _ => advance_client he h fun hcreates => (hunused hcreates).1
  · cases he with
    | still hgrants hlog ht => exact atDoor_of_gates_none ht _
    | issued hcreates ht => exact atDoor_of_gates_none ht _
    | delegated hcreates ht => exact atDoor_of_gates_none ht _
    | emitted ht => exact atDoor_of_gates_none ht _
    | approved => exact atDoor_of_gates_none rfl _
    | marked => exact atDoor_of_gates_none rfl _
    | denied => exact atDoor_of_gates_none rfl _
    | forgot => exact atDoor_of_gates_none rfl _
    | @redeemed _ deviceCode door old redeemed hold hlive happroved hredeems =>
      intro code door' clientId hgates hissue
      obtain ⟨rfl, rfl⟩ := Prod.mk.inj (Option.some.inj hgates)
      rcases hredeems with ⟨-, htoken⟩ | ⟨pin, hphase, -⟩
      · rw [htoken, h.client _ clientId old hissue hold]
      · exact absurd hissue (hclaims pin _ old clientId hphase hold hlive happroved)
    | minted => exact atDoor_of_gates_none rfl _

/-! ## Runs -/

/-- The invariant, over the calls too. -/
def Bound (c : Config Board Phase) : Prop :=
  Sound c ∧ Doors c.shared ∧ ∀ t ∈ c.tasks, t.AtDoor c.shared

theorem bound_start : Bound start := by
  refine ⟨sound_start, ⟨?_, ?_⟩, fun _ ht => nomatch ht⟩
  · exact fun _ _ _ _ _ hissue => nomatch hissue
  · exact fun _ _ _ hissue => nomatch hissue

variable {L : Lib}

/-- **Step.** A move by which `claim` redeems no client's grant. -/
theorem step_bound {c : Config Board Phase} {m : Move Call Env} (hfresh : FreshCodes c m)
    (hclaims : ClaimsDelegated c m) (h : Bound c) : Bound ((grantServer L).step c m) := by
  obtain ⟨hsound, hdoors, hatDoor⟩ := h
  refine ⟨step_sound hfresh hsound, ?_⟩
  apply System.step_preserves (P := fun b t => t.AtDoor b) _ hdoors hatDoor
  · intro call _
    exact ⟨hdoors, atDoor_of_gates_none rfl _, hatDoor⟩
  · intro i env t hm ht
    have heffect := advance_effect L env t c.shared
    have hunused (hcreates : t.creates = true) : created env.deviceCode c.shared.log = 0 ∧
        bearers env.deviceCode c.shared.log = 0 := by
      have hnew := hfresh i env t hm ht hcreates
      have htickets := hsound.tickets env.deviceCode
      omega
    obtain ⟨hdoors', hatDoor'⟩ := advance_doors heffect hdoors
      (hatDoor t (List.mem_of_getElem? ht)) hunused
      (fun pin code grant clientId hphase =>
        hclaims i env pin code grant clientId hm (hphase ▸ ht))
    refine ⟨hdoors', hatDoor', ?_⟩
    intro u hu code door clientId hgates hissue
    rcases advance_issued heffect hissue with hold | ⟨hcreates, hcode⟩
    · exact hatDoor u hu code door clientId hgates hold
    · -- no other call has a new device code
      have hholds := hsound.holds_le hu code
      have hgate := holds_of_gates hgates
      have hnew := hfresh i env t hm ht hcreates
      rw [hcode] at hnew
      omega

/-- **Run.** If no `claim` redeems a grant that `device_code` created, such a grant yields a
    bearer only to a `token` call with its device code and the client it was issued to. -/
theorem minted_by_its_client (L : Lib) (moves : List (Move Call Env))
    (hfresh : Guarded (grantServer L).step FreshCodes start moves)
    (hclaims : Guarded (grantServer L).step ClaimsDelegated start moves) :
    ClientDoor (after (grantServer L).step start moves).shared.log := by
  have hbound := Guarded.invariant (I := Bound) (fun _ _ h hm => step_bound hm.1 hm.2 h)
    (hfresh.and hclaims) bound_start
  exact hbound.2.1.minted

namespace Fixture

/-- Somebody who saw the user code collects the client's bearer. -/
def claimed : List (Move Call Env) :=
  approved ++
    [.arrive (.claim userCode), .advance 2 (env 8), .advance 2 (env 8), .advance 2 (env 8)]

/-- The device code that a `claim` has found. -/
def claims? : Phase → Option String
  | .claiming _ code => some code
  | _ => none

/-- No region of the run is a `claim`'s second. -/
def ClaimsNone (c : Config Board Phase) : Move Call Env → Prop
  | .arrive _ => True
  | .advance i _ => (c.tasks[i]?).bind claims? = none

instance decidableClaimsNone (c : Config Board Phase) : ∀ m, Decidable (ClaimsNone c m)
  | .arrive _ => inferInstanceAs (Decidable True)
  | .advance i _ => inferInstanceAs (Decidable ((c.tasks[i]?).bind claims? = none))

theorem delegated_of_claimsNone {L : Lib} {moves : List (Move Call Env)}
    (h : Guarded (grantServer L).step ClaimsNone start moves) :
    Guarded (grantServer L).step ClaimsDelegated start moves := by
  apply h.imp
  intro c m hnone i env pin code grant clientId hm ht _ _ _ _
  cases hm
  simp only [ClaimsNone, ht] at hnone
  cases hnone

end Fixture

/-- The theorem at a run in which the client collects its bearer. -/
theorem minted_by_its_client_collected :
    ClientDoor (after (grantServer Fixture.lib).step start Fixture.collected).shared.log :=
  minted_by_its_client Fixture.lib Fixture.collected
    (Fixture.fresh_of_drawsNew (by decide +kernel))
    (Fixture.delegated_of_claimsNone (by decide +kernel))

/-- The user code alone yields the client's bearer. -/
theorem minted_by_user_code :
    Guarded (grantServer Fixture.lib).step FreshCodes start Fixture.claimed ∧
      ¬ ClientDoor (after (grantServer Fixture.lib).step start Fixture.claimed).shared.log := by
  refine ⟨Fixture.fresh_of_drawsNew (by decide +kernel), ?_⟩
  have hissued : .issued Fixture.deviceCode "agent" ∈
      (after (grantServer Fixture.lib).step start Fixture.claimed).shared.log := by
    decide +kernel
  have hminted : .minted Fixture.deviceCode (.claim Fixture.userCode)
      "dgrant:EjRWeJASNFZ4kBI0VniQEjRWeJASNFZ4" Fixture.bearer ∈
      (after (grantServer Fixture.lib).step start Fixture.claimed).shared.log := by
    decide +kernel
  intro h
  exact nomatch h _ _ _ _ _ hissued hminted

end CirisServer.DeviceFlow
