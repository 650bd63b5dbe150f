import Mathlib.Algebra.Order.BigOperators.Group.List
import Mathlib.Algebra.Order.Group.Nat
import CirisServer.ForStd.Ledger
import CirisServer.Native.DeviceGrant

/-!
# A device code is redeemed once

Whatever routes interleave, and at whatever times: a device code is a ticket that lies in the
table, is in the hands of one call at the graph gate, or has become a bearer. No region makes a
second one, so long as the codes drawn are fresh.

Key results:
- `advance_effect`: what one region can do
- `step_tickets`: a move makes no second ticket
- `minted_at_most_once`: every run
-/

namespace CirisServer.DeviceFlow

open Interleave Run

/-! ## What one region can do -/

/-- The device code and the door of a call at the graph gate. -/
def Phase.gates : Phase → Option (String × Door)
  | .gating deviceCode door _ => some (deviceCode, door)
  | _ => none

/-- The call's next region stores a grant, if it stores anything. -/
def Phase.creates : Phase → Bool
  | .called (.deviceCode ..) => true
  | .called (.delegate ..) => true
  | _ => false

/-- The call's next region redeems this device code by this door. `token` has to name the
    client of the grant. -/
def Phase.Redeems (phase : Phase) (deviceCode : String) (door : Door) (clientId : String) : Prop :=
  (phase = .called (.token deviceCode clientId) ∧ door = .token deviceCode clientId) ∨
    ∃ pin, phase = .claiming pin deviceCode ∧ door = .claim pin

/-- The grant is marked approved. -/
def GrantStatus.isApproved : GrantStatus → Bool
  | .approved .. => true
  | _ => false

/-- What a region does to the board, and where it leaves its call. -/
inductive Effect (env : Env) (b : Board) : Phase → Board → Phase → Prop where
  /-- The grants and the log are as they were. -/
  | still {phase t : Phase} {b' : Board} (hgrants : b'.table.grants = b.table.grants)
      (hlog : b'.log = b.log) (ht : t.gates = none) : Effect env b phase b' t
  | issued {phase t : Phase} {grant : DeviceGrant} (hcreates : phase.creates = true)
      (ht : t.gates = none) :
      Effect env b phase
        { table := b.table.insertGrant env.deviceCode grant
          log := .issued env.deviceCode grant.clientId :: b.log } t
  | delegated {phase t : Phase} {grant : DeviceGrant} (hcreates : phase.creates = true)
      (ht : t.gates = none) :
      Effect env b phase
        { table := b.table.insertGrant env.deviceCode grant
          log := .delegated env.deviceCode grant.clientId :: b.log } t
  | emitted {a : Approving} {edge : DelegatesTo} {t : Phase} (ht : t.gates = none) :
      Effect env b (.signing a) { b with log := .emitted a.deviceCode edge :: b.log } t
  /-- `approve` marks the grant. -/
  | approved {a : Approving} {ownerKeyId attestationId : String} {reply : Reply}
      {asked : DelegationConstraints} {grant : DeviceGrant}
      (hgrant : b.table.grants a.deviceCode = some grant) :
      Effect env b (.marking a ownerKeyId attestationId)
        { table := b.table.insertGrant a.deviceCode
            { grant with
              constraints := a.constraints
              status := .approved a.ownerWaId a.ownerRole ownerKeyId }
          log := .approved a.deviceCode asked :: b.log }
        (.told reply)
  /-- `delegate` marks the grant. -/
  | marked {a : Approving} {ownerKeyId attestationId : String} {reply : Reply}
      {grant : DeviceGrant} (hgrant : b.table.grants a.deviceCode = some grant) :
      Effect env b (.marking a ownerKeyId attestationId)
        { b with
          table := b.table.insertGrant a.deviceCode
            { grant with status := .approved a.ownerWaId a.ownerRole ownerKeyId } }
        (.told reply)
  | denied {deviceCode : String} {grant : DeviceGrant} {reply : Reply}
      (hgrant : b.table.grants deviceCode = some grant) :
      Effect env b (.denying deviceCode)
        { table := b.table.insertGrant deviceCode { grant with status := .denied }
          log := .denied deviceCode :: b.log }
        (.told reply)
  /-- An expired grant is forgotten. -/
  | forgot {phase : Phase} {deviceCode userCode : String} {reply : Reply} :
      Effect env b phase { b with table := b.table.forget deviceCode userCode } (.told reply)
  /-- An approved grant is consumed. -/
  | redeemed {phase : Phase} {deviceCode : String} {door : Door} {grant : DeviceGrant}
      {redeemed : Redeemed} (hgrant : b.table.grants deviceCode = some grant)
      (hlive : env.now < grant.expiresAt) (happroved : grant.status.isApproved = true)
      (hredeems : phase.Redeems deviceCode door grant.clientId) :
      Effect env b phase { b with table := b.table.forget deviceCode grant.userCode }
        (.gating deviceCode door redeemed)
  | minted {deviceCode accessToken : String} {door : Door} {redeemed : Redeemed}
      {grant : DelegatedGrant} {reply : Reply} :
      Effect env b (.gating deviceCode door redeemed)
        { b with log := .minted deviceCode door accessToken grant :: b.log } (.told reply)

/-- A refusal changes nothing. -/
theorem Effect.refused {env : Env} {b : Board} {phase : Phase} (refusal : Refusal) :
    Effect env b phase b (.told (.refused refusal)) :=
  .still rfl rfl rfl

/-- What follows a check has its effect, if the check passes. -/
theorem refusedOr_effect {α : Type} {env : Env} {b : Board} {phase : Phase} {x : Except Refusal α}
    {k : α → Board × Phase} (hk : ∀ a, x = .ok a → Effect env b phase (k a).1 (k a).2) :
    Effect env b phase (refusedOr b x k).1 (refusedOr b x k).2 := by
  cases x with
  | error e => exact .refused e
  | ok a => exact hk a rfl

/-- The region of a redemption: nothing, an expired grant forgotten, or an approved one
    consumed. -/
theorem redeem_effect (env : Env) (b : Board) {phase : Phase} (deviceCode : String)
    (clientId : Option String) (unknown : Refusal) (door : Door)
    (hredeems : ∀ grant : DeviceGrant, clientId.any (grant.clientId ≠ ·) = false →
      phase.Redeems deviceCode door grant.clientId) :
    Effect env b phase (b.redeem env.now deviceCode clientId unknown door).1
      (b.redeem env.now deviceCode clientId unknown door).2 := by
  simp only [Board.redeem, Table.redeem]
  cases hgrant : b.table.grants deviceCode with
  | none => exact .refused unknown
  | some grant =>
    by_cases hclient : clientId.any (grant.clientId ≠ ·) = true
    · simp only [hclient, if_true]
      exact .refused _
    · simp only [hclient]
      by_cases hexpired : grant.expiresAt ≤ env.now
      · simp only [hexpired, if_true]
        exact .forgot
      · simp only [hexpired]
        cases hstatus : grant.status with
        | pending => exact .refused _
        | denied => exact .refused _
        | approved ownerWaId ownerRole ownerKeyId =>
          have hlive : env.now < grant.expiresAt := by omega
          have happroved : grant.status.isApproved = true := by rw [hstatus]; rfl
          exact .redeemed hgrant hlive happroved (hredeems grant (Bool.eq_false_iff.mpr hclient))

/-- The region of a call does one of these things. -/
theorem advance_effect (L : Lib) (env : Env) (phase : Phase) (b : Board) :
    Effect env b phase (phase.advance L env b).1 (phase.advance L env b).2 := by
  cases phase with
  | called call =>
    cases call with
    | deviceCode clientId scope =>
      simp only [Phase.advance, Board.deviceCode]
      by_cases hempty : trim clientId = ""
      · simp only [hempty, if_true]
        exact .refused _
      · simp only [hempty, if_false]
        exact refusedOr_effect fun _ _ => .issued rfl rfl
    | delegate bearer req =>
      apply refusedOr_effect
      intro owner _
      apply refusedOr_effect
      intro clientId _
      by_cases hdepth : req.subDelegationDepth.isSome ∧ ¬ req.subDelegation
      · rw [if_pos hdepth]
        exact .refused _
      · rw [if_neg hdepth]
        exact .delegated rfl rfl
    | approve bearer userCode constraints =>
      apply refusedOr_effect
      intro owner _
      cases b.table.userIndex userCode with
      | none => exact .refused _
      | some deviceCode => exact .still rfl rfl rfl
    | deny bearer userCode =>
      apply refusedOr_effect
      intro owner _
      cases b.table.userIndex userCode with
      | none => exact .refused _
      | some deviceCode => exact .still rfl rfl rfl
    | token deviceCode clientId =>
      apply redeem_effect
      intro grant hclient
      have hclient : grant.clientId = clientId := by simpa using hclient
      exact Or.inl ⟨by rw [hclient], by rw [hclient]⟩
    | claim pin =>
      simp only [Phase.advance, Board.claim]
      cases b.table.userIndex (trim pin) with
      | none => exact .refused _
      | some deviceCode => exact .still rfl rfl rfl
  | issuing deviceCode userCode => exact .still rfl rfl rfl
  | delegating userCode a => exact .still rfl rfl rfl
  | approving deviceCode ownerWaId ownerRole asked =>
    simp only [Phase.advance, Board.snapshot]
    cases b.table.grants deviceCode with
    | none => exact .refused _
    | some grant =>
      by_cases hexpired : grant.expiresAt ≤ env.now
      · simp only [hexpired, if_true]
        exact .refused _
      · simp only [hexpired, if_false]
        cases grant.status with
        | pending => exact .still rfl rfl rfl
        | denied => exact .still rfl rfl rfl
        | approved _ _ _ => exact .refused _
  | signing a =>
    apply refusedOr_effect
    intro ownerKeyId _
    dsimp only
    cases env.emit (a.edge ownerKeyId) with
    | error e => exact .refused _
    | ok attestationId => exact .emitted rfl
  | marking a ownerKeyId attestationId =>
    simp only [Phase.advance, Board.mark]
    cases hgrant : b.table.grants a.deviceCode with
    | none => cases a.approver <;> exact .refused _
    | some grant =>
      cases a.approver with
      | approve asked => exact .approved hgrant
      | delegate pin scope subDelegation depth => exact .marked hgrant
  | denying deviceCode =>
    simp only [Phase.advance, Board.setDenied]
    cases hgrant : b.table.grants deviceCode with
    | none => exact .refused _
    | some grant => exact .denied hgrant
  | claiming pin deviceCode =>
    apply redeem_effect
    intro grant _
    exact Or.inr ⟨pin, rfl, rfl⟩
  | gating deviceCode door redeemed =>
    simp only [Phase.advance, Board.mint]
    cases env.reachable redeemed.ownerKeyId redeemed.clientId redeemed.scope delegationDepth with
    | error e => exact .refused _
    | ok reachable =>
      cases reachable with
      | false => exact .refused _
      | true => exact .minted
  | told reply => exact .still rfl rfl rfl

/-! ## The table -/

/-- What is left of the table once a grant is forgotten. -/
theorem grants_of_forget {table : Table} {deviceCode userCode code : String} {grant : DeviceGrant}
    (h : (table.forget deviceCode userCode).grants code = some grant) :
    table.grants code = some grant := by
  by_cases hcode : code = deviceCode
  · simp [Table.forget, hcode] at h
  · simpa only [Table.forget, Function.update_of_ne hcode] using h

/-- A grant put into the table. -/
theorem grants_of_insert {table : Table} {deviceCode code : String} {new grant : DeviceGrant}
    (h : (table.insertGrant deviceCode new).grants code = some grant) :
    (code = deviceCode ∧ grant = new) ∨ table.grants code = some grant := by
  by_cases hcode : code = deviceCode
  · rw [hcode] at h
    simp only [Table.insertGrant, Function.update_self, Option.some.injEq] at h
    exact Or.inl ⟨hcode, h.symm⟩
  · simp only [Table.insertGrant, Function.update_of_ne hcode] at h
    exact Or.inr h

@[simp] theorem grants_insert_self (table : Table) (deviceCode : String) (grant : DeviceGrant) :
    (table.insertGrant deviceCode grant).grants deviceCode = some grant :=
  Function.update_self ..

/-! ## What a region stores and logs -/

section Effect

variable {env : Env} {b b' : Board} {phase t : Phase}

/-- A stored grant is the one there was but for its status and what an approval under way
    approves, or it is new. -/
theorem Effect.stored (he : Effect env b phase b' t) {code : String} {grant : DeviceGrant}
    (h : b'.table.grants code = some grant) :
    (∃ old status, b.table.grants code = some old ∧ grant = { old with status := status }) ∨
    (∃ a ownerKeyId attestationId old status,
      phase = .marking a ownerKeyId attestationId ∧ b.table.grants code = some old ∧
        grant = { old with constraints := a.constraints, status := status }) ∨
    (phase.creates = true ∧ env.deviceCode = code) := by
  cases he with
  | still hgrants hlog ht => exact Or.inl ⟨grant, grant.status, hgrants ▸ h, rfl⟩
  | issued hcreates ht =>
    rcases grants_of_insert h with ⟨hcode, -⟩ | hsame
    · exact Or.inr (Or.inr ⟨hcreates, hcode.symm⟩)
    · exact Or.inl ⟨grant, grant.status, hsame, rfl⟩
  | delegated hcreates ht =>
    rcases grants_of_insert h with ⟨hcode, -⟩ | hsame
    · exact Or.inr (Or.inr ⟨hcreates, hcode.symm⟩)
    · exact Or.inl ⟨grant, grant.status, hsame, rfl⟩
  | emitted ht => exact Or.inl ⟨grant, grant.status, h, rfl⟩
  | approved hold =>
    rcases grants_of_insert h with ⟨rfl, rfl⟩ | hsame
    · exact Or.inr (Or.inl ⟨_, _, _, _, _, rfl, hold, rfl⟩)
    · exact Or.inl ⟨grant, grant.status, hsame, rfl⟩
  | marked hold =>
    rcases grants_of_insert h with ⟨rfl, rfl⟩ | hsame
    · exact Or.inl ⟨_, _, hold, rfl⟩
    · exact Or.inl ⟨grant, grant.status, hsame, rfl⟩
  | denied hold =>
    rcases grants_of_insert h with ⟨rfl, rfl⟩ | hsame
    · exact Or.inl ⟨_, _, hold, rfl⟩
    · exact Or.inl ⟨grant, grant.status, hsame, rfl⟩
  | forgot => exact Or.inl ⟨grant, grant.status, grants_of_forget h, rfl⟩
  | redeemed => exact Or.inl ⟨grant, grant.status, grants_of_forget h, rfl⟩
  | minted => exact Or.inl ⟨grant, grant.status, h, rfl⟩

/-- What a region logs, by the phase it starts from. -/
inductive Phase.Logs (env : Env) (b b' : Board) : Phase → GrantEvent → Prop where
  | issued {phase : Phase} {grant : DeviceGrant} (hcreates : phase.creates = true)
      (hgrant : b'.table.grants env.deviceCode = some grant) :
      phase.Logs env b b' (.issued env.deviceCode grant.clientId)
  | delegated {phase : Phase} {grant : DeviceGrant} (hcreates : phase.creates = true)
      (hgrant : b'.table.grants env.deviceCode = some grant) :
      phase.Logs env b b' (.delegated env.deviceCode grant.clientId)
  | emitted {a : Approving} {edge : DelegatesTo} :
      Phase.Logs env b b' (.signing a) (.emitted a.deviceCode edge)
  | approved {a : Approving} {ownerKeyId attestationId : String} {asked : DelegationConstraints}
      {grant : DeviceGrant} (hgrant : b.table.grants a.deviceCode = some grant) :
      Phase.Logs env b b' (.marking a ownerKeyId attestationId) (.approved a.deviceCode asked)
  | denied {deviceCode : String} {grant : DeviceGrant}
      (hgrant : b.table.grants deviceCode = some grant) :
      Phase.Logs env b b' (.denying deviceCode) (.denied deviceCode)
  | minted {deviceCode accessToken : String} {door : Door} {redeemed : Redeemed}
      {grant : DelegatedGrant} :
      Phase.Logs env b b' (.gating deviceCode door redeemed)
        (.minted deviceCode door accessToken grant)

/-- An event of the log was there before the region, or the region logged it. -/
theorem Effect.logged (he : Effect env b phase b' t) {e : GrantEvent} (h : e ∈ b'.log) :
    e ∈ b.log ∨ phase.Logs env b b' e := by
  cases he with
  | still hgrants hlog ht => exact Or.inl (hlog ▸ h)
  | issued hcreates ht =>
    rcases List.mem_cons.mp h with rfl | hold
    · exact Or.inr (.issued hcreates (grants_insert_self ..))
    · exact Or.inl hold
  | delegated hcreates ht =>
    rcases List.mem_cons.mp h with rfl | hold
    · exact Or.inr (.delegated hcreates (grants_insert_self ..))
    · exact Or.inl hold
  | emitted ht =>
    rcases List.mem_cons.mp h with rfl | hold
    · exact Or.inr .emitted
    · exact Or.inl hold
  | approved hgrant =>
    rcases List.mem_cons.mp h with rfl | hold
    · exact Or.inr (.approved hgrant)
    · exact Or.inl hold
  | marked => exact Or.inl h
  | denied hgrant =>
    rcases List.mem_cons.mp h with rfl | hold
    · exact Or.inr (.denied hgrant)
    · exact Or.inl hold
  | forgot => exact Or.inl h
  | redeemed => exact Or.inl h
  | minted =>
    rcases List.mem_cons.mp h with rfl | hold
    · exact Or.inr .minted
    · exact Or.inl hold

end Effect

/-! ## Tickets -/

/-- The device code that the event put into the table. -/
def GrantEvent.creates? : GrantEvent → Option String
  | .issued deviceCode _ => some deviceCode
  | .delegated deviceCode _ => some deviceCode
  | _ => none

/-- The device code that `deny` answered 200 for. -/
def GrantEvent.denies? : GrantEvent → Option String
  | .denied deviceCode => some deviceCode
  | _ => none

/-- The device code that a bearer was minted for. -/
def GrantEvent.mints? : GrantEvent → Option String
  | .minted deviceCode _ _ _ => some deviceCode
  | _ => none

/-- How often this device code was put into the table. -/
def created (code : String) (log : List GrantEvent) : Nat :=
  log.countP fun e => e.creates? = some code

/-- How many bearers were minted for it. -/
def bearers (code : String) (log : List GrantEvent) : Nat :=
  log.countP fun e => e.mints? = some code

/-- Is it in the table? -/
def Table.stored (code : String) (t : Table) : Nat := if (t.grants code).isSome then 1 else 0

/-- Is the call at the graph gate with it? -/
def Phase.holds (code : String) (t : Phase) : Nat :=
  if (t.gates.map Prod.fst) = some code then 1 else 0

section Tickets

variable {code : String}

@[simp] theorem created_cons (e : GrantEvent) (log : List GrantEvent) :
    created code (e :: log) = created code log + if e.creates? = some code then 1 else 0 := by
  simp [created, List.countP_cons]

@[simp] theorem bearers_cons (e : GrantEvent) (log : List GrantEvent) :
    bearers code (e :: log) = bearers code log + if e.mints? = some code then 1 else 0 := by
  simp [bearers, List.countP_cons]

theorem stored_of_some {t : Table} {grant : DeviceGrant} (h : t.grants code = some grant) :
    t.stored code = 1 := by
  simp [Table.stored, h]

/-- Putting a grant back where one was leaves as many. -/
theorem stored_replace {t : Table} {deviceCode : String} {old : DeviceGrant}
    (h : t.grants deviceCode = some old) (grant : DeviceGrant) :
    (t.insertGrant deviceCode grant).stored code = t.stored code := by
  by_cases hcode : deviceCode = code
  · simp [Table.stored, Table.insertGrant, ← hcode, h]
  · simp [Table.stored, Table.insertGrant, Function.update_of_ne (Ne.symm hcode)]

@[simp] theorem stored_insertGrant (deviceCode : String) (grant : DeviceGrant) (t : Table) :
    (t.insertGrant deviceCode grant).stored code =
      if deviceCode = code then 1 else t.stored code := by
  simp only [Table.stored, Table.insertGrant, Function.update_apply, eq_comm (a := code)]
  split <;> rfl

@[simp] theorem stored_forget (deviceCode userCode : String) (t : Table) :
    (t.forget deviceCode userCode).stored code = if deviceCode = code then 0 else t.stored code := by
  simp only [Table.stored, Table.forget, Function.update_apply, eq_comm (a := code)]
  split <;> rfl

theorem holds_of_gates_none {t : Phase} (ht : t.gates = none) : t.holds code = 0 := by
  simp [Phase.holds, ht]

/-- A call at the gate holds its device code. -/
theorem holds_of_gates {t : Phase} {door : Door} (ht : t.gates = some (code, door)) :
    t.holds code = 1 := by
  simp [Phase.holds, ht]

@[simp] theorem holds_told (reply : Reply) : (Phase.told reply).holds code = 0 := rfl

@[simp] theorem holds_gating (deviceCode : String) (door : Door) (redeemed : Redeemed) :
    (Phase.gating deviceCode door redeemed).holds code = if deviceCode = code then 1 else 0 := by
  simp [Phase.holds, Phase.gates]

/-- **Step.** No region makes a second ticket of a device code. -/
theorem advance_tickets {env : Env} {b b' : Board} {phase t : Phase}
    (he : Effect env b phase b' t) :
    b'.table.stored code + bearers code b'.log + t.holds code + created code b.log ≤
      b.table.stored code + bearers code b.log + phase.holds code + created code b'.log := by
  cases he with
  | still hgrants hlog ht =>
    have hstored : b'.table.stored code = b.table.stored code := by
      simp only [Table.stored, hgrants]
    rw [holds_of_gates_none ht, hstored, hlog]
    omega
  | issued hcreates ht =>
    simp only [stored_insertGrant, created_cons, bearers_cons, holds_of_gates_none ht,
      GrantEvent.creates?, GrantEvent.mints?, Option.some.injEq, reduceCtorEq, if_false]
    split_ifs <;> omega
  | delegated hcreates ht =>
    simp only [stored_insertGrant, created_cons, bearers_cons, holds_of_gates_none ht,
      GrantEvent.creates?, GrantEvent.mints?, Option.some.injEq, reduceCtorEq, if_false]
    split_ifs <;> omega
  | emitted ht =>
    simp only [created_cons, bearers_cons, holds_of_gates_none ht, GrantEvent.creates?,
      GrantEvent.mints?, reduceCtorEq, if_false]
    omega
  | approved hgrant =>
    -- the grant was in the table before
    simp only [stored_replace hgrant, created_cons, bearers_cons, holds_told, GrantEvent.creates?,
      GrantEvent.mints?, reduceCtorEq, if_false]
    omega
  | marked hgrant =>
    simp only [stored_replace hgrant, holds_told]
    omega
  | denied hgrant =>
    simp only [stored_replace hgrant, created_cons, bearers_cons, holds_told, GrantEvent.creates?,
      GrantEvent.mints?, reduceCtorEq, if_false]
    omega
  | forgot =>
    simp only [stored_forget, holds_told]
    split_ifs <;> omega
  | @redeemed _ deviceCode _ _ _ hgrant =>
    -- the ticket goes from the table into the call's hands
    simp only [stored_forget, holds_gating]
    by_cases hcode : deviceCode = code
    · rw [if_pos hcode, if_pos hcode, ← hcode, stored_of_some hgrant]
      omega
    · rw [if_neg hcode, if_neg hcode]
      omega
  | minted =>
    simp only [created_cons, bearers_cons, holds_told, holds_gating, GrantEvent.creates?,
      GrantEvent.mints?, Option.some.injEq, reduceCtorEq, if_false]
    omega

end Tickets

/-! ## Runs -/

/-- A device code has no more tickets than it was put into the table. -/
def Tickets (c : Config Board Phase) : Prop :=
  ∀ code, c.shared.table.stored code + bearers code c.shared.log +
    (c.tasks.map (·.holds code)).sum ≤ created code c.shared.log

/-- The device codes drawn are new. -/
def FreshCodes (c : Config Board Phase) (m : Move Call Env) : Prop :=
  ∀ i env t, m = .advance i env → c.tasks[i]? = some t → t.creates = true →
    created env.deviceCode c.shared.log = 0

variable {L : Lib}

/-- **Step.** A move makes no second ticket. -/
theorem step_tickets {c : Config Board Phase} {m : Move Call Env} (h : Tickets c) :
    Tickets ((grantServer L).step c m) := by
  intro code
  have hbudget := (grantServer L).step_budget (m := m) (f := Phase.holds code) (h code)
    (b := fun b => created code b.log) (w := fun b => b.table.stored code + bearers code b.log)
  apply hbudget
  · intro call _
    exact Nat.le_refl _
  · intro i env t _ _
    exact advance_tickets (advance_effect L env t c.shared)

/-- A region puts its own new device code into the table, or none. -/
theorem advance_created {env : Env} {b b' : Board} {phase t : Phase}
    (he : Effect env b phase b' t) (code : String) :
    created code b'.log = created code b.log ∨
      (phase.creates = true ∧ env.deviceCode = code ∧
        created code b'.log = created code b.log + 1) := by
  cases he with
  | still hgrants hlog ht => exact Or.inl (by rw [hlog])
  | issued hcreates ht =>
    by_cases hcode : env.deviceCode = code
    · exact Or.inr ⟨hcreates, hcode, by simp [GrantEvent.creates?, hcode]⟩
    · exact Or.inl (by simp [GrantEvent.creates?, hcode])
  | delegated hcreates ht =>
    by_cases hcode : env.deviceCode = code
    · exact Or.inr ⟨hcreates, hcode, by simp [GrantEvent.creates?, hcode]⟩
    · exact Or.inl (by simp [GrantEvent.creates?, hcode])
  | emitted => exact Or.inl (by simp [GrantEvent.creates?])
  | approved => exact Or.inl (by simp [GrantEvent.creates?])
  | marked => exact Or.inl rfl
  | denied => exact Or.inl (by simp [GrantEvent.creates?])
  | forgot => exact Or.inl rfl
  | redeemed => exact Or.inl rfl
  | minted => exact Or.inl (by simp [GrantEvent.creates?])

/-- Each device code is put into the table once, and has one ticket at most. -/
structure Sound (c : Config Board Phase) : Prop where
  tickets : Tickets c
  once : ∀ code, created code c.shared.log ≤ 1

theorem sound_start : Sound start where
  tickets _ := Nat.le_refl _
  once _ := Nat.zero_le _

/-- **Step.** A move that draws a new code puts no code into the table twice. -/
theorem step_sound {c : Config Board Phase} {m : Move Call Env} (hfresh : FreshCodes c m)
    (h : Sound c) : Sound ((grantServer L).step c m) := by
  refine ⟨step_tickets h.tickets, ?_⟩
  apply System.step_shared (J := fun b : Board => ∀ code, created code b.log ≤ 1) _ h.once
  · intro call _
    exact h.once
  · intro i env t hm ht code
    have hold := h.once code
    rcases advance_created (advance_effect L env t c.shared) code with
      hsame | ⟨hcreates, hcode, hmore⟩
    · show created code (t.advance L env c.shared).1.log ≤ 1
      omega
    · have hnew := hfresh i env t hm ht hcreates
      rw [hcode] at hnew
      show created code (t.advance L env c.shared).1.log ≤ 1
      omega

/-- A call that holds the device code has its only ticket. -/
theorem Sound.holds_le {c : Config Board Phase} (h : Sound c) {t : Phase} (ht : t ∈ c.tasks)
    (code : String) :
    c.shared.table.stored code + bearers code c.shared.log + t.holds code ≤
      created code c.shared.log := by
  have hsum : t.holds code ≤ (c.tasks.map (·.holds code)).sum :=
    List.le_sum_of_mem (List.mem_map.mpr ⟨t, ht, rfl⟩)
  have htickets := h.tickets code
  omega

/-- **Run.** Whatever routes interleave, a device code yields one bearer at most. -/
theorem Sound.bearers_le_one {c : Config Board Phase} (h : Sound c) (code : String) :
    bearers code c.shared.log ≤ 1 := by
  have htickets := h.tickets code
  have honce := h.once code
  omega

namespace Fixture

def lib : Lib where
  delegateSeedDir := "/seed/delegates"
  debug s := "\"" ++ s ++ "\""

def deviceCode : String := "3q2-7w_AAEBAgMEBQYHCAkKCwwNDg8QERITFBUWFxg"

def userCode : String := "KM4P-7XQZ"

/-- A step at `now` seconds: the owner's session is `sess`, and every answer is good. -/
def env (now : Nat) : Env where
  now
  deviceCode
  userCode
  accessToken := "dgrant:EjRWeJASNFZ4kBI0VniQEjRWeJASNFZ4"
  resolveBearer token :=
    .ok (if token = "sess" then some ⟨"wa-owner", .systemAdmin, [.fullAccess], none⟩ else none)
  registered keyId := .ok (keyId = "agent")
  createSeedDir := .ok ()
  mint label := .ok label
  registerMinted _ := .ok ()
  userSigner := .ok (some "owner-key")
  emit _ := .ok "edge-1"
  reachable _ _ _ _ := .ok true

/-- `agent` asks for a device code. -/
def asked : List (Move Call Env) :=
  [.arrive (.deviceCode "agent" none), .advance 0 (env 0), .advance 0 (env 0)]

/-- The owner approves it; the call has the index and the snapshot behind it. -/
def approving : List (Move Call Env) :=
  asked ++ [.arrive (.approve (some "sess") userCode none), .advance 1 (env 1), .advance 1 (env 1)]

/-- The owner's signer signs, and the grant is marked. -/
def approved : List (Move Call Env) := approving ++ [.advance 1 (env 2), .advance 1 (env 3)]

/-- The client collects its bearer. -/
def collected : List (Move Call Env) :=
  approved ++ [.arrive (.token deviceCode "agent"), .advance 2 (env 8), .advance 2 (env 8)]

/-- What `agent` may do for the owner. -/
def bearer : DelegatedGrant :=
  ⟨"wa-owner", .systemAdmin, "owner-key", "agent", "owner:act-on-behalf", 3608, 8, none, none, {}⟩

/-- Each region of the run has a new device code at hand where it needs one. -/
def DrawsNew (c : Config Board Phase) : Move Call Env → Prop
  | .arrive _ => True
  | .advance i env =>
    (c.tasks[i]?).any Phase.creates = true → created env.deviceCode c.shared.log = 0

instance decidableDrawsNew (c : Config Board Phase) : ∀ m, Decidable (DrawsNew c m)
  | .arrive _ => inferInstanceAs (Decidable True)
  | .advance i env => inferInstanceAs (Decidable
      ((c.tasks[i]?).any Phase.creates = true → created env.deviceCode c.shared.log = 0))

theorem fresh_of_drawsNew {L : Lib} {moves : List (Move Call Env)}
    (h : Guarded (grantServer L).step DrawsNew start moves) :
    Guarded (grantServer L).step FreshCodes start moves := by
  apply h.imp
  intro c m hnew i env t hm ht hcreates
  cases hm
  apply hnew
  rw [ht]
  exact hcreates

end Fixture

end CirisServer.DeviceFlow
