import CirisServer.Spec.DeviceGrantInv

/-!
# The edge behind a bearer

The edge that an approval emits expires with its grant, a grant's lifetime after the device code
was drawn. The bearer expires an hour after it is minted, whenever that is: with grants that live
for ten minutes it outlives the edge. The result holds for runs in which each bearer is minted an
hour before its grant expires.

Key results:
- `advance_timed`: what one region knows of the edges' times
- `bearers_outlived`: every run
-/

namespace CirisServer.DeviceFlow

open Interleave Run

/-! ## When codes were drawn -/

/-- The server, and when each device code in the table was drawn. -/
structure Clocked where
  config : Config Board Phase
  drawn : List (String × Nat)

/-- The codes drawn, once a region has turned `b` into `b'`. -/
def drawnAfter (env : Env) (b b' : Board) (drawn : List (String × Nat)) : List (String × Nat) :=
  if created env.deviceCode b.log < created env.deviceCode b'.log then
    (env.deviceCode, env.now) :: drawn
  else drawn

/-- A move of the server, with its clock in sight. -/
def clockedStep (L : Lib) (s : Clocked) (m : Move Call Env) : Clocked where
  config := (grantServer L).step s.config m
  drawn :=
    match m with
    | .arrive _ => s.drawn
    | .advance _ env =>
      drawnAfter env s.config.shared ((grantServer L).step s.config m).shared s.drawn

def startClocked : Clocked := ⟨start, []⟩

/-- Each bearer is minted `DELEGATED_TTL_SECS` before the grant's lifetime is over. -/
def MintsEarly (L : Lib) (s : Clocked) (m : Move Call Env) : Prop :=
  ∀ i env deviceCode door r drawnAt, m = .advance i env →
    s.config.tasks[i]? = some (.gating deviceCode door r) →
    env.reachable r.ownerKeyId r.clientId r.scope delegationDepth = .ok true →
    (deviceCode, drawnAt) ∈ s.drawn → env.now + delegatedTtlSecs ≤ drawnAt + L.grantTtlSecs

/-! ## The property -/

/-- An edge was emitted for this device code. -/
def Signed (log : List GrantEvent) (code : String) : Prop := ∃ edge, .emitted code edge ∈ log

/-- Each bearer is backed by an edge, and no edge that backs it expires before it does. -/
def Outlived (log : List GrantEvent) : Prop :=
  ∀ newer older code door accessToken grant,
    log = newer ++ .minted code door accessToken grant :: older →
    Signed older code ∧ ∀ edge, .emitted code edge ∈ older → grant.expiresAt ≤ edge.expiresAt

/-- A bearer that is answered was minted, and the lifetime reported is the bearer's. -/
def Reported (log : List GrantEvent) (t : Phase) : Prop :=
  ∀ accessToken expiresIn grant, t = .told (.bearer accessToken expiresIn grant) →
    grant.expiresAt = grant.issuedAt + expiresIn ∧
      ∃ code door, .minted code door accessToken grant ∈ log

theorem Signed.cons {log : List GrantEvent} {code : String} (e : GrantEvent) (h : Signed log code) :
    Signed (e :: log) code :=
  h.imp fun _ => List.mem_cons_of_mem e

theorem Outlived.cons {log : List GrantEvent} {e : GrantEvent} (h : Outlived log)
    (he : ∀ code door accessToken grant, e = .minted code door accessToken grant →
      Signed log code ∧ ∀ edge, .emitted code edge ∈ log → grant.expiresAt ≤ edge.expiresAt) :
    Outlived (e :: log) := by
  intro newer older code door accessToken grant hlog
  cases newer with
  | nil =>
    obtain ⟨he', rfl⟩ := List.cons.inj hlog
    exact he code door accessToken grant he'
  | cons e' newer => exact h newer older code door accessToken grant (List.cons.inj hlog).2

/-! ## One region -/

/-- The time is the end of a grant with this device code. -/
def Lasts (L : Lib) (drawn : List (String × Nat)) (code : String) (time : Nat) : Prop :=
  ∃ drawnAt, (code, drawnAt) ∈ drawn ∧ time = drawnAt + L.grantTtlSecs

/-- What the board knows of its times. -/
structure Timed (L : Lib) (drawn : List (String × Nat)) (b : Board) : Prop where
  grants : ∀ code grant, b.table.grants code = some grant → Lasts L drawn code grant.expiresAt
  approved : ∀ code grant, b.table.grants code = some grant → grant.status.isApproved = true →
    Signed b.log code
  edges : ∀ code edge, .emitted code edge ∈ b.log → Lasts L drawn code edge.expiresAt
  outlived : Outlived b.log

/-- What a call knows of them. -/
def Phase.Timed (L : Lib) (drawn : List (String × Nat)) (b : Board) : Phase → Prop
  | .delegating _ a | .signing a => Lasts L drawn a.deviceCode a.expiresAt
  | .marking a _ _ => Lasts L drawn a.deviceCode a.expiresAt ∧ Signed b.log a.deviceCode
  | .gating code _ _ => Signed b.log code
  | .told reply => Reported b.log (.told reply)
  | _ => True

variable {L : Lib} {drawn drawn' : List (String × Nat)} {b b' : Board}

theorem Lasts.mono {code : String} {time : Nat} (hdrawn : drawn ⊆ drawn')
    (h : Lasts L drawn code time) : Lasts L drawn' code time :=
  h.imp fun _ hold => ⟨hdrawn hold.1, hold.2⟩

/-- What is known stays known, as codes are drawn and the log grows. -/
theorem Phase.Timed.mono {t : Phase} (hdrawn : drawn ⊆ drawn') (hlog : b.log ⊆ b'.log)
    (h : t.Timed L drawn b) : t.Timed L drawn' b' := by
  have hsigned {code : String} (h : Signed b.log code) : Signed b'.log code :=
    h.imp fun _ hold => hlog hold
  cases t with
  | delegating userCode a => exact Lasts.mono hdrawn h
  | signing a => exact Lasts.mono hdrawn h
  | marking a ownerKeyId attestationId => exact ⟨h.1.mono hdrawn, hsigned h.2⟩
  | gating code door r => exact hsigned h
  | told reply =>
    intro accessToken expiresIn grant ht
    obtain ⟨hreport, code, door, hminted⟩ := h accessToken expiresIn grant ht
    exact ⟨hreport, code, door, hlog hminted⟩
  | _ => trivial

/-- An edge expires with its approval. -/
theorem expiresAt_edge (ownerKeyId : String) (a : Approving) :
    (a.edge ownerKeyId).expiresAt = a.expiresAt := by
  have hbounds (c : DelegationConstraints) (edge : DelegatesTo) :
      (withConstraints c edge).expiresAt = edge.expiresAt := by
    unfold withConstraints
    split <;> rfl
  have hdepth (sub : Bool) (depth : Option Nat) (edge : DelegatesTo) :
      (withSubDelegationDepth sub depth edge).expiresAt = edge.expiresAt := by
    unfold withSubDelegationDepth
    split <;> rfl
  unfold Approving.edge
  cases a.approver with
  | approve asked => exact hbounds ..
  | delegate pin scope sub depth => exact (hdepth ..).trans (hbounds ..)

theorem Timed.mono (hdrawn : drawn ⊆ drawn') (h : Timed L drawn b) : Timed L drawn' b where
  grants code grant hgrant := (h.grants code grant hgrant).mono hdrawn
  approved := h.approved
  edges code edge hedge := (h.edges code edge hedge).mono hdrawn
  outlived := h.outlived

/-- A grant put into the table. -/
theorem Timed.insertGrant {deviceCode : String} {new : DeviceGrant} (h : Timed L drawn b)
    (hlasts : Lasts L drawn deviceCode new.expiresAt)
    (hsigned : new.status.isApproved = true → Signed b.log deviceCode) :
    Timed L drawn { b with table := b.table.insertGrant deviceCode new } where
  grants code grant hgrant := by
    by_cases hcode : code = deviceCode
    · rw [hcode] at hgrant ⊢
      simp only [Table.insertGrant, Function.update_self, Option.some.injEq] at hgrant
      exact hgrant ▸ hlasts
    · simp only [Table.insertGrant, Function.update_of_ne hcode] at hgrant
      exact h.grants code grant hgrant
  approved code grant hgrant happroved := by
    by_cases hcode : code = deviceCode
    · rw [hcode] at hgrant ⊢
      simp only [Table.insertGrant, Function.update_self, Option.some.injEq] at hgrant
      exact hsigned (hgrant ▸ happroved)
    · simp only [Table.insertGrant, Function.update_of_ne hcode] at hgrant
      exact h.approved code grant hgrant happroved
  edges := h.edges
  outlived := h.outlived

/-- A grant taken out of it. -/
theorem Timed.forget (h : Timed L drawn b) (deviceCode userCode : String) :
    Timed L drawn { b with table := b.table.forget deviceCode userCode } where
  grants code grant hgrant := h.grants code grant (grants_of_forget hgrant)
  approved code grant hgrant := h.approved code grant (grants_of_forget hgrant)
  edges := h.edges
  outlived := h.outlived

theorem Timed.insertIndex (h : Timed L drawn b) (userCode deviceCode : String) :
    Timed L drawn { b with table := b.table.insertIndex userCode deviceCode } :=
  ⟨h.grants, h.approved, h.edges, h.outlived⟩

/-- An event that is logged. -/
theorem Timed.cons {e : GrantEvent} (h : Timed L drawn b)
    (hedge : ∀ code edge, e = .emitted code edge → Lasts L drawn code edge.expiresAt)
    (hminted : ∀ code door accessToken grant, e = .minted code door accessToken grant →
      Signed b.log code ∧ ∀ edge, .emitted code edge ∈ b.log → grant.expiresAt ≤ edge.expiresAt) :
    Timed L drawn { b with log := e :: b.log } where
  grants := h.grants
  approved code grant hgrant happroved := (h.approved code grant hgrant happroved).cons e
  edges code edge hmem := by
    rcases List.mem_cons.mp hmem with heq | hold
    · exact hedge code edge heq.symm
    · exact h.edges code edge hold
  outlived := h.outlived.cons hminted

/-- The board and the call after a region know their times. -/
def Keeps (L : Lib) (env : Env) (drawn : List (String × Nat)) (b : Board) (s : Board × Phase) :
    Prop :=
  Timed L (drawnAfter env b s.1 drawn) s.1 ∧ s.2.Timed L (drawnAfter env b s.1 drawn) s.1

variable {env : Env}

theorem subset_drawnAfter : drawn ⊆ drawnAfter env b b' drawn := by
  unfold drawnAfter
  split
  · exact List.subset_cons_self _ _
  · exact List.Subset.refl _

/-- A region that draws no code. -/
theorem Keeps.of_created {s : Board × Phase}
    (hcreated : created env.deviceCode s.1.log = created env.deviceCode b.log)
    (hboard : Timed L drawn s.1) (hphase : s.2.Timed L drawn s.1) : Keeps L env drawn b s := by
  have hsame : drawnAfter env b s.1 drawn = drawn := if_neg (by omega)
  unfold Keeps
  rw [hsame]
  exact ⟨hboard, hphase⟩

theorem reported_of_not_bearer {log : List GrantEvent} {reply : Reply}
    (h : ∀ accessToken expiresIn grant, reply ≠ .bearer accessToken expiresIn grant) :
    Reported log (.told reply) := by
  intro accessToken expiresIn grant ht
  exact absurd (Phase.told.inj ht) (h accessToken expiresIn grant)

/-- A refusal. -/
theorem Keeps.refused (h : Timed L drawn b) (refusal : Refusal) :
    Keeps L env drawn b (b, .told (.refused refusal)) :=
  .of_created rfl h (reported_of_not_bearer fun _ _ _ => nofun)

/-- What follows a check keeps the times, if the check passes. -/
theorem Keeps.refusedOr {α : Type} (h : Timed L drawn b) {x : Except Refusal α}
    {k : α → Board × Phase} (hk : ∀ a, x = .ok a → Keeps L env drawn b (k a)) :
    Keeps L env drawn b (refusedOr b x k) := by
  cases x with
  | error e => exact .refused h e
  | ok a => exact hk a rfl

/-- A region that stores a grant under the code it draws. -/
theorem Keeps.stores (h : Timed L drawn b) {grant : DeviceGrant} {e : GrantEvent} {t : Phase}
    (he : e.creates? = some env.deviceCode)
    (hexpires : grant.expiresAt = env.now + L.grantTtlSecs) (hpending : grant.status = .pending)
    (ht : t.Timed L ((env.deviceCode, env.now) :: drawn)
      ⟨b.table.insertGrant env.deviceCode grant, e :: b.log⟩) :
    Keeps L env drawn b (⟨b.table.insertGrant env.deviceCode grant, e :: b.log⟩, t) := by
  have hdrawn : drawnAfter env b ⟨b.table.insertGrant env.deviceCode grant, e :: b.log⟩ drawn =
      (env.deviceCode, env.now) :: drawn := by
    apply if_pos
    simp [he]
  have hlasts : Lasts L ((env.deviceCode, env.now) :: drawn) env.deviceCode grant.expiresAt :=
    ⟨env.now, List.mem_cons_self, hexpires⟩
  have hboard := (h.mono (List.subset_cons_self _ _)).insertGrant hlasts
    (by rw [hpending]; nofun)
  unfold Keeps
  rw [hdrawn]
  refine ⟨hboard.cons ?_ ?_, ht⟩
  · rintro code edge rfl
    cases he
  · rintro code door accessToken bearer rfl
    cases he

/-- The region in which a grant is consumed. -/
theorem redeem_timed (h : Timed L drawn b) (deviceCode : String) (clientId : Option String)
    (unknown : Refusal) (door : Door) :
    Keeps L env drawn b (b.redeem env.now deviceCode clientId unknown door) := by
  simp only [Board.redeem, Table.redeem]
  cases hgrant : b.table.grants deviceCode with
  | none => exact .refused h unknown
  | some grant =>
    dsimp only
    by_cases hclient : clientId.any (grant.clientId ≠ ·) = true
    · rw [if_pos hclient]
      exact .refused h _
    rw [if_neg hclient]
    by_cases hexpired : grant.expiresAt ≤ env.now
    · rw [if_pos hexpired]
      exact .of_created rfl (h.forget ..) (reported_of_not_bearer fun _ _ _ heq => by cases heq)
    rw [if_neg hexpired]
    cases hstatus : grant.status with
    | pending => exact .refused h _
    | denied => exact .refused h _
    | approved ownerWaId ownerRole ownerKeyId =>
      -- the gate mints for it later, when the grant is gone from the table
      have hsigned := h.approved deviceCode grant hgrant (by rw [hstatus]; rfl)
      exact .of_created rfl (h.forget ..) hsigned

/-- The gate, which mints early or not at all. -/
theorem mint_timed {deviceCode : String} {door : Door} {r : Redeemed} (h : Timed L drawn b)
    (hsigned : Signed b.log deviceCode)
    (hearly : ∀ drawnAt,
      env.reachable r.ownerKeyId r.clientId r.scope delegationDepth = .ok true →
      (deviceCode, drawnAt) ∈ drawn → env.now + delegatedTtlSecs ≤ drawnAt + L.grantTtlSecs) :
    Keeps L env drawn b (b.mint env deviceCode door r) := by
  simp only [Board.mint]
  cases hgraph : env.reachable r.ownerKeyId r.clientId r.scope delegationDepth with
  | error e => exact .refused h _
  | ok reachable =>
    cases reachable with
    | false => exact .refused h _
    | true =>
      refine .of_created (by simp [GrantEvent.creates?]) (h.cons ?_ ?_) ?_
      · intro code edge heq
        cases heq
      · intro code door' accessToken grant heq
        obtain ⟨rfl, -, -, rfl⟩ := GrantEvent.minted.inj heq
        refine ⟨hsigned, fun edge hedge => ?_⟩
        -- an edge that backs it lasts as long as a grant drawn at some time with this code
        obtain ⟨drawnAt, hdrawn, hexpires⟩ := h.edges _ edge hedge
        rw [hexpires]
        exact hearly drawnAt hgraph hdrawn
      · intro accessToken expiresIn grant ht
        obtain ⟨rfl, rfl, rfl⟩ := Reply.bearer.inj (Phase.told.inj ht)
        exact ⟨rfl, deviceCode, door, List.mem_cons_self⟩

/-- The first region of a call: a code is drawn here or nowhere. -/
theorem called_timed (h : Timed L drawn b) (call : Call) :
    Keeps L env drawn b ((Phase.called call).advance L env b) := by
  cases call with
  | deviceCode clientId scope =>
    simp only [Phase.advance, Board.deviceCode]
    split
    case isTrue => exact .refused h _
    case isFalse => exact .refusedOr h fun _ _ => .stores h rfl rfl rfl trivial
  | delegate bearer req =>
    refine .refusedOr h fun owner _ => .refusedOr h fun clientId _ => ?_
    split
    case isTrue => exact .refused h _
    case isFalse =>
      exact .stores h rfl rfl rfl ⟨env.now, List.mem_cons_self, rfl⟩
  | approve bearer userCode constraints =>
    refine .refusedOr h fun owner _ => ?_
    cases b.table.userIndex userCode with
    | none => exact .refused h _
    | some deviceCode => exact .of_created rfl h trivial
  | deny bearer userCode =>
    refine .refusedOr h fun owner _ => ?_
    cases b.table.userIndex userCode with
    | none => exact .refused h _
    | some deviceCode => exact .of_created rfl h trivial
  | token deviceCode clientId => exact redeem_timed h ..
  | claim pin =>
    simp only [Phase.advance, Board.claim]
    cases b.table.userIndex (trim pin) with
    | none => exact .refused h _
    | some deviceCode => exact .of_created rfl h trivial

/-- The snapshot takes the grant's own end. -/
theorem snapshot_timed (h : Timed L drawn b) (deviceCode ownerWaId : String) (ownerRole : UserRole)
    (asked : DelegationConstraints) :
    Keeps L env drawn b
      ((Phase.approving deviceCode ownerWaId ownerRole asked).advance L env b) := by
  simp only [Phase.advance, Board.snapshot]
  cases hgrant : b.table.grants deviceCode with
  | none => exact .refused h _
  | some grant =>
    dsimp only
    split
    case isTrue => exact .refused h _
    case isFalse =>
      have hlasts := h.grants deviceCode grant hgrant
      cases grant.status with
      | pending => exact .of_created rfl h hlasts
      | denied => exact .of_created rfl h hlasts
      | approved _ _ _ => exact .refused h _

/-- Marking changes the status of the grant, and not its end. -/
theorem mark_timed (h : Timed L drawn b) {a : Approving} (hsigned : Signed b.log a.deviceCode)
    (ownerKeyId attestationId : String) :
    Keeps L env drawn b ((Phase.marking a ownerKeyId attestationId).advance L env b) := by
  simp only [Phase.advance, Board.mark]
  cases hgrant : b.table.grants a.deviceCode with
  | none => cases a.approver <;> exact .refused h _
  | some grant =>
    have hmarked (new : DeviceGrant) (hexpires : new.expiresAt = grant.expiresAt) :
        Timed L drawn { b with table := b.table.insertGrant a.deviceCode new } :=
      h.insertGrant (hexpires ▸ h.grants a.deviceCode grant hgrant) fun _ => hsigned
    cases a.approver with
    | approve asked =>
      dsimp only
      exact .of_created (by simp [GrantEvent.creates?])
        ((hmarked { grant with constraints := a.constraints, status := _ } rfl).cons
          (fun _ _ heq => by cases heq) fun _ _ _ _ heq => by cases heq)
        (reported_of_not_bearer fun _ _ _ heq => by cases heq)
    | delegate pin scope subDelegation depth =>
      exact .of_created rfl (hmarked { grant with status := _ } rfl)
        (reported_of_not_bearer fun _ _ _ heq => by cases heq)

/-- **Step.** A region that mints early, if it mints, keeps every edge alive behind its bearer. -/
theorem advance_timed {phase : Phase} (h : Timed L drawn b) (hphase : phase.Timed L drawn b)
    (hearly : ∀ deviceCode door r drawnAt, phase = .gating deviceCode door r →
      env.reachable r.ownerKeyId r.clientId r.scope delegationDepth = .ok true →
      (deviceCode, drawnAt) ∈ drawn → env.now + delegatedTtlSecs ≤ drawnAt + L.grantTtlSecs) :
    Keeps L env drawn b (phase.advance L env b) := by
  cases phase with
  | called call => exact called_timed h call
  | issuing deviceCode userCode =>
    exact .of_created rfl (h.insertIndex ..) (reported_of_not_bearer fun _ _ _ heq => by cases heq)
  | delegating userCode a => exact .of_created rfl (h.insertIndex ..) hphase
  | approving deviceCode ownerWaId ownerRole asked => exact snapshot_timed h ..
  | signing a =>
    refine .refusedOr h fun ownerKeyId _ => ?_
    dsimp only
    cases env.emit (a.edge ownerKeyId) with
    | error e => exact .refused h _
    | ok attestationId =>
      refine .of_created (by simp [GrantEvent.creates?])
        (h.cons ?_ fun _ _ _ _ heq => by cases heq) ⟨hphase, _, List.mem_cons_self⟩
      intro code edge heq
      obtain ⟨rfl, rfl⟩ := GrantEvent.emitted.inj heq
      rw [expiresAt_edge]
      exact hphase
  | marking a ownerKeyId attestationId => exact mark_timed h hphase.2 ..
  | denying deviceCode =>
    simp only [Phase.advance, Board.setDenied]
    cases hgrant : b.table.grants deviceCode with
    | none => exact .refused h _
    | some grant =>
      have hdenied : Timed L drawn
          { b with table := b.table.insertGrant deviceCode { grant with status := .denied } } :=
        h.insertGrant (h.grants deviceCode grant hgrant) fun happroved => by cases happroved
      exact .of_created (by simp [GrantEvent.creates?])
        (hdenied.cons (fun _ _ heq => by cases heq) fun _ _ _ _ heq => by cases heq)
        (reported_of_not_bearer fun _ _ _ heq => by cases heq)
  | claiming pin deviceCode => exact redeem_timed h ..
  | gating deviceCode door r =>
    exact mint_timed h hphase fun drawnAt => hearly deviceCode door r drawnAt rfl
  | told reply => exact .of_created rfl h hphase

/-! ## Runs -/

/-- The log only grows. -/
theorem advance_log_subset {phase t : Phase} (he : Effect env b phase b' t) : b.log ⊆ b'.log := by
  cases he with
  | still hgrants hlog ht => exact hlog ▸ List.Subset.refl _
  | marked => exact List.Subset.refl _
  | forgot => exact List.Subset.refl _
  | redeemed => exact List.Subset.refl _
  | _ => exact List.subset_cons_self _ _

/-- The invariant, over the calls too. -/
def Kept (L : Lib) (s : Clocked) : Prop :=
  Timed L s.drawn s.config.shared ∧ ∀ t ∈ s.config.tasks, t.Timed L s.drawn s.config.shared

theorem kept_start : Kept L startClocked := by
  refine ⟨⟨nofun, nofun, nofun, ?_⟩, fun _ ht => absurd ht List.not_mem_nil⟩
  intro newer older code door accessToken grant hlog
  cases newer <;> cases hlog

/-- **Step.** A move that mints early. -/
theorem step_kept {s : Clocked} {m : Move Call Env} (hearly : MintsEarly L s m) (h : Kept L s) :
    Kept L (clockedStep L s m) := by
  obtain ⟨hboard, htasks⟩ := h
  have hdrawn : s.drawn ⊆ (clockedStep L s m).drawn := by
    cases m with
    | arrive call => exact List.Subset.refl _
    | advance i env => exact subset_drawnAfter
  apply System.step_preserves (J := Timed L (clockedStep L s m).drawn)
    (P := fun b t => t.Timed L (clockedStep L s m).drawn b) _ (hboard.mono hdrawn)
    (fun t ht => (htasks t ht).mono hdrawn (List.Subset.refl _))
  · rintro call rfl
    exact ⟨hboard, trivial, htasks⟩
  · rintro i env t rfl ht
    have hshared : ((grantServer L).step s.config (.advance i env)).shared =
        (t.advance L env s.config.shared).1 := by
      rw [System.step_advance_some _ env ht]
      rfl
    have hkeeps := advance_timed hboard (htasks t (List.mem_of_getElem? ht))
      fun deviceCode door r drawnAt hphase => hearly i env deviceCode door r drawnAt rfl (hphase ▸ ht)
    have hlog := advance_log_subset (advance_effect L env t s.config.shared)
    -- the other calls keep what they know, as codes are drawn and the log grows
    simp only [clockedStep, hshared]
    exact ⟨hkeeps.1, hkeeps.2, fun u hu => (htasks u hu).mono subset_drawnAfter hlog⟩

theorem after_clockedStep (s : Clocked) (moves : List (Move Call Env)) :
    (after (clockedStep L) s moves).config = after (grantServer L).step s.config moves := by
  induction moves generalizing s with
  | nil => rfl
  | cons m moves ih => exact ih _

/-- **Run.** If each bearer is minted an hour before its grant's lifetime is over, no bearer
    outlives an edge that backs it, by what is stamped on it or by what is reported. -/
theorem bearers_outlived (L : Lib) (moves : List (Move Call Env))
    (hearly : Guarded (clockedStep L) (MintsEarly L) startClocked moves) :
    Outlived (after (grantServer L).step start moves).shared.log ∧
      ∀ t ∈ (after (grantServer L).step start moves).tasks,
        Reported (after (grantServer L).step start moves).shared.log t := by
  have hkept := Guarded.invariant (I := Kept L) (fun _ _ h hm => step_kept hm h) hearly kept_start
  have hconfig : (after (clockedStep L) startClocked moves).config =
      after (grantServer L).step start moves := after_clockedStep _ _
  obtain ⟨hboard, htasks⟩ := hkept
  rw [hconfig] at hboard htasks
  refine ⟨hboard.outlived, fun t ht => ?_⟩
  rintro accessToken expiresIn grant rfl
  exact htasks _ ht accessToken expiresIn grant rfl

namespace Fixture

/-- A router whose grants live for two hours. -/
def patient : Lib := { lib with grantTtlSecs := 7200 }

/-- Each region at the gate comes an hour before the end of its grant. -/
def GatesEarly (L : Lib) (s : Clocked) : Move Call Env → Prop
  | .arrive _ => True
  | .advance i env => ∀ gate ∈ (s.config.tasks[i]?).bind Phase.gates, ∀ draw ∈ s.drawn,
      draw.1 = gate.1 → env.now + delegatedTtlSecs ≤ draw.2 + L.grantTtlSecs

instance decidableGatesEarly (L : Lib) (s : Clocked) : ∀ m, Decidable (GatesEarly L s m)
  | .arrive _ => inferInstanceAs (Decidable True)
  | .advance i env => inferInstanceAs (Decidable
      (∀ gate ∈ (s.config.tasks[i]?).bind Phase.gates, ∀ draw ∈ s.drawn,
        draw.1 = gate.1 → env.now + delegatedTtlSecs ≤ draw.2 + L.grantTtlSecs))

theorem early_of_gatesEarly {L : Lib} {moves : List (Move Call Env)}
    (h : Guarded (clockedStep L) (GatesEarly L) startClocked moves) :
    Guarded (clockedStep L) (MintsEarly L) startClocked moves := by
  apply h.imp
  intro s m hgates i env deviceCode door r drawnAt hm ht _ hdrawn
  cases hm
  refine hgates (deviceCode, door) ?_ (deviceCode, drawnAt) hdrawn rfl
  rw [ht]
  rfl

end Fixture

/-- The theorem at a run in which the client collects its bearer. -/
theorem bearers_outlived_patient :
    Outlived (after (grantServer Fixture.patient).step start Fixture.collected).shared.log :=
  (bearers_outlived Fixture.patient Fixture.collected
    (Fixture.early_of_gatesEarly (by decide +kernel))).1

/-- Collected after eight seconds, the bearer lives to 3608, and the edge to 600. -/
theorem bearer_outlives_edge :
    Guarded (grantServer Fixture.lib).step FreshCodes start Fixture.collected ∧
      ¬ Outlived (after (grantServer Fixture.lib).step start Fixture.collected).shared.log := by
  have hlog : (after (grantServer Fixture.lib).step start Fixture.collected).shared.log =
      [.minted Fixture.deviceCode (.token Fixture.deviceCode "agent")
        "dgrant:EjRWeJASNFZ4kBI0VniQEjRWeJASNFZ4" Fixture.bearer,
       .approved Fixture.deviceCode {},
       .emitted Fixture.deviceCode
        ⟨"owner-key", "agent", "owner:act-on-behalf", false, none, none, 600⟩,
       .issued Fixture.deviceCode "agent"] := by
    decide +kernel
  refine ⟨Fixture.fresh_of_drawsNew (by decide +kernel), fun houtlived => ?_⟩
  have hedges := (houtlived [] _ _ _ _ _ hlog).2
    ⟨"owner-key", "agent", "owner:act-on-behalf", false, none, none, 600⟩ (by decide +kernel)
  exact absurd hedges (by decide)

end CirisServer.DeviceFlow
