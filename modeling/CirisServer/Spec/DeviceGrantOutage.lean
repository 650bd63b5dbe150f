import CirisServer.Spec.DeviceGrantInv

/-!
# A redemption that the store fails

`token` and `claim` forget the grant, then ask the graph. A graph that cannot answer is a 503, and
a 503 says to try again: but the grant and its user code are gone by then, and whoever tries again
is told that the code is unknown.

Key results:
- `alone_unavailable`: where a 503 comes from
- `outage_consumes`: no redemption that ends in a 503 leaves the table as it was
-/

namespace CirisServer.DeviceFlow

open Interleave Run

/-! ## The property -/

/-- A call that nothing interrupts, each region in an environment of its own. -/
def alone (L : Lib) (envs : List Env) (s : Board × Phase) : Board × Phase :=
  envs.foldl (fun s env => s.2.advance L env s.1) s

/-- The call that redeems by this door. -/
def Door.call : Door → Call
  | .token deviceCode clientId => .token deviceCode clientId
  | .claim pin => .claim pin

/-- What the door answers to a code that is not there. -/
def Door.unknown : Door → Refusal
  | .token .. => ⟨400, "invalid_grant"⟩
  | .claim _ => ⟨404, "unknown pin"⟩

/-- A redemption that answers 503 leaves the grants and the index as they were. -/
def FailureAtomic (L : Lib) (b : Board) (door : Door) (envs : List Env) : Prop :=
  ∀ b' error, alone L envs (b, .called door.call) = (b', .told (.refused ⟨503, error⟩)) →
    b'.table = b.table

variable {L : Lib}

@[simp] theorem alone_nil (s : Board × Phase) : alone L [] s = s := rfl

@[simp] theorem alone_cons (env : Env) (envs : List Env) (s : Board × Phase) :
    alone L (env :: envs) s = alone L envs (s.2.advance L env s.1) := rfl

/-- An answer is final. -/
theorem alone_told (envs : List Env) (b : Board) (reply : Reply) :
    alone L envs (b, .told reply) = (b, .told reply) := by
  induction envs with
  | nil => rfl
  | cons env envs ih => exact ih

/-! ## Where a 503 comes from -/

/-- A grant was there, and it is consumed. -/
def Consumed (deviceCode : String) (b b' : Board) : Prop :=
  ∃ grant, b.table.grants deviceCode = some grant ∧ grant.status.isApproved = true ∧
    b'.table = b.table.forget deviceCode grant.userCode

/-- The gate is the last region. -/
theorem mint_told (env : Env) (deviceCode : String) (door : Door) (r : Redeemed) (b : Board) :
    ∃ b' reply, b.mint env deviceCode door r = (b', .told reply) := by
  simp only [Board.mint]
  cases env.reachable r.ownerKeyId r.clientId r.scope delegationDepth with
  | error e => exact ⟨_, _, rfl⟩
  | ok reachable => cases reachable <;> exact ⟨_, _, rfl⟩

/-- The gate answers 503 when the graph does not, and the table is as the gate found it. -/
theorem mint_unavailable {env : Env} {deviceCode : String} {door : Door} {r : Redeemed}
    {b b' : Board} {error : String}
    (h : b.mint env deviceCode door r = (b', .told (.refused ⟨503, error⟩))) : b' = b := by
  simp only [Board.mint] at h
  cases hgraph : env.reachable r.ownerKeyId r.clientId r.scope delegationDepth with
  | error e =>
    rw [hgraph] at h
    exact (congrArg Prod.fst h).symm
  | ok reachable =>
    rw [hgraph] at h
    cases reachable <;> simp at h

/-- **Step.** The region of a redemption answers no 503 itself; from where it goes on, a 503 says
    that the grant was consumed. -/
theorem redeem_unavailable {now : Nat} {deviceCode : String} {clientId : Option String}
    {unknown : Refusal} {door : Door} {envs : List Env} {b b' : Board} {error : String}
    (hunknown : unknown.status ≠ 503)
    (h : alone L envs (b.redeem now deviceCode clientId unknown door) =
      (b', .told (.refused ⟨503, error⟩))) :
    Consumed deviceCode b b' := by
  -- every refusal of this region is a 4xx
  have hrefused {b₁ : Board} {refusal : Refusal} (hstatus : refusal.status ≠ 503)
      (h : alone L envs (b₁, .told (.refused refusal)) = (b', .told (.refused ⟨503, error⟩))) :
      Consumed deviceCode b b' := by
    rw [alone_told] at h
    have hsame := Reply.refused.inj (Phase.told.inj (congrArg Prod.snd h))
    exact absurd (congrArg Refusal.status hsame) hstatus
  simp only [Board.redeem, Table.redeem] at h
  cases hgrant : b.table.grants deviceCode with
  | none =>
    rw [hgrant] at h
    exact hrefused hunknown h
  | some grant =>
    simp only [hgrant] at h
    by_cases hclient : clientId.any (grant.clientId ≠ ·) = true
    · rw [if_pos hclient] at h
      exact hrefused (by decide) h
    rw [if_neg hclient] at h
    by_cases hexpired : grant.expiresAt ≤ now
    · rw [if_pos hexpired] at h
      exact hrefused (by decide) h
    rw [if_neg hexpired] at h
    cases hstatus : grant.status with
    | pending =>
      rw [hstatus] at h
      exact hrefused (by decide) h
    | denied =>
      rw [hstatus] at h
      exact hrefused (by decide) h
    | approved ownerWaId ownerRole ownerKeyId =>
      rw [hstatus] at h
      -- the grant is consumed; the graph is asked
      cases envs with
      | nil => cases congrArg Prod.snd h
      | cons env envs =>
        have hgate : alone L envs (Board.mint env deviceCode door
            ⟨ownerWaId, ownerRole, ownerKeyId, grant.clientId, grant.scope, grant.constraints⟩
            { b with table := b.table.forget deviceCode grant.userCode }) =
              (b', .told (.refused ⟨503, error⟩)) := h
        obtain ⟨b₂, reply, htold⟩ := mint_told env deviceCode door
          ⟨ownerWaId, ownerRole, ownerKeyId, grant.clientId, grant.scope, grant.constraints⟩
          { b with table := b.table.forget deviceCode grant.userCode }
        rw [htold, alone_told] at hgate
        rw [hgate] at htold
        refine ⟨grant, hgrant, by rw [hstatus]; rfl, ?_⟩
        rw [mint_unavailable htold]

/-- The device code that a redemption by this door is about. -/
def Door.code? (b : Board) : Door → Option String
  | .token deviceCode _ => some deviceCode
  | .claim pin => b.table.userIndex (trim pin)

/-- **Run.** A redemption that answers 503 has consumed the grant. -/
theorem alone_unavailable {door : Door} {envs : List Env} {b b' : Board} {error : String}
    (h : alone L envs (b, .called door.call) = (b', .told (.refused ⟨503, error⟩))) :
    ∃ deviceCode, door.code? b = some deviceCode ∧ Consumed deviceCode b b' := by
  cases envs with
  | nil => cases congrArg Prod.snd h
  | cons env envs =>
    cases door with
    | token deviceCode clientId => exact ⟨deviceCode, rfl, redeem_unavailable (by decide) h⟩
    | claim pin =>
      have hclaim : alone L envs (b.claim pin) = (b', .told (.refused ⟨503, error⟩)) := h
      simp only [Board.claim] at hclaim
      cases hindex : b.table.userIndex (trim pin) with
      | none =>
        rw [hindex, alone_told] at hclaim
        simp at hclaim
      | some deviceCode =>
        -- a claim finds the code in one region and redeems it in the next
        rw [hindex] at hclaim
        cases envs with
        | nil => cases congrArg Prod.snd hclaim
        | cons env' envs => exact ⟨deviceCode, hindex, redeem_unavailable (by decide) hclaim⟩

/-! ## What is left -/

theorem Consumed.ne {deviceCode : String} {b b' : Board} (h : Consumed deviceCode b b') :
    b'.table ≠ b.table := by
  obtain ⟨grant, hgrant, -, htable⟩ := h
  intro hsame
  -- the grant was there and is not
  have hgone : b'.table.grants deviceCode = none := by
    rw [htable]
    exact Function.update_self ..
  rw [hsame, hgrant] at hgone
  cases hgone

/-- Whoever tries again is told that the code is unknown. -/
theorem Consumed.retry {deviceCode : String} {b b' : Board} {door : Door} (env env' : Env)
    (envs : List Env) (hcode : door.code? b = some deviceCode) (h : Consumed deviceCode b b') :
    alone L (env :: env' :: envs) (b', .called door.call) =
      (b', .told (.refused door.unknown)) := by
  obtain ⟨grant, -, -, htable⟩ := h
  have hgone : b'.table.grants deviceCode = none := by
    rw [htable]
    exact Function.update_self ..
  have hredeem (now : Nat) (clientId : Option String) (unknown : Refusal) (door : Door) :
      b'.redeem now deviceCode clientId unknown door = (b', .told (.refused unknown)) := by
    simp only [Board.redeem, Table.redeem, hgone]
    rfl
  cases door with
  | token code clientId =>
    obtain rfl : code = deviceCode := Option.some.inj hcode
    show alone L (env' :: envs) (b'.redeem env.now code (some clientId) _ _) = _
    rw [hredeem, alone_told]
    rfl
  | claim pin =>
    show alone L (env' :: envs) (b'.claim pin) = _
    simp only [Board.claim]
    cases hindex : b'.table.userIndex (trim pin) with
    | none => exact alone_told ..
    | some code =>
      -- the index still has the pin only if it is another one than the grant's
      have hsame : code = deviceCode := by
        rw [htable] at hindex
        simp only [Table.forget, Function.update_apply] at hindex
        split at hindex
        case isTrue => cases hindex
        case isFalse => exact Option.some.inj (hindex.symm.trans hcode)
      rw [hsame]
      show alone L envs (b'.redeem env'.now deviceCode none _ _) = _
      rw [hredeem, alone_told]
      rfl

/-- **A failing store.** A redemption that ends in a 503 never leaves the table as it was: the
    grant it found and its user code are gone, and the next attempt finds the code unknown. -/
theorem outage_consumes (L : Lib) (b b' : Board) (door : Door) (envs : List Env) (error : String)
    (h : alone L envs (b, .called door.call) = (b', .told (.refused ⟨503, error⟩))) :
    ¬ FailureAtomic L b door envs ∧
      (∃ deviceCode grant, b.table.grants deviceCode = some grant ∧
        b'.table.grants deviceCode = none ∧ b'.table.userIndex grant.userCode = none) ∧
      ∀ env env' envs', alone L (env :: env' :: envs') (b', .called door.call) =
        (b', .told (.refused door.unknown)) := by
  obtain ⟨deviceCode, hcode, hconsumed⟩ := alone_unavailable h
  refine ⟨fun hatomic => hconsumed.ne (hatomic b' error h), ?_, ?_⟩
  · obtain ⟨grant, hgrant, -, htable⟩ := hconsumed
    refine ⟨deviceCode, grant, hgrant, ?_, ?_⟩
    · rw [htable]
      exact Function.update_self ..
    · rw [htable]
      exact Function.update_self ..
  · exact fun env env' envs' => hconsumed.retry env env' envs' hcode

namespace Fixture

/-- At `now` seconds, with the store down. -/
def outage (now : Nat) : Env :=
  { env now with reachable := fun _ _ _ _ => .error "connection refused" }

/-- The owner has approved; nobody has collected. -/
def waiting : Board := (after (grantServer lib).step start approved).shared

/-- The client collects while the store is down. -/
def outageAnswer : Board × Phase :=
  alone lib [env 8, outage 8] (waiting, .called (Door.token deviceCode "agent").call)

end Fixture

/-- The theorem at a client that collects while the store is down. -/
theorem outage_consumes_collecting :
    Fixture.outageAnswer.1.table.grants Fixture.deviceCode = none ∧
      ∀ env env' envs, alone Fixture.lib (env :: env' :: envs)
        (Fixture.outageAnswer.1, .called (Door.token Fixture.deviceCode "agent").call) =
          (Fixture.outageAnswer.1, .told (.refused ⟨400, "invalid_grant"⟩)) := by
  obtain ⟨-, -, hretry⟩ := outage_consumes Fixture.lib Fixture.waiting Fixture.outageAnswer.1
    (.token Fixture.deviceCode "agent") [Fixture.env 8, Fixture.outage 8]
    "store: connection refused" (Prod.ext rfl (by decide +kernel))
  exact ⟨by decide +kernel, hretry⟩

/-- One table that a run reaches, and one outage, are enough. -/
theorem outage_leaves_less :
    ∃ moves, Guarded (grantServer Fixture.lib).step FreshCodes start moves ∧
      ¬ FailureAtomic Fixture.lib (after (grantServer Fixture.lib).step start moves).shared
        (.token Fixture.deviceCode "agent") [Fixture.env 8, Fixture.outage 8] := by
  refine ⟨Fixture.approved, Fixture.fresh_of_drawsNew (by decide +kernel), fun hatomic => ?_⟩
  have htable := hatomic Fixture.outageAnswer.1 "store: connection refused"
    (Prod.ext rfl (by decide +kernel))
  have hwas : (Fixture.waiting.table.grants Fixture.deviceCode).isSome = true := by decide +kernel
  have hgone : (Fixture.outageAnswer.1.table.grants Fixture.deviceCode).isSome = false := by
    decide +kernel
  rw [htable] at hgone
  exact absurd (hwas.symm.trans hgone) (by decide)

end CirisServer.DeviceFlow
