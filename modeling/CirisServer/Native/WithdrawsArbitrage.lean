import CirisServer.ForStd.Group
import CirisServer.Native.ComposePolicy

/-!
# Withdrawing where one should recant

`src/withdraws_arbitrage.rs`: the ledger of what an attester retracted within the window, the ratio
of its withdrawals to its recantations, and the gate. Instants are in nanoseconds, and an `f64` is a
rational.
-/

namespace CirisServer.WithdrawsArbitrage

/-- A row of the directory. -/
abbrev Attestation := ComposePolicy.Attestation

/-- The order of the kinds: `recants` outranks `withdraws` outranks `supersedes`. -/
def rank : String → Nat
  | "recants" => 3
  | "withdraws" => 2
  | "supersedes" => 1
  | _ => 0

/-- `is_structural_composer`, `references_attestation_id_from_envelope` and `precedence_winner`. -/
structure Precedence where
  isStructuralComposer : String → Bool
  references : Json → Option String
  precedenceWinner : List Attestation → Option Attestation
  withdraws_composes : isStructuralComposer "withdraws" = true
  recants_composes : isStructuralComposer "recants" = true
  references_eq : ∀ envelope, references envelope =
    (envelope.get? "references_attestation_id").bind Json.asStr
  winner : ∀ group, group ≠ [] → ∃ a ∈ group, precedenceWinner group = some a ∧
    ∀ b ∈ group, rank b.attestationType ≤ rank a.attestationType

/-- `ArbitragePolicy`. -/
structure ArbitragePolicy where
  ratioThreshold : ℚ := 5
  window : Int := 30 * 86400 * nanosPerSec

/-- `AttesterLedger`. -/
structure AttesterLedger where
  attesterKeyId : String
  withdraws : Nat
  recants : Nat
  ratio : ℚ
  ratioThreshold : ℚ
  windowStart : Int
deriving DecidableEq

namespace AttesterLedger

def isArbitrage (l : AttesterLedger) : Bool := l.ratioThreshold < l.ratio

def trustMultiplier (l : AttesterLedger) : ℚ :=
  if !l.isArbitrage || l.ratio ≤ 0 then 1 else max 0 (min 1 (l.ratioThreshold / l.ratio))

end AttesterLedger

/-- The composers of the attester within the window. -/
def composers (P : Precedence) (attesterKeyId : String) (windowStart : Int)
    (rows : List Attestation) : List Attestation :=
  rows.filter fun a => a.attestingKeyId = attesterKeyId ∧ P.isStructuralComposer a.attestationType ∧
    windowStart ≤ a.assertedAt

/-- The row that a composer targets, or the composer itself if it names none. -/
def upstream (P : Precedence) (a : Attestation) : String :=
  (P.references a.attestationEnvelope).getD a.attestationId

/-- The composers of each upstream row. -/
def groups (P : Precedence) (composers : List Attestation) : List (List Attestation) :=
  (composers.map (upstream P)).sortedKeys.map fun key => composers.filter (upstream P · = key)

/-- What the winner of a group adds to the two counts. -/
def count (counts : Nat × Nat) (kind : Option String) : Nat × Nat :=
  match kind with
  | some "withdraws" => (counts.1 + 1, counts.2)
  | some "recants" => (counts.1, counts.2 + 1)
  | _ => counts

/-- `ledger_from_rows`. -/
def ledgerFromRows (P : Precedence) (attesterKeyId : String) (rows : List Attestation)
    (policy : ArbitragePolicy) (windowStart : Int) : AttesterLedger :=
  let kinds := (groups P (composers P attesterKeyId windowStart rows)).map fun group =>
    (P.precedenceWinner group).map (·.attestationType)
  let counts := kinds.foldl count (0, 0)
  { attesterKeyId
    withdraws := counts.1
    recants := counts.2
    ratio := counts.1 / max counts.2 1
    ratioThreshold := policy.ratioThreshold
    windowStart }

inductive Refusal where
  | arbitrage (ledger : AttesterLedger)
  | ledgerUnavailable (attesterKeyId source : String)
deriving DecidableEq

/-- `assess`, of what the directory read. -/
def assess (P : Precedence) (read : Except String (List Attestation)) (attesterKeyId : String)
    (policy : ArbitragePolicy) (now : Int) : Except Refusal AttesterLedger :=
  match read with
  | .error e => .error (.ledgerUnavailable attesterKeyId e)
  | .ok rows => .ok (ledgerFromRows P attesterKeyId rows policy (now - policy.window))

/-- `enforce`. -/
def enforce (P : Precedence) (read : Except String (List Attestation)) (attesterKeyId : String)
    (policy : ArbitragePolicy) (now : Int) : Except Refusal AttesterLedger :=
  match assess P read attesterKeyId policy now with
  | .error e => .error e
  | .ok ledger => if ledger.isArbitrage then .error (.arbitrage ledger) else .ok ledger

end CirisServer.WithdrawsArbitrage
