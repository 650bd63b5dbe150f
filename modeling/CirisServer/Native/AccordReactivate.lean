import CirisServer.Native.AccordRelease

/-!
# The reactivation command

`src/accord_reactivate.rs`: `ciris-server accord reactivate` clears the latch on a
`lifecycle:active` proof that meets the live family's quorum and carries at least one
original seat. What persist and the baked genesis answer is `ReactivateEnv`; the proof
itself is `ReactivationProof`.
-/

namespace CirisServer

/-- `ReactivationProof`. -/
structure ReactivationProof where
  invocation : Invocation
  signatures : List ThresholdSignature
deriving DecidableEq

/-- persist's family row, as far as the command reads it. -/
structure Family where
  consensusProtocol : String
  /-- The members' key ids. -/
  members : List String
deriving DecidableEq

/-- What the command reads from outside its proof. -/
structure ReactivateEnv where
  /-- The directories, the signers and the persist engine. -/
  engine : Except String Unit
  /-- `family::lookup` of the accord family. -/
  family : Except String (Option Family)
  /-- `family::active_threshold_roster`: the live seats. -/
  roster : Except String (List ThresholdMember)
  /-- `QuorumPolicy::parse`, its `m`. -/
  quorumPolicy : String → Option Nat
  /-- The baked genesis family resolved to keys, when one is baked. -/
  genesis : Option (Except String (List ThresholdMember))
  /-- `group_at(.., 1)`: the snapshot of the family's first version. -/
  groupAt1 : Except String (Option Json)
  lookupPublicKey : String → Except String (Option ThresholdMember)
  latchRemovable : Bool

/-- Why the command refused. -/
inductive ReactivateError where
  | noLatch
  | notLifecycleActive (got : InvocationKind)
  | engine (e : String)
  | readFamily (e : String)
  | noFamily
  | resolveRoster (e : String)
  | noLiveSeats
  | notAQuorumPolicy (protocol : String)
  | quorumNotMet (m seats : Nat) (e : String)
  | resolveGenesis (e : String)
  | readGenesisFamily (e : String)
  | resolveGenesisSeat (keyId e : String)
  | noOriginalSeat
  | removeLatch
deriving DecidableEq

/-- The `key_id`s of a snapshot's `members`, skipping what is not a member object. -/
def snapshotKeyIds (snapshot : Json) : List String :=
  match snapshot.get? "members" with
  | some (.arr items) => items.filterMap fun m =>
    match m.get? "key_id" with
    | some (.str s) => some s
    | _ => none
  | _ => []

/-- The threshold of a `quorum:M/N` protocol. -/
def quorumThreshold (env : ReactivateEnv) (protocol : String) : Option Nat :=
  if "quorum:".toList.isPrefixOf protocol.toList then
    env.quorumPolicy (String.ofList (protocol.toList.drop 7))
  else none

/-- The keys of the seats persist knows; an unknown seat is skipped, a failed lookup is not. -/
def resolveSeats (env : ReactivateEnv) :
    List String → Except ReactivateError (List ThresholdMember)
  | [] => .ok []
  | keyId :: rest =>
    match env.lookupPublicKey keyId with
    | .error e => .error (.resolveGenesisSeat keyId e)
    | .ok found =>
      match resolveSeats env rest with
      | .error e => .error e
      | .ok roster => .ok (found.toList ++ roster)

/-- The original roster: the baked genesis, else persist's first version of the family,
    else the family as it stands. -/
def originalRoster (env : ReactivateEnv) (family : Family) :
    Except ReactivateError (List ThresholdMember) :=
  match env.genesis with
  | some resolved => resolved.mapError .resolveGenesis
  | none =>
    match env.groupAt1 with
    | .error e => .error (.readGenesisFamily e)
    | .ok (some snapshot) => resolveSeats env (snapshotKeyIds snapshot)
    | .ok none => resolveSeats env family.members

/-- The checks of `reactivate_accord` after the latch was found: the number of live
    seats that signed. -/
def authorizeReactivation (V : VerifyCore) (env : ReactivateEnv) (proof : ReactivationProof) :
    Except ReactivateError Nat := do
  if proof.invocation.invocationKind ≠ .lifecycleActive then
    throw (.notLifecycleActive proof.invocation.invocationKind)
  env.engine.mapError .engine
  let found ← env.family.mapError .readFamily
  let family ← found.elim (.error .noFamily) .ok
  let roster ← env.roster.mapError .resolveRoster
  if roster = [] then
    throw .noLiveSeats
  let m ← (quorumThreshold env family.consensusProtocol).elim
    (.error (.notAQuorumPolicy family.consensusProtocol)) .ok
  -- (1) the current quorum
  let canonical := V.canonicalBytes proof.invocation
  let valid ← (V.verifyThresholdSignatures canonical roster proof.signatures m).mapError
    (.quorumNotMet m roster.length)
  -- (2) an original seat
  let original ← originalRoster env family
  let _ ← (V.verifyThresholdSignatures canonical original proof.signatures 1).mapError
    fun _ => .noOriginalSeat
  return valid

/-- `reactivate_accord`: the latch after it, and its answer. -/
def reactivateAccord (V : VerifyCore) (env : ReactivateEnv) (latch : LatchFile)
    (proof : ReactivationProof) : LatchFile × Except ReactivateError Nat :=
  if latch = .absent then (latch, .error .noLatch)
  else
    match authorizeReactivation V env proof with
    | .error e => (latch, .error e)
    | .ok valid =>
      match removeLatch latch env.latchRemovable with
      | (latch, .removed) => (latch, .ok valid)
      | (latch, _) => (latch, .error .removeLatch)

end CirisServer
