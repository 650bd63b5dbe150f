import CirisServer.Native.AccordReactivate
import CirisServer.Spec.ReleaseToken

/-!
# The doors that end a halt

Three doors remove the latch: the resumption arm of the message path, the offline
release token and the reactivation command. Each counts distinct seats on a
`lifecycle:active` invocation; the first two also check that the invocation names the
latched halt, the third does not.

Key result: `door_names_halt_iff`, exactly when a door that removes the latch was
opened by a quorum that named the halt.
-/

namespace CirisServer

/-- One call of a door, with everything it is given. -/
inductive Door where
  /-- An accord object on the message path. -/
  | wire (d : Delivery)
  /-- `honor_release_token`. -/
  | offline (io : ReleaseIo) (token : ReleaseToken) (authority : ReleaseAuthority) (now : Rfc3339)
      (wall : Int)
  /-- `reactivate_accord`. -/
  | reactivate (env : ReactivateEnv) (proof : ReactivationProof)

/-- What a door counts: seats of `roster` on `invocation`, against `threshold`. -/
structure DoorQuorum where
  roster : List ThresholdMember
  threshold : Nat
  invocation : Invocation
  signatures : List ThresholdSignature

namespace Door

/-- The latch after the door was tried in `st`, whose latch is `r`. -/
def latchAfter (node : Node) (st : AccordState) (r : HaltRecord) : Door → LatchFile
  | .wire d => (deliver node st d).disk.latch
  | .offline io token authority now wall =>
    (honorReleaseToken node.verify node.digest io st.disk r token authority now wall).1.latch
  | .reactivate env proof => (reactivateAccord node.verify env st.disk.latch proof).1

/-- The quorum the door asks for, where it gets as far as knowing one. -/
def quorum (node : Node) : Door → Option DoorQuorum
  | .wire d =>
    match d.env.roster, parseAccordInvocation d.obj with
    | .ok roster, .ok p =>
      some ⟨roster, haltPlaneThreshold node.verify p.invocation.invocationKind roster.length,
        p.invocation, p.signatures⟩
    | _, _ => none
  | .offline _ token authority _ _ =>
    some ⟨authority.roster, authority.threshold, token.invocation, token.signatures⟩
  | .reactivate env proof =>
    match env.roster, env.family with
    | .ok roster, .ok (some family) =>
      (quorumThreshold env family.consensusProtocol).map fun m =>
        ⟨roster, m, proof.invocation, proof.signatures⟩
    | _, _ => none

end Door

/-- If the door removes the latch `r`, then its threshold of distinct seats signed one
    `lifecycle:active` invocation that names the halt of `r`. -/
def EndedByNamingQuorum (node : Node) (st : AccordState) (r : HaltRecord) (door : Door) : Prop :=
  door.latchAfter node st r = .absent →
    ∃ q, door.quorum node = some q ∧
      q.threshold ≤ (node.verify.validSeats q.roster q.invocation q.signatures).length ∧
      q.invocation.invocationKind = .lifecycleActive ∧
      q.invocation.resumesHaltId = some r.invocationId

/-! ## The reactivation command -/

/-- Every check the reactivation command makes passes. -/
structure ReactivationPasses (V : VerifyCore) (env : ReactivateEnv) (proof : ReactivationProof) :
    Prop where
  kind : proof.invocation.invocationKind = .lifecycleActive
  engine : env.engine = .ok ()
  quorum : ∃ family roster m original, env.family = .ok (some family) ∧ env.roster = .ok roster ∧
    roster ≠ [] ∧ quorumThreshold env family.consensusProtocol = some m ∧
    (∃ n, V.verifyThresholdSignatures (V.canonicalBytes proof.invocation) roster proof.signatures m
      = .ok n) ∧
    originalRoster env family = .ok original ∧
    ∃ n, V.verifyThresholdSignatures (V.canonicalBytes proof.invocation) original proof.signatures 1
      = .ok n

/-- The command authorizes exactly what passes every check. -/
theorem authorizeReactivation_iff (V : VerifyCore) (env : ReactivateEnv)
    (proof : ReactivationProof) :
    (∃ n, authorizeReactivation V env proof = .ok n) ↔ ReactivationPasses V env proof := by
  constructor
  · rintro ⟨n, h⟩
    unfold authorizeReactivation at h
    dsimp only at h
    split at h
    · cases h
    rename_i hkind
    -- one line of the command's `?` chain after the other
    obtain ⟨_, hengine, h⟩ := except_bind_ok h
    obtain ⟨found, hfound, h⟩ := except_bind_ok h
    obtain ⟨family, hfamily, h⟩ := except_bind_ok h
    obtain ⟨roster, hroster, h⟩ := except_bind_ok h
    split at h
    · cases h
    rename_i hne
    obtain ⟨m, hm, h⟩ := except_bind_ok h
    obtain ⟨valid, hvalid, h⟩ := except_bind_ok h
    obtain ⟨original, horiginal, h⟩ := except_bind_ok h
    obtain ⟨one, hone, -⟩ := except_bind_ok h
    -- the two optional values are present
    obtain rfl : found = some family := by
      cases found with
      | none => cases hfamily
      | some f => exact congrArg some (Except.ok.inj hfamily)
    have hm' : quorumThreshold env family.consensusProtocol = some m := by
      cases hq : quorumThreshold env family.consensusProtocol with
      | none => rw [hq] at hm; cases hm
      | some k => rw [hq] at hm; exact congrArg some (Except.ok.inj hm)
    exact
      { kind := not_not.mp hkind
        engine := except_mapError_ok hengine
        quorum := ⟨family, roster, m, original, except_mapError_ok hfound,
          except_mapError_ok hroster, hne, hm', ⟨valid, except_mapError_ok hvalid⟩, horiginal, one,
          except_mapError_ok hone⟩ }
  · rintro ⟨hkind, hengine, family, roster, m, original, hfamily, hroster, hne, hm, ⟨valid, hvalid⟩,
      horiginal, one, hone⟩
    refine ⟨valid, ?_⟩
    simp [authorizeReactivation, hkind, hengine, hfamily, hroster, hne, hm, hvalid, horiginal, hone,
      Except.mapError, bind, Except.bind, pure, Except.pure]

/-- The command removes a latch exactly when its checks pass and the file can be removed. -/
theorem reactivateAccord_removes_iff (V : VerifyCore) (env : ReactivateEnv)
    (proof : ReactivationProof) {latch : LatchFile} (hl : latch ≠ .absent) :
    (reactivateAccord V env latch proof).1 = .absent ↔
      ReactivationPasses V env proof ∧ env.latchRemovable = true := by
  rw [← authorizeReactivation_iff]
  unfold reactivateAccord
  cases hauth : authorizeReactivation V env proof with
  | error e => simp [hl]
  | ok n =>
    cases hr : env.latchRemovable with
    | true => cases latch <;> simp_all [removeLatch]
    | false => cases latch <;> simp_all [removeLatch]

/-! ## All three doors -/

/-- The input leaves the latch to a quorum that names its halt: it is not a proof handed
    to the reactivation command that passes every check there, on a latch that can be
    removed, and yet does not name the halt. -/
def Door.NamesHalt (V : VerifyCore) (r : HaltRecord) : Door → Prop
  | .reactivate env proof =>
    ReactivationPasses V env proof → env.latchRemovable = true →
      proof.invocation.resumesHaltId = some r.invocationId
  | _ => True

/-- The message path removes a latch only for a majority that names it. -/
theorem wire_ended_by_naming_quorum {node : Node} {st : AccordState} {r : HaltRecord}
    (hl : st.disk.latch = .record r) (d : Delivery) :
    EndedByNamingQuorum node st r (.wire d) := by
  intro hgone
  have heff := deliver_latch node st d
  rw [show (deliver node st d).disk.latch = .absent from hgone] at heff
  -- of the six effects only a resumption leaves no file
  generalize hlatch : LatchFile.absent = latch at heff
  cases heff with
  | kept => rw [hl] at hlatch; cases hlatch
  | haltTorn => cases hlatch
  | halted => cases hlatch
  | confirmTorn => cases hlatch
  | confirmed => cases hlatch
  | released r' hl' hm =>
    obtain rfl : r = r' := by simpa [hl] using hl'
    unfold MajorityResumes MajorityNames at hm
    split at hm
    · rename_i roster p hroster hp
      obtain ⟨hk, hn, hmaj⟩ := hm
      refine ⟨⟨roster, haltPlaneThreshold node.verify p.invocation.invocationKind roster.length,
        p.invocation, p.signatures⟩, by simp only [Door.quorum, hroster, hp], ?_, hk, hn⟩
      -- a strict majority has a seat on the roster, so the threshold is the majority's
      unfold VerifyCore.StrictMajority at hmaj
      have hle := validSeats_length_le node.verify roster p.invocation p.signatures
      have hne : roster.length ≠ 0 := by omega
      dsimp only
      rw [haltPlaneThreshold, node.verify.required_majority _ _ hne (Or.inr hk), Option.getD_some]
      omega
    · exact hm.elim

/-- **Every door that ends a halt requires a quorum that named it**, except for a proof
    handed to the reactivation command. -/
theorem door_names_halt_iff (node : Node) (st : AccordState) (r : HaltRecord)
    (hl : st.disk.latch = .record r) (door : Door) :
    EndedByNamingQuorum node st r door ↔ door.NamesHalt node.verify r := by
  have hpresent : st.disk.latch ≠ .absent := by rw [hl]; simp
  cases door with
  | wire d => exact ⟨fun _ => trivial, fun _ => wire_ended_by_naming_quorum hl d⟩
  | offline io token authority now wall =>
    refine ⟨fun _ => trivial, fun _ hgone => ?_⟩
    have hacc := honorReleaseToken_removed hpresent hgone
    exact ⟨_, rfl, hacc.quorum, hacc.kind, hacc.resumes⟩
  | reactivate env proof =>
    -- the one door that counts a quorum without asking which halt it names
    have hremoves := reactivateAccord_removes_iff node.verify env proof hpresent
    constructor
    · intro hended hpasses hremovable
      obtain ⟨q, hq, -, -, hn⟩ := hended (hremoves.mpr ⟨hpasses, hremovable⟩)
      obtain ⟨family, roster, m, original, hfamily, hroster, -, hm, -⟩ := hpasses.quorum
      simp only [Door.quorum, hroster, hfamily, hm, Option.map_some, Option.some.injEq] at hq
      rw [← hq] at hn
      exact hn
    · intro hnames hgone
      obtain ⟨hpasses, hremovable⟩ := hremoves.mp hgone
      obtain ⟨family, roster, m, original, hfamily, hroster, -, hm, ⟨n, hn⟩, -⟩ := hpasses.quorum
      obtain ⟨hcount, hle⟩ := node.verify.threshold_ok _ _ _ _ _ hn
      refine ⟨⟨roster, m, proof.invocation, proof.signatures⟩, ?_, ?_, hpasses.kind,
        hnames hpasses hremovable⟩
      · simp only [Door.quorum, hroster, hfamily, hm, Option.map_some]
      · rw [hcount] at hle
        exact hle

namespace Fixture

/-- The three-seat family under `quorum:2/3`, its genesis baked. -/
def reactivateEnv : ReactivateEnv where
  engine := .ok ()
  family := .ok (some ⟨"quorum:2/3", ["A1", "A2", "A3"]⟩)
  roster := .ok family
  quorumPolicy s := if s = "2/3" then some 2 else none
  genesis := some (.ok family)
  groupAt1 := .ok none
  lookupPublicKey _ := .ok none
  latchRemovable := true

/-- Two seats' resumption of `halt`, as a reactivation proof. -/
def reactivationProof (halt : String) : ReactivationProof :=
  let inv := invocation .lifecycleActive "r" (some halt)
  ⟨inv, ["A1", "A2"].map fun s => idealCosign (seat s) inv⟩

/-- A node latched on the halt `h`. -/
def latched : AccordState :=
  { fresh with disk := { fresh.disk with latch := .record (latchOf "00") } }

end Fixture

/-- A proof that names the latched halt clears it. -/
theorem door_names_halt_reactivated :
    (Door.reactivate Fixture.reactivateEnv (Fixture.reactivationProof "h")).latchAfter Fixture.node
      Fixture.latched (Fixture.latchOf "00") = .absent ∧
    EndedByNamingQuorum Fixture.node Fixture.latched (Fixture.latchOf "00")
      (.reactivate Fixture.reactivateEnv (Fixture.reactivationProof "h")) :=
  ⟨by decide, (door_names_halt_iff Fixture.node Fixture.latched (Fixture.latchOf "00") rfl _).mpr
    fun _ _ => rfl⟩

/-- A resumption collected for an earlier halt `g` clears the latch of `h`. -/
theorem stale_resumption_clears_later_halt :
    ¬ EndedByNamingQuorum Fixture.node Fixture.latched (Fixture.latchOf "00")
      (.reactivate Fixture.reactivateEnv (Fixture.reactivationProof "g")) := by
  intro hended
  obtain ⟨q, hq, -, -, hn⟩ := hended (by decide)
  have hq' : (Door.reactivate Fixture.reactivateEnv (Fixture.reactivationProof "g")).quorum
      Fixture.node = some ⟨Fixture.family, 2, (Fixture.reactivationProof "g").invocation,
        (Fixture.reactivationProof "g").signatures⟩ := rfl
  rw [hq', Option.some.injEq] at hq
  rw [← hq] at hn
  exact absurd hn (by decide)

end CirisServer
