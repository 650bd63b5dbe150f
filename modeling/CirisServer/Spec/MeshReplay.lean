import Mathlib.Algebra.Ring.Nat
import CirisServer.ForStd.Run
import CirisServer.Native.MeshRelay

/-!
# Replayed control envelopes

The responder's replay guard remembers the last 4096 nonces, whoever sent them: any signer in
the directory can push a nonce out while its envelope is still fresh, and a `ts` at the far
end of `i64` is fresh because its distance has no absolute value there. The result holds for
runs in which neither happens.

Key results:
- `isFresh_le`: the freshness check, where the subtraction does not wrap
- `relayStep_kept`: what one payload preserves
- `dispatched_once_and_fresh`: each envelope is dispatched at most once, and while fresh
-/

namespace CirisServer

open Run

/-! ## The property -/

/-- The responder between two payloads: its guard, and what it has dispatched, oldest first.
    `clock` is when it last looked. -/
structure RelayState where
  guard : SeenQueue String
  dispatched : List Dispatched
  clock : Int64
deriving DecidableEq

/-- A payload, and what the node answers while it is handled. -/
structure RelayEvent (W : RelayCodec) where
  payload : W.Bytes
  env : RelayEnv W

/-- The responder handles one payload. -/
def relayStep {W : RelayCodec} (nodeKeyId : String) (s : RelayState) (e : RelayEvent W) :
    RelayState :=
  let (guard, _, dispatched) := handle nodeKeyId s.guard e.env e.payload
  ⟨guard, s.dispatched ++ dispatched.toList, e.env.now⟩

/-- A responder that has handled nothing. -/
def RelayState.new (clock : Int64) : RelayState := ⟨.empty, [], clock⟩

/-- The signed envelope of a dispatch: who signed what. -/
def Dispatched.signed (d : Dispatched) : String × ControlEnvelope := (d.signer, d.envelope)

/-- Every signed envelope was dispatched at most once, and inside its freshness window. -/
structure OnceAndFresh (s : RelayState) : Prop where
  once : (s.dispatched.map Dispatched.signed).Nodup
  fresh : ∀ d ∈ s.dispatched, (d.time.toInt - d.envelope.ts.toInt).natAbs ≤ 300

/-- The payload meets no defect: the clock has not run back, a `ts` that passes for fresh is
    less than 2⁶³ seconds away, and a nonce the guard forgets for it is one whose dispatched
    envelopes are stale. -/
structure Timely {W : RelayCodec} (nodeKeyId : String) (s : RelayState) (e : RelayEvent W) :
    Prop where
  clock : s.clock.toInt ≤ e.env.now.toInt
  noWrap : ∀ caller envelope, e.env.authenticate nodeKeyId e.payload = .ok (caller, envelope) →
    (e.env.now.toInt - envelope.ts.toInt).natAbs < 2 ^ 63
  forgets : ∀ caller envelope, e.env.authenticate nodeKeyId e.payload = .ok (caller, envelope) →
    replayKey caller envelope ∉ s.guard.seen → s.guard.order.length = replayGuardCap →
    ∀ d ∈ s.dispatched, s.guard.order.head? = some (replayKey d.signer d.envelope) →
      d.envelope.ts.toInt + 300 < e.env.now.toInt

/-! ## One payload -/

/-- Inside the range of `i64`, the freshness check bounds the distance. -/
theorem isFresh_le {now ts : Int64} (h : isFresh now ts = true)
    (hwrap : (now.toInt - ts.toInt).natAbs < 2 ^ 63) : (now.toInt - ts.toInt).natAbs ≤ 300 := by
  have hsub := Int64.toInt_sub now ts
  have hmin : (now - ts).toBitVec ≠ BitVec.intMin 64 := by
    intro heq
    have hint : (now - ts).toInt = (BitVec.intMin 64).toInt := congrArg BitVec.toInt heq
    have hval : (BitVec.intMin 64).toInt = -2 ^ 63 := by decide
    rw [hsub, hval, Int.bmod_def] at hint
    split at hint <;> omega
  have h300 : relayFreshnessSecs.toInt = 300 := by decide
  have habs : (now - ts).abs.toInt = (now - ts).toBitVec.abs.toInt := rfl
  have hint : (now - ts).toBitVec.toInt = (now - ts).toInt := rfl
  simp only [isFresh, Bool.not_eq_true', decide_eq_false_iff_not] at h
  rw [Int64.lt_iff_toInt_lt, h300, habs, BitVec.toInt_abs_eq_natAbs_of_ne_intMin hmin, hint, hsub,
    Int.bmod_def] at h
  split at h <;> omega

/-- 2⁶³ seconds from now, the check sees no distance at all. -/
example : isFresh 1760000000 (1760000000 - 9223372036854775808) = true := by decide

variable {W : RelayCodec} {nodeKeyId : String}

/-- What passes authentication passed the freshness check. -/
theorem authenticate_fresh {env : RelayEnv W} {payload : W.Bytes} {caller : String}
    {envelope : ControlEnvelope} (h : env.authenticate nodeKeyId payload = .ok (caller, envelope)) :
    isFresh env.now envelope.ts = true := by
  simp only [RelayEnv.authenticate, except_bind_eq_ok_iff, ensure_eq_ok_iff] at h
  obtain ⟨_, -, _, -, _, -, envelope', -, _, -, _, hfresh, heq⟩ := h
  obtain ⟨rfl, rfl⟩ := Prod.mk.inj (Except.ok.inj heq)
  exact hfresh

/-- What handling one payload can do: refuse it before the guard, refuse it as a replay, or
    spend its nonce and then dispatch it or not. -/
theorem handle_cases (nodeKeyId : String) (guard : SeenQueue String) (env : RelayEnv W)
    (payload : W.Bytes) :
    ((handle nodeKeyId guard env payload).1 = guard ∧
      (handle nodeKeyId guard env payload).2.2 = none) ∨
    ∃ caller envelope, env.authenticate nodeKeyId payload = .ok (caller, envelope) ∧
      replayKey caller envelope ∉ guard.seen ∧
      (handle nodeKeyId guard env payload).1 =
        (guard.admitKey replayGuardCap (replayKey caller envelope)).2 ∧
      ((handle nodeKeyId guard env payload).2.2 = none ∨
        (handle nodeKeyId guard env payload).2.2 = some ⟨caller, envelope, env.now⟩) := by
  cases hauth : env.authenticate nodeKeyId payload with
  | error response =>
    left
    simp only [handle, hauth, and_self]
  | ok authenticated =>
    obtain ⟨caller, envelope⟩ := authenticated
    by_cases hseen : replayKey caller envelope ∈ guard.seen
    · left
      simp only [handle, hauth, SeenQueue.admitKey_seen hseen, and_self]
    · right
      have hadmits : guard.admitKey replayGuardCap (replayKey caller envelope) =
          (true, (guard.admitKey replayGuardCap (replayKey caller envelope)).2) := by
        simp [SeenQueue.admitKey, hseen]
      refine ⟨caller, envelope, rfl, hseen, ?_⟩
      simp only [handle, hauth]
      rw [hadmits]
      cases env.authorize caller envelope with
      | error response => exact ⟨rfl, Or.inl rfl⟩
      | ok request => exact ⟨rfl, Or.inr rfl⟩

/-! ## The invariant -/

/-- The guard is well formed, and remembers every dispatched envelope until it is stale. -/
structure Remembers (s : RelayState) : Prop extends OnceAndFresh s where
  guard : s.guard.Wf replayGuardCap
  remembered : ∀ d ∈ s.dispatched, replayKey d.signer d.envelope ∈ s.guard.seen ∨
    d.envelope.ts.toInt + 300 < s.clock.toInt

theorem remembers_new (clock : Int64) : Remembers (.new clock) :=
  { once := List.nodup_nil
    fresh := fun _ hd => nomatch hd
    guard := SeenQueue.wf_empty
    remembered := fun _ hd => nomatch hd }

/-- A nonce the guard remembered it still remembers, or its envelope is stale by now. -/
theorem remembered_of_admitKey {s : RelayState} (h : Remembers s) {key : String} {now : Int64}
    (hclock : s.clock.toInt ≤ now.toInt)
    (hforgets : key ∉ s.guard.seen → s.guard.order.length = replayGuardCap →
      ∀ d ∈ s.dispatched, s.guard.order.head? = some (replayKey d.signer d.envelope) →
        d.envelope.ts.toInt + 300 < now.toInt) :
    ∀ d ∈ s.dispatched,
      replayKey d.signer d.envelope ∈ (s.guard.admitKey replayGuardCap key).2.seen ∨
        d.envelope.ts.toInt + 300 < now.toInt := by
  intro d hd
  rcases h.remembered d hd with hseen | hstale
  · rcases SeenQueue.mem_admitKey_or_head h.guard key hseen with hkept | ⟨hnew, hfull, hhead⟩
    · exact Or.inl hkept
    · exact Or.inr (hforgets hnew hfull d hd hhead)
  · exact Or.inr (by omega)

/-- **Step.** A timely payload keeps the invariant. -/
theorem relayStep_kept {s : RelayState} {e : RelayEvent W} (h : Remembers s)
    (ht : Timely nodeKeyId s e) : Remembers (relayStep nodeKeyId s e) := by
  have hclock := ht.clock
  unfold relayStep
  rcases handle_cases nodeKeyId s.guard e.env e.payload with
    ⟨hguard, hnone⟩ | ⟨caller, envelope, hauth, hnew, hguard, hdispatched⟩
  · -- refused: nothing but the clock moves
    simp only [hguard, hnone, Option.toList_none, List.append_nil]
    refine { once := h.once, fresh := h.fresh, guard := h.guard, remembered := ?_ }
    intro d hd
    rcases h.remembered d hd with hseen | hstale
    · exact Or.inl hseen
    · exact Or.inr (Int.lt_of_lt_of_le hstale hclock)
  · have hkept := remembered_of_admitKey h hclock (ht.forgets caller envelope hauth)
    have hwf := SeenQueue.admitKey_wf h.guard (replayKey caller envelope)
    rcases hdispatched with hnone | hsome
    · simp only [hguard, hnone, Option.toList_none, List.append_nil]
      exact { once := h.once, fresh := h.fresh, guard := hwf, remembered := hkept }
    · have hfresh := isFresh_le (authenticate_fresh hauth) (ht.noWrap caller envelope hauth)
      have hself := SeenQueue.mem_admitKey_self h.guard (by decide) (replayKey caller envelope)
      simp only [hguard, hsome, Option.toList_some]
      refine { once := ?_, fresh := ?_, guard := hwf, remembered := ?_ }
      · -- dispatched before, it would be remembered, or too stale to be fresh now
        have hnot : (caller, envelope) ∉ s.dispatched.map Dispatched.signed := by
          intro hin
          obtain ⟨d, hd, hsigned⟩ := List.mem_map.mp hin
          obtain ⟨hcaller, henvelope⟩ := Prod.mk.inj hsigned
          rcases h.remembered d hd with hseen | hstale
          · rw [hcaller, henvelope] at hseen
            exact hnew hseen
          · rw [henvelope] at hstale
            omega
        rw [List.map_append]
        exact nodup_append_singleton h.once hnot
      · exact forall_mem_append_singleton h.fresh hfresh
      · exact forall_mem_append_singleton hkept (Or.inl hself)

/-- **Run.** In a run of timely payloads every signed envelope is dispatched at most once, and
    only inside its freshness window. -/
theorem dispatched_once_and_fresh (nodeKeyId : String) (clock : Int64)
    (events : List (RelayEvent W))
    (ht : Guarded (relayStep nodeKeyId) (Timely nodeKeyId) (.new clock) events) :
    OnceAndFresh (after (relayStep nodeKeyId) (.new clock) events) := by
  have hinv := Guarded.invariant (I := Remembers) (fun s e h he => relayStep_kept h he) ht
    (remembers_new clock)
  exact hinv.toOnceAndFresh

namespace Fixture

/-- A payload is its signer and its envelope, and an envelope's text is its nonce. -/
inductive RelayBytes where
  | payload (p : ControlPayload)
  | envelope (e : ControlEnvelope)

/-- A control envelope for the node, made at 1000 s. -/
def controlEnvelope (nonce : String) : ControlEnvelope :=
  ⟨1, "node", "POST", "/v1/federation/announce", .null, nonce, 1000⟩

def relayCodec : RelayCodec where
  Bytes := RelayBytes
  parsePayload
    | .payload p => .ok p
    | .envelope _ => .error "payload"
  decodeB64 nonce := .ok (.envelope (controlEnvelope nonce))
  parseEnvelope
    | .envelope e => .ok e
    | .payload _ => .error "envelope"

/-- At 1000 s, a payload of `signer` reaches a node that `owner` owns. -/
def relayEvent (signer nonce : String) : RelayEvent relayCodec where
  payload := .payload ⟨[("x-ciris-key-id", signer)], nonce⟩
  env :=
    { now := 1000
      verifyRequest := fun headers _ =>
        headers.head?.elim (.error (.missingHeader "x-ciris-key-id")) fun h => .ok h.2
      owner := some "owner"
      signerActsFor := fun signer owner => signer = owner
      routerReady := true
      rootBearer := .ok (some "bearer")
      methodParses := fun _ => true
      assemble := fun _ => .ok ()
      router := fun _ => (200, .ok "{}") }

theorem relayEvent_authenticate (signer nonce : String) :
    (relayEvent signer nonce).env.authenticate "node" (relayEvent signer nonce).payload =
      .ok (signer, controlEnvelope nonce) := by
  simp only [RelayEnv.authenticate, except_bind_eq_ok_iff, ensure_eq_ok_iff]
  have hfresh : isFresh 1000 1000 = true := by decide
  exact ⟨_, rfl, _, rfl, _, rfl, _, rfl, (), rfl, (), hfresh, rfl⟩

/-- With room in the guard, the fixture's payloads are timely. -/
theorem relayEvent_timely (signer nonce : String) {s : RelayState} (hclock : s.clock ≤ 1000)
    (hroom : s.guard.order.length < replayGuardCap) :
    Timely "node" s (relayEvent signer nonce) where
  clock := Int64.le_iff_toInt_le.mp hclock
  noWrap caller envelope hauth := by
    rw [relayEvent_authenticate] at hauth
    obtain ⟨rfl, rfl⟩ := Prod.mk.inj (Except.ok.inj hauth)
    show ((1000 : Int64).toInt - (1000 : Int64).toInt).natAbs < 2 ^ 63
    decide
  forgets _ _ _ _ hfull := absurd hfull (Nat.ne_of_lt hroom)

/-- A signer that is not the owner spends a nonce and nothing else. -/
theorem relayStep_member (nonce : String) (s : RelayState) :
    relayStep "node" s (relayEvent "member" nonce) =
      ⟨(s.guard.admitKey replayGuardCap (replayKey "member" (controlEnvelope nonce))).2,
        s.dispatched, 1000⟩ := by
  have hauthorize : (relayEvent "member" nonce).env.authorize "member" (controlEnvelope nonce) =
      .error (wireErr 403
        "signer does not act for this node's owner — mesh control refused") := by
    rfl
  unfold relayStep handle
  rw [relayEvent_authenticate]
  simp only [hauthorize]
  rcases s.guard.admitKey replayGuardCap (replayKey "member" (controlEnvelope nonce)) with
    ⟨admitted, guard⟩
  cases admitted with
  | false => simp [relayEvent]
  | true => simp [relayEvent]

/-- The owner's envelope is dispatched if the guard does not remember its nonce. -/
theorem relayStep_owner (nonce : String) {s : RelayState}
    (hnew : replayKey "owner" (controlEnvelope nonce) ∉ s.guard.seen) :
    (relayStep "node" s (relayEvent "owner" nonce)).dispatched =
      s.dispatched ++ [⟨"owner", controlEnvelope nonce, 1000⟩] := by
  have hauthorize : ∃ request,
      (relayEvent "owner" nonce).env.authorize "owner" (controlEnvelope nonce) = .ok request :=
    ⟨_, rfl⟩
  obtain ⟨request, hauthorize⟩ := hauthorize
  have hadmits : s.guard.admitKey replayGuardCap (replayKey "owner" (controlEnvelope nonce)) =
      (true, (s.guard.admitKey replayGuardCap (replayKey "owner" (controlEnvelope nonce))).2) := by
    simp [SeenQueue.admitKey, hnew]
  unfold relayStep handle
  rw [relayEvent_authenticate]
  simp only [hauthorize]
  rw [hadmits]
  rfl

/-- 4096 nonces of a signer that is not the owner. -/
def floodNonces : List String :=
  (List.range replayGuardCap).map fun i => String.ofList (List.replicate i 'x')

/-- The guard's keys for them. -/
def floodKeys : List String :=
  floodNonces.map fun n => replayKey "member" (controlEnvelope n)

/-- The owner's key and the flood's are all different. -/
theorem floodKeys_nodup :
    (replayKey "owner" (controlEnvelope "n1") :: floodKeys).Nodup := by
  have hlength (i : Nat) : (replayKey "member"
      (controlEnvelope (String.ofList (List.replicate i 'x')))).length = i + 7 := by
    simp only [replayKey, controlEnvelope, String.length_append, String.length_ofList,
      List.length_replicate]
    have h : "member".length = 6 := by decide
    have h' : ":".length = 1 := by decide
    omega
  rw [floodKeys, floodNonces, List.map_map]
  apply List.nodup_cons.mpr
  constructor
  · intro hin
    obtain ⟨i, -, hi⟩ := List.mem_map.mp hin
    have hhead := congrArg (fun s => s.toList.head?) hi
    simp [replayKey, controlEnvelope] at hhead
  · apply List.pairwise_map.mpr
    apply List.nodup_range.imp
    intro i j hij heq
    have h := congrArg String.length heq
    simp only [Function.comp, hlength] at h
    omega

theorem floodKeys_length : floodKeys.length = replayGuardCap := by
  rw [floodKeys, floodNonces, List.length_map, List.length_map, List.length_range]

/-- The owner's envelope, the flood, and the owner's envelope again. -/
def floodedRun : List (RelayEvent relayCodec) :=
  relayEvent "owner" "n1" :: floodNonces.map (relayEvent "member") ++ [relayEvent "owner" "n1"]

theorem after_flood (nonces : List String) (s : RelayState) (hclock : s.clock = 1000) :
    after (relayStep "node") s (nonces.map (relayEvent "member")) =
      ⟨(nonces.map fun n => replayKey "member" (controlEnvelope n)).foldl
        (fun q k => (q.admitKey replayGuardCap k).2) s.guard, s.dispatched, 1000⟩ := by
  induction nonces generalizing s with
  | nil =>
    rw [← hclock]
    rfl
  | cons n nonces ih =>
    rw [List.map_cons, after_cons, relayStep_member, ih _ rfl]
    rfl

/-- After the flood the guard remembers nothing of the owner's nonce. -/
theorem after_flood_forgets {s : RelayState} (hwf : s.guard.Wf replayGuardCap)
    (horder : s.guard.order = [replayKey "owner" (controlEnvelope "n1")])
    (hclock : s.clock = 1000) :
    replayKey "owner" (controlEnvelope "n1") ∉
        (after (relayStep "node") s (floodNonces.map (relayEvent "member"))).guard.seen ∧
      (after (relayStep "node") s (floodNonces.map (relayEvent "member"))).dispatched =
        s.dispatched := by
  have hkeys := floodKeys_nodup
  have hflood := SeenQueue.admitAll_order hwf floodKeys
    (by rw [horder, List.singleton_append]; exact hkeys)
  have hone : 1 + replayGuardCap - replayGuardCap = 1 := by rw [Nat.add_sub_cancel]
  rw [horder, List.length_append, List.length_singleton, floodKeys_length, hone,
    List.singleton_append, List.drop_one, List.tail_cons] at hflood
  have hforgotten := (List.nodup_cons.mp hkeys).1
  rw [← hflood, ← (SeenQueue.admitAll_wf hwf floodKeys).mem_iff] at hforgotten
  rw [after_flood _ _ hclock]
  exact ⟨hforgotten, rfl⟩

end Fixture

/-- The theorem at a run in which the owner's envelope arrives twice. -/
theorem dispatched_once_and_fresh_repeat :
    OnceAndFresh (after (relayStep "node") (.new 900)
      [Fixture.relayEvent "owner" "n1", Fixture.relayEvent "owner" "n1"]) := by
  apply dispatched_once_and_fresh
  refine ⟨Fixture.relayEvent_timely _ _ (by decide) (by decide), ?_, trivial⟩
  exact Fixture.relayEvent_timely _ _ (by decide) (by decide +kernel)

/-- A flood of nonces by a signer that is not the owner pushes out the owner's nonce within
    one second, and the owner's envelope is dispatched twice. -/
theorem flood_evicts_a_fresh_nonce :
    (∀ e ∈ Fixture.floodedRun, e.env.now = 1000) ∧
      ¬ OnceAndFresh (after (relayStep "node") (.new 1000) Fixture.floodedRun) := by
  constructor
  · intro e he
    simp only [Fixture.floodedRun, List.mem_append, List.mem_cons, List.mem_map,
      List.not_mem_nil, or_false] at he
    rcases he with (rfl | ⟨n, -, rfl⟩) | rfl <;> rfl
  · intro h
    have hnodup := h.once
    have hfirst := Fixture.relayStep_owner "n1" (s := .new 1000) List.not_mem_nil
    have horder : (relayStep "node" (.new 1000) (Fixture.relayEvent "owner" "n1")).guard.order =
        [replayKey "owner" (Fixture.controlEnvelope "n1")] := by
      decide +kernel
    have hclock : (relayStep "node" (.new 1000) (Fixture.relayEvent "owner" "n1")).clock = 1000 :=
      rfl
    have hwf := (relayStep_kept (remembers_new 1000)
      (Fixture.relayEvent_timely "owner" "n1" (by decide) (by decide))).guard
    rw [Fixture.floodedRun, List.cons_append, after_cons, after_append] at hnodup
    generalize relayStep "node" (.new 1000) (Fixture.relayEvent "owner" "n1") = s at *
    obtain ⟨hforgotten, hflood⟩ := Fixture.after_flood_forgets hwf horder hclock
    have hagain := Fixture.relayStep_owner "n1" hforgotten
    rw [after_cons, after_nil, hagain, hflood, hfirst] at hnodup
    exact absurd hnodup (by decide +kernel)

end CirisServer
