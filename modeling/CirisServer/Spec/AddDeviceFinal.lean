import CirisServer.Spec.AddDeviceLog

/-!
# A denied request stays denied

`record_approved` writes `decided` whatever became of the request while the owner's pen
signed: a request that was denied or withdrawn in between is answered `Approved` after all.
The result holds for runs in which no approval is recorded for such a request.

Key results:
- `advance_closed`: what one region does to the requests answered for good
- `answered_for_good`: in such a run no such request is answered `Approved`, and if none is
  recorded twice, `decided` is written once
-/

namespace CirisServer.AddDevice

open Interleave Run

/-! ## The property -/

/-- A `Status` for this request was answered `Approved`. -/
def HostEvent.approves : HostEvent → String → Prop
  | .answered _ (some (.status requestId _)) answer _, id =>
    requestId = id ∧ answer.payload.approval?.isSome = true
  | _, _ => False

/-- Approvals are recorded only for requests that no event of this kind has ended. -/
def RecordsUnless (L : Lib) (ends : HostEvent → String → Prop) (c : Config Board Phase)
    (m : Move Call Env) : Prop :=
  ∀ i env t id sender req signed, m = .advance i env → c.tasks[i]? = some t →
    t.signs = some (id, sender, req) → signAndRecord L env.sign sender req = .ok signed →
    ¬ Ended ends c.shared.log id

/-! ## One region -/

/-- A request answered for good is not kept as approved. -/
structure Closed (b : Board) : Prop where
  log : NeverAfter HostEvent.approves HostEvent.closes b.log
  unapproved : ∀ id, Ended HostEvent.closes b.log id →
    ∀ d approval introductions, b.host.decided id = some d →
      d.decision ≠ .approved approval introductions

variable {L : Lib}

theorem not_approves_expired {e : HostEvent} (he : ∃ id, e = .expired id) (id : String) :
    ¬ e.approves id := by
  obtain ⟨id', rfl⟩ := he
  exact fun h => h

/-- A message answers `Approved` only for a request that is open, and closes one by dropping
    its decision. -/
theorem Closed.message {b : Board} (hinv : Inv L b) (h : Closed b) (env : Env) (sender : String)
    (op : Option JoinOp) : Closed (b.message L env sender op) := by
  obtain ⟨es, hes, hlog⟩ := message_log (L := L) b env sender op
  have hexpired (e : HostEvent) (he : e ∈ es) := not_approves_expired (hes e he)
  have hclosed {id : String} : Ended HostEvent.closes (es ++ b.log) id ↔
      Ended HostEvent.closes b.log id :=
    ended_append_iff fun e he => not_closes_expired (hes e he)
  constructor
  · rw [hlog]
    apply (h.log.append_inert hexpired).cons
    intro id happroves hended
    cases op with
    | none => exact happroves
    | some op =>
      cases op with
      | join req => exact happroves
      | withdraw _ _ => exact happroves
      | status requestId challenge =>
        obtain ⟨rfl, hsome⟩ := happroves
        obtain ⟨approval, happroval⟩ := Option.isSome_iff_exists.mp hsome
        obtain ⟨d, introductions, hd, -, -, hdecision⟩ := status_approved happroval
        have hdecided := Option.eq_some_of_filter_eq_some hd
        exact h.unapproved requestId (hclosed.mp hended) d approval introductions hdecided
          hdecision
  · intro id hended d approval introductions hd
    rw [hlog, ended_cons_iff, hclosed] at hended
    rcases hended with hnew | hold
    · -- the message was a `Withdraw` of this request, answered 200
      rcases hnew with hnew | hwithdraws
      · cases hnew
      · cases op with
        | none => exact fun _ => hwithdraws
        | some op =>
          cases op with
          | join req => exact fun _ => hwithdraws
          | status _ _ => exact fun _ => hwithdraws
          | withdraw requestId challenge =>
            obtain ⟨rfl, hstatus⟩ := hwithdraws
            have hclear := withdraw_clears (hinv.sweep env.now).toHostInvariant hstatus
            have hnone : (b.message L env sender (some (.withdraw requestId challenge))).host.decided
                requestId = none := hclear
            rw [hnone] at hd
            cases hd
    · exact h.unapproved id hold d approval introductions (message_decided hd)

/-- **Step.** A region that records no closed request keeps closed requests unapproved. -/
theorem advance_closed {env : Env} {b b' : Board} {phase t : Phase}
    (he : Effect L env b phase b' t) (hinv : Inv L b) (h : Closed b)
    (hrec : ∀ id sender req signed, phase.signs = some (id, sender, req) →
      signAndRecord L env.sign sender req = .ok signed → ¬ Ended HostEvent.closes b.log id) :
    Closed b' := by
  have hsweep : Closed (b.sweep L env.now) := by
    have hexpired (e : HostEvent) (he : e ∈ b.host.expired L env.now) := expired_of_mem he
    constructor
    · exact h.log.append_inert fun e he => not_approves_expired (hexpired e he)
    · intro id hended d approval introductions hd
      have hold := (ended_append_iff fun e he => not_closes_expired (hexpired e he)).mp hended
      exact h.unapproved id hold d approval introductions (Option.eq_some_of_filter_eq_some hd)
  cases he with
  | idle => exact h
  | window => exact ⟨h.log, h.unapproved⟩
  | read => exact h
  | swept => exact hsweep
  | resumed => exact hsweep
  | messaged => exact h.message hinv _ _ _
  | @denied id p hp hid =>
    refine ⟨h.log.cons fun _ happroves => (happroves : False).elim, ?_⟩
    intro id' hended d approval introductions hd
    replace hd : Function.update b.host.decided id
      (some ⟨p.sender, p.req.challenge, .denied, env.now⟩) id' = some d := hd
    by_cases heq : id' = id
    · rw [heq, Function.update_self] at hd
      rw [← Option.some.inj hd]
      exact fun hdecision => nomatch hdecision
    · rw [Function.update_of_ne heq] at hd
      rcases ended_cons_iff.mp hended with hnew | hold
      · rcases hnew with hnew | hnew
        · exact absurd (HostEvent.denied.inj hnew).symm heq
        · exact hnew.elim
      · exact h.unapproved id' hold d approval introductions hd
  | @recorded phase t id sender req signed hphase hsigned =>
    refine ⟨h.log.cons fun _ happroves => (happroves : False).elim, ?_⟩
    intro id' hended d approval introductions hd
    replace hd : Function.update b.host.decided id (some ⟨sender, req.challenge,
      .approved signed.approval signed.introductions, env.now⟩) id' = some d := hd
    have hold : Ended HostEvent.closes b.log id' := by
      rcases ended_cons_iff.mp hended with hnew | hold
      · rcases hnew with hnew | hnew
        · cases hnew
        · exact hnew.elim
      · exact hold
    have hne : id' ≠ id := fun heq => hrec id sender req signed hphase hsigned (heq ▸ hold)
    rw [Function.update_of_ne hne] at hd
    exact h.unapproved id' hold d approval introductions hd
  | held =>
    refine ⟨h.log.cons fun _ happroves => (happroves : False).elim, ?_⟩
    intro id' hended
    rcases ended_cons_iff.mp hended with hnew | hold
    · rcases hnew with hnew | hnew
      · cases hnew
      · exact hnew.elim
    · exact h.unapproved id' hold

/-! ## Written once -/

/-- A settled request is not pending, so `deny` settles none again. -/
theorem advance_writtenOnce {env : Env} {b b' : Board} {phase t : Phase}
    (he : Effect L env b phase b' t) (hunsettled : Unsettled b)
    (h : NeverAfter HostEvent.writes HostEvent.settles b.log)
    (hrec : ∀ id sender req signed, phase.signs = some (id, sender, req) →
      signAndRecord L env.sign sender req = .ok signed → ¬ Ended HostEvent.settles b.log id) :
    NeverAfter HostEvent.writes HostEvent.settles b'.log := by
  cases he with
  | idle => exact h
  | window => exact h
  | read => exact h
  | swept => exact h.append_inert fun e he => not_writes_expired (expired_of_mem he)
  | resumed => exact h.append_inert fun e he => not_writes_expired (expired_of_mem he)
  | @messaged sender op =>
    obtain ⟨es, hes, hlog⟩ := message_log (L := L) b env sender op
    rw [hlog]
    apply (h.append_inert fun e he => not_writes_expired (hes e he)).cons
    rintro id (hwrites | hwrites)
    · cases hwrites
    · cases hwrites
  | @denied id p hp hid =>
    apply h.cons
    rintro id' (hwrites | hwrites) ⟨e, he, hsettles⟩
    · rw [← HostEvent.denied.inj hwrites, ← hid] at hsettles
      exact hunsettled.pending p hp ⟨e, he, Or.inl hsettles⟩
    · cases hwrites
  | @recorded phase t id sender req signed hphase hsigned =>
    apply h.cons
    rintro id' (hwrites | hwrites)
    · cases hwrites
    · rw [← HostEvent.recorded.inj hwrites]
      exact hrec id sender req signed hphase hsigned
  | held => exact h.cons fun _ hwrites => absurd (Or.inl hwrites) not_settles_held

/-! ## Runs -/

theorem step_closed {c : Config Board Phase} {m : Move Call Env} (hfresh : FreshIds c m)
    (hrec : RecordsUnless L HostEvent.closes c m) (h : Sound L c ∧ Closed c.shared) :
    Sound L ((deviceServer L).step c m) ∧ Closed ((deviceServer L).step c m).shared := by
  refine ⟨step_inv hfresh h.1, step_board h.2 ?_⟩
  intro i env t hmove ht
  apply advance_closed (advance_effect L env t c.shared) h.1.1 h.2
  intro id sender req signed
  exact hrec i env t id sender req signed hmove ht

theorem step_writtenOnce {c : Config Board Phase} {m : Move Call Env} (hfresh : FreshIds c m)
    (hrec : RecordsUnless L HostEvent.settles c m)
    (h : (Sound L c ∧ Unsettled c.shared) ∧
      NeverAfter HostEvent.writes HostEvent.settles c.shared.log) :
    (Sound L ((deviceServer L).step c m) ∧ Unsettled ((deviceServer L).step c m).shared) ∧
      NeverAfter HostEvent.writes HostEvent.settles ((deviceServer L).step c m).shared.log := by
  refine ⟨step_unsettled hfresh h.1,
    step_board (P := fun b => NeverAfter HostEvent.writes HostEvent.settles b.log) h.2 ?_⟩
  intro i env t hmove ht
  apply advance_writtenOnce (advance_effect L env t c.shared) h.1.2 h.2
  intro id sender req signed
  exact hrec i env t id sender req signed hmove ht

/-- **Run.** If no approval is recorded for a request that was denied or withdrawn, no such
    request is ever answered `Approved`; if none is recorded for a settled request,
    `decided[id]` is written once and never again for a withdrawn request. -/
theorem answered_for_good (L : Lib) (moves : List (Move Call Env))
    (hfresh : Guarded (deviceServer L).step FreshIds start moves) :
    (Guarded (deviceServer L).step (RecordsUnless L HostEvent.closes) start moves →
      NeverAfter HostEvent.approves HostEvent.closes
        (after (deviceServer L).step start moves).shared.log) ∧
    (Guarded (deviceServer L).step (RecordsUnless L HostEvent.settles) start moves →
      NeverAfter HostEvent.writes HostEvent.settles
        (after (deviceServer L).step start moves).shared.log) := by
  constructor
  · intro hrec
    have hclosed : Closed start.shared := ⟨.nil, fun id hended => (not_ended_nil id hended).elim⟩
    have hrun := Guarded.invariant (I := fun c => Sound L c ∧ Closed c.shared)
      (fun _ _ h hm => step_closed hm.1 hm.2 h) (hfresh.and hrec) ⟨sound_start, hclosed⟩
    exact hrun.2.log
  · intro hrec
    have hrun := Guarded.invariant
      (I := fun c => (Sound L c ∧ Unsettled c.shared) ∧
        NeverAfter HostEvent.writes HostEvent.settles c.shared.log)
      (fun _ _ h hm => step_writtenOnce hm.1 hm.2 h) (hfresh.and hrec)
      ⟨⟨sound_start, unsettled_start⟩, .nil⟩
    exact hrun.2

namespace Fixture

/-- After the `Join`, the owner approves and the pen signs, and the requester collects. -/
def approved : List (Move Call Env) :=
  joined ++
    [.arrive (.approve "r1"), .advance 2 (env 2 "r2"), .advance 2 (env 3 "r2"),
     .arrive (.message "node-a" (some (.status "r1" challengeAb))), .advance 3 (env 4 "r2")]

/-- The same, and the owner denies the request while the pen signs. -/
def deniedMeanwhile : List (Move Call Env) :=
  joined ++
    [.arrive (.approve "r1"), .advance 2 (env 2 "r2"),
     .arrive (.deny "r1"), .advance 3 (env 3 "r2"), .advance 2 (env 4 "r2"),
     .arrive (.message "node-a" (some (.status "r1" challengeAb))), .advance 4 (env 5 "r2")]

/-- What the pen signs for the request. -/
def approval : Approval :=
  ⟨codeA, "self", ⟨"owner", "node-a", "signature"⟩, none, "owner-key", some "owner-code"⟩

/-- Each region of the run signs for a request that nothing has ended. -/
def SignsOpen (ends : HostEvent → String → Prop) (c : Config Board Phase) : Move Call Env → Prop
  | .arrive _ => True
  | .advance i _ => ∀ s ∈ (c.tasks[i]?).bind Phase.signs, ¬ Ended ends c.shared.log s.1

instance (ends : HostEvent → String → Prop) [∀ e k, Decidable (ends e k)]
    (c : Config Board Phase) : ∀ m, Decidable (SignsOpen ends c m)
  | .arrive _ => inferInstanceAs (Decidable True)
  | .advance i _ => inferInstanceAs
      (Decidable (∀ s ∈ (c.tasks[i]?).bind Phase.signs, ¬ Ended ends c.shared.log s.1))

theorem records_of_signsOpen {L : Lib} {ends : HostEvent → String → Prop}
    {moves : List (Move Call Env)}
    (h : Guarded (deviceServer L).step (SignsOpen ends) start moves) :
    Guarded (deviceServer L).step (RecordsUnless L ends) start moves := by
  apply h.imp
  intro c m hopen i env t id sender req signed hm ht hsigns _
  cases hm
  apply hopen (id, sender, req)
  rw [ht]
  exact hsigns

end Fixture

/-- The theorem at a run in which a request is approved. -/
theorem answered_for_good_approved :
    NeverAfter HostEvent.approves HostEvent.closes
        (after (deviceServer Fixture.lib).step start Fixture.approved).shared.log ∧
      NeverAfter HostEvent.writes HostEvent.settles
        (after (deviceServer Fixture.lib).step start Fixture.approved).shared.log := by
  obtain ⟨hclosed, honce⟩ := answered_for_good Fixture.lib Fixture.approved
    (Fixture.fresh_of_drawsNew (by decide +kernel))
  exact ⟨hclosed (Fixture.records_of_signsOpen (by decide +kernel)),
    honce (Fixture.records_of_signsOpen (by decide +kernel))⟩

/-- Denied while the pen signed, the request is answered `Approved` all the same. -/
theorem approved_after_denied :
    Guarded (deviceServer Fixture.lib).step FreshIds start Fixture.deniedMeanwhile ∧
      ¬ NeverAfter HostEvent.approves HostEvent.closes
        (after (deviceServer Fixture.lib).step start Fixture.deniedMeanwhile).shared.log := by
  have hlog : (after (deviceServer Fixture.lib).step start Fixture.deniedMeanwhile).shared.log =
      [.answered "node-a" (some (.status "r1" Fixture.challengeAb))
        ⟨200, .approved Fixture.approval, {}⟩ none,
       .recorded "r1", .denied "r1",
       .answered "node-a" (some (.join (Fixture.request Fixture.challengeAb)))
        ⟨202, .pending "r1" "418141", {}⟩ none] := by
    decide +kernel
  refine ⟨Fixture.fresh_of_drawsNew (by decide +kernel), ?_⟩
  rw [hlog]
  intro h
  have hdenied : HostEvent.denied "r1" ∈ [.recorded "r1", .denied "r1",
       .answered "node-a" (some (.join (Fixture.request Fixture.challengeAb)))
        ⟨202, .pending "r1" "418141", {}⟩ none] := List.mem_cons_of_mem _ List.mem_cons_self
  exact List.rel_of_pairwise_cons h hdenied "r1" ⟨rfl, rfl⟩ (Or.inl rfl)

end CirisServer.AddDevice
