import CirisServer.Spec.AddDeviceLog

/-!
# The answer to a repeated `Join`

`start` draws a new challenge for every ask, but a sender that already has a pending request
is answered with that request: its id, and the code of its old challenge. The new challenge is
kept nowhere, so the next `Status` is answered `Unknown`. A `Join` is answered for its own
challenge exactly if its sender has no pending request with another one.

Key results:
- `advance_kept`: a pending request stays what it is, or leaves
- `join_agrees_iff`: when the answer to a `Join` is about that `Join`
-/

namespace CirisServer.AddDevice

open Interleave Run

/-! ## The property -/

/-- The 202 that `Join` and `Status` answer. -/
def pendingAnswer (id code : String) : OpaqueAnswer := ⟨202, .pending id code, {}⟩

/-- What call `i`, a `Join` about to run, is answered is about this `Join`: the code is the
    code of its challenge, and whatever comes later, a `Status` with the challenge is answered
    the same, until the request is decided, withdrawn or expired. -/
def Agrees (L : Lib) (c : Config Board Phase) (i : Nat) (env : Env) (sender : String)
    (req : JoinRequest) : Prop :=
  ∀ id code, (c.shared.host.answer L env.now env.uuid sender (some (.join req))).2.1 =
      pendingAnswer id code →
    code = matchCode L sender req.challenge ∧
    ∀ later env', Guarded (deviceServer L).step FreshIds
        ((deviceServer L).step c (.advance i env)) later →
      ∀ b, b = (after (deviceServer L).step ((deviceServer L).step c (.advance i env)) later).shared →
        ¬ Ended HostEvent.leaves
          (b.message L env' sender (some (.status id req.challenge))).log id →
        (b.host.answer L env'.now env'.uuid sender (some (.status id req.challenge))).2.1 =
          pendingAnswer id code

/-- If the host takes the `Join` at all, its sender has no pending request with another
    challenge. -/
def OneChallenge (L : Lib) (now : Nat) (sender : String) (req : JoinRequest) (h : Host) : Prop :=
  h.isOpen now = true → namesSigner L sender req = true → 32 ≤ req.challenge.utf8ByteSize →
    ∀ p ∈ h.pending, p.sender = sender → p.req.challenge = req.challenge

/-! ## A request that is kept -/

/-- The request is pending, as it was asked, or has left. -/
def Kept (id sender challenge code : String) (b : Board) : Prop :=
  (∃ p ∈ b.host.pending, p.isFor sender id challenge = true ∧ p.code = code) ∨
    Ended HostEvent.leaves b.log id

variable {L : Lib} {id sender challenge code : String}

theorem isFor_iff {p : Held} {sender id challenge : String} :
    p.isFor sender id challenge = true ↔
      p.id = id ∧ p.sender = sender ∧ p.req.challenge = challenge := by
  simp [Held.isFor]

theorem Kept.sweep {b : Board} (h : Kept id sender challenge code b) (now : Nat) :
    Kept id sender challenge code (b.sweep L now) := by
  rcases h with ⟨p, hp, hfor, hcode⟩ | hended
  · cases hkeeps : p.keeps L now with
    | true => exact Or.inl ⟨p, List.mem_filter.mpr ⟨hp, hkeeps⟩, hfor, hcode⟩
    | false =>
      right
      have hdropped : p ∈ b.host.pending.filter fun p => !p.keeps L now :=
        List.mem_filter.mpr ⟨hp, by rw [hkeeps]; rfl⟩
      have hexpired : .expired p.id ∈ b.host.expired L now :=
        List.mem_map.mpr ⟨p, hdropped, rfl⟩
      refine ⟨.expired p.id, List.mem_append_left _ hexpired, Or.inr ?_⟩
      rw [(isFor_iff.mp hfor).1]
  · exact Or.inr (hended.append _)

/-- Holding a request drops none. -/
theorem mem_holdFirst_of_mem {now : Nat} {id : String} {pending : List Held} {p : Held}
    (hp : p ∈ pending) : ∃ q ∈ holdFirst now id pending, q.unheld = p.unheld := by
  have hmem : p.unheld ∈ pending.map Held.unheld := List.mem_map.mpr ⟨p, hp, rfl⟩
  rw [← holdFirst_keeps now id] at hmem
  exact List.mem_map.mp hmem

/-- A message drops a request it does not withdraw only if its time ran out. -/
theorem Kept.message {b : Board} (h : Kept id sender challenge code b) (env : Env)
    (sender' : String) (op : Option JoinOp) :
    Kept id sender challenge code (b.message L env sender' op) := by
  cases op with
  | none =>
    rcases h with hpending | hended
    · exact Or.inl hpending
    · exact Or.inr (hended.append [_])
  | some op =>
    have hswept := h.sweep (L := L) env.now
    rcases hswept with ⟨p, hp, hfor, hcode⟩ | hended
    · cases op with
      | join req =>
        left
        rcases join_cases L env.now env.uuid sender' req (b.host.sweep L env.now) with
          ⟨hhost, -⟩ | ⟨-, -, -, -, hjoin⟩
        · simp only [Board.message, Host.answer, hhost]
          exact ⟨p, hp, hfor, hcode⟩
        · simp only [Board.message, Host.answer, hjoin]
          exact ⟨p, List.mem_append_left _ hp, hfor, hcode⟩
      | status _ _ => exact Or.inl ⟨p, hp, hfor, hcode⟩
      | withdraw id' challenge' =>
        rcases withdraw_cases sender' id' challenge' (b.host.sweep L env.now) with
          ⟨hany, hwithdraw⟩ | ⟨-, d, -, -, -, hwithdraw⟩ | hwithdraw
        · simp only [Kept, Board.message, Host.answer, hwithdraw]
          cases hdrops : p.isFor sender' id' challenge' with
          | false =>
            left
            exact ⟨p, List.mem_filter.mpr ⟨hp, by rw [hdrops]; rfl⟩, hfor, hcode⟩
          | true =>
            right
            refine ⟨_, List.mem_cons_self, Or.inl (Or.inr ?_)⟩
            exact ⟨(isFor_iff.mp hdrops).1.symm.trans (isFor_iff.mp hfor).1, rfl⟩
        · simp only [Kept, Board.message, Host.answer, hwithdraw]
          exact Or.inl ⟨p, hp, hfor, hcode⟩
        · simp only [Kept, Board.message, Host.answer, hwithdraw]
          exact Or.inl ⟨p, hp, hfor, hcode⟩
    · exact Or.inr (hended.append [_])

/-- **Step.** A region leaves a pending request as it was asked, or says that it left. -/
theorem advance_kept {env : Env} {b b' : Board} {phase t : Phase} (he : Effect L env b phase b' t)
    (h : Kept id sender challenge code b) : Kept id sender challenge code b' := by
  cases he with
  | idle => exact h
  | window => exact h
  | read => exact h
  | swept => exact h.sweep _
  | resumed => exact h.sweep _
  | messaged => exact h.message _ _ _
  | @denied id' p hp hid =>
    rcases h with ⟨q, hq, hfor, hcode⟩ | hended
    · by_cases heq : q.id = id'
      · right
        refine ⟨_, List.mem_cons_self, Or.inl (Or.inl (Or.inl ?_))⟩
        rw [← heq, (isFor_iff.mp hfor).1]
      · left
        have hstays : q ∈ b.host.pending.eraseP (·.id = id') :=
          (List.mem_eraseP_of_neg (by simpa using heq)).mpr hq
        exact ⟨q, hstays, hfor, hcode⟩
    · exact Or.inr (hended.append [_])
  | @recorded phase t id' sender' req signed hphase hsigned =>
    rcases h with ⟨q, hq, hfor, hcode⟩ | hended
    · by_cases heq : q.id = id'
      · right
        refine ⟨_, List.mem_cons_self, Or.inl (Or.inl (Or.inr ?_))⟩
        rw [← heq, (isFor_iff.mp hfor).1]
      · left
        exact ⟨q, List.mem_filter.mpr ⟨hq, decide_eq_true heq⟩, hfor, hcode⟩
    · exact Or.inr (hended.append [_])
  | held =>
    rcases h with ⟨q, hq, hfor, hcode⟩ | hended
    · left
      obtain ⟨p, hp, heq⟩ := mem_holdFirst_of_mem hq
      obtain ⟨hid, hsender, hreq, hcode', -⟩ := unheld_fields heq
      rw [isFor_iff, ← hid, ← hsender, ← hreq] at hfor
      exact ⟨p, hp, isFor_iff.mpr hfor, hcode' ▸ hcode⟩
    · exact Or.inr (hended.append [_])

/-- A `Status` for a pending request is answered with it, unless its time has run out. -/
theorem status_of_kept {b : Board} (hinv : Inv L b) (h : Kept id sender challenge code b)
    (env : Env)
    (hopen : ¬ Ended HostEvent.leaves
      (b.message L env sender (some (.status id challenge))).log id) :
    (b.host.answer L env.now env.uuid sender (some (.status id challenge))).2.1 =
      pendingAnswer id code := by
  rcases h.sweep (L := L) env.now with ⟨p, hp, hfor, hcode⟩ | hended
  · have hswept := hinv.sweep env.now
    obtain ⟨hid, -, -⟩ := isFor_iff.mp hfor
    have hundecided : (b.host.sweep L env.now).decided id = none := hid ▸ hswept.apart p hp
    have hfind : ∃ q, (b.host.sweep L env.now).pending.find? (·.isFor sender id challenge) =
        some q := by
      rw [← Option.isSome_iff_exists, List.find?_isSome]
      exact ⟨p, hp, hfor⟩
    obtain ⟨q, hq⟩ := hfind
    have hqfor := List.find?_some hq
    have hsame := same_held hswept.toHostInvariant (List.mem_of_find?_eq_some hq) hp
      ((isFor_iff.mp hqfor).1.trans hid.symm)
    simp only [Host.answer, Host.status, hundecided, hq]
    rw [hsame, hcode]
    rfl
  · exact absurd (hended.append [_]) hopen

theorem step_kept {c : Config Board Phase} (m : Move Call Env)
    (h : Kept id sender challenge code c.shared) :
    Kept id sender challenge code ((deviceServer L).step c m).shared :=
  step_board h fun _ _ _ _ _ => advance_kept (advance_effect L _ _ _) h

/-- What a `Join` is answered is pending after it, under the challenge that was asked first. -/
theorem join_answer {b : Board} {env : Env} {req : JoinRequest}
    (hanswer : (b.host.answer L env.now env.uuid sender (some (.join req))).2.1 =
      pendingAnswer id code) :
    ∃ p ∈ (b.message L env sender (some (.join req))).host.pending,
      p.id = id ∧ p.sender = sender ∧ p.code = code ∧
      (p.req = req ∨ p ∈ (b.host.sweep L env.now).pending ∧
        (b.host.sweep L env.now).isOpen env.now = true ∧ namesSigner L sender req = true ∧
        32 ≤ req.challenge.utf8ByteSize) := by
  rcases join_cases L env.now env.uuid sender req (b.host.sweep L env.now) with
    ⟨hhost, hrefused | ⟨held, hfind, hopen, hnames, hlong, hheld⟩⟩ | ⟨-, -, -, -, hjoin⟩
  · have hpayload := congrArg OpaqueAnswer.payload hanswer
    simp only [Host.answer, hrefused] at hpayload
    cases hpayload
  · simp only [Host.answer, hheld, pendingAnswer, OpaqueAnswer.mk.injEq, JoinAnswer.pending.injEq,
      true_and, and_true] at hanswer
    have hmem := List.mem_of_find?_eq_some hfind
    have hsender : held.sender = sender := by simpa using List.find?_some hfind
    refine ⟨held, ?_, hanswer.1, hsender, hanswer.2,
      Or.inr ⟨hmem, hopen, hnames, hlong⟩⟩
    simp only [Board.message, Host.answer, hhost]
    exact hmem
  · simp only [Host.answer, hjoin, pendingAnswer, OpaqueAnswer.mk.injEq, JoinAnswer.pending.injEq,
      true_and, and_true] at hanswer
    simp only [Board.message, Host.answer, hjoin]
    exact ⟨_, List.mem_append_right _ List.mem_cons_self, hanswer.1, rfl, hanswer.2, Or.inl rfl⟩

/-- A repeated `Join` is answered with the request that is held. -/
theorem join_repeat {now : Nat} {uuid : String} {req : JoinRequest} {h : Host} {held : Held}
    (hopen : h.isOpen now = true) (hnames : namesSigner L sender req = true)
    (hlong : 32 ≤ req.challenge.utf8ByteSize)
    (hfind : h.pending.find? (·.sender = sender) = some held) :
    h.join L now uuid sender req = (h, pendingAnswer held.id held.code) := by
  have hnot : ¬ req.challenge.utf8ByteSize < 32 := Nat.not_lt.mpr hlong
  simp [Host.join, hopen, hnames, hnot, hfind, pendingAnswer]

/-- `Status` answers 202 only for a request that is pending under this challenge. -/
theorem isFor_of_status {h : Host} (hstatus : h.status sender id challenge = pendingAnswer id code) :
    ∃ q ∈ h.pending, q.isFor sender id challenge = true := by
  unfold Host.status at hstatus
  cases hd : h.decided id with
  | some d =>
    have hpayload := congrArg OpaqueAnswer.payload hstatus
    rw [hd] at hpayload
    by_cases hother : d.sender ≠ sender ∨ d.challenge ≠ challenge
    · simp [hother, pendingAnswer] at hpayload
    · cases hdecision : d.decision <;> simp [hother, hdecision, pendingAnswer] at hpayload
  | none =>
    rw [hd] at hstatus
    cases hfind : h.pending.find? (·.isFor sender id challenge) with
    | none => simp [hfind, pendingAnswer] at hstatus
    | some q => exact ⟨q, List.mem_of_find?_eq_some hfind, List.find?_some hfind⟩

/-- The answer to a `Join` is about that `Join` exactly if its sender has no pending request
    with another challenge. -/
theorem join_agrees_iff (L : Lib) (moves : List (Move Call Env)) (i : Nat) (env : Env)
    (sender : String) (req : JoinRequest)
    (hfresh : Guarded (deviceServer L).step FreshIds start moves)
    (htask : (after (deviceServer L).step start moves).tasks[i]? =
      some (.called (.message sender (some (.join req)))))
    (hnew : env.uuid ∉ (after (deviceServer L).step start moves).shared.minted) :
    Agrees L (after (deviceServer L).step start moves) i env sender req ↔
      OneChallenge L env.now sender req
        ((after (deviceServer L).step start moves).shared.host.sweep L env.now) := by
  have hrun := Guarded.invariant (I := fun c => Sound L c ∧ Unsettled c.shared)
    (fun _ _ h hm => step_unsettled hm h) hfresh ⟨sound_start, unsettled_start⟩
  generalize after (deviceServer L).step start moves = c at *
  -- the configuration once the `Join` has run
  have hdraws : FreshIds c (.advance i env) := by
    intro i' env' _ _ hm _
    cases hm
    exact hnew
  have hshared : ((deviceServer L).step c (.advance i env)).shared =
      c.shared.message L env sender (some (.join req)) := by
    rw [System.step_advance_some _ _ htask]
    rfl
  have hrun' := step_unsettled hdraws hrun
  have hswept := hrun.1.1.sweep env.now
  constructor
  · intro hagrees hopen hnames hlong p hp hsender
    -- the `Join` is answered with `p`, so the next `Status` finds `p` under the new challenge
    obtain ⟨held, hfind⟩ : ∃ held, (c.shared.host.sweep L env.now).pending.find?
        (·.sender = sender) = some held := by
      rw [← Option.isSome_iff_exists, List.find?_isSome]
      exact ⟨p, hp, decide_eq_true hsender⟩
    have hheld := List.mem_of_find?_eq_some hfind
    have hsame : held = p := by
      apply List.inj_on_of_nodup_map hswept.senders hheld hp
      rw [hsender]
      simpa using List.find?_some hfind
    have hjoin : (c.shared.host.sweep L env.now).join L env.now env.uuid sender req =
        (c.shared.host.sweep L env.now, pendingAnswer held.id held.code) :=
      join_repeat hopen hnames hlong hfind
    have hhost : ((deviceServer L).step c (.advance i env)).shared.host =
        c.shared.host.sweep L env.now := by
      simp only [hshared, Board.message, Host.answer, hjoin]
    have hkeeps : held ∈ (((deviceServer L).step c (.advance i env)).shared.host.sweep
        L env.now).pending := by
      rw [hhost]
      exact List.mem_filter.mpr ⟨hheld, (List.mem_filter.mp hheld).2⟩
    have hunsettled : Unsettled (((deviceServer L).step c (.advance i env)).shared.message L env
        sender (some (.status held.id req.challenge))) :=
      hrun'.2.message hrun'.1.1 (by rintro _ ⟨⟩)
    have hanswer : (c.shared.host.answer L env.now env.uuid sender (some (.join req))).2.1 =
        pendingAnswer held.id held.code := by
      simp only [Host.answer, hjoin]
    have hstatus := (hagrees held.id held.code hanswer).2 [] env trivial _ rfl
      (hunsettled.pending held hkeeps)
    obtain ⟨q, hq, hqfor⟩ := isFor_of_status hstatus
    have hqheld := same_held (hrun'.1.1.sweep env.now).toHostInvariant hq hkeeps
      (isFor_iff.mp hqfor).1
    rw [← hsame, ← hqheld]
    exact (isFor_iff.mp hqfor).2.2
  · intro hone id code hanswer
    obtain ⟨p, hp, hid, hsender, hcode, hreq⟩ := join_answer hanswer
    have hchallenge : p.req.challenge = req.challenge := by
      rcases hreq with hreq | ⟨hold, hopen, hnames, hlong⟩
      · rw [hreq]
      · exact hone hopen hnames hlong p hold hsender
    rw [← hshared] at hp
    constructor
    · rw [← hcode, hrun'.1.1.coded p hp, hsender, hchallenge]
    · intro later env' hlater b hb hopen
      have hkept : Kept id sender req.challenge code
          ((deviceServer L).step c (.advance i env)).shared :=
        Or.inl ⟨p, hp, isFor_iff.mpr ⟨hid, hsender, hchallenge⟩, hcode⟩
      have hlast := Guarded.invariant
        (I := fun c => Sound L c ∧ Kept id sender req.challenge code c.shared)
        (fun c m h hm => ⟨step_inv hm h.1, step_kept m h.2⟩) hlater ⟨hrun'.1, hkept⟩
      subst hb
      exact status_of_kept hlast.1.1 hlast.2 env' hopen

namespace Fixture

/-- The same node asks again, with another challenge. -/
def asksAgain : List (Move Call Env) :=
  joined ++ [.arrive (.message "node-a" (some (.join (request challengeCd))))]

/-- The same node asks again, with the same challenge. -/
def repeats : List (Move Call Env) :=
  joined ++ [.arrive (.message "node-a" (some (.join (request challengeAb))))]

end Fixture

/-- The theorem at a run in which a node repeats its `Join` as it was. -/
theorem join_agrees_repeat :
    Agrees Fixture.lib (after (deviceServer Fixture.lib).step start Fixture.repeats) 2
      (Fixture.env 2 "r2") "node-a" (Fixture.request Fixture.challengeAb) := by
  rw [join_agrees_iff Fixture.lib Fixture.repeats 2 (Fixture.env 2 "r2") "node-a"
    (Fixture.request Fixture.challengeAb) (Fixture.fresh_of_drawsNew (by decide +kernel))
    (by decide +kernel) (by decide +kernel)]
  intro _ _ _
  decide +kernel

/-- A node that asks again is told the code of its old challenge. -/
theorem new_challenge_gets_old_code :
    Guarded (deviceServer Fixture.lib).step FreshIds start Fixture.asksAgain ∧
      ¬ Agrees Fixture.lib (after (deviceServer Fixture.lib).step start Fixture.asksAgain) 2
        (Fixture.env 2 "r2") "node-a" (Fixture.request Fixture.challengeCd) := by
  refine ⟨Fixture.fresh_of_drawsNew (by decide +kernel), ?_⟩
  intro h
  have hcode := (h "r1" "418141" (by decide +kernel)).1
  exact absurd hcode (by decide +kernel)

end CirisServer.AddDevice
