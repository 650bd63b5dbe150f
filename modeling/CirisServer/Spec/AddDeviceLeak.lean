import CirisServer.Spec.AddDeviceLog

/-!
# What one requester learns of another

A `Status` or a `Withdraw` is answered from the entries of its own sender and challenge, and
changes no other. Every answer first sweeps the host, so the exception is time: an entry
whose time has run out is dropped by whoever asks next.

The entries of one sender and challenge are a `View`, with the two operations on it; the host
answers as the view does.

Key results:
- `status_view`, `withdraw_view`: the host's answers are the view's
- `withdraw_others`: a `Withdraw` touches nothing outside the view
- `answers_do_not_leak`: two runs with the same view are told the same
-/

namespace CirisServer.AddDevice

open Interleave Run

/-! ## The view of one requester -/

/-- The entries a requester may see. -/
structure View where
  pending : List Held
  decided : String → Option Decided

/-- The entries of the senders and challenges that `own` picks. -/
def Host.restrict (own : String → String → Bool) (h : Host) : View where
  pending := h.pending.filter fun p => own p.sender p.req.challenge
  decided id := (h.decided id).filter fun d => own d.sender d.challenge

/-- Exactly this sender and this challenge. -/
def own (sender challenge : String) (sender' challenge' : String) : Bool :=
  sender' = sender ∧ challenge' = challenge

/-- Any other sender or challenge. -/
def others (sender challenge : String) (sender' challenge' : String) : Bool :=
  !own sender challenge sender' challenge'

namespace View

/-- Time passes. -/
def sweep (L : Lib) (now : Nat) (v : View) : View where
  pending := v.pending.filter (·.keeps L now)
  decided id := (v.decided id).filter (·.keeps now)

/-- The answer to a `Status`. -/
def status (id : String) (v : View) : OpaqueAnswer :=
  match v.decided id with
  | some d =>
    match d.decision with
    | .approved approval introductions => ⟨200, .approved approval, introductions⟩
    | .denied => ⟨200, .denied, {}⟩
  | none =>
    match v.pending.find? (·.id = id) with
    | some p => ⟨202, .pending id p.code, {}⟩
    | none => ⟨404, .unknown, {}⟩

/-- The answer to a `Withdraw`, and what it undoes. -/
def withdraw (id : String) (v : View) : View × OpaqueAnswer × Option Approval :=
  if v.pending.any (·.id = id) then
    ({ v with pending := v.pending.filter (·.id ≠ id) }, ⟨200, .unknown, {}⟩, none)
  else
    match v.decided id with
    | some d =>
      ({ v with decided := Function.update v.decided id none }, ⟨200, .unknown, {}⟩,
        d.decision.undone)
    | none => (v, ⟨404, .unknown, {}⟩, none)

end View

/-! ## The host answers as the view does -/

variable {L : Lib} {sender id challenge : String}

theorem sweep_restrict (P : String → String → Bool) (now : Nat) (h : Host) :
    (h.sweep L now).restrict P = (h.restrict P).sweep L now := by
  have hdecided (id : String) : ((h.decided id).filter (·.keeps now)).filter
      (fun d => P d.sender d.challenge) =
      ((h.decided id).filter fun d => P d.sender d.challenge).filter (·.keeps now) := by
    rw [Option.filter_filter, Option.filter_filter]
    simp only [Bool.and_comm]
  simp only [Host.restrict, Host.sweep, View.sweep, List.filter_filter, hdecided, Bool.and_comm]

theorem isFor_eq (p : Held) :
    p.isFor sender id challenge =
      (decide (p.id = id) && own sender challenge p.sender p.req.challenge) := by
  simp [Held.isFor, own]

theorem find_view (h : Host) :
    h.pending.find? (·.isFor sender id challenge) =
      (h.restrict (own sender challenge)).pending.find? (·.id = id) := by
  rw [Host.restrict, List.find?_filter]
  congr 1
  funext p
  simp [isFor_eq, Bool.and_comm]

theorem any_view (h : Host) :
    h.pending.any (·.isFor sender id challenge) =
      (h.restrict (own sender challenge)).pending.any (·.id = id) := by
  rw [Host.restrict, List.any_filter]
  congr 1
  funext p
  rw [isFor_eq, Bool.and_comm]

theorem own_iff {d : Decided} :
    own sender challenge d.sender d.challenge = true ↔
      d.sender = sender ∧ d.challenge = challenge := by
  simp [own]

/-- The view has the decision, if it is of this sender and challenge. -/
theorem decided_view {h : Host} {d : Decided} (hd : h.decided id = some d) :
    (h.restrict (own sender challenge)).decided id =
      if d.sender = sender ∧ d.challenge = challenge then some d else none := by
  simp only [Host.restrict, hd, Option.filter_some, own_iff]

/-- A `Status` is answered from the view: where another's decision has the id, nothing that is
    pending has it. -/
theorem status_view {h : Host} (hinv : HostInvariant L h) :
    h.status sender id challenge = (h.restrict (own sender challenge)).status id := by
  unfold Host.status View.status
  cases hd : h.decided id with
  | none =>
    have hview : (h.restrict (own sender challenge)).decided id = none := by
      simp only [Host.restrict, hd, Option.filter_none]
    cases hfind : (h.restrict (own sender challenge)).pending.find? (·.id = id) with
    | none => simp only [hview, find_view, hfind]
    | some p => simp only [hview, find_view, hfind]
  | some d =>
    rw [decided_view hd]
    by_cases hours : d.sender = sender ∧ d.challenge = challenge
    · cases hdecision : d.decision with
      | approved approval introductions => simp [hours, hdecision]
      | denied => simp [hours, hdecision]
    · have hother : d.sender ≠ sender ∨ d.challenge ≠ challenge := by
        rw [← not_and_or]
        exact hours
      have hnone : (h.restrict (own sender challenge)).pending.find? (·.id = id) = none := by
        rw [List.find?_eq_none]
        intro p hp heq
        have hundecided := hinv.apart p (List.mem_filter.mp hp).1
        rw [of_decide_eq_true heq, hd] at hundecided
        cases hundecided
      simp [hours, hother, hnone]

/-- Dropping the pending entries of an id, in the host and in the view. -/
theorem filter_view (h : Host) :
    ((h.pending.filter fun p => !p.isFor sender id challenge).filter fun p =>
        own sender challenge p.sender p.req.challenge) =
      (h.restrict (own sender challenge)).pending.filter (·.id ≠ id) := by
  simp only [Host.restrict, List.filter_filter]
  apply List.filter_congr
  intro p _
  rw [isFor_eq]
  cases own sender challenge p.sender p.req.challenge <;> simp

/-- Dropping the decision of an id, in the host and in a view that has it. -/
theorem restrict_update {P : String → String → Bool} (h : Host) (id : String) :
    ({ h with decided := Function.update h.decided id none } : Host).restrict P =
      { h.restrict P with decided := Function.update (h.restrict P).decided id none } := by
  have hdecided : (fun id' => (Function.update h.decided id none id').filter
      fun d => P d.sender d.challenge) = Function.update (h.restrict P).decided id none := by
    funext id'
    by_cases heq : id' = id
    · rw [heq, Function.update_self, Function.update_self]
      rfl
    · rw [Function.update_of_ne heq, Function.update_of_ne heq]
      rfl
  simp only [Host.restrict] at hdecided ⊢
  rw [hdecided]

/-- A `Withdraw` is answered from the view, and changes it as the view says. -/
theorem withdraw_view (sender id challenge : String) (h : Host) :
    (h.withdraw sender id challenge).2 =
        ((h.restrict (own sender challenge)).withdraw id).2 ∧
      (h.withdraw sender id challenge).1.restrict (own sender challenge) =
        ((h.restrict (own sender challenge)).withdraw id).1 := by
  unfold Host.withdraw View.withdraw
  rw [any_view]
  by_cases hany : (h.restrict (own sender challenge)).pending.any (·.id = id) = true
  · rw [if_pos hany, if_pos hany]
    refine ⟨rfl, ?_⟩
    simp only [Host.restrict, filter_view]
  · rw [if_neg hany, if_neg hany]
    cases hd : h.decided id with
    | none =>
      have hview : (h.restrict (own sender challenge)).decided id = none := by
        simp only [Host.restrict, hd, Option.filter_none]
      simp only [hview, and_self]
    | some d =>
      by_cases hours : d.sender = sender ∧ d.challenge = challenge
      · have hview : (h.restrict (own sender challenge)).decided id = some d := by
          rw [decided_view hd, if_pos hours]
        simp only [hview, if_pos hours, restrict_update, and_self]
      · have hview : (h.restrict (own sender challenge)).decided id = none := by
          rw [decided_view hd, if_neg hours]
        simp only [hview, if_neg hours, and_self]

/-- A `Withdraw` leaves every entry of another sender or challenge as it was. -/
theorem withdraw_others (h : Host) :
    (h.withdraw sender id challenge).1.restrict (others sender challenge) =
      h.restrict (others sender challenge) := by
  rcases withdraw_cases sender id challenge h with
    ⟨-, hwithdraw⟩ | ⟨-, d, hd, hsender, hchallenge, hwithdraw⟩ | hwithdraw
  · rw [hwithdraw]
    simp only [Host.restrict, List.filter_filter, View.mk.injEq, and_true]
    apply List.filter_congr
    intro p _
    rw [isFor_eq, others]
    cases own sender challenge p.sender p.req.challenge <;> simp
  · rw [hwithdraw, restrict_update]
    have hnone : (h.restrict (others sender challenge)).decided id = none := by
      simp [Host.restrict, hd, Option.filter_some, others, own, hsender, hchallenge]
    have hself : Function.update (h.restrict (others sender challenge)).decided id none =
        (h.restrict (others sender challenge)).decided := by
      rw [← hnone]
      exact Function.update_eq_self id _
    rw [hself]
  · rw [hwithdraw]

/-! ## Two runs -/

/-- A requester's question: a `Status` or a `Withdraw`, of any id. -/
def JoinOp.asks (challenge : String) : JoinOp → Prop
  | .join _ => False
  | .status _ challenge' => challenge' = challenge
  | .withdraw _ challenge' => challenge' = challenge

/-- What `sender` is told and changes with `op` on `h` depends on its own entries only, and is
    limited to them, but for the sweep that every answer begins with. -/
structure NoLeak (L : Lib) (now : Nat) (uuid sender challenge : String) (op : JoinOp)
    (h h' : Host) : Prop where
  told : h.restrict (own sender challenge) = h'.restrict (own sender challenge) →
    (h.answer L now uuid sender (some op)).2 = (h'.answer L now uuid sender (some op)).2
  effect : h.restrict (own sender challenge) = h'.restrict (own sender challenge) →
    (h.answer L now uuid sender (some op)).1.restrict (own sender challenge) =
      (h'.answer L now uuid sender (some op)).1.restrict (own sender challenge)
  untouched : (h.answer L now uuid sender (some op)).1.restrict (others sender challenge) =
    (h.sweep L now).restrict (others sender challenge)

/-- An approval is sent only to the node it names, and undone only by that node's own
    `Withdraw`. -/
structure OnlyToNamed (L : Lib) (h : Host) : Prop where
  sent : ∀ now uuid sender op approval,
    (h.answer L now uuid sender op).2.1.payload.approval? = some approval →
    L.decode approval.nodeCode = .ok sender
  undone : ∀ now uuid sender op approval,
    (h.answer L now uuid sender op).2.2 = some approval →
    (∃ id challenge, op = some (.withdraw id challenge)) ∧ L.decode approval.nodeCode = .ok sender

/-- The answer to a question, as the view of its sender and challenge. -/
theorem answer_noLeak {b b' : Board} (hinv : Inv L b) (hinv' : Inv L b') (now : Nat)
    (uuid : String) {op : JoinOp} (hop : op.asks challenge) :
    NoLeak L now uuid sender challenge op b.host b'.host := by
  have hswept : HostInvariant L (b.host.sweep L now) := (hinv.sweep now).toHostInvariant
  have hswept' : HostInvariant L (b'.host.sweep L now) := (hinv'.sweep now).toHostInvariant
  have hsweep (hview : b.host.restrict (own sender challenge) =
      b'.host.restrict (own sender challenge)) :
      (b.host.sweep L now).restrict (own sender challenge) =
        (b'.host.sweep L now).restrict (own sender challenge) := by
    rw [sweep_restrict, sweep_restrict, hview]
  cases op with
  | join req => exact hop.elim
  | status id challenge' =>
    obtain rfl : challenge' = challenge := hop
    constructor
    · intro hview
      simp only [Host.answer]
      rw [status_view hswept, status_view hswept', hsweep hview]
    · exact hsweep
    · rfl
  | withdraw id challenge' =>
    obtain rfl : challenge' = challenge := hop
    have hanswer := withdraw_view sender id challenge' (b.host.sweep L now)
    have hanswer' := withdraw_view sender id challenge' (b'.host.sweep L now)
    constructor
    · intro hview
      rw [hsweep hview] at hanswer
      exact hanswer.1.trans hanswer'.1.symm
    · intro hview
      rw [hsweep hview] at hanswer
      exact hanswer.2.trans hanswer'.2.symm
    · exact withdraw_others _

theorem onlyToNamed_of_inv {b : Board} (hinv : Inv L b) : OnlyToNamed L b.host := by
  constructor
  · intro now uuid sender op approval hsent
    cases op with
    | none => cases hsent
    | some op =>
      cases op with
      | join req =>
        simp only [Host.answer] at hsent
        rcases join_cases L now uuid sender req (b.host.sweep L now) with
          ⟨-, hrefused | ⟨held, -, -, -, -, hheld⟩⟩ | ⟨-, -, -, -, hjoin⟩
        · rw [hrefused] at hsent
          cases hsent
        · rw [hheld] at hsent
          cases hsent
        · rw [hjoin] at hsent
          cases hsent
      | status id challenge =>
        obtain ⟨d, introductions, hd, hsender, -, hdecision⟩ := status_approved hsent
        rw [← hsender]
        exact (hinv.sweep now).approvals id d approval introductions hd hdecision
      | withdraw id challenge =>
        simp only [Host.answer] at hsent
        rcases withdraw_cases sender id challenge (b.host.sweep L now) with
          ⟨-, hwithdraw⟩ | ⟨-, d, -, -, -, hwithdraw⟩ | hwithdraw
        · rw [hwithdraw] at hsent
          cases hsent
        · rw [hwithdraw] at hsent
          cases hsent
        · rw [hwithdraw] at hsent
          cases hsent
  · intro now uuid sender op approval hundone
    cases op with
    | none => cases hundone
    | some op =>
      cases op with
      | join req => cases hundone
      | status id challenge => cases hundone
      | withdraw id challenge =>
        refine ⟨⟨id, challenge, rfl⟩, ?_⟩
        simp only [Host.answer] at hundone
        rcases withdraw_cases sender id challenge (b.host.sweep L now) with
          ⟨-, hwithdraw⟩ | ⟨-, d, hd, hsender, -, hwithdraw⟩ | hwithdraw
        · rw [hwithdraw] at hundone
          cases hundone
        · rw [hwithdraw] at hundone
          cases hdecision : d.decision with
          | denied =>
            simp only [hdecision, Decision.undone] at hundone
            cases hundone
          | approved approval' introductions =>
            simp only [hdecision, Decision.undone, Option.some.injEq] at hundone
            rw [← hsender, ← hundone]
            exact (hinv.sweep now).approvals id d approval' introductions hd hdecision
        · rw [hwithdraw] at hundone
          cases hundone

/-- In any two runs: a requester with the same entries of its own is told the same and changes
    the same, changes nothing of others but by the sweep, and approvals go only to the node
    they name. -/
theorem answers_do_not_leak (L : Lib) (moves moves' : List (Move Call Env))
    (hfresh : Guarded (deviceServer L).step FreshIds start moves)
    (hfresh' : Guarded (deviceServer L).step FreshIds start moves')
    (now : Nat) (uuid sender challenge : String) (op : JoinOp) (hop : op.asks challenge) :
    NoLeak L now uuid sender challenge op
        (after (deviceServer L).step start moves).shared.host
        (after (deviceServer L).step start moves').shared.host ∧
      OnlyToNamed L (after (deviceServer L).step start moves).shared.host :=
  ⟨answer_noLeak (inv_after hfresh) (inv_after hfresh') now uuid hop,
    onlyToNamed_of_inv (inv_after hfresh)⟩

/-- The theorem at a host that holds `node-a`'s request, and at one that holds none, for a
    node that has asked neither. -/
theorem answers_do_not_leak_stranger :
    NoLeak Fixture.lib (secs 2) "r2" "ciris-server" Fixture.challengeAb
        (.status "r1" Fixture.challengeAb)
        (after (deviceServer Fixture.lib).step start Fixture.joined).shared.host
        (after (deviceServer Fixture.lib).step start []).shared.host ∧
      OnlyToNamed Fixture.lib
        (after (deviceServer Fixture.lib).step start Fixture.joined).shared.host :=
  answers_do_not_leak Fixture.lib Fixture.joined [] (Fixture.fresh_of_drawsNew (by decide +kernel))
    trivial (secs 2) "r2" "ciris-server" Fixture.challengeAb _ rfl

/-- A stranger's `Status` drops `node-a`'s request once its time has run out. -/
theorem status_sweeps_others :
    Guarded (deviceServer Fixture.lib).step FreshIds start Fixture.joined ∧
      ((after (deviceServer Fixture.lib).step start Fixture.joined).shared.host.answer Fixture.lib
          (secs 1000) "r2" "ciris-server" (some (.status "r9" Fixture.challengeCd))).1.restrict
          (others "ciris-server" Fixture.challengeCd) ≠
        (after (deviceServer Fixture.lib).step start Fixture.joined).shared.host.restrict
          (others "ciris-server" Fixture.challengeCd) := by
  refine ⟨Fixture.fresh_of_drawsNew (by decide +kernel), ?_⟩
  intro heq
  have hlength := congrArg (fun v => v.pending.length) heq
  exact absurd hlength (by decide +kernel)

end CirisServer.AddDevice
