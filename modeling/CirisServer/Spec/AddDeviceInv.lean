import CirisServer.ForStd.List
import CirisServer.Native.AddDevice

/-!
# What holds of the add-device host

Whatever calls interleave, and at whatever times: the pending requests are few, well formed and
of different senders, a request is pending or decided but not both, and a request enters only
through an open window. Request ids are fresh, as those of `uuid` are.

Key results:
- `advance_effect`: what one region can do
- `advance_inv`: the invariant, region by region
- `host_invariant`: every run
-/

namespace CirisServer.AddDevice

open Interleave Run

/-! ## What one region can do -/

/-- The call has no request in hand. -/
def Phase.idle : Phase → Bool
  | .called _ => false
  | .signing .. => false
  | .waiting .. => true
  | .resuming .. => false
  | .told _ => true
  | .ended => true

/-- The id, the sender and the request the owner's pen is signing for. -/
def Phase.signs : Phase → Option (String × String × JoinRequest)
  | .signing id sender req _ => some (id, sender, req)
  | .resuming id _ sender req _ => some (id, sender, req)
  | _ => none

/-- What a region does to the board, and where it leaves its call. -/
inductive Effect (L : Lib) (env : Env) (b : Board) : Phase → Board → Phase → Prop where
  | idle {phase t : Phase} (ht : t.idle = true) : Effect L env b phase b t
  | window {phase : Phase} {w : Option Nat} {reply : OwnerReply} :
      Effect L env b phase { b with host := { b.host with windowUntil := w } } (.told reply)
  | read {id : String} {p : Held} (hp : p ∈ b.host.pending) (hid : p.id = id) :
      Effect L env b (.called (.approve id)) b (.signing id p.sender p.req p.code)
  | swept {phase t : Phase} (ht : t.idle = true) : Effect L env b phase (b.sweep L env.now) t
  | resumed {id occ : String} {p : Held} (hp : p ∈ (b.sweep L env.now).host.pending)
      (hid : p.id = id) :
      Effect L env b (.waiting id occ) (b.sweep L env.now) (.resuming id occ p.sender p.req p.code)
  | messaged {sender : String} {op : Option JoinOp} :
      Effect L env b (.called (.message sender op)) (b.message L env sender op) .ended
  | denied {id : String} {p : Held} (hp : p ∈ b.host.pending) (hid : p.id = id) :
      Effect L env b (.called (.deny id))
        { b with
          host := { b.host with
            pending := b.host.pending.eraseP (·.id = id)
            decided := Function.update b.host.decided id
              (some ⟨p.sender, p.req.challenge, .denied, env.now⟩) }
          log := .denied id :: b.log }
        (.told .denied)
  | recorded {phase t : Phase} {id sender : String} {req : JoinRequest} {signed : Signed}
      (hphase : phase.signs = some (id, sender, req))
      (hsigned : signAndRecord L env.sign sender req = .ok signed) (ht : t.idle = true) :
      Effect L env b phase (b.recordApproved env.now id sender req.challenge signed) t
  | held {id sender code detail : String} {req : JoinRequest} :
      Effect L env b (.signing id sender req code)
        { b with
          host := { b.host with pending := holdFirst env.now id b.host.pending }
          log := .held id code sender req.occurrenceKeyId detail :: b.log }
        (.waiting id req.occurrenceKeyId)

/-- The region of a call does one of these things. -/
theorem advance_effect (L : Lib) (env : Env) (phase : Phase) (b : Board) :
    Effect L env b phase (phase.advance L env b).1 (phase.advance L env b).2 := by
  cases phase with
  | called call =>
    cases call with
    | message sender op => exact .messaged
    | openWindow seconds => exact .window
    | listRequests => exact .swept rfl
    | deny id =>
      simp only [Phase.advance, Board.deny, Host.deny]
      cases hfind : b.host.pending.find? (·.id = id) with
      | none => exact .idle rfl
      | some p =>
        have hid : p.id = id := by simpa using List.find?_some hfind
        exact .denied (List.mem_of_find?_eq_some hfind) hid
    | approve id =>
      simp only [Phase.advance, Board.approve]
      cases hfind : b.host.pending.find? (·.id = id) with
      | none => exact .idle rfl
      | some p =>
        have hid : p.id = id := by simpa using List.find?_some hfind
        exact .read (List.mem_of_find?_eq_some hfind) hid
  | signing id sender req code =>
    simp only [Phase.advance, Board.finishApprove]
    cases hsign : signAndRecord L env.sign sender req with
    | ok signed => exact .recorded rfl hsign rfl
    | error e =>
      cases e with
      | held detail => exact .held
      | failed detail => exact .idle rfl
  | waiting id occ =>
    simp only [Phase.advance, Board.recheck]
    cases hfind : (b.sweep L env.now).host.pending.find?
        (fun p => p.id = id ∧ p.heldSince.isSome) with
    | none => exact .swept rfl
    | some p =>
      have hp := List.mem_of_find?_eq_some hfind
      have hfound := List.find?_some hfind
      simp only [decide_eq_true_eq] at hfound
      cases env.roster with
      | error e => exact .swept rfl
      | ok roster =>
        by_cases hroster : roster.contains occ = true
        · simp only [hroster, if_true]
          exact .resumed hp hfound.1
        · simp only [hroster]
          exact .swept rfl
  | resuming id occ sender req code =>
    simp only [Phase.advance, Board.finishResume]
    cases hsign : signAndRecord L env.sign sender req with
    | ok signed => exact .recorded rfl hsign rfl
    | error e => exact .idle rfl
  | told reply => exact .idle rfl
  | ended => exact .idle rfl

/-- A `Join` leaves the host alone, or holds the request under the new id. -/
theorem join_cases (L : Lib) (now : Nat) (uuid sender : String) (req : JoinRequest) (h : Host) :
    ((h.join L now uuid sender req).1 = h ∧
      ((h.join L now uuid sender req).2.payload = .notAccepting ∨
        ∃ held, h.pending.find? (·.sender = sender) = some held ∧
          h.isOpen now = true ∧ namesSigner L sender req = true ∧
            32 ≤ req.challenge.utf8ByteSize ∧
            (h.join L now uuid sender req).2 = ⟨202, .pending held.id held.code, {}⟩)) ∨
    (h.isOpen now = true ∧ namesSigner L sender req = true ∧
      h.pending.find? (·.sender = sender) = none ∧ h.pending.length < pendingCeiling ∧
      h.join L now uuid sender req =
        ({ h with pending := h.pending ++
            [⟨uuid, sender, req, matchCode L sender req.challenge, now, none⟩] },
          ⟨202, .pending uuid (matchCode L sender req.challenge), {}⟩)) := by
  unfold Host.join
  by_cases hopen : h.isOpen now = true
  · by_cases hnames : namesSigner L sender req = true
    · by_cases hlong : req.challenge.utf8ByteSize < 32
      · left
        simp [hopen, hlong]
      · cases hfind : h.pending.find? (·.sender = sender) with
        | some held =>
          left
          simp [hopen, hnames, hlong]
          omega
        | none =>
          by_cases hfull : pendingCeiling ≤ h.pending.length
          · left
            simp [hopen, hnames, hlong, hfull]
          · right
            simp only [hopen, hnames, hlong, hfull]
            simp
            omega
    · left
      simp [hopen, hnames]
  · left
    simp [hopen]

/-- A `Withdraw` drops the sender's pending request, or its decided one, or nothing. -/
theorem withdraw_cases (sender id challenge : String) (h : Host) :
    (h.pending.any (·.isFor sender id challenge) = true ∧
      h.withdraw sender id challenge =
        ({ h with pending := h.pending.filter fun p => !p.isFor sender id challenge },
          ⟨200, .unknown, {}⟩, none)) ∨
    (h.pending.any (·.isFor sender id challenge) = false ∧
      ∃ d, h.decided id = some d ∧ d.sender = sender ∧ d.challenge = challenge ∧
        h.withdraw sender id challenge =
          ({ h with decided := Function.update h.decided id none }, ⟨200, .unknown, {}⟩,
            d.decision.undone)) ∨
    h.withdraw sender id challenge = (h, ⟨404, .unknown, {}⟩, none) := by
  unfold Host.withdraw
  cases hany : h.pending.any (·.isFor sender id challenge) with
  | true => exact Or.inl ⟨rfl, rfl⟩
  | false =>
    right
    cases hd : h.decided id with
    | none => exact Or.inr rfl
    | some d =>
      by_cases hours : d.sender = sender ∧ d.challenge = challenge
      · left
        simp [hours]
      · right
        simp [hours]

theorem update_none_eq_some {decided : String → Option Decided} {id id' : String} {d : Decided}
    (h : Function.update decided id none id' = some d) : decided id' = some d := by
  by_cases heq : id' = id
  · rw [heq, Function.update_self] at h
    cases h
  · rwa [Function.update_of_ne heq] at h

/-! ## The invariant -/

/-- What the owner and the requesters may rely on. -/
structure HostInvariant (L : Lib) (h : Host) : Prop where
  bounded : h.pending.length ≤ pendingCeiling
  senders : (h.pending.map Held.sender).Nodup
  ids : (h.pending.map Held.id).Nodup
  named : ∀ p ∈ h.pending, L.decode p.req.nodeCode = .ok p.sender
  coded : ∀ p ∈ h.pending, p.code = matchCode L p.sender p.req.challenge
  apart : ∀ p ∈ h.pending, h.decided p.id = none

/-- What the invariant needs beside it: ids in use were handed out, and an approval names the
    requester it is kept for. -/
structure Inv (L : Lib) (b : Board) : Prop extends HostInvariant L b.host where
  mintedPending : ∀ p ∈ b.host.pending, p.id ∈ b.minted
  mintedDecided : ∀ id d, b.host.decided id = some d → id ∈ b.minted
  approvals : ∀ id d approval introductions, b.host.decided id = some d →
    d.decision = .approved approval introductions → L.decode approval.nodeCode = .ok d.sender

/-- The id a call has in hand was handed out. -/
def Phase.Minted (b : Board) (phase : Phase) : Prop :=
  ∀ id sender req, phase.signs = some (id, sender, req) → id ∈ b.minted

/-- The ids `uuid` draws are new. -/
def FreshIds (c : Config Board Phase) (m : Move Call Env) : Prop :=
  ∀ i env sender req, m = .advance i env →
    c.tasks[i]? = some (.called (.message sender (some (.join req)))) →
    env.uuid ∉ c.shared.minted

variable {L : Lib}

theorem inv_start : Inv L start.shared :=
  { bounded := Nat.zero_le _
    senders := List.nodup_nil
    ids := List.nodup_nil
    named := fun _ hp => nomatch hp
    coded := fun _ hp => nomatch hp
    apart := fun _ hp => nomatch hp
    mintedPending := fun _ hp => nomatch hp
    mintedDecided := fun _ _ hd => nomatch hd
    approvals := fun _ _ _ _ hd => nomatch hd }

/-- Dropping pending requests and decisions keeps the invariant. -/
theorem Inv.shrink {b b' : Board} (h : Inv L b)
    (hpending : b'.host.pending.Sublist b.host.pending)
    (hdecided : ∀ id d, b'.host.decided id = some d → b.host.decided id = some d)
    (hminted : ∀ id ∈ b.minted, id ∈ b'.minted) : Inv L b' :=
  { bounded := Nat.le_trans hpending.length_le h.bounded
    senders := h.senders.sublist (hpending.map _)
    ids := h.ids.sublist (hpending.map _)
    named := fun p hp => h.named p (hpending.subset hp)
    coded := fun p hp => h.coded p (hpending.subset hp)
    apart := by
      intro p hp
      cases hd : b'.host.decided p.id with
      | none => rfl
      | some d =>
        have hnone := h.apart p (hpending.subset hp)
        rw [hdecided _ d hd] at hnone
        cases hnone
    mintedPending := fun p hp => hminted _ (h.mintedPending p (hpending.subset hp))
    mintedDecided := fun id d hd => hminted _ (h.mintedDecided id d (hdecided id d hd))
    approvals := fun id d a i hd => h.approvals id d a i (hdecided id d hd) }

/-- Deciding an id that is no longer pending keeps it. -/
theorem Inv.decide {b : Board} (h : Inv L b) {id : String} {d : Decided} {pending : List Held}
    {log : List HostEvent} (hpending : pending.Sublist b.host.pending)
    (hgone : ∀ p ∈ pending, p.id ≠ id) (hminted : id ∈ b.minted)
    (happroval : ∀ approval introductions, d.decision = .approved approval introductions →
      L.decode approval.nodeCode = .ok d.sender) :
    Inv L { b with
      host := { b.host with pending, decided := Function.update b.host.decided id (some d) }
      log } := by
  have hsmall : Inv L { b with host := { b.host with pending } } :=
    h.shrink hpending (fun _ _ hd => hd) (fun _ hid => hid)
  refine { toHostInvariant := { hsmall.toHostInvariant with apart := ?_ }, mintedPending := ?_,
           mintedDecided := ?_, approvals := ?_ }
  · intro p hp
    show Function.update b.host.decided id (some d) p.id = none
    rw [Function.update_of_ne (hgone p hp)]
    exact hsmall.apart p hp
  · exact hsmall.mintedPending
  · intro id' d' hd'
    replace hd' : Function.update b.host.decided id (some d) id' = some d' := hd'
    by_cases heq : id' = id
    · rw [heq]
      exact hminted
    · rw [Function.update_of_ne heq] at hd'
      exact h.mintedDecided id' d' hd'
  · intro id' d' approval introductions hd' happroved
    replace hd' : Function.update b.host.decided id (some d) id' = some d' := hd'
    by_cases heq : id' = id
    · rw [heq, Function.update_self] at hd'
      rw [← Option.some.inj hd'] at happroved ⊢
      exact happroval approval introductions happroved
    · rw [Function.update_of_ne heq] at hd'
      exact h.approvals id' d' approval introductions hd' happroved

/-- A request as it was asked. -/
def Held.unheld (p : Held) : Held := { p with heldSince := none }

theorem unheld_fields {p q : Held} (h : q.unheld = p.unheld) :
    q.id = p.id ∧ q.sender = p.sender ∧ q.req = p.req ∧ q.code = p.code ∧
      q.askedAt = p.askedAt := by
  simp only [Held.unheld, Held.mk.injEq, and_true] at h
  exact h

/-- Taking the first request with an id leaves none with it, where ids differ. -/
theorem eraseP_gone {pending : List Held} (hids : (pending.map Held.id).Nodup) (id : String) :
    ∀ p ∈ pending.eraseP (·.id = id), p.id ≠ id := by
  induction pending with
  | nil => exact fun _ hp => nomatch hp
  | cons p ps ih =>
    rw [List.map_cons, List.nodup_cons] at hids
    intro q hq
    by_cases hid : p.id = id
    · rw [List.eraseP_cons_of_pos (by simpa using hid)] at hq
      intro heq
      exact hids.1 (List.mem_map.mpr ⟨q, hq, heq.trans hid.symm⟩)
    · rw [List.eraseP_cons_of_neg (by simpa using hid)] at hq
      rcases List.mem_cons.mp hq with rfl | hq
      · exact hid
      · exact ih hids.2 q hq

/-- Holding a request changes nothing of it but `heldSince`. -/
theorem holdFirst_keeps (now : Nat) (id : String) (pending : List Held) :
    (holdFirst now id pending).map Held.unheld = pending.map Held.unheld := by
  induction pending with
  | nil => rfl
  | cons p ps ih =>
    unfold holdFirst
    split
    · rfl
    · rw [List.map_cons, ih, List.map_cons]

/-- What is pending once a request is held was pending before. -/
theorem mem_of_mem_holdFirst {now : Nat} {id : String} {pending : List Held} {p : Held}
    (hp : p ∈ holdFirst now id pending) : ∃ q ∈ pending, q.unheld = p.unheld := by
  have hmem : p.unheld ∈ (holdFirst now id pending).map Held.unheld :=
    List.mem_map.mpr ⟨p, hp, rfl⟩
  rw [holdFirst_keeps] at hmem
  exact List.mem_map.mp hmem

theorem Inv.hold {b : Board} (h : Inv L b) (now : Nat) (id : String) {log : List HostEvent} :
    Inv L { b with
      host := { b.host with pending := holdFirst now id b.host.pending }
      log } := by
  have hkeeps := holdFirst_keeps now id b.host.pending
  have hids := congrArg (List.map Held.id) hkeeps
  have hsenders := congrArg (List.map Held.sender) hkeeps
  have hlength := congrArg List.length hkeeps
  rw [List.map_map, List.map_map] at hids hsenders
  rw [List.length_map, List.length_map] at hlength
  have hold {P : Held → Prop} (hP : ∀ p ∈ b.host.pending, P p)
      (hunheld : ∀ p q : Held, q.unheld = p.unheld → P q → P p) :
      ∀ p ∈ holdFirst now id b.host.pending, P p := by
    intro p hp
    obtain ⟨q, hq, heq⟩ := mem_of_mem_holdFirst hp
    exact hunheld p q heq (hP q hq)
  refine { bounded := ?_, senders := ?_, ids := ?_, named := ?_, coded := ?_, apart := ?_,
           mintedPending := ?_, mintedDecided := h.mintedDecided, approvals := h.approvals }
  · exact Nat.le_trans (Nat.le_of_eq hlength) h.bounded
  · exact hsenders ▸ h.senders
  · exact hids ▸ h.ids
  · apply hold h.named
    intro p q heq hq
    obtain ⟨-, hsender, hreq, -⟩ := unheld_fields heq
    rwa [hreq, hsender] at hq
  · apply hold h.coded
    intro p q heq hq
    obtain ⟨-, hsender, hreq, hcode, -⟩ := unheld_fields heq
    rwa [hcode, hreq, hsender] at hq
  · apply hold h.apart
    intro p q heq hq
    rwa [(unheld_fields heq).1] at hq
  · apply hold h.mintedPending
    intro p q heq hq
    rwa [(unheld_fields heq).1] at hq

theorem Inv.sweep {b : Board} (h : Inv L b) (now : Nat) : Inv L (b.sweep L now) :=
  h.shrink List.filter_sublist (fun _ _ hd => Option.eq_some_of_filter_eq_some hd)
    (fun _ hid => hid)

theorem decode_of_namesSigner {sender : String} {req : JoinRequest}
    (h : namesSigner L sender req = true) : L.decode req.nodeCode = .ok sender := by
  unfold namesSigner at h
  cases hdecode : L.decode req.nodeCode with
  | error e =>
    rw [hdecode] at h
    cases h
  | ok keyId =>
    rw [hdecode] at h
    rw [of_decide_eq_true h]

/-- A new request, where there is room and its sender has none, keeps the invariant. -/
theorem Inv.push {b : Board} (h : Inv L b) {now : Nat} {uuid sender : String} {req : JoinRequest}
    (hnames : namesSigner L sender req = true)
    (hfind : b.host.pending.find? (·.sender = sender) = none)
    (hroom : b.host.pending.length < pendingCeiling) (hfresh : uuid ∉ b.minted)
    {log : List HostEvent} :
    Inv L { b with
      host := { b.host with pending := b.host.pending ++
        [⟨uuid, sender, req, matchCode L sender req.challenge, now, none⟩] }
      minted := uuid :: b.minted
      log } := by
  have hnone (p : Held) (hp : p ∈ b.host.pending) : p.sender ≠ sender := by
    simpa using List.find?_eq_none.mp hfind p hp
  have hnew (p : Held) (hp : p ∈ b.host.pending) : p.id ≠ uuid := by
    intro heq
    exact hfresh (heq ▸ h.mintedPending p hp)
  have hundecided : b.host.decided uuid = none := by
    cases hd : b.host.decided uuid with
    | none => rfl
    | some d => exact absurd (h.mintedDecided uuid d hd) hfresh
  refine { bounded := ?_, senders := ?_, ids := ?_, named := ?_, coded := ?_, apart := ?_,
           mintedPending := ?_, mintedDecided := ?_, approvals := h.approvals }
  · rw [List.length_append]
    exact hroom
  · rw [List.map_append]
    apply nodup_append_singleton h.senders
    intro hin
    obtain ⟨p, hp, heq⟩ := List.mem_map.mp hin
    exact hnone p hp heq
  · rw [List.map_append]
    apply nodup_append_singleton h.ids
    intro hin
    obtain ⟨p, hp, heq⟩ := List.mem_map.mp hin
    exact hnew p hp heq
  · exact forall_mem_append_singleton h.named (decode_of_namesSigner hnames)
  · exact forall_mem_append_singleton h.coded rfl
  · exact forall_mem_append_singleton h.apart hundecided
  · have hold : ∀ p ∈ b.host.pending, p.id ∈ uuid :: b.minted :=
      fun p hp => List.mem_cons_of_mem _ (h.mintedPending p hp)
    exact forall_mem_append_singleton hold List.mem_cons_self
  · exact fun id d hd => List.mem_cons_of_mem _ (h.mintedDecided id d hd)

/-- A message keeps the invariant. -/
theorem Inv.message {b : Board} (h : Inv L b) {env : Env} {sender : String} {op : Option JoinOp}
    (hfresh : ∀ req, op = some (.join req) → env.uuid ∉ b.minted) :
    Inv L (b.message L env sender op) := by
  have hsweep := h.sweep env.now
  cases op with
  | none => exact h.shrink (List.Sublist.refl _) (fun _ _ hd => hd) (fun _ hid => hid)
  | some op =>
    cases op with
    | join req =>
      rcases join_cases L env.now env.uuid sender req (b.host.sweep L env.now) with
        ⟨hhost, -⟩ | ⟨-, hnames, hfind, hroom, hjoin⟩
      · simp only [Board.message, Host.answer, hhost]
        exact hsweep.shrink (List.Sublist.refl _) (fun _ _ hd => hd)
          (fun _ hid => List.mem_cons_of_mem _ hid)
      · simp only [Board.message, Host.answer, hjoin]
        exact hsweep.push hnames hfind hroom (hfresh req rfl)
    | withdraw id challenge =>
      rcases withdraw_cases sender id challenge (b.host.sweep L env.now) with
        ⟨-, hwithdraw⟩ | ⟨-, d, -, -, -, hwithdraw⟩ | hwithdraw
      · simp only [Board.message, Host.answer, hwithdraw]
        exact hsweep.shrink List.filter_sublist (fun _ _ hd => hd) (fun _ hid => hid)
      · simp only [Board.message, Host.answer, hwithdraw]
        exact hsweep.shrink (List.Sublist.refl _) (fun _ _ hd => update_none_eq_some hd)
          (fun _ hid => hid)
      · simp only [Board.message, Host.answer, hwithdraw]
        exact hsweep.shrink (List.Sublist.refl _) (fun _ _ hd => hd) (fun _ hid => hid)
    | status id challenge =>
      exact hsweep.shrink (List.Sublist.refl _) (fun _ _ hd => hd) (fun _ hid => hid)

/-- What the pen signs for names the request's sender. -/
theorem signAndRecord_names {env : SignEnv} {sender : String} {req : JoinRequest} {signed : Signed}
    (h : signAndRecord L env sender req = .ok signed) :
    L.decode signed.approval.nodeCode = .ok sender := by
  simp only [signAndRecord, except_bind_eq_ok_iff, except_mapError_eq_ok_iff,
    ensure_eq_ok_iff] at h
  obtain ⟨_, -, _, -, keyId, hdecode, _, -, _, hkeyId, _, -, _, -, _, -, _, -, _, -, heq⟩ := h
  rw [← Except.ok.inj heq, hdecode, of_decide_eq_true hkeyId]

theorem message_minted (b : Board) (env : Env) (sender : String) (op : Option JoinOp) :
    ∀ id ∈ b.minted, id ∈ (b.message L env sender op).minted := by
  intro id hid
  cases op with
  | none => exact hid
  | some op =>
    cases op with
    | join req => exact List.mem_cons_of_mem _ hid
    | withdraw _ _ => exact hid
    | status _ _ => exact hid

/-! ## Runs -/

theorem signs_of_idle {t : Phase} (h : t.idle = true) : t.signs = none := by
  cases t <;> first | rfl | cases h

/-- **Step.** One region keeps the invariant, and hands no unknown id on. -/
theorem advance_inv {env : Env} {b b' : Board} {phase t : Phase} (he : Effect L env b phase b' t)
    (h : Inv L b) (hminted : phase.Minted b)
    (hfresh : ∀ sender req, phase = .called (.message sender (some (.join req))) →
      env.uuid ∉ b.minted) :
    Inv L b' ∧ t.Minted b' ∧ ∀ id ∈ b.minted, id ∈ b'.minted := by
  have hidle {t : Phase} {b : Board} (ht : t.idle = true) : t.Minted b := by
    intro id sender req hsigns
    rw [signs_of_idle ht] at hsigns
    cases hsigns
  cases he with
  | idle ht => exact ⟨h, hidle ht, fun _ hid => hid⟩
  | window =>
    refine ⟨?_, hidle rfl, fun _ hid => hid⟩
    exact h.shrink (List.Sublist.refl _) (fun _ _ hd => hd) (fun _ hid => hid)
  | @read id p hp hid =>
    refine ⟨h, ?_, fun _ hid => hid⟩
    intro id' sender req hsigns
    have hid' : id = id' := (Prod.mk.inj (Option.some.inj hsigns)).1
    rw [← hid', ← hid]
    exact h.mintedPending p hp
  | swept ht => exact ⟨h.sweep _, hidle ht, fun _ hid => hid⟩
  | @resumed id occ p hp hid =>
    refine ⟨h.sweep _, ?_, fun _ hid => hid⟩
    intro id' sender req hsigns
    have hid' : id = id' := (Prod.mk.inj (Option.some.inj hsigns)).1
    rw [← hid', ← hid]
    exact (h.sweep env.now).mintedPending p hp
  | @messaged sender op =>
    exact ⟨h.message fun req hop => hfresh sender req (by rw [hop]), hidle rfl,
      message_minted b env sender op⟩
  | @denied id p hp hid =>
    have hgone := eraseP_gone h.ids id
    refine ⟨?_, hidle rfl, fun _ hid => hid⟩
    exact h.decide List.eraseP_sublist hgone (hid ▸ h.mintedPending p hp)
      (fun _ _ hd => nomatch hd)
  | @recorded phase t id sender req signed hphase hsigned ht =>
    have hgone : ∀ p ∈ b.host.pending.filter (·.id ≠ id), p.id ≠ id := by
      intro p hp
      simpa using (List.mem_filter.mp hp).2
    refine ⟨?_, hidle ht, fun _ hid => hid⟩
    apply h.decide List.filter_sublist hgone (hminted id sender req hphase)
    intro approval introductions hd
    cases hd
    exact signAndRecord_names hsigned
  | held => exact ⟨h.hold _ _, hidle rfl, fun _ hid => hid⟩

/-- What every region keeps, a move keeps. -/
theorem step_board {P : Board → Prop} {c : Config Board Phase} {m : Move Call Env}
    (hP : P c.shared)
    (hadvance : ∀ i env t, m = .advance i env → c.tasks[i]? = some t →
      P (t.advance L env c.shared).1) :
    P ((deviceServer L).step c m).shared :=
  System.step_shared _ hP (fun _ _ => hP) hadvance

/-- The invariant, over the calls too. -/
def Sound (L : Lib) (c : Config Board Phase) : Prop :=
  Inv L c.shared ∧ ∀ t ∈ c.tasks, t.Minted c.shared

theorem sound_start : Sound L start := ⟨inv_start, fun _ ht => nomatch ht⟩

/-- **Step.** A move with fresh ids keeps the invariant. -/
theorem step_inv {c : Config Board Phase} {m : Move Call Env} (hfresh : FreshIds c m)
    (h : Sound L c) : Sound L ((deviceServer L).step c m) := by
  apply System.step_preserves (P := fun b t => t.Minted b) _ h.1 h.2
  · intro call _
    refine ⟨h.1, ?_, h.2⟩
    intro id sender req hsigns
    cases hsigns
  · intro i env t hm ht
    have heffect := advance_effect L env t c.shared
    have hnew (sender : String) (req : JoinRequest)
        (htask : t = .called (.message sender (some (.join req)))) : env.uuid ∉ c.shared.minted :=
      hfresh i env sender req hm (htask ▸ ht)
    have hminted := h.2 t (List.mem_of_getElem? ht)
    obtain ⟨hinv, htask, hgrows⟩ := advance_inv heffect h.1 hminted hnew
    refine ⟨hinv, htask, ?_⟩
    intro u hu id sender req hsigns
    exact hgrows id (h.2 u hu id sender req hsigns)

/-- What is pending after the move and was not before came by a `Join` through an open
    window. -/
def EntersByWindow (L : Lib) (c : Config Board Phase) (m : Move Call Env) : Prop :=
  ∀ p ∈ ((deviceServer L).step c m).shared.host.pending,
    (∃ q ∈ c.shared.host.pending, q.unheld = p.unheld) ∨
      ∃ i env sender req w, m = .advance i env ∧
        c.tasks[i]? = some (.called (.message sender (some (.join req)))) ∧
        c.shared.host.windowUntil = some w ∧ env.now < w

theorem window_of_isOpen {now : Nat} {h : Host} (hopen : (h.sweep L now).isOpen now = true) :
    ∃ w, h.windowUntil = some w ∧ now < w := by
  simp only [Host.isOpen, Host.sweep, Option.any_eq_true, decide_eq_true_eq] at hopen
  obtain ⟨w, hw, hlt⟩ := hopen
  exact ⟨w, Option.eq_some_of_filter_eq_some hw, hlt⟩

/-- A message drops pending requests, beside those a sweep drops, or is a `Join` through an
    open window. -/
theorem message_pending (b : Board) (env : Env) (sender : String) (op : JoinOp) :
    (b.message L env sender (some op)).host.pending.Sublist (b.host.sweep L env.now).pending ∨
      ∃ req, op = .join req ∧ (b.host.sweep L env.now).isOpen env.now = true ∧
        (b.message L env sender (some op)).host.pending = (b.host.sweep L env.now).pending ++
          [⟨env.uuid, sender, req, matchCode L sender req.challenge, env.now, none⟩] := by
  cases op with
  | join req =>
    rcases join_cases L env.now env.uuid sender req (b.host.sweep L env.now) with
      ⟨hhost, -⟩ | ⟨hopen, -, -, -, hjoin⟩
    · left
      simp only [Board.message, Host.answer, hhost]
      exact List.Sublist.refl _
    · right
      refine ⟨req, rfl, hopen, ?_⟩
      simp only [Board.message, Host.answer, hjoin]
  | withdraw id challenge =>
    left
    rcases withdraw_cases sender id challenge (b.host.sweep L env.now) with
      ⟨-, hwithdraw⟩ | ⟨-, d, -, -, -, hwithdraw⟩ | hwithdraw
    · simp only [Board.message, Host.answer, hwithdraw]
      exact List.filter_sublist
    · simp only [Board.message, Host.answer, hwithdraw]
      exact List.Sublist.refl _
    · simp only [Board.message, Host.answer, hwithdraw]
      exact List.Sublist.refl _
  | status id challenge => exact Or.inl (List.Sublist.refl _)

/-- A region adds nothing to what is pending, except a `Join` in the window. -/
theorem advance_enters {env : Env} {b b' : Board} {phase t : Phase} (he : Effect L env b phase b' t)
    {p : Held} (hp : p ∈ b'.host.pending) :
    (∃ q ∈ b.host.pending, q.unheld = p.unheld) ∨
      ∃ sender req w, phase = .called (.message sender (some (.join req))) ∧
        b.host.windowUntil = some w ∧ env.now < w := by
  cases he with
  | idle => exact Or.inl ⟨p, hp, rfl⟩
  | window => exact Or.inl ⟨p, hp, rfl⟩
  | read => exact Or.inl ⟨p, hp, rfl⟩
  | swept => exact Or.inl ⟨p, (List.mem_filter.mp hp).1, rfl⟩
  | resumed => exact Or.inl ⟨p, (List.mem_filter.mp hp).1, rfl⟩
  | denied => exact Or.inl ⟨p, List.mem_of_mem_eraseP hp, rfl⟩
  | recorded => exact Or.inl ⟨p, (List.mem_filter.mp hp).1, rfl⟩
  | held => exact Or.inl (mem_of_mem_holdFirst hp)
  | @messaged sender op =>
    cases op with
    | none => exact Or.inl ⟨p, hp, rfl⟩
    | some op =>
      rcases message_pending (L := L) b env sender op with hsub | ⟨req, rfl, hopen, hpending⟩
      · exact Or.inl ⟨p, (List.mem_filter.mp (hsub.subset hp)).1, rfl⟩
      · obtain ⟨w, hw, hlt⟩ := window_of_isOpen hopen
        exact Or.inr ⟨sender, req, w, rfl, hw, hlt⟩

/-- **Step.** Whatever moves, requests enter only through an open window. -/
theorem step_enters (c : Config Board Phase) (m : Move Call Env) : EntersByWindow L c m := by
  intro p hp
  cases m with
  | arrive call => exact Or.inl ⟨p, hp, rfl⟩
  | advance i env =>
    cases ht : c.tasks[i]? with
    | none =>
      rw [System.step_advance_none _ _ ht] at hp
      exact Or.inl ⟨p, hp, rfl⟩
    | some t =>
      rw [System.step_advance_some _ _ ht] at hp
      rcases advance_enters (advance_effect L env t c.shared) hp with
        hold | ⟨sender, req, w, htask, hw, hlt⟩
      · exact Or.inl hold
      · exact Or.inr ⟨i, env, sender, req, w, rfl, htask ▸ ht, hw, hlt⟩

theorem inv_after {moves : List (Move Call Env)}
    (hfresh : Guarded (deviceServer L).step FreshIds start moves) :
    Inv L (after (deviceServer L).step start moves).shared :=
  (Guarded.invariant (I := Sound L) (fun _ _ h hm => step_inv hm h) hfresh sound_start).1

/-- **Run.** Whatever calls interleave, the host invariant holds, and requests enter only by a
    `Join` through an open window. -/
theorem host_invariant (L : Lib) (moves : List (Move Call Env))
    (hfresh : Guarded (deviceServer L).step FreshIds start moves) :
    HostInvariant L (after (deviceServer L).step start moves).shared.host ∧
      Guarded (deviceServer L).step (EntersByWindow L) start moves := by
  constructor
  · exact (inv_after hfresh).toHostInvariant
  · exact Guarded.guarantee (I := fun _ => True) (fun c m _ _ => ⟨trivial, step_enters c m⟩)
      hfresh trivial

namespace Fixture

def challengeAb : String := "abababababababababababababababababababababababababababababababab"

def challengeCd : String := "cdcdcdcdcdcdcdcdcdcdcdcdcdcdcdcdcdcdcdcdcdcdcdcdcdcdcdcdcdcdcdcd"

/-- The code of the node `node-a`. -/
def codeA : String :=
  "CIRIS-V1-AFTF-OD7Q-LIQH-IBBQ-QTKK-ZKKC-SPXQ-M5JQ-3XUU-75HJ-FOGY-IWJF-H23X-SBYH-A4DQ-OBYH-" ++
    "A4DQ-OBYH-A4DQ-OBYH-A4DQ-OBYH-A4DQ-OBYH-A4DQ-OBYH-AZXG-6ZDF-FVQQ-AAAI-QM"

/-- The library where this module's examples call it. -/
def lib : Lib where
  sha256Head text :=
    if text = "ciris-device-join-code-v1\nnode-a\n" ++ challengeAb then 2434418141
    else if text = "ciris-device-join-code-v1\nnode-a\n" ++ challengeCd then 2039161569
    else 0
  decode code := if code = codeA then .ok "node-a" else .error "malformed"
  wSelfSecs := 259200

/-- An owner's pen that signs. -/
def pen : SignEnv where
  pen := .ok "owner"
  rosterKeyNamed _ := .ok ()
  bind owner node := .ok ⟨owner, node, "signature"⟩
  applyBinding := .ok ()
  registerOccurrence := .ok ()
  signOccurrence := .ok ()
  putOccurrence := .ok ()
  granted := 1
  introductions := {}
  claimerKeyRecord := none
  ownerCode := .ok "owner-code"

/-- A region run at `now` seconds, with `uuid` next. -/
def env (now : Nat) (uuid : String) : Env := ⟨secs now, uuid, pen, .ok []⟩

def request (challenge : String) : JoinRequest :=
  ⟨1, codeA, challenge, "laptop", "laptop", "owner-key"⟩

/-- The window is opened, and `node-a` asks to join. -/
def joined : List (Move Call Env) :=
  [.arrive (.openWindow none), .advance 0 (env 0 "r0"),
   .arrive (.message "node-a" (some (.join (request challengeAb)))), .advance 1 (env 1 "r1")]

/-- Each region of the run has a new id at hand. -/
def DrawsNew (c : Config Board Phase) : Move Call Env → Prop
  | .arrive _ => True
  | .advance _ env => env.uuid ∉ c.shared.minted

instance decidableDrawsNew (c : Config Board Phase) : ∀ m, Decidable (DrawsNew c m)
  | .arrive _ => inferInstanceAs (Decidable True)
  | .advance _ env => inferInstanceAs (Decidable (env.uuid ∉ c.shared.minted))

theorem fresh_of_drawsNew {L : Lib} {moves : List (Move Call Env)}
    (h : Guarded (deviceServer L).step DrawsNew start moves) :
    Guarded (deviceServer L).step FreshIds start moves := by
  apply h.imp
  intro c m hnew i env sender req hm _
  cases hm
  exact hnew

end Fixture

/-- The theorem at a run that holds a request. -/
theorem host_invariant_joined :
    (after (deviceServer Fixture.lib).step start Fixture.joined).shared.host.pending.map
        (fun p => (p.id, p.code)) = [("r1", "418141")] ∧
      HostInvariant Fixture.lib
        (after (deviceServer Fixture.lib).step start Fixture.joined).shared.host :=
  ⟨by decide +kernel, (host_invariant Fixture.lib Fixture.joined
    (Fixture.fresh_of_drawsNew (by decide +kernel))).1⟩

end CirisServer.AddDevice
