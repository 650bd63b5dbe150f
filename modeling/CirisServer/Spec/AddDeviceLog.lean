import Mathlib.Data.List.Nodup
import CirisServer.ForStd.Ledger
import CirisServer.Spec.AddDeviceInv

/-!
# What became of the requests

The host's log says which requests were denied, approved, withdrawn or left to expire. What
is pending is none of these, whatever calls interleave.

Key results:
- `message_log`, `message_decided`: what a message logs and what it keeps of `decided`
- `advance_unsettled`: what is pending has not left, region by region
-/

namespace CirisServer.AddDevice

open Interleave Run

/-! ## Events -/

/-- A `Withdraw` of this request was answered 200. -/
def HostEvent.withdraws : HostEvent → String → Prop
  | .answered _ (some (.withdraw requestId _)) answer _, id => requestId = id ∧ answer.status = 200
  | _, _ => False

/-- The request was answered for good: `deny` or its own `Withdraw` was answered 200. -/
def HostEvent.closes (e : HostEvent) (id : String) : Prop :=
  e = .denied id ∨ e.withdraws id

/-- The event wrote `decided[id]`. -/
def HostEvent.writes (e : HostEvent) (id : String) : Prop :=
  e = .denied id ∨ e = .recorded id

/-- The request was denied, approved or withdrawn. -/
def HostEvent.settles (e : HostEvent) (id : String) : Prop :=
  e.writes id ∨ e.withdraws id

/-- The request is no longer pending: it was settled, or its time ran out. -/
def HostEvent.leaves (e : HostEvent) (id : String) : Prop :=
  e.settles id ∨ e = .expired id

instance decidableWithdraws (e : HostEvent) (id : String) : Decidable (e.withdraws id) :=
  match e with
  | .answered _ (some (.withdraw requestId _)) answer _ =>
    inferInstanceAs (Decidable (requestId = id ∧ answer.status = 200))
  | .answered _ (some (.join _)) _ _ => inferInstanceAs (Decidable False)
  | .answered _ (some (.status _ _)) _ _ => inferInstanceAs (Decidable False)
  | .answered _ none _ _ => inferInstanceAs (Decidable False)
  | .expired _ => inferInstanceAs (Decidable False)
  | .denied _ => inferInstanceAs (Decidable False)
  | .recorded _ => inferInstanceAs (Decidable False)
  | .held .. => inferInstanceAs (Decidable False)

instance (e : HostEvent) (id : String) : Decidable (e.closes id) :=
  inferInstanceAs (Decidable (e = .denied id ∨ e.withdraws id))

instance (e : HostEvent) (id : String) : Decidable (e.settles id) :=
  inferInstanceAs (Decidable ((e = .denied id ∨ e = .recorded id) ∨ e.withdraws id))

instance (e : HostEvent) (id : String) : Decidable (e.leaves id) :=
  inferInstanceAs (Decidable (e.settles id ∨ e = .expired id))

variable {L : Lib}

theorem expired_of_mem {now : Nat} {h : Host} {e : HostEvent} (he : e ∈ h.expired L now) :
    ∃ id, e = .expired id := by
  obtain ⟨p, -, rfl⟩ := List.mem_map.mp he
  exact ⟨p.id, rfl⟩

/-- A message logs its answer, and the requests whose time ran out. -/
theorem message_log (b : Board) (env : Env) (sender : String) (op : Option JoinOp) :
    ∃ es, (∀ e ∈ es, ∃ id, e = .expired id) ∧
      (b.message L env sender op).log =
        .answered sender op (b.host.answer L env.now env.uuid sender op).2.1
          (b.host.answer L env.now env.uuid sender op).2.2 :: (es ++ b.log) := by
  cases op with
  | none => exact ⟨[], fun _ he => (nomatch he), rfl⟩
  | some op =>
    exact ⟨b.host.expired L env.now, fun _ he => expired_of_mem he, rfl⟩

theorem not_closes_expired {e : HostEvent} (he : ∃ id, e = .expired id) (id : String) :
    ¬ e.closes id := by
  obtain ⟨id', rfl⟩ := he
  rintro (h | h)
  · cases h
  · exact h

theorem not_settles_expired {e : HostEvent} (he : ∃ id, e = .expired id) (id : String) :
    ¬ e.settles id := by
  obtain ⟨id', rfl⟩ := he
  rintro ((h | h) | h)
  · cases h
  · cases h
  · exact h

theorem not_writes_expired {e : HostEvent} (he : ∃ id, e = .expired id) (id : String) :
    ¬ e.writes id :=
  fun h => not_settles_expired he id (Or.inl h)

theorem not_settles_held {id code sender occ detail id' : String} :
    ¬ (HostEvent.held id code sender occ detail).settles id' := by
  rintro ((h | h) | h)
  · cases h
  · cases h
  · exact h

/-- An answer settles a request only by withdrawing it. -/
theorem settles_answered {sender : String} {op : Option JoinOp} {answer : OpaqueAnswer}
    {undone : Option Approval} {id : String}
    (h : (HostEvent.answered sender op answer undone).settles id) :
    ∃ challenge, op = some (.withdraw id challenge) ∧ answer.status = 200 := by
  rcases h with (h | h) | h
  · cases h
  · cases h
  · cases op with
    | none => exact h.elim
    | some op =>
      cases op with
      | join _ => exact h.elim
      | status _ _ => exact h.elim
      | withdraw requestId challenge =>
        obtain ⟨rfl, hstatus⟩ := h
        exact ⟨challenge, rfl, hstatus⟩

/-! ## Messages -/

/-- Messages only drop decisions. -/
theorem message_decided {b : Board} {env : Env} {sender : String} {op : Option JoinOp}
    {id : String} {d : Decided} (hd : (b.message L env sender op).host.decided id = some d) :
    b.host.decided id = some d := by
  cases op with
  | none => exact hd
  | some op =>
    cases op with
    | join req =>
      rcases join_cases L env.now env.uuid sender req (b.host.sweep L env.now) with
        ⟨hhost, -⟩ | ⟨-, -, -, -, hjoin⟩
      · simp only [Board.message, Host.answer, hhost] at hd
        exact Option.eq_some_of_filter_eq_some hd
      · simp only [Board.message, Host.answer, hjoin] at hd
        exact Option.eq_some_of_filter_eq_some hd
    | withdraw id' challenge =>
      rcases withdraw_cases sender id' challenge (b.host.sweep L env.now) with
        ⟨-, hwithdraw⟩ | ⟨-, d, -, -, -, hwithdraw⟩ | hwithdraw
      · simp only [Board.message, Host.answer, hwithdraw] at hd
        exact Option.eq_some_of_filter_eq_some hd
      · simp only [Board.message, Host.answer, hwithdraw] at hd
        exact Option.eq_some_of_filter_eq_some (update_none_eq_some hd)
      · simp only [Board.message, Host.answer, hwithdraw] at hd
        exact Option.eq_some_of_filter_eq_some hd
    | status id' challenge => exact Option.eq_some_of_filter_eq_some hd

def JoinAnswer.approval? : JoinAnswer → Option Approval
  | .approved approval => some approval
  | _ => none

/-- An `Approved` answer is what `decided` holds for this requester. -/
theorem status_approved {h : Host} {sender id challenge : String} {approval : Approval}
    (hstatus : (h.status sender id challenge).payload.approval? = some approval) :
    ∃ d introductions, h.decided id = some d ∧ d.sender = sender ∧ d.challenge = challenge ∧
      d.decision = .approved approval introductions := by
  unfold Host.status at hstatus
  cases hd : h.decided id with
  | none =>
    rw [hd] at hstatus
    cases hfind : h.pending.find? (·.isFor sender id challenge) with
    | none => simp [hfind, JoinAnswer.approval?] at hstatus
    | some p => simp [hfind, JoinAnswer.approval?] at hstatus
  | some d =>
    rw [hd] at hstatus
    by_cases hother : d.sender ≠ sender ∨ d.challenge ≠ challenge
    · simp [hother, JoinAnswer.approval?] at hstatus
    · rw [not_or, not_not, not_not] at hother
      cases hdecision : d.decision with
      | denied => simp [hother, hdecision, JoinAnswer.approval?] at hstatus
      | approved approval' introductions =>
        simp only [hother, hdecision, ne_eq, not_true_eq_false, or_self, if_false,
          JoinAnswer.approval?, Option.some.injEq] at hstatus
        exact ⟨d, introductions, rfl, hother.1, hother.2, hstatus ▸ hdecision⟩

/-- Once a `Withdraw` is answered 200, nothing is decided for its request. -/
theorem withdraw_clears {h : Host} (hinv : HostInvariant L h) {sender id challenge : String}
    (hstatus : (h.withdraw sender id challenge).2.1.status = 200) :
    (h.withdraw sender id challenge).1.decided id = none := by
  rcases withdraw_cases sender id challenge h with
    ⟨hany, hwithdraw⟩ | ⟨-, d, -, -, -, hwithdraw⟩ | hwithdraw
  · rw [hwithdraw]
    obtain ⟨p, hp, hfor⟩ := List.any_eq_true.mp hany
    simp only [Held.isFor, decide_eq_true_eq] at hfor
    exact hfor.1 ▸ hinv.apart p hp
  · rw [hwithdraw]
    exact Function.update_self _ _ _
  · rw [hwithdraw] at hstatus
    cases hstatus

/-- A `Withdraw` that is answered 200 was for an id in use, which is no longer pending. -/
theorem withdraw_settles {b : Board} (hinv : Inv L b) {sender id challenge : String}
    (hstatus : (b.host.withdraw sender id challenge).2.1.status = 200) :
    id ∈ b.minted ∧ ∀ p ∈ (b.host.withdraw sender id challenge).1.pending, p.id ≠ id := by
  rcases withdraw_cases sender id challenge b.host with
    ⟨hany, hwithdraw⟩ | ⟨-, d, hd, -, -, hwithdraw⟩ | hwithdraw
  · obtain ⟨p, hp, hfor⟩ := List.any_eq_true.mp hany
    have hfor' := hfor
    simp only [Held.isFor, decide_eq_true_eq] at hfor'
    refine ⟨hfor'.1 ▸ hinv.mintedPending p hp, ?_⟩
    rw [hwithdraw]
    intro q hq heq
    -- ids differ, so the one that is left would be the one that was dropped
    obtain ⟨hq, hnot⟩ := List.mem_filter.mp hq
    have hsame := List.inj_on_of_nodup_map hinv.ids hq hp (heq.trans hfor'.1.symm)
    rw [hsame, hfor] at hnot
    cases hnot
  · refine ⟨hinv.mintedDecided id d hd, ?_⟩
    rw [hwithdraw]
    intro q hq heq
    have hnone := hinv.apart q hq
    rw [heq, hd] at hnone
    cases hnone
  · rw [hwithdraw] at hstatus
    cases hstatus

/-! ## What is pending -/

/-- What is pending has not left, and what has left was handed out. -/
structure Unsettled (b : Board) : Prop where
  pending : ∀ p ∈ b.host.pending, ¬ Ended HostEvent.leaves b.log p.id
  minted : ∀ id, Ended HostEvent.leaves b.log id → id ∈ b.minted

theorem unsettled_start : Unsettled start.shared :=
  ⟨fun _ hp => (nomatch hp), fun id hended => (not_ended_nil id hended).elim⟩

/-- Two pending requests with one id are one request. -/
theorem same_held {h : Host} (hinv : HostInvariant L h) {p q : Held} (hp : p ∈ h.pending)
    (hq : q ∈ h.pending) (hid : p.id = q.id) : p = q :=
  List.inj_on_of_nodup_map hinv.ids hp hq hid

/-- New events, if what they let go of was handed out and is not pending, keep it. -/
theorem Unsettled.extend {b b' : Board} (h : Unsettled b) (es : List HostEvent)
    (hlog : b'.log = es ++ b.log)
    (hpending : ∀ p ∈ b'.host.pending, ¬ Ended HostEvent.leaves b.log p.id)
    (hgone : ∀ e ∈ es, ∀ id, e.leaves id → id ∈ b'.minted ∧ ∀ p ∈ b'.host.pending, p.id ≠ id)
    (hminted : ∀ id ∈ b.minted, id ∈ b'.minted) : Unsettled b' := by
  constructor
  · rw [hlog]
    rintro p hp ⟨e, he, hleaves⟩
    rcases List.mem_append.mp he with hnew | hold
    · exact (hgone e hnew p.id hleaves).2 p hp rfl
    · exact hpending p hp ⟨e, hold, hleaves⟩
  · rw [hlog]
    rintro id ⟨e, he, hleaves⟩
    rcases List.mem_append.mp he with hnew | hold
    · exact (hgone e hnew id hleaves).1
    · exact hminted id (h.minted id ⟨e, hold, hleaves⟩)

/-- What a sweep drops is not what it keeps. -/
theorem expired_gone {b : Board} (hinv : Inv L b) {now : Nat} {e : HostEvent}
    (he : e ∈ b.host.expired L now) {id : String} (hleaves : e.leaves id) :
    id ∈ b.minted ∧ ∀ p ∈ (b.host.sweep L now).pending, p.id ≠ id := by
  obtain ⟨p, hp, rfl⟩ := List.mem_map.mp he
  obtain ⟨hp, hdrops⟩ := List.mem_filter.mp hp
  have hid : p.id = id := by
    rcases hleaves with hsettles | hexpired
    · exact absurd hsettles (not_settles_expired ⟨p.id, rfl⟩ id)
    · exact HostEvent.expired.inj hexpired
  rw [← hid]
  refine ⟨hinv.mintedPending p hp, ?_⟩
  intro q hq heq
  obtain ⟨hq, hkeeps⟩ := List.mem_filter.mp hq
  rw [same_held hinv.toHostInvariant hq hp heq] at hkeeps
  rw [hkeeps] at hdrops
  cases hdrops

theorem Unsettled.sweep {b : Board} (hinv : Inv L b) (h : Unsettled b) (now : Nat) :
    Unsettled (b.sweep L now) :=
  h.extend _ rfl (fun p hp => h.pending p (List.mem_filter.mp hp).1)
    (fun _ he _ hleaves => expired_gone hinv he hleaves) (fun _ hid => hid)

/-- What a message withdraws, or finds expired, is not pending after it. -/
theorem Unsettled.message {b : Board} (hinv : Inv L b) (h : Unsettled b) {env : Env}
    {sender : String} {op : Option JoinOp}
    (hfresh : ∀ req, op = some (.join req) → env.uuid ∉ b.minted) :
    Unsettled (b.message L env sender op) := by
  have hminted := message_minted (L := L) b env sender op
  -- what this message settled, it withdrew
  have hwithdrew {answer : OpaqueAnswer} {undone : Option Approval} {id : String}
      (hanswer : (b.host.answer L env.now env.uuid sender op).2.1 = answer)
      (hleaves : (HostEvent.answered sender op answer undone).leaves id) :
      id ∈ b.minted ∧ ∀ p ∈ (b.message L env sender op).host.pending, p.id ≠ id := by
    obtain ⟨challenge, rfl, hstatus⟩ := settles_answered (hleaves.resolve_right nofun)
    rw [← hanswer] at hstatus
    exact withdraw_settles (hinv.sweep env.now) hstatus
  cases op with
  | none =>
    have hlog : (b.message L env sender none).log =
        [.answered sender none ⟨400, .unknown, {}⟩ none] ++ b.log := rfl
    apply h.extend _ hlog h.pending _ hminted
    intro e he id hleaves
    rw [List.mem_singleton.mp he] at hleaves
    exact hwithdrew rfl hleaves
  | some op =>
    have hlog : (b.message L env sender (some op)).log = (.answered sender (some op)
        (b.host.answer L env.now env.uuid sender (some op)).2.1
        (b.host.answer L env.now env.uuid sender (some op)).2.2 ::
          b.host.expired L env.now) ++ b.log := rfl
    have hpending := message_pending (L := L) b env sender op
    apply h.extend _ hlog _ _ hminted
    · intro p hp hended
      rcases hpending with hsub | ⟨req, rfl, -, hpush⟩
      · exact h.pending p (List.mem_filter.mp (hsub.subset hp)).1 hended
      · rw [hpush] at hp
        rcases List.mem_append.mp hp with hkept | hjoined
        · exact h.pending p (List.mem_filter.mp hkept).1 hended
        · rw [List.mem_singleton.mp hjoined] at hended
          exact hfresh req rfl (h.minted _ hended)
    · intro e he id hleaves
      rcases List.mem_cons.mp he with rfl | hexpired
      · obtain ⟨hid, hgone⟩ := hwithdrew rfl hleaves
        exact ⟨hminted id hid, hgone⟩
      · obtain ⟨hid, hgone⟩ := expired_gone hinv hexpired hleaves
        refine ⟨hminted id hid, ?_⟩
        intro p hp
        rcases hpending with hsub | ⟨req, rfl, -, hpush⟩
        · exact hgone p (hsub.subset hp)
        · rw [hpush] at hp
          rcases List.mem_append.mp hp with hkept | hjoined
          · exact hgone p hkept
          · rw [List.mem_singleton.mp hjoined]
            intro heq
            replace heq : env.uuid = id := heq
            rw [← heq] at hid
            exact hfresh req rfl hid

/-- **Step.** What is pending has not left. -/
theorem advance_unsettled {env : Env} {b b' : Board} {phase t : Phase}
    (he : Effect L env b phase b' t) (hinv : Inv L b) (hminted : phase.Minted b)
    (h : Unsettled b)
    (hfresh : ∀ sender req, phase = .called (.message sender (some (.join req))) →
      env.uuid ∉ b.minted) :
    Unsettled b' := by
  cases he with
  | idle => exact h
  | window => exact ⟨h.pending, h.minted⟩
  | read => exact h
  | swept => exact h.sweep hinv _
  | resumed => exact h.sweep hinv _
  | @messaged sender op =>
    exact h.message hinv fun req hop => hfresh sender req (by rw [hop])
  | @denied id p hp hid =>
    have hgone := eraseP_gone hinv.ids id
    apply h.extend [.denied id] rfl
    · exact fun q hq => h.pending q (List.mem_of_mem_eraseP hq)
    · intro e he id' hleaves
      rw [List.mem_singleton.mp he] at hleaves
      rcases hleaves with ((hid' | hid') | hid') | hid'
      · rw [← HostEvent.denied.inj hid']
        exact ⟨hid ▸ hinv.mintedPending p hp, hgone⟩
      · cases hid'
      · exact hid'.elim
      · cases hid'
    · exact fun _ hid => hid
  | @recorded phase t id sender req signed hphase hsigned =>
    apply h.extend [.recorded id] rfl
    · exact fun q hq => h.pending q (List.mem_filter.mp hq).1
    · intro e he id' hleaves
      rw [List.mem_singleton.mp he] at hleaves
      rcases hleaves with ((hid' | hid') | hid') | hid'
      · cases hid'
      · rw [← HostEvent.recorded.inj hid']
        refine ⟨hminted id sender req hphase, ?_⟩
        exact fun q hq => of_decide_eq_true (List.mem_filter.mp hq).2
      · exact hid'.elim
      · cases hid'
    · exact fun _ hid => hid
  | @held id sender code detail req =>
    apply h.extend [.held id code sender req.occurrenceKeyId detail] rfl
    · intro q hq
      obtain ⟨p, hp, heq⟩ := mem_of_mem_holdFirst hq
      rw [← (unheld_fields heq).1]
      exact h.pending p hp
    · intro e he id' hleaves
      rw [List.mem_singleton.mp he] at hleaves
      rcases hleaves with hsettles | hid'
      · exact absurd hsettles not_settles_held
      · cases hid'
    · exact fun _ hid => hid

/-- **Step.** A move with fresh ids keeps both invariants. -/
theorem step_unsettled {c : Config Board Phase} {m : Move Call Env} (hfresh : FreshIds c m)
    (h : Sound L c ∧ Unsettled c.shared) :
    Sound L ((deviceServer L).step c m) ∧ Unsettled ((deviceServer L).step c m).shared := by
  refine ⟨step_inv hfresh h.1, step_board h.2 ?_⟩
  intro i env t hmove ht
  have hminted := h.1.2 t (List.mem_of_getElem? ht)
  apply advance_unsettled (advance_effect L env t c.shared) h.1.1 hminted h.2
  intro sender req htask
  exact hfresh i env sender req hmove (htask ▸ ht)

end CirisServer.AddDevice
