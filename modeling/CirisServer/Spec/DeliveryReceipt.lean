import CirisServer.ForStd.Group
import CirisServer.ForStd.List
import CirisServer.Native.DeliveryReceipt
import CirisServer.Spec.TraceAsk

/-!
# What a verdict rests on

Key results:
- `askOnce_ok`, `ask_ok`: a receipt that is used is signed, bound and fresh
- `scan_covers`: a scan that is not cut short has found every agent of the node's own rows
- `verdict_not_laundered`: what a known verdict, and every count of the report, rests on
-/

namespace CirisServer.TraceReceipt

/-- A document that signs the receipt with the registered key of `keyId`. -/
structure Signs (v : Verifier) (keyId : String) (receipt : Receipt) (doc : Json) : Prop where
  signer : signerOf doc = keyId
  digest : (doc.get? "manifest").bind (fun m => (m.get? "sha256").bind Json.asStr) =
    some (v.sha256Hex (v.receiptBytes receipt))
  verifies : ∃ manifest record classical pqc canonical, doc.get? "manifest" = some manifest ∧
    v.lookupPublicKey keyId = .ok (some record) ∧ v.canonicalize manifest = .ok canonical ∧
    v.verifyHybrid canonical classical pqc record = true

/-- A receipt that answers this ask: signed by the canonical's own key, which stands, bound to the
    agent, the trace and the nonce, and fresh. -/
structure Answers (v : Verifier) (c : CanonicalRead) (agentIdHash : String)
    (traceId : Option String) (turn : Turn) (receipt : Receipt) : Prop where
  signed : ∃ doc, Signs v c.keyId receipt doc
  stands : v.standing c.keyId turn.askedAt turn.checkedAt = .ok .stands
  agent : receipt.agentIdHash = agentIdHash
  trace : receipt.askedTraceId = traceId
  nonce : receipt.nonce = some turn.nonce
  fresh : turn.readAt - receipt.readAt ≤ maxReceiptAge ∧
    -maxReceiptAge ≤ turn.readAt - receipt.readAt

/-- What one result says about its agent. -/
def viewOf (a : Authored) : AskResult → AgentView
  | .ok receipt => verifiedView a receipt
  | .error (verification, _) => unknownView a verification

/-- What a report says about an agent at canonical `j` rests on the answer to one of the asks for the
    agent, or counts nothing. -/
inductive Backed (v : Verifier) (asking : Asking) (j : Nat) (c : CanonicalRead) (a : Authored) :
    AgentView → Prop
  | receipt (i k : Nat) (receipt : Receipt) :
    Answers v c a.agentIdHash (a.newestAuthored.map Newest.traceId) (asking.turns j i k) receipt →
    Backed v asking j c a (verifiedView a receipt)
  | unknown (verification : Verification) : Backed v asking j c a (unknownView a verification)

/-- A canonical has answered for an agent with this receipt, which its part of the report uses. -/
structure AnsweredWith (v : Verifier) (asking : Asking) (entry : CanonicalRead × Nat)
    (a : Authored) (view : CanonicalView) (receipt : Receipt) : Prop where
  answers : ∃ i k, Answers v entry.1 a.agentIdHash (a.newestAuthored.map Newest.traceId)
    (asking.turns entry.2 i k) receipt
  used : verifiedView a receipt ∈ view.agents

/-- What a report says of a canonical: no more than its answers back, that it has answered only if it
    has for every agent, and no receipt of one that is not said to have answered. -/
structure Judged (v : Verifier) (asking : Asking) (agents : List Authored)
    (entry : CanonicalRead × Nat) (view : CanonicalView) : Prop where
  keyId : view.keyId = entry.1.keyId
  backed : ∀ w ∈ view.agents, ∃ a ∈ agents, Backed v asking entry.2 entry.1 a w
  answered : view.standing = some .answered → ∀ a ∈ agents, ∃ receipt,
    AnsweredWith v asking entry a view receipt
  counted : ∀ w ∈ view.agents, w.held.isSome = true →
    view.standing = some .answered ∨ view.standing = some .partly

section

variable {v : Verifier} {c : CanonicalRead} {agentIdHash : String} {traceId : Option String}

/-! ## One ask -/

theorem signs_of_verified {receipt : Receipt} {doc : Json}
    (h : verifyObjectBytes v (v.receiptBytes receipt) doc = .ok true) :
    Signs v (signerOf doc) receipt doc := by
  unfold verifyObjectBytes at h
  obtain ⟨manifest, hmanifest, h⟩ := except_bind_ok h
  rw [except_elim_eq_ok_iff] at hmanifest
  obtain ⟨claimed, hclaimed, h⟩ := except_bind_ok h
  rw [except_elim_eq_ok_iff] at hclaimed
  by_cases hdigest : v.sha256Hex (v.receiptBytes receipt) = claimed
  · rw [if_neg (not_not_intro hdigest)] at h
    obtain ⟨keyId, hkey, h⟩ := except_bind_ok h
    rw [except_elim_eq_ok_iff] at hkey
    obtain ⟨found, hfound, h⟩ := except_bind_ok h
    replace hfound := except_mapError_ok hfound
    obtain ⟨record, hrecord, h⟩ := except_bind_ok h
    rw [except_elim_eq_ok_iff] at hrecord
    obtain ⟨classical, -, h⟩ := except_bind_ok h
    obtain ⟨pqc, -, h⟩ := except_bind_ok h
    obtain ⟨canonical, hcanonical, h⟩ := except_bind_ok h
    replace hcanonical := except_mapError_ok hcanonical
    have hsigner : signerOf doc = keyId := by
      rw [signerOf, hmanifest, Option.bind_some, hkey, Option.getD_some]
    refine ⟨rfl, ?_, manifest, record, classical, pqc, canonical, hmanifest, ?_, hcanonical,
      Except.ok.inj h⟩
    · rw [hmanifest, Option.bind_some, hclaimed, hdigest]
    · rw [hsigner, hfound, hrecord]
  · rw [if_pos hdigest] at h
    cases h

/-- A receipt that one ask hands on is the answer to it. -/
theorem askOnce_ok {turn : Turn} {receipt : Receipt}
    (h : askOnce v c agentIdHash traceId turn = .ok receipt) :
    Answers v c agentIdHash traceId turn receipt := by
  unfold askOnce at h
  obtain ⟨reply, -, h⟩ := except_bind_ok h
  obtain ⟨body, -, h⟩ := except_bind_ok h
  obtain ⟨-, -, h⟩ := except_bind_ok h
  obtain ⟨answer, -, h⟩ := except_bind_ok h
  obtain ⟨receipt', -, h⟩ := except_bind_ok h
  obtain ⟨doc, -, h⟩ := except_bind_ok h
  obtain ⟨u, hsigner, h⟩ := except_bind_ok h
  obtain ⟨verified, hverified, h⟩ := except_bind_ok h
  obtain ⟨u', htrue, h⟩ := except_bind_ok h
  obtain ⟨standing, hstanding, h⟩ := except_bind_ok h
  obtain ⟨u'', hpermits, h⟩ := except_bind_ok h
  obtain ⟨u3, hbound, h⟩ := except_bind_ok h
  obtain ⟨u4, hfresh, h⟩ := except_bind_ok h
  cases h
  rw [ensure_eq_ok_iff, decide_eq_true_eq] at hsigner hbound hfresh
  rw [ensure_eq_ok_iff] at htrue
  subst htrue
  have hsigned := signs_of_verified (except_mapError_ok hverified)
  have hstands : standing = .stands := by
    cases standing with
    | stands => rfl
    | suspectAfterBound => cases hpermits
    | suspectUnbounded => cases hpermits
  rw [hsigner] at hsigned
  refine ⟨⟨doc, hsigned⟩, ?_, hbound.1, hbound.2.1, hbound.2.2, hfresh⟩
  rw [← hsigner, except_mapError_ok hstanding, hstands]

/-- So is a receipt that an ask hands on after its retries. -/
theorem ask_ok {turns : Nat → Turn} {deadline left i : Nat} {receipt : Receipt}
    (h : (ask v c agentIdHash traceId turns deadline left i).result = some (.ok receipt)) :
    ∃ k, Answers v c agentIdHash traceId (turns k) receipt := by
  induction left generalizing i with
  | zero => exact ⟨i, askOnce_ok (Option.some.inj h)⟩
  | succ left ih =>
    rcases ask_succ v c agentIdHash traceId turns deadline left i with ⟨-, heq⟩ |
      ⟨e, -, ⟨-, heq⟩ | ⟨wake, -, ⟨-, heq⟩ | ⟨-, heq⟩⟩⟩
    · rw [heq] at h
      exact ⟨i, askOnce_ok (Option.some.inj h)⟩
    · rw [heq] at h
      cases h
    · rw [heq] at h
      cases h
    · rw [heq] at h
      exact ih h

/-! ## The results of one canonical -/

theorem length_fileSlots (total : Nat) (arrivals : List (Nat × AskResult)) :
    (fileSlots total arrivals).length = total := by
  unfold fileSlots
  refine List.foldlRecOn (motive := fun slots : List (Option AskResult) => slots.length = total)
    arrivals _ ?_ ?_
  · exact List.length_replicate
  · intro slots hlength arrival _
    rw [List.length_set, hlength]

/-- What is filed under an index has arrived for it. -/
theorem mem_arrivals {total : Nat} {arrivals : List (Nat × AskResult)} {i : Nat} {r : AskResult}
    (h : (fileSlots total arrivals)[i]? = some (some r)) : (i, r) ∈ arrivals := by
  unfold fileSlots at h
  revert i r
  refine List.foldlRecOn (motive := fun slots : List (Option AskResult) =>
    ∀ {i : Nat} {r : AskResult}, slots[i]? = some (some r) → (i, r) ∈ arrivals) arrivals _ ?_ ?_
  · intro i r hnone
    have hmem := List.eq_of_mem_replicate (List.mem_of_getElem? hnone)
    cases hmem
  · intro slots hslots arrival harrival i r hset
    rw [List.getElem?_set] at hset
    by_cases hi : arrival.1 = i
    · rw [if_pos hi] at hset
      by_cases hbound : arrival.1 < slots.length
      · rw [if_pos hbound] at hset
        cases hset
        rw [← hi]
        exact harrival
      · rw [if_neg hbound] at hset
        cases hset
    · rw [if_neg hi] at hset
      exact hslots hset

/-- Each result is that of the ask of its index, or none came in time. -/
theorem askAll_spec {asking : Asking} {qs : List (String × Option String)} {j : Nat}
    {results : List AskResult} (h : askAll v asking qs j c = some results) :
    results.length = qs.length ∧ ∀ i r, results[i]? = some r →
      r = noAnswer asking.deadlineSecs ∨ ∃ q, qs[i]? = some q ∧
        (ask v c q.1 q.2 (asking.turns j i) (asking.deadline j) max429Retries 0).result = some r := by
  obtain ⟨arrivals, harrivals, h⟩ := Option.bind_eq_some_iff.mp h
  cases h
  refine ⟨by rw [List.length_map, length_fileSlots], ?_⟩
  intro i r hr
  rw [List.getElem?_map] at hr
  obtain ⟨slot, hslot, rfl⟩ := Option.map_eq_some_iff.mp hr
  cases slot with
  | none => exact Or.inl rfl
  | some r =>
    right
    rw [List.mapM_eq_some_iff] at harrivals
    have hmem : some (i, r) ∈ (asking.order j).map (answer v asking qs j c) := by
      rw [harrivals]
      exact List.mem_map_of_mem (mem_arrivals hslot)
    obtain ⟨i', -, hanswer⟩ := List.mem_map.mp hmem
    rw [answer] at hanswer
    cases hq : qs[i']? with
    | none =>
      rw [hq] at hanswer
      cases hanswer
    | some q =>
      rw [hq] at hanswer
      obtain ⟨r', hresult, heq⟩ := Option.map_eq_some_iff.mp hanswer
      cases heq
      exact ⟨q, hq, hresult⟩

/-- The loop over the results files what each says about its agent, and counts the receipts. -/
theorem foldl_add (pairs : List (Option Authored × AskResult)) (t : Tally) :
    let said := pairs.filterMap fun p => p.1.map (viewOf · p.2)
    (pairs.foldl Tally.add t).perAgent = t.perAgent ++ said ∧
    (pairs.foldl Tally.add t).verified = t.verified + pairs.countP (·.2.isOk) ∧
    (pairs.foldl Tally.add t).heldEverywhere =
      (t.heldEverywhere && said.all fun w => decide (w.newestAuthoredHeld ≠ some false)) := by
  induction pairs generalizing t with
  | nil => simp
  | cons p pairs ih =>
    obtain ⟨hsaid, hcount, hheld⟩ := ih (t.add p)
    rw [List.foldl_cons]
    refine ⟨?_, ?_, ?_⟩
    · rw [hsaid]
      obtain ⟨_ | a, e | receipt⟩ := p <;> simp [Tally.add, viewOf]
    · rw [hcount]
      obtain ⟨_ | a, e | receipt⟩ := p <;> simp [Tally.add, Except.isOk, Except.toBool] <;> omega
    · rw [hheld]
      obtain ⟨_ | a, e | receipt⟩ := p <;>
        simp [Tally.add, viewOf, verifiedView, unknownView, Bool.and_assoc]

/-- An agent and a result of the loop have the same index. -/
theorem mem_withAgents_iff {agents : List Authored} {results : List AskResult} {a : Authored}
    {r : AskResult} :
    (some a, r) ∈ withAgents agents results ↔
      ∃ i : Nat, agents[i]? = some a ∧ results[i]? = some r := by
  unfold withAgents
  cases agents with
  | nil => simp
  | cons b agents =>
    rw [if_neg (by simp), List.mem_iff_getElem?]
    simp only [List.getElem?_zip_eq_some, List.getElem?_map, Option.map_eq_some_iff,
      Option.some.injEq, exists_eq_right]

theorem map_snd_withAgents {agents : List Authored} {results : List AskResult}
    (h : results.length = (questions agents).length) :
    (withAgents agents results).map Prod.snd = results := by
  unfold withAgents
  cases agents with
  | nil => simp
  | cons b agents =>
    rw [if_neg (by simp)]
    apply List.map_snd_zip
    simpa [questions] using h.le

theorem getElem?_questions {agents : List Authored} {i : Nat} {a : Authored}
    (h : agents[i]? = some a) :
    (questions agents)[i]? = some (a.agentIdHash, a.newestAuthored.map Newest.traceId) := by
  cases agents with
  | nil => cases h
  | cons b agents => rw [questions, if_neg (by simp), List.getElem?_map, h, Option.map_some]

/-- A receipt among the results is the answer to its agent's ask. -/
theorem answers_of_result {asking : Asking} {agents : List Authored} {j : Nat}
    {results : List AskResult} (h : askAll v asking (questions agents) j c = some results)
    {i : Nat} {a : Authored} {receipt : Receipt} (ha : agents[i]? = some a)
    (hr : results[i]? = some (.ok receipt)) :
    ∃ k, Answers v c a.agentIdHash (a.newestAuthored.map Newest.traceId) (asking.turns j i k)
      receipt := by
  rcases (askAll_spec h).2 i _ hr with hnone | ⟨q, hq, hresult⟩
  · cases hnone
  · rw [getElem?_questions ha] at hq
    cases hq
    exact ask_ok hresult

/-- What the results say about the agents. -/
def said (agents : List Authored) (results : List AskResult) : List AgentView :=
  (withAgents agents results).filterMap fun p => p.1.map (viewOf · p.2)

theorem mem_said_iff {agents : List Authored} {results : List AskResult} {w : AgentView} :
    w ∈ said agents results ↔
      ∃ (i : Nat) (a : Authored) (r : AskResult), agents[i]? = some a ∧ results[i]? = some r ∧
        viewOf a r = w := by
  unfold said
  rw [List.mem_filterMap]
  constructor
  · rintro ⟨⟨b, r⟩, hmem, hw⟩
    obtain ⟨a, rfl, hview⟩ := Option.map_eq_some_iff.mp hw
    obtain ⟨i, ha, hr⟩ := mem_withAgents_iff.mp hmem
    exact ⟨i, a, r, ha, hr, hview⟩
  · rintro ⟨i, a, r, ha, hr, rfl⟩
    exact ⟨(some a, r), mem_withAgents_iff.mpr ⟨i, ha, hr⟩, rfl⟩

theorem standingOf_eq_answered {verified total : Nat} {reachable : Bool}
    (h : standingOf verified total reachable = .answered) : verified = total := by
  unfold standingOf at h
  by_cases hall : verified > 0 ∧ verified = total
  · exact hall.2
  · rw [if_neg hall] at h
    by_cases hsome : verified > 0
    · rw [if_pos hsome] at h
      cases h
    · rw [if_neg hsome] at h
      cases reachable <;> cases h

theorem standingOf_of_pos {verified total : Nat} (reachable : Bool) (h : 0 < verified) :
    standingOf verified total reachable = .answered ∨
      standingOf verified total reachable = .partly := by
  unfold standingOf
  by_cases hall : verified > 0 ∧ verified = total
  · exact Or.inl (if_pos hall)
  · rw [if_neg hall, if_pos h]
    exact Or.inr rfl

/-- What is said of a canonical whose asks have come to these results. -/
theorem judged_of_results {asking : Asking} {agents : List Authored} {j : Nat}
    {results : List AskResult} (h : askAll v asking (questions agents) j c = some results)
    {view : CanonicalView} (hkey : view.keyId = c.keyId)
    (hagents : view.agents = said agents results)
    (hstanding : view.standing =
      some (standingOf (results.countP Except.isOk) results.length view.reachable)) :
    Judged v asking agents (c, j) view := by
  refine ⟨hkey, ?_, ?_, ?_⟩
  · intro w hw
    rw [hagents, mem_said_iff] at hw
    obtain ⟨i, a, r, ha, hr, rfl⟩ := hw
    refine ⟨a, List.mem_of_getElem? ha, ?_⟩
    cases r with
    | error e => exact .unknown e.1
    | ok receipt =>
      obtain ⟨k, hanswers⟩ := answers_of_result h ha hr
      exact .receipt i k receipt hanswers
  · intro hanswered a hmem
    rw [hstanding, Option.some.injEq] at hanswered
    have hall := List.countP_eq_length.mp (standingOf_eq_answered hanswered)
    obtain ⟨i, ha⟩ := List.mem_iff_getElem?.mp hmem
    have hlength : i < results.length := by
      rw [(askAll_spec h).1]
      exact (List.getElem?_eq_some_iff.mp (getElem?_questions ha)).1
    have hr := List.getElem?_eq_getElem hlength
    cases hresult : results[i] with
    | error e =>
      have hok := hall _ (List.mem_of_getElem? hr)
      rw [hresult] at hok
      cases hok
    | ok receipt =>
      rw [hresult] at hr
      obtain ⟨k, hanswers⟩ := answers_of_result h ha hr
      refine ⟨receipt, ⟨i, k, hanswers⟩, ?_⟩
      rw [hagents, mem_said_iff]
      exact ⟨i, a, .ok receipt, ha, hr, rfl⟩
  · intro w hw hheld
    rw [hagents, mem_said_iff] at hw
    obtain ⟨i, a, r, ha, hr, rfl⟩ := hw
    cases r with
    | error e => cases hheld
    | ok receipt =>
      have hpos : 0 < results.countP Except.isOk :=
        List.countP_pos_iff.mpr ⟨.ok receipt, List.mem_of_getElem? hr, rfl⟩
      rw [hstanding, Option.some.injEq, Option.some.injEq]
      exact standingOf_of_pos view.reachable hpos

theorem count_views (t : Totals) (s : CanonicalStanding) : (t.count s).views = t.views := by
  cases s <;> rfl

theorem count_heldEverywhere (t : Totals) (s : CanonicalStanding) :
    (t.count s).heldEverywhere = t.heldEverywhere := by
  cases s <;> rfl

theorem count_answered (t : Totals) (s : CanonicalStanding) :
    (t.count s).answered = if s = .answered then t.answered + 1 else t.answered := by
  cases s <;> rfl

theorem count_partly (t : Totals) (s : CanonicalStanding) :
    (t.count s).partly = if s = .partly then t.partly + 1 else t.partly := by
  cases s <;> rfl

/-- **Step.** One canonical adds what is said of it, and is counted by its standing. -/
theorem canonical_some {asking : Asking} {agents : List Authored} {t t' : Totals}
    {entry : CanonicalRead × Nat} (h : Totals.canonical v asking agents t entry = some t') :
    ∃ view, Judged v asking agents entry view ∧ t'.views = t.views ++ [view] ∧
      (t'.answered = if view.standing = some .answered then t.answered + 1 else t.answered) ∧
      (t'.partly = if view.standing = some .partly then t.partly + 1 else t.partly) ∧
      t'.heldEverywhere = (t.heldEverywhere &&
        view.agents.all fun w => decide (w.newestAuthoredHeld ≠ some false)) := by
  unfold Totals.canonical at h
  cases hclient : asking.client with
  | false =>
    rw [hclient] at h
    cases h
    exact ⟨_, ⟨rfl, by simp, by simp, by simp⟩, rfl, rfl, rfl, by simp⟩
  | true =>
    rw [hclient] at h
    obtain ⟨results, hresults, h⟩ := Option.bind_eq_some_iff.mp h
    obtain ⟨hsaid, hcount, hheld⟩ := foldl_add (withAgents agents results)
      ⟨[], true, 0, none, t.heldEverywhere, t.worstGap⟩
    generalize (withAgents agents results).foldl Tally.add
      ⟨[], true, 0, none, t.heldEverywhere, t.worstGap⟩ = tally at h hsaid hcount hheld
    cases h
    have hverified : tally.verified = results.countP Except.isOk := by
      have hsnd := map_snd_withAgents (askAll_spec hresults).1
      calc tally.verified
          = ((withAgents agents results).map Prod.snd).countP Except.isOk := by
            rw [hcount, List.countP_map, Nat.zero_add]
            rfl
        _ = results.countP Except.isOk := by rw [hsnd]
    refine ⟨⟨entry.1.keyId, entry.1.url, tally.reachable,
      some (standingOf tally.verified results.length tally.reachable), tally.firstError,
      tally.perAgent⟩, judged_of_results hresults rfl hsaid ?_, ?_, ?_, ?_, ?_⟩
    · rw [← hverified]
    · exact count_views _ _
    · rw [count_answered]
      simp only [Option.some.injEq]
    · rw [count_partly]
      simp only [Option.some.injEq]
    · rw [count_heldEverywhere, hheld, hsaid]
      rfl

/-! ## All canonicals -/

/-- What the counts of the loop over the canonicals say about its views. -/
structure Counted (t : Totals) : Prop where
  answered : 0 < t.answered → ∃ view ∈ t.views, view.standing = some .answered
  partly : t.partly = 0 → ∀ view ∈ t.views, view.standing ≠ some .partly
  held : t.heldEverywhere = true →
    ∀ view ∈ t.views, ∀ w ∈ view.agents, w.newestAuthoredHeld ≠ some false

theorem Counted.start : Counted Totals.start where
  answered h := absurd h (Nat.lt_irrefl 0)
  partly _ _ hview := absurd hview List.not_mem_nil
  held _ _ hview := absurd hview List.not_mem_nil

theorem Counted.canonical {asking : Asking} {agents : List Authored} {t t' : Totals}
    {entry : CanonicalRead × Nat} (hcounted : Counted t)
    (h : Totals.canonical v asking agents t entry = some t') : Counted t' := by
  obtain ⟨view, -, hviews, hanswered, hpartly, hheld⟩ := canonical_some h
  refine ⟨?_, ?_, ?_⟩
  · intro hpos
    rw [hviews]
    by_cases hstanding : view.standing = some .answered
    · exact ⟨view, by simp, hstanding⟩
    · rw [hanswered, if_neg hstanding] at hpos
      obtain ⟨view', hmem, hstanding'⟩ := hcounted.answered hpos
      exact ⟨view', List.mem_append_left _ hmem, hstanding'⟩
  · intro hzero
    rw [hpartly] at hzero
    by_cases hstanding : view.standing = some .partly
    · rw [if_pos hstanding] at hzero
      omega
    · rw [if_neg hstanding] at hzero
      rw [hviews]
      exact forall_mem_append_singleton (hcounted.partly hzero) hstanding
  · intro htrue
    rw [hheld, Bool.and_eq_true, List.all_eq_true] at htrue
    rw [hviews]
    refine forall_mem_append_singleton (hcounted.held htrue.1) ?_
    intro w hw
    exact of_decide_eq_true (htrue.2 w hw)

/-! ## Discovery -/

/-- Discovery has found every agent of the rows that the node's own key has signed. -/
def Covers (store : TraceStore) (pageSize : Int) (agents : List Authored) : Prop :=
  ∃ ownKey, store.ownKey = .ok ownKey ∧
    ∀ page ∈ store.pages pageSize, ∃ items, page = .ok items ∧
      ∀ row ∈ items, row.agentKeyId = some ownKey →
        row.agentIdHash ∈ agents.map Authored.agentIdHash

theorem keep_covers (maxAgents : Nat) (s : Scan) (row : TraceSummary) :
    s.hashes ⊆ (s.keep maxAgents row).hashes ∧
      ((s.keep maxAgents row).discovery.agentsTruncated = false →
        s.discovery.agentsTruncated = false ∧
          row.agentIdHash ∈ (s.keep maxAgents row).hashes) := by
  unfold Scan.keep
  by_cases hknown : row.agentIdHash ∈ s.hashes
  · rw [if_pos hknown]
    exact ⟨List.Subset.refl _, fun h => ⟨h, hknown⟩⟩
  · rw [if_neg hknown]
    by_cases hfull : s.hashes.length ≥ maxAgents
    · rw [if_pos hfull]
      exact ⟨List.Subset.refl _, fun h => by cases h⟩
    · rw [if_neg hfull]
      exact ⟨List.subset_append_left _ _, fun h => ⟨h, by simp⟩⟩

theorem foldl_keep_covers (maxAgents : Nat) (rows : List TraceSummary) (s : Scan) :
    s.hashes ⊆ (rows.foldl (Scan.keep maxAgents) s).hashes ∧
      ((rows.foldl (Scan.keep maxAgents) s).discovery.agentsTruncated = false →
        s.discovery.agentsTruncated = false ∧
          ∀ row ∈ rows, row.agentIdHash ∈ (rows.foldl (Scan.keep maxAgents) s).hashes) := by
  induction rows generalizing s with
  | nil => exact ⟨List.Subset.refl _, fun h => ⟨h, by simp⟩⟩
  | cons row rows ih =>
    obtain ⟨hsub, hcut⟩ := keep_covers maxAgents s row
    obtain ⟨hsubs, hcuts⟩ := ih (s.keep maxAgents row)
    rw [List.foldl_cons]
    refine ⟨List.Subset.trans hsub hsubs, ?_⟩
    intro h
    obtain ⟨hfalse, hrows⟩ := hcuts h
    obtain ⟨hfalse, hrow⟩ := hcut hfalse
    exact ⟨hfalse, List.forall_mem_cons.mpr ⟨hsubs hrow, hrows⟩⟩

theorem page_covers (ownKey : String) (maxAgents : Nat) (s : Scan) (items : List TraceSummary) :
    s.hashes ⊆ (s.page ownKey maxAgents items).hashes ∧
      ((s.page ownKey maxAgents items).discovery.agentsTruncated = false →
        s.discovery.agentsTruncated = false ∧ ∀ row ∈ items, row.agentKeyId = some ownKey →
          row.agentIdHash ∈ (s.page ownKey maxAgents items).hashes) := by
  obtain ⟨hsub, hcut⟩ := foldl_keep_covers maxAgents (items.filter (·.agentKeyId = some ownKey))
    { s with discovery := { s.discovery with rowsScanned := s.discovery.rowsScanned + items.length } }
  refine ⟨hsub, ?_⟩
  intro h
  obtain ⟨hfalse, hrows⟩ := hcut h
  refine ⟨hfalse, ?_⟩
  intro row hrow hkey
  exact hrows row (List.mem_filter.mpr ⟨hrow, decide_eq_true hkey⟩)

/-- A scan that is not cut short has found every agent of the rows of the node's own key. -/
theorem scan_covers {ownKey : String} {maxRows maxAgents : Nat}
    {pages : List (Except String (List TraceSummary))} {s s' : Scan}
    (h : s.run ownKey maxRows maxAgents pages = .ok s') :
    s.hashes ⊆ s'.hashes ∧
      (s'.discovery.truncated = false → s'.discovery.agentsTruncated = false →
        s.discovery.agentsTruncated = false ∧
          ∀ page ∈ pages, ∃ items, page = .ok items ∧
            ∀ row ∈ items, row.agentKeyId = some ownKey → row.agentIdHash ∈ s'.hashes) := by
  induction pages generalizing s with
  | nil =>
    cases h
    exact ⟨List.Subset.refl _, fun _ hcut => ⟨hcut, by simp⟩⟩
  | cons page pages ih =>
    cases page with
    | error e => cases h
    | ok items =>
      obtain ⟨hsub, hcut⟩ := page_covers ownKey maxAgents s items
      rw [Scan.run] at h
      by_cases hlast : pages.isEmpty = true
      · simp only [hlast, if_true] at h
        cases h
        rw [List.isEmpty_iff.mp hlast]
        refine ⟨hsub, ?_⟩
        intro _ hfalse
        obtain ⟨hstart, hrows⟩ := hcut hfalse
        refine ⟨hstart, ?_⟩
        rw [List.forall_mem_singleton]
        exact ⟨items, rfl, hrows⟩
      · simp only [if_neg hlast] at h
        by_cases hmax : (s.page ownKey maxAgents items).discovery.rowsScanned ≥ maxRows
        · rw [if_pos hmax] at h
          cases h
          exact ⟨hsub, fun htruncated => by cases htruncated⟩
        · rw [if_neg hmax] at h
          obtain ⟨hsubs, hcuts⟩ := ih h
          refine ⟨List.Subset.trans hsub hsubs, ?_⟩
          intro htruncated hfalse
          obtain ⟨hnext, hpages⟩ := hcuts htruncated hfalse
          obtain ⟨hstart, hrows⟩ := hcut hnext
          refine ⟨hstart, ?_⟩
          rw [List.forall_mem_cons]
          exact ⟨⟨items, rfl, fun row hrow hkey => hsubs (hrows row hrow hkey)⟩, hpages⟩

theorem keep_mode (maxAgents : Nat) (s : Scan) (row : TraceSummary) :
    (s.keep maxAgents row).discovery.mode = s.discovery.mode := by
  unfold Scan.keep
  by_cases hknown : row.agentIdHash ∈ s.hashes
  · rw [if_pos hknown]
  · rw [if_neg hknown]
    by_cases hfull : s.hashes.length ≥ maxAgents
    · rw [if_pos hfull]
    · rw [if_neg hfull]

theorem page_mode (ownKey : String) (maxAgents : Nat) (s : Scan) (items : List TraceSummary) :
    (s.page ownKey maxAgents items).discovery.mode = s.discovery.mode := by
  unfold Scan.page
  refine List.foldlRecOn (motive := fun s' : Scan => s'.discovery.mode = s.discovery.mode) _ _ rfl ?_
  intro s' hmode row _
  rw [keep_mode, hmode]

theorem scan_mode {ownKey : String} {maxRows maxAgents : Nat}
    {pages : List (Except String (List TraceSummary))} {s s' : Scan}
    (h : s.run ownKey maxRows maxAgents pages = .ok s') : s'.discovery.mode = s.discovery.mode := by
  induction pages generalizing s with
  | nil =>
    cases h
    rfl
  | cons page pages ih =>
    cases page with
    | error e => cases h
    | ok items =>
      rw [← page_mode ownKey maxAgents s items]
      rw [Scan.run] at h
      by_cases hlast : pages.isEmpty = true
      · simp only [hlast, if_true] at h
        cases h
        rfl
      · simp only [if_neg hlast] at h
        by_cases hmax : (s.page ownKey maxAgents items).discovery.rowsScanned ≥ maxRows
        · rw [if_pos hmax] at h
          cases h
          rfl
        · rw [if_neg hmax] at h
          exact ih h

/-- The agents are those that the scan has found, in its order. -/
theorem map_agentIdHash_of_mapM {store : TraceStore} {newest : List (String × Newest)}
    {hashes : List String} {agents : List Authored}
    (h : hashes.mapM (authoredFor store newest) = .ok agents) :
    agents.map Authored.agentIdHash = hashes := by
  induction hashes generalizing agents with
  | nil =>
    cases h
    rfl
  | cons hash hashes ih =>
    rw [List.mapM_cons] at h
    obtain ⟨a, ha, h⟩ := except_bind_ok h
    obtain ⟨rest, hrest, h⟩ := except_bind_ok h
    cases h
    rw [List.map_cons, ih hrest]
    congr 1
    obtain ⟨authored, -, ha⟩ := except_bind_ok ha
    cases hfound : newest.lookup hash with
    | some n =>
      rw [hfound] at ha
      cases ha
      rfl
    | none =>
      rw [hfound] at ha
      obtain ⟨found, -, ha⟩ := except_bind_ok ha
      cases ha
      rfl

/-- What discovery hands on: the agent that was named, or every agent of the node's own rows if it
    does not say that it has stopped early. -/
theorem authoredHere_spec {store : TraceStore} {only : Option String} {pageSize : Int}
    {maxRows maxAgents : Nat} {agents : List Authored} {discovery : Discovery}
    (h : authoredHereWith store only pageSize maxRows maxAgents = .ok (agents, discovery)) :
    (∀ hash, nonblank only = some hash → agents.map Authored.agentIdHash = [hash]) ∧
      (nonblank only = none → discovery.mode = .signingKey ∧
        (discovery.truncated = false → discovery.agentsTruncated = false →
          Covers store pageSize agents)) := by
  unfold authoredHereWith at h
  obtain ⟨scan, hscan, h⟩ := except_bind_ok h
  obtain ⟨agents', hagents, h⟩ := except_bind_ok h
  cases h
  rw [map_agentIdHash_of_mapM hagents]
  unfold scanFor at hscan
  cases honly : nonblank only with
  | some hash =>
    rw [honly] at hscan
    cases hscan
    refine ⟨?_, fun hnone => by cases hnone⟩
    intro hash' hsame
    cases hsame
    rfl
  | none =>
    rw [honly] at hscan
    obtain ⟨ownKey, hkey, hscan⟩ := except_bind_ok hscan
    refine ⟨fun hash hsome => (by cases hsome), fun _ => ⟨scan_mode hscan, ?_⟩⟩
    intro htruncated hcut
    obtain ⟨-, hpages⟩ := (scan_covers hscan).2 htruncated hcut
    refine ⟨ownKey, except_mapError_ok hkey, ?_⟩
    rw [map_agentIdHash_of_mapM hagents]
    exact hpages

/-! ## The receipt -/

/-- The report knows a verdict. -/
def Report.Known (r : Report) : Prop :=
  r.verdict.newestAuthoredHeldByEveryAnsweringCanonical.isSome = true

/-- The report says that the plane has delivered: in its verdict, or in its hint. -/
def Report.Delivered (r : Report) : Prop :=
  r.verdict.newestAuthoredHeldByEveryAnsweringCanonical = some true ∨
    ∃ unreachable unverified, r.hint = .delivered unreachable unverified

/-- What a verdict asks of the discovery and of the loop over the canonicals. -/
structure Firm (agents : List Authored) (discovery : Discovery) (t : Totals) : Prop where
  answered : 0 < t.answered
  partly : t.partly = 0
  complete : discovery.mode = .signingKey →
    discovery.truncated = false ∧ discovery.agentsTruncated = false
  identity : ∀ a ∈ agents, 0 < a.authored → a.newestAuthored.isSome = true

theorem firm_of {agents : List Authored} {discovery : Discovery} {t : Totals}
    (hanswered : 0 < t.answered) (hpartly : t.partly = 0)
    (hcomplete : (verdictOf agents discovery t).discoveryIncomplete = false)
    (hidentity : (verdictOf agents discovery t).identityUnavailable = false) :
    Firm agents discovery t := by
  refine ⟨hanswered, hpartly, ?_, ?_⟩
  · intro hmode
    simpa [verdictOf, hmode] using hcomplete
  · intro a ha hpos
    simp only [verdictOf, List.any_eq_false, Bool.and_eq_true, decide_eq_true_eq, not_and] at hidentity
    simpa [Option.isSome_iff_ne_none] using hidentity a ha hpos

theorem firm_of_known {agents : List Authored} {discovery : Discovery} {t : Totals} {b : Bool}
    (h : (verdictOf agents discovery t).newestAuthoredHeldByEveryAnsweringCanonical = some b) :
    Firm agents discovery t ∧ t.heldEverywhere = b := by
  change (if _ then some t.heldEverywhere else none) = some b at h
  split_ifs at h with hknown
  simp only [Bool.and_eq_true, decide_eq_true_eq, Bool.not_eq_eq_eq_not, Bool.not_true] at hknown
  obtain ⟨⟨⟨⟨hanswered, -⟩, hpartly⟩, hcomplete⟩, hidentity⟩ := hknown
  exact ⟨firm_of hanswered hpartly hcomplete hidentity, Option.some.inj h⟩

/-- The hint does not say that the plane has delivered on less than a verdict needs. -/
theorem firm_of_delivered {roster : List CanonicalRead × Option String × List String}
    {agents : List Authored} {discovery : Discovery} {t : Totals} {unreachable unverified : Nat}
    (h : hintOf roster agents discovery t = .delivered unreachable unverified) :
    Firm agents discovery t ∧ t.heldEverywhere = true := by
  unfold hintOf at h
  cases hread : roster.2.1 with
  | some e =>
    rw [hread] at h
    cases h
  | none =>
    simp only [hread] at h
    split_ifs at h with hrefused hempty hanswered hcomplete hidentity hpartly htotal hheld
    refine ⟨firm_of ?_ ?_ ?_ ?_, hheld⟩
    · omega
    · omega
    · simpa using hcomplete
    · simpa using hidentity

/-- **Inversion.** Where the parts of a report come from. -/
theorem deliveryReceipt_ok {store : TraceStore} {asking : Asking}
    {roster : Except String CanonicalRoster} {only : Option String} {pageSize : Int}
    {maxRows maxAgents : Nat} {report : Report}
    (h : deliveryReceiptWith v store asking roster only pageSize maxRows maxAgents =
      some (.ok report)) :
    ∃ totals, authoredHereWith store only pageSize maxRows maxAgents =
        .ok (report.agents, report.discovery) ∧
      (rosterReads roster).1.zipIdx.foldlM (Totals.canonical v asking report.agents) Totals.start =
        some totals ∧
      report.canonicals = totals.views ∧
      report.verdict = verdictOf report.agents report.discovery totals ∧
      report.hint = hintOf (rosterReads roster) report.agents report.discovery totals := by
  unfold deliveryReceiptWith at h
  cases hauthored : authoredHereWith store only pageSize maxRows maxAgents with
  | error e =>
    rw [hauthored] at h
    cases h
  | ok found =>
    obtain ⟨agents, discovery⟩ := found
    rw [hauthored] at h
    obtain ⟨totals, htotals, h⟩ := Option.bind_eq_some_iff.mp h
    cases h
    exact ⟨totals, rfl, htotals, rfl, rfl, rfl⟩

/-- An agent that is not said to be behind has a receipt that says its newest trace is held. -/
theorem holdsTrace_of_held {a : Authored} {receipt : Receipt}
    (h : (verifiedView a receipt).newestAuthoredHeld ≠ some false)
    (hnewest : a.newestAuthored.isSome = true) : receipt.holdsTrace = some true := by
  obtain ⟨n, hn⟩ := Option.isSome_iff_exists.mp hnewest
  rw [verifiedView, newestAuthoredHeld, hn, Option.map_some] at h
  cases hholds : receipt.holdsTrace with
  | none =>
    rw [hholds] at h
    exact absurd rfl h
  | some b =>
    cases b with
    | true => rfl
    | false =>
      rw [hholds] at h
      exact absurd rfl h

/-- What a verdict rests on: a discovery that has covered every agent, or the agent that was named,
    a canonical that has answered, and none that has answered in part. A claim of delivery rests on
    receipts that say so, and every count on a receipt. -/
theorem verdict_not_laundered {store : TraceStore} {asking : Asking}
    {roster : Except String CanonicalRoster} {only : Option String} {pageSize : Int}
    {maxRows maxAgents : Nat} {report : Report}
    (h : deliveryReceiptWith v store asking roster only pageSize maxRows maxAgents =
      some (.ok report)) :
    (report.Known ∨ report.Delivered →
      (nonblank only = none → Covers store pageSize report.agents) ∧
      (∀ hash, nonblank only = some hash → report.agents.map Authored.agentIdHash = [hash]) ∧
      ∃ view ∈ report.canonicals, view.standing = some .answered) ∧
    List.Forall₂ (fun entry view => view.keyId = entry.1.keyId ∧
        (∀ w ∈ view.agents, ∃ a ∈ report.agents, Backed v asking entry.2 entry.1 a w) ∧
        (report.Known ∨ report.Delivered → (∃ w ∈ view.agents, w.held.isSome = true) →
          ∀ a ∈ report.agents, ∃ receipt, AnsweredWith v asking entry a view receipt) ∧
        (report.Delivered → view.standing = some .answered → ∀ a ∈ report.agents,
          (0 < a.authored → a.newestAuthored.isSome = true) ∧
          ∃ receipt, AnsweredWith v asking entry a view receipt ∧
            (a.newestAuthored.isSome = true → receipt.holdsTrace = some true)))
      (rosterReads roster).1.zipIdx report.canonicals := by
  obtain ⟨totals, hauthored, htotals, hviews, hverdict, hhint⟩ := deliveryReceipt_ok h
  obtain ⟨hnamed, hfound⟩ := authoredHere_spec hauthored
  have hcounted : Counted totals :=
    List.foldlM_option_invariant htotals Counted.start fun _ _ _ _ hs hstep => hs.canonical hstep
  obtain ⟨views, happend, hjudged⟩ := List.foldlM_option_forall₂ Totals.views
    (Judged v asking report.agents) htotals fun s entry s' hstep => by
      obtain ⟨view, hview, hadded, -⟩ := canonical_some hstep
      exact ⟨view, hadded, hview⟩
  rw [show Totals.start.views = [] from rfl, List.nil_append] at happend
  subst happend
  have hdelivered : report.Delivered →
      Firm report.agents report.discovery totals ∧ totals.heldEverywhere = true := by
    rintro (hknown | ⟨unreachable, unverified, hsays⟩)
    · rw [hverdict] at hknown
      exact firm_of_known hknown
    · rw [hhint] at hsays
      exact firm_of_delivered hsays
  have hfirm : report.Known ∨ report.Delivered →
      Firm report.agents report.discovery totals := by
    rintro (hknown | hsays)
    · obtain ⟨b, hb⟩ := Option.isSome_iff_exists.mp hknown
      rw [hverdict] at hb
      exact (firm_of_known hb).1
    · exact (hdelivered hsays).1
  rw [hviews]
  constructor
  · intro hknown
    have hgrounds := hfirm hknown
    refine ⟨?_, hnamed, hcounted.answered hgrounds.answered⟩
    intro hnone
    obtain ⟨hmode, hcovers⟩ := hfound hnone
    exact hcovers (hgrounds.complete hmode).1 (hgrounds.complete hmode).2
  · have hall : ∀ view ∈ totals.views,
        (totals.partly = 0 → view.standing ≠ some .partly) ∧
        (totals.heldEverywhere = true → ∀ w ∈ view.agents, w.newestAuthoredHeld ≠ some false) :=
      fun view hview => ⟨fun hpartly => hcounted.partly hpartly view hview,
        fun hheld => hcounted.held hheld view hview⟩
    refine (hjudged.and_right hall).imp ?_
    rintro entry view ⟨hview, hwhole, hheld⟩
    refine ⟨hview.keyId, hview.backed, ?_, ?_⟩
    · rintro hknown ⟨w, hw, hcount⟩
      have hstanding := (hview.counted w hw hcount).resolve_right (hwhole (hfirm hknown).partly)
      exact hview.answered hstanding
    · intro hsays hstanding a ha
      obtain ⟨hgrounds, htrue⟩ := hdelivered hsays
      obtain ⟨receipt, hreceipt⟩ := hview.answered hstanding a ha
      refine ⟨hgrounds.identity a ha, receipt, hreceipt, ?_⟩
      exact holdsTrace_of_held (hheld htrue _ hreceipt.used)

end

/-! ## A receipt -/

/-- What a canonical has signed for one agent. -/
def someReceipt : Receipt :=
  ⟨"agent-a", 3, some ⟨"trace-a", 0, nanosPerSec⟩, some "trace-a", some true, some "nonce-a",
    2 * nanosPerSec⟩

def receiptText : String :=
  "\x7b\"agent_id_hash\":\"agent-a\",\"traces\":3,\"newest\":\x7b\"trace_id\":\"trace-a\"," ++
  "\"started_at\":\"1970-01-01T00:00:00Z\",\"completed_at\":\"1970-01-01T00:00:01Z\"\x7d," ++
  "\"asked_trace_id\":\"trace-a\",\"holds_trace\":true,\"nonce\":\"nonce-a\"," ++
  "\"read_at\":\"1970-01-01T00:00:02Z\"\x7d"

def receiptDigest : String := "1aa6b4a90cbe91987ccaf74ebc9ba1af9f823b107fb899d6590c62aaf3b00ff0"

def manifestText : String :=
  "\x7b\"sha256\":\"" ++ receiptDigest ++ "\",\"signer_key_id\":\"canonical-1\"\x7d"

def answerText : String :=
  "\x7b\"data\":" ++ receiptText ++ ",\"signature\":\x7b\"manifest\":" ++ manifestText ++
  ",\"scrub_signature_classical\":\"c2ln\",\"scrub_signature_pqc\":\"cHFj\"\x7d\x7d"

def receiptJson : Json :=
  .obj [("agent_id_hash", .str "agent-a"), ("traces", .num (.int 3)),
    ("newest", .obj [("trace_id", .str "trace-a"), ("started_at", .str "1970-01-01T00:00:00Z"),
      ("completed_at", .str "1970-01-01T00:00:01Z")]),
    ("asked_trace_id", .str "trace-a"), ("holds_trace", .bool true), ("nonce", .str "nonce-a"),
    ("read_at", .str "1970-01-01T00:00:02Z")]

def manifestJson : Json :=
  .obj [("sha256", .str receiptDigest), ("signer_key_id", .str "canonical-1")]

def answerJson : Json :=
  .obj [("data", receiptJson),
    ("signature", .obj [("manifest", manifestJson), ("scrub_signature_classical", .str "c2ln"),
      ("scrub_signature_pqc", .str "cHFj")])]

/-- A verifier that reads this answer, and in whose directory the canonical is registered. -/
def reader : Verifier where
  json body := if body = utf8 answerText then .ok answerJson else .error "expected value"
  receipt data := if data = receiptJson then .ok someReceipt else .error "invalid type"
  receiptBytes receipt := if receipt = someReceipt then utf8 receiptText else []
  sha256Hex bytes := if bytes = utf8 receiptText then receiptDigest else ""
  lookupPublicKey keyId := .ok (if keyId = "canonical-1" then some ⟨"ZWQ=", some "bWxkc2E="⟩ else none)
  canonicalize manifest :=
    if manifest = manifestJson then .ok (utf8 manifestText) else .error "not canonical"
  verifyHybrid bytes classical pqc _ :=
    decide (bytes = utf8 manifestText ∧ classical = "c2ln" ∧ pqc = "cHFj")
  standing _ _ _ := .ok .stands
  shownTime _ := ""
  debugOption o := o.getD "None"

/-- One ask of one canonical, which answers. -/
def oneAsk : Asking where
  turns _ _ _ := ⟨"nonce-a", .ok ⟨200, "OK", none, none, [.ok (utf8 answerText)]⟩,
    3 * nanosPerSec, 3 * nanosPerSec, 3 * nanosPerSec, 5 * 10 ^ 9⟩
  order _ := [0]
  deadline _ := 25 * 10 ^ 9
  deadlineSecs := 20
  client := true

def rowOf (agent traceId : String) : TraceSummary :=
  ⟨traceId, agent, some "node-1", 0, nanosPerSec⟩

/-- A store that holds these rows. -/
def storeOf (rows : List TraceSummary) : TraceStore where
  ownKey := .ok "node-1"
  pages _ := [.ok rows]
  countTraces hash := .ok (rows.countP fun row => decide (row.agentIdHash = hash))
  newestOf hash := .ok (rows.find? fun row => decide (row.agentIdHash = hash))

def oneCanonical : CanonicalRoster := ⟨[someCanonical], []⟩

/-- The report of a delivery to it. -/
def deliveredReport (mode : DiscoveryMode) (rowsScanned : Nat) : Report :=
  ⟨⟨mode, rowsScanned, false, false⟩, [⟨"agent-a", 1, some ⟨"trace-a", 0, nanosPerSec⟩⟩], none, [],
    [⟨"canonical-1", "http://10.0.0.5:4243", true, some .answered, none,
      [verifiedView ⟨"agent-a", 1, some ⟨"trace-a", 0, nanosPerSec⟩⟩ someReceipt]⟩],
    ⟨1, 0, 0, 0, false, false, some true⟩, .delivered 0 0⟩

/-- A node that has authored for one agent knows that the plane has delivered. -/
theorem verdict_not_laundered_one_agent :
    Covers (storeOf [rowOf "agent-a" "trace-a"]) 500 (deliveredReport .signingKey 1).agents ∧
      ∃ view ∈ (deliveredReport .signingKey 1).canonicals, view.standing = some .answered := by
  have hrun : deliveryReceiptWith reader (storeOf [rowOf "agent-a" "trace-a"]) oneAsk
      (.ok oneCanonical) none 500 1000 64 = some (.ok (deliveredReport .signingKey 1)) := by
    decide +kernel
  obtain ⟨hcovers, -, hanswered⟩ := (verdict_not_laundered hrun).1 (Or.inl rfl)
  exact ⟨hcovers rfl, hanswered⟩

/-- A node that has authored for two agents and is asked about one of them knows a verdict that its
    discovery does not cover. -/
theorem named_agent_uncovered :
    deliveryReceiptWith reader
        (storeOf [rowOf "agent-a" "trace-a", rowOf "agent-b" "trace-b"]) oneAsk (.ok oneCanonical)
        (some "agent-a") 500 1000 64 = some (.ok (deliveredReport .explicit 0)) ∧
      (deliveredReport .explicit 0).Known ∧
      ¬ Covers (storeOf [rowOf "agent-a" "trace-a", rowOf "agent-b" "trace-b"]) 500
        (deliveredReport .explicit 0).agents := by
  refine ⟨by decide +kernel, rfl, ?_⟩
  rintro ⟨ownKey, hkey, hpages⟩
  cases hkey
  obtain ⟨items, hitems, hrows⟩ := hpages _ List.mem_cons_self
  cases hitems
  have hfound := hrows (rowOf "agent-b" "trace-b") (by decide +kernel) rfl
  exact absurd hfound (by decide +kernel)

end CirisServer.TraceReceipt
