import Mathlib.Data.List.Sort
import CirisServer.ForStd.Except
import CirisServer.ForStd.List
import CirisServer.Spec.PairIntents

/-!
# What a pass accepts

An acceptance is the person's consent, given when they asked. A pass accepts one pending
invitation at most for an intent, into the intent's pair, for this person and from the
intent's contact. It takes a roster that it cannot read for an empty one, though, so it may
accept for somebody who is seated already.

Key results:
- `proposalsInto_eq`: the paged read finds the proposals of the whole log
- `proposal_of_mem_groupInvites`, `pending_of_inviteState`: where a pending view comes from
- `only_asked_for_iff`: the passes that accept only what was asked for
-/

namespace CirisServer.Invites

variable {edge : Edge} {dir : Directory} {scope : GroupScope} {group : String}

/-! ## Proposals -/

theorem mem_of_proposalsFrom {fuel since : Nat} {out : List Row} {p : Row}
    (h : proposalsFrom edge dir scope group fuel since = .ok out) (hp : p ∈ out) :
    p ∈ dir.log ∧ isProposalInto edge scope group p = true := by
  induction fuel generalizing since out with
  | zero =>
    cases h
    cases hp
  | succ fuel ih =>
    obtain ⟨page, hpage, h⟩ := except_bind_ok h
    have hpage := except_mapError_ok hpage
    have hlog : ∀ q ∈ page, q ∈ dir.log := by
      intro q hq
      unfold Directory.listAttestationsSince at hpage
      cases herror : dir.pageError since with
      | some e =>
        rw [herror] at hpage
        cases hpage
      | none =>
        rw [herror] at hpage
        cases hpage
        exact List.mem_of_mem_drop (List.mem_of_mem_take hq)
    have hhere : ∀ q ∈ page.filter (isProposalInto edge scope group),
        q ∈ dir.log ∧ isProposalInto edge scope group q = true := by
      intro q hq
      obtain ⟨hq, hinto⟩ := List.mem_filter.mp hq
      exact ⟨hlog q hq, hinto⟩
    simp only at h
    split at h
    · obtain ⟨rest, hrest, h⟩ := except_bind_ok h
      cases h
      rcases List.mem_append.mp hp with hp | hp
      · exact hhere p hp
      · exact ih hrest hp
    · cases h
      exact hhere p hp

theorem mem_of_proposalsInto {out : List Row} {p : Row}
    (h : proposalsInto edge dir scope group = .ok out) (hp : p ∈ out) :
    p ∈ dir.log ∧ isProposalInto edge scope group p = true := by
  unfold proposalsInto at h
  cases hfrom : proposalsFrom edge dir scope group (dir.log.length + 1) 0 with
  | error e =>
    rw [hfrom] at h
    cases h
  | ok found =>
    rw [hfrom] at h
    cases h
    exact mem_of_proposalsFrom hfrom (List.mem_mergeSort.mp hp)

/-- Where every page can be read, there is fuel for all of them. -/
theorem proposalsFrom_eq (hread : ∀ since, dir.pageError since = none) {fuel since : Nat}
    (hfuel : dir.log.length < fuel + since) :
    proposalsFrom edge dir scope group fuel since =
      .ok ((dir.log.drop since).filter (isProposalInto edge scope group)) := by
  induction fuel generalizing since with
  | zero =>
    rw [List.drop_of_length_le (by omega)]
    rfl
  | succ fuel ih =>
    have hpage : dir.listAttestationsSince since pageSize =
        .ok ((dir.log.drop since).take pageSize) := by
      rw [Directory.listAttestationsSince, hread]
    rw [proposalsFrom, hpage]
    show (if _ then _ else _) = _
    have hsize : 0 < pageSize := by decide
    by_cases hfull : ((dir.log.drop since).take pageSize).length = pageSize
    · rw [if_pos hfull, hfull, ih (by omega)]
      show Except.ok (_ ++ _) = _
      rw [← List.filter_append, ← List.drop_drop, List.take_append_drop]
    · rw [if_neg hfull]
      rw [List.length_take] at hfull
      show Except.ok _ = _
      rw [List.take_of_length_le (by omega)]

/-- The paged read finds every proposal of the log into the group, oldest first. -/
theorem proposalsInto_eq (hread : ∀ since, dir.pageError since = none) :
    proposalsInto edge dir scope group =
      .ok ((dir.log.filter (isProposalInto edge scope group)).mergeSort
        fun p q => p.assertedAt ≤ q.assertedAt) := by
  rw [proposalsInto, proposalsFrom_eq hread (by omega), List.drop_zero]
  rfl

/-! ## Pending invitations -/

/-- The invitee has not answered the proposal, nobody withdrew it, and it has not run out. -/
structure Pending (edge : Edge) (dir : Directory) (now : Int) (p : Row) (invitee : String) :
    Prop where
  unanswered : ∃ rows, dir.attestationsToAll invitee = .ok rows ∧ ∀ r ∈ rows,
    envelopeStr r "references_attestation_id" = some p.attestationId →
      edge.dimensionOf r ≠ some edge.acceptanceDimension ∧
        edge.dimensionOf r ≠ some edge.declineDimension
  kept : ∃ rows, dir.listAttestationsReferencing p.attestationId = .ok rows ∧
    ∀ r ∈ rows, r.attestationType ≠ "withdraws"
  live : ∀ t, p.expiresAt = some t → now < t

/-- Where no reply is found, there was none before, and no row is one. -/
theorem foldl_replyStep_eq_none {proposalId : String} {rows : List Row}
    {found : Option Row × Option Row}
    (h : rows.foldl (replyStep edge proposalId) found = (none, none)) :
    found = (none, none) ∧ ∀ r ∈ rows,
      envelopeStr r "references_attestation_id" = some proposalId →
        edge.dimensionOf r ≠ some edge.acceptanceDimension ∧
          edge.dimensionOf r ≠ some edge.declineDimension := by
  induction rows generalizing found with
  | nil => exact ⟨h, fun r hr => absurd hr List.not_mem_nil⟩
  | cons r rows ih =>
    obtain ⟨hstep, hrows⟩ := ih h
    unfold replyStep at hstep
    split at hstep
    · rename_i hother
      exact ⟨hstep, List.forall_mem_cons.mpr ⟨fun hsame => absurd hsame hother, hrows⟩⟩
    · split at hstep
      · cases hstep
      · rename_i haccept
        split at hstep
        · cases (Prod.mk.inj hstep).2
        · rename_i hdecline
          exact ⟨hstep, List.forall_mem_cons.mpr ⟨fun _ => ⟨haccept, hdecline⟩, hrows⟩⟩

/-- A state is pending only without a reply. -/
theorem pending_of_inviteState {now : Int} {active : List String} {p : Row} {invitee : String}
    {accepted declined : Option Row}
    (hreplies : repliesTo edge dir invitee p.attestationId = .ok (accepted, declined))
    (hstate : inviteState dir now active p invitee accepted declined = .ok .pending) :
    Pending edge dir now p invitee := by
  obtain ⟨rows, hrows, hfound⟩ := except_bind_ok hreplies
  have hrows := except_mapError_ok hrows
  have hfound : rows.foldl (replyStep edge p.attestationId) (none, none) =
      (accepted, declined) := Except.ok.inj hfound
  simp only [inviteState] at hstate
  split at hstate
  · cases hstate
  split at hstate
  · cases hstate
  split at hstate
  · cases hstate
  rename_i haccepted
  split at hstate
  · cases hstate
  rename_i hdeclined
  obtain ⟨pulled, hpulled, hstate⟩ := except_bind_ok hstate
  obtain ⟨refs, hrefs, hpulled⟩ := except_bind_ok hpulled
  have hrefs := except_mapError_ok hrefs
  have hpulled : refs.any (·.attestationType = "withdraws") = pulled := Except.ok.inj hpulled
  split at hstate
  · cases hstate
  rename_i hnot
  split at hstate
  · cases hstate
  rename_i hlive
  have hnone : (accepted, declined) = (none, none) := by
    rw [Option.not_isSome_iff_eq_none.mp haccepted, Option.not_isSome_iff_eq_none.mp hdeclined]
  rw [hnone] at hfound
  rw [← hpulled] at hnot
  constructor
  · exact ⟨rows, hrows, (foldl_replyStep_eq_none hfound).2⟩
  · refine ⟨refs, hrefs, fun r hr hw => hnot ?_⟩
    exact List.any_eq_true.mpr ⟨r, hr, by simpa using hw⟩
  · intro t ht
    rw [ht, Option.any_some, decide_eq_true_eq] at hlive
    omega

/-- A view that is listed is of a proposal in the log, and names what that names. -/
theorem proposal_of_mem_groupInvites {now : Int} {active : List String}
    {out : List (InviteView × Option Row)} {x : InviteView × Option Row}
    (h : groupInvites edge dir now scope group active = .ok out) (hx : x ∈ out) :
    ∃ p ∈ dir.log, isProposalInto edge scope group p = true ∧
      p.attestationId = x.1.proposalId ∧ p.attestingKeyId = x.1.proposerKeyId ∧
      p.subjectKeyIds.head? = some x.1.inviteeKeyId ∧
      (x.1.state = .pending → Pending edge dir now p x.1.inviteeKeyId) := by
  obtain ⟨proposals, hproposals, h⟩ := except_bind_ok h
  obtain ⟨rounds, hrounds, h⟩ := except_bind_ok h
  cases h
  obtain ⟨round, hround, hsome⟩ := List.mem_filterMap.mp hx
  rw [id_eq] at hsome
  subst hsome
  obtain ⟨p, hp, hout⟩ := exists_of_mem_mapM_ok hrounds hround
  obtain ⟨hlog, hinto⟩ := mem_of_proposalsInto hproposals hp
  refine ⟨p, hlog, hinto, ?_⟩
  unfold inviteOf at hout
  cases hinvitee : p.subjectKeyIds.head? with
  | none =>
    rw [hinvitee] at hout
    cases hout
  | some invitee =>
    rw [hinvitee] at hout
    obtain ⟨⟨accepted, declined⟩, hreplies, hout⟩ := except_bind_ok hout
    obtain ⟨state, hstate, hout⟩ := except_bind_ok hout
    cases hout
    refine ⟨rfl, rfl, rfl, fun hpending => ?_⟩
    rw [show state = .pending from hpending] at hstate
    exact pending_of_inviteState hreplies hstate

end CirisServer.Invites

namespace CirisServer.PairIntents

open Invites

variable (edge : Edge)

/-! ## Acceptances -/

/-- The invitation that the pass accepts for the intent. -/
def accepts (me : String) (now : Int) (look : Lookup) (intent : PairIntent) :
    Option InviteView :=
  match judge edge me now look intent with
  | .accept pending => if look.dir.reply pending.proposalId = .ok () then some pending else none
  | .drop _ | .keep => none

/-- The invitation is what the intent asked for: a pending proposal into the intent's pair,
    which is that of this person and the contact, to this person, who is not seated there,
    from the contact. -/
structure AskedFor (me : String) (look : Lookup) (intent : PairIntent) (view : InviteView) :
    Prop where
  pair : edge.pairCommunityKeyId me intent.contactPerson = intent.pairId
  proposal : ∃ p ∈ look.dir.log, p.attestationId = view.proposalId ∧
    isProposalInto edge .community intent.pairId p = true ∧ p.subjectKeyIds.head? = some me ∧
    (look.dir.admissionIdentityForWriter p.attestingKeyId).toOption.getD "" =
      intent.contactPerson ∧
    Pending edge look.dir look.now p me
  unseated : me ∉ look.dir.members intent.pairId

/-- The pass accepts at most one invitation for each intent of the file, and what was asked
    for. -/
def OnlyAskedFor (me : String) (now : Int) (read : Option String) (looks : Nat → Lookup)
    (file : List PairIntent) : Prop :=
  ((advance edge me now read looks file).accepted.map Prod.fst).Sublist (readIntents read file) ∧
    ∀ entry ∈ entries read file, ∀ view,
      accepts edge me now (looks entry.2) entry.1 = some view →
        AskedFor edge me (looks entry.2) entry.1 view

/-- The roster of the pair could be read, or this person is not seated there. -/
def RosterKnown (me : String) (look : Lookup) (intent : PairIntent) : Prop :=
  look.dir.rosterError intent.pairId = none ∨ me ∉ look.dir.members intent.pairId

variable {me : String} {now : Int}

theorem consider_accepted (look : Lookup) (s : Pass) (intent : PairIntent) :
    (consider edge me now look s intent).accepted =
      s.accepted ++ ((accepts edge me now look intent).map (intent, ·)).toList := by
  unfold consider accepts
  cases judge edge me now look intent with
  | drop why => simp
  | keep => simp
  | accept pending =>
    simp only
    cases hreply : look.dir.reply pending.proposalId with
    | ok u => simp
    | error e => simp

/-- What a pass returns: for each intent in turn, what it accepts for it. -/
theorem advance_accepted (read : Option String) (looks : Nat → Lookup)
    (file : List PairIntent) :
    (advance edge me now read looks file).accepted =
      (entries read file).filterMap fun entry =>
        (accepts edge me now (looks entry.2) entry.1).map (entry.1, ·) := by
  have hfold : ∀ (todo : List (PairIntent × Nat)) (s : Pass),
      (todo.foldl (fun s entry => consider edge me now (looks entry.2) s entry.1) s).accepted =
        s.accepted ++ todo.filterMap fun entry =>
          (accepts edge me now (looks entry.2) entry.1).map (entry.1, ·) := by
    intro todo
    induction todo with
    | nil => simp
    | cons entry todo ih =>
      intro s
      rw [List.foldl_cons, ih, consider_accepted, List.append_assoc]
      cases haccepts : accepts edge me now (looks entry.2) entry.1 <;> simp [haccepts]
  exact hfold (entries read file) ⟨file, []⟩

theorem advance_accepted_sublist (read : Option String) (looks : Nat → Lookup)
    (file : List PairIntent) :
    ((advance edge me now read looks file).accepted.map Prod.fst).Sublist
      (readIntents read file) := by
  have hentries : (entries read file).map Prod.fst = readIntents read file :=
    List.zipIdx_map_fst 0 _
  rw [advance_accepted, ← hentries]
  exact List.map_fst_filterMap_sublist _ _

/-- **Inversion.** What leads to an acceptance. -/
theorem judge_of_accepts {look : Lookup} {intent : PairIntent} {view : InviteView}
    (h : accepts edge me now look intent = some view) :
    edge.pairCommunityKeyId me intent.contactPerson = intent.pairId ∧
      me ∉ activeMembers look intent.pairId ∧
      ∃ found, matchingInvites edge me look (activeMembers look intent.pairId) intent =
        .ok found ∧ view ∈ found ∧ view.state = .pending := by
  have hjudge : judge edge me now look intent = .accept view := by
    unfold accepts at h
    cases hjudge : judge edge me now look intent with
    | drop why =>
      rw [hjudge] at h
      cases h
    | keep =>
      rw [hjudge] at h
      cases h
    | accept pending =>
      rw [hjudge] at h
      simp only at h
      split at h
      · rw [Option.some.inj h]
      · cases h
  unfold judge at hjudge
  split at hjudge
  · cases hjudge
  split at hjudge
  · cases hjudge
  rename_i hpair
  simp only at hjudge
  split at hjudge
  · cases hjudge
  rename_i hunseated
  refine ⟨not_not.mp hpair, hunseated, ?_⟩
  cases hfound : matchingInvites edge me look (activeMembers look intent.pairId) intent with
  | error e =>
    rw [hfound] at hjudge
    cases hjudge
  | ok found =>
    rw [hfound] at hjudge
    simp only at hjudge
    cases hpending : found.reverse.find? fun v => v.state = .pending with
    | none =>
      rw [hpending] at hjudge
      simp only at hjudge
      split at hjudge <;> cases hjudge
    | some pending =>
      rw [hpending] at hjudge
      cases hjudge
      exact ⟨found, rfl, List.mem_reverse.mp (List.mem_of_find?_eq_some hpending),
        by simpa using List.find?_some hpending⟩

/-- Whatever the file says, an acceptance is what was asked for, if the person is not seated
    in the pair. -/
theorem askedFor_of_accepts {look : Lookup} {intent : PairIntent} {view : InviteView}
    (h : accepts edge me now look intent = some view)
    (hunseated : me ∉ look.dir.members intent.pairId) : AskedFor edge me look intent view := by
  obtain ⟨hpair, -, found, hfound, hview, hpending⟩ := judge_of_accepts edge h
  obtain ⟨invites, hinvites, hfound⟩ := except_bind_ok hfound
  cases hfound
  obtain ⟨hview, hmatch⟩ := List.mem_filter.mp hview
  rw [decide_eq_true_eq] at hmatch
  obtain ⟨x, hx, rfl⟩ := List.mem_map.mp hview
  obtain ⟨p, hlog, hinto, hid, hkey, hinvitee, hstate⟩ := proposal_of_mem_groupInvites hinvites hx
  rw [hmatch.1] at hinvitee hstate
  rw [← hkey] at hmatch
  exact ⟨hpair, ⟨p, hlog, hid, hinto, hinvitee, hmatch.2, hstate hpending⟩, hunseated⟩

/-- Whatever is in the file and in the directory, a pass accepts only what was asked for, for
    a person who is not seated yet, exactly if it knows the roster of each pair for which it
    accepts. -/
theorem only_asked_for_iff (me : String) (now : Int) (read : Option String)
    (looks : Nat → Lookup) (file : List PairIntent) :
    OnlyAskedFor edge me now read looks file ↔
      ∀ entry ∈ entries read file, accepts edge me now (looks entry.2) entry.1 ≠ none →
        RosterKnown me (looks entry.2) entry.1 := by
  constructor
  · intro ⟨_, h⟩ entry hentry haccepts
    obtain ⟨view, hview⟩ := Option.ne_none_iff_exists'.mp haccepts
    exact Or.inr (h entry hentry view hview).unseated
  · intro h
    refine ⟨advance_accepted_sublist edge read looks file, fun entry hentry view hview => ?_⟩
    apply askedFor_of_accepts edge hview
    rcases h entry hentry (by simp [hview]) with hroster | hunseated
    · have hmembers : activeMembers (looks entry.2) entry.1.pairId =
          (looks entry.2).dir.members entry.1.pairId := by
        rw [activeMembers, Directory.activeCommunityMembers, hroster]
        rfl
      rw [← hmembers]
      exact (judge_of_accepts edge hview).2.1
    · exact hunseated

/-- `me` is seated, but the roster cannot be read: a second invitation is accepted. -/
theorem accepted_though_seated :
    let dir := exampleDirectory [exampleProposal "p2" 20] [] ["bob", "me"] (some "timeout")
    let look : Lookup := ⟨dir, 50, ⟨none, none⟩⟩
    let file : List PairIntent := [⟨"chat:pair:v1:bob:me", "bob", 10⟩]
    (advance exampleEdge "me" 50 none (fun _ => look) file).accepted.map
        (fun x => x.2.proposalId) = ["p2"] ∧
      "me" ∈ dir.members "chat:pair:v1:bob:me" ∧
      ¬ OnlyAskedFor exampleEdge "me" 50 none (fun _ => look) file := by
  intro dir look file
  have haccepted : (advance exampleEdge "me" 50 none (fun _ => look) file).accepted.map
      (fun x => x.2.proposalId) = ["p2"] := by decide +kernel
  have hseated : "me" ∈ dir.members "chat:pair:v1:bob:me" := by decide +kernel
  refine ⟨haccepted, hseated, fun h => ?_⟩
  have haccepts : (accepts exampleEdge "me" 50 look
      ⟨"chat:pair:v1:bob:me", "bob", 10⟩).isSome = true := by decide +kernel
  obtain ⟨view, hview⟩ := Option.isSome_iff_exists.mp haccepts
  exact (h.2 (⟨"chat:pair:v1:bob:me", "bob", 10⟩, 0) List.mem_cons_self view hview).unseated
    hseated

end CirisServer.PairIntents
