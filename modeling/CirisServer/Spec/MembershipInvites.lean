import CirisServer.Spec.PairAcceptance

/-!
# Two ways to a seat

Those who accepted an invitation of the owner are seated when the group's invitations are listed,
and by a sweep in the background. Listing judges an acceptance by the instants that are signed; the
sweep passes over a proposal that has run out by the clock of the node, when the acceptance may have
been signed long before.

Key results:
- `mem_heldAcceptances`: the listing attempts what was accepted in time
- `mem_sweptAcceptances_iff`: the sweep attempts what has not run out
- `same_attempts_iff`: when they attempt the same
-/

namespace CirisServer.Invites

variable {edge : Edge} {dir : Directory} {byAll : AttestationsByAll} {scope : GroupScope}
  {group owner node invitee : String} {active : List String} {p acceptance : Row} {now : Int}

/-- The directory answers every read, and its rows by author are those of its log. -/
structure Answers (dir : Directory) (byAll : AttestationsByAll) : Prop where
  page : ∀ since, dir.pageError since = none
  toAll : ∀ key, ∃ rows, dir.attestationsToAll key = .ok rows
  referencing : ∀ proposalId, ∃ rows, dir.listAttestationsReferencing proposalId = .ok rows
  byAll : ∀ author, ∃ rows, byAll author = .ok rows ∧
    ∀ p, p ∈ rows ↔ p ∈ dir.log ∧ p.attestingKeyId = author

/-- The owner, or the node for them, has invited somebody into the group who is not active there
    and has accepted in time. -/
structure Seatable (edge : Edge) (dir : Directory) (scope : GroupScope) (group owner node : String)
    (active : List String) (p acceptance : Row) : Prop where
  held : p ∈ dir.log
  into : isProposalInto edge scope group p = true
  author : p.attestingKeyId = owner ∨ p.attestingKeyId = node
  accepted : ∃ invitee declined, p.subjectKeyIds.head? = some invitee ∧ invitee ∉ active ∧
    repliesTo edge dir invitee p.attestationId = .ok (some acceptance, declined)
  inTime : ∀ t ∈ p.expiresAt, acceptance.assertedAt ≤ t

/-- Not run out by this clock. -/
def Unlapsed (p : Row) (now : Int) : Prop := ∀ t ∈ p.expiresAt, now < t

/-! ## The listing -/

theorem Answers.repliesTo_ok (h : Answers dir byAll) (edge : Edge) (invitee proposalId : String) :
    ∃ found, repliesTo edge dir invitee proposalId = .ok found := by
  obtain ⟨rows, hrows⟩ := h.toAll invitee
  rw [repliesTo, hrows]
  exact ⟨_, rfl⟩

theorem Answers.withdrawn_ok (h : Answers dir byAll) (proposalId : String) :
    ∃ pulled, withdrawn dir proposalId = .ok pulled := by
  obtain ⟨rows, hrows⟩ := h.referencing proposalId
  rw [withdrawn, hrows]
  exact ⟨_, rfl⟩

theorem Answers.inviteState_ok (h : Answers dir byAll) (now : Int) (active : List String) (p : Row)
    (invitee : String) (accepted declined : Option Row) :
    ∃ state, inviteState dir now active p invitee accepted declined = .ok state := by
  obtain ⟨pulled, hpulled⟩ := h.withdrawn_ok p.attestationId
  simp only [inviteState, hpulled]
  split
  · exact ⟨_, rfl⟩
  split
  · exact ⟨_, rfl⟩
  split
  · exact ⟨_, rfl⟩
  split
  · exact ⟨_, rfl⟩
  -- without a reply, the state is the proposer's doing or the clock's
  cases pulled with
  | true => exact ⟨.withdrawn, rfl⟩
  | false =>
    cases p.expiresAt.any (fun t => t ≤ now) with
    | true => exact ⟨.expired, rfl⟩
    | false => exact ⟨.pending, rfl⟩

theorem Answers.inviteOf_ok (h : Answers dir byAll) (edge : Edge) (now : Int)
    (active : List String) (p : Row) : ∃ round, inviteOf edge dir now active p = .ok round := by
  rw [inviteOf]
  cases p.subjectKeyIds.head? with
  | none => exact ⟨_, rfl⟩
  | some invitee =>
    obtain ⟨⟨accepted, declined⟩, hreplies⟩ := h.repliesTo_ok edge invitee p.attestationId
    obtain ⟨state, hstate⟩ := h.inviteState_ok now active p invitee accepted declined
    simp only [hreplies]
    show ∃ round, (inviteState dir now active p invitee accepted declined >>= _) = _
    rw [hstate]
    exact ⟨_, rfl⟩

/-- The invitations are listed, and among them that of the proposal. -/
theorem Answers.groupInvites_ok (h : Answers dir byAll) (now : Int) (active : List String)
    (hp : p ∈ dir.log) (hinto : isProposalInto edge scope group p = true) :
    ∃ invites, groupInvites edge dir now scope group active = .ok invites ∧
      ∀ x, inviteOf edge dir now active p = .ok (some x) → x ∈ invites := by
  obtain ⟨proposals, hproposals, hmem⟩ :
      ∃ proposals, proposalsInto edge dir scope group = .ok proposals ∧ p ∈ proposals := by
    refine ⟨_, proposalsInto_eq h.page, ?_⟩
    rw [List.mem_mergeSort, List.mem_filter]
    exact ⟨hp, hinto⟩
  obtain ⟨out, hout⟩ := exists_mapM_ok (l := proposals) fun q _ => h.inviteOf_ok edge now active q
  refine ⟨out.filterMap id, ?_, fun x hx => ?_⟩
  · rw [groupInvites, hproposals]
    show (List.mapM (inviteOf edge dir now active) proposals >>= _) = _
    rw [hout]
    rfl
  · exact List.mem_filterMap.mpr ⟨some x, mem_of_mapM_ok hout hmem hx, rfl⟩

/-- What was accepted in time, by somebody who is not active, is listed as accepted. -/
theorem Seatable.inviteOf_eq (hp : Seatable edge dir scope group owner node active p acceptance)
    (now : Int) : ∃ view, inviteOf edge dir now active p = .ok (some (view, some acceptance)) ∧
      view.state = .accepted ∧ view.proposalId = p.attestationId := by
  obtain ⟨invitee, declined, hinvitee, hinactive, hreplies⟩ := hp.accepted
  have hstate : inviteState dir now active p invitee (some acceptance) declined =
      .ok .accepted := by
    have htime : (p.expiresAt.all fun t => decide (acceptance.assertedAt ≤ t)) = true := by
      rw [Option.all_eq_true]
      exact fun t ht => decide_eq_true (hp.inTime t ht)
    simp [inviteState, hinactive, htime]
    rfl
  rw [inviteOf, hinvitee]
  simp only [hreplies]
  show ∃ view, (inviteState dir now active p invitee (some acceptance) declined >>= _) = _ ∧ _
  rw [hstate]
  exact ⟨_, rfl, rfl, rfl⟩

/-- The listing attempts to seat the invitee of the proposal, by this acceptance. -/
def ListingAttempts (edge : Edge) (dir : Directory) (now : Int) (scope : GroupScope)
    (group : String) (active : List String) (p acceptance : Row) : Prop :=
  ∃ invites view, groupInvites edge dir now scope group active = .ok invites ∧
    (view, acceptance) ∈ heldAcceptances invites ∧ view.proposalId = p.attestationId

theorem mem_heldAcceptances {invites : List (InviteView × Option Row)} {view : InviteView} :
    (view, acceptance) ∈ heldAcceptances invites ↔
      (view, some acceptance) ∈ invites ∧ view.state = .accepted := by
  rw [heldAcceptances, List.mem_filterMap]
  constructor
  · rintro ⟨⟨view', found⟩, hmem, hsome⟩
    split at hsome
    · next hstate =>
      cases found with
      | none => cases hsome
      | some a =>
        cases hsome
        exact ⟨hmem, hstate⟩
    · cases hsome
  · rintro ⟨hmem, hstate⟩
    exact ⟨(view, some acceptance), hmem, by rw [if_pos hstate]; rfl⟩

/-- **The listing attempts** whatever was accepted in time, by any clock. -/
theorem listing_attempts (h : Answers dir byAll)
    (hp : Seatable edge dir scope group owner node active p acceptance) (now : Int) :
    ListingAttempts edge dir now scope group active p acceptance := by
  obtain ⟨view, hinvite, hstate, hid⟩ := hp.inviteOf_eq now
  obtain ⟨invites, hinvites, hmem⟩ := h.groupInvites_ok now active hp.held hp.into
  exact ⟨invites, view, hinvites, mem_heldAcceptances.mpr ⟨hmem _ hinvite, hstate⟩, hid⟩

/-! ## The sweep -/

/-- The sweep attempts to seat the invitee of the proposal, by this acceptance. -/
def SweepAttempts (edge : Edge) (dir : Directory) (byAll : AttestationsByAll) (now : Int)
    (owner node : String) (p acceptance : Row) : Prop :=
  (p, acceptance) ∈ sweptAcceptances edge dir byAll now (some owner) node

theorem Answers.ownProposals_ok (h : Answers dir byAll) (edge : Edge) (now : Int)
    (owner node : String) : ∃ proposals, ownProposals edge byAll now [owner, node] = .ok proposals ∧
      ∀ p, p ∈ proposals ↔ p ∈ dir.log ∧ (p.attestingKeyId = owner ∨ p.attestingKeyId = node) ∧
        edge.dimensionOf p = some edge.proposalDimension ∧ Unlapsed p now := by
  obtain ⟨owners, howners, hmemo⟩ := h.byAll owner
  obtain ⟨nodes, hnodes, hmemn⟩ := h.byAll node
  refine ⟨(owners ++ nodes).filter fun p =>
    edge.dimensionOf p == some edge.proposalDimension && p.expiresAt.all fun t => now < t, ?_, ?_⟩
  · simp [ownProposals, List.mapM_cons, howners, hnodes]
    rfl
  · intro p
    rw [List.mem_filter, List.mem_append, hmemo, hmemn, Bool.and_eq_true, beq_iff_eq,
      Option.all_eq_true, ← and_or_left, and_assoc]
    simp only [decide_eq_true_eq, Unlapsed, Option.mem_def]

/-- **The sweep attempts** what has not run out by its clock. -/
theorem sweep_attempts_iff (h : Answers dir byAll)
    (hp : Seatable edge dir scope group owner node active p acceptance) :
    SweepAttempts edge dir byAll now owner node p acceptance ↔ Unlapsed p now := by
  obtain ⟨proposals, hproposals, hmem⟩ := h.ownProposals_ok edge now owner node
  obtain ⟨invitee, declined, hinvitee, -, hreplies⟩ := hp.accepted
  have hdimension : edge.dimensionOf p = some edge.proposalDimension := by
    have hinto := hp.into
    simp only [isProposalInto, Bool.and_eq_true, beq_iff_eq] at hinto
    exact hinto.1.1
  rw [SweepAttempts, sweptAcceptances]
  simp only [hproposals, List.mem_filterMap]
  constructor
  · rintro ⟨q, hq, hswept⟩
    obtain ⟨invitee', -, hfound⟩ := Option.bind_eq_some_iff.mp hswept
    split at hfound
    · cases hfound
      exact ((hmem p).mp hq).2.2.2
    · cases hfound
    · cases hfound
  · intro hlive
    refine ⟨p, (hmem p).mpr ⟨hp.held, hp.author, hdimension, hlive⟩, ?_⟩
    rw [hinvitee]
    simp only [Option.bind_eq_bind, Option.bind_some, hreplies]

/-- The two attempt the same of an invitation that was accepted in time, whatever the clock of the
    listing is, exactly if it has not run out by the clock of the sweep. -/
theorem same_attempts_iff (h : Answers dir byAll)
    (hp : Seatable edge dir scope group owner node active p acceptance) (now now' : Int) :
    (SweepAttempts edge dir byAll now owner node p acceptance ↔
      ListingAttempts edge dir now' scope group active p acceptance) ↔ Unlapsed p now := by
  rw [sweep_attempts_iff h hp, iff_true_right (listing_attempts h hp now')]

/-! ### An acceptance that arrives late -/

namespace Fixture

/-- Bob's invitation, up to the instant 100. -/
def proposal : Row := { PairIntents.exampleProposal "p1" 20 with expiresAt := some 100 }

/-- It is accepted at the instant 90. -/
def accepted : Row where
  attestationId := "acceptance"
  attestingKeyId := "me"
  attestationType := "scores"
  attestationEnvelope := .ofStrings
    [("dimension", "membership:acceptance:v1"), ("references_attestation_id", "p1")]
  subjectKeyIds := ["bob"]
  assertedAt := 90
  expiresAt := none

def directory : Directory := PairIntents.exampleDirectory [proposal] [accepted] ["bob"] none

def authored : AttestationsByAll := fun author =>
  .ok (directory.log.filter (·.attestingKeyId = author))

theorem answers : Answers directory authored where
  page _ := rfl
  toAll _ := ⟨_, rfl⟩
  referencing _ := ⟨_, rfl⟩
  byAll _ := ⟨_, rfl, fun _ => by simp⟩

theorem seatable : Seatable PairIntents.exampleEdge directory .community "chat:pair:v1:bob:me" "bob"
    "node" ["bob"] proposal accepted where
  held := List.mem_singleton_self _
  into := by decide +kernel
  author := Or.inl rfl
  accepted := ⟨"me", none, rfl, by decide, by decide +kernel⟩
  inTime := by decide +kernel

end Fixture

/-- Up to the instant 100 the sweep attempts what the listing attempts. -/
theorem same_attempts_in_time :
    SweepAttempts PairIntents.exampleEdge Fixture.directory Fixture.authored 95 "bob" "node"
        Fixture.proposal Fixture.accepted ↔
      ListingAttempts PairIntents.exampleEdge Fixture.directory 150 .community
        "chat:pair:v1:bob:me" ["bob"] Fixture.proposal Fixture.accepted :=
  (same_attempts_iff Fixture.answers Fixture.seatable 95 150).mpr (by unfold Unlapsed; decide)

/-- The acceptance was signed in time, and arrives at the instant 150: it is listed, and the sweep
    passes it over. -/
theorem late_arrival_passed_over :
    Seatable PairIntents.exampleEdge Fixture.directory .community "chat:pair:v1:bob:me" "bob" "node"
      ["bob"] Fixture.proposal Fixture.accepted ∧
    ListingAttempts PairIntents.exampleEdge Fixture.directory 150 .community
      "chat:pair:v1:bob:me" ["bob"] Fixture.proposal Fixture.accepted ∧
    ¬ SweepAttempts PairIntents.exampleEdge Fixture.directory Fixture.authored 150 "bob" "node"
      Fixture.proposal Fixture.accepted := by
  refine ⟨Fixture.seatable, listing_attempts Fixture.answers Fixture.seatable 150, fun hswept => ?_⟩
  have hlive := (sweep_attempts_iff Fixture.answers Fixture.seatable).mp hswept
  exact absurd (hlive 100 rfl) (by decide)

end CirisServer.Invites
