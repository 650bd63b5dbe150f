import CirisServer.Spec.TrackRecord

/-!
# Promotion by merit

The verdict does not depend on the order of the roster and of the rows, and the one that is promoted
is the best of the eligible members. A row that says it is witnessed by its own author counts for
nothing; one that does not say so counts, whoever wrote it.

Key results:
- `existenceVerdict_autoPromote_iff`: who is promoted
- `existenceVerdict_merit`: order, choice and rows witnessed by their author
-/

namespace CirisServer.NamedModerator

variable {C : Type} {D D' : Directory C} {c key : String} {roster roster' : List CommunityMember}
  {ranked ranked' : List RankedMember}

/-! ## The verdict -/

variable {community : C} {v v' : ExistenceVerdict}

/-- The community is found, and its roster is read. -/
structure Found (D : Directory C) (c : String) (community : C) (roster : List CommunityMember) :
    Prop where
  lookup : D.lookupCommunity c = .ok (some community)
  read : D.effectiveRoster community = .ok roster

theorem Found.communityHasLiveModerator_eq (h : Found D c community roster) :
    communityHasLiveModerator D c = anyNamed D c roster := by
  rw [communityHasLiveModerator, labelled_eq_ok_iff.mpr h.lookup]
  show (labelled "effective_roster" (D.effectiveRoster community) >>= _) = _
  rw [labelled_eq_ok_iff.mpr h.read]
  rfl

/-- What comes out of the records that are read, if there is no live moderator. -/
def judged (c : String) :
    Except MeritUnreadable (List RankedMember) → Except String ExistenceVerdict
  | .error _ => .ok (.quiesce hardCaseCommunityMeritUnreadable)
  | .ok ranked => (rank c (.ok false) ranked).map verdictOf

theorem Found.autoPromotionOutcome_eq (h : Found D c community roster) :
    autoPromotionOutcome D c = score D c roster >>= fun
      | .error reason => .ok (.meritUnreadable reason)
      | .ok ranked => rank c (anyNamed D c roster) ranked := by
  rw [autoPromotionOutcome, labelled_eq_ok_iff.mpr h.lookup, h.communityHasLiveModerator_eq]
  show (labelled "effective_roster" (D.effectiveRoster community) >>= _) = _
  rw [labelled_eq_ok_iff.mpr h.read]
  rfl

theorem Found.existenceVerdict_iff (h : Found D c community roster) :
    existenceVerdict D c = .ok v ↔
      (anyNamed D c roster = .ok true ∧ v = .operate true) ∨
      (anyNamed D c roster = .ok false ∧
        ∃ scored, score D c roster = .ok scored ∧ judged c scored = .ok v) := by
  rw [existenceVerdict, h.communityHasLiveModerator_eq, except_bind_eq_ok_iff,
    h.autoPromotionOutcome_eq]
  constructor
  · rintro ⟨live, hlive, hv⟩
    cases live with
    | true => exact Or.inl ⟨hlive, (Except.ok.inj hv).symm⟩
    | false =>
      -- the outcome asks for the live moderator again, and is told the same
      obtain ⟨outcome, houtcome, hv⟩ := except_bind_ok hv
      obtain ⟨scored, hscored, hrank⟩ := except_bind_ok houtcome
      cases hv
      refine Or.inr ⟨hlive, scored, hscored, ?_⟩
      cases scored with
      | error reason =>
        cases hrank
        rfl
      | ok ranked =>
        have hrank : rank c (.ok false) ranked = .ok outcome := hlive ▸ hrank
        rw [judged, hrank]
        rfl
  · rintro (⟨hlive, rfl⟩ | ⟨hlive, scored, hscored, hv⟩)
    · exact ⟨true, hlive, rfl⟩
    · refine ⟨false, hlive, ?_⟩
      cases scored with
      | error reason =>
        rw [hscored]
        exact hv
      | ok ranked =>
        rw [hscored, hlive]
        rw [judged] at hv
        cases hrank : rank c (.ok false) ranked with
        | error e =>
          rw [hrank] at hv
          cases hv
        | ok outcome =>
          rw [hrank] at hv
          show (rank c (.ok false) ranked >>= _) = _
          rw [hrank]
          exact hv

/-- A verdict is reached on a community that is not found, or on the roster of the community. -/
theorem exists_of_existenceVerdict (h : existenceVerdict D c = .ok v) :
    (D.lookupCommunity c = .ok none ∧ v = .quiesce hardCaseCommunityUnmoderated) ∨
      ∃ community roster, Found D c community roster := by
  obtain ⟨live, hlive, hv⟩ := except_bind_ok h
  obtain ⟨found, hlookup, hfound⟩ := except_bind_ok hlive
  have hlookup := labelled_eq_ok_iff.mp hlookup
  cases found with
  | none =>
    cases hfound
    obtain ⟨outcome, houtcome, hv⟩ := except_bind_ok hv
    rw [autoPromotionOutcome, labelled_eq_ok_iff.mpr hlookup] at houtcome
    cases houtcome
    exact Or.inl ⟨hlookup, (Except.ok.inj hv).symm⟩
  | some community =>
    obtain ⟨roster, hroster, _⟩ := except_bind_ok hfound
    exact Or.inr ⟨community, roster, hlookup, labelled_eq_ok_iff.mp hroster⟩

/-! ## The order of the roster and of the rows -/

/-- The same rows in some order, or the same failure. -/
def SameRows {α : Type} : Except String (List α) → Except String (List α) → Prop
  | .ok rows, .ok rows' => rows.Perm rows'
  | .error e, .error e' => e = e'
  | _, _ => False

/-- The directories have the same contents, rosters and rows in any order. -/
structure Reordered (D D' : Directory C) : Prop where
  lookup : D.lookupCommunity = D'.lookupCommunity
  roster : ∀ community, SameRows (D.effectiveRoster community) (D'.effectiveRoster community)
  named : D.isNamedModerator = D'.isNamedModerator
  bound : D.isStewardBound = D'.isStewardBound
  rows : ∀ key, SameRows (D.attestationsByAll key) (D'.attestationsByAll key)

theorem Reordered.readTrackRecord_eq (h : Reordered D D') (key c : String) :
    readTrackRecord D key c = readTrackRecord D' key c := by
  have hrows := h.rows key
  rw [NamedModerator.readTrackRecord_eq, NamedModerator.readTrackRecord_eq]
  cases hD : D.attestationsByAll key <;> cases hD' : D'.attestationsByAll key <;>
    rw [hD, hD'] at hrows
  · exact congrArg (Except.error ∘ MeritUnreadable.ledgerReadFailed) hrows
  · exact hrows.elim
  · exact hrows.elim
  · exact congrArg Except.ok (record_perm hrows c)

theorem Reordered.entry_eq (h : Reordered D D') (c : String) : entry D c = entry D' c := by
  funext m
  rw [entry, entry, h.bound, h.readTrackRecord_eq]

theorem Reordered.found (h : Reordered D D') (hfound : Found D c community roster) :
    ∃ roster', Found D' c community roster' ∧ roster.Perm roster' := by
  have hroster := h.roster community
  rw [hfound.read] at hroster
  cases hD' : D'.effectiveRoster community with
  | error e =>
    rw [hD'] at hroster
    exact hroster.elim
  | ok roster' =>
    rw [hD'] at hroster
    exact ⟨roster', ⟨h.lookup ▸ hfound.lookup, hD'⟩, hroster⟩

theorem AllRead.perm (h : Reordered D D') (hroster : roster.Perm roster')
    (hall : AllRead D c roster) : AllRead D' c roster' := by
  intro m hm
  obtain ⟨eligible, hbound, hread⟩ := hall m (hroster.mem_iff.mpr hm)
  exact ⟨eligible, h.bound ▸ hbound, fun he => h.readTrackRecord_eq m.keyId c ▸ hread he⟩

theorem Reordered.symm (h : Reordered D D') : Reordered D' D := by
  have hsame {α : Type} {x y : Except String (List α)} (hxy : SameRows x y) : SameRows y x := by
    cases x <;> cases y
    · exact Eq.symm hxy
    · exact hxy.elim
    · exact hxy.elim
    · exact List.Perm.symm hxy
  exact ⟨h.lookup.symm, fun community => hsame (h.roster community), h.named.symm, h.bound.symm,
    fun key => hsame (h.rows key)⟩

/-- A complete reading in one order excludes that it is given up in another. -/
theorem AllRead.not_error (h : Reordered D D') (hroster : roster.Perm roster')
    (hall : AllRead D c roster) {reason : MeritUnreadable} :
    score D' c roster' ≠ .ok (.error reason) := by
  intro herror
  obtain ⟨m, hm, hbound, reason, hread⟩ := exists_of_score_error herror
  obtain ⟨eligible, hbound', hread'⟩ := AllRead.perm h hroster hall m hm
  rw [hbound] at hbound'
  cases hbound'
  obtain ⟨n, hn⟩ := hread' rfl
  rw [hread] at hn
  cases hn

theorem judged_reordered (h : Reordered D D') (hroster : roster.Perm roster')
    {scored scored' : Except MeritUnreadable (List RankedMember)}
    (hscored : score D c roster = .ok scored) (hscored' : score D' c roster' = .ok scored') :
    judged c scored = judged c scored' := by
  cases scored with
  | error reason =>
    cases scored' with
    | error reason' => rfl
    | ok ranked' =>
      have hall := (score_ok_iff.mp hscored').1
      exact absurd hscored (hall.not_error h.symm hroster.symm)
  | ok ranked =>
    obtain ⟨hall, rfl⟩ := score_ok_iff.mp hscored
    cases scored' with
    | error reason' => exact absurd hscored' (hall.not_error h hroster)
    | ok ranked' =>
      obtain ⟨_, rfl⟩ := score_ok_iff.mp hscored'
      rw [judged, judged, h.entry_eq, rank_perm (hroster.filterMap _)]

/-- A live moderator in one order is one in the other. -/
theorem anyNamed_reordered (h : Reordered D D') (hroster : roster.Perm roster')
    (hlive : anyNamed D c roster = .ok true) : anyNamed D' c roster' ≠ .ok false := by
  -- a walk that ends without a moderator has asked about every member
  intro hnone
  obtain ⟨m, hm, hnamed⟩ := exists_of_anyNamed_true hlive
  have hnot := anyNamed_false_iff.mp hnone m (hroster.mem_iff.mp hm)
  rw [← h.named, hnamed] at hnot
  cases hnot

/-- **Order**: the verdicts that are reached are the same. -/
theorem existenceVerdict_reordered (h : Reordered D D') (hv : existenceVerdict D c = .ok v)
    (hv' : existenceVerdict D' c = .ok v') : v = v' := by
  rcases exists_of_existenceVerdict hv with ⟨hnone, rfl⟩ | ⟨community, roster, hfound⟩
  · rcases exists_of_existenceVerdict hv' with ⟨_, rfl⟩ | ⟨community, roster, hfound⟩
    · rfl
    · have hlookup := hfound.lookup
      rw [← h.lookup, hnone] at hlookup
      cases hlookup
  · obtain ⟨roster', hfound', hroster⟩ := h.found hfound
    rcases hfound.existenceVerdict_iff.mp hv with
        ⟨hlive, rfl⟩ | ⟨hnone, scored, hscored, hjudged⟩ <;>
      rcases hfound'.existenceVerdict_iff.mp hv' with
        ⟨hlive', rfl⟩ | ⟨hnone', scored', hscored', hjudged'⟩
    · rfl
    · exact absurd hnone' (anyNamed_reordered h hroster hlive)
    · exact absurd hnone (anyNamed_reordered h.symm hroster.symm hlive')
    · rw [judged_reordered h hroster hscored hscored', hjudged'] at hjudged
      exact (Except.ok.inj hjudged).symm

/-- No read of a community, of a roster or of a key fails. -/
structure Answers (D : Directory C) : Prop where
  lookup : ∀ key, ∃ found, D.lookupCommunity key = .ok found
  roster : ∀ community, ∃ roster, D.effectiveRoster community = .ok roster
  named : ∀ key c, ∃ b, D.isNamedModerator key c = .ok b
  bound : ∀ key, ∃ b, D.isStewardBound key = .ok b

theorem Answers.anyNamed (h : Answers D) (c : String) (roster : List CommunityMember) :
    ∃ live, anyNamed D c roster = .ok live := by
  induction roster with
  | nil => exact ⟨false, rfl⟩
  | cons m rest ih =>
    obtain ⟨b, hb⟩ := h.named m.keyId c
    cases b with
    | true => exact ⟨true, anyNamed_cons_eq_ok_iff.mpr (Or.inl ⟨hb, rfl⟩)⟩
    | false => exact ih.imp fun live hlive => anyNamed_cons_eq_ok_iff.mpr (Or.inr ⟨hb, hlive⟩)

theorem Answers.score (h : Answers D) (c : String) (roster : List CommunityMember) :
    ∃ scored, score D c roster = .ok scored := by
  induction roster with
  | nil => exact ⟨.ok [], rfl⟩
  | cons m rest ih =>
    obtain ⟨scored, hscored⟩ := ih
    obtain ⟨eligible, hbound⟩ := h.bound m.keyId
    rw [NamedModerator.score, labelled_eq_ok_iff.mpr hbound]
    cases eligible with
    | false => exact ⟨scored, hscored⟩
    | true =>
      cases hread : readTrackRecord D m.keyId c with
      | error reason => exact ⟨.error reason, rfl⟩
      | ok n =>
        refine ⟨scored.map (⟨m.keyId, n, m.joinedAt⟩ :: ·), ?_⟩
        show (NamedModerator.score D c rest >>= _) = _
        rw [hscored]
        rfl

theorem rank_isOk (c : String) (ranked : List RankedMember) :
    ∃ outcome, rank c (.ok false) ranked = .ok outcome := by
  by_cases hne : ranked = []
  · exact ⟨.noQualifiedCandidate, by simp [rank, hne]; rfl⟩
  by_cases hall : ranked.all (·.trackRecord = 0) = true
  · exact ⟨.meritUnreadable (.federationTierClosed c), by simp [rank, hne, hall]; rfl⟩
  cases hpodium : (ranked.filter (0 < ·.trackRecord)).insertionSort ranksBefore with
  | nil => exact ⟨.noQualifiedCandidate, by simp [rank, hne, hall, hpodium]; rfl⟩
  | cons winner rest =>
    exact ⟨.candidate winner.keyId winner.trackRecord, by simp [rank, hne, hall, hpodium]; rfl⟩

/-- A verdict is reached if only ledgers cannot be read. -/
theorem Answers.existenceVerdict (h : Answers D) (c : String) :
    ∃ v, existenceVerdict D c = .ok v := by
  obtain ⟨found, hlookup⟩ := h.lookup c
  cases found with
  | none =>
    refine ⟨.quiesce hardCaseCommunityUnmoderated, ?_⟩
    rw [NamedModerator.existenceVerdict, communityHasLiveModerator, autoPromotionOutcome,
      labelled_eq_ok_iff.mpr hlookup]
    rfl
  | some community =>
    obtain ⟨roster, hroster⟩ := h.roster community
    have hfound : Found D c community roster := ⟨hlookup, hroster⟩
    obtain ⟨live, hlive⟩ := h.anyNamed c roster
    cases live with
    | true => exact ⟨_, hfound.existenceVerdict_iff.mpr (Or.inl ⟨hlive, rfl⟩)⟩
    | false =>
      obtain ⟨scored, hscored⟩ := h.score c roster
      have hjudged : ∃ v, judged c scored = .ok v := by
        cases scored with
        | error reason => exact ⟨_, rfl⟩
        | ok ranked =>
          obtain ⟨outcome, houtcome⟩ := rank_isOk c ranked
          exact ⟨verdictOf outcome, by rw [judged, houtcome]; rfl⟩
      obtain ⟨v, hv⟩ := hjudged
      exact ⟨v, hfound.existenceVerdict_iff.mpr (Or.inr ⟨hlive, scored, hscored, hv⟩)⟩

theorem Reordered.answers (h : Reordered D D') (hD : Answers D) : Answers D' := by
  refine ⟨h.lookup ▸ hD.lookup, fun community => ?_, h.named ▸ hD.named, h.bound ▸ hD.bound⟩
  obtain ⟨roster, hroster⟩ := hD.roster community
  have hsame := h.roster community
  rw [hroster] at hsame
  cases hD' : D'.effectiveRoster community with
  | error e =>
    rw [hD'] at hsame
    exact hsame.elim
  | ok roster' => exact ⟨roster', rfl⟩

/-! ## The one that is promoted -/

/-- An eligible member with a record, before every other eligible one, all of them read. -/
structure Best (D : Directory C) (c : String) (roster : List CommunityMember) (m : CommunityMember)
    (n : Nat) : Prop where
  mem : m ∈ roster
  bound : D.isStewardBound m.keyId = .ok true
  record : readTrackRecord D m.keyId c = .ok n
  positive : 1 ≤ n
  first : ∀ m' ∈ roster, ∃ eligible, D.isStewardBound m'.keyId = .ok eligible ∧
    (eligible = true → ∃ n', readTrackRecord D m'.keyId c = .ok n' ∧
      ranksBefore ⟨m.keyId, n, m.joinedAt⟩ ⟨m'.keyId, n', m'.joinedAt⟩)

/-- The community has no live moderator, and the key is that of its best member. -/
def Promoted (D : Directory C) (c key : String) : Prop :=
  communityHasLiveModerator D c = .ok false ∧ ∃ community roster, Found D c community roster ∧
    ∃ m n, m.keyId = key ∧ Best D c roster m n

theorem best_iff {r : RankedMember} : (∃ m, m.keyId = r.keyId ∧ m.joinedAt = r.joinedAt ∧
      Best D c roster m r.trackRecord) ↔
    AllRead D c roster ∧ 0 < r.trackRecord ∧ r ∈ roster.filterMap (entry D c) ∧
      ∀ r' ∈ roster.filterMap (entry D c), ranksBefore r r' := by
  constructor
  · obtain ⟨key, n, joinedAt⟩ := r
    rintro ⟨m, rfl, rfl, hbest⟩
    refine ⟨fun m' hm' => ?_, hbest.positive, ?_, fun r' hr' => ?_⟩
    · obtain ⟨eligible, hbound, hfirst⟩ := hbest.first m' hm'
      exact ⟨eligible, hbound, fun he => (hfirst he).imp fun _ hn => hn.1⟩
    · exact List.mem_filterMap.mpr
        ⟨m, hbest.mem, entry_eq_some_iff.mpr ⟨hbest.bound, hbest.record, rfl, rfl⟩⟩
    · obtain ⟨m', hm', hentry⟩ := List.mem_filterMap.mp hr'
      obtain ⟨hbound, hread, hkey', hjoined'⟩ := entry_eq_some_iff.mp hentry
      obtain ⟨eligible, hbound', hfirst⟩ := hbest.first m' hm'
      rw [hbound] at hbound'
      cases hbound'
      obtain ⟨n', hn', hbefore⟩ := hfirst rfl
      rw [hread] at hn'
      cases hn'
      rw [← hkey', ← hjoined'] at hbefore
      exact hbefore
  · rintro ⟨hall, hpos, hr, hfirst⟩
    obtain ⟨m, hm, hentry⟩ := List.mem_filterMap.mp hr
    obtain ⟨hbound, hread, hkey, hjoined⟩ := entry_eq_some_iff.mp hentry
    refine ⟨m, hkey.symm, hjoined.symm, hm, hbound, hread, hpos, fun m' hm' => ?_⟩
    obtain ⟨eligible, hbound', hread'⟩ := hall m' hm'
    refine ⟨eligible, hbound', fun he => ?_⟩
    obtain ⟨n', hn'⟩ := hread' he
    subst he
    have hmem : (⟨m'.keyId, n', m'.joinedAt⟩ : RankedMember) ∈ roster.filterMap (entry D c) :=
      List.mem_filterMap.mpr ⟨m', hm', entry_eq_some_iff.mpr ⟨hbound', hn', rfl, rfl⟩⟩
    exact ⟨n', hn', hkey ▸ hjoined ▸ hfirst _ hmem⟩

/-- What is judged as a promotion is a choice of the ranking. -/
theorem judged_autoPromote_iff {scored : Except MeritUnreadable (List RankedMember)}
    {hardCase : String} : judged c scored = .ok (.autoPromote key hardCase) ↔
      hardCase = hardCaseCommunityModeratorPromoted ∧
        ∃ ranked n, scored = .ok ranked ∧ rank c (.ok false) ranked = .ok (.candidate key n) := by
  cases scored with
  | error reason => simp [judged]
  | ok ranked =>
    obtain ⟨outcome, houtcome⟩ := rank_isOk c ranked
    rw [judged, houtcome]
    cases outcome <;> simp [Except.map, verdictOf, houtcome, eq_comm, and_comm]

theorem existenceVerdict_autoPromote_iff {hardCase : String} :
    existenceVerdict D c = .ok (.autoPromote key hardCase) ↔
      hardCase = hardCaseCommunityModeratorPromoted ∧ Promoted D c key := by
  constructor
  · intro h
    rcases exists_of_existenceVerdict h with ⟨_, hquiesce⟩ | ⟨community, roster, hfound⟩
    · cases hquiesce
    rcases hfound.existenceVerdict_iff.mp h with ⟨_, hop⟩ | ⟨hnone, scored, hscored, hjudged⟩
    · cases hop
    obtain ⟨rfl, ranked, n, rfl, hrank⟩ := judged_autoPromote_iff.mp hjudged
    obtain ⟨hall, rfl⟩ := score_ok_iff.mp hscored
    obtain ⟨r, hr, rfl, rfl, hpos, hfirst⟩ := rank_candidate_iff.mp hrank
    obtain ⟨m, hkey, _, hbest⟩ := best_iff.mpr ⟨hall, hpos, hr, hfirst⟩
    exact ⟨rfl, hfound.communityHasLiveModerator_eq.trans hnone, community, roster, hfound,
      m, r.trackRecord, hkey, hbest⟩
  · rintro ⟨rfl, hnone, community, roster, hfound, m, n, rfl, hbest⟩
    obtain ⟨hall, hpos, hr, hfirst⟩ :=
      (best_iff (r := ⟨m.keyId, n, m.joinedAt⟩)).mp ⟨m, rfl, rfl, hbest⟩
    rw [hfound.communityHasLiveModerator_eq] at hnone
    refine hfound.existenceVerdict_iff.mpr (Or.inr ⟨hnone, _, score_ok_iff.mpr ⟨hall, rfl⟩, ?_⟩)
    exact judged_autoPromote_iff.mpr
      ⟨rfl, _, n, rfl, rank_candidate_iff.mpr ⟨_, hr, rfl, rfl, hpos, hfirst⟩⟩

/-! ## Rows that are added -/

/-- The directory after the member has issued further rows. -/
def Directory.add (D : Directory C) (member : String) (extra : List Attestation) : Directory C :=
  { D with
    attestationsByAll := fun key =>
      if key = member then (D.attestationsByAll key).map (· ++ extra)
      else D.attestationsByAll key }

variable {member : String} {extra : List Attestation}

theorem readTrackRecord_add (hworth : record c extra = 0) :
    readTrackRecord (D.add member extra) key c = readTrackRecord D key c := by
  rw [readTrackRecord_eq, readTrackRecord_eq, Directory.add]
  dsimp only
  split_ifs
  · cases D.attestationsByAll key with
    | error e => rfl
    | ok rows => exact congrArg Except.ok (by rw [record_append, hworth, Nat.add_zero])
  · rfl

theorem anyNamed_add : anyNamed (D.add member extra) c roster = anyNamed D c roster := by
  induction roster with
  | nil => rfl
  | cons m rest ih =>
    rw [anyNamed, anyNamed, ih]
    rfl

theorem score_add (hworth : record c extra = 0) :
    score (D.add member extra) c roster = score D c roster := by
  induction roster with
  | nil => rfl
  | cons m rest ih =>
    rw [score, score, ih, readTrackRecord_add hworth]
    rfl

/-- Rows that are worth nothing do not change the verdict. -/
theorem existenceVerdict_add (hworth : record c extra = 0) :
    existenceVerdict (D.add member extra) c = existenceVerdict D c := by
  have hlive : communityHasLiveModerator (D.add member extra) c =
      communityHasLiveModerator D c := by
    simp only [communityHasLiveModerator, anyNamed_add]
    rfl
  have houtcome : autoPromotionOutcome (D.add member extra) c = autoPromotionOutcome D c := by
    simp only [autoPromotionOutcome, hlive, score_add hworth]
    rfl
  rw [existenceVerdict, existenceVerdict, hlive, houtcome]

/-- **Promotion by merit.** The verdict does not depend on the order of the roster and of the rows.
    The one that is promoted is the best member. A row counts unless it says that it is witnessed
    by its author, and rows that say so leave every record and the verdict as they were. -/
theorem existenceVerdict_merit (D : Directory C) (c : String) :
    (∀ D', Reordered D D' →
      (∀ v v', existenceVerdict D c = .ok v → existenceVerdict D' c = .ok v' → v = v') ∧
      (Answers D → ∃ v, existenceVerdict D c = .ok v ∧ existenceVerdict D' c = .ok v)) ∧
    (∀ key hardCase, existenceVerdict D c = .ok (.autoPromote key hardCase) ↔
      hardCase = hardCaseCommunityModeratorPromoted ∧ Promoted D c key) ∧
    (∀ row, trackRecordRowCounts c row = true ↔ Counts c row) ∧
    ∀ member extra,
      (∀ r ∈ extra, ComposePolicy.envelopeStr r "witness_relation" = some "self") →
        (∀ key, readTrackRecord (D.add member extra) key c = readTrackRecord D key c) ∧
        existenceVerdict (D.add member extra) c = existenceVerdict D c := by
  refine ⟨fun D' h => ⟨fun v v' hv hv' => existenceVerdict_reordered h hv hv', fun hD => ?_⟩,
    fun key hardCase => existenceVerdict_autoPromote_iff, fun row => trackRecordRowCounts_iff,
    fun member extra hself => ?_⟩
  · obtain ⟨v, hv⟩ := hD.existenceVerdict c
    obtain ⟨v', hv'⟩ := (h.answers hD).existenceVerdict c
    exact ⟨v, hv, existenceVerdict_reordered h hv hv' ▸ hv'⟩
  · have hworth := record_self c hself
    exact ⟨fun key => readTrackRecord_add hworth, existenceVerdict_add hworth⟩

/-! ### A member that promotes itself -/

namespace Fixture

/-- An item of a member's own track record, with or without a witness. -/
def item (author : String) (witness : List (String × Json)) : Attestation where
  attestationId := author
  attestingKeyId := author
  attestedKeyId := author
  attestationType := "scores"
  assertedAt := 0
  expiresAt := none
  attestationEnvelope := .obj
    ([("dimension", .str "moderation_track_record:town:item:v1"), ("community_id", .str "town")] ++
      witness)

def bob : CommunityMember := ⟨"bob", 1⟩

def mallory : CommunityMember := ⟨"mallory", 2⟩

/-- Bob and Mallory are owner-bound, nobody moderates, and only Bob has a record. -/
def town : Directory Unit where
  lookupCommunity _ := .ok (some ())
  effectiveRoster _ := .ok [bob, mallory]
  isNamedModerator _ _ := .ok false
  isStewardBound _ := .ok true
  attestationsByAll key := .ok (if key = "bob" then [item "bob" []] else [])

/-- The roster the other way round. -/
def townReversed : Directory Unit := { town with effectiveRoster := fun _ => .ok [mallory, bob] }

/-- Two items that Mallory issues, without a word about a witness. -/
def ownItems : List Attestation := [item "mallory" [], item "mallory" []]

/-- The same, said to be witnessed by their author. -/
def selfWitnessed : List Attestation :=
  [item "mallory" [("witness_relation", .str "self")],
    item "mallory" [("witness_relation", .str "self")]]

theorem town_reordered : Reordered town townReversed where
  lookup := rfl
  roster _ := .swap _ _ _
  named := rfl
  bound := rfl
  rows _ := .refl _

theorem town_answers : Answers town :=
  ⟨fun _ => ⟨_, rfl⟩, fun _ => ⟨_, rfl⟩, fun _ _ => ⟨_, rfl⟩, fun _ => ⟨_, rfl⟩⟩

end Fixture

/-- Bob's record makes him the candidate, in any order and whatever Mallory witnesses herself. -/
theorem existenceVerdict_merit_town :
    existenceVerdict Fixture.town "town" =
      .ok (.autoPromote "bob" hardCaseCommunityModeratorPromoted) ∧
    Promoted Fixture.town "town" "bob" ∧
    (∃ v, existenceVerdict Fixture.town "town" = .ok v ∧
      existenceVerdict Fixture.townReversed "town" = .ok v) ∧
    existenceVerdict (Fixture.town.add "mallory" Fixture.selfWitnessed) "town" =
      existenceVerdict Fixture.town "town" := by
  have hverdict : existenceVerdict Fixture.town "town" =
      .ok (.autoPromote "bob" hardCaseCommunityModeratorPromoted) := by decide +kernel
  obtain ⟨horder, hbest, _, hself⟩ := existenceVerdict_merit Fixture.town "town"
  have hsame := (horder _ Fixture.town_reordered).2 Fixture.town_answers
  have hadd := hself "mallory" Fixture.selfWitnessed (by decide +kernel)
  exact ⟨hverdict, ((hbest _ _).mp hverdict).2, hsame, hadd.2⟩

/-- Items that she issues without that word make Mallory the candidate. -/
theorem mallory_promotes_herself :
    (∀ r ∈ Fixture.ownItems, r.attestingKeyId = "mallory" ∧
      ComposePolicy.envelopeStr r "dimension" = some "moderation_track_record:town:item:v1" ∧
      ComposePolicy.envelopeStr r "witness_relation" = none) ∧
    existenceVerdict Fixture.town "town" =
      .ok (.autoPromote "bob" hardCaseCommunityModeratorPromoted) ∧
    existenceVerdict (Fixture.town.add "mallory" Fixture.ownItems) "town" =
      .ok (.autoPromote "mallory" hardCaseCommunityModeratorPromoted) := by
  decide +kernel

end CirisServer.NamedModerator
