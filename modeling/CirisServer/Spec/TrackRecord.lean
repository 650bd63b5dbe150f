import CirisServer.ForStd.Except
import CirisServer.Native.NamedModerator
import Mathlib.Data.String.Basic

/-!
# Track records and their ranking

Which rows count for a member's record, how the records of a roster are read, and who ranks first.

Key results:
- `trackRecordRowCounts_iff`: the rows that count
- `score_ok_iff`: a complete reading, and what it lists
- `rank_candidate_iff`: who is chosen
-/

namespace CirisServer.NamedModerator

variable {C : Type} {D : Directory C} {c key : String} {row : Attestation}
  {roster : List CommunityMember} {ranked ranked' : List RankedMember}

/-! ## The rows that count -/

/-- The row is a score on moderation in the community, not witnessed by its own author. -/
structure Counts (c : String) (row : Attestation) : Prop where
  scores : row.attestationType = ComposePolicy.scoresType
  dimension : ∃ dimension, ComposePolicy.envelopeStr row "dimension" = some dimension ∧
    (ComposePolicy.startsWith dimension moderationDimensionPrefix = true ∨
      ComposePolicy.startsWith dimension trackRecordDimensionPrefix = true)
  community : ComposePolicy.envelopeStr row "community_id" = some c
  witness : ComposePolicy.envelopeStr row "witness_relation" ≠ some "self"

/-- A relation that is not given is external. -/
theorem witness_ne_self_iff (w : Option String) : w.getD "external" ≠ "self" ↔ w ≠ some "self" := by
  cases w with
  | none => simp
  | some w => simp

theorem trackRecordRowCounts_iff : trackRecordRowCounts c row = true ↔ Counts c row := by
  constructor
  · intro h
    simp only [trackRecordRowCounts] at h
    -- the type, the dimension, its prefix, the community
    split at h
    · cases h
    split at h
    · cases h
    split at h
    · cases h
    split at h
    · cases h
    rename_i hscores _ dimension hdimension hsignal hcommunity
    rw [decide_eq_true_eq, witness_ne_self_iff] at h
    refine ⟨not_not.mp hscores, ⟨dimension, hdimension, ?_⟩, not_not.mp hcommunity, h⟩
    rwa [Bool.not_eq_true, Bool.not_eq_false', Bool.or_eq_true] at hsignal
  · rintro ⟨hscores, ⟨dimension, hdimension, hsignal⟩, hcommunity, hwitness⟩
    have hwitness := (witness_ne_self_iff _).mpr hwitness
    simp [trackRecordRowCounts, hscores, hdimension, hsignal, hcommunity, hwitness]

/-- What the rows are worth. -/
def record (c : String) (rows : List Attestation) : Nat :=
  (rows.filter (trackRecordRowCounts c)).length

theorem record_append (c : String) (rows extra : List Attestation) :
    record c (rows ++ extra) = record c rows + record c extra := by
  simp [record]

theorem record_perm {rows rows' : List Attestation} (h : rows.Perm rows') (c : String) :
    record c rows = record c rows' :=
  (h.filter _).length_eq

/-- Rows that say they are witnessed by their own author are worth nothing. -/
theorem record_self {extra : List Attestation} (c : String)
    (h : ∀ r ∈ extra, ComposePolicy.envelopeStr r "witness_relation" = some "self") :
    record c extra = 0 := by
  rw [record, List.length_eq_zero_iff, List.filter_eq_nil_iff]
  intro r hr hcounts
  exact (trackRecordRowCounts_iff.mp hcounts).witness (h r hr)

theorem readTrackRecord_eq (D : Directory C) (key c : String) :
    readTrackRecord D key c = match D.attestationsByAll key with
      | .error e => .error (.ledgerReadFailed e)
      | .ok rows => .ok (record c rows) := rfl

/-! ## The live moderator -/

theorem labelled_eq_ok_iff {α : Type} {what : String} {x : Except String α} {a : α} :
    labelled what x = .ok a ↔ x = .ok a :=
  except_mapError_eq_ok_iff

variable {m : CommunityMember}

theorem anyNamed_cons_eq_ok_iff {b : Bool} : anyNamed D c (m :: roster) = .ok b ↔
    (D.isNamedModerator m.keyId c = .ok true ∧ b = true) ∨
      (D.isNamedModerator m.keyId c = .ok false ∧ anyNamed D c roster = .ok b) := by
  rw [anyNamed, except_bind_eq_ok_iff]
  simp only [labelled_eq_ok_iff]
  constructor
  · rintro ⟨a, hm, h⟩
    cases a with
    | true => exact Or.inl ⟨hm, (Except.ok.inj h).symm⟩
    | false => exact Or.inr ⟨hm, h⟩
  · rintro (⟨hm, rfl⟩ | ⟨hm, h⟩)
    · exact ⟨true, hm, rfl⟩
    · exact ⟨false, hm, h⟩

theorem anyNamed_false_iff : anyNamed D c roster = .ok false ↔
    ∀ m ∈ roster, D.isNamedModerator m.keyId c = .ok false := by
  induction roster with
  | nil => simp [anyNamed]
  | cons m rest ih =>
    rw [anyNamed_cons_eq_ok_iff, List.forall_mem_cons, ih]
    simp

theorem exists_of_anyNamed_true (h : anyNamed D c roster = .ok true) :
    ∃ m ∈ roster, D.isNamedModerator m.keyId c = .ok true := by
  induction roster with
  | nil => cases h
  | cons m rest ih =>
    rcases anyNamed_cons_eq_ok_iff.mp h with ⟨hm, _⟩ | ⟨_, hrest⟩
    · exact ⟨m, List.mem_cons_self, hm⟩
    · obtain ⟨m', hmem, hm'⟩ := ih hrest
      exact ⟨m', List.mem_cons_of_mem _ hmem, hm'⟩

/-! ## The records that are read -/

/-- Every member is known to be eligible or not, and the record of the eligible ones is read. -/
def AllRead (D : Directory C) (c : String) (roster : List CommunityMember) : Prop :=
  ∀ m ∈ roster, ∃ eligible, D.isStewardBound m.keyId = .ok eligible ∧
    (eligible = true → ∃ n, readTrackRecord D m.keyId c = .ok n)

/-- The member as it is ranked, if it is. -/
def entry (D : Directory C) (c : String) (m : CommunityMember) : Option RankedMember :=
  match D.isStewardBound m.keyId, readTrackRecord D m.keyId c with
  | .ok true, .ok n => some ⟨m.keyId, n, m.joinedAt⟩
  | _, _ => none

theorem entry_eq_some_iff {r : RankedMember} : entry D c m = some r ↔
    D.isStewardBound m.keyId = .ok true ∧ readTrackRecord D m.keyId c = .ok r.trackRecord ∧
      r.keyId = m.keyId ∧ r.joinedAt = m.joinedAt := by
  obtain ⟨keyId, n, joinedAt⟩ := r
  rw [entry]
  split
  · next n' hbound hread => simp [hbound, hread, eq_comm, and_left_comm]
  · next hnot =>
    simp only [reduceCtorEq, false_iff]
    rintro ⟨hbound, hread, _⟩
    exact hnot _ hbound hread

/-- A complete reading lists the eligible members in the order of the roster. -/
theorem score_ok_iff : score D c roster = .ok (.ok ranked) ↔
    AllRead D c roster ∧ ranked = roster.filterMap (entry D c) := by
  induction roster generalizing ranked with
  | nil => simp [score, AllRead, eq_comm]
  | cons m rest ih =>
    rw [score, except_bind_eq_ok_iff, AllRead, List.forall_mem_cons, ← AllRead]
    simp only [labelled_eq_ok_iff]
    constructor
    · rintro ⟨eligible, hbound, h⟩
      cases eligible with
      | false =>
        -- the ledger of one that is not eligible is not read
        obtain ⟨hall, rfl⟩ := ih.mp h
        have hnone : entry D c m = none := by simp [entry, hbound]
        exact ⟨⟨⟨false, hbound, nofun⟩, hall⟩, by rw [List.filterMap_cons_none hnone]⟩
      | true =>
        cases hread : readTrackRecord D m.keyId c with
        | error reason => simp [hread] at h
        | ok n =>
          simp only [hread, Bool.not_true, Bool.false_eq_true, if_false] at h
          obtain ⟨scored, hscored, h⟩ := except_bind_ok h
          cases scored with
          | error reason => cases h
          | ok tail =>
            cases h
            obtain ⟨hall, rfl⟩ := ih.mp hscored
            have hsome : entry D c m = some ⟨m.keyId, n, m.joinedAt⟩ := by
              simp [entry, hbound, hread]
            refine ⟨⟨⟨true, hbound, fun _ => ⟨n, rfl⟩⟩, hall⟩, ?_⟩
            rw [List.filterMap_cons_some hsome]
    · rintro ⟨⟨⟨eligible, hbound, hread⟩, hall⟩, rfl⟩
      refine ⟨eligible, hbound, ?_⟩
      cases eligible with
      | false =>
        have hnone : entry D c m = none := by simp [entry, hbound]
        rw [List.filterMap_cons_none hnone]
        exact ih.mpr ⟨hall, rfl⟩
      | true =>
        obtain ⟨n, hn⟩ := hread rfl
        have hsome : entry D c m = some ⟨m.keyId, n, m.joinedAt⟩ := by simp [entry, hbound, hn]
        rw [List.filterMap_cons_some hsome, hn]
        exact except_bind_eq_ok_iff.mpr ⟨_, ih.mpr ⟨hall, rfl⟩, rfl⟩

/-- A reading is given up at an eligible member whose record cannot be read. -/
theorem exists_of_score_error {reason : MeritUnreadable}
    (h : score D c roster = .ok (.error reason)) :
    ∃ m ∈ roster, D.isStewardBound m.keyId = .ok true ∧
      ∃ reason, readTrackRecord D m.keyId c = .error reason := by
  induction roster with
  | nil => cases h
  | cons m rest ih =>
    obtain ⟨eligible, hbound, h⟩ := except_bind_ok h
    have hbound := labelled_eq_ok_iff.mp hbound
    have hlater (hrest : score D c rest = .ok (.error reason)) :
        ∃ m' ∈ m :: rest, D.isStewardBound m'.keyId = .ok true ∧
          ∃ reason, readTrackRecord D m'.keyId c = .error reason := by
      obtain ⟨m', hmem, hm'⟩ := ih hrest
      exact ⟨m', List.mem_cons_of_mem _ hmem, hm'⟩
    cases eligible with
    | false => exact hlater h
    | true =>
      cases hread : readTrackRecord D m.keyId c with
      | error reason' => exact ⟨m, List.mem_cons_self, hbound, reason', hread⟩
      | ok n =>
        simp only [hread, Bool.not_true, Bool.false_eq_true, if_false] at h
        obtain ⟨scored, hscored, h⟩ := except_bind_ok h
        cases scored with
        | error reason' =>
          have hreason : reason' = reason := Except.error.inj (Except.ok.inj h)
          exact hlater (hreason ▸ hscored)
        | ok tail => cases h

/-! ## The ranking -/

instance : Std.Total ranksBefore := ⟨fun a b => by
  rcases lt_trichotomy a.trackRecord b.trackRecord with h | h | h
  · exact Or.inr (Or.inl h)
  · rcases lt_trichotomy a.joinedAt b.joinedAt with hj | hj | hj
    · exact Or.inl (Or.inr ⟨h, Or.inl hj⟩)
    · exact (le_total a.keyId b.keyId).imp (fun hk => Or.inr ⟨h, Or.inr ⟨hj, hk⟩⟩)
        fun hk => Or.inr ⟨h.symm, Or.inr ⟨hj.symm, hk⟩⟩
    · exact Or.inr (Or.inr ⟨h.symm, Or.inl hj⟩)
  · exact Or.inl (Or.inl h)⟩

instance : IsTrans RankedMember ranksBefore := ⟨fun a b d hab hbd => by
  rcases hab with h | ⟨h, hj⟩ <;> rcases hbd with h' | ⟨h', hj'⟩
  · exact Or.inl (h'.trans h)
  · exact Or.inl (h' ▸ h)
  · exact Or.inl (h ▸ h')
  · refine Or.inr ⟨h.trans h', ?_⟩
    rcases hj with hj | ⟨hj, hk⟩ <;> rcases hj' with hj' | ⟨hj', hk'⟩
    · exact Or.inl (hj.trans hj')
    · exact Or.inl (hj' ▸ hj)
    · exact Or.inl (hj ▸ hj')
    · exact Or.inr ⟨hj.trans hj', hk.trans hk'⟩⟩

/-- Two that rank before each other are the same. -/
instance : Std.Antisymm ranksBefore := ⟨fun a b hab hba => by
  obtain ⟨ka, na, ja⟩ := a
  obtain ⟨kb, nb, jb⟩ := b
  simp only [ranksBefore] at hab hba
  have hn : na = nb := by omega
  have hj : ja = jb := by omega
  subst hn hj
  have hk : ka = kb := le_antisymm (by simpa using hab) (by simpa using hba)
  rw [hk]⟩

theorem ranksBefore_of_zero {r r' : RankedMember} (h : 0 < r.trackRecord)
    (h' : r'.trackRecord = 0) : ranksBefore r r' :=
  Or.inl (h' ▸ h)

/-- The qualified members, best first. -/
def podium (ranked : List RankedMember) : List RankedMember :=
  (ranked.filter (0 < ·.trackRecord)).insertionSort ranksBefore

theorem mem_podium {r : RankedMember} :
    r ∈ podium ranked ↔ r ∈ ranked ∧ 0 < r.trackRecord := by
  rw [podium, List.mem_insertionSort, List.mem_filter, decide_eq_true_eq]

theorem podium_perm (h : ranked.Perm ranked') : podium ranked = podium ranked' := by
  have hperm : (podium ranked).Perm (podium ranked') :=
    ((List.perm_insertionSort _ _).trans (h.filter _)).trans (List.perm_insertionSort _ _).symm
  -- members that rank before each other are the same, so there is one order only
  refine hperm.eq_of_pairwise ?_ (List.pairwise_insertionSort _ _)
    (List.pairwise_insertionSort _ _)
  intro a b _ _ hab hba
  exact antisymm_of ranksBefore hab hba

/-- The first of the qualified members is before all the others. -/
theorem before_of_podium {winner : RankedMember} {rest : List RankedMember}
    (h : podium ranked = winner :: rest) :
    winner ∈ ranked ∧ 0 < winner.trackRecord ∧ ∀ r ∈ ranked, ranksBefore winner r := by
  have hmem : winner ∈ podium ranked := h ▸ List.mem_cons_self
  obtain ⟨hwinner, hpos⟩ := mem_podium.mp hmem
  refine ⟨hwinner, hpos, fun r hr => ?_⟩
  by_cases hzero : r.trackRecord = 0
  · exact ranksBefore_of_zero hpos hzero
  · have hsorted : (podium ranked).Pairwise ranksBefore := List.pairwise_insertionSort _ _
    have hpodium : r ∈ winner :: rest := h ▸ mem_podium.mpr ⟨hr, Nat.pos_of_ne_zero hzero⟩
    rw [h, List.pairwise_cons] at hsorted
    rcases List.mem_cons.mp hpodium with rfl | hrest
    · exact (total_of ranksBefore r r).elim id id
    · exact hsorted.1 r hrest

theorem rank_perm (h : ranked.Perm ranked') (c : String) (hasLive : Except String Bool) :
    rank c hasLive ranked = rank c hasLive ranked' := by
  have hnil : ranked = [] ↔ ranked' = [] := by
    rw [← List.length_eq_zero_iff, ← List.length_eq_zero_iff, h.length_eq]
  have hall : ranked.all (·.trackRecord = 0) = ranked'.all (·.trackRecord = 0) := h.all_eq
  have hpodium := podium_perm h
  simp only [podium] at hpodium
  simp only [rank, hnil, hall, hpodium]

/-- In a community without a live moderator, the candidate is the one that ranks before all, and
    has a record. -/
theorem rank_candidate_iff {n : Nat} : rank c (.ok false) ranked = .ok (.candidate key n) ↔
    ∃ r ∈ ranked, r.keyId = key ∧ r.trackRecord = n ∧ 0 < n ∧ ∀ r' ∈ ranked, ranksBefore r r' := by
  by_cases hpositive : ∃ r ∈ ranked, 0 < r.trackRecord
  · -- someone has a record, and the first of the podium is chosen
    obtain ⟨r, hr, hpos⟩ := hpositive
    have hne : ranked ≠ [] := List.ne_nil_of_mem hr
    have hsome : ranked.all (·.trackRecord = 0) = false := by
      rw [List.all_eq_false]
      exact ⟨r, hr, by simp; omega⟩
    have hpodium : podium ranked ≠ [] := List.ne_nil_of_mem (mem_podium.mpr ⟨hr, hpos⟩)
    obtain ⟨winner, rest, hwinner⟩ := List.exists_cons_of_ne_nil hpodium
    have hrank : rank c (.ok false) ranked = .ok (.candidate winner.keyId winner.trackRecord) := by
      simp only [podium] at hwinner
      simp [rank, hne, hsome, hwinner]
      rfl
    obtain ⟨hmem, hwinnerpos, hbefore⟩ := before_of_podium hwinner
    rw [hrank]
    constructor
    · intro h
      cases h
      exact ⟨winner, hmem, rfl, rfl, hwinnerpos, hbefore⟩
    · rintro ⟨r', hr', rfl, rfl, _, hbefore'⟩
      rw [antisymm_of ranksBefore (hbefore r' hr') (hbefore' winner hmem)]
  · -- nobody has one, and nobody is chosen
    have hzero : ∀ r ∈ ranked, r.trackRecord = 0 := by
      intro r hr
      by_contra hne
      exact hpositive ⟨r, hr, Nat.pos_of_ne_zero hne⟩
    constructor
    · intro h
      by_cases hne : ranked = []
      · simp [rank, hne] at h
        cases h
      · have hall : ranked.all (·.trackRecord = 0) = true := by simpa using hzero
        simp [rank, hne, hall] at h
        cases h
    · rintro ⟨r, hr, _, rfl, hpos, _⟩
      exact absurd ⟨r, hr, hpos⟩ hpositive

end CirisServer.NamedModerator
