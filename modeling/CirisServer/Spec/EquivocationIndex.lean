import CirisServer.ForStd.List
import CirisServer.Native.Equivocation
import Mathlib.Data.String.Basic

/-!
# The index of claims and the detector

The index is a table of entries, a coordinate and a claim, with different keys. An upsert and an
eviction are read off the entries, and so are the verdicts: the pairs compared are the pairs of
entries at one coordinate, and no order of the entries changes what they give. So the verdicts of
the index are those of `detect` on the rows its entries are about.
-/

namespace CirisServer.Equivocation

/-! ## Entries -/

abbrev Entry := ClaimCoordinate × RowClaim

/-- The claims held, each with its coordinate. -/
def entries (groups : List (ClaimCoordinate × List RowClaim)) : List Entry :=
  groups.flatMap fun group => group.2.map fun c => (group.1, c)

/-- A claim's place: its coordinate and its row. -/
def key (e : Entry) : ClaimCoordinate × String := (e.1, e.2.attestationId)

/-- An entry without the pass that saw it. -/
def unseen (e : Entry) : Entry := (e.1, { e.2 with seenPass := 0 })

@[simp] theorem key_unseen (e : Entry) : key (unseen e) = key e := rfl

@[simp] theorem entries_nil : entries [] = [] := rfl

theorem entries_cons (group : ClaimCoordinate × List RowClaim)
    (groups : List (ClaimCoordinate × List RowClaim)) :
    entries (group :: groups) = group.2.map (fun c => (group.1, c)) ++ entries groups := rfl

theorem mem_entries {e : Entry} {groups : List (ClaimCoordinate × List RowClaim)} :
    e ∈ entries groups ↔ ∃ group ∈ groups, group.1 = e.1 ∧ e.2 ∈ group.2 := by
  simp only [entries, List.mem_flatMap, List.mem_map]
  constructor
  · rintro ⟨group, hgroup, c, hc, rfl⟩
    exact ⟨group, hgroup, rfl, hc⟩
  · rintro ⟨group, hgroup, hcoord, hc⟩
    exact ⟨group, hgroup, e.2, hc, Prod.ext hcoord rfl⟩

/-- A well-formed index: one group a coordinate, one claim a row in it, and the counter. -/
structure ClaimIndex.WellFormed (index : ClaimIndex) : Prop where
  coords : (index.groups.map (·.1)).Nodup
  keys : ((entries index.groups).map key).Nodup
  rows : index.rows = (entries index.groups).length

namespace ClaimIndex

theorem wellFormed_empty : empty.WellFormed where
  coords := List.nodup_nil
  keys := List.nodup_nil
  rows := rfl

theorem holds_iff (coord : ClaimCoordinate) (id : String)
    (groups : List (ClaimCoordinate × List RowClaim)) :
    holds coord id groups = true ↔ (coord, id) ∈ (entries groups).map key := by
  simp only [holds, List.any_eq_true, Bool.and_eq_true, beq_iff_eq, List.mem_map, mem_entries]
  constructor
  · rintro ⟨group, hgroup, rfl, c, hc, rfl⟩
    exact ⟨(group.1, c), ⟨group, hgroup, rfl, hc⟩, rfl⟩
  · rintro ⟨e, ⟨group, hgroup, hcoord, hc⟩, heq⟩
    obtain ⟨rfl, rfl⟩ := Prod.mk.inj heq
    exact ⟨group, hgroup, hcoord, e.2, hc, rfl⟩

/-- An upsert keeps the coordinates, or adds one. -/
theorem map_fst_upsertGroup (coord : ClaimCoordinate) (claim : RowClaim)
    (groups : List (ClaimCoordinate × List RowClaim)) :
    (upsertGroup coord claim groups).map (·.1) =
      if coord ∈ groups.map (·.1) then groups.map (·.1) else groups.map (·.1) ++ [coord] := by
  induction groups with
  | nil => simp [upsertGroup]
  | cons group groups ih =>
    rw [upsertGroup]
    by_cases hk : group.1 = coord
    · simp [hk]
    · rw [if_neg hk, List.map_cons, ih]
      by_cases hmem : coord ∈ groups.map (·.1)
      · simp only [List.map_cons, if_pos hmem, if_pos (List.mem_cons_of_mem _ hmem)]
      · have hcons : coord ∉ (group :: groups).map (·.1) := by
          rw [List.map_cons, List.mem_cons, not_or]
          exact ⟨Ne.symm hk, hmem⟩
        rw [if_neg hmem, if_neg hcons, List.map_cons, List.cons_append]

/-- An upsert keeps the places, or adds one. -/
theorem map_key_upsertGroup (coord : ClaimCoordinate) (claim : RowClaim)
    {groups : List (ClaimCoordinate × List RowClaim)} (hcoords : (groups.map (·.1)).Nodup) :
    ((entries (upsertGroup coord claim groups)).map key).Perm
      (if (coord, claim.attestationId) ∈ (entries groups).map key then (entries groups).map key
        else (coord, claim.attestationId) :: (entries groups).map key) := by
  induction groups with
  | nil => simp [upsertGroup, entries, key]
  | cons group groups ih =>
    rw [List.map_cons, List.nodup_cons] at hcoords
    have hkeys : ∀ (g : List RowClaim) (gs : List (ClaimCoordinate × List RowClaim)),
        (entries ((group.1, g) :: gs)).map key =
          (g.map RowClaim.attestationId).map (fun id => (group.1, id)) ++ (entries gs).map key := by
      intro g gs
      rw [entries_cons, List.map_append, List.map_map, List.map_map]
      rfl
    have hgroup : (entries (group :: groups)).map key = _ := hkeys group.2 groups
    rw [upsertGroup, hgroup]
    by_cases hk : group.1 = coord
    · -- The group is there: its claims are upserted, and no other group has the coordinate.
      have hrest : (coord, claim.attestationId) ∉ (entries groups).map key := by
        rw [List.mem_map]
        rintro ⟨e, he, heq⟩
        obtain ⟨g, hg, hcoord, -⟩ := mem_entries.mp he
        refine hcoords.1 (List.mem_map.mpr ⟨g, hg, ?_⟩)
        rw [hcoord, hk]
        exact (Prod.mk.inj heq).1
      rw [if_pos hk, hkeys, KeyedRows.map_key_upsert]
      by_cases hid : claim.attestationId ∈ group.2.map RowClaim.attestationId
      · rw [if_pos hid, if_pos (List.mem_append_left _ (List.mem_map.mpr ⟨_, hid, by rw [hk]⟩))]
      · have hnew : (coord, claim.attestationId) ∉
            (group.2.map RowClaim.attestationId).map (fun id => (group.1, id)) ++
              (entries groups).map key := by
          rw [List.mem_append, not_or]
          refine ⟨?_, hrest⟩
          simpa [hk] using hid
        rw [if_neg hid, if_neg hnew, List.map_append, List.append_assoc, ← hk]
        exact List.perm_middle
    · have hmem : (coord, claim.attestationId) ∉
          (group.2.map RowClaim.attestationId).map fun id => (group.1, id) := by
        simp [hk]
      rw [if_neg hk, hkeys]
      refine ((ih hcoords.2).append_left _).trans ?_
      by_cases hin : (coord, claim.attestationId) ∈ (entries groups).map key
      · rw [if_pos hin, if_pos (List.mem_append_right _ hin)]
      · rw [if_neg hin, if_neg fun h => (List.mem_append.mp h).elim hmem hin]
        exact List.perm_middle

/-- What an upsert puts in, and what it leaves. -/
theorem mem_entries_upsertGroup {coord : ClaimCoordinate} {claim : RowClaim} {e : Entry}
    {groups : List (ClaimCoordinate × List RowClaim)} (hcoords : (groups.map (·.1)).Nodup)
    (hkeys : ((entries groups).map key).Nodup) :
    e ∈ entries (upsertGroup coord claim groups) ↔
      e = (coord, claim) ∨ e ∈ entries groups ∧ key e ≠ (coord, claim.attestationId) := by
  induction groups with
  | nil => simp [upsertGroup, entries]
  | cons group groups ih =>
    rw [List.map_cons, List.nodup_cons] at hcoords
    rw [entries_cons, List.map_append, List.nodup_append] at hkeys
    have hcons : ∀ (g : List RowClaim) (gs : List (ClaimCoordinate × List RowClaim)),
        e ∈ entries ((group.1, g) :: gs) ↔ (group.1 = e.1 ∧ e.2 ∈ g) ∨ e ∈ entries gs := by
      intro g gs
      simp [mem_entries]
    have hgroup : e ∈ entries (group :: groups) ↔ _ := hcons group.2 groups
    rw [upsertGroup, hgroup]
    by_cases hk : group.1 = coord
    · have hids : (group.2.map RowClaim.attestationId).Nodup := by
        have hhead := hkeys.1
        rw [List.map_map] at hhead
        exact List.Nodup.of_map (fun id => (group.1, id)) (by rwa [List.map_map])
      -- No other group has the coordinate, so the rest stays.
      have hrest : e ∈ entries groups → key e ≠ (coord, claim.attestationId) := by
        intro he heq
        obtain ⟨g, hg, hcoord, -⟩ := mem_entries.mp he
        refine hcoords.1 (List.mem_map.mpr ⟨g, hg, ?_⟩)
        rw [hcoord, hk]
        exact (Prod.mk.inj heq).1
      rw [if_pos hk, hcons, KeyedRows.mem_upsert hids, hk]
      constructor
      · rintro (⟨hcoord, heq | ⟨hmem, hne⟩⟩ | he)
        · exact Or.inl (Prod.ext hcoord.symm heq)
        · exact Or.inr ⟨Or.inl ⟨hcoord, hmem⟩, fun heq => hne (Prod.mk.inj heq).2⟩
        · exact Or.inr ⟨Or.inr he, hrest he⟩
      · rintro (rfl | ⟨⟨hcoord, hmem⟩ | he, hne⟩)
        · exact Or.inl ⟨rfl, Or.inl rfl⟩
        · exact Or.inl ⟨hcoord, Or.inr ⟨hmem, fun heq => hne (Prod.ext hcoord.symm heq)⟩⟩
        · exact Or.inr he
    · rw [if_neg hk, hcons, ih hcoords.2 hkeys.2.1]
      constructor
      · rintro (⟨hcoord, hmem⟩ | rfl | ⟨he, hne⟩)
        · refine Or.inr ⟨Or.inl ⟨hcoord, hmem⟩, fun heq => hk ?_⟩
          exact hcoord.trans (Prod.mk.inj heq).1
        · exact Or.inl rfl
        · exact Or.inr ⟨Or.inr he, hne⟩
      · rintro (rfl | ⟨⟨hcoord, hmem⟩ | he, hne⟩)
        · exact Or.inr (Or.inl rfl)
        · exact Or.inl ⟨hcoord, hmem⟩
        · exact Or.inr (Or.inr ⟨he, hne⟩)

/-- An upsert keeps the index well-formed. -/
theorem WellFormed.upsert {index : ClaimIndex} (h : index.WellFormed) (coord : ClaimCoordinate)
    (claim : RowClaim) : (index.upsert coord claim).WellFormed := by
  have hkeys := map_key_upsertGroup coord claim h.coords
  have hholds := holds_iff coord claim.attestationId index.groups
  have hlength := hkeys.length_eq
  rw [List.length_map] at hlength
  constructor
  · rw [ClaimIndex.upsert, map_fst_upsertGroup]
    split
    case isTrue => exact h.coords
    case isFalse hnew => exact nodup_append_singleton h.coords hnew
  · rw [ClaimIndex.upsert, hkeys.nodup_iff]
    split
    case isTrue => exact h.keys
    case isFalse hnew => exact List.nodup_cons.mpr ⟨hnew, h.keys⟩
  · rw [ClaimIndex.upsert, hlength, h.rows]
    by_cases hin : holds coord claim.attestationId index.groups = true
    · rw [if_pos hin, if_pos (hholds.mp hin), List.length_map]
    · rw [if_neg hin, if_neg fun hmem => hin (hholds.mpr hmem), List.length_cons, List.length_map]

/-- Upserts one after the other. -/
def upsertAll (index : ClaimIndex) (claims : List Entry) : ClaimIndex :=
  claims.foldl (fun index e => index.upsert e.1 e.2) index

theorem WellFormed.upsertAll {index : ClaimIndex} (h : index.WellFormed) (claims : List Entry) :
    (index.upsertAll claims).WellFormed := by
  induction claims generalizing index with
  | nil => exact h
  | cons e claims ih => exact ih (h.upsert e.1 e.2)

/-- Upserts at different places put all of them in, and leave what is at other places. -/
theorem mem_upsertAll {index : ClaimIndex} (h : index.WellFormed) {claims : List Entry}
    (hclaims : (claims.map key).Nodup) {e : Entry} :
    e ∈ entries (index.upsertAll claims).groups ↔
      e ∈ claims ∨ e ∈ entries index.groups ∧ key e ∉ claims.map key := by
  induction claims generalizing index with
  | nil => simp [ClaimIndex.upsertAll]
  | cons c claims ih =>
    rw [List.map_cons, List.nodup_cons] at hclaims
    have hstep : e ∈ entries (index.upsert c.1 c.2).groups ↔ _ :=
      mem_entries_upsertGroup h.coords h.keys
    have hall : e ∈ entries ((index.upsert c.1 c.2).upsertAll claims).groups ↔ _ :=
      ih (h.upsert c.1 c.2) hclaims.2
    rw [show index.upsertAll (c :: claims) = (index.upsert c.1 c.2).upsertAll claims from rfl, hall,
      hstep, List.mem_cons, List.map_cons, List.mem_cons, not_or]
    constructor
    · rintro (hmem | ⟨heq | ⟨hold, hne⟩, hnot⟩)
      · exact Or.inl (Or.inr hmem)
      · exact Or.inl (Or.inl heq)
      · exact Or.inr ⟨hold, hne, hnot⟩
    · rintro ((rfl | hmem) | ⟨hold, hne, hnot⟩)
      · exact Or.inr ⟨Or.inl rfl, hclaims.1⟩
      · exact Or.inl hmem
      · exact Or.inr ⟨Or.inr ⟨hold, hne⟩, hnot⟩

/-- An eviction leaves the entries that a pass from `pass` on has seen. -/
theorem entries_evictUnseenSince (index : ClaimIndex) (pass : Nat) :
    entries (index.evictUnseenSince pass).1.groups =
      (entries index.groups).filter fun e => decide (pass ≤ e.2.seenPass) := by
  simp only [evictUnseenSince]
  induction index.groups with
  | nil => rfl
  | cons group groups ih =>
    have hgroup : (group.2.map fun c => ((group.1, c) : Entry)).filter
        (fun e => decide (pass ≤ e.2.seenPass)) =
          (group.2.filter fun c => decide (pass ≤ c.seenPass)).map fun c => (group.1, c) := by
      rw [List.filter_map]
      rfl
    rw [entries_cons, List.filter_append, ← ih, hgroup, List.map_cons, List.filter_cons]
    split
    case isTrue => rw [entries_cons]
    case isFalse hempty =>
      have hnil : (group.2.filter fun c => decide (pass ≤ c.seenPass)) = [] := by simpa using hempty
      rw [hnil, List.map_nil, List.nil_append]

theorem sum_evicted (groups : List (ClaimCoordinate × List RowClaim)) (pass : Nat) :
    (groups.map fun group => group.2.length -
        (group.2.filter fun c => decide (pass ≤ c.seenPass)).length).sum +
      ((entries groups).filter fun e => decide (pass ≤ e.2.seenPass)).length =
        (entries groups).length := by
  induction groups with
  | nil => rfl
  | cons group groups ih =>
    have hgroup : ((group.2.map fun c => ((group.1, c) : Entry)).filter
        fun e => decide (pass ≤ e.2.seenPass)).length =
          (group.2.filter fun c => decide (pass ≤ c.seenPass)).length := by
      rw [List.filter_map, List.length_map]
      rfl
    have hle := List.length_filter_le (fun c : RowClaim => decide (pass ≤ c.seenPass)) group.2
    rw [entries_cons, List.filter_append, List.length_append, List.length_append, hgroup,
      List.length_map, List.map_cons, List.sum_cons]
    omega

/-- An eviction keeps the index well-formed. -/
theorem WellFormed.evictUnseenSince {index : ClaimIndex} (h : index.WellFormed) (pass : Nat) :
    (index.evictUnseenSince pass).1.WellFormed := by
  have hsum := sum_evicted index.groups pass
  constructor
  · have hsub : List.Sublist ((index.evictUnseenSince pass).1.groups.map (·.1))
        ((index.groups.map fun group =>
          (group.1, group.2.filter fun c => decide (pass ≤ c.seenPass))).map (·.1)) :=
      List.Sublist.map _ List.filter_sublist
    rw [List.map_map] at hsub
    exact hsub.nodup h.coords
  · rw [entries_evictUnseenSince]
    exact (List.filter_sublist.map key).nodup h.keys
  · rw [entries_evictUnseenSince]
    have hrows : (index.evictUnseenSince pass).1.rows = index.rows -
        (index.groups.map fun group => group.2.length -
          (group.2.filter fun c => decide (pass ≤ c.seenPass)).length).sum := rfl
    rw [hrows, h.rows]
    omega

end ClaimIndex

/-! ## Verdicts -/

/-- What comparing two claims at a coordinate gives. -/
def outcome (coord : ClaimCoordinate) (pair : RowClaim × RowClaim) :
    PairVerdict × Option ClaimContradiction :=
  (classifyClaims pair.1 pair.2,
    match classifyClaims pair.1 pair.2, pair.1.signedAt with
    | .contradiction, some at_ => some ⟨coord, at_, sortedIds pair.1 pair.2⟩
    | _, _ => none)

/-- The verdicts of a list of outcomes. -/
def tally (outcomes : List (PairVerdict × Option ClaimContradiction)) : ClaimVerdicts where
  pairsCompared := outcomes.length
  sameStatement := outcomes.countP fun o => o.1 == .sameStatement
  superseded := outcomes.countP fun o => o.1 == .superseded
  noSignedInstant := outcomes.countP fun o => o.1 == .noSignedInstant
  candidates := outcomes.filterMap (·.2)

/-- The outcomes of the pairs in each group. -/
def outcomes (groups : List (ClaimCoordinate × List RowClaim)) :
    List (PairVerdict × Option ClaimContradiction) :=
  groups.flatMap fun group => group.2.pairs.map (outcome group.1)

theorem record_tally (coord : ClaimCoordinate)
    (os : List (PairVerdict × Option ClaimContradiction)) (pair : RowClaim × RowClaim) :
    (tally os).record coord pair = tally (os ++ [outcome coord pair]) := by
  unfold ClaimVerdicts.record tally outcome
  cases hverdict : classifyClaims pair.1 pair.2 with
  | sameStatement | superseded | noSignedInstant =>
    simp [List.countP_append, List.filterMap_append]
  | contradiction =>
    cases hat : pair.1.signedAt <;> simp [List.countP_append, List.filterMap_append]

theorem foldl_record (coord : ClaimCoordinate) (pairs : List (RowClaim × RowClaim))
    (os : List (PairVerdict × Option ClaimContradiction)) :
    pairs.foldl (ClaimVerdicts.record coord) (tally os) =
      tally (os ++ pairs.map (outcome coord)) := by
  induction pairs generalizing os with
  | nil => simp
  | cons pair pairs ih => rw [List.foldl_cons, record_tally, ih, List.map_cons, List.append_assoc]; rfl

theorem detectClaims_eq (groups : List (ClaimCoordinate × List RowClaim)) :
    detectClaims groups = tally (outcomes groups) := by
  have hfold : ∀ os, groups.foldl
      (fun out group => group.2.pairs.foldl (ClaimVerdicts.record group.1) out) (tally os) =
        tally (os ++ outcomes groups) := by
    induction groups with
    | nil => intro os; simp [outcomes]
    | cons group groups ih =>
      intro os
      rw [List.foldl_cons, foldl_record, ih, List.append_assoc]
      rfl
  exact hfold []

/-- Two lists of verdicts that agree but for the order of the candidates. -/
structure ClaimVerdicts.Agree (v w : ClaimVerdicts) : Prop where
  pairsCompared : v.pairsCompared = w.pairsCompared
  sameStatement : v.sameStatement = w.sameStatement
  superseded : v.superseded = w.superseded
  noSignedInstant : v.noSignedInstant = w.noSignedInstant
  candidates : v.candidates.Perm w.candidates

theorem tally_agree {os os' : List (PairVerdict × Option ClaimContradiction)}
    (h : os.Perm os') : (tally os).Agree (tally os') where
  pairsCompared := h.length_eq
  sameStatement := h.countP_eq _
  superseded := h.countP_eq _
  noSignedInstant := h.countP_eq _
  candidates := h.filterMap _

theorem sameClaim_comm (a b : RowClaim) : sameClaim a b = sameClaim b a := by
  unfold sameClaim
  cases a.claimDigest <;> cases b.claimDigest <;> exact BEq.comm

theorem classifyClaims_comm (a b : RowClaim) : classifyClaims a b = classifyClaims b a := by
  unfold classifyClaims
  rw [sameClaim_comm]
  cases a.signedAt <;> cases b.signedAt <;> simp only [eq_comm]

/-- A contradiction is between two claims for one instant. -/
theorem signedAt_of_contradiction {a b : RowClaim} (h : classifyClaims a b = .contradiction) :
    ∃ t, a.signedAt = some t ∧ b.signedAt = some t := by
  unfold classifyClaims at h
  by_cases hsame : sameClaim a b = true
  · simp [hsame] at h
  · rw [if_neg hsame] at h
    cases ha : a.signedAt with
    | none => simp [ha] at h
    | some ta =>
      cases hb : b.signedAt with
      | none => simp [ha, hb] at h
      | some tb =>
        by_cases heq : ta = tb
        · exact ⟨ta, rfl, by rw [heq]⟩
        · simp [ha, hb, heq] at h

theorem sortedIds_comm (a b : RowClaim) : sortedIds a b = sortedIds b a := by
  unfold sortedIds
  by_cases hab : a.attestationId ≤ b.attestationId
  · by_cases hba : b.attestationId ≤ a.attestationId
    · rw [if_pos hab, if_pos hba, le_antisymm hab hba]
    · rw [if_pos hab, if_neg hba]
  · rw [if_neg hab, if_pos (le_of_not_ge hab)]

/-- Which of two claims comes first does not matter. -/
theorem outcome_comm (coord : ClaimCoordinate) (a b : RowClaim) :
    outcome coord (a, b) = outcome coord (b, a) := by
  unfold outcome
  simp only [classifyClaims_comm b a, sortedIds_comm b a]
  cases hverdict : classifyClaims a b with
  | sameStatement | superseded | noSignedInstant => rfl
  | contradiction =>
    obtain ⟨t, ha, hb⟩ := signedAt_of_contradiction hverdict
    rw [ha, hb]

/-- What comparing two entries gives, where they share their coordinate. -/
def entryOutcome (p : Entry × Entry) : Option (PairVerdict × Option ClaimContradiction) :=
  if p.1.1 = p.2.1 then some (outcome p.1.1 (p.1.2, p.2.2)) else none

theorem entryOutcome_comm (e e' : Entry) : entryOutcome (e, e') = entryOutcome (e', e) := by
  unfold entryOutcome
  by_cases h : e.1 = e'.1
  · simp only [h, outcome_comm e'.1 e.2 e'.2, if_true]
  · simp only [h, Ne.symm h, if_false]

/-- The pairs compared are the pairs of entries at one coordinate. -/
theorem outcomes_perm {groups : List (ClaimCoordinate × List RowClaim)}
    (hcoords : (groups.map (·.1)).Nodup) :
    (outcomes groups).Perm ((entries groups).pairs.filterMap entryOutcome) := by
  induction groups with
  | nil => exact .nil
  | cons group groups ih =>
    rw [List.map_cons, List.nodup_cons] at hcoords
    have hin : ((group.2.map fun c => ((group.1, c) : Entry)).pairs.filterMap entryOutcome) =
        group.2.pairs.map (outcome group.1) := by
      rw [List.pairs_map, List.filterMap_map]
      simp [entryOutcome, Function.comp_def, List.filterMap_eq_map']
    have hcross : (((group.2.map fun c => ((group.1, c) : Entry)) ×ˢ entries groups).filterMap
        entryOutcome) = [] := by
      rw [List.filterMap_eq_nil_iff]
      intro p hp
      obtain ⟨hfst, hsnd⟩ := List.mem_product.mp hp
      obtain ⟨c, -, hc⟩ := List.mem_map.mp hfst
      obtain ⟨g, hg, hcoord, -⟩ := mem_entries.mp hsnd
      refine if_neg fun heq => hcoords.1 (List.mem_map.mpr ⟨g, hg, ?_⟩)
      rw [hcoord, ← heq, ← hc]
    have happend := (List.pairs_append (group.2.map fun c => ((group.1, c) : Entry))
      (entries groups)).filterMap entryOutcome
    rw [List.filterMap_append, List.filterMap_append, hin, hcross, List.append_nil] at happend
    exact ((ih hcoords.2).append_left _).trans happend.symm

/-- Indices with the same entries, whichever passes saw them, give the same verdicts. -/
theorem verdicts_agree {index index' : ClaimIndex} (h : index.WellFormed) (h' : index'.WellFormed)
    (hentries : ((entries index.groups).map unseen).Perm ((entries index'.groups).map unseen)) :
    index.verdicts.Agree index'.verdicts := by
  have hunseen : ∀ es : List Entry, es.pairs.filterMap entryOutcome =
      (es.map unseen).pairs.filterMap entryOutcome := by
    intro es
    rw [List.pairs_map, List.filterMap_map]
    rfl
  rw [ClaimIndex.verdicts, ClaimIndex.verdicts, detectClaims_eq, detectClaims_eq]
  apply tally_agree
  refine (outcomes_perm h.coords).trans (List.Perm.trans ?_ (outcomes_perm h'.coords).symm)
  rw [hunseen (entries index.groups), hunseen (entries index'.groups)]
  exact hentries.filterMap_pairs entryOutcome_comm

/-! ## `detect` -/

/-- The entry of a row: its coordinate and its claim. -/
def rowEntry (L : Lib) (r : Attestation) : Option Entry :=
  (coordinateOf L r).map fun coord => (coord, RowClaim.of L r)

theorem rowEntry_eq_some_iff {L : Lib} {r : Attestation} {e : Entry} :
    rowEntry L r = some e ↔ coordinateOf L r = some e.1 ∧ RowClaim.of L r = e.2 := by
  unfold rowEntry
  cases coordinateOf L r <;> simp [Prod.ext_iff]

/-- The entries of rows with different ids have different places. -/
theorem nodup_key_rowEntries {L : Lib} {rows : List Attestation}
    (hids : (rows.map (·.attestationId)).Nodup) :
    ((rows.filterMap (rowEntry L)).map key).Nodup := by
  have hsub : (((rows.filterMap (rowEntry L)).map key).map Prod.snd).Sublist
      (rows.map (·.attestationId)) := by
    induction rows with
    | nil => exact List.Sublist.slnil
    | cons r rows ih =>
      rw [List.map_cons, List.nodup_cons] at hids
      rw [List.filterMap_cons]
      cases hr : rowEntry L r with
      | none => exact (ih hids.2).cons _
      | some e =>
        obtain ⟨-, hclaim⟩ := rowEntry_eq_some_iff.mp hr
        have hid : (key e).2 = r.attestationId := by rw [key, ← hclaim]; rfl
        rw [List.map_cons, List.map_cons, List.map_cons, hid]
        exact (ih hids.2).cons_cons _
  exact List.Nodup.of_map Prod.snd (hsub.nodup hids)

theorem indexOf_eq (L : Lib) (rows : List Attestation) :
    indexOf L rows = ClaimIndex.empty.upsertAll (rows.filterMap (rowEntry L)) := by
  unfold indexOf ClaimIndex.upsertAll
  rw [List.foldl_filterMap]
  congr 1
  funext index r
  cases hr : coordinateOf L r <;> simp [rowEntry, hr]

/-- `detect`'s index holds one claim for each dimensioned row. -/
theorem entries_indexOf {L : Lib} {rows : List Attestation}
    (hids : (rows.map (·.attestationId)).Nodup) :
    (entries (indexOf L rows).groups).Perm (rows.filterMap (rowEntry L)) := by
  have hkeys := nodup_key_rowEntries (L := L) hids
  have hwf := ClaimIndex.wellFormed_empty.upsertAll (rows.filterMap (rowEntry L))
  rw [indexOf_eq]
  rw [List.perm_ext_iff_of_nodup hwf.keys.of_map hkeys.of_map]
  intro e
  rw [ClaimIndex.mem_upsertAll ClaimIndex.wellFormed_empty hkeys]
  simp [ClaimIndex.empty]

/-- What a contradiction was as a candidate. -/
def Contradiction.candidate (c : Contradiction) : ClaimContradiction :=
  ⟨⟨c.attestingKeyId, c.subjectKeyId, c.dimension⟩, c.assertedAt, c.attestationIds⟩

/-- A candidate names two entries at its coordinate, the lesser id first. -/
theorem entries_of_candidate {groups : List (ClaimCoordinate × List RowClaim)}
    {c : ClaimContradiction} (h : c ∈ (detectClaims groups).candidates) :
    ∃ e ∈ entries groups, ∃ e' ∈ entries groups,
      e.1 = c.coordinate ∧ e'.1 = c.coordinate ∧
      c.attestationIds = (e.2.attestationId, e'.2.attestationId) ∧
      e.2.attestationId ≤ e'.2.attestationId := by
  rw [detectClaims_eq] at h
  simp only [tally, List.mem_filterMap, outcomes, List.mem_flatMap, List.mem_map] at h
  obtain ⟨o, ⟨group, hgroup, pair, hpair, rfl⟩, hc⟩ := h
  obtain ⟨hfst, hsnd⟩ := List.mem_of_mem_pairs hpair
  have hentry : ∀ claim ∈ group.2, (group.1, claim) ∈ entries groups := fun claim hclaim =>
    mem_entries.mpr ⟨group, hgroup, rfl, hclaim⟩
  have hc' : c.coordinate = group.1 ∧ c.attestationIds = sortedIds pair.1 pair.2 := by
    unfold outcome at hc
    simp only at hc
    split at hc
    · cases hc
      exact ⟨rfl, rfl⟩
    · cases hc
  by_cases hle : pair.1.attestationId ≤ pair.2.attestationId
  · refine ⟨_, hentry _ hfst, _, hentry _ hsnd, hc'.1.symm, hc'.1.symm, ?_, hle⟩
    rw [hc'.2, sortedIds, if_pos hle]
  · refine ⟨_, hentry _ hsnd, _, hentry _ hfst, hc'.1.symm, hc'.1.symm, ?_, le_of_not_ge hle⟩
    rw [hc'.2, sortedIds, if_neg hle]

/-- The row a place of the index is about. -/
theorem byId_eq_some {rows : List Attestation} (hids : (rows.map (·.attestationId)).Nodup)
    {r : Attestation} (hr : r ∈ rows) : byId rows r.attestationId = some r := by
  have hids' : (rows.reverse.map (·.attestationId)).Nodup := by
    rw [List.map_reverse]
    exact List.nodup_reverse.mpr hids
  exact (List.find?_key_eq_some_iff hids').mpr ⟨List.mem_reverse.mpr hr, rfl⟩

/-- Candidates whose rows are in hand become contradictions, one each. -/
theorem foldl_recordCandidate {L : Lib} {rows : List Attestation}
    (hids : (rows.map (·.attestationId)).Nodup) (cs : List ClaimContradiction)
    (hcs : ∀ c ∈ cs, ∃ a ∈ rows, ∃ b ∈ rows, coordinateOf L a = some c.coordinate ∧
      c.attestationIds = (a.attestationId, b.attestationId) ∧ a.attestationId ≤ b.attestationId)
    (report : DetectorReport) :
    ∃ found, cs.foldl (recordCandidate L rows) report =
        { report with contradictions := report.contradictions ++ found } ∧
      found.map Contradiction.candidate = cs := by
  induction cs generalizing report with
  | nil => exact ⟨[], by simp, rfl⟩
  | cons c cs ih =>
    obtain ⟨a, ha, b, hb, hcoord, hpair, hle⟩ := hcs c List.mem_cons_self
    have hstep : recordCandidate L rows report c =
        { report with
          contradictions :=
            report.contradictions ++ [Contradiction.new L a b c.coordinate.dimension c.signedAt] } := by
      simp only [recordCandidate, hpair, byId_eq_some hids ha, byId_eq_some hids hb]
    obtain ⟨found, hfold, hmap⟩ := ih (fun c' hc' => hcs c' (List.mem_cons_of_mem _ hc'))
      (recordCandidate L rows report c)
    refine ⟨Contradiction.new L a b c.coordinate.dimension c.signedAt :: found, ?_, ?_⟩
    · rw [List.foldl_cons, hfold, hstep]
      simp
    · have hhead : (Contradiction.new L a b c.coordinate.dimension c.signedAt).candidate = c := by
        unfold coordinateOf at hcoord
        obtain ⟨d, -, hd⟩ := Option.map_eq_some_iff.mp hcoord
        simp only [Contradiction.new, Contradiction.candidate, if_pos hle, ← hpair]
        cases c
        simp only at hd
        simp [← hd]
      rw [List.map_cons, hhead, hmap]

/-- The counts and the candidates of some verdicts are those of a report. -/
structure ClaimVerdicts.Reported (v : ClaimVerdicts) (report : DetectorReport) : Prop where
  pairsCompared : v.pairsCompared = report.pairsCompared
  sameStatement : v.sameStatement = report.sameStatement
  superseded : v.superseded = report.superseded
  noSignedInstant : v.noSignedInstant = report.noSignedInstant
  candidates : v.candidates.Perm (report.contradictions.map Contradiction.candidate)

/-- `detect` reports the verdicts of its index. -/
theorem verdicts_indexOf_reported {L : Lib} {rows : List Attestation}
    (hids : (rows.map (·.attestationId)).Nodup) :
    (indexOf L rows).verdicts.Reported (detect L rows) := by
  have hfound : ∀ c ∈ (indexOf L rows).verdicts.candidates, ∃ a ∈ rows, ∃ b ∈ rows,
      coordinateOf L a = some c.coordinate ∧
      c.attestationIds = (a.attestationId, b.attestationId) ∧
      a.attestationId ≤ b.attestationId := by
    intro c hc
    obtain ⟨e, he, e', he', hcoord, -, hpair, hle⟩ := entries_of_candidate hc
    have hrow : ∀ e ∈ entries (indexOf L rows).groups, ∃ r ∈ rows,
        coordinateOf L r = some e.1 ∧ RowClaim.of L r = e.2 := by
      intro e he
      obtain ⟨r, hr, hre⟩ := List.mem_filterMap.mp ((entries_indexOf hids).mem_iff.mp he)
      exact ⟨r, hr, rowEntry_eq_some_iff.mp hre⟩
    obtain ⟨a, ha, hacoord, haclaim⟩ := hrow e he
    obtain ⟨b, hb, -, hbclaim⟩ := hrow e' he'
    rw [← haclaim, ← hbclaim] at hpair hle
    exact ⟨a, ha, b, hb, hcoord ▸ hacoord, hpair, hle⟩
  obtain ⟨found, hfold, hmap⟩ := foldl_recordCandidate hids _ hfound
    { DetectorReport.default with
      rowsScanned := rows.length
      pairsCompared := (indexOf L rows).verdicts.pairsCompared
      sameStatement := (indexOf L rows).verdicts.sameStatement
      superseded := (indexOf L rows).verdicts.superseded
      noSignedInstant := (indexOf L rows).verdicts.noSignedInstant }
  have hdetect : detect L rows = _ := hfold
  constructor
  · rw [hdetect]
  · rw [hdetect]
  · rw [hdetect]
  · rw [hdetect]
  · rw [hdetect]
    simp only [DetectorReport.default, List.nil_append, hmap]
    exact List.Perm.refl _

/-- An index that holds one claim for each dimensioned row, whichever passes saw them, gives the
    verdicts that `detect` reports of the rows at once. -/
theorem verdicts_reported {L : Lib} {index : ClaimIndex} (h : index.WellFormed)
    {rows : List Attestation} (hids : (rows.map (·.attestationId)).Nodup)
    (hentries : ((entries index.groups).map unseen).Perm (rows.filterMap (rowEntry L))) :
    index.verdicts.Reported (detect L rows) := by
  have hunseen : (rows.filterMap (rowEntry L)).map unseen = rows.filterMap (rowEntry L) := by
    rw [List.map_filterMap]
    congr 1
    funext r
    cases hr : coordinateOf L r <;> simp [rowEntry, hr, unseen, RowClaim.of]
  have hwf : (indexOf L rows).WellFormed := by
    rw [indexOf_eq]
    exact ClaimIndex.wellFormed_empty.upsertAll _
  have hagree := verdicts_agree h hwf (hentries.trans (by
    rw [← hunseen]
    exact ((entries_indexOf hids).map unseen).symm))
  have hreported := verdicts_indexOf_reported (L := L) hids
  exact
    { pairsCompared := hagree.pairsCompared.trans hreported.pairsCompared
      sameStatement := hagree.sameStatement.trans hreported.sameStatement
      superseded := hagree.superseded.trans hreported.superseded
      noSignedInstant := hagree.noSignedInstant.trans hreported.noSignedInstant
      candidates := hagree.candidates.trans hreported.candidates }

end CirisServer.Equivocation
