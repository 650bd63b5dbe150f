import CirisServer.ForStd.Run
import CirisServer.Spec.EquivocationIndex
import Mathlib.Data.List.Induction

/-!
# The streaming detector

A walk starts with no cursor, goes through the tier page by page and pass by pass, and ends with the
pass that wraps. While the store stands still, `Walking` is kept: the index holds a claim of this
walk for every row read since the walk last started over, what else it holds is of this walk or was
there before, and what was there before goes only where a row of the store takes its place.

At the wrap all rows are read, and the eviction leaves what was seen since `cycleStartedAt`. A pass
that fails drops the cursor and the walk starts over, but the cycle does not: what the failed pass
saw counts as seen. So the wrap is exact if, and only if, the index held no such claim of a row that
is gone.
-/

namespace CirisServer.Equivocation

variable {κ : Type}

/-! ## The store -/

/-- Reading pages from the cursor `c` on, to the last, returns `rows`. -/
inductive Walk (list : Option κ → Page κ) : Option κ → List Attestation → Prop
  | last {c : Option κ} (h : (list c).nextCursor = none) : Walk list c (list c).items
  | more {c : Option κ} {c' : κ} {rows : List Attestation} (h : (list c).nextCursor = some c')
      (rest : Walk list (some c') rows) : Walk list c ((list c).items ++ rows)

/-- A store that stands still: the pages it answers, the rows whose attester's word is in doubt, and
    its live rows, which have different ids and which a walk returns once each. -/
structure Snapshot (κ : Type) where
  list : Option κ → Page κ
  suspect : Attestation → Bool
  live : List Attestation
  ids : (live.map (·.attestationId)).Nodup
  walk : Walk list none live

/-- A row of the federation tier that is not suspect and has a dimension. -/
def counts (L : Lib) (suspect : Attestation → Bool) (a : Attestation) : Bool :=
  a.tier == federation && !suspect a && (coordinateOf L a).isSome

/-- The live rows that are not suspect and have a dimension. -/
def Snapshot.counted (S : Snapshot κ) (L : Lib) : List Attestation :=
  S.live.filter (counts L S.suspect)

/-- A pass over the store: each of its reads fails or is answered by the store, with revocations
    that put the suspect rows in doubt where they can be read. -/
def Snapshot.Answers (S : Snapshot κ) (L : Lib) (env : PassEnv κ) : Prop :=
  ∀ answer ∈ env.answers, ∀ c, answer c = .listFailed ∨
    ∃ held, answer c = .page (S.list c) held ∧
      ∀ h, held = some h → ∀ a ∈ (S.list c).items, suspects L h env.now a = S.suspect a

/-! ## Passes -/

/-- The state after a pass. -/
def step (L : Lib) (maxRows : Nat) (s : ScanState κ) (env : PassEnv κ) : ScanState κ :=
  (runPassWith L maxRows env s).1

/-- The pass reaches the end of the tier. -/
def Wraps (L : Lib) (maxRows : Nat) (s : ScanState κ) (env : PassEnv κ) : Prop :=
  ((runPassWith L maxRows env s).2.any (·.wrapped)) = true

/-- The state after the passes `envs` of a detector that has just started. -/
def run (L : Lib) (maxRows : Nat) (envs : List (PassEnv κ)) : ScanState κ :=
  Run.after (step L maxRows) .default envs

/-- The index is that of the store: one claim for each row that counts, a counter that is the number
    of claims, and the verdicts that `detect` reports of those rows at once. -/
def Exact (L : Lib) (S : Snapshot κ) (index : ClaimIndex) : Prop :=
  ((entries index.groups).map unseen).Perm ((S.counted L).filterMap (rowEntry L)) ∧
    index.rows = (entries index.groups).length ∧
    index.verdicts.Reported (detect L (S.counted L))

/-- What the index holds from the passes since the last wrap is of rows that count, at their
    coordinates. -/
def Fresh (L : Lib) (S : Snapshot κ) (s : ScanState κ) : Prop :=
  ∀ e ∈ entries s.index.groups, s.cycleStartedAt ≤ e.2.seenPass →
    ∃ r ∈ S.counted L, coordinateOf L r = some e.1 ∧ r.attestationId = e.2.attestationId

/-! ## One page -/

/-- An entry as a pass sees it. -/
def seenIn (pass : Nat) (e : Entry) : Entry := (e.1, { e.2 with seenPass := pass })

theorem digestPage_eq (L : Lib) (pass : Nat) (suspect : Attestation → Bool)
    (rows : List Attestation) :
    digestPage L pass suspect rows =
      ((rows.filter (counts L suspect)).filterMap (rowEntry L)).map (seenIn pass) := by
  rw [digestPage, List.map_filterMap, List.filterMap_filter]
  congr 1
  funext a
  by_cases htier : a.tier = federation
  · cases hsuspect : suspect a with
    | true => simp [counts, htier, hsuspect]
    | false => cases hcoord : coordinateOf L a <;>
        simp [counts, htier, hsuspect, hcoord, rowEntry, seenIn]
  · simp [counts, htier]

theorem mem_digestPage {L : Lib} {pass : Nat} {suspect : Attestation → Bool}
    {rows : List Attestation} {e : Entry} :
    e ∈ digestPage L pass suspect rows ↔
      ∃ r ∈ rows, counts L suspect r = true ∧ rowEntry L r = some (unseen e) ∧
        e.2.seenPass = pass := by
  simp only [digestPage_eq, List.mem_map, List.mem_filterMap, List.mem_filter]
  constructor
  · rintro ⟨e', ⟨r, ⟨hr, hcounts⟩, hre⟩, rfl⟩
    refine ⟨r, hr, hcounts, ?_, rfl⟩
    obtain ⟨-, hclaim⟩ := rowEntry_eq_some_iff.mp hre
    rw [hre]
    have hzero : e'.2.seenPass = 0 := by rw [← hclaim]; rfl
    simp [unseen, seenIn, ← hzero]
  · rintro ⟨r, hr, hcounts, hre, rfl⟩
    exact ⟨unseen e, ⟨r, ⟨hr, hcounts⟩, hre⟩, rfl⟩

theorem nodup_key_digestPage {L : Lib} {pass : Nat} {suspect : Attestation → Bool}
    {rows : List Attestation} (hids : (rows.map (·.attestationId)).Nodup) :
    ((digestPage L pass suspect rows).map key).Nodup := by
  have hsub : ((rows.filter (counts L suspect)).map (·.attestationId)).Sublist
      (rows.map (·.attestationId)) := List.Sublist.map _ List.filter_sublist
  have hkeys := nodup_key_rowEntries (L := L) (hsub.nodup hids)
  rw [digestPage_eq, List.map_map]
  exact hkeys

/-! ## The walk -/

/-- An entry for the row, as a pass after `pass` has seen it. -/
def Sees (L : Lib) (pass : Nat) (e : Entry) (r : Attestation) : Prop :=
  rowEntry L r = some (unseen e) ∧ pass < e.2.seenPass

/-- What the index holds on the way, over the index `old` of a detector that had made `pass`
    passes: `read` are the rows read since the walk last started over. -/
structure Walking (L : Lib) (S : Snapshot κ) (old : ClaimIndex) (pass : Nat)
    (read : List Attestation) (index : ClaimIndex) : Prop where
  wellFormed : index.WellFormed
  /-- What was there stays, unless it is in the place of a row that counts. -/
  kept : ∀ e ∈ entries old.groups,
    (∀ r ∈ S.counted L, ∀ e', rowEntry L r = some e' → key e' ≠ key e) → e ∈ entries index.groups
  /-- Nothing else came but claims of rows that count. -/
  came : ∀ e ∈ entries index.groups, e ∈ entries old.groups ∨ ∃ r ∈ S.counted L, Sees L pass e r
  covered : ∀ r ∈ read, r ∈ S.counted L → ∃ e ∈ entries index.groups, Sees L pass e r

theorem Walking.start {L : Lib} {S : Snapshot κ} {old : ClaimIndex} {pass : Nat}
    {read : List Attestation} {index : ClaimIndex} (h : Walking L S old pass read index) :
    Walking L S old pass [] index where
  wellFormed := h.wellFormed
  kept := h.kept
  came := h.came
  covered := by simp

/-- One more page: its rows are read. -/
theorem Walking.page {L : Lib} {S : Snapshot κ} {old : ClaimIndex} {pass : Nat}
    {read items rest : List Attestation} {index : ClaimIndex}
    (h : Walking L S old pass read index) (hlive : S.live = read ++ (items ++ rest))
    {now : Nat} (hnow : pass < now) {suspect : Attestation → Bool}
    (hsuspect : ∀ a ∈ items, suspect a = S.suspect a) :
    Walking L S old pass (read ++ items) (index.upsertAll (digestPage L now suspect items)) := by
  have hids := S.ids
  rw [hlive, List.map_append, List.map_append] at hids
  have hitems : (items.map (·.attestationId)).Nodup :=
    (List.nodup_append.mp (List.nodup_append.mp hids).2.1).1
  have hmem : ∀ e, e ∈ entries (index.upsertAll (digestPage L now suspect items)).groups ↔ _ :=
    fun e => ClaimIndex.mem_upsertAll h.wellFormed (nodup_key_digestPage hitems)
  -- A digested row counts, and its claim is of this pass.
  have hdigest : ∀ e ∈ digestPage L now suspect items,
      ∃ r ∈ items, r ∈ S.counted L ∧ Sees L pass e r := by
    intro e he
    obtain ⟨r, hr, hcounts, hre, hpass⟩ := mem_digestPage.mp he
    refine ⟨r, hr, List.mem_filter.mpr ⟨?_, ?_⟩, hre, hpass ▸ hnow⟩
    · rw [hlive]
      simp [hr]
    · unfold counts at hcounts ⊢
      rwa [← hsuspect r hr]
  constructor
  · exact h.wellFormed.upsertAll _
  · intro e he hno
    refine (hmem e).mpr (Or.inr ⟨h.kept e he hno, ?_⟩)
    intro hkey
    obtain ⟨e', he', hkeys⟩ := List.mem_map.mp hkey
    obtain ⟨r, -, hr, hsees⟩ := hdigest e' he'
    exact hno r hr (unseen e') hsees.1 hkeys
  · intro e he
    cases (hmem e).mp he with
    | inl hnew =>
      obtain ⟨r, -, hr, hsees⟩ := hdigest e hnew
      exact Or.inr ⟨r, hr, hsees⟩
    | inr hold => exact h.came e hold.1
  · intro r hr hcounted
    cases List.mem_append.mp hr with
    | inl hread =>
      obtain ⟨e, he, hsees⟩ := h.covered r hread hcounted
      -- A row of this page is another row, so it does not take the place.
      refine ⟨e, (hmem e).mpr (Or.inr ⟨he, ?_⟩), hsees⟩
      intro hkey
      obtain ⟨e', he', hkeys⟩ := List.mem_map.mp hkey
      obtain ⟨r', hr', -, hsees'⟩ := hdigest e' he'
      have hid : ∀ {e : Entry} {r : Attestation}, Sees L pass e r →
          e.2.attestationId = r.attestationId := by
        intro e r hsees
        exact (congrArg RowClaim.attestationId (rowEntry_eq_some_iff.mp hsees.1).2).symm
      have hne := (List.nodup_append.mp hids).2.2 r.attestationId
        (List.mem_map.mpr ⟨r, hread, rfl⟩) r'.attestationId
        (List.mem_append_left _ (List.mem_map.mpr ⟨r', hr', rfl⟩))
      refine hne ?_
      rw [← hid hsees, ← hid hsees']
      exact (congrArg Prod.snd hkeys).symm
    | inr hpage =>
      have hcounts : counts L suspect r = true := by
        have hlivecounts := (List.mem_filter.mp hcounted).2
        unfold counts at hlivecounts ⊢
        rwa [hsuspect r hpage]
      have hcoord : (coordinateOf L r).isSome = true := by
        unfold counts at hcounts
        simp only [Bool.and_eq_true] at hcounts
        exact hcounts.2
      obtain ⟨coord, hsome⟩ := Option.isSome_iff_exists.mp hcoord
      have hentry : rowEntry L r = some (unseen (coord, { RowClaim.of L r with seenPass := now })) := by
        simp [rowEntry, hsome, unseen, RowClaim.of]
      refine ⟨(coord, { RowClaim.of L r with seenPass := now }), (hmem _).mpr (Or.inl ?_), hentry,
        hnow⟩
      exact mem_digestPage.mpr ⟨r, hpage, hcounts, hentry, rfl⟩

/-- A state on the way: what is read and what the cursor still leads to are the live rows. -/
def OnTheWay (L : Lib) (S : Snapshot κ) (old : ClaimIndex) (pass : Nat) (s : ScanState κ) : Prop :=
  ∃ read rest, S.live = read ++ rest ∧ Walk S.list s.cursor rest ∧ Walking L S old pass read s.index

/-- A state without a cursor is on the way, whatever was read. -/
theorem OnTheWay.startOver {L : Lib} {S : Snapshot κ} {old : ClaimIndex} {pass : Nat}
    {s : ScanState κ} (h : OnTheWay L S old pass s) :
    OnTheWay L S old pass { s with cursor := none } := by
  obtain ⟨read, rest, -, -, hwalking⟩ := h
  exact ⟨[], S.live, rfl, S.walk, hwalking.start⟩

/-- The state at the wrap: all live rows are read, and then what the cycle has not seen is evicted. -/
def AtTheEnd (L : Lib) (S : Snapshot κ) (old : ClaimIndex) (pass cycle : Nat) (s : ScanState κ) :
    Prop :=
  ∃ index, Walking L S old pass S.live index ∧ s.index = (index.evictUnseenSince cycle).1

/-- How a pass over the store ends: on the way, in the same cycle, or at the end. -/
def Ends (L : Lib) (S : Snapshot κ) (old : ClaimIndex) (pass cycle : Nat)
    (out : ScanState κ × Option DetectorReport) : Prop :=
  if out.2.any (·.wrapped) then AtTheEnd L S old pass cycle out.1
  else OnTheWay L S old pass out.1 ∧ out.1.cycleStartedAt = cycle

theorem Ends.onTheWay {L : Lib} {S : Snapshot κ} {old : ClaimIndex} {pass cycle : Nat}
    {out : ScanState κ × Option DetectorReport} (hwrapped : out.2.any (·.wrapped) = false)
    (h : OnTheWay L S old pass out.1) (hcycle : out.1.cycleStartedAt = cycle) :
    Ends L S old pass cycle out := by
  rw [Ends, hwrapped]
  exact ⟨h, hcycle⟩

/-- A loop of reads over the store leaves the detector on the way, or at the end. -/
theorem scanLoop_ends {L : Lib} {S : Snapshot κ} {old : ClaimIndex} {pass : Nat} (maxRows : Nat)
    (now : Int) (answers : List (Option κ → Answer κ))
    (hanswers : S.Answers L ⟨now, true, answers⟩) {s : ScanState κ} (h : OnTheWay L S old pass s)
    (hpass : pass < s.pass) (scanned : Nat) {report : DetectorReport}
    (hreport : report.wrapped = false) :
    Ends L S old pass s.cycleStartedAt (scanLoop L maxRows now answers s scanned report) := by
  induction answers generalizing s scanned report with
  | nil => exact ⟨h.startOver, rfl⟩
  | cons answer answers ih =>
    have hrest : S.Answers L ⟨now, true, answers⟩ := fun a ha =>
      hanswers a (List.mem_cons_of_mem _ ha)
    obtain hfailed | ⟨held, hpage, hheld⟩ := hanswers answer List.mem_cons_self s.cursor
    · simp only [scanLoop, hfailed]
      exact ⟨h.startOver, rfl⟩
    · cases held with
      | none =>
        simp only [scanLoop, hpage]
        exact ⟨h.startOver, rfl⟩
      | some held =>
        have hsuspect := hheld held rfl
        obtain ⟨read, rest, hlive, hwalk, hwalking⟩ := h
        cases hwalk with
        | last hnext =>
          have hlive' : S.live = read ++ ((S.list s.cursor).items ++ []) := by
            rw [hlive, List.append_nil]
          have hwalked := hwalking.page hlive' hpass hsuspect
          simp only [scanLoop, hpage, hnext]
          refine ⟨_, ?_, rfl⟩
          rw [hlive]
          exact hwalked
        | @more _ c' rows hnext hmore =>
          have hwalked := hwalking.page hlive hpass hsuspect
          have hlive' : S.live = (read ++ (S.list s.cursor).items) ++ rows := by
            rw [hlive, List.append_assoc]
          have hway : OnTheWay L S old pass
              { s with
                cursor := some c'
                index := s.index.upsertAll
                  (digestPage L s.pass (suspects L held now) (S.list s.cursor).items) } :=
            ⟨_, rows, hlive', hmore, hwalked⟩
          simp only [scanLoop, hpage, hnext]
          split
          case isTrue => exact Ends.onTheWay hreport hway rfl
          case isFalse => exact ih hrest hway hpass _ hreport

/-! ## Any pass, over any store -/

/-- What every pass keeps: the index is well-formed, and a cycle starts no later than the next
    pass. -/
structure Sound (s : ScanState κ) : Prop where
  wellFormed : s.index.WellFormed
  cycle : s.cycleStartedAt ≤ s.pass + 1

/-- The places of the claims held. -/
def places (index : ClaimIndex) : List (ClaimCoordinate × String) :=
  (entries index.groups).map key

theorem places_subset_upsertAll {index : ClaimIndex} (h : index.WellFormed) (claims : List Entry) :
    places index ⊆ places (index.upsertAll claims) := by
  induction claims generalizing index with
  | nil => exact List.Subset.refl _
  | cons e claims ih =>
    refine List.Subset.trans ?_ (ih (h.upsert e.1 e.2))
    intro place hplace
    have hperm := ClaimIndex.map_key_upsertGroup e.1 e.2 h.coords
    refine hperm.mem_iff.mpr ?_
    split
    case isTrue => exact hplace
    case isFalse => exact List.mem_cons_of_mem _ hplace

/-- What a loop of reads does, whatever it is answered: it keeps the pass and the invariant, and
    unless it wraps it keeps the cycle and every claim's place. -/
theorem scanLoop_sound (L : Lib) (maxRows : Nat) (now : Int)
    (answers : List (Option κ → Answer κ)) {s : ScanState κ} (h : Sound s) (scanned : Nat)
    (report : DetectorReport) (hreport : report.wrapped = false)
    {out : ScanState κ × Option DetectorReport}
    (hout : scanLoop L maxRows now answers s scanned report = out) :
    out.1.pass = s.pass ∧ Sound out.1 ∧
      (out.2.any (·.wrapped) = false → places s.index ⊆ places out.1.index) := by
  subst hout
  induction answers generalizing s scanned report with
  | nil => exact ⟨rfl, ⟨h.wellFormed, h.cycle⟩, fun _ => List.Subset.refl _⟩
  | cons answer answers ih =>
    have hdropped : Sound { s with cursor := (none : Option κ) } := ⟨h.wellFormed, h.cycle⟩
    cases hanswer : answer s.cursor with
    | listFailed =>
      simp only [scanLoop, hanswer]
      exact ⟨trivial, hdropped, fun _ => List.Subset.refl _⟩
    | page page held =>
      cases held with
      | none =>
        simp only [scanLoop, hanswer]
        exact ⟨trivial, hdropped, fun _ => List.Subset.refl _⟩
      | some held =>
        let claims := digestPage L s.pass (suspects L held now) page.items
        have hall := h.wellFormed.upsertAll claims
        have hplaces := places_subset_upsertAll h.wellFormed claims
        cases hnext : page.nextCursor with
        | none =>
          simp only [scanLoop, hanswer, hnext]
          refine ⟨trivial, ⟨hall.evictUnseenSince _, le_refl _⟩, ?_⟩
          intro hwrapped
          simp at hwrapped
        | some c =>
          have hread : Sound { s with cursor := some c, index := s.index.upsertAll claims } :=
            ⟨hall, h.cycle⟩
          simp only [scanLoop, hanswer, hnext]
          split
          case isTrue => exact ⟨rfl, hread, fun _ => hplaces⟩
          case isFalse =>
            have hrest := ih hread (scanned + page.items.length)
              { report with
                pages := report.pages + 1
                rowsScanned := report.rowsScanned + page.items.length
                suspectRows := report.suspectRows +
                  suspectRows (suspects L held now) page.items } hreport
            obtain ⟨hpass, hsound, hkept⟩ := hrest
            exact ⟨hpass, hsound, fun hwrapped => List.Subset.trans hplaces (hkept hwrapped)⟩

/-- A pass is a loop of reads in the next pass, unless the node is not admitted. -/
theorem runPassWith_eq (L : Lib) (maxRows : Nat) (env : PassEnv κ) (s : ScanState κ) :
    (env.admitted = false ∧
      runPassWith L maxRows env s = ({ s with pass := s.pass + 1 }, none)) ∨
    ∃ report : DetectorReport, report.wrapped = false ∧
      (runPassWith L maxRows env s).1 =
        (scanLoop L maxRows env.now env.answers { s with pass := s.pass + 1 } 0 report).1 ∧
      (runPassWith L maxRows env s).2.any (·.wrapped) =
        (scanLoop L maxRows env.now env.answers { s with pass := s.pass + 1 } 0 report).2.any
          (·.wrapped) := by
  cases hadmitted : env.admitted with
  | false => exact Or.inl ⟨rfl, by simp [runPassWith, scanWindow, hadmitted]⟩
  | true =>
    refine Or.inr ⟨{ DetectorReport.default with resumed := s.cursor.isSome }, rfl, ?_, ?_⟩
    · simp [runPassWith, scanWindow, hadmitted]
    · simp only [runPassWith, scanWindow, hadmitted, if_true, Option.any_map]

theorem runPassWith_sound (L : Lib) (maxRows : Nat) (env : PassEnv κ) {s : ScanState κ}
    (h : Sound s) :
    (runPassWith L maxRows env s).1.pass = s.pass + 1 ∧ Sound (runPassWith L maxRows env s).1 ∧
      (¬ Wraps L maxRows s env →
        places s.index ⊆ places (runPassWith L maxRows env s).1.index) := by
  have hnext : Sound { s with pass := s.pass + 1 } :=
    ⟨h.wellFormed, h.cycle.trans (Nat.le_succ _)⟩
  obtain ⟨-, heq⟩ | ⟨report, hreport, hstate, hwrapped⟩ := runPassWith_eq L maxRows env s
  · rw [heq]
    exact ⟨rfl, hnext, fun _ => List.Subset.refl _⟩
  · obtain ⟨hpass, hsound, hkept⟩ :=
      scanLoop_sound L maxRows env.now env.answers hnext 0 report hreport rfl
    rw [hstate]
    refine ⟨hpass, hsound, fun hnot => hkept ?_⟩
    rw [Wraps, hwrapped] at hnot
    simpa using hnot

theorem sound_run (L : Lib) (maxRows : Nat) (envs : List (PassEnv κ)) :
    Sound (run L maxRows envs) :=
  Run.after_invariant (fun _ env h => (runPassWith_sound L maxRows env h).2.1)
    ⟨ClaimIndex.wellFormed_empty, Nat.zero_le _⟩

/-! ## Passes over a store that stands still -/

theorem runPassWith_ends {L : Lib} {S : Snapshot κ} {old : ClaimIndex} {pass : Nat} (maxRows : Nat)
    {env : PassEnv κ} (henv : S.Answers L env) {s : ScanState κ} (h : OnTheWay L S old pass s)
    (hpass : pass ≤ s.pass) :
    Ends L S old pass s.cycleStartedAt (runPassWith L maxRows env s) := by
  have hnext : OnTheWay L S old pass { s with pass := s.pass + 1 } := h
  obtain ⟨-, heq⟩ | ⟨report, hreport, hstate, hwrapped⟩ := runPassWith_eq L maxRows env s
  · rw [heq]
    exact ⟨hnext, rfl⟩
  · have hends := scanLoop_ends maxRows env.now env.answers henv hnext
      (Nat.lt_succ_of_le hpass) 0 hreport
    unfold Ends at hends ⊢
    rw [hstate, hwrapped]
    exact hends

/-- Passes over the store that do not wrap keep the detector on the way, in one cycle. -/
theorem onTheWay_after {L : Lib} {S : Snapshot κ} {maxRows : Nat} {s : ScanState κ}
    (hs : Sound s) (hcursor : s.cursor = none) {envs : List (PassEnv κ)}
    (henvs : ∀ env ∈ envs, S.Answers L env)
    (hno : Run.Guarded (step L maxRows) (fun s env => ¬ Wraps L maxRows s env) s envs) :
    OnTheWay L S s.index s.pass (Run.after (step L maxRows) s envs) ∧
      (Run.after (step L maxRows) s envs).cycleStartedAt = s.cycleStartedAt ∧
      s.pass ≤ (Run.after (step L maxRows) s envs).pass := by
  induction envs using List.reverseRecOn with
  | nil =>
    refine ⟨⟨[], S.live, rfl, ?_, ⟨hs.wellFormed, fun _ he _ => he, fun _ he => Or.inl he, by simp⟩⟩,
      rfl, le_refl _⟩
    rw [Run.after_nil, hcursor]
    exact S.walk
  | append_singleton envs env ih =>
    obtain ⟨hguard, hlast⟩ := Run.guarded_append_iff.mp hno
    obtain ⟨hway, hcycle, hpass⟩ :=
      ih (fun env' henv' => henvs env' (List.mem_append_left _ henv')) hguard
    have hsound : Sound (Run.after (step L maxRows) s envs) :=
      Run.after_invariant (fun _ env h => (runPassWith_sound L maxRows env h).2.1) hs
    have hends := runPassWith_ends maxRows (henvs env (by simp)) hway hpass
    have hnext := (runPassWith_sound L maxRows env hsound).1
    have hnot : ((runPassWith L maxRows env (Run.after (step L maxRows) s envs)).2.any
        (·.wrapped)) = false := by simpa [Wraps] using hlast.1
    rw [Ends, hnot] at hends
    rw [Run.after_append, Run.after_cons, Run.after_nil, step]
    exact ⟨hends.1, hends.2.trans hcycle, hpass.trans (hnext ▸ Nat.le_succ _)⟩

/-! ## The wrap -/

/-- After the wrap the index is exact if, and only if, what it held of this cycle was fresh. -/
theorem exact_iff_fresh {L : Lib} {S : Snapshot κ} {s s' : ScanState κ} (hs : Sound s)
    (h : AtTheEnd L S s.index s.pass s.cycleStartedAt s') : Exact L S s'.index ↔ Fresh L S s := by
  obtain ⟨index, hwalking, hindex⟩ := h
  have hwf := hwalking.wellFormed.evictUnseenSince s.cycleStartedAt
  have hmem : ∀ e, e ∈ entries s'.index.groups ↔
      e ∈ entries index.groups ∧ s.cycleStartedAt ≤ e.2.seenPass := by
    intro e
    rw [hindex, ClaimIndex.entries_evictUnseenSince, List.mem_filter, decide_eq_true_eq]
  have hids : ((S.counted L).map (·.attestationId)).Nodup :=
    (List.Sublist.map _ List.filter_sublist).nodup S.ids
  constructor
  · intro hexact e he hcycle
    by_contra hnone
    have hkept : e ∈ entries index.groups := by
      apply hwalking.kept e he
      intro r hr e' he' hkey
      obtain ⟨hcoord, hclaim⟩ := rowEntry_eq_some_iff.mp he'
      refine hnone ⟨r, hr, ?_, ?_⟩
      · rw [hcoord]
        exact congrArg some (Prod.mk.inj hkey).1
      · rw [← (Prod.mk.inj hkey).2, ← hclaim]
        rfl
    have hrow := hexact.1.mem_iff.mp (List.mem_map.mpr ⟨e, (hmem e).mpr ⟨hkept, hcycle⟩, rfl⟩)
    obtain ⟨r, hr, hre⟩ := List.mem_filterMap.mp hrow
    obtain ⟨hcoord, hclaim⟩ := rowEntry_eq_some_iff.mp hre
    exact hnone ⟨r, hr, hcoord, congrArg RowClaim.attestationId hclaim⟩
  · intro hfresh
    -- Every claim left is of this walk, for a claim of before would be fresh and so replaced.
    have hsees : ∀ e ∈ entries s'.index.groups, ∃ r ∈ S.counted L,
        rowEntry L r = some (unseen e) := by
      intro e he
      obtain ⟨hin, hcycle⟩ := (hmem e).mp he
      cases hwalking.came e hin with
      | inr hcame =>
        obtain ⟨r, hr, hsees⟩ := hcame
        exact ⟨r, hr, hsees.1⟩
      | inl hold =>
        obtain ⟨r, hr, hcoord, hid⟩ := hfresh e hold hcycle
        have hlive : r ∈ S.live := (List.mem_filter.mp hr).1
        obtain ⟨e', he', hsees⟩ := hwalking.covered r hlive hr
        obtain ⟨hcoord', hclaim'⟩ := rowEntry_eq_some_iff.mp hsees.1
        have hkey : key e' = key e := by
          refine Prod.ext ?_ ?_
          · exact Option.some.inj (hcoord'.symm.trans hcoord)
          · exact (congrArg RowClaim.attestationId hclaim').symm.trans hid
        have heq : e' = e := List.inj_on_of_nodup_map hwalking.wellFormed.keys he' hin hkey
        exact ⟨r, hr, heq ▸ hsees.1⟩
    have hentries : ((entries s'.index.groups).map unseen).Perm
        ((S.counted L).filterMap (rowEntry L)) := by
      have hnodup : ((entries s'.index.groups).map unseen).Nodup := by
        have hkeys := (hindex ▸ hwf).keys
        refine List.Nodup.of_map key ?_
        rw [List.map_map]
        exact hkeys
      refine (List.perm_ext_iff_of_nodup hnodup (nodup_key_rowEntries hids).of_map).mpr ?_
      intro e
      rw [List.mem_map, List.mem_filterMap]
      constructor
      · rintro ⟨e', he', rfl⟩
        exact hsees e' he'
      · rintro ⟨r, hr, hre⟩
        obtain ⟨e', he', hsee⟩ := hwalking.covered r (List.mem_filter.mp hr).1 hr
        have hnew : s.cycleStartedAt ≤ e'.2.seenPass := hs.cycle.trans hsee.2
        exact ⟨e', (hmem e').mpr ⟨he', hnew⟩, Option.some.inj (hsee.1.symm.trans hre)⟩
    exact ⟨hentries, (hindex ▸ hwf).rows, verdicts_reported (hindex ▸ hwf) hids hentries⟩

/-- **The streaming detector and the batch one.** Let a detector be without a cursor after any
    passes, and let the store stand still from then on to the pass that wraps. After that pass the
    index is exact if, and only if, what it held of the cycle at the start of the walk was fresh.
    And a pass that fails keeps a claim for every row that had one. -/
theorem scan_exact_iff (L : Lib) (maxRows : Nat) (before : List (PassEnv κ)) :
    (∀ (S : Snapshot κ) (envs : List (PassEnv κ)) (last : PassEnv κ),
      (run L maxRows before).cursor = none →
      (∀ env ∈ envs ++ [last], S.Answers L env) →
      Run.Guarded (step L maxRows) (fun s env => ¬ Wraps L maxRows s env) (run L maxRows before)
        envs →
      Wraps L maxRows (run L maxRows (before ++ envs)) last →
      (Exact L S (run L maxRows (before ++ envs ++ [last])).index ↔
        Fresh L S (run L maxRows before))) ∧
    ∀ env, (runPassWith L maxRows env (run L maxRows before)).2 = none →
      ∀ e ∈ entries (run L maxRows before).index.groups,
        ∃ e' ∈ entries (run L maxRows (before ++ [env])).index.groups, key e' = key e := by
  have hsound := sound_run L maxRows before
  constructor
  · intro S envs last hcursor henvs hno hwraps
    obtain ⟨hway, hcycle, hpass⟩ := onTheWay_after hsound hcursor
      (fun env henv => henvs env (List.mem_append_left _ henv)) hno
    have hends := runPassWith_ends maxRows (henvs last (by simp)) hway hpass
    have hrun : run L maxRows (before ++ envs) =
        Run.after (step L maxRows) (run L maxRows before) envs := Run.after_append _ _ _
    have hlast : run L maxRows (before ++ envs ++ [last]) =
        (runPassWith L maxRows last (run L maxRows (before ++ envs))).1 :=
      Run.after_append _ _ _
    rw [Wraps, hrun] at hwraps
    rw [Ends, hwraps, hcycle, ← hrun] at hends
    rw [hlast]
    exact exact_iff_fresh hsound hends
  · intro env hfailed e he
    have hnot : ¬ Wraps L maxRows (run L maxRows before) env := by
      rw [Wraps, hfailed]
      simp
    have hkept := (runPassWith_sound L maxRows env hsound).2.2 hnot
    have hafter : run L maxRows (before ++ [env]) =
        (runPassWith L maxRows env (run L maxRows before)).1 := Run.after_append _ _ _
    rw [hafter]
    exact List.mem_map.mp (hkept (List.mem_map.mpr ⟨e, he, rfl⟩))

/-! ## A claim that outlives its row -/

/-- The substrate, for one row that is not dated and that no revocation covers. -/
def sampleLib : Lib where
  policy :=
    { parseRfc3339 := fun _ => none
      foldKeyStatementStanding := fun _ _ _ _ _ => .stands
      precedenceWinner := List.head? }
  row := "row"
  assertedAt := "asserted_at"
  expiresAt := "expires_at"
  widenedAt := "widened_at"
  referencesAttestationId := "references_attestation_id"
  differsIn := "differs_in"
  envelopeDimension := fun envelope => (envelope.get? "dimension").bind Json.asStr
  canonicalDigest := fun _ =>
    some "a50420d01e8e22eee71f0030e6b895614db81f76c5060277c33e47f322e83583"

def sampleRow : Attestation where
  attestationId := "a"
  attestingKeyId := "k"
  attestedKeyId := "s"
  attestationType := ComposePolicy.scoresType
  assertedAt := 0
  expiresAt := none
  attestationEnvelope :=
    .obj [("dimension", .str "capacity:sustained_coherence:v1"), ("score", .num (.int 1))]
  tier := federation
  originalContentHash := "h"

/-- A pass that reads the row and fails on the next page. -/
def failedPass : PassEnv Unit where
  now := 0
  admitted := true
  answers := [fun _ => .page ⟨[sampleRow], some ()⟩ (some []), fun _ => .listFailed]

/-- A store without rows. -/
def emptyStore : Snapshot Unit where
  list := fun _ => ⟨[], none⟩
  suspect := fun _ => false
  live := []
  ids := List.nodup_nil
  walk := Walk.last rfl

/-- A pass over it. -/
def emptyPass : PassEnv Unit where
  now := 0
  admitted := true
  answers := [fun _ => .page ⟨[], none⟩ (some [])]

/-- The row goes after the failed pass, and the store stands still from then on: the next pass walks
    it from the start, wraps, and leaves the claim of the row that is gone. -/
theorem staleClaim_outlives_wrap :
    (run sampleLib 4096 [failedPass]).cursor = none ∧
      emptyStore.Answers sampleLib emptyPass ∧
      Wraps sampleLib 4096 (run sampleLib 4096 [failedPass]) emptyPass ∧
      ¬ Exact sampleLib emptyStore (run sampleLib 4096 [failedPass, emptyPass]).index := by
  refine ⟨rfl, ?_, rfl, ?_⟩
  · intro answer hanswer c
    rw [List.mem_singleton.mp hanswer]
    exact Or.inr ⟨some [], rfl, by simp [emptyStore]⟩
  · intro hexact
    have hlength := hexact.1.length_eq
    revert hlength
    decide

end CirisServer.Equivocation
