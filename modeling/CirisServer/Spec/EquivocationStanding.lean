import CirisServer.Spec.EquivocationEvidence
import CirisServer.Spec.EquivocationScan

/-!
# Whether evidence is current

The store changes from pass to pass: rows come, change and expire, and keys are revoked. A pass asks
for the standing of a row when it reads it, and only whether it is live when it reports it. Between
the two the index may carry a claim over that its row no longer makes, or whose key is revoked by
then. Where no such claim is carried over, what is reported and recorded is current.
-/

namespace CirisServer.Equivocation

variable {κ : Type}

/-- What a node holds at one time: rows with different ids, and revocations. -/
structure Store where
  rows : List Attestation
  ids : (rows.map (·.attestationId)).Nodup
  revocations : ComposePolicy.HeldRevocations

/-- A pass over a store. -/
structure Pass (κ : Type) where
  store : Store
  env : PassEnv κ
  dir : Directory

/-- What is relied on of the substrate: a page lists rows of the store, the revocations read are
    those held against the keys of its rows, and the row that is got under an id is the store's. Any
    read may fail. -/
structure Pass.Answered (P : Pass κ) : Prop where
  list : ∀ answer ∈ P.env.answers, ∀ c page held, answer c = .page page held →
    page.items ⊆ P.store.rows
  held : ∀ answer ∈ P.env.answers, ∀ c page held, answer c = .page page (some held) →
    ∀ a ∈ page.items, (held.lookup a.attestingKeyId).getD [] =
      (P.store.revocations.lookup a.attestingKeyId).getD []
  get : ∀ id a, P.dir.getAttestation id = .ok (some a) →
    a ∈ P.store.rows ∧ a.attestationId = id

/-- A contradiction of two live rows of the federation tier that stand. -/
def Backed (L : Lib) (S : Store) (now : Int) (x : Contradiction) : Prop :=
  ∃ a ∈ S.rows, ∃ b ∈ S.rows, ∃ coord, a.attestationId < b.attestationId ∧
    (isLive now a = true ∧ isLive now b = true) ∧ Contradicts L a b coord x.assertedAt ∧
    (suspects L S.revocations now a = false ∧ suspects L S.revocations now b = false) ∧
    x = Contradiction.new L a b coord.dimension x.assertedAt

/-- A claim that its row, where it is live, makes and stands for. -/
def Current (L : Lib) (S : Store) (now : Int) (e : Entry) : Prop :=
  ∀ r ∈ S.rows, r.attestationId = e.2.attestationId → isLive now r = true →
    rowEntry L r = some (unseen e) ∧ suspects L S.revocations now r = false

/-- What a pass meets in the state before it: the claims that it neither replaces nor drops are
    current, and no revocation takes effect between its two readings of the clock. -/
structure Meets (L : Lib) (maxRows : Nat) (s : ScanState κ) (P : Pass κ) : Prop where
  carried : ∀ e ∈ entries s.index.groups, e ∈ entries (step L maxRows s P.env).index.groups →
    Current L P.store P.dir.now e
  standing : ∀ r ∈ P.store.rows, suspects L P.store.revocations P.env.now r = false →
    suspects L P.store.revocations P.dir.now r = false

variable {L : Lib} {maxRows : Nat} {P : Pass κ} {s : ScanState κ}

/-! ## The scan -/

theorem suspects_congr {held held' : ComposePolicy.HeldRevocations} {now : Int} {a : Attestation}
    (h : (held.lookup a.attestingKeyId).getD [] = (held'.lookup a.attestingKeyId).getD []) :
    suspects L held now a = suspects L held' now a := by
  simp only [suspects, ComposePolicy.HeldRevocations.statementStanding,
    ComposePolicy.HeldRevocations.fold, h]

/-- Nothing but the claims comes into the index. -/
theorem mem_of_mem_upsertAll {index : ClaimIndex} (h : index.WellFormed) {claims : List Entry}
    {e : Entry} (he : e ∈ entries (index.upsertAll claims).groups) :
    e ∈ claims ∨ e ∈ entries index.groups := by
  induction claims generalizing index with
  | nil => exact .inr he
  | cons c claims ih =>
    rcases ih (h.upsert c.1 c.2) he with hmem | hmem
    · exact .inl (List.mem_cons_of_mem _ hmem)
    · rcases (ClaimIndex.mem_entries_upsertGroup h.coords h.keys).mp hmem with rfl | ⟨hold, -⟩
      · exact .inl List.mem_cons_self
      · exact .inr hold

/-- A row that the pass reads, and what it makes of it. -/
def Reads (L : Lib) (S : Store) (now : Int) (e : Entry) : Prop :=
  ∃ r ∈ S.rows, counts L (suspects L S.revocations now) r = true ∧ rowEntry L r = some (unseen e)

theorem reads_of_digestPage {S : Store} {now : Int} {pass : Nat} {rows : List Attestation}
    {held : ComposePolicy.HeldRevocations} (hrows : rows ⊆ S.rows)
    (hheld : ∀ a ∈ rows, (held.lookup a.attestingKeyId).getD [] =
      (S.revocations.lookup a.attestingKeyId).getD []) {e : Entry}
    (he : e ∈ digestPage L pass (suspects L held now) rows) : Reads L S now e := by
  obtain ⟨r, hr, hcounts, hentry, -⟩ := mem_digestPage.mp he
  refine ⟨r, hrows hr, ?_, hentry⟩
  rwa [counts, ← suspects_congr (hheld r hr)]

/-- A loop of reads leaves claims that were held, and claims of rows it read. -/
theorem mem_scanLoop {S : Store} {now : Int} {answers : List (Option κ → Answer κ)}
    (hlist : ∀ answer ∈ answers, ∀ c page held, answer c = .page page held → page.items ⊆ S.rows)
    (hheld : ∀ answer ∈ answers, ∀ c page held, answer c = .page page (some held) →
      ∀ a ∈ page.items, (held.lookup a.attestingKeyId).getD [] =
        (S.revocations.lookup a.attestingKeyId).getD [])
    (h : s.index.WellFormed) (scanned : Nat) (report : DetectorReport) :
    ∀ e ∈ entries (scanLoop L maxRows now answers s scanned report).1.index.groups,
      e ∈ entries s.index.groups ∨ Reads L S now e := by
  induction answers generalizing s scanned report with
  | nil => exact fun e he => .inl he
  | cons answer answers ih =>
    intro e he
    cases hanswer : answer s.cursor with
    | listFailed =>
      simp only [scanLoop, hanswer] at he
      exact .inl he
    | page page held =>
      cases held with
      | none =>
        simp only [scanLoop, hanswer] at he
        exact .inl he
      | some held =>
        let claims := digestPage L s.pass (suspects L held now) page.items
        have hread : ∀ e ∈ entries (s.index.upsertAll claims).groups,
            e ∈ entries s.index.groups ∨ Reads L S now e := by
          intro e he
          rcases mem_of_mem_upsertAll h he with hclaim | hold
          · exact .inr (reads_of_digestPage (hlist answer List.mem_cons_self _ _ _ hanswer)
              (hheld answer List.mem_cons_self _ _ _ hanswer) hclaim)
          · exact .inl hold
        cases hnext : page.nextCursor with
        | none =>
          simp only [scanLoop, hanswer, hnext] at he
          rw [ClaimIndex.entries_evictUnseenSince] at he
          exact hread e (List.mem_filter.mp he).1
        | some c =>
          simp only [scanLoop, hanswer, hnext] at he
          split at he
          case isTrue => exact hread e he
          case isFalse =>
            have hrest : e ∈ entries (s.index.upsertAll claims).groups ∨ Reads L S now e :=
              ih (s := { s with cursor := some c, index := s.index.upsertAll claims })
                (fun a ha => hlist a (List.mem_cons_of_mem _ ha))
                (fun a ha => hheld a (List.mem_cons_of_mem _ ha)) (h.upsertAll claims) _ _ e he
            exact hrest.elim (hread e) .inr

theorem mem_step (hP : P.Answered) (h : s.index.WellFormed) :
    ∀ e ∈ entries (step L maxRows s P.env).index.groups,
      e ∈ entries s.index.groups ∨ Reads L P.store P.env.now e := by
  intro e he
  rw [step] at he
  obtain ⟨-, heq⟩ | ⟨report, -, hstate, -⟩ := runPassWith_eq L maxRows P.env s
  · rw [heq] at he
    exact .inl he
  · rw [hstate] at he
    exact mem_scanLoop (s := { s with pass := s.pass + 1 }) hP.list hP.held h 0 report e he

/-- What the index holds when the pass compares is current. -/
theorem current_of_mem_step (hP : P.Answered) (h : s.index.WellFormed) (hmeets : Meets L maxRows s P)
    {e : Entry} (he : e ∈ entries (step L maxRows s P.env).index.groups) :
    Current L P.store P.dir.now e := by
  rcases mem_step hP h e he with hold | ⟨r, hr, hcounts, hentry⟩
  · exact hmeets.carried e hold he
  · intro r' hr' hid _
    -- the store has one row under the claim's id, the row that was read
    have hclaim : r.attestationId = e.2.attestationId := by
      obtain ⟨-, hof⟩ := rowEntry_eq_some_iff.mp hentry
      exact congrArg RowClaim.attestationId hof
    have hsame : r' = r := by
      have hfind := (List.find?_key_eq_some_iff P.store.ids).mpr ⟨hr, hclaim⟩
      have hfind' := (List.find?_key_eq_some_iff P.store.ids).mpr ⟨hr', hid⟩
      exact Option.some.inj (hfind'.symm.trans hfind)
    rw [hsame]
    refine ⟨hentry, hmeets.standing r hr ?_⟩
    simp only [counts, Bool.and_eq_true, Bool.not_eq_true'] at hcounts
    exact hcounts.1.2

/-! ## The report -/

/-- The evidence of a candidate that is verified. -/
def verified (L : Lib) (dir : Directory) (c : ClaimContradiction) : Option Contradiction :=
  match verifyCandidate L dir c with
  | .ok x => x
  | .error () => none

theorem foldl_recordVerified (dir : Directory) (cs : List ClaimContradiction)
    (report : DetectorReport) : (cs.foldl (recordVerified L dir) report).contradictions =
      report.contradictions ++ cs.filterMap (verified L dir) := by
  induction cs generalizing report with
  | nil => exact (List.append_nil _).symm
  | cons c cs ih =>
    rw [List.foldl_cons, ih, List.filterMap_cons, recordVerified, verified]
    cases verifyCandidate L dir c with
    | error e => rfl
    | ok x =>
      cases x with
      | none => rfl
      | some x => exact List.append_assoc _ _ _

theorem verified_eq_some {dir : Directory} {c : ClaimContradiction} {x : Contradiction}
    (h : verified L dir c = some x) : ∃ a b,
      dir.getAttestation c.attestationIds.1 = .ok (some a) ∧
      dir.getAttestation c.attestationIds.2 = .ok (some b) ∧
      isLive dir.now a = true ∧ isLive dir.now b = true ∧
      x = Contradiction.new L a b c.coordinate.dimension c.signedAt := by
  rw [verified] at h
  cases hverify : verifyCandidate L dir c with
  | error e =>
    rw [hverify] at h
    cases h
  | ok y =>
    rw [hverify] at h
    simp only at h
    subst h
    obtain ⟨a, ha, b, hb, hmatch⟩ : ∃ a, dir.getAttestation c.attestationIds.1 = .ok a ∧
        ∃ b, dir.getAttestation c.attestationIds.2 = .ok b ∧ _ := by
      rw [verifyCandidate, except_bind_eq_ok_iff] at hverify
      obtain ⟨a, ha, hverify⟩ := hverify
      obtain ⟨b, hb, hmatch⟩ := except_bind_ok hverify
      exact ⟨a, ha, b, hb, hmatch⟩
    cases a with
    | none => cases hmatch
    | some a =>
      cases b with
      | none => cases hmatch
      | some b =>
        simp only at hmatch
        split at hmatch
        · next hlive =>
          obtain ⟨hlivea, hliveb⟩ := Bool.and_eq_true_iff.mp hlive
          cases hmatch
          exact ⟨a, b, ha, hb, hlivea, hliveb, rfl⟩
        · cases hmatch

theorem contradictions_scanLoop (now : Int) (answers : List (Option κ → Answer κ)) (scanned : Nat)
    (report out : DetectorReport)
    (h : (scanLoop L maxRows now answers s scanned report).2 = some out) :
    out.contradictions = report.contradictions := by
  induction answers generalizing s scanned report with
  | nil => cases h
  | cons answer answers ih =>
    cases hanswer : answer s.cursor with
    | listFailed =>
      simp only [scanLoop, hanswer, reduceCtorEq] at h
    | page page held =>
      cases held with
      | none => simp only [scanLoop, hanswer, reduceCtorEq] at h
      | some held =>
        cases hnext : page.nextCursor with
        | none =>
          simp only [scanLoop, hanswer, hnext] at h
          cases h
          rfl
        | some c =>
          simp only [scanLoop, hanswer, hnext] at h
          split at h
          · cases h
            rfl
          · have hrest := ih _ _ h
            exact hrest

theorem contradictions_runPassWith {env : PassEnv κ} {out : DetectorReport}
    (h : (runPassWith L maxRows env s).2 = some out) : out.contradictions = [] := by
  cases hadmitted : env.admitted with
  | false => simp [runPassWith, scanWindow, hadmitted] at h
  | true =>
    simp only [runPassWith, scanWindow, hadmitted, if_true, Option.map_map,
      Option.map_eq_some_iff] at h
    obtain ⟨scanned, hscanned, rfl⟩ := h
    have hkept := contradictions_scanLoop _ _ _ _ _ hscanned
    exact hkept

/-- What a pass reports is what it verifies of the candidates, and it records nothing else. -/
theorem verifiedPass_eq {toRfc3339 : Int → String} {env : PassEnv κ} {dir : Directory}
    {report : DetectorReport} {cases_ : List HardCaseEvent}
    (h : (verifiedPass L toRfc3339 maxRows env dir s).2 = some (report, cases_)) :
    report.contradictions =
        (step L maxRows s env).index.verdicts.candidates.filterMap (verified L dir) ∧
      ∀ case_ ∈ cases_, ∃ x ∈ report.contradictions, case_ = x.hardCase toRfc3339 dir.now := by
  obtain ⟨scanned, hscanned, heq⟩ := Option.map_eq_some_iff.mp h
  simp only [Prod.mk.injEq] at heq
  obtain ⟨rfl, rfl⟩ := heq
  have hempty : scanned.contradictions = [] := contradictions_runPassWith hscanned
  refine ⟨?_, ?_⟩
  · rw [foldl_recordVerified, hempty]
    rfl
  · intro case_ hcase
    obtain ⟨x, hx, rfl⟩ := List.mem_map.mp (List.mem_filter.mp hcase).1
    exact ⟨x, hx, rfl⟩

/-- A pass that carries nothing over that is not current reports only what is. -/
theorem backed_of_verified (hP : P.Answered) (h : s.index.WellFormed) (hmeets : Meets L maxRows s P)
    (hstep : (step L maxRows s P.env).index.WellFormed) {c : ClaimContradiction}
    (hc : c ∈ (step L maxRows s P.env).index.verdicts.candidates) {x : Contradiction}
    (hx : verified L P.dir c = some x) : Backed L P.store P.dir.now x := by
  obtain ⟨e, he, e', he', hcoord, hcoord', hlt, hverdict, hat, hids⟩ :=
    (mem_candidates_iff hstep).mp hc
  obtain ⟨a, b, ha, hb, hlivea, hliveb, rfl⟩ := verified_eq_some hx
  rw [hids] at ha hb
  obtain ⟨harows, haid⟩ := hP.get _ _ ha
  obtain ⟨hbrows, hbid⟩ := hP.get _ _ hb
  obtain ⟨hentry, hstands⟩ := current_of_mem_step hP h hmeets he a harows haid hlivea
  obtain ⟨hentry', hstands'⟩ := current_of_mem_step hP h hmeets he' b hbrows hbid hliveb
  obtain ⟨hacoord, haclaim⟩ := rowEntry_eq_some_iff.mp hentry
  obtain ⟨hbcoord, hbclaim⟩ := rowEntry_eq_some_iff.mp hentry'
  obtain ⟨hsame, t, ht, ht'⟩ := classifyClaims_eq_contradiction_iff.mp hverdict
  cases ht.symm.trans hat
  refine ⟨a, harows, b, hbrows, c.coordinate, ?_, ⟨hlivea, hliveb⟩, ?_, ⟨hstands, hstands'⟩, rfl⟩
  · rwa [haid, hbid]
  · constructor
    · rw [hacoord, ← hcoord]
      rfl
    · rw [hbcoord, ← hcoord']
      rfl
    · have hsigned : (RowClaim.of L a).signedAt = some c.signedAt := by
        rw [haclaim]
        exact ht
      exact hsigned
    · have hsigned : (RowClaim.of L b).signedAt = some c.signedAt := by
        rw [hbclaim]
        exact ht'
      exact hsigned
    · rw [haclaim, hbclaim]
      exact hsame

/-- **Evidence is current** in every run whose passes carry over only claims that are. -/
theorem reports_backed (L : Lib) (toRfc3339 : Int → String) (maxRows : Nat) (passes : List (Pass κ))
    (hanswered : ∀ P ∈ passes, P.Answered)
    (hmeets : ∀ before P after, passes = before ++ P :: after →
      Meets L maxRows (run L maxRows (before.map Pass.env)) P) :
    ∀ before P after, passes = before ++ P :: after → ∀ report hardCases,
      (verifiedPass L toRfc3339 maxRows P.env P.dir
        (run L maxRows (before.map Pass.env))).2 = some (report, hardCases) →
      (∀ x ∈ report.contradictions, Backed L P.store P.dir.now x) ∧
        ∀ event ∈ hardCases, ∃ x ∈ report.contradictions,
          event = x.hardCase toRfc3339 P.dir.now := by
  intro before P after hpasses report hardCases hpass
  have hP := hanswered P (by rw [hpasses]; exact List.mem_append_right _ List.mem_cons_self)
  have hsound := sound_run L maxRows (before.map Pass.env)
  have hstep := (runPassWith_sound L maxRows P.env hsound).2.1
  obtain ⟨hreport, hrecorded⟩ := verifiedPass_eq hpass
  refine ⟨fun x hx => ?_, hrecorded⟩
  rw [hreport] at hx
  obtain ⟨c, hc, hx⟩ := List.mem_filterMap.mp hx
  exact backed_of_verified hP hsound.wellFormed (hmeets before P after hpasses) hstep.wellFormed
    hc hx

section Samples

/-- Two rows of one moderator that contradict one another, and a third. -/
def toneStore (revocations : ComposePolicy.HeldRevocations) : Store where
  rows := [toneRow "a" "one" 1, toneRow "b" "one" 0, toneRow "c" "two" 1]
  ids := by decide +kernel
  revocations

/-- A pass over them that reads one page and gets the rows by their ids. -/
def tonePass (revocations : ComposePolicy.HeldRevocations) (page : Page Unit) : Pass Unit where
  store := toneStore revocations
  env := ⟨0, true, [fun _ => .page page (some revocations)]⟩
  dir := ⟨0, fun id => .ok ((toneStore revocations).rows.find? (·.attestationId == id)), fun _ => true⟩

theorem tonePass_answered {revocations : ComposePolicy.HeldRevocations} {page : Page Unit}
    (h : page.items ⊆ (toneStore revocations).rows) : (tonePass revocations page).Answered where
  list := by
    intro answer hanswer c page' held hpage
    cases List.mem_singleton.mp hanswer
    cases hpage
    exact h
  held := by
    intro answer hanswer c page' held hpage
    cases List.mem_singleton.mp hanswer
    cases hpage
    exact fun _ _ => rfl
  get := by
    intro id a ha
    have hfind : (toneStore revocations).rows.find? (·.attestationId == id) = some a :=
      Except.ok.inj ha
    exact ⟨List.mem_of_find?_eq_some hfind, by simpa using List.find?_some hfind⟩

/-- The window ends after the two rows. -/
def firstPage : Page Unit := ⟨[toneRow "a" "one" 1, toneRow "b" "one" 0], some ()⟩

/-- The next pass reads the third. -/
def secondPage : Page Unit := ⟨[toneRow "c" "two" 1], none⟩

/-- By then the moderator's key is revoked, with all its statements. -/
def keyRevoked : ComposePolicy.HeldRevocations := [("moderator", [⟨"r", "k", 0, none⟩])]

/-- The second pass reports and records the two rows, which are suspect. -/
theorem reports_suspect :
    (tonePass [] firstPage).Answered ∧ (tonePass keyRevoked secondPage).Answered ∧
    ∃ report hardCases, (verifiedPass toneLib (fun _ => "") 2 (tonePass keyRevoked secondPage).env
        (tonePass keyRevoked secondPage).dir (run toneLib 2 [(tonePass [] firstPage).env])).2 =
        some (report, hardCases) ∧
      hardCases.map (·.eventId) = ["attestation_equivocation:a:b"] ∧
      ∃ x ∈ report.contradictions, x.attestationIds = ("a", "b") ∧
        ¬ Backed toneLib (toneStore keyRevoked) 0 x := by
  refine ⟨tonePass_answered (by simp [firstPage, toneStore]),
    tonePass_answered (by simp [secondPage, toneStore]), ?_⟩
  generalize hpass : (verifiedPass toneLib (fun _ => "") 2 (tonePass keyRevoked secondPage).env
    (tonePass keyRevoked secondPage).dir (run toneLib 2 [(tonePass [] firstPage).env])).2 = out
  have hout : out.map (fun o => (o.1.contradictions.map (·.attestationIds), o.2.map (·.eventId))) =
      some ([("a", "b")], ["attestation_equivocation:a:b"]) := by
    rw [← hpass]
    decide +kernel
  obtain ⟨⟨report, hardCases⟩, rfl, heq⟩ := Option.map_eq_some_iff.mp hout
  obtain ⟨hcontradictions, hrecorded⟩ := Prod.mk.inj heq
  obtain ⟨x, hx, hids⟩ := List.map_eq_singleton_iff.mp hcontradictions
  refine ⟨report, hardCases, rfl, hrecorded, x, hx ▸ List.mem_singleton_self x, hids, ?_⟩
  rintro ⟨a, ha, -, -, -, -, -, -, ⟨hstands, -⟩, -⟩
  have hall : ∀ r ∈ (toneStore keyRevoked).rows,
      suspects toneLib (toneStore keyRevoked).revocations 0 r = true := by decide +kernel
  rw [hall a ha] at hstands
  cases hstands

/-- The first pass, before which nothing was held, reports what is current. -/
theorem reports_backed_first : ∃ report hardCases,
    (verifiedPass toneLib (fun _ => "") 2 (tonePass [] firstPage).env (tonePass [] firstPage).dir
      .default).2 = some (report, hardCases) ∧ report.contradictions.length = 1 ∧
    ∀ x ∈ report.contradictions, Backed toneLib (toneStore []) 0 x := by
  generalize hpass : (verifiedPass toneLib (fun _ => "") 2 (tonePass [] firstPage).env
    (tonePass [] firstPage).dir .default).2 = out
  have hout : out.map (fun o => o.1.contradictions.length) = some 1 := by
    rw [← hpass]
    decide +kernel
  obtain ⟨⟨report, hardCases⟩, rfl, hlength⟩ := Option.map_eq_some_iff.mp hout
  have hanswered : ∀ P ∈ [tonePass [] firstPage], P.Answered := by
    intro P hP
    rw [List.mem_singleton.mp hP]
    exact tonePass_answered (by simp [firstPage, toneStore])
  have hmeets : ∀ before P after, [tonePass [] firstPage] = before ++ P :: after →
      Meets toneLib 2 (run toneLib 2 (before.map Pass.env)) P := by
    intro before P after hpasses
    obtain ⟨rfl, hP⟩ : before = [] ∧ P = tonePass [] firstPage := by
      cases before with
      | nil => exact ⟨rfl, (List.cons.inj hpasses).1.symm⟩
      | cons Q before => simp at hpasses
    subst hP
    exact ⟨fun e he => (nomatch he), fun r _ h => h⟩
  exact ⟨report, hardCases, rfl, hlength, (reports_backed toneLib (fun _ => "") 2
    [tonePass [] firstPage] hanswered hmeets [] (tonePass [] firstPage) [] rfl report hardCases
    hpass).1⟩

end Samples

end CirisServer.Equivocation
