import Mathlib.Data.Fintype.EquivFin
import Mathlib.Data.Finset.Order
import Mathlib.Tactic.Push
import CirisServer.ForStd.Newest
import CirisServer.Native.Infohazard

/-!
# What the reveal gate lets through

A subject is flagged in a class when one of its live rows flags it and no authorised withdrawal is
newer. The loop of `subject_flag` finds that out from the newest row of the class, and of two
equally new rows it takes the one that comes last. So a withdrawal that ties with the newest flag
counts or not with the order of the rows.

The gate asks for the consent to one class only: the class that the request names, else the first
that is present. So it is no gate for the other class.

Key results:
- `present_iff_slot`: the loop as a slot for each class
- `reveal_protects_iff`: exactly when the gate keeps its promise
- `reveal_unprotected`: the request that names the other class
-/

namespace CirisServer.Infohazard

open Newest

variable {st : RevealState} {now now' : Int} {flag : ContentFlag} {row : Row} {rows rows' : List Row}

/-! ## Flags and withdrawals -/

/-- A live row that flags the class. -/
def Flags (now : Int) (flag : ContentFlag) (row : Row) : Prop :=
  flagRowIsLive row.expiresAt now = true ∧ row.contentClass = some flag ∧ row.withdrawn = false

/-- The emitter is on the list, and none of its revocations is in effect. -/
def Authorised (st : RevealState) (now : Int) (attestingKeyId : String) : Prop :=
  attestingKeyId ∈ st.authority.emitters ∧
    ∃ revocations, st.directory.revocationsFor attestingKeyId = .ok revocations ∧
      ∀ effectiveAt ∈ revocations, now < effectiveAt

/-- A live row of an authorised emitter that withdraws the flag. -/
def Clears (st : RevealState) (now : Int) (flag : ContentFlag) (row : Row) : Prop :=
  flagRowIsLive row.expiresAt now = true ∧ row.contentClass = some flag ∧ row.withdrawn = true ∧
    Authorised st now row.attestingKeyId

/-- A live row flags the class, and no authorised withdrawal is strictly newer. -/
def Flagged (st : RevealState) (now : Int) (rows : List Row) (flag : ContentFlag) : Prop :=
  ∃ row ∈ rows, Flags now flag row ∧
    ∀ w ∈ rows, Clears st now flag w → w.assertedAt ≤ row.assertedAt

/-- An authorised withdrawal is as new as the newest flag, and nothing is newer. -/
def Tied (st : RevealState) (now : Int) (rows : List Row) (flag : ContentFlag) : Prop :=
  ∃ row ∈ rows, ∃ w ∈ rows, Flags now flag row ∧ Clears st now flag w ∧
    w.assertedAt = row.assertedAt ∧
    ∀ r ∈ rows, Flags now flag r ∨ Clears st now flag r → r.assertedAt ≤ row.assertedAt

/-- Flagged, whatever the order of the rows. -/
def Firm (st : RevealState) (now : Int) (rows : List Row) (flag : ContentFlag) : Prop :=
  Flagged st now rows flag ∧ ¬ Tied st now rows flag

theorem admitsClear_iff {key : String} :
    st.authority.admitsClear st.directory key now = .admitted ↔ Authorised st now key := by
  unfold FlagAuthority.admitsClear clearVerdict Authorised FlagAuthority.lists
  by_cases hlisted : key ∈ st.authority.emitters
  · have hcontains : st.authority.emitters.contains key = true := List.contains_iff_mem.mpr hlisted
    rw [hcontains, Bool.not_true, if_neg Bool.false_ne_true]
    cases hrevocations : st.directory.revocationsFor key with
    | error e => simp [Except.mapError]
    | ok revocations => simp [Except.mapError, hlisted]
  · have hcontains : st.authority.emitters.contains key = false := by simpa using hlisted
    rw [hcontains, Bool.not_false, if_pos rfl]
    simp [hlisted]

/-- What the row puts into the slot of the class. -/
def enters (st : RevealState) (now : Int) (flag : ContentFlag) (row : Row) : Option (Int × Bool) :=
  if flagRowIsLive row.expiresAt now ∧ row.contentClass = some flag ∧
      (row.withdrawn = true → st.authority.admitsClear st.directory row.attestingKeyId now = .admitted)
  then some (row.assertedAt, row.withdrawn)
  else none

theorem enters_eq_some_iff {e : Int × Bool} :
    enters st now flag row = some e ↔
      (Flags now flag row ∧ e = (row.assertedAt, false)) ∨
      (Clears st now flag row ∧ e = (row.assertedAt, true)) := by
  rw [enters, Flags, Clears, ← admitsClear_iff]
  cases hwithdrawn : row.withdrawn with
  | false =>
    simp only [Bool.false_eq_true, false_implies, and_true, false_and, and_false, or_false]
    rw [Option.ite_none_right_eq_some, Option.some_inj, eq_comm (b := e), and_assoc]
  | true =>
    simp only [forall_const, Bool.true_eq_false, and_false, false_and, false_or, true_and]
    rw [Option.ite_none_right_eq_some, Option.some_inj, eq_comm (b := e)]

/-! ## The loop -/

/-- The verdicts that are kept are those that the authority gives. -/
def Scan.Consistent (st : RevealState) (now : Int) (s : Scan) : Prop :=
  ∀ key v, s.verdicts key = some v → v = st.authority.admitsClear st.directory key now

theorem Scan.Consistent.verdict {s : Scan} (h : s.Consistent st now) (key : String) :
    (s.verdict st.authority st.directory now key).2 =
        st.authority.admitsClear st.directory key now ∧
      (s.verdict st.authority st.directory now key).1.Consistent st now ∧
      ∀ flag, (s.verdict st.authority st.directory now key).1.slot flag = s.slot flag := by
  rw [Scan.verdict]
  cases hkept : s.verdicts key with
  | some v => exact ⟨h key v hkept, h, fun _ => rfl⟩
  | none =>
    refine ⟨rfl, fun key' v hv => ?_, fun flag => by cases flag <;> rfl⟩
    change Function.update s.verdicts key _ key' = some v at hv
    by_cases hkey : key' = key
    · subst hkey
      rw [Function.update_self] at hv
      exact (Option.some.inj hv).symm
    · rw [Function.update_of_ne hkey] at hv
      exact h key' v hv

theorem slot_record (s : Scan) (flag flag' : ContentFlag) (row : Row) :
    (s.record flag' row).slot flag =
      if flag' = flag then write (s.slot flag) (row.assertedAt, row.withdrawn) else s.slot flag := by
  cases flag' <;> cases flag <;> rfl

/-- One round writes the row into the slots that it enters. -/
theorem Scan.Consistent.step {s : Scan} (h : s.Consistent st now) (row : Row) :
    (s.step st.authority st.directory now row).Consistent st now ∧
      ∀ flag, (s.step st.authority st.directory now row).slot flag =
        ((enters st now flag row).elim (s.slot flag) (write (s.slot flag))) := by
  obtain ⟨hverdict, hconsistent, hslot⟩ := h.verdict row.attestingKeyId
  have hrecord : ∀ s : Scan, ∀ flag', s.Consistent st now → (s.record flag' row).Consistent st now := by
    intro s flag' hs
    cases flag' <;> exact hs
  simp only [Scan.step, enters]
  cases hlive : flagRowIsLive row.expiresAt now with
  | false => exact ⟨h, fun _ => rfl⟩
  | true =>
    cases hclass : row.contentClass with
    | none => exact ⟨h, fun _ => rfl⟩
    | some flag' =>
      cases hwithdrawn : row.withdrawn with
      | false =>
        refine ⟨hrecord s flag' h, fun flag => ?_⟩
        by_cases hflag : flag' = flag <;> simp [slot_record, hflag, hwithdrawn]
      | true =>
        by_cases hadmitted :
            st.authority.admitsClear st.directory row.attestingKeyId now = .admitted
        · simp only [Bool.not_true, Bool.false_eq_true, if_false, if_true, hverdict, hadmitted,
            ne_eq, not_true_eq_false]
          refine ⟨hrecord _ flag' hconsistent, fun flag => ?_⟩
          by_cases hflag : flag' = flag <;> simp [slot_record, hslot, hflag, hwithdrawn]
        · simp only [Bool.not_true, Bool.false_eq_true, if_false, if_true, hverdict, hadmitted,
            ne_eq, not_false_eq_true]
          exact ⟨hconsistent, fun flag => by simp [hslot]⟩

/-- The entries of a class, in the order of the rows. -/
def entries (st : RevealState) (now : Int) (rows : List Row) (flag : ContentFlag) :
    List (Int × Bool) :=
  rows.filterMap (enters st now flag)

theorem slot_scan (rows : List Row) {s : Scan} (h : s.Consistent st now) (flag : ContentFlag) :
    (rows.foldl (Scan.step st.authority st.directory now) s).slot flag =
      (entries st now rows flag).foldl write (s.slot flag) := by
  induction rows generalizing s with
  | nil => rfl
  | cons row rows ih =>
    obtain ⟨hconsistent, hslot⟩ := h.step row
    rw [List.foldl_cons, ih hconsistent, hslot, entries, entries, List.filterMap_cons]
    cases enters st now flag row <;> rfl

/-- What the loop says of a class. -/
def present (st : RevealState) (now : Int) (rows : List Row) (flag : ContentFlag) : Bool :=
  (rows.foldl (Scan.step st.authority st.directory now) {}).present flag

theorem present_iff_slot :
    present st now rows flag = true ↔ ∃ t, Newest.slot (entries st now rows flag) = some (t, false) := by
  have hstart : ({} : Scan).Consistent st now := fun _ _ h => by cases h
  have hslot := slot_scan rows hstart flag
  have hempty : ({} : Scan).slot flag = none := by cases flag <;> rfl
  rw [hempty] at hslot
  rw [present, Scan.present, hslot, ← Newest.slot]
  rcases hcases : Newest.slot (entries st now rows flag) with _ | ⟨t, _ | _⟩ <;> simp

/-! ### What the newest rows say -/

theorem mem_entries {e : Int × Bool} :
    e ∈ entries st now rows flag ↔ ∃ row ∈ rows,
      (Flags now flag row ∧ e = (row.assertedAt, false)) ∨
      (Clears st now flag row ∧ e = (row.assertedAt, true)) := by
  simp only [entries, List.mem_filterMap, enters_eq_some_iff]

theorem le_of_isNewest {e : Int × Bool} (h : IsNewest e (entries st now rows flag)) {r : Row}
    (hr : r ∈ rows) (henters : Flags now flag r ∨ Clears st now flag r) : r.assertedAt ≤ e.1 := by
  rcases henters with hflags | hclears
  · exact h.2 (r.assertedAt, false) (mem_entries.mpr ⟨r, hr, Or.inl ⟨hflags, rfl⟩⟩)
  · exact h.2 (r.assertedAt, true) (mem_entries.mpr ⟨r, hr, Or.inr ⟨hclears, rfl⟩⟩)

theorem flagged_iff_newest :
    Flagged st now rows flag ↔ ∃ t, IsNewest (t, false) (entries st now rows flag) := by
  constructor
  · rintro ⟨row, hrow, hflags, hwithdrawals⟩
    have hentry : (row.assertedAt, false) ∈ entries st now rows flag :=
      mem_entries.mpr ⟨row, hrow, Or.inl ⟨hflags, rfl⟩⟩
    obtain ⟨e, hnewest, hle⟩ := exists_newest hentry
    obtain ⟨r, hr, ⟨hr', rfl⟩ | ⟨hr', rfl⟩⟩ := mem_entries.mp hnewest.1
    · exact ⟨r.assertedAt, hnewest⟩
    · -- the newest entry is a withdrawal, so the flag is as new
      have heq : row.assertedAt = r.assertedAt := le_antisymm hle (hwithdrawals r hr hr')
      refine ⟨row.assertedAt, hentry, fun e' he' => ?_⟩
      exact heq ▸ hnewest.2 e' he'
  · rintro ⟨t, hnewest⟩
    obtain ⟨row, hrow, ⟨hflags, heq⟩ | ⟨-, heq⟩⟩ := mem_entries.mp hnewest.1
    · obtain ⟨rfl, -⟩ := Prod.mk.inj heq
      exact ⟨row, hrow, hflags, fun w hw hclears => le_of_isNewest hnewest hw (Or.inr hclears)⟩
    · cases (Prod.mk.inj heq).2

theorem tied_iff_newest :
    Tied st now rows flag ↔ ∃ t, IsNewest (t, false) (entries st now rows flag) ∧
      IsNewest (t, true) (entries st now rows flag) := by
  constructor
  · rintro ⟨row, hrow, w, hw, hflags, hclears, heq, hle⟩
    have hbound : ∀ e ∈ entries st now rows flag, e.1 ≤ row.assertedAt := by
      intro e he
      obtain ⟨r, hr, ⟨hr', rfl⟩ | ⟨hr', rfl⟩⟩ := mem_entries.mp he
      · exact hle r hr (Or.inl hr')
      · exact hle r hr (Or.inr hr')
    refine ⟨row.assertedAt, ⟨mem_entries.mpr ⟨row, hrow, Or.inl ⟨hflags, rfl⟩⟩, hbound⟩, ?_, hbound⟩
    exact mem_entries.mpr ⟨w, hw, Or.inr ⟨hclears, by rw [heq]⟩⟩
  · rintro ⟨t, hflag, hclear⟩
    obtain ⟨row, hrow, ⟨hflags, heq⟩ | ⟨-, heq⟩⟩ := mem_entries.mp hflag.1
    · obtain ⟨w, hw, ⟨-, heq'⟩ | ⟨hclears, heq'⟩⟩ := mem_entries.mp hclear.1
      · cases (Prod.mk.inj heq').2
      · obtain ⟨rfl, -⟩ := Prod.mk.inj heq
        refine ⟨row, hrow, w, hw, hflags, hclears, (Prod.mk.inj heq').1.symm, fun r hr hr' => ?_⟩
        exact le_of_isNewest hflag hr hr'
    · cases (Prod.mk.inj heq).2

theorem Tied.flagged (h : Tied st now rows flag) : Flagged st now rows flag := by
  obtain ⟨t, hnewest, -⟩ := tied_iff_newest.mp h
  exact flagged_iff_newest.mpr ⟨t, hnewest⟩

theorem flagged_of_present (h : present st now rows flag = true) : Flagged st now rows flag := by
  obtain ⟨t, hslot⟩ := present_iff_slot.mp h
  exact flagged_iff_newest.mpr ⟨t, slot_newest hslot⟩

theorem present_of_firm (h : Firm st now rows flag) : present st now rows flag = true := by
  obtain ⟨t, hnewest⟩ := flagged_iff_newest.mp h.1
  rcases slot_cases (entries st now rows flag) with ⟨hempty, -⟩ | ⟨⟨t', b⟩, hslot, hheld⟩
  · rw [hempty] at hnewest
    cases hnewest.1
  · have heq : t' = t := le_antisymm (hnewest.2 _ hheld.1) (hheld.2 _ hnewest.1)
    subst heq
    cases b with
    | false => exact present_iff_slot.mpr ⟨t', hslot⟩
    | true => exact absurd (tied_iff_newest.mpr ⟨t', hnewest, hheld⟩) h.2

/-! ### The order of the rows -/

theorem flagged_perm (h : rows'.Perm rows) :
    Flagged st now rows' flag ↔ Flagged st now rows flag := by
  simp only [Flagged, h.mem_iff]

theorem tied_perm (h : rows'.Perm rows) : Tied st now rows' flag ↔ Tied st now rows flag := by
  simp only [Tied, h.mem_iff]

/-- The same rows, with the withdrawals at the end, or with the flags at the end. -/
def lastBy (withdrawn : Bool) (rows : List Row) : List Row :=
  rows.filter (fun row => !decide (row.withdrawn = withdrawn)) ++
    rows.filter (fun row => decide (row.withdrawn = withdrawn))

theorem lastBy_perm (b : Bool) (rows : List Row) : (lastBy b rows).Perm rows :=
  List.perm_append_comm.trans (List.filter_append_perm _ rows)

/-- A newest entry is held when its kind comes last. -/
theorem slot_lastBy {t : Int} {b : Bool} (h : IsNewest (t, b) (entries st now rows flag)) :
    ∃ t', Newest.slot (entries st now (lastBy b rows) flag) = some (t', b) := by
  have hperm : (entries st now (lastBy b rows) flag).Perm (entries st now rows flag) :=
    (lastBy_perm b rows).filterMap _
  have hnewest := h.perm hperm.symm
  rw [entries, lastBy, List.filterMap_append] at hnewest ⊢
  have hkind : ∀ e ∈ (rows.filter fun row => decide (row.withdrawn = b)).filterMap
      (enters st now flag), e.2 = b := by
    intro e he
    obtain ⟨row, hrow, henters⟩ := List.mem_filterMap.mp he
    rw [← of_decide_eq_true (List.mem_filter.mp hrow).2]
    rcases enters_eq_some_iff.mp henters with ⟨hflags, rfl⟩ | ⟨hclears, rfl⟩
    · exact hflags.2.2.symm
    · exact hclears.2.2.1.symm
  have hlast : (t, b) ∈ (rows.filter fun row => decide (row.withdrawn = b)).filterMap
      (enters st now flag) := by
    obtain ⟨row, hrow, henters⟩ := List.mem_filterMap.mp h.1
    refine List.mem_filterMap.mpr ⟨row, List.mem_filter.mpr ⟨hrow, decide_eq_true ?_⟩, henters⟩
    rcases enters_eq_some_iff.mp henters with ⟨hflags, heq⟩ | ⟨hclears, heq⟩
    · rw [(Prod.mk.inj heq).2, hflags.2.2]
    · rw [(Prod.mk.inj heq).2, hclears.2.2.1]
  obtain ⟨⟨t', b'⟩, hheld, hslot⟩ := slot_mem_of_newest hnewest hlast
  exact ⟨t', by rw [hslot, ← hkind _ hheld]⟩

theorem present_flagsLast :
    present st now (lastBy false rows) flag = true ↔ Flagged st now rows flag := by
  constructor
  · intro h
    exact (flagged_perm (lastBy_perm false rows)).mp (flagged_of_present h)
  · intro h
    obtain ⟨t, hnewest⟩ := flagged_iff_newest.mp h
    exact present_iff_slot.mpr (slot_lastBy hnewest)

theorem present_withdrawalsLast :
    present st now (lastBy true rows) flag = true ↔ Firm st now rows flag := by
  have hflagged : Flagged st now (lastBy true rows) flag ↔ Flagged st now rows flag :=
    flagged_perm (lastBy_perm true rows)
  have htied : Tied st now (lastBy true rows) flag ↔ Tied st now rows flag :=
    tied_perm (lastBy_perm true rows)
  constructor
  · intro h
    refine ⟨hflagged.mp (flagged_of_present h), fun ht => ?_⟩
    obtain ⟨t, -, hclear⟩ := tied_iff_newest.mp ht
    obtain ⟨t', hslot⟩ := slot_lastBy hclear
    obtain ⟨t'', hslot'⟩ := present_iff_slot.mp h
    rw [hslot] at hslot'
    cases (Prod.mk.inj (Option.some.inj hslot')).2
  · intro h
    exact present_of_firm ⟨hflagged.mpr h.1, fun ht => h.2 (htied.mp ht)⟩

/-- A flag that comes last is held when nothing is newer. -/
theorem present_of_newest_flag (hflags : Flags now flag row)
    (hle : ∀ r ∈ rows, r.assertedAt ≤ row.assertedAt) :
    present st now (rows ++ [row]) flag = true := by
  have henters : enters st now flag row = some (row.assertedAt, false) :=
    enters_eq_some_iff.mpr (Or.inl ⟨hflags, rfl⟩)
  refine present_iff_slot.mpr ⟨row.assertedAt, ?_⟩
  rw [entries, List.filterMap_append, List.filterMap_cons, henters, List.filterMap_nil]
  apply slot_append_newest
  intro e he
  obtain ⟨r, hr, ⟨-, rfl⟩ | ⟨-, rfl⟩⟩ := mem_entries.mp he
  · exact hle r hr
  · exact hle r hr

/-! ### Rows of other keys -/

/-- Rows of keys outside the authority are added, anywhere. -/
structure Outsiders (authority : FlagAuthority) (rows rows' : List Row) : Prop where
  sublist : rows.Sublist rows'
  listed : rows'.filter (fun row => authority.lists row.attestingKeyId) =
    rows.filter fun row => authority.lists row.attestingKeyId

theorem Outsiders.clears (h : Outsiders st.authority rows rows') {w : Row} (hw : w ∈ rows')
    (hclears : Clears st now flag w) : w ∈ rows := by
  have hmem : w ∈ rows'.filter fun row => st.authority.lists row.attestingKeyId :=
    List.mem_filter.mpr ⟨hw, List.contains_iff_mem.mpr hclears.2.2.2.1⟩
  rw [h.listed] at hmem
  exact (List.mem_filter.mp hmem).1

theorem Outsiders.flagged (h : Outsiders st.authority rows rows')
    (hflagged : Flagged st now rows flag) : Flagged st now rows' flag := by
  obtain ⟨row, hrow, hflags, hle⟩ := hflagged
  exact ⟨row, h.sublist.subset hrow, hflags, fun w hw hclears => hle w (h.clears hw hclears) hclears⟩

theorem Outsiders.firm (h : Outsiders st.authority rows rows') (hfirm : Firm st now rows flag) :
    Firm st now rows' flag := by
  refine ⟨h.flagged hfirm.1, ?_⟩
  rintro ⟨row, hrow, w, hw, hflags, hclears, heq, hle⟩
  -- a flag of the rows that were there ties with the withdrawal already
  obtain ⟨r, hr, hrflags, hrle⟩ := hfirm.1
  have hw' := h.clears hw hclears
  have hrw : w.assertedAt ≤ r.assertedAt := hrle w hw' hclears
  have hrr : r.assertedAt ≤ row.assertedAt := hle r (h.sublist.subset hr) (Or.inl hrflags)
  have hrw' : w.assertedAt = r.assertedAt := by omega
  refine hfirm.2 ⟨r, hr, w, hw', hrflags, hclears, hrw', fun x hx hxenters => ?_⟩
  have hxle := hle x (h.sublist.subset hx) hxenters
  omega

/-! ## The answer -/

/-- The viewer's scoped consent for the class resolves to granted. -/
def Consented (st : RevealState) (now' : Int) (viewerKeyId subjectKeyId : String)
    (flag : ContentFlag) : Prop :=
  st.directory.resolveScopedConsent subjectKeyId viewerKeyId "view" (some flag.asStr) now' =
    .ok .granted

/-- What is answered when the class is the one that counts. -/
def gateAnswer (st : RevealState) (now' : Int) (viewerKeyId subjectKeyId : String)
    (flag : ContentFlag) : Answer :=
  match st.directory.resolveScopedConsent subjectKeyId viewerKeyId "view" (some flag.asStr) now' with
  | .ok state => (infohazardRevealDecision (some flag) (decide (state = .granted))).answer
  | .error e => err 500 ("resolve_scoped_consent: " ++ e)

/-- The class that counts, given those that are present. -/
def chosen (present : ContentFlag → Bool) : Option ContentFlag → Option ContentFlag
  | some flag => if present flag then some flag else none
  | none =>
    if present .infohazard then some .infohazard
    else if present .reported then some .reported
    else none

/-- The answer, when the rows come in an order that finds the classes `P`. -/
def answerOf (st : RevealState) (now' : Int) (viewer subject : String) (P : ContentFlag → Bool)
    (requested : Option ContentFlag) : Answer :=
  (chosen P requested).elim RevealDecision.allow.answer (gateAnswer st now' viewer subject)

variable {viewer subject : String} {requested : Option ContentFlag}

theorem subjectFlag_eq (hrows : st.directory.attestationsToAll subject = .ok rows) :
    subjectFlag st.directory now subject requested st.authority =
      .ok (chosen (present st now rows) requested) := by
  rw [subjectFlag, hrows]
  cases requested with
  | some flag => rfl
  | none => rfl

theorem reveal_eq (hrows : st.directory.attestationsToAll subject = .ok rows) :
    reveal st now now' (.ok viewer) (.ok ⟨subject, requested⟩) =
      answerOf st now' viewer subject (present st now rows) requested := by
  rw [reveal, revealDecision, subjectFlag_eq hrows, answerOf]
  cases chosen (present st now rows) requested with
  | none => rfl
  | some flag =>
    simp only [gateAnswer, Option.elim_some]
    cases hconsent : st.directory.resolveScopedConsent subject viewer "view" (some flag.asStr) now'
    <;> simp only [bind, Except.bind, hconsent] <;> rfl

def Allows (a : Answer) : Prop := a = RevealDecision.allow.answer

def Withholds (a : Answer) : Prop :=
  ∃ flag required, a = (RevealDecision.interstitial flag required).answer

instance : DecidablePred Allows := fun a => inferInstanceAs (Decidable (a = _))

/-- The same node, with other rows about the subject. -/
def RevealState.withRows (st : RevealState) (subjectKeyId : String) (rows : List Row) :
    RevealState :=
  { st with directory := st.directory.withRows subjectKeyId rows }

theorem reveal_withRows (rows : List Row) :
    reveal (st.withRows subject rows) now now' (.ok viewer) (.ok ⟨subject, requested⟩) =
      answerOf st now' viewer subject (present st now rows) requested := by
  have hrows : (st.withRows subject rows).directory.attestationsToAll subject = .ok rows :=
    Function.update_self ..
  exact reveal_eq hrows

/-- The interstitial of the class. -/
def withheldAnswer (flag : ContentFlag) : Answer :=
  (infohazardRevealDecision (some flag) false).answer

theorem gateAnswer_cases (st : RevealState) (now' : Int) (viewer subject : String)
    (flag : ContentFlag) :
    (Consented st now' viewer subject flag ∧
      gateAnswer st now' viewer subject flag = RevealDecision.allow.answer) ∨
    (∃ state ≠ ConsentState.granted,
      st.directory.resolveScopedConsent subject viewer "view" (some flag.asStr) now' = .ok state ∧
      gateAnswer st now' viewer subject flag = withheldAnswer flag) ∨
    ∃ e, st.directory.resolveScopedConsent subject viewer "view" (some flag.asStr) now' = .error e ∧
      gateAnswer st now' viewer subject flag = err 500 ("resolve_scoped_consent: " ++ e) := by
  rw [gateAnswer, Consented]
  cases st.directory.resolveScopedConsent subject viewer "view" (some flag.asStr) now' with
  | error e => exact Or.inr (Or.inr ⟨e, rfl, rfl⟩)
  | ok state =>
    by_cases hstate : state = .granted
    · subst hstate
      exact Or.inl ⟨rfl, rfl⟩
    · refine Or.inr (Or.inl ⟨state, hstate, rfl, ?_⟩)
      simp only [decide_eq_false hstate, withheldAnswer]

theorem not_allows_withheldAnswer : ¬ Allows (withheldAnswer flag) := by
  cases flag <;> decide

theorem not_allows_err (e : String) : ¬ Allows (err 500 e) :=
  fun h => absurd (congrArg Answer.status h) (by decide : (500 : Nat) ≠ 200)

theorem not_withholds_err (e : String) : ¬ Withholds (err 500 e) := by
  rintro ⟨flag, required, h⟩
  exact absurd (congrArg Answer.status h) (by decide : (500 : Nat) ≠ 403)

theorem allows_gateAnswer :
    Allows (gateAnswer st now' viewer subject flag) ↔ Consented st now' viewer subject flag := by
  rcases gateAnswer_cases st now' viewer subject flag with ⟨hconsented, hgate⟩ |
    ⟨state, hstate, hconsent, hgate⟩ | ⟨e, hconsent, hgate⟩
  · exact ⟨fun _ => hconsented, fun _ => hgate⟩
  · refine ⟨fun h => absurd (hgate ▸ h) not_allows_withheldAnswer, fun h => ?_⟩
    rw [Consented, hconsent] at h
    exact absurd (Except.ok.inj h) hstate
  · refine ⟨fun h => absurd (hgate ▸ h) (not_allows_err _), fun h => ?_⟩
    rw [Consented, hconsent] at h
    cases h

/-- The answers for the two classes differ, unless they are allow or one error. -/
theorem error_of_gateAnswer_eq
    (hallow : ¬ Consented st now' viewer subject .infohazard)
    (heq : gateAnswer st now' viewer subject .infohazard =
      gateAnswer st now' viewer subject .reported) :
    ∃ e, st.directory.resolveScopedConsent subject viewer "view" (some "infohazard") now' =
        .error e ∧
      st.directory.resolveScopedConsent subject viewer "view" (some "reported") now' =
        .error e := by
  have hreported := gateAnswer_cases st now' viewer subject .reported
  rcases gateAnswer_cases st now' viewer subject .infohazard with ⟨hconsented, -⟩ |
    ⟨-, -, -, hgate⟩ | ⟨e, hconsent, hgate⟩
  · exact absurd hconsented hallow
  · rw [← heq, hgate] at hreported
    rcases hreported with ⟨-, hgate'⟩ | ⟨-, -, -, hgate'⟩ | ⟨e', -, hgate'⟩
    · exact absurd hgate' not_allows_withheldAnswer
    · exact absurd hgate' (by decide)
    · exact absurd (congrArg Answer.status hgate') (by decide : (403 : Nat) ≠ 500)
  · rw [← heq, hgate] at hreported
    rcases hreported with ⟨-, hgate'⟩ | ⟨-, -, -, hgate'⟩ | ⟨e', hconsent', hgate'⟩
    · exact absurd hgate' (not_allows_err _)
    · exact absurd (congrArg Answer.status hgate') (by decide : (500 : Nat) ≠ 403)
    · have hbody : Json.obj [("error", .str ("resolve_scoped_consent: " ++ e))] =
          Json.obj [("error", .str ("resolve_scoped_consent: " ++ e'))] :=
        congrArg Answer.body hgate'
      have htext : "resolve_scoped_consent: " ++ e = "resolve_scoped_consent: " ++ e' := by
        simpa using hbody
      exact ⟨e, hconsent, by rw [(String.append_right_inj _).mp htext]; exact hconsent'⟩

/-! ## When the gate keeps its promise -/

/-- What the gate promises about one request: it allows nothing that is flagged in a class without
    a consent to that class; the class that the request names opens nothing; the order of the rows
    changes nothing; and rows of keys outside the authority open nothing. -/
structure Protects (st : RevealState) (now now' : Int) (viewer subject : String) (rows : List Row)
    (requested : Option ContentFlag) : Prop where
  consented : Allows (reveal st now now' (.ok viewer) (.ok ⟨subject, requested⟩)) →
    ∀ flag, Flagged st now rows flag → Consented st now' viewer subject flag
  choice : ¬ Allows (reveal st now now' (.ok viewer) (.ok ⟨subject, none⟩)) →
    ¬ Allows (reveal st now now' (.ok viewer) (.ok ⟨subject, requested⟩))
  order : ∀ rows', rows'.Perm rows →
    reveal (st.withRows subject rows') now now' (.ok viewer) (.ok ⟨subject, requested⟩) =
      reveal st now now' (.ok viewer) (.ok ⟨subject, requested⟩)
  outsiders : ∀ rows', Outsiders st.authority rows rows' →
    Withholds (reveal st now now' (.ok viewer) (.ok ⟨subject, requested⟩)) →
      ¬ Allows (reveal (st.withRows subject rows') now now' (.ok viewer) (.ok ⟨subject, requested⟩))

/-- The class that counts is the same in every order of the rows, is not consented to, and stays
    the one that counts, or gives way to a class that is not consented to either. -/
def Held (st : RevealState) (now now' : Int) (viewer subject : String) (rows : List Row) :
    Option ContentFlag → Prop
  | some flag => Firm st now rows flag ∧ ¬ Consented st now' viewer subject flag
  | none =>
    (Firm st now rows .infohazard ∧ ¬ Consented st now' viewer subject .infohazard) ∨
    (¬ Flagged st now rows .infohazard ∧ Firm st now rows .reported ∧
      ¬ Consented st now' viewer subject .reported ∧
      (¬ Consented st now' viewer subject .infohazard ∨
        ∃ e, st.directory.resolveScopedConsent subject viewer "view" (some "reported") now' =
          .error e)) ∨
    (Tied st now rows .infohazard ∧ Firm st now rows .reported ∧
      ∃ e, st.directory.resolveScopedConsent subject viewer "view" (some "infohazard") now' =
          .error e ∧
        st.directory.resolveScopedConsent subject viewer "view" (some "reported") now' = .error e)

theorem answerOf_consented {P : ContentFlag → Bool}
    (h : ∀ flag, P flag = true → Consented st now' viewer subject flag) :
    answerOf st now' viewer subject P requested = RevealDecision.allow.answer := by
  have hchosen : ∀ flag, chosen P requested = some flag → P flag = true := by
    intro flag hflag
    cases requested with
    | some f =>
      by_cases hf : P f = true
      · rw [chosen, if_pos hf] at hflag
        exact Option.some.inj hflag ▸ hf
      · rw [chosen, if_neg hf] at hflag
        cases hflag
    | none =>
      by_cases hinfohazard : P .infohazard = true
      · rw [chosen, if_pos hinfohazard] at hflag
        exact Option.some.inj hflag ▸ hinfohazard
      · by_cases hreported : P .reported = true
        · rw [chosen, if_neg hinfohazard, if_pos hreported] at hflag
          exact Option.some.inj hflag ▸ hreported
        · rw [chosen, if_neg hinfohazard, if_neg hreported] at hflag
          cases hflag
  rw [answerOf]
  cases hc : chosen P requested with
  | none => rfl
  | some flag => exact allows_gateAnswer.mpr (h flag (hchosen flag hc))

theorem answerOf_infohazard {P : ContentFlag → Bool} (h : P .infohazard = true) :
    answerOf st now' viewer subject P none = gateAnswer st now' viewer subject .infohazard := by
  rw [answerOf, chosen, if_pos h, Option.elim_some]

theorem answerOf_reported {P : ContentFlag → Bool} (h : P .infohazard = false)
    (hreported : P .reported = true) :
    answerOf st now' viewer subject P none = gateAnswer st now' viewer subject .reported := by
  rw [answerOf, chosen, h, hreported, if_neg Bool.false_ne_true, if_pos rfl, Option.elim_some]

theorem answerOf_unflagged {P : ContentFlag → Bool} (h : P .infohazard = false)
    (hreported : P .reported = false) :
    answerOf st now' viewer subject P none = RevealDecision.allow.answer := by
  rw [answerOf, chosen, h, hreported, if_neg Bool.false_ne_true, if_neg Bool.false_ne_true,
    Option.elim_none]

/-- Between the classes that are firm and those that are flagged, the answer is the same. -/
theorem Held.same_answer (h : Held st now now' viewer subject rows requested) :
    ∃ a, ¬ Allows a ∧ ∀ P : ContentFlag → Bool,
      (∀ flag, Firm st now rows flag → P flag = true) →
      (∀ flag, P flag = true → Flagged st now rows flag) →
        answerOf st now' viewer subject P requested = a := by
  cases requested with
  | some flag =>
    obtain ⟨hfirm, hconsent⟩ := h
    refine ⟨_, mt allows_gateAnswer.mp hconsent, fun P hP _ => ?_⟩
    rw [answerOf, chosen, if_pos (hP flag hfirm), Option.elim_some]
  | none =>
    rcases h with ⟨hfirm, hconsent⟩ | ⟨hunflagged, hfirm, hconsent, -⟩ | ⟨-, hfirm, e, hinf, hrep⟩
    · exact ⟨_, mt allows_gateAnswer.mp hconsent, fun P hP _ => answerOf_infohazard (hP _ hfirm)⟩
    · refine ⟨_, mt allows_gateAnswer.mp hconsent, fun P hP hflagged => ?_⟩
      exact answerOf_reported (Bool.eq_false_iff.mpr fun hp => hunflagged (hflagged _ hp))
        (hP _ hfirm)
    · refine ⟨_, not_allows_err ("resolve_scoped_consent: " ++ e), fun P hP _ => ?_⟩
      cases hp : P .infohazard with
      | true => rw [answerOf_infohazard hp, gateAnswer, ContentFlag.asStr, hinf]
      | false => rw [answerOf_reported hp (hP _ hfirm), gateAnswer, ContentFlag.asStr, hrep]

/-- More rows of other keys leave a gate shut that withholds. -/
theorem Held.outsiders (h : Held st now now' viewer subject rows requested)
    (houtsiders : Outsiders st.authority rows rows')
    (hwithholds : Withholds (answerOf st now' viewer subject (present st now rows) requested)) :
    ¬ Allows (answerOf st now' viewer subject (present st now rows') requested) := by
  have hpresent : ∀ flag, Firm st now rows flag → present st now rows' flag = true :=
    fun flag hfirm => present_of_firm (houtsiders.firm hfirm)
  cases requested with
  | some flag =>
    rw [answerOf, chosen, if_pos (hpresent flag h.1), Option.elim_some]
    exact mt allows_gateAnswer.mp h.2
  | none =>
    rcases h with ⟨hfirm, hconsent⟩ | ⟨hunflagged, hfirm, hconsent, hother⟩ |
      ⟨-, hfirm, e, hinf, hrep⟩
    · rw [answerOf_infohazard (hpresent _ hfirm)]
      exact mt allows_gateAnswer.mp hconsent
    · cases hp : present st now rows' .infohazard with
      | false =>
        rw [answerOf_reported hp (hpresent _ hfirm)]
        exact mt allows_gateAnswer.mp hconsent
      | true =>
        rw [answerOf_infohazard hp]
        rcases hother with hother | ⟨e, herror⟩
        · exact mt allows_gateAnswer.mp hother
        · -- the consent could not be read, and that was no interstitial
          have hnone : present st now rows .infohazard = false :=
            Bool.eq_false_iff.mpr fun hp' => hunflagged (flagged_of_present hp')
          rw [answerOf_reported hnone (present_of_firm hfirm), gateAnswer, ContentFlag.asStr,
            herror] at hwithholds
          exact absurd hwithholds (not_withholds_err _)
    · have herr : answerOf st now' viewer subject (present st now rows) none =
          err 500 ("resolve_scoped_consent: " ++ e) := by
        cases hp : present st now rows .infohazard with
        | true => rw [answerOf_infohazard hp, gateAnswer, ContentFlag.asStr, hinf]
        | false =>
          rw [answerOf_reported hp (present_of_firm hfirm), gateAnswer, ContentFlag.asStr, hrep]
      rw [herr] at hwithholds
      exact absurd hwithholds (not_withholds_err _)

/-- A row of a stranger that flags the subject, newer than the others. -/
theorem exists_outsider (authority : FlagAuthority) (now : Int) (rows : List Row)
    (flag : ContentFlag) :
    ∃ row, Outsiders authority rows (rows ++ [row]) ∧ Flags now flag row ∧
      ∀ r ∈ rows, r.assertedAt ≤ row.assertedAt := by
  obtain ⟨key, hkey⟩ := Infinite.exists_notMem_finset authority.emitters.toFinset
  obtain ⟨t, ht⟩ := Finset.exists_le (rows.map Row.assertedAt).toFinset
  have hlists : authority.lists key = false := by
    simpa [FlagAuthority.lists] using hkey
  refine ⟨⟨key, .obj [("dimension", .str flag.dimensionPrefix)], t, none⟩,
    ⟨List.sublist_append_left _ _, ?_⟩, ?_, fun r hr => ?_⟩
  · rw [List.filter_append, List.filter_cons_of_neg (by simp [hlists]), List.filter_nil,
      List.append_nil]
  · cases flag <;> exact ⟨rfl, rfl, rfl⟩
  · exact ht _ (List.mem_toFinset.mpr (List.mem_map_of_mem hr))

/-- Where some class is flagged and not consented to, the promise needs a class that holds. -/
theorem Protects.held (h : Protects st now now' viewer subject rows requested)
    (hrows : st.directory.attestationsToAll subject = .ok rows)
    (hopen : ∃ flag, Flagged st now rows flag ∧ ¬ Consented st now' viewer subject flag) :
    Held st now now' viewer subject rows requested := by
  obtain ⟨g, hflagged, hconsent⟩ := hopen
  have hshut : ¬ Allows (answerOf st now' viewer subject (present st now rows) requested) := by
    intro hallows
    exact hconsent (h.consented (reveal_eq hrows ▸ hallows) g hflagged)
  have horder : ∀ b, answerOf st now' viewer subject (present st now (lastBy b rows)) requested =
      answerOf st now' viewer subject (present st now rows) requested := by
    intro b
    have heq := h.order _ (lastBy_perm b rows)
    rw [reveal_withRows, reveal_eq hrows] at heq
    exact heq
  -- the two orders that find the fewest and the most classes
  have hfew := horder true
  have hmany := horder false
  have hunfirm : ∀ flag, ¬ Firm st now rows flag → present st now (lastBy true rows) flag = false :=
    fun flag hfirm => Bool.eq_false_iff.mpr fun hp => hfirm (present_withdrawalsLast.mp hp)
  cases requested with
  | some flag =>
    by_cases hfirm : Firm st now rows flag
    · refine ⟨hfirm, fun hc => hshut ?_⟩
      rw [answerOf, chosen, if_pos (present_of_firm hfirm), Option.elim_some]
      exact allows_gateAnswer.mpr hc
    · rw [answerOf, chosen, hunfirm flag hfirm, if_neg Bool.false_ne_true, Option.elim_none] at hfew
      exact absurd hfew.symm hshut
  | none =>
    have hreported : ¬ Firm st now rows .infohazard → Firm st now rows .reported := by
      intro hinf
      by_contra hrep
      rw [answerOf_unflagged (hunfirm _ hinf) (hunfirm _ hrep)] at hfew
      exact hshut hfew.symm
    by_cases hinf : Flagged st now rows .infohazard
    · rw [answerOf_infohazard (present_flagsLast.mpr hinf)] at hmany
      have hconsent' : ¬ Consented st now' viewer subject .infohazard :=
        fun hc => hshut (hmany ▸ allows_gateAnswer.mpr hc)
      by_cases htied : Tied st now rows .infohazard
      · have hfirm : ¬ Firm st now rows .infohazard := fun hf => hf.2 htied
        have hrep := hreported hfirm
        rw [answerOf_reported (hunfirm _ hfirm) (present_withdrawalsLast.mpr hrep)] at hfew
        exact Or.inr (Or.inr ⟨htied, hrep,
          error_of_gateAnswer_eq hconsent' (hmany.trans hfew.symm)⟩)
      · exact Or.inl ⟨⟨hinf, htied⟩, hconsent'⟩
    · have hrep := hreported fun hf => hinf hf.1
      have hnone : present st now rows .infohazard = false :=
        Bool.eq_false_iff.mpr fun hp => hinf (flagged_of_present hp)
      have hanswer : answerOf st now' viewer subject (present st now rows) none =
          gateAnswer st now' viewer subject .reported :=
        answerOf_reported hnone (present_of_firm hrep)
      have hconsent' : ¬ Consented st now' viewer subject .reported :=
        fun hc => hshut (hanswer ▸ allows_gateAnswer.mpr hc)
      refine Or.inr (Or.inl ⟨hinf, hrep, hconsent', ?_⟩)
      by_contra hother
      push Not at hother
      obtain ⟨hc, hread⟩ := hother
      -- a stranger's flag of the class that is consented to opens the gate
      obtain ⟨row, houtsiders, hflags, hle⟩ := exists_outsider st.authority now rows .infohazard
      have hpresent : present st now (rows ++ [row]) .infohazard = true :=
        present_of_newest_flag hflags hle
      have hshut' := h.outsiders _ houtsiders
      rw [reveal_eq hrows, reveal_withRows] at hshut'
      rw [answerOf_infohazard hpresent, hanswer] at hshut'
      apply hshut' _ (allows_gateAnswer.mpr hc)
      rcases gateAnswer_cases st now' viewer subject .reported with ⟨hc', -⟩ | ⟨-, -, -, hgate⟩ |
        ⟨e, herror, -⟩
      · exact absurd hc' hconsent'
      · exact ⟨.reported, _, hgate⟩
      · exact absurd herror (hread e)

/-- **Exactness.** The gate keeps its promise about a request when the viewer has consented to
    every class in which the subject is flagged, or when the class that counts holds. -/
theorem reveal_protects_iff (hrows : st.directory.attestationsToAll subject = .ok rows) :
    Protects st now now' viewer subject rows requested ↔
      (∀ flag, Flagged st now rows flag → Consented st now' viewer subject flag) ∨
        Held st now now' viewer subject rows requested := by
  constructor
  · intro h
    by_cases hall : ∀ flag, Flagged st now rows flag → Consented st now' viewer subject flag
    · exact Or.inl hall
    · push Not at hall
      exact Or.inr (h.held hrows hall)
  · rintro (hall | hheld)
    · -- every order allows, and so does every class
      have hallows : ∀ P : ContentFlag → Bool, (∀ flag, P flag = true → Flagged st now rows flag) →
          ∀ requested, answerOf st now' viewer subject P requested = RevealDecision.allow.answer :=
        fun P hP _ => answerOf_consented fun flag hflag => hall flag (hP flag hflag)
      have hpresent := hallows (present st now rows) fun _ => flagged_of_present
      refine ⟨fun _ => hall, fun hshut => ?_, fun rows' hperm => ?_, fun rows' _ hwithholds => ?_⟩
      · rw [reveal_eq hrows, hpresent none] at hshut
        exact absurd rfl hshut
      · rw [reveal_withRows, reveal_eq hrows, hpresent requested]
        exact hallows _ (fun _ hp => (flagged_perm hperm).mp (flagged_of_present hp)) requested
      · rw [reveal_eq hrows, hpresent requested] at hwithholds
        obtain ⟨flag, required, heq⟩ := hwithholds
        exact absurd (congrArg Answer.status heq) (by decide : (200 : Nat) ≠ 403)
    · obtain ⟨a, ha, hsame⟩ := hheld.same_answer
      have hanswer := hsame (present st now rows) (fun _ => present_of_firm)
        fun _ => flagged_of_present
      refine ⟨fun hallows => ?_, fun _ => ?_, fun rows' hperm => ?_, fun rows' hout hwithholds => ?_⟩
      · rw [reveal_eq hrows, hanswer] at hallows
        exact absurd hallows ha
      · rw [reveal_eq hrows, hanswer]
        exact ha
      · rw [reveal_withRows, reveal_eq hrows, hanswer]
        apply hsame
        · intro flag hfirm
          apply present_of_firm
          exact ⟨(flagged_perm hperm).mpr hfirm.1, fun ht => hfirm.2 ((tied_perm hperm).mp ht)⟩
        · exact fun flag hp => (flagged_perm hperm).mp (flagged_of_present hp)
      · rw [reveal_eq hrows] at hwithholds
        rw [reveal_withRows]
        exact hheld.outsiders hout hwithholds

/-! ### A request that names the other class -/

def exampleRow (attestingKeyId : String) (flag : ContentFlag) (assertedAt : Int) : Row :=
  ⟨attestingKeyId, .obj [("dimension", .str flag.dimensionPrefix)], assertedAt, none⟩

/-- A node that honours its own key, and a viewer who has consented to `consents`. -/
def exampleState (rows : List Row) (consents : List String) : RevealState where
  directory :=
    { attestationsToAll := fun _ => .ok rows
      revocationsFor := fun _ => .ok []
      resolveScopedConsent := fun _ _ _ contentClass _ =>
        .ok (if contentClass.any consents.contains then .granted else .unspecified) }
  authority := ⟨["substrate"]⟩

/-- The subject is flagged as an infohazard, and the viewer has consented to nothing. The request
    that names no class is withheld, and the request that names the other class is allowed. -/
theorem reveal_unprotected :
    let st := exampleState [exampleRow "substrate" .infohazard 1] []
    Flagged st 2 [exampleRow "substrate" .infohazard 1] .infohazard ∧
      ¬ Consented st 2 "viewer" "subject" .infohazard ∧
      ¬ Allows (reveal st 2 2 (.ok "viewer") (.ok ⟨"subject", none⟩)) ∧
      Allows (reveal st 2 2 (.ok "viewer") (.ok ⟨"subject", some .reported⟩)) := by
  refine ⟨?_, ?_, by decide, by decide⟩
  · refine ⟨_, List.mem_singleton.mpr rfl, ⟨rfl, rfl, rfl⟩, fun w hw _ => ?_⟩
    rw [List.mem_singleton.mp hw]
  · intro h
    cases Except.ok.inj h

theorem reveal_protects_consented :
    Protects (exampleState [exampleRow "substrate" .infohazard 1] ["infohazard", "reported"]) 2 2
      "viewer" "subject" [exampleRow "substrate" .infohazard 1] none :=
  (reveal_protects_iff rfl).mpr (Or.inl fun flag _ => by cases flag <;> rfl)

end CirisServer.Infohazard
