import CirisServer.ForStd.Except
import CirisServer.ForStd.Newest
import CirisServer.Native.RoomModeration

/-!
# Whose word a room's decision is

Anyone may write rows about an item. What a viewer is shown of it is decided by the flags of those
who hold the room's `moderate` duty, the rulings of those who hold its `review` duty, the filings
that the directory let in, and the viewer's own consent, the newest of each; not by the order in
which a node came by them.

Key results:
- `view_spec`: nodes that hold the same decisions show the same, whatever else they hold
- `withheld_iff`: when an item is withheld from a viewer
-/

namespace CirisServer.RoomModeration

open Infohazard (ContentFlag)
open Newest (Latest Untied)

/-- Who holds which duty of which room. -/
abbrev Duties : Type := String → String → String → Bool

/-- The directory knows the duties. -/
def Directory.Knows (dir : Directory) (duty : Duties) : Prop :=
  ∀ who room name, dir.isNamedModerator who room name = .ok (duty who room name)

variable {dir dir' : Directory} {duty : Duties} {room targetId flagId author viewer : String}
  {now : Int} {rows rows' consentRows consentRows' seen : List Attestation} {flag : ContentFlag}
  {r row : Attestation}

/-- A flag of the room. -/
def Flags (duty : Duties) (room targetId : String) (now : Int) (flag : ContentFlag)
    (r : Attestation) : Prop :=
  flagged room targetId now r = some flag ∧ duty r.attestingKeyId room "moderate" = true

/-- A filing against a flag. -/
def Files (flagId : String) (r : Attestation) : Prop :=
  appeals flagId r = true ∧ r.str "outcome" = none

/-- A ruling of the room on an appeal. -/
def Rules (duty : Duties) (room flagId : String) (r : Attestation) : Prop :=
  appeals flagId r = true ∧ (r.str "outcome").isSome = true ∧
    duty r.attestingKeyId room "review" = true

instance : Decidable (Flags duty room targetId now flag r) := inferInstanceAs (Decidable (_ ∧ _))
instance : Decidable (Files flagId r) := inferInstanceAs (Decidable (_ ∧ _))
instance : Decidable (Rules duty room flagId r) := inferInstanceAs (Decidable (_ ∧ _ ∧ _))

theorem Directory.Knows.holds (h : dir.Knows duty) (who room name : String) :
    dir.holds who room name = .ok (duty who room name) := by
  rw [Directory.holds, h]
  rfl

/-! ## The loops -/

/-- A slot that takes a newer row holds the newest. -/
theorem holds_newer {P : Attestation → Prop} {slot : Option Attestation}
    (h : Latest (·.assertedAt) P seen slot) (hr : P row) :
    Latest (·.assertedAt) P (seen ++ [row]) (newer slot row) := by
  unfold newer
  cases slot with
  | none => exact h.take hr fun y hy => by cases hy
  | some held =>
    by_cases hlt : held.assertedAt < row.assertedAt
    · rw [if_pos (by simpa using hlt)]
      apply h.take hr
      intro y hy
      cases hy
      exact le_of_lt hlt
    · rw [if_neg (by simpa using hlt)]
      exact h.keep (not_lt.mp hlt)

/-- The flags that are found are the newest of the room, of each class. -/
theorem exists_newestFlags (h : dir.Knows duty) (room targetId : String) (now : Int)
    (rows : List Attestation) {newest : ContentFlag → Option Attestation}
    (hseen : ∀ flag, Latest (·.assertedAt) (Flags duty room targetId now flag) seen (newest flag)) :
    ∃ found, newestFlags dir room targetId now newest rows = .ok found ∧
      ∀ flag, Latest (·.assertedAt) (Flags duty room targetId now flag) (seen ++ rows)
        (found flag) := by
  induction rows generalizing seen newest with
  | nil =>
    rw [List.append_nil]
    exact ⟨newest, rfl, hseen⟩
  | cons row rows ih =>
    rw [List.append_cons]
    unfold newestFlags
    cases hrow : flagged room targetId now row with
    | none =>
      exact ih fun flag => (hseen flag).skip fun hflags => by simp [hflags.1] at hrow
    | some flag' =>
      rw [h.holds]
      cases hduty : duty row.attestingKeyId room "moderate" with
      | false =>
        have hskip : ∀ flag, ¬ Flags duty room targetId now flag row := fun flag hflags => by
          simp [hflags.2] at hduty
        exact ih fun flag => (hseen flag).skip (hskip flag)
      | true =>
        apply ih
        intro flag
        by_cases heq : flag = flag'
        · subst heq
          rw [Function.update_self]
          exact holds_newer (hseen flag) ⟨hrow, hduty⟩
        · rw [Function.update_of_ne heq]
          apply (hseen flag).skip
          intro hflags
          rw [hflags.1] at hrow
          exact heq (Option.some.inj hrow)

/-- What an appeal is. -/
structure Appeal.Reads (a : Appeal) (duty : Duties) (room flagId : String)
    (rows : List Attestation) : Prop where
  filing : Latest (·.assertedAt) (Files flagId) rows a.filing
  ruling : Latest (·.assertedAt) (Rules duty room flagId) rows (a.ruling.map (·.1))
  outcome : ∀ r o, a.ruling = some (r, o) → r.str "outcome" = some o

theorem exists_readAppeal (h : dir.Knows duty) (room flagId : String) (rows : List Attestation)
    {a : Appeal} (hseen : a.Reads duty room flagId seen) :
    ∃ found, readAppeal dir room flagId a rows = .ok found ∧
      found.Reads duty room flagId (seen ++ rows) := by
  induction rows generalizing seen a with
  | nil =>
    rw [List.append_nil]
    exact ⟨a, rfl, hseen⟩
  | cons row rows ih =>
    rw [List.append_cons]
    unfold readAppeal
    cases happeals : appeals flagId row with
    | false =>
      apply ih
      exact ⟨hseen.filing.skip fun hf => by simp [hf.1] at happeals,
        hseen.ruling.skip fun hr => by simp [hr.1] at happeals, hseen.outcome⟩
    | true =>
      rw [Bool.not_true, if_neg Bool.false_ne_true]
      cases houtcome : row.str "outcome" with
      | none =>
        apply ih
        exact ⟨holds_newer hseen.filing ⟨happeals, houtcome⟩,
          hseen.ruling.skip fun hr => by simp [Rules, houtcome] at hr, hseen.outcome⟩
      | some outcome =>
        have hfiling : Latest (·.assertedAt) (Files flagId) (seen ++ [row]) a.filing :=
          hseen.filing.skip fun hf => by simp [hf.2] at houtcome
        rw [h.holds]
        dsimp only [bind, Except.bind]
        cases hduty : duty row.attestingKeyId room "review" with
        | false =>
          rw [Bool.false_and, if_neg Bool.false_ne_true]
          apply ih
          exact ⟨hfiling, hseen.ruling.skip fun hr => by simp [hr.2.2] at hduty, hseen.outcome⟩
        | true =>
          have hrules : Rules duty room flagId row := ⟨happeals, by simp [houtcome], hduty⟩
          rw [Bool.true_and]
          split
          next hnewer =>
            apply ih
            refine ⟨hfiling, hseen.ruling.take hrules ?_, ?_⟩
            · intro y hy
              obtain ⟨⟨ruling, o⟩, hruling, rfl⟩ := Option.map_eq_some_iff.mp hy
              simp only [hruling, Option.all_some, decide_eq_true_eq] at hnewer
              exact le_of_lt hnewer
            · intro r o hr
              cases hr
              exact houtcome
          next hnewer =>
            apply ih
            refine ⟨hfiling, ?_, hseen.outcome⟩
            have hruling := hseen.ruling
            cases hold : a.ruling with
            | none => simp [hold] at hnewer
            | some old =>
              rw [hold] at hruling
              simp only [hold, Option.all_some, decide_eq_true_eq, not_lt] at hnewer
              exact hruling.keep hnewer

/-! ## The viewer's consent -/

theorem lastNewest_append (rows : List Attestation) (row : Attestation) :
    lastNewest (rows ++ [row]) =
      if (lastNewest rows).all (·.assertedAt ≤ row.assertedAt) then some row
      else lastNewest rows := by
  rw [lastNewest, List.foldl_append]
  rfl

theorem holds_lastNewest (p : Attestation → Bool) (rows : List Attestation) :
    Latest (·.assertedAt) (p · = true) rows (lastNewest (rows.filter p)) := by
  induction rows using List.reverseRecOn with
  | nil => exact Latest.nil
  | append_singleton rows row ih =>
    cases hp : p row with
    | false =>
      have hsame : (rows ++ [row]).filter p = rows.filter p := by simp [hp]
      rw [hsame]
      exact ih.skip (by simp [hp])
    | true =>
      have hmore : (rows ++ [row]).filter p = rows.filter p ++ [row] := by simp [hp]
      rw [hmore, lastNewest_append]
      split
      next hall =>
        apply ih.take hp
        intro y hy
        rw [Option.mem_def.mp hy] at hall
        simpa using hall
      next hall =>
        cases hheld : lastNewest (rows.filter p) with
        | none => simp [hheld] at hall
        | some held =>
          rw [hheld] at ih hall
          apply ih.keep
          simp only [Option.all_some, decide_eq_true_eq, not_le] at hall
          exact le_of_lt hall

/-- A row that grants. -/
def grants (r : Attestation) : Bool :=
  r.dimension.any fun dimension => "consent:state:granted".toList.isPrefixOf dimension.toList

theorem hasViewConsent_eq (hrows : dir.readAbout viewer ["consent:state:"] = .ok consentRows) :
    hasViewConsent dir viewer targetId flag =
      .ok ((lastNewest (consentRows.filter (consents viewer targetId flag))).any grants) := by
  rw [hasViewConsent, hrows]
  rfl

/-! ## The view -/

/-- What is shown of the item: by its flags, the appeal against the one that leads, and the viewer's
    last word on a class. -/
def verdict (targetId : String) (newest : ContentFlag → Option Attestation)
    (appeal : Attestation → Appeal) (consent : ContentFlag → Option Attestation) :
    Option ModerationView :=
  (leading newest).map fun flagRow =>
    let flag := (flagRow.dimension.bind flagClass).getD .reported
    let reconsideration := (appeal flagRow).standing
    let live := !flagRow.cleared && reconsideration ≠ some .reversed
    let revealed := live && (consent flag).any grants
    { flag := if live then some flag.asStr else none
      itemAttestationId := targetId
      flagAttestationId := flagRow.attestationId
      flaggedBy := flagRow.attestingKeyId
      withheld := live && !revealed
      revealed
      reconsideration
      reconsiderationAttestationId := (appeal flagRow).filing.map (·.attestationId) }

/-- **What the fold reads.** The newest flags, the newest filing and ruling on the flag that leads,
    and the newest consent. -/
theorem exists_viewOf (h : dir.Knows duty) (hrows : dir.moderationRows author = .ok rows)
    (hconsents : dir.readAbout viewer ["consent:state:"] = .ok consentRows)
    (now : Int) (room targetId : String) :
    ∃ newest appeal consent,
      viewOf dir now room targetId author viewer =
        .ok (verdict targetId newest appeal consent) ∧
      (∀ flag, Latest (·.assertedAt) (Flags duty room targetId now flag) rows (newest flag)) ∧
      (∀ r, (appeal r).Reads duty room r.attestationId rows) ∧
      ∀ flag, Latest (·.assertedAt) (consents viewer targetId flag · = true) consentRows
        (consent flag) := by
  have hnone : ∀ flag, Latest (·.assertedAt) (Flags duty room targetId now flag) []
      ((fun _ => none : ContentFlag → Option Attestation) flag) := fun _ => Latest.nil
  obtain ⟨newest, hnewest, hflags⟩ := exists_newestFlags h room targetId now rows hnone
  have hempty : ∀ r : Attestation, ({} : Appeal).Reads duty room r.attestationId [] := fun r =>
    ⟨Latest.nil, Latest.nil, fun _ _ hnone => by cases hnone⟩
  choose appeal happeal hreads using fun r : Attestation =>
    exists_readAppeal h room r.attestationId rows (hempty r)
  refine ⟨newest, appeal, fun flag => lastNewest (consentRows.filter (consents viewer targetId flag)),
    ?_, hflags, hreads, fun flag => holds_lastNewest _ _⟩
  unfold viewOf verdict
  rw [hrows]
  dsimp only [bind, Except.bind]
  rw [hnewest]
  dsimp only
  cases hleading : leading newest with
  | none => rfl
  | some flagRow =>
    dsimp only
    rw [happeal]
    dsimp only
    rw [Option.map_some]
    generalize (!flagRow.cleared && decide ((appeal flagRow).standing ≠ some .reversed)) = live
    cases live with
    | false => rfl
    | true =>
      rw [hasViewConsent_eq hconsents]
      rfl

theorem Appeal.Reads.ext {a a' : Appeal} (h : a.Reads duty room flagId rows)
    (h' : a'.Reads duty room flagId rows') (hfiling : a.filing = a'.filing)
    (hruling : a.ruling.map (·.1) = a'.ruling.map (·.1)) : a = a' := by
  obtain ⟨filing, ruling⟩ := a
  obtain ⟨filing', ruling'⟩ := a'
  cases hfiling
  cases ruling with
  | none =>
    cases ruling' with
    | none => rfl
    | some _ => cases hruling
  | some ro =>
    cases ruling' with
    | none => cases hruling
    | some ro' =>
      have hrow : ro.1 = ro'.1 := Option.some.inj hruling
      have houtcome := h'.outcome ro'.1 ro'.2 rfl
      rw [← hrow, h.outcome ro.1 ro.2 rfl] at houtcome
      rw [Prod.ext hrow (Option.some.inj houtcome)]

/-- A row that has a say in what the room decided about the item: a flag or a ruling of one who
    holds the duty, or a filing. -/
def Decides (duty : Duties) (room targetId : String) (now : Int) (r : Attestation) : Prop :=
  (∃ flag, Flags duty room targetId now flag r) ∨
    ∃ flagId, Files flagId r ∨ Rules duty room flagId r

/-- Who has a say: a holder of a duty, or one who files. -/
def voice (duty : Duties) (room : String) (r : Attestation) : Bool :=
  duty r.attestingKeyId room "moderate" || duty r.attestingKeyId room "review" ||
    ((r.dimension.any fun dimension => "reconsideration:".toList.isPrefixOf dimension.toList) &&
      r.str "outcome" = none)

theorem Decides.voice (h : Decides duty room targetId now r) :
    RoomModeration.voice duty room r = true := by
  simp only [RoomModeration.voice, Bool.or_eq_true, Bool.and_eq_true, decide_eq_true_eq]
  obtain ⟨flag, -, hduty⟩ | ⟨flagId, ⟨happeals, hnone⟩ | ⟨-, -, hduty⟩⟩ := h
  · exact Or.inl (Or.inl hduty)
  · simp only [appeals, Bool.and_eq_true] at happeals
    exact Or.inr ⟨happeals.2, hnone⟩
  · exact Or.inl (Or.inr hduty)

/-- **The room decides, and nobody else.** Two nodes that hold the same decisions about the item, and
    the same consents of the viewer, show the viewer the same: in whatever order the rows came, and
    whatever else anybody wrote about the item or its author. -/
theorem view_spec (h : dir.Knows duty) (h' : dir'.Knows duty)
    (hrows : dir.moderationRows author = .ok rows)
    (hrows' : dir'.moderationRows author = .ok rows')
    (hconsents : dir.readAbout viewer ["consent:state:"] = .ok consentRows)
    (hconsents' : dir'.readAbout viewer ["consent:state:"] = .ok consentRows')
    (hdecisions : ∀ r, Decides duty room targetId now r → (r ∈ rows ↔ r ∈ rows'))
    (hown : ∀ r, r.attestingKeyId = viewer → (r ∈ consentRows ↔ r ∈ consentRows'))
    (huntied : Untied (·.assertedAt) (Decides duty room targetId now) rows)
    (huntied' : Untied (·.assertedAt) (·.attestingKeyId = viewer) consentRows) :
    viewOf dir now room targetId author viewer = viewOf dir' now room targetId author viewer := by
  obtain ⟨newest, appeal, consent, hview, hflags, hreads, hconsent⟩ :=
    exists_viewOf h hrows hconsents now room targetId
  obtain ⟨newest', appeal', consent', hview', hflags', hreads', hconsent'⟩ :=
    exists_viewOf h' hrows' hconsents' now room targetId
  have hnewest : newest = newest' := by
    funext flag
    apply (hflags flag).unique (hflags' flag)
    · exact fun r hr => hdecisions r (Or.inl ⟨flag, hr⟩)
    · exact fun x hx y hy hPx hPy => huntied x hx y hy (Or.inl ⟨flag, hPx⟩) (Or.inl ⟨flag, hPy⟩)
  have hconsents : consent = consent' := by
    funext flag
    have hviewer : ∀ r, consents viewer targetId flag r = true → r.attestingKeyId = viewer := by
      intro r hr
      simp only [consents, Bool.and_eq_true, decide_eq_true_eq] at hr
      tauto
    apply (hconsent flag).unique (hconsent' flag)
    · exact fun r hr => hown r (hviewer r hr)
    · exact fun x hx y hy hPx hPy => huntied' x hx y hy (hviewer x hPx) (hviewer y hPy)
  have happeal : appeal = appeal' := by
    funext flagRow
    have hfiling : (appeal flagRow).filing = (appeal' flagRow).filing := by
      apply (hreads flagRow).filing.unique (hreads' flagRow).filing
      · exact fun r hr => hdecisions r (Or.inr ⟨_, Or.inl hr⟩)
      · exact fun x hx y hy hPx hPy =>
          huntied x hx y hy (Or.inr ⟨_, Or.inl hPx⟩) (Or.inr ⟨_, Or.inl hPy⟩)
    have hruling : (appeal flagRow).ruling.map (·.1) = (appeal' flagRow).ruling.map (·.1) := by
      apply (hreads flagRow).ruling.unique (hreads' flagRow).ruling
      · exact fun r hr => hdecisions r (Or.inr ⟨_, Or.inr hr⟩)
      · exact fun x hx y hy hPx hPy =>
          huntied x hx y hy (Or.inr ⟨_, Or.inr hPx⟩) (Or.inr ⟨_, Or.inr hPy⟩)
    exact Appeal.Reads.ext (hreads flagRow) (hreads' flagRow) hfiling hruling
  rw [hview, hview', hnewest, hconsents, happeal]

/-! ## A room -/

section Sample

/-- A row of the room `r`. -/
def sampleRow (id who kind : String) (assertedAt : Int) (members : List (String × Json)) :
    Attestation where
  attestationId := id
  attestingKeyId := who
  attestedKeyId := "alice"
  attestationType := "scores"
  subjectKeyIds := ["alice"]
  cohortScope := "community"
  assertedAt
  expiresAt := none
  attestationEnvelope :=
    .obj ([("dimension", .str kind), ("community_id", .str "r")] ++ members)

def sampleFlag : Attestation :=
  sampleRow "f" "mod" "content_class:infohazard:v1" 10 [("references_attestation_id", .str "m")]

/-- Mallory holds no duty. -/
def sampleForgedFlag : Attestation :=
  sampleRow "x" "mallory" "content_class:infohazard:v1" 20
    [("references_attestation_id", .str "m"), ("withdrawn", .bool true)]

def sampleFiling : Attestation :=
  sampleRow "q" "alice" "reconsideration:v1" 30 [("references_attestation_id", .str "f")]

def sampleRuling : Attestation :=
  sampleRow "u" "rev" "reconsideration:v1" 40
    [("references_attestation_id", .str "f"), ("outcome", .str "upheld")]

def sampleForgedRuling : Attestation :=
  sampleRow "y" "mallory" "reconsideration:v1" 50
    [("references_attestation_id", .str "f"), ("outcome", .str "reversed")]

def sampleDuty : Duties := fun who room name =>
  room = "r" && (who = "mod" && name = "moderate" || who = "rev" && name = "review")

/-- A directory of rows about Alice; Bob consented to nothing. -/
def sampleDirectory (flags appeals : List Attestation) : Directory where
  rowsAbout key family := .ok <|
    if key ≠ "alice" then [] else if family = "content_class:" then flags else appeals
  isNamedModerator who room name := .ok (sampleDuty who room name)

theorem knows_sample (flags appeals : List Attestation) :
    (sampleDirectory flags appeals).Knows sampleDuty := fun _ _ _ => rfl

/-- All that was written about Alice. -/
def sampleRows : List Attestation :=
  [sampleFlag, sampleForgedFlag, sampleFiling, sampleRuling, sampleForgedRuling]

/-- A node that has all of them. -/
def sampleNode : Directory :=
  sampleDirectory [sampleFlag, sampleForgedFlag] [sampleFiling, sampleRuling, sampleForgedRuling]

/-- A node that does not have what Mallory wrote, and got the ruling before the filing. -/
def sampleNode' : Directory := sampleDirectory [sampleFlag] [sampleRuling, sampleFiling]

theorem rows_sampleNode : sampleNode.moderationRows "alice" = .ok sampleRows := rfl

theorem rows_sampleNode' :
    sampleNode'.moderationRows "alice" = .ok [sampleFlag, sampleRuling, sampleFiling] := rfl

theorem consents_sampleNode : sampleNode.readAbout "bob" ["consent:state:"] = .ok [] := rfl

theorem untied_sampleRows (P : Attestation → Prop) : Untied (·.assertedAt) P sampleRows :=
  Untied.of_nodup (by decide)

theorem view_spec_bob :
    viewOf sampleNode 60 "r" "m" "alice" "bob" = viewOf sampleNode' 60 "r" "m" "alice" "bob" := by
  apply view_spec (knows_sample _ _) (knows_sample _ _) rows_sampleNode rows_sampleNode'
    consents_sampleNode rfl
  · have hheard : ∀ r ∈ sampleRows, voice sampleDuty "r" r = true →
        r ∈ [sampleFlag, sampleRuling, sampleFiling] := by decide
    have hold : ∀ r ∈ [sampleFlag, sampleRuling, sampleFiling], r ∈ sampleRows := by decide
    exact fun r hr => ⟨fun hmem => hheard r hmem hr.voice, hold r⟩
  · exact fun _ _ => Iff.rfl
  · exact untied_sampleRows _
  · exact Untied.of_nodup List.nodup_nil

end Sample

/-! ## What withholds -/

/-- A row is the newest of those that meet a condition. -/
def NewestOf (P : Attestation → Prop) (rows : List Attestation) (r : Attestation) : Prop :=
  Latest (·.assertedAt) P rows (some r)

/-- The flag that leads: the newest of the more severe class that the room ever flagged the item
    as. -/
def Leads (duty : Duties) (room targetId : String) (now : Int) (rows : List Attestation)
    (flag : ContentFlag) (r : Attestation) : Prop :=
  NewestOf (Flags duty room targetId now flag) rows r ∧
    (flag = .reported → ∀ r' ∈ rows, ¬ Flags duty room targetId now .infohazard r')

/-- The newest ruling reverses the flag, and no filing came after it. -/
def Reversed (duty : Duties) (room : String) (rows : List Attestation) (r : Attestation) : Prop :=
  ∃ ruling, NewestOf (Rules duty room r.attestationId) rows ruling ∧
    ruling.str "outcome" = some "reversed" ∧
    ∀ f ∈ rows, Files r.attestationId f → f.assertedAt ≤ ruling.assertedAt

/-- The viewer's last word on the item, as a class, is that they will see it. -/
def Consented (viewer targetId : String) (consentRows : List Attestation) (flag : ContentFlag) :
    Prop :=
  ∃ r, NewestOf (consents viewer targetId flag · = true) consentRows r ∧ grants r = true

/-- A flag row is of the class that it was counted for. -/
theorem class_of_flagged (h : flagged room targetId now r = some flag) :
    r.dimension.bind flagClass = some flag := by
  unfold flagged at h
  split at h
  · cases h
  · split at h
    · cases h
    next flag' hclass =>
      split at h
      · cases h
      · rw [hclass]
        exact h

/-- The row that leads, among the newest of each class. -/
theorem leading_iff {newest : ContentFlag → Option Attestation}
    (hflags : ∀ flag, Latest (·.assertedAt) (Flags duty room targetId now flag) rows (newest flag))
    (huntied : ∀ flag, Untied (·.assertedAt) (Flags duty room targetId now flag) rows) :
    leading newest = some r ↔ ∃ flag, Leads duty room targetId now rows flag r := by
  constructor
  · intro hleading
    unfold leading at hleading
    have hinfo := hflags .infohazard
    have hreported := hflags .reported
    cases hfirst : newest .infohazard with
    | some first =>
      rw [hfirst, Option.some_or] at hleading
      cases hleading
      rw [hfirst] at hinfo
      exact ⟨.infohazard, hinfo, fun hflag => by cases hflag⟩
    | none =>
      rw [hfirst, Option.none_or] at hleading
      rw [hleading] at hreported
      rw [hfirst] at hinfo
      exact ⟨.reported, hreported, fun _ => hinfo⟩
  · rintro ⟨flag, hnewest, hsevere⟩
    have hheld : newest flag = some r :=
      (hflags flag).unique hnewest (fun _ _ => Iff.rfl) (huntied flag)
    unfold leading
    cases flag with
    | infohazard => rw [hheld, Option.some_or]
    | reported =>
      have hnone : newest .infohazard = none := by
        cases hfirst : newest .infohazard with
        | none => rfl
        | some first =>
          have hinfo := hflags .infohazard
          rw [hfirst] at hinfo
          exact absurd hinfo.2.1 (hsevere rfl first hinfo.1)
      rw [hnone, Option.none_or, hheld]

/-- An appeal stands reversed when the newest ruling says so and no filing is newer. -/
theorem standing_reversed_iff (a : Appeal) :
    a.standing = some .reversed ↔
      ∃ ruling, a.ruling = some (ruling, "reversed") ∧
        ∀ filing ∈ a.filing, filing.assertedAt ≤ ruling.assertedAt := by
  obtain ⟨filing, ruling⟩ := a
  cases ruling with
  | none => cases filing <;> simp [Appeal.standing]
  | some ro =>
    obtain ⟨ruling, outcome⟩ := ro
    cases filing with
    | none =>
      by_cases hreversed : outcome = "reversed" <;> simp [Appeal.standing, hreversed]
    | some filing =>
      by_cases hle : filing.assertedAt ≤ ruling.assertedAt
      · by_cases hreversed : outcome = "reversed"
        · simp [Appeal.standing, hle, hreversed]
        · by_cases hpartial : outcome = "partial" <;>
            simp [Appeal.standing, hle, hreversed, hpartial]
      · simp [Appeal.standing, hle]

theorem reversed_iff {a : Appeal} (h : a.Reads duty room r.attestationId rows)
    (huntied : Untied (·.assertedAt) (Rules duty room r.attestationId) rows) :
    a.standing = some .reversed ↔ Reversed duty room rows r := by
  rw [standing_reversed_iff]
  have hnotNewer : ∀ ruling : Attestation,
      (∀ filing ∈ a.filing, filing.assertedAt ≤ ruling.assertedAt) ↔
        ∀ f ∈ rows, Files r.attestationId f → f.assertedAt ≤ ruling.assertedAt := by
    intro ruling
    have hfiling := h.filing
    cases hheld : a.filing with
    | none =>
      rw [hheld] at hfiling
      simp only [Option.mem_def, reduceCtorEq, false_implies, implies_true, true_iff]
      exact fun f hf hfiles => absurd hfiles (hfiling f hf)
    | some filing =>
      rw [hheld] at hfiling
      simp only [Option.mem_def, Option.some.injEq, forall_eq']
      constructor
      · exact fun hle f hf hfiles => (hfiling.2.2 f hf hfiles).trans hle
      · exact fun hall => hall filing hfiling.1 hfiling.2.1
  constructor
  · rintro ⟨ruling, hruling, hfilings⟩
    have hnewest := h.ruling
    rw [hruling] at hnewest
    exact ⟨ruling, hnewest, h.outcome _ _ hruling, (hnotNewer ruling).mp hfilings⟩
  · rintro ⟨ruling, hnewest, houtcome, hfilings⟩
    have hheld : a.ruling.map (·.1) = some ruling :=
      h.ruling.unique hnewest (fun _ _ => Iff.rfl) huntied
    obtain ⟨⟨ruling', outcome⟩, hruling, rfl⟩ := Option.map_eq_some_iff.mp hheld
    have hsame := h.outcome _ _ hruling
    rw [houtcome] at hsame
    cases hsame
    exact ⟨ruling', hruling, (hnotNewer ruling').mpr hfilings⟩

theorem consented_iff {held : Option Attestation}
    (h : Latest (·.assertedAt) (consents viewer targetId flag · = true) consentRows held)
    (huntied : Untied (·.assertedAt) (consents viewer targetId flag · = true) consentRows) :
    held.any grants = true ↔ Consented viewer targetId consentRows flag := by
  rw [Option.any_eq_true]
  constructor
  · rintro ⟨r, rfl, hgrants⟩
    exact ⟨r, h, hgrants⟩
  · rintro ⟨r, hnewest, hgrants⟩
    exact ⟨r, h.unique hnewest (fun _ _ => Iff.rfl) huntied, hgrants⟩

/-- **What withholds an item.** The flag that leads was not cleared, no ruling that stands reversed
    it, and the viewer did not choose to see it. -/
theorem withheld_iff (h : dir.Knows duty) (hrows : dir.moderationRows author = .ok rows)
    (hconsents : dir.readAbout viewer ["consent:state:"] = .ok consentRows)
    (hflags : ∀ flag, Untied (·.assertedAt) (Flags duty room targetId now flag) rows)
    (hrulings : ∀ flagId, Untied (·.assertedAt) (Rules duty room flagId) rows)
    (hown : ∀ flag,
      Untied (·.assertedAt) (consents viewer targetId flag · = true) consentRows) :
    (∃ view, viewOf dir now room targetId author viewer = .ok (some view) ∧
        view.withheld = true) ↔
      ∃ flag r, Leads duty room targetId now rows flag r ∧ r.cleared = false ∧
        ¬ Reversed duty room rows r ∧ ¬ Consented viewer targetId consentRows flag := by
  obtain ⟨newest, appeal, consent, hview, hnewest, hreads, hconsent⟩ :=
    exists_viewOf h hrows hconsents now room targetId
  rw [hview]
  have hleading := fun r => leading_iff (r := r) hnewest hflags
  have hreversed := fun r => reversed_iff (hreads r) (hrulings r.attestationId)
  have hconsented := fun flag => consented_iff (hconsent flag) (hown flag)
  cases hrow : leading newest with
  | none =>
    simp only [verdict, hrow, Option.map_none, Except.ok.injEq, reduceCtorEq, false_and,
      exists_false, false_iff]
    rintro ⟨flag, r, hleads, -⟩
    have hsome := (hleading r).mpr ⟨flag, hleads⟩
    rw [hrow] at hsome
    cases hsome
  | some flagRow =>
    have honly : ∀ flag r, Leads duty room targetId now rows flag r →
        r = flagRow ∧ (flagRow.dimension.bind flagClass).getD .reported = flag := by
      intro flag r hleads
      have hsome := (hleading r).mpr ⟨flag, hleads⟩
      rw [hrow] at hsome
      cases hsome
      rw [class_of_flagged hleads.1.2.1.1, Option.getD_some]
      exact ⟨rfl, rfl⟩
    obtain ⟨flag, hleads⟩ := (hleading flagRow).mp hrow
    have hclass := (honly flag flagRow hleads).2
    have hthis : (∃ flag r, Leads duty room targetId now rows flag r ∧ r.cleared = false ∧
          ¬ Reversed duty room rows r ∧ ¬ Consented viewer targetId consentRows flag) ↔
        flagRow.cleared = false ∧ ¬ Reversed duty room rows flagRow ∧
          ¬ Consented viewer targetId consentRows flag := by
      constructor
      · rintro ⟨flag', r, hleads', hlive⟩
        obtain ⟨rfl, hflag'⟩ := honly flag' r hleads'
        rw [← hclass, hflag']
        exact hlive
      · exact fun hlive => ⟨flag, flagRow, hleads, hlive⟩
    rw [hthis, ← hreversed, ← hconsented]
    simp only [verdict, hrow, Option.map_some, Except.ok.injEq, Option.some.injEq,
      exists_eq_left', hclass]
    cases flagRow.cleared <;> cases (consent flag).any grants <;> simp

/-- Bob is not shown what the moderator flagged, whatever Mallory wrote. -/
theorem withheld_iff_bob :
    ∃ view, viewOf sampleNode 60 "r" "m" "alice" "bob" = .ok (some view) ∧
      view.withheld = true := by
  have hleads : Leads sampleDuty "r" "m" 60 sampleRows .infohazard sampleFlag :=
    ⟨by unfold NewestOf; decide, fun hflag => by cases hflag⟩
  have hupheld : ¬ Reversed sampleDuty "r" sampleRows sampleFlag := by
    rintro ⟨ruling, hnewest, houtcome, -⟩
    have hbad : ∀ r ∈ sampleRows, Rules sampleDuty "r" "f" r → r.str "outcome" ≠ some "reversed" := by
      decide
    exact hbad ruling hnewest.1 hnewest.2.1 houtcome
  apply (withheld_iff (knows_sample _ _) rows_sampleNode consents_sampleNode (fun _ => untied_sampleRows _)
    (fun _ => untied_sampleRows _) (fun _ => Untied.of_nodup List.nodup_nil)).mpr
  refine ⟨.infohazard, sampleFlag, hleads, by decide, hupheld, ?_⟩
  rintro ⟨r, hnewest, -⟩
  exact List.not_mem_nil hnewest.1

end CirisServer.RoomModeration
