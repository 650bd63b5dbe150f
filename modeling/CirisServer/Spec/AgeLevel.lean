import CirisServer.Native.AgeLevel

/-!
# The ladder of ages

The rows about an identity decide its age: those of registered verifiers, the strongest level first
and of that the newest, or else the newest declaration of its own. What is read instead are the rows
that it has authored, about whomever, and of the strongest level the first that is met.

Key results:
- `ladder_congr`: the ladder depends on the rows about the identity only
- `parseAgeDimension_ageDimension`: the dimensions that are written are read back
- `readAgeLevel_iff`: when what is read is what the ladder says
-/

namespace CirisServer.AgeLevel

open Infohazard (AgeBand AssuranceLevel ageDimension)

variable {s : String} {r r' : Attestation} {a a' : AgeAssurance}
variable {rows order order' : List Attestation}

/-! ## Dimensions -/

/-- The dimensions that are written are read back. -/
theorem parseAgeDimension_ageDimension (level : AssuranceLevel) (band : AgeBand) :
    parseAgeDimension (ageDimension level band) = some ⟨band, level⟩ := by
  cases level <;> cases band <;> decide +kernel

/-! ## The ladder -/

/-- The rows, and the keys that are registered as verifiers. -/
structure Directory where
  rows : List Attestation
  verifier : String → Bool

variable {d d' : Directory}

/-- The rows that an identity has authored, in some order. -/
def Directory.authored (d : Directory) (s : String) : List Attestation :=
  d.rows.filter (·.attestingKeyId = s)

/-- The dimension of the row begins like that. -/
def Under (start : List Char) (r : Attestation) : Prop :=
  ∃ dimension, ComposePolicy.envelopeStr r "dimension" = some dimension ∧
    start <+: dimension.toList

/-- A registered verifier assures an age of the identity. -/
structure Assured (d : Directory) (s : String) (r : Attestation) (a : AgeAssurance) : Prop where
  row : r ∈ d.rows
  verifier : d.verifier r.attestingKeyId = true
  about : r.attestedKeyId = s
  dimension : Under assurancePrefix r
  reads : reading r = some a

/-- The identity declares an age of its own. -/
structure Declared (d : Directory) (s : String) (r : Attestation) (a : AgeAssurance) : Prop where
  row : r ∈ d.rows
  author : r.attestingKeyId = s
  about : r.attestedKeyId = s
  dimension : Under selfDeclaredPrefix r
  reads : reading r = some a

/-- The row decides: it is a newest one of the strongest level that is assured, or nothing is
    assured and it is a newest declaration. -/
def Decides (d : Directory) (s : String) (r : Attestation) (a : AgeAssurance) : Prop :=
  (Assured d s r a ∧ ∀ r' a', Assured d s r' a' → rung a'.level ≤ rung a.level ∧
    (rung a'.level = rung a.level → r'.assertedAt ≤ r.assertedAt)) ∨
  ((∀ r' a', ¬ Assured d s r' a') ∧ Declared d s r a ∧
    ∀ r' a', Declared d s r' a' → r'.assertedAt ≤ r.assertedAt)

/-- The answer is what a deciding row says, and none if no row decides. -/
def Ladder (d : Directory) (s : String) : Option AgeAssurance → Prop
  | some a => ∃ r, Decides d s r a
  | none => ∀ r a, ¬ Decides d s r a

/-- The two directories have the same rows about the identity. -/
def SameAbout (s : String) (d d' : Directory) : Prop :=
  d.verifier = d'.verifier ∧ ∀ r, r.attestedKeyId = s → (r ∈ d.rows ↔ r ∈ d'.rows)

theorem SameAbout.assured_iff (h : SameAbout s d d') : Assured d s r a ↔ Assured d' s r a := by
  constructor
  · intro ha
    exact ⟨(h.2 r ha.about).mp ha.row, h.1 ▸ ha.verifier, ha.about, ha.dimension, ha.reads⟩
  · intro ha
    exact ⟨(h.2 r ha.about).mpr ha.row, h.1 ▸ ha.verifier, ha.about, ha.dimension, ha.reads⟩

theorem SameAbout.declared_iff (h : SameAbout s d d') : Declared d s r a ↔ Declared d' s r a := by
  constructor
  · intro ha
    exact ⟨(h.2 r ha.about).mp ha.row, ha.author, ha.about, ha.dimension, ha.reads⟩
  · intro ha
    exact ⟨(h.2 r ha.about).mpr ha.row, ha.author, ha.about, ha.dimension, ha.reads⟩

/-- Rows about others do not matter to the ladder. -/
theorem ladder_congr (h : SameAbout s d d') (answer : Option AgeAssurance) :
    Ladder d s answer ↔ Ladder d' s answer := by
  have hdecides : ∀ r a, Decides d s r a ↔ Decides d' s r a := by
    intro r a
    simp only [Decides, h.assured_iff, h.declared_iff]
  cases answer <;> simp only [Ladder, hdecides]

/-! ## What is read -/

/-- Nothing stronger is met among the rows. -/
def Strongest (rows : List Attestation) (r : Attestation) (a : AgeAssurance) : Prop :=
  r ∈ rows ∧ reading r = some a ∧
    ∀ r' ∈ rows, ∀ a', reading r' = some a' → rung a'.level ≤ rung a.level

theorem Strongest.perm (h : order.Perm rows) (hr : Strongest rows r a) : Strongest order r a :=
  ⟨h.mem_iff.mpr hr.1, hr.2.1, fun r' hr' => hr.2.2 r' (h.mem_iff.mp hr')⟩

/-- One step of the fold. -/
def meet (best : Option AgeAssurance) (row : Attestation) : Option AgeAssurance :=
  (reading row).elim best (keep best)

theorem readAgeLevel_ok (rows : List Attestation) :
    readAgeLevel (.ok rows) = rows.foldl meet none := rfl

theorem meet_of_silent (hr : reading r = none) (best : Option AgeAssurance) :
    meet best r = best := by
  rw [meet, hr]
  rfl

theorem meet_none_of_reads (hr : reading r = some a) : meet none r = some a := by
  rw [meet, hr]
  rfl

theorem meet_of_le (hr : reading r = some a) (h : rung a.level ≤ rung a'.level) :
    meet (some a') r = some a' := by
  rw [meet, hr]
  exact if_pos h

theorem meet_of_not_le (hr : reading r = some a) (h : ¬ rung a.level ≤ rung a'.level) :
    meet (some a') r = some a := by
  rw [meet, hr]
  exact if_neg h

/-- What is held is kept if nothing stronger is met. -/
theorem foldl_meet_of_le
    (h : ∀ r ∈ rows, ∀ a', reading r = some a' → rung a'.level ≤ rung a.level) :
    rows.foldl meet (some a) = some a := by
  induction rows with
  | nil => rfl
  | cons r rows ih =>
    rw [List.forall_mem_cons] at h
    have hmeet : meet (some a) r = some a := by
      cases hr : reading r with
      | none => exact meet_of_silent hr _
      | some a' => exact meet_of_le hr (h.1 a' hr)
    rw [List.foldl_cons, hmeet, ih h.2]

/-- What is held in the end is at least as strong as what was held, and as every row. -/
theorem foldl_meet_some (rows : List Attestation) (b : AgeAssurance) :
    ∃ c, rows.foldl meet (some b) = some c ∧ rung b.level ≤ rung c.level ∧
      (c = b ∨ ∃ r ∈ rows, reading r = some c) ∧
      ∀ r ∈ rows, ∀ a', reading r = some a' → rung a'.level ≤ rung c.level := by
  induction rows generalizing b with
  | nil => exact ⟨b, rfl, Nat.le_refl _, Or.inl rfl, by simp⟩
  | cons x rows ih =>
    rw [List.foldl_cons]
    cases hx : reading x with
    | none =>
      obtain ⟨c, hfold, hle, hfrom, hall⟩ := ih b
      rw [meet_of_silent hx]
      refine ⟨c, hfold, hle, ?_, ?_⟩
      · exact hfrom.imp_right fun ⟨r, hr, hc⟩ => ⟨r, List.mem_cons_of_mem x hr, hc⟩
      · rw [List.forall_mem_cons]
        exact ⟨by simp [hx], hall⟩
    | some a =>
      by_cases hlt : rung a.level ≤ rung b.level
      · obtain ⟨c, hfold, hle, hfrom, hall⟩ := ih b
        rw [meet_of_le hx hlt]
        refine ⟨c, hfold, hle, ?_, ?_⟩
        · exact hfrom.imp_right fun ⟨r, hr, hc⟩ => ⟨r, List.mem_cons_of_mem x hr, hc⟩
        · rw [List.forall_mem_cons]
          refine ⟨fun a' ha' => ?_, hall⟩
          rw [hx] at ha'
          cases ha'
          omega
      · obtain ⟨c, hfold, hle, hfrom, hall⟩ := ih a
        rw [meet_of_not_le hx hlt]
        refine ⟨c, hfold, by omega, Or.inr ?_, ?_⟩
        · rcases hfrom with rfl | ⟨r, hr, hc⟩
          · exact ⟨x, List.mem_cons_self, hx⟩
          · exact ⟨r, List.mem_cons_of_mem x hr, hc⟩
        · rw [List.forall_mem_cons]
          refine ⟨fun a' ha' => ?_, hall⟩
          rw [hx] at ha'
          cases ha'
          exact hle

/-- What is read is what a strongest row says, if any row says anything. -/
theorem foldl_meet_cases (rows : List Attestation) :
    (rows.foldl meet none = none ∧ ∀ r ∈ rows, reading r = none) ∨
      ∃ r a, rows.foldl meet none = some a ∧ Strongest rows r a := by
  induction rows with
  | nil => exact Or.inl ⟨rfl, by simp⟩
  | cons x rows ih =>
    rw [List.foldl_cons]
    cases hx : reading x with
    | none =>
      rw [meet_of_silent hx]
      rcases ih with ⟨hnone, hall⟩ | ⟨r, a, hfold, hr, hreads, hall⟩
      · exact Or.inl ⟨hnone, List.forall_mem_cons.mpr ⟨hx, hall⟩⟩
      · refine Or.inr ⟨r, a, hfold, List.mem_cons_of_mem x hr, hreads, ?_⟩
        exact List.forall_mem_cons.mpr ⟨by simp [hx], hall⟩
    | some b =>
      right
      rw [meet_none_of_reads hx]
      obtain ⟨c, hfold, hle, hfrom, hall⟩ := foldl_meet_some rows b
      have hstrong : ∀ r' ∈ x :: rows, ∀ a', reading r' = some a' →
          rung a'.level ≤ rung c.level := by
        rw [List.forall_mem_cons]
        refine ⟨fun a' ha' => ?_, hall⟩
        rw [hx] at ha'
        cases ha'
        exact hle
      rcases hfrom with rfl | ⟨r, hr, hc⟩
      · exact ⟨x, c, hfold, List.mem_cons_self, hx, hstrong⟩
      · exact ⟨r, c, hfold, List.mem_cons_of_mem x hr, hc, hstrong⟩

/-- A strongest row that is met first is what is read. -/
theorem exists_order (hr : Strongest rows r a) :
    ∃ order : List Attestation, order.Perm rows ∧ readAgeLevel (.ok order) = some a := by
  obtain ⟨hmem, hreads, hstrong⟩ := hr
  refine ⟨r :: rows.erase r, (List.perm_cons_erase hmem).symm, ?_⟩
  rw [readAgeLevel_ok, List.foldl_cons, meet_none_of_reads hreads]
  exact foldl_meet_of_le fun r' hr' => hstrong r' (List.mem_of_mem_erase hr')

/-! ## When the ladder is followed -/

/-- In every order of the rows that the identity has authored the answer is the ladder's, and it is
    the same one; and an identity that is a minor by the rows that decide meets a closed gate. -/
structure FollowsLadder (d : Directory) (s : String) : Prop where
  answers : ∀ order, order.Perm (d.authored s) → Ladder d s (readAgeLevel (.ok order))
  same : ∀ order order', order.Perm (d.authored s) → order'.Perm (d.authored s) →
    readAgeLevel (.ok order) = readAgeLevel (.ok order')
  gate : (∀ r a, Decides d s r a → a.band = .minor) → ∀ order, order.Perm (d.authored s) →
    gateContentFor (viewerOrMinor (.ok order)) .adult = false

/-- What the strongest rows say that the identity has authored is what a deciding row says; or
    there are neither. -/
def Told (d : Directory) (s : String) : Prop :=
  ((∀ r a, ¬ Decides d s r a) ∧ ∀ r ∈ d.authored s, reading r = none) ∨
    ∃ r a, Decides d s r a ∧ (∃ r' a', Strongest (d.authored s) r' a') ∧
      ∀ r' a', Strongest (d.authored s) r' a' → a' = a

/-- The gate of an answer of the ladder. -/
theorem gate_of_ladder {rows : Except String (List Attestation)}
    (h : Ladder d s (readAgeLevel rows))
    (hminor : ∀ r a, Decides d s r a → a.band = .minor) :
    gateContentFor (viewerOrMinor rows) .adult = false := by
  rw [viewerOrMinor]
  cases hanswer : readAgeLevel rows with
  | none => rfl
  | some a =>
    rw [hanswer] at h
    obtain ⟨r, hr⟩ := h
    simp [gateContentFor, hminor r a hr]

/-- **The ladder.** It is followed exactly if the strongest of the authored rows tell what it
    says. -/
theorem readAgeLevel_iff (d : Directory) (s : String) : FollowsLadder d s ↔ Told d s := by
  constructor
  · intro h
    have hladder := h.answers (d.authored s) (.refl _)
    rw [readAgeLevel_ok] at hladder
    rcases foldl_meet_cases (d.authored s) with ⟨hfold, hnone⟩ | ⟨r', a, hfold, hstrongest⟩
    · rw [hfold] at hladder
      exact Or.inl ⟨hladder, hnone⟩
    · rw [hfold] at hladder
      obtain ⟨r, hdecides⟩ := hladder
      refine Or.inr ⟨r, a, hdecides, ⟨r', a, hstrongest⟩, fun r'' a'' hr'' => ?_⟩
      -- the store may return the other row first
      obtain ⟨order, hperm, hread⟩ := exists_order hr''
      have hsame := h.same order (d.authored s) hperm (.refl _)
      rw [hread, readAgeLevel_ok, hfold] at hsame
      exact Option.some.inj hsame
  · intro h
    have hread : ∃ answer, Ladder d s answer ∧
        ∀ order, order.Perm (d.authored s) → readAgeLevel (.ok order) = answer := by
      rcases h with ⟨hnone, hsilent⟩ | ⟨r, a, hdecides, ⟨r', a', hstrongest⟩, hall⟩
      · refine ⟨none, hnone, fun order hperm => ?_⟩
        rcases foldl_meet_cases order with ⟨hfold, -⟩ | ⟨r, a, -, hr, hreads, -⟩
        · exact hfold
        · rw [hsilent r (hperm.mem_iff.mp hr)] at hreads
          cases hreads
      · refine ⟨some a, ⟨r, hdecides⟩, fun order hperm => ?_⟩
        rcases foldl_meet_cases order with ⟨-, hnone⟩ | ⟨r'', a'', hfold, hr''⟩
        · have hreads := hstrongest.2.1
          rw [hnone r' (hperm.mem_iff.mpr hstrongest.1)] at hreads
          cases hreads
        · rw [readAgeLevel_ok, hfold, hall r'' a'' (hr''.perm hperm.symm)]
    obtain ⟨answer, hladder, horders⟩ := hread
    refine ⟨fun order hperm => (horders order hperm).symm ▸ hladder,
      fun order order' hperm hperm' => ?_, fun hminor order hperm => ?_⟩
    · rw [horders order hperm, horders order' hperm']
    · exact gate_of_ladder ((horders order hperm).symm ▸ hladder) hminor

/-! ### A minor at an open gate -/

namespace Fixture

def row (author about dimension : String) (assertedAt : Int) : Attestation where
  attestationId := author
  attestingKeyId := author
  attestedKeyId := about
  attestationType := "scores"
  assertedAt := assertedAt
  expiresAt := none
  attestationEnvelope := .obj [("dimension", .str dimension)]

def declaration : Attestation := row "alice" "alice" "age_self_declared:band:adult:v1" 1

def assurance : Attestation := row "verifier" "alice" "age_assurance:government:minor:v1" 2

/-- Alice declares herself an adult, and a registered verifier assures that she is a minor. -/
def directory : Directory where
  rows := [declaration, assurance]
  verifier key := key = "verifier"

theorem reading_assurance : reading assurance = some ⟨.minor, .government⟩ := by decide +kernel

theorem assured_iff {r : Attestation} {a : AgeAssurance} :
    Assured directory "alice" r a ↔ r = assurance ∧ a = ⟨.minor, .government⟩ := by
  constructor
  · intro h
    have hrow : r = declaration ∨ r = assurance := by simpa [directory] using h.row
    have hr : r = assurance := by
      rcases hrow with rfl | rfl
      · exact absurd h.verifier (by decide)
      · rfl
    subst hr
    exact ⟨rfl, Option.some.inj (h.reads.symm.trans reading_assurance)⟩
  · rintro ⟨rfl, rfl⟩
    exact ⟨by simp [directory], by decide, rfl, ⟨_, rfl, by decide⟩, reading_assurance⟩

theorem decides_minor {r : Attestation} {a : AgeAssurance} (h : Decides directory "alice" r a) :
    a.band = .minor := by
  rcases h with ⟨hassured, -⟩ | ⟨hnone, -⟩
  · rw [(assured_iff.mp hassured).2]
  · exact absurd (assured_iff.mpr ⟨rfl, rfl⟩) (hnone assurance ⟨.minor, .government⟩)

end Fixture

/-- The verifier's row is not read, and the gate is open to a minor. -/
theorem minor_admitted : ¬ FollowsLadder Fixture.directory "alice" ∧
    gateContentFor (viewerOrMinor (.ok (Fixture.directory.authored "alice"))) .adult = true := by
  have hopen : gateContentFor (viewerOrMinor (.ok (Fixture.directory.authored "alice"))) .adult =
      true := by decide +kernel
  refine ⟨fun h => ?_, hopen⟩
  have hclosed := h.gate (fun r a => Fixture.decides_minor) _ (.refl _)
  rw [hclosed] at hopen
  cases hopen

end CirisServer.AgeLevel
