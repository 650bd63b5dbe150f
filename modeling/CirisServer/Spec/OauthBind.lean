import CirisServer.ForStd.Run
import CirisServer.Native.OauthSignIn

/-!
# A bind and what happens between its read and its write

A bind refuses a cert that carries a pair, but it decides on the row it read: what another request
wrote since is overwritten, a pair as well as a retirement.

Key results:
- `advance_effect`: what a store call does to the rows
- `binds_keep_pairs_and_retirement`: every run whose writes find what was read
- `binds_race`: two runs whose writes do not
-/

namespace CirisServer.AuthStore

open Interleave Run

variable {rows : Rows} {c : Config Rows Phase} {m : Move Call Unit}

/-! ## What a store call does -/

theorem get_upsert (rows : Rows) (cert : WaCert) (waId : String) :
    (rows.upsert cert).get waId = if cert.waId = waId then some cert else rows.get waId :=
  KeyedRows.get_upsert waId cert rows

theorem get_setActive (rows : Rows) (waId waId' : String) (active : Bool) :
    (rows.setActive waId' active).get waId =
      if waId' = waId then (rows.get waId).map fun c => { c with active } else rows.get waId := by
  unfold Rows.setActive Rows.get
  apply KeyedRows.get_modify
  intro c
  rfl

/-- **Inversion.** -/
theorem advance_effect (t : Phase) (rows : Rows) :
    (t.advance rows).1 = rows ∨
      (∃ cert, t = .writing cert ∧ t.advance rows = (rows.upsert cert, .told (.bound true))) ∨
      (∃ waId, t = .called (.deactivate waId) ∧ (t.advance rows).1 = rows.setActive waId false) := by
  cases t with
  | called call =>
    cases call with
    | bindOauthIdentity waId provider externalId =>
      left
      simp only [Phase.advance]
      split
      · rfl
      · split
        · rfl
        · rfl
    | deactivate waId => exact Or.inr (Or.inr ⟨waId, rfl, rfl⟩)
  | writing cert => exact Or.inr (Or.inl ⟨cert, rfl, rfl⟩)
  | told answer => exact Or.inl rfl

/-! ## Writes that find what was read -/

/-- The row still carries no other pair, and it was not retired since it was read. -/
def Unraced (c : Config Rows Phase) (m : Move Call Unit) : Prop :=
  ∀ i cert row, m = .advance i () → c.tasks[i]? = some (.writing cert) →
    c.shared.get cert.waId = some row →
    (row.oauthExternalId = none ∨ row.pair = cert.pair) ∧ (row.active = false → cert.active = false)

/-- What a request has read, or has been answered. -/
def Seen (rows : Rows) : Phase → Prop
  | .writing cert => (rows.get cert.waId).isSome
  | .told (.deactivated waId _) => ∀ row, rows.get waId = some row → row.active = false
  | _ => True

/-- The change of the rows in one step: no row is dropped, no pair is replaced, none is revived. -/
structure Keeps (rows rows' : Rows) : Prop where
  kept : ∀ {waId row}, rows.get waId = some row → ∃ row', rows'.get waId = some row' ∧
    (row.oauthExternalId ≠ none → row'.pair = row.pair) ∧ (row.active = false → row'.active = false)
  absent : ∀ {waId}, rows.get waId = none → rows'.get waId = none

theorem Keeps.refl (rows : Rows) : Keeps rows rows where
  kept h := ⟨_, h, fun _ => rfl, id⟩
  absent := id

theorem keeps_setActive (rows : Rows) (waId : String) : Keeps rows (rows.setActive waId false) := by
  constructor
  · intro waId' row hget
    rw [get_setActive]
    by_cases hsame : waId = waId'
    · rw [if_pos hsame, hget]
      exact ⟨_, rfl, fun _ => rfl, fun _ => rfl⟩
    · rw [if_neg hsame]
      exact ⟨row, hget, fun _ => rfl, id⟩
  · intro waId' hget
    rw [get_setActive, hget]
    simp

/-- A write that finds what was read. -/
theorem keeps_upsert {cert : WaCert} (hseen : (rows.get cert.waId).isSome)
    (h : ∀ row, rows.get cert.waId = some row →
      (row.oauthExternalId = none ∨ row.pair = cert.pair) ∧
        (row.active = false → cert.active = false)) :
    Keeps rows (rows.upsert cert) := by
  constructor
  · intro waId row hget
    rw [get_upsert]
    by_cases hsame : cert.waId = waId
    · rw [if_pos hsame]
      obtain ⟨hpair, hactive⟩ := h row (hsame ▸ hget)
      refine ⟨cert, rfl, fun hcarries => ?_, hactive⟩
      rcases hpair with hnone | hpair
      · exact absurd hnone hcarries
      · exact hpair.symm
    · rw [if_neg hsame]
      exact ⟨row, hget, fun _ => rfl, id⟩
  · intro waId hget
    rw [get_upsert]
    by_cases hsame : cert.waId = waId
    · rw [hsame, hget] at hseen
      cases hseen
    · rw [if_neg hsame, hget]

/-- **Step lemma.** -/
theorem keeps_step (hunraced : Unraced c m) (hseen : ∀ t ∈ c.tasks, Seen c.shared t) :
    Keeps c.shared (bindServer.step c m).shared := by
  cases m with
  | arrive call => exact Keeps.refl _
  | advance i env =>
    cases ht : c.tasks[i]? with
    | none =>
      rw [System.step_advance_none _ _ ht]
      exact Keeps.refl _
    | some t =>
      rw [System.step_advance_some _ _ ht]
      show Keeps c.shared (t.advance c.shared).1
      rcases advance_effect t c.shared with hsame | ⟨cert, rfl, hwrite⟩ | ⟨waId, -, hretire⟩
      · rw [hsame]
        exact Keeps.refl _
      · rw [hwrite]
        exact keeps_upsert (hseen _ (List.mem_of_getElem? ht)) fun row => hunraced i cert row rfl ht
      · rw [hretire]
        exact keeps_setActive c.shared waId

theorem Seen.keeps {rows' : Rows} (hkeeps : Keeps rows rows') {t : Phase} (h : Seen rows t) :
    Seen rows' t := by
  unfold Seen at h ⊢
  split
  next cert =>
    obtain ⟨row, hrow⟩ := Option.isSome_iff_exists.mp h
    obtain ⟨row', hrow', -⟩ := hkeeps.kept hrow
    rw [hrow']
    rfl
  next waId found =>
    intro row' hrow'
    cases hrow : rows.get waId with
    | none =>
      rw [hkeeps.absent hrow] at hrow'
      cases hrow'
    | some row =>
      obtain ⟨kept, hkept, -, hactive⟩ := hkeeps.kept hrow
      rw [hkept, Option.some.injEq] at hrow'
      rw [← hrow']
      exact hactive (h row hrow)
  next => trivial

/-- What a request reads, or is answered, is so. -/
theorem seen_advance {t : Phase} (h : Seen rows t) :
    Seen (t.advance rows).1 (t.advance rows).2 := by
  cases t with
  | called call =>
    cases call with
    | bindOauthIdentity waId provider externalId =>
      simp only [Phase.advance]
      split
      next => trivial
      next cert hget =>
        split
        next => trivial
        next =>
          have hkey : cert.waId = waId := KeyedRows.key_of_get hget
          show (rows.get cert.waId).isSome
          rw [hkey, hget]
          rfl
    | deactivate waId =>
      intro row hrow
      rw [Phase.advance, get_setActive, if_pos rfl, Option.map_eq_some_iff] at hrow
      obtain ⟨_, -, rfl⟩ := hrow
      rfl
  | writing cert => trivial
  | told answer => exact h

/-- **Step lemma.** -/
theorem seen_step (hunraced : Unraced c m) (h : ∀ t ∈ c.tasks, Seen c.shared t) :
    ∀ t ∈ (bindServer.step c m).tasks, Seen (bindServer.step c m).shared t := by
  have hkeeps := keeps_step hunraced h
  have hstep := bindServer.step_preserves (J := fun _ => True) (m := m) trivial h
  refine (hstep ?_ ?_).2
  · intro call _
    exact ⟨trivial, trivial, h⟩
  · intro i env t hm ht
    subst hm
    rw [System.step_advance_some _ _ ht] at hkeeps
    exact ⟨trivial, seen_advance (h t (List.mem_of_getElem? ht)), fun u hu => (h u hu).keeps hkeeps⟩

/-- **Run.** If every write finds what its bind read, no pair is ever replaced, and no cert whose
    retirement was answered is active again. -/
theorem binds_keep_pairs_and_retirement (rows : Rows) (moves later : List (Move Call Unit))
    (hunraced : Guarded bindServer.step Unraced (start rows) (moves ++ later)) :
    (∀ waId row, (after bindServer.step (start rows) moves).shared.get waId = some row →
      row.oauthExternalId ≠ none →
      ∃ row', (after bindServer.step (start rows) (moves ++ later)).shared.get waId = some row' ∧
        row'.pair = row.pair) ∧
    (∀ waId found,
      .told (.deactivated waId found) ∈ (after bindServer.step (start rows) moves).tasks →
      ∀ row, (after bindServer.step (start rows) (moves ++ later)).shared.get waId = some row →
        row.active = false) := by
  obtain ⟨hmoves, hlater⟩ := guarded_append_iff.mp hunraced
  have hseen : ∀ t ∈ (after bindServer.step (start rows) moves).tasks,
      Seen (after bindServer.step (start rows) moves).shared t :=
    Guarded.invariant (I := fun c : Config Rows Phase => ∀ t ∈ c.tasks, Seen c.shared t)
      (fun _ _ h hm => seen_step hm h) hmoves (fun _ h => by cases h)
  rw [after_append]
  generalize after bindServer.step (start rows) moves = c at *
  constructor
  · intro waId row hrow hcarries
    have hrun := Guarded.invariant
      (I := fun c' : Config Rows Phase => (∀ t ∈ c'.tasks, Seen c'.shared t) ∧
        ∃ row', c'.shared.get waId = some row' ∧ row'.pair = row.pair)
      (fun c' m h hm => by
        obtain ⟨hseen, row', hrow', hpair⟩ := h
        refine ⟨seen_step hm hseen, ?_⟩
        obtain ⟨row'', hrow'', hkept, -⟩ := (keeps_step hm hseen).kept hrow'
        have hsame : row'.oauthExternalId = row.oauthExternalId := congrArg Prod.snd hpair
        exact ⟨row'', hrow'', (hkept (hsame ▸ hcarries)).trans hpair⟩)
      hlater ⟨hseen, row, hrow, rfl⟩
    exact hrun.2
  · intro waId found htold
    have hrun := Guarded.invariant
      (I := fun c' : Config Rows Phase => (∀ t ∈ c'.tasks, Seen c'.shared t) ∧
        .told (.deactivated waId found) ∈ c'.tasks)
      (fun c' m h hm => ⟨seen_step hm h.1, bindServer.step_mem_of_fixed (fun _ _ => rfl) h.2⟩)
      hlater ⟨hseen, htold⟩
    exact hrun.1 _ hrun.2

/-! ## Runs on one cert -/

theorem unraced_arrive {call : Call} : Unraced c (.arrive call) := by
  intro i cert row hm
  cases hm

/-- The step of a request that writes no cert. -/
theorem unraced_of_task {i : Nat} {t : Phase} (ht : c.tasks[i]? = some t)
    (h : (t.advance c.shared).2 ≠ .told (.bound true)) : Unraced c (.advance i ()) := by
  intro j cert row hm htask
  cases hm
  rw [ht, Option.some.injEq] at htask
  rw [htask] at h
  exact absurd rfl h

namespace Fixture

/-- A cert that an owner provisioned by email. -/
def invited : WaCert := ⟨"wa-1", "jeff", .observer, none, none, none, 0, true⟩

/-- The cert with a pair. -/
def paired (externalId : String) : WaCert :=
  { invited with oauthProvider := some "google", oauthExternalId := some externalId }

/-- Two sign-ins read the row, and the first is written. -/
def twoBinds : List (Move Call Unit) :=
  [.arrive (.bindOauthIdentity "wa-1" "google" "1"),
    .arrive (.bindOauthIdentity "wa-1" "google" "2"), .advance 0 (), .advance 1 (), .advance 0 ()]

/-- A sign-in reads the row, and the cert is retired. -/
def bindAndRetire : List (Move Call Unit) :=
  [.arrive (.bindOauthIdentity "wa-1" "google" "1"), .arrive (.deactivate "wa-1"), .advance 0 (),
    .advance 1 ()]

/-- A sign-in is read and written, a second is refused, and the cert is retired. -/
def oneByOne : List (Move Call Unit) :=
  [.arrive (.bindOauthIdentity "wa-1" "google" "1"), .advance 0 (), .advance 0 (),
    .arrive (.bindOauthIdentity "wa-1" "google" "2"), .advance 1 (), .arrive (.deactivate "wa-1"),
    .advance 2 ()]

end Fixture

/-- The pair `1` that the cert carries is replaced by `2`; and the cert whose retirement was
    answered is active again. -/
theorem binds_race :
    ((after bindServer.step (start [Fixture.invited]) Fixture.twoBinds).shared.get "wa-1" =
        some (Fixture.paired "1") ∧
      (after bindServer.step (start [Fixture.invited])
        (Fixture.twoBinds ++ [.advance 1 ()])).shared.get "wa-1" = some (Fixture.paired "2")) ∧
    (.told (.deactivated "wa-1" true) ∈
        (after bindServer.step (start [Fixture.invited]) Fixture.bindAndRetire).tasks ∧
      (after bindServer.step (start [Fixture.invited])
        (Fixture.bindAndRetire ++ [.advance 0 ()])).shared.get "wa-1" =
          some (Fixture.paired "1")) := by
  decide

theorem binds_keep_pairs_and_retirement_oneByOne :
    ∃ row, (after bindServer.step (start [Fixture.invited]) (Fixture.oneByOne ++ [])).shared.get
        "wa-1" = some row ∧ row.pair = (some "google", some "1") ∧ row.active = false := by
  have hunraced : Guarded bindServer.step Unraced (start [Fixture.invited])
      (Fixture.oneByOne ++ []) := by
    refine ⟨unraced_arrive, unraced_of_task rfl (by decide), ?_, unraced_arrive,
      unraced_of_task rfl (by decide), unraced_arrive, unraced_of_task rfl (by decide), trivial⟩
    -- the one write finds the row as it was read
    intro i cert row hm htask hget
    cases hm
    cases htask
    cases hget
    exact ⟨Or.inl rfl, id⟩
  obtain ⟨hpairs, hretired⟩ :=
    binds_keep_pairs_and_retirement [Fixture.invited] Fixture.oneByOne [] hunraced
  obtain ⟨row, hrow, hpair⟩ :=
    hpairs "wa-1" { Fixture.paired "1" with active := false } rfl (by decide)
  exact ⟨row, hrow, hpair, hretired "wa-1" true (by decide) row hrow⟩

end CirisServer.AuthStore
