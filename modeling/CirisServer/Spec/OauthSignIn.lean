import CirisServer.ForStd.Group
import CirisServer.Native.OauthSignIn
import CirisServer.Spec.LoginResolution
import CirisServer.Spec.OauthBind

/-!
# What a sign-in does to the certs of others

A sign-in finds a live cert with its pair, or a provisioned one, and leaves the others alone. One
that creates a cert writes it under a `wa_id` that is made of the pair, without a look at the row
that is there: a retired cert is revived, and so is the cert of a pair whose two names join to the
same text.

Key results:
- `resolve_cases`: what a sign-in does
- `promise_iff`: a sign-in that leaves the certs of others alone
- `retired_stays_retired`: every run whose sign-ins find no such row
- `retired_revived`: a run in which one does
-/

namespace CirisServer.AuthStore

open Run

variable {I : OauthIndex} {managed : Bool} {t : Table} {r : SignIn} {c : WaCert} {waId : String}

/-! ## The lookups -/

theorem get_of_mem {rows : Rows} (hkeyed : (rows.map WaCert.waId).Nodup) (h : c ∈ rows) :
    rows.get c.waId = some c :=
  (List.find?_key_eq_some_iff hkeyed).mpr ⟨h, rfl⟩

theorem get_of_getByOauth {provider externalId : String}
    (h : (t.store I).getByOauth provider externalId = .ok (some c)) :
    t.rows.get c.waId = some c ∧ c.active = true ∧ c.pair = (some provider, some externalId) := by
  have hholder : c ∈ (t.store I).holders (WaStore.holdsPair provider externalId) := by
    unfold WaStore.getByOauth WaStore.liveOauthHolders at h
    split at h
    · exact WaStore.mem_holders_of_index (Except.ok.inj h)
    next c' hlive =>
      obtain rfl := Option.some.inj (Except.ok.inj h)
      exact WaStore.mem_holders_of_scan (hlive ▸ List.mem_singleton.mpr rfl)
    · cases h
  obtain ⟨hrow, hactive, hpair⟩ := WaStore.mem_holders.mp hholder
  have hpair' : c.active = true ∧ c.oauthProvider = some provider ∧
      c.oauthExternalId = some externalId := of_decide_eq_true hpair
  exact ⟨get_of_mem t.keyed hrow, hactive, by rw [WaCert.pair, hpair'.2.1, hpair'.2.2]⟩

theorem get_of_slot {email : String}
    (h : (t.store I).findPreprovisionedByEmail email = some c) :
    t.rows.get c.waId = some c ∧ c.active = true ∧ c.oauthExternalId = none := by
  have hholder : c ∈ (t.store I).holders
      (WaStore.carries (WaStore.address email)) := by
    unfold WaStore.findPreprovisionedByEmail at h
    simp only at h
    split at h
    · cases h
    · split at h
      next c' hscan =>
        obtain rfl := Option.some.inj h
        exact WaStore.mem_holders_of_scan (hscan ▸ List.mem_singleton.mpr rfl)
      · cases h
  obtain ⟨hrow, hactive, hcarries⟩ := WaStore.mem_holders.mp hholder
  have hcarries' := of_decide_eq_true hcarries
  exact ⟨get_of_mem t.keyed hrow, hactive, hcarries'.2.1⟩

/-- A bind of a cert without a pair writes the pair onto it. -/
theorem bind_of_slot {provider externalId : String} (h : t.rows.get c.waId = some c)
    (hnone : c.oauthExternalId = none) :
    t.bindOauthIdentity c.waId provider externalId = t.upsert
      { c with oauthProvider := some provider, oauthExternalId := some externalId } := by
  rw [Table.bindOauthIdentity, Phase.advance]
  simp only [h, hnone, Option.isSome_none, Bool.false_eq_true, if_false]

/-! ## A sign-in -/

/-- No live cert holds the pair, none is provisioned for the address, and the node creates certs. -/
def Creates (I : OauthIndex) (managed : Bool) (t : Table) (r : SignIn) : Prop :=
  (t.store I).getByOauth r.ident.provider r.ident.externalId = .ok none ∧
    r.ident.email.bind (t.store I).findPreprovisionedByEmail = none ∧
    ((t.store I).isFirstRun = true ∨ managed = true)

/-- **Inversion.** A sign-in changes nothing, writes its pair onto a live cert without one, or
    creates a cert. -/
theorem resolve_cases (I : OauthIndex) (managed : Bool) (t : Table) (r : SignIn) :
    (¬ Creates I managed t r ∧ (resolveOauthUser I managed t r).1 = t ∧
      ∀ waId, (resolveOauthUser I managed t r).2 = .ok waId → ∃ c, t.rows.get waId = some c ∧
        c.pair = (some r.ident.provider, some r.ident.externalId)) ∨
    (∃ slot, t.rows.get slot.waId = some slot ∧ slot.active = true ∧
      slot.oauthExternalId = none ∧ ¬ Creates I managed t r ∧
      resolveOauthUser I managed t r = (t.upsert
        { slot with
          oauthProvider := some r.ident.provider
          oauthExternalId := some r.ident.externalId }, .ok slot.waId)) ∨
    (Creates I managed t r ∧ resolveOauthUser I managed t r =
      (t.upsert (r.ident.cert r.role r.now r.linkedAt), .ok r.ident.waId)) := by
  unfold resolveOauthUser Creates
  split
  case h_1 e herror =>
    refine Or.inl ⟨fun hcreates => ?_, rfl, fun _ h => by cases h⟩
    cases herror.symm.trans hcreates.1
  case h_2 c hfound =>
    refine Or.inl ⟨fun hcreates => ?_, rfl, fun waId h => ?_⟩
    · cases hfound.symm.trans hcreates.1
    obtain rfl := Except.ok.inj h
    obtain ⟨hget, -, hpair⟩ := get_of_getByOauth hfound
    exact ⟨c, hget, hpair⟩
  case h_3 hnone =>
    split
    case h_1 slot hslot =>
      obtain ⟨email, -, hemail⟩ := Option.bind_eq_some_iff.mp hslot
      obtain ⟨hget, hactive, hpair⟩ := get_of_slot hemail
      refine Or.inr (Or.inl ⟨slot, hget, hactive, hpair, ?_, ?_⟩)
      · rintro ⟨-, hslotless, -⟩
        rw [hslot] at hslotless
        cases hslotless
      · rw [bind_of_slot hget hpair]
    case h_2 hslot =>
      split
      case isTrue hrefused =>
        refine Or.inl ⟨?_, rfl, fun _ h => by cases h⟩
        rintro ⟨-, -, hopen⟩
        rw [Bool.and_eq_true, Bool.not_eq_true', Bool.not_eq_true'] at hrefused
        rcases hopen with hfirst | hmanaged
        · rw [hrefused.1] at hfirst
          cases hfirst
        · rw [hrefused.2] at hmanaged
          cases hmanaged
      case isFalse hopen =>
        refine Or.inr (Or.inr ⟨⟨hnone, hslot, ?_⟩, ?_⟩)
        · simpa [Classical.or_iff_not_imp_left] using hopen
        · simp only [createOauthUserInner, hnone]
          rfl

/-- The pair of the sign-in. -/
def SignIn.pair (r : SignIn) : Option String × Option String :=
  (some r.ident.provider, some r.ident.externalId)

/-- The cert carries a pair, and it is another one. -/
def CarriesOther (r : SignIn) (c : WaCert) : Prop :=
  c.oauthProvider.isSome = true ∧ c.oauthExternalId.isSome = true ∧ c.pair ≠ r.pair

/-- A sign-in leaves every retired cert and every cert of another pair as it is, and what it writes
    and whom it signs in carries its own pair. -/
structure Promise (I : OauthIndex) (managed : Bool) (t : Table) (r : SignIn) : Prop where
  retired : ∀ waId c, t.rows.get waId = some c → c.active = false →
    (resolveOauthUser I managed t r).1.rows.get waId = some c
  others : ∀ waId c, t.rows.get waId = some c → CarriesOther r c →
    (resolveOauthUser I managed t r).1.rows.get waId = some c
  written : ∀ waId c, (resolveOauthUser I managed t r).1.rows.get waId = some c →
    t.rows.get waId = some c ∨ c.pair = r.pair
  signedIn : ∀ waId, (resolveOauthUser I managed t r).2 = .ok waId →
    ∃ c, (resolveOauthUser I managed t r).1.rows.get waId = some c ∧ c.pair = r.pair

/-- A sign-in that creates finds no retired cert and none of another pair under its `wa_id`. -/
def Clean (I : OauthIndex) (managed : Bool) (t : Table) (r : SignIn) : Prop :=
  Creates I managed t r →
    ∀ c, t.rows.get r.ident.waId = some c → c.active = true ∧ ¬ CarriesOther r c

theorem get_table_upsert (cert : WaCert) (waId : String) :
    (t.upsert cert).rows.get waId = if cert.waId = waId then some cert else t.rows.get waId :=
  get_upsert t.rows cert waId

/-- A write of the own pair over a row that is neither retired nor of another pair. -/
theorem promise_of_upsert {cert : WaCert} {answer : String}
    (hresolve : resolveOauthUser I managed t r = (t.upsert cert, .ok answer))
    (hanswer : cert.waId = answer) (hpair : cert.pair = r.pair)
    (hold : ∀ c, t.rows.get cert.waId = some c → c.active = true ∧ ¬ CarriesOther r c) :
    Promise I managed t r := by
  refine ⟨fun waId c hget hretired => ?_, fun waId c hget hother => ?_, fun waId c hget => ?_,
    fun waId hok => ?_⟩
  · rw [hresolve, get_table_upsert]
    by_cases hsame : cert.waId = waId
    · rw [(hold c (hsame ▸ hget)).1] at hretired
      cases hretired
    · rw [if_neg hsame, hget]
  · rw [hresolve, get_table_upsert]
    by_cases hsame : cert.waId = waId
    · exact absurd hother (hold c (hsame ▸ hget)).2
    · rw [if_neg hsame, hget]
  · rw [hresolve, get_table_upsert] at hget
    by_cases hsame : cert.waId = waId
    · rw [if_pos hsame] at hget
      exact Or.inr (Option.some.inj hget ▸ hpair)
    · rw [if_neg hsame] at hget
      exact Or.inl hget
  · rw [hresolve] at hok ⊢
    obtain rfl := Except.ok.inj hok
    exact ⟨cert, by rw [get_table_upsert, if_pos hanswer], hpair⟩

/-- **Exactness.** -/
theorem promise_iff : Promise I managed t r ↔ Clean I managed t r := by
  rcases resolve_cases I managed t r with ⟨hcreates, hsame, hfound⟩ |
    ⟨slot, hget, hactive, hnone, hcreates, hresolve⟩ | ⟨hcreates, hresolve⟩
  · have hpromise : Promise I managed t r := by
      refine ⟨fun _ c hget _ => ?_, fun _ c hget _ => ?_, fun _ c hget => ?_, fun waId hok => ?_⟩
      · rw [hsame, hget]
      · rw [hsame, hget]
      · exact Or.inl (hsame ▸ hget)
      · rw [hsame]
        exact hfound waId hok
    exact ⟨fun _ hc => absurd hc hcreates, fun _ => hpromise⟩
  · have hpromise : Promise I managed t r := by
      apply promise_of_upsert hresolve rfl rfl
      intro c hc
      obtain rfl : slot = c := Option.some.inj (hget.symm.trans hc)
      refine ⟨hactive, fun hother => ?_⟩
      rw [CarriesOther, hnone] at hother
      cases hother.2.1
    exact ⟨fun _ hc => absurd hc hcreates, fun _ => hpromise⟩
  · constructor
    · intro h _ c hget
      have hnew : (resolveOauthUser I managed t r).1.rows.get r.ident.waId =
          some (r.ident.cert r.role r.now r.linkedAt) := by
        rw [hresolve, get_table_upsert]
        exact if_pos rfl
      constructor
      · by_contra hretired
        have hkept := h.retired _ c hget (Bool.eq_false_iff.mpr hretired)
        rw [hnew] at hkept
        exact hretired (Option.some.inj hkept ▸ rfl)
      · intro hother
        have hkept := h.others _ c hget hother
        rw [hnew] at hkept
        exact hother.2.2 (Option.some.inj hkept ▸ rfl)
    · intro hclean
      exact promise_of_upsert hresolve rfl rfl (hclean hcreates)

/-! ## Runs -/

/-- The promise of a step. A deactivation makes none. -/
def StepPromise (I : OauthIndex) (managed : Bool) (t : Table) : Step → Prop
  | .signIn r => Promise I managed t r
  | .deactivate _ => True

def StepClean (I : OauthIndex) (managed : Bool) (t : Table) : Step → Prop
  | .signIn r => Clean I managed t r
  | .deactivate _ => True

theorem get_deactivate (waId waId' : String) :
    (t.setActive waId' false).rows.get waId =
      if waId' = waId then (t.rows.get waId).map fun c => { c with active := false }
      else t.rows.get waId :=
  get_setActive t.rows waId waId' false

/-- **Step lemma.** A retired cert stays as it is. -/
theorem retired_step {step : Step} (hclean : StepClean I managed t step)
    (hget : t.rows.get waId = some c) (hretired : c.active = false) :
    (t.step I managed step).rows.get waId = some c := by
  cases step with
  | signIn r => exact (promise_iff.mpr hclean).retired waId c hget hretired
  | deactivate waId' =>
    show (t.setActive waId' false).rows.get waId = some c
    rw [get_deactivate, hget]
    split
    · rw [Option.map_some, ← hretired]
    · rfl

/-- **Run.** Once a cert is deactivated, no later sign-in changes it, and no sign-in touches the
    cert of another pair. -/
theorem retired_stays_retired (I : OauthIndex) (managed : Bool) (t : Table)
    (before later : List Step) (waId : String)
    (h : Guarded (Table.step I managed) (StepClean I managed) t
      (before ++ .deactivate waId :: later)) :
    (∀ c, (after (Table.step I managed) t (before ++ [.deactivate waId])).rows.get waId = some c →
      c.active = false ∧
        (after (Table.step I managed) t (before ++ .deactivate waId :: later)).rows.get waId =
          some c) ∧
    Guarded (Table.step I managed) (StepPromise I managed) t
      (before ++ .deactivate waId :: later) := by
  constructor
  · intro c hget
    have hlater := (guarded_append_iff.mp h).2.2
    rw [after_append, after_cons, after_nil] at hget
    rw [after_append, after_cons]
    have hretired : c.active = false := by
      change ((after (Table.step I managed) t before).setActive waId false).rows.get waId =
        some c at hget
      rw [get_deactivate, if_pos rfl] at hget
      obtain ⟨c', -, rfl⟩ := Option.map_eq_some_iff.mp hget
      rfl
    refine ⟨hretired, ?_⟩
    exact hlater.invariant (I := fun t => t.rows.get waId = some c)
      (fun _ _ hget hclean => retired_step hclean hget hretired) hget
  · apply h.imp
    intro t step hclean
    cases step with
    | signIn r => exact promise_iff.mpr hclean
    | deactivate waId => trivial

/-! ### A retired cert that comes back -/

namespace SignInFixture

/-- An index that answers with the first row. -/
def index : OauthIndex where
  find rows provider externalId :=
    rows.find? fun c => c.oauthProvider = some provider ∧ c.oauthExternalId = some externalId
  holds h := by
    have hpair := List.find?_some h
    simp only [decide_eq_true_eq] at hpair
    exact ⟨List.mem_of_find?_eq_some h, hpair⟩
  finds hc hprovider hexternalId := by
    rw [← Option.isSome_iff_exists, List.find?_isSome]
    exact ⟨_, hc, by simp [hprovider, hexternalId]⟩

def empty : Table := ⟨[], List.nodup_nil⟩

/-- An observer signs in at a time. -/
def signIn (provider externalId : String) (now : Int) : SignIn :=
  ⟨⟨provider, externalId, none, none⟩, .observer, now, "2026-01-01T00:00:00+00:00"⟩

/-- What the store holds under the `wa_id`, on a managed node. -/
def found (steps : List Step) (waId : String) : Option WaCert :=
  (after (Table.step index true) empty steps).rows.get waId

end SignInFixture

open SignInFixture

/-- A retired cert is active again after the next sign-in with its pair; and a sign-in of one pair
    overwrites the cert of another, whose provider and subject join to the same `wa_id`. -/
theorem retired_revived :
    (found [.signIn (signIn "google" "42" 0), .deactivate "oauth-google-42"]
        "oauth-google-42").map (·.active) = some false ∧
      (found [.signIn (signIn "google" "42" 0), .deactivate "oauth-google-42",
        .signIn (signIn "google" "42" 1)] "oauth-google-42").map (·.active) = some true ∧
      providerNameIsWellformed "google-x" = true ∧
      (found [.signIn (signIn "google" "x-1" 0)] "oauth-google-x-1").map (·.pair) =
        some (some "google", some "x-1") ∧
      (found [.signIn (signIn "google" "x-1" 0), .signIn (signIn "google-x" "1" 1)]
        "oauth-google-x-1").map (·.pair) = some (some "google-x", some "1") := by
  decide +kernel

theorem retired_stays_retired_other :
    Guarded (Table.step index true) (StepPromise index true) empty
      ([.signIn (signIn "google" "42" 0)] ++
        .deactivate "oauth-google-42" :: [.signIn (signIn "google" "43" 1)]) := by
  have hclean : Guarded (Table.step index true) (StepClean index true) empty
      ([.signIn (signIn "google" "42" 0)] ++
        .deactivate "oauth-google-42" :: [.signIn (signIn "google" "43" 1)]) := by
    refine ⟨fun _ c hget => ?_, trivial, fun _ c hget => ?_, trivial⟩
    · cases hget
    · have hnone : ((empty.step index true (.signIn (signIn "google" "42" 0))).step index true
          (.deactivate "oauth-google-42")).rows.get "oauth-google-43" = none := by decide +kernel
      cases hnone.symm.trans hget
  exact (retired_stays_retired index true empty _ _ _ hclean).2

end CirisServer.AuthStore
