import CirisServer.Native.OauthSignIn
import CirisServer.Spec.OauthSignIn
import CirisServer.Spec.SessionExpiry

/-!
# The role a door reports

A bearer has the role of the cert that it names. A login and a refresh read it there; an OAuth
sign-in makes it up from the address, before it knows whose cert it comes to.

Key results:
- `resolveOauthUser_ok`: whose cert a sign-in ends with
- `reports_iff`: the doors that report the role of the session
-/

namespace CirisServer.LoginDoors

open SessionToken AuthStore SessionGrant

variable {L : Lib} {P : Passwords} {I : OauthIndex} {managed : Bool} {s : Sessions} {t t' : Table}
variable {raw : List UInt8} {grant : Grant} {c : WaCert} {ident : OAuthIdentity}
variable {delegated : String → Option BoundCaller}

/-! ## The bearer -/

/-- The bearer resolves to the role. -/
def HasRole (L : Lib) (delegated : String → Option BoundCaller) (s : Sessions) (t : Table)
    (token : String) (role : UserRole) : Prop :=
  ∃ caller, resolveBearer L delegated s (fun waId => .ok (t.rows.get waId)) token =
    .ok (some caller) ∧ caller.role = role

/-- A bearer has the role of its cert. -/
theorem hasRole_issue_iff (hurl : UrlSafe L) (hfresh : L.base64Url raw ∉ s.revoked) {waId : String}
    (hget : t.rows.get waId = some c) (hactive : c.active = true) {role role' : UserRole}
    {ttl : Nat} :
    HasRole L delegated s t (issueWithTtl L s raw waId role' ttl).accessToken role ↔
      fromWaRole c.role = role := by
  have hname := waIdFromToken_issue hurl waId hfresh
  have hauthentic := (waIdFromToken_eq_some_iff.mp hname).1
  have hsession : "dgrant:".toList.isPrefixOf (issueSessionToken L s.secret waId raw).toList =
      false := not_delegated_spell
  simp only [HasRole, issueWithTtl, resolveBearer, hsession, hname, hauthentic, hget, hactive]
  simp

/-! ## The doors -/

theorem get_of_loginByOauth {ident : String} (h : (t.store I).loginByOauth ident = .ok (some c)) :
    t.rows.get c.waId = some c := by
  unfold WaStore.loginByOauth at h
  split at h
  · split at h
    · exact (get_of_getByOauth h).1
    · cases h
  · cases h

theorem get_of_oneNamed {ident : String}
    (h : WaStore.oneNamed ident ((t.store I).certsNamed ident) = .ok (some c)) :
    t.rows.get c.waId = some c := by
  have hscan : c ∈ (t.store I).certsNamed ident := by
    unfold WaStore.oneNamed at h
    split at h
    · cases h
    · next c' hnamed =>
      cases h
      exact hnamed ▸ List.mem_singleton_self c
    · cases h
  exact get_of_mem t.keyed (WaStore.mem_holders.mp (WaStore.mem_holders_of_scan hscan)).1

theorem get_of_resolveLoginDetailed {ident : String} {how : WaStore.LoginMatch}
    (h : (t.store I).resolveLoginDetailed ident = .ok (.ok (c, how))) :
    t.rows.get c.waId = some c := by
  unfold WaStore.resolveLoginDetailed at h
  cases hget : (t.store I).rows.get ident with
  | some found =>
    -- what was typed is the id of a cert
    rw [hget] at h
    cases h
    exact (KeyedRows.key_of_get hget).symm ▸ hget
  | none =>
    rw [hget] at h
    cases hoauth : (t.store I).loginByOauth ident with
    | error e =>
      rw [hoauth] at h
      cases h
    | ok found =>
      cases found with
      | some found =>
        -- it is the account of one
        rw [hoauth] at h
        cases h
        exact get_of_loginByOauth hoauth
      | none =>
        rw [hoauth] at h
        cases hnamed : WaStore.oneNamed ident ((t.store I).certsNamed ident) with
        | error e =>
          rw [hnamed] at h
          cases h
        | ok found =>
          cases found with
          | some found =>
            -- it is the name of one, and of no other
            rw [hnamed] at h
            cases h
            exact get_of_oneNamed hnamed
          | none =>
            rw [hnamed] at h
            cases h

theorem login_ok {username password : String}
    (h : login L P s (t.store I) raw username password = .ok grant) :
    ∃ c, t.rows.get c.waId = some c ∧ c.active = true ∧
      grant = issue L s raw c.waId (fromWaRole c.role) := by
  unfold login at h
  split at h
  · cases h
  · cases h
  · next c how hresolved =>
    split at h
    · cases h
    · next hactive =>
      split at h
      · cases h
      · split at h
        · cases h
        · cases h
          exact ⟨c, get_of_resolveLoginDetailed hresolved, by simpa using hactive, rfl⟩

theorem refresh_cert {bearer : Option String}
    (h : refresh L s (fun waId => .ok (t.rows.get waId)) raw bearer = .ok grant) :
    ∃ c, t.rows.get c.waId = some c ∧ c.active = true ∧ grant =
      issueWithTtl L s raw c.waId (fromWaRole c.role) (refreshTtl (fromWaRole c.role)) := by
  unfold refresh at h
  split at h
  · cases h
  · next waId _ =>
    split at h
    · cases h
    · cases h
    · next c hread =>
      have hget : t.rows.get waId = some c := by simpa using hread
      split at h
      · next hactive =>
        cases h
        have hkey : c.waId = waId := KeyedRows.key_of_get hget
        exact ⟨c, hkey ▸ hget, hactive, rfl⟩
      · cases h

/-! ## An OAuth sign-in -/

/-- The cert of the pair, or else the one that was provisioned for the address. -/
def comesTo (I : OauthIndex) (t : Table) (ident : OAuthIdentity) : Option WaCert :=
  match (t.store I).getByOauth ident.provider ident.externalId with
  | .ok (some c) => some c
  | _ => ident.email.bind (t.store I).findPreprovisionedByEmail

/-- The pair is not ambiguous, and there is a cert to come to, or one may be created. -/
def Accepted (I : OauthIndex) (managed : Bool) (t : Table) (ident : OAuthIdentity) : Prop :=
  (∀ e, (t.store I).getByOauth ident.provider ident.externalId ≠ .error e) ∧
    ((comesTo I t ident).isSome = true ∨ (t.store I).isFirstRun = true ∨ managed = true)

/-- A sign-in ends with the cert that it comes to, or with one of the role that it brings. -/
theorem resolveOauthUser_ok {r : SignIn} (h : Accepted I managed t r.ident) :
    ∃ waId c, (resolveOauthUser I managed t r).2 = .ok waId ∧
      (resolveOauthUser I managed t r).1.rows.get waId = some c ∧ c.active = true ∧
      c.role = (comesTo I t r.ident).elim (waRoleOf r.role) (·.role) := by
  obtain ⟨hclear, hroom⟩ := h
  unfold comesTo at hroom ⊢
  unfold resolveOauthUser
  cases hpair : (t.store I).getByOauth r.ident.provider r.ident.externalId with
  | error e => exact absurd hpair (hclear e)
  | ok found =>
    cases found with
    | some c =>
      -- the role that the sign-in brings is not looked at
      obtain ⟨hget, hactive, -⟩ := get_of_getByOauth hpair
      exact ⟨c.waId, c, rfl, hget, hactive, rfl⟩
    | none =>
      rw [hpair] at hroom
      cases hslot : r.ident.email.bind (t.store I).findPreprovisionedByEmail with
      | some slot =>
        -- the provisioned cert takes the pair, and keeps its role
        obtain ⟨email, -, hemail⟩ := Option.bind_eq_some_iff.mp hslot
        obtain ⟨hget, hactive, hunpaired⟩ := get_of_slot hemail
        simp only
        rw [bind_of_slot hget hunpaired]
        refine ⟨slot.waId,
          { slot with
            oauthProvider := some r.ident.provider
            oauthExternalId := some r.ident.externalId }, rfl, ?_, hactive, rfl⟩
        exact (KeyedRows.get_upsert _ _ _).trans (if_pos rfl)
      | none =>
        -- a new cert, the only one that has the role of the sign-in
        rw [hslot] at hroom
        have hopen : (!(t.store I).isFirstRun && !managed) = false := by
          rcases hroom with hnone | hfirst | hmanaged
          · cases hnone
          · simp [hfirst]
          · simp [hmanaged]
        simp only [hopen, createOauthUserInner, hpair]
        refine ⟨r.ident.waId, r.ident.cert r.role r.now r.linkedAt, rfl, ?_, rfl, rfl⟩
        exact (KeyedRows.get_upsert _ _ _).trans (if_pos rfl)

theorem accepted_of_ok {r : SignIn} {waId : String}
    (h : (resolveOauthUser I managed t r).2 = .ok waId) : Accepted I managed t r.ident := by
  unfold resolveOauthUser at h
  unfold Accepted comesTo
  cases hpair : (t.store I).getByOauth r.ident.provider r.ident.externalId with
  | error e =>
    rw [hpair] at h
    cases h
  | ok found =>
    refine ⟨by simp, ?_⟩
    cases found with
    | some c => exact Or.inl rfl
    | none =>
      rw [hpair] at h
      cases hslot : r.ident.email.bind (t.store I).findPreprovisionedByEmail with
      | some slot => exact Or.inl rfl
      | none =>
        rw [hslot] at h
        right
        by_contra hclosed
        rw [not_or, Bool.not_eq_true, Bool.not_eq_true] at hclosed
        simp [hclosed.1, hclosed.2] at h

/-- The sign-in that is resolved, with the role that the address makes. -/
def signIn (ident : OAuthIdentity) (now : Int) (linkedAt : String) : SignIn :=
  ⟨ident, determineRole ident.email, now, linkedAt⟩

theorem enter_oauth_ok {now : Int} {linkedAt : String} :
    (enter L P I managed s t raw (.oauth ident now linkedAt)).2 = .ok grant ↔
      ∃ waId, (resolveOauthUser I managed t (signIn ident now linkedAt)).2 = .ok waId ∧
        grant = issue L s raw waId (determineRole ident.email) := by
  have henter : (enter L P I managed s t raw (.oauth ident now linkedAt)).2 =
      ((resolveOauthUser I managed t (signIn ident now linkedAt)).2.map fun userId =>
        issue L s raw userId (determineRole ident.email)).mapError .oauth := rfl
  rw [henter]
  cases (resolveOauthUser I managed t (signIn ident now linkedAt)).2 with
  | error e => simp [Except.map, Except.mapError]
  | ok waId => simp [Except.map, Except.mapError, eq_comm]

/-! ## What is reported -/

/-- The role of the grant is the one that its bearer has on the next request. -/
def Reports (L : Lib) (P : Passwords) (I : OauthIndex) (managed : Bool)
    (delegated : String → Option BoundCaller) (s : Sessions) (t : Table) (raw : List UInt8)
    (door : Door) : Prop :=
  ∀ grant, (enter L P I managed s t raw door).2 = .ok grant →
    HasRole L delegated s (enter L P I managed s t raw door).1 grant.accessToken grant.role

/-- Password and refresh; and an OAuth sign-in that is refused, or that brings no staff address and
    comes to the cert of an observer or to none. -/
def Plain (I : OauthIndex) (managed : Bool) (t : Table) : Door → Prop
  | .login .. => True
  | .oauth ident .. => Accepted I managed t ident →
      isStaff ident.email = false ∧ ∀ c ∈ comesTo I t ident, c.role = .observer
  | .refresh _ => True

/-- The role that the address makes is the role of the cert. -/
theorem role_eq_iff (role : Option WaRole) :
    fromWaRole (role.getD (waRoleOf (determineRole ident.email))) = determineRole ident.email ↔
      isStaff ident.email = false ∧ ∀ r ∈ role, r = .observer := by
  unfold determineRole
  cases isStaff ident.email with
  | true =>
    cases role with
    | none => decide
    | some r => cases r <;> simp [fromWaRole]
  | false =>
    cases role with
    | none => decide
    | some r => cases r <;> simp [fromWaRole]

theorem reports_oauth_iff (hurl : UrlSafe L) (hfresh : L.base64Url raw ∉ s.revoked) {now : Int}
    {linkedAt : String} :
    Reports L P I managed delegated s t raw (.oauth ident now linkedAt) ↔
      (Accepted I managed t ident →
        isStaff ident.email = false ∧ ∀ c ∈ comesTo I t ident, c.role = .observer) := by
  have hcert : ∀ waId, (resolveOauthUser I managed t (signIn ident now linkedAt)).2 = .ok waId →
      (HasRole L delegated s (resolveOauthUser I managed t (signIn ident now linkedAt)).1
        (issue L s raw waId (determineRole ident.email)).accessToken (determineRole ident.email) ↔
      isStaff ident.email = false ∧ ∀ c ∈ comesTo I t ident, c.role = .observer) := by
    intro waId hok
    -- the bearer has the role of the cert that the sign-in ends with
    obtain ⟨waId', c, hok', hget, hactive, hc⟩ := resolveOauthUser_ok (accepted_of_ok hok)
    obtain rfl : waId = waId' := Except.ok.inj (hok.symm.trans hok')
    have hgetD : c.role = ((comesTo I t ident).map (·.role)).getD
        (waRoleOf (determineRole ident.email)) := by
      rw [hc]
      cases hcert : comesTo I t ident <;> simp [signIn, hcert]
    refine (hasRole_issue_iff hurl hfresh hget hactive).trans ?_
    rw [hgetD, role_eq_iff]
    simp
  constructor
  · intro h haccepted
    obtain ⟨waId, c, hok, -⟩ :=
      resolveOauthUser_ok (r := signIn ident now linkedAt) haccepted
    exact (hcert waId hok).mp (h _ (enter_oauth_ok.mpr ⟨waId, hok, rfl⟩))
  · intro h grant hgrant
    obtain ⟨waId, hok, rfl⟩ := enter_oauth_ok.mp hgrant
    exact (hcert waId hok).mpr (h (accepted_of_ok hok))

/-- **Doors.** A door reports the role of the session exactly if it is a plain one. -/
theorem reports_iff (L : Lib) (hurl : UrlSafe L) (P : Passwords) (I : OauthIndex) (managed : Bool)
    (delegated : String → Option BoundCaller) (s : Sessions) (t : Table) (raw : List UInt8)
    (hfresh : L.base64Url raw ∉ s.revoked) (door : Door) :
    Reports L P I managed delegated s t raw door ↔ Plain I managed t door := by
  cases door with
  | login username password =>
    refine iff_of_true (fun grant h => ?_) trivial
    obtain ⟨c, hget, hactive, rfl⟩ := login_ok h
    exact (hasRole_issue_iff hurl hfresh hget hactive).mpr rfl
  | oauth ident now linkedAt => exact reports_oauth_iff hurl hfresh
  | refresh bearer =>
    refine iff_of_true (fun grant h => ?_) trivial
    have hgrant : refresh L s (fun waId => .ok (t.rows.get waId)) raw bearer = .ok grant := by
      revert h
      simp only [enter]
      cases refresh L s (fun waId => .ok (t.rows.get waId)) raw bearer <;> simp [Except.mapError]
    obtain ⟨c, hget, hactive, rfl⟩ := refresh_cert hgrant
    exact (hasRole_issue_iff hurl hfresh hget hactive).mpr rfl

/-! ## An owner who is told that they observe -/

namespace Fixture

/-- What is drawn for the nonce. -/
def drawn : List UInt8 := List.replicate 24 0

def passwords : Passwords := ⟨fun _ => none, fun _ _ => [], fun _ => none, fun _ => ""⟩

def paired (waId : String) (role : WaRole) (externalId : String) : WaCert where
  waId := waId
  name := waId
  role := role
  oauthProvider := some "google"
  oauthExternalId := some externalId
  oauthLinks := none
  created := 0
  active := true

/-- The owner and an observer have linked their accounts. -/
def table : Table where
  rows := [paired "wa-root-alice" .root "42", paired "oauth-google-43" .observer "43"]
  keyed := by decide

def owner : Door :=
  .oauth ⟨"google", "42", some "alice@example.org", none⟩ 0 "2026-01-01T00:00:00+00:00"

def observer : Door :=
  .oauth ⟨"google", "43", some "bob@example.org", none⟩ 0 "2026-01-01T00:00:00+00:00"

end Fixture

open SessionToken.Fixture (lib urlSafe secret)

/-- The grant of an owner who signs in with a linked account says that they observe; the bearer in
    it is that of a system admin. -/
theorem owner_reported_observer :
    ¬ Reports lib Fixture.passwords SignInFixture.index false (fun _ => none) (.new secret)
      Fixture.table Fixture.drawn Fixture.owner := by
  intro h
  have hgrant := h (issue lib (.new secret) Fixture.drawn "wa-root-alice" .observer)
    (by decide +kernel)
  have hrole := (hasRole_issue_iff (c := Fixture.paired "wa-root-alice" .root "42") urlSafe
    List.not_mem_nil (by decide +kernel) rfl).mp hgrant
  cases hrole

theorem reports_iff_observer :
    Reports lib Fixture.passwords SignInFixture.index false (fun _ => none) (.new secret)
      Fixture.table Fixture.drawn Fixture.observer := by
  refine (reports_iff lib urlSafe _ _ _ _ (.new secret) _ Fixture.drawn List.not_mem_nil _).mpr ?_
  intro _
  refine ⟨by decide +kernel, fun c hc => ?_⟩
  have hcert : comesTo SignInFixture.index Fixture.table ⟨"google", "43", some "bob@example.org",
      none⟩ = some (Fixture.paired "oauth-google-43" .observer "43") := by decide +kernel
  cases hcert.symm.trans hc
  rfl

end CirisServer.LoginDoors
