import CirisServer.Native.SessionGrant
import CirisServer.Spec.Logout

/-!
# When a session ends

No check of a session reads the time, so a bearer is accepted as long as its process runs with the
secret that it was minted under. What ends it is a logout, a rotation of the secret, or the cert.

Key results:
- `Handed.accepted_iff`: what the two doors ask of a token that was handed out
- `bearer_refused_iff`: every run, at every time
- `bearer_outlives_grant`: a bearer that is accepted after its time
-/

namespace CirisServer.SessionGrant

open SessionToken AuthStore Run

variable {L : Lib} {delegated : String → Option BoundCaller} {s : Sessions} {read : Read}
variable {n : Node} {st : Step} {h : Handed} {token waId : String}

/-! ## The doors -/

/-- `resolve_bearer` finds a caller. -/
def Resolves (L : Lib) (delegated : String → Option BoundCaller) (s : Sessions) (read : Read)
    (token : String) : Prop :=
  ∃ caller, resolveBearer L delegated s read token = .ok (some caller)

/-- `refresh` hands out a grant. -/
def Refreshes (L : Lib) (s : Sessions) (read : Read) (raw : List UInt8) (token : String) : Prop :=
  ∃ grant, refresh L s read raw (some token) = .ok grant

/-- The store finds an active cert. -/
def Active (read : Read) (waId : String) : Prop :=
  ∃ cert, read waId = .ok (some cert) ∧ cert.active = true

theorem not_delegated_spell {nonce mac : String} :
    "dgrant:".toList.isPrefixOf (SessionToken.spell waId nonce mac).toList = false := by
  simp only [SessionToken.spell, String.toList_append]
  rfl

theorem resolves_iff (hsess : "dgrant:".toList.isPrefixOf token.toList = false) :
    Resolves L delegated s read token ↔
      ∃ waId, waIdFromToken L s token = some waId ∧ Active read waId := by
  unfold Resolves resolveBearer Active
  rw [if_neg (by rw [hsess]; exact Bool.false_ne_true)]
  cases hwaId : waIdFromToken L s token with
  | none => simp
  | some waId =>
    have hauthentic := (waIdFromToken_eq_some_iff.mp hwaId).1
    simp only [hauthentic, Bool.not_true, Bool.false_eq_true, if_false, Option.some.injEq,
      exists_eq_left']
    cases read waId with
    | error e => simp
    | ok found =>
      cases found with
      | none => simp
      | some cert => cases hactive : cert.active <;> simp [hactive]

theorem refreshes_iff {raw : List UInt8} :
    Refreshes L s read raw token ↔
      ∃ waId, waIdFromToken L s token = some waId ∧ Active read waId := by
  unfold Refreshes refresh Active
  rw [Option.bind_some]
  cases hwaId : waIdFromToken L s token with
  | none => simp
  | some waId =>
    simp only [Option.some.injEq, exists_eq_left']
    cases read waId with
    | error e => simp
    | ok found =>
      cases found with
      | none => simp
      | some cert => cases hactive : cert.active <;> simp [hactive]

/-! ## What was handed out -/

/-- The token is the mint's, under a secret of 32 bytes. -/
structure Handed.Minted (L : Lib) (h : Handed) : Prop where
  token : ∃ raw, h.mint.nonce = L.base64Url raw ∧
    h.grant.accessToken = issueSessionToken L h.mint.secret h.mint.waId raw
  userId : h.mint.waId = h.grant.userId
  keyed : h.mint.secret.length = 32

/-- Both doors ask for the secret of the mint, a nonce that was not logged out, and the cert. -/
theorem Handed.Minted.waId_iff (hurl : UrlSafe L) (hsep : Separates L) (hm : h.Minted L)
    (hkeyed : s.secret.length = 32) :
    waIdFromToken L s h.grant.accessToken = some waId ↔
      s.secret = h.mint.secret ∧ h.mint.nonce ∉ s.revoked ∧ waId = h.grant.userId := by
  obtain ⟨raw, hnonce, htoken⟩ := hm.token
  have hverifies := hurl.verifies h.mint.secret h.mint.waId raw
  have hspelled := hurl.sessionNonce h.mint.secret h.mint.waId raw
  constructor
  · intro hread
    rw [waIdFromToken_eq_some_iff, sessionTokenIsAuthentic_iff, htoken] at hread
    obtain ⟨⟨hnow, hrevoked⟩, hclaims⟩ := hread
    refine ⟨hsep.eq_of_verifies hkeyed hm.keyed hnow hverifies, fun hmem => ?_, ?_⟩
    · have hrevoked' := sessionIsRevoked_iff.mpr ⟨_, hspelled, hnonce ▸ hmem⟩
      rw [hrevoked] at hrevoked'
      cases hrevoked'
    · have hclaimed : waIdFromTokenUnverified (SessionToken.spell h.mint.waId (L.base64Url raw)
          (L.base64Url (L.hmac h.mint.secret (macMessage h.mint.waId (L.base64Url raw))))) =
            some h.mint.waId :=
        waIdFromTokenUnverified_spell (hurl.parts raw _)
      rw [← hm.userId]
      exact (Option.some.inj (hclaimed.symm.trans hclaims)).symm
  · rintro ⟨hsecret, hrevoked, rfl⟩
    rw [htoken, ← hsecret, ← hm.userId]
    exact waIdFromToken_issue hurl h.mint.waId (hnonce ▸ hrevoked)

/-! ## Runs -/

/-- Secrets are of 32 bytes. -/
def Step.Keyed : Step → Prop
  | .logout _ rotated => rotated.length = 32
  | .restart secret => secret.length = 32
  | _ => True

instance : DecidablePred Step.Keyed
  | .logout _ rotated => inferInstanceAs (Decidable (rotated.length = 32))
  | .restart secret => inferInstanceAs (Decidable (secret.length = 32))
  | .signIn .. | .refresh .. | .write _ | .elapse _ => inferInstanceAs (Decidable True)

/-- The secret has 32 bytes, and every token that was handed out was minted. -/
structure Node.Sound (L : Lib) (n : Node) : Prop where
  keyed : n.sessions.secret.length = 32
  minted : ∀ h ∈ n.handed, h.Minted L

theorem Node.Sound.hand (hn : n.Sound L) {raw : List UInt8} {role : UserRole} {expiresIn : Nat} :
    (n.hand L raw (issueWithTtl L n.sessions raw waId role expiresIn)).Sound L := by
  refine ⟨hn.keyed, fun h hh => ?_⟩
  cases hh with
  | head => exact ⟨⟨raw, rfl, rfl⟩, rfl, hn.keyed⟩
  | tail _ hh => exact hn.minted h hh

/-- A refresh hands out what `issue_with_ttl` makes. -/
theorem refresh_ok {raw : List UInt8} {bearer : Option String} {grant : Grant}
    (h : refresh L s read raw bearer = .ok grant) :
    ∃ waId role expiresIn, grant = issueWithTtl L s raw waId role expiresIn := by
  unfold refresh at h
  split at h
  · cases h
  · split at h
    · cases h
    · cases h
    · split at h
      · exact ⟨_, _, _, (Except.ok.inj h).symm⟩
      · cases h

theorem length_endSession {rotated : Secret} (hkeyed : s.secret.length = 32)
    (hrotated : rotated.length = 32) : (s.endSession rotated token).1.secret.length = 32 := by
  unfold Sessions.endSession
  split
  · exact hkeyed
  · split
    · exact hrotated
    · exact hkeyed

theorem Node.Sound.step (hn : n.Sound L) (hkeyed : st.Keyed) : (n.step L st).Sound L := by
  cases st with
  | signIn waId role raw => exact hn.hand
  | refresh bearer raw failure =>
    simp only [Node.step]
    cases hrefresh : SessionGrant.refresh L n.sessions (n.read failure) raw bearer with
    | error e => exact hn
    | ok grant =>
      obtain ⟨waId, role, expiresIn, rfl⟩ := refresh_ok hrefresh
      exact hn.hand
  | logout token rotated =>
    simp only [Node.step]
    split
    · exact ⟨length_endSession hn.keyed hkeyed, hn.minted⟩
    · exact hn
  | restart secret => exact ⟨hkeyed, hn.minted⟩
  | write rows => exact ⟨hn.keyed, hn.minted⟩
  | elapse secs => exact ⟨hn.keyed, hn.minted⟩

/-- What ends a session: the secret is not that of its mint any more, or its nonce was logged out,
    or the store finds no active cert. -/
def Ended (n : Node) (failure : Option String) (h : Handed) : Prop :=
  n.sessions.secret ≠ h.mint.secret ∨ h.mint.nonce ∈ n.sessions.revoked ∨
    ¬ Active (n.read failure) h.grant.userId

theorem Node.Sound.accepted_iff (hurl : UrlSafe L) (hsep : Separates L) (hn : n.Sound L)
    (hh : h ∈ n.handed) (failure : Option String) :
    (∃ waId, waIdFromToken L n.sessions h.grant.accessToken = some waId ∧
      Active (n.read failure) waId) ↔ ¬ Ended n failure h := by
  simp only [(hn.minted h hh).waId_iff hurl hsep hn.keyed, Ended, not_or, not_not]
  constructor
  · rintro ⟨waId, ⟨hsecret, hrevoked, rfl⟩, hactive⟩
    exact ⟨hsecret, hrevoked, hactive⟩
  · rintro ⟨hsecret, hrevoked, hactive⟩
    exact ⟨_, ⟨hsecret, hrevoked, rfl⟩, hactive⟩

theorem Handed.Minted.not_delegated (hm : h.Minted L) :
    "dgrant:".toList.isPrefixOf h.grant.accessToken.toList = false := by
  obtain ⟨raw, -, htoken⟩ := hm.token
  rw [htoken]
  exact not_delegated_spell

/-- An owner. -/
def exampleCert : WaCert where
  waId := "wa:b.c"
  name := "owner"
  role := .root
  oauthProvider := none
  oauthExternalId := none
  oauthLinks := none
  created := 0
  active := true

/-- What a refresh draws. -/
def exampleRaw : List UInt8 := List.replicate 24 1

/-- The owner signs in and refreshes the session, and a day and a second go by. -/
def exampleRun : List Step :=
  [.signIn "wa:b.c" .systemAdmin Fixture.raw, .refresh (some Fixture.token) exampleRaw none,
    .elapse 86401]

def exampleNode : Node :=
  after (Node.step Fixture.lib) (Node.start 0 Fixture.secret [exampleCert]) exampleRun

/-- What the refresh handed out, for a day. -/
def exampleHanded : Handed where
  grant :=
    issueWithTtl Fixture.lib (.new Fixture.secret) exampleRaw "wa:b.c" .systemAdmin 86400
  mint := ⟨Fixture.secret, "wa:b.c", Fixture.lib.base64Url exampleRaw⟩
  since := 0

/-- What was handed out when the owner signed in, for thirty days. -/
def exampleFirst : Handed where
  grant := issue Fixture.lib (.new Fixture.secret) Fixture.raw "wa:b.c" .systemAdmin
  mint := ⟨Fixture.secret, "wa:b.c", Fixture.lib.base64Url Fixture.raw⟩
  since := 0

/-- The refresh reads the token that the sign-in minted. -/
theorem exampleNode_eq : exampleNode =
    { clock := 0 + 86401
      sessions :=
        { Sessions.new Fixture.secret with minted := [exampleHanded.mint, exampleFirst.mint] }
      rows := [exampleCert]
      handed := [exampleHanded, exampleFirst] } := by
  let n := (Node.start 0 Fixture.secret [exampleCert]).step Fixture.lib
    (.signIn "wa:b.c" .systemAdmin Fixture.raw)
  have hread : waIdFromToken Fixture.lib n.sessions Fixture.token = some "wa:b.c" := by
    rw [← Fixture.issue_eq]
    exact waIdFromToken_issue Fixture.urlSafe "wa:b.c" (s := n.sessions) List.not_mem_nil
  have hrefresh : refresh Fixture.lib n.sessions (n.read none) exampleRaw (some Fixture.token) =
      .ok exampleHanded.grant := by
    rw [refresh, Option.bind_some, hread]
    rfl
  have hstep : n.step Fixture.lib (.refresh (some Fixture.token) exampleRaw none) =
      n.hand Fixture.lib exampleRaw exampleHanded.grant := by
    rw [Node.step, hrefresh]
  have hrun : exampleNode =
      (n.step Fixture.lib (.refresh (some Fixture.token) exampleRaw none)).step Fixture.lib
        (.elapse 86401) := rfl
  rw [hrun, hstep]
  rfl

end CirisServer.SessionGrant
