import CirisServer.ForStd.Interleave
import CirisServer.Native.AuthStore
import CirisServer.Native.SessionGrant

/-!
# Binding an oauth identity

`bind_oauth_identity` of `src/auth/store.rs`: the row is read, and written back whole with the
pair on it. The read and the write are two calls of the store, and so is a `set_active`; other
requests run between them.
-/

namespace CirisServer.AuthStore

open Interleave

/-- The pair that the cert carries. -/
def WaCert.pair (c : WaCert) : Option String × Option String := (c.oauthProvider, c.oauthExternalId)

inductive Call where
  | bindOauthIdentity (waId provider externalId : String)
  | deactivate (waId : String)
deriving DecidableEq

inductive Answer where
  | bound (answer : Bool)
  | deactivated (waId : String) (found : Bool)
deriving DecidableEq

/-- Where a call stands. -/
inductive Phase where
  | called (call : Call)
  /-- The cert that was read, with the pair on it; the row is to be written. -/
  | writing (cert : WaCert)
  | told (answer : Answer)
deriving DecidableEq

/-- The next store call of a request. -/
def Phase.advance (phase : Phase) (rows : Rows) : Rows × Phase :=
  match phase with
  | .called (.bindOauthIdentity waId provider externalId) =>
    match rows.get waId with
    | none => (rows, .told (.bound false))
    | some cert =>
      if cert.oauthExternalId.isSome then (rows, .told (.bound false))
      else
        (rows, .writing
          { cert with oauthProvider := some provider, oauthExternalId := some externalId })
  | .writing cert => (rows.upsert cert, .told (.bound true))
  | .called (.deactivate waId) =>
    (rows.setActive waId false, .told (.deactivated waId (rows.get waId).isSome))
  | .told answer => (rows, .told answer)

/-- The requests that reach one store, side by side. -/
def bindServer : System Rows Phase Call Unit where
  spawn call rows := (rows, .called call)
  advance _ phase rows := phase.advance rows

/-- Any rows, and no requests. -/
def start (rows : Rows) : Config Rows Phase := ⟨rows, []⟩

end CirisServer.AuthStore

/-!
## An OAuth sign-in

`resolve_oauth_user` and `create_oauth_user_inner` of `src/auth/oauth.rs`: the pair is looked up,
then a cert that was provisioned for the address, and then, on a node in first run or a managed
one, a cert is created under a `wa_id` that is made of the pair.

A sign-in and a deactivation are one step each. Of several rows with one pair, the index of the
backend answers with any.
-/

namespace CirisServer.AuthStore

/-! ## The store -/

/-- The rows of the table, which have different keys. -/
structure Table where
  rows : Rows
  keyed : (rows.map WaCert.waId).Nodup

/-- The index of the pairs. -/
structure OauthIndex where
  find : Rows → String → String → Option WaCert
  holds : ∀ {rows provider externalId c}, find rows provider externalId = some c →
    c ∈ rows ∧ c.oauthProvider = some provider ∧ c.oauthExternalId = some externalId
  finds : ∀ {rows provider externalId c}, c ∈ rows → c.oauthProvider = some provider →
    c.oauthExternalId = some externalId → ∃ found, find rows provider externalId = some found

/-- The certs and the index. -/
def Table.store (t : Table) (I : OauthIndex) : WaStore where
  rows := t.rows
  oauthIndex := I.find t.rows
  keyed := t.keyed
  index_holds := I.holds
  index_finds := I.finds

def Table.upsert (t : Table) (cert : WaCert) : Table where
  rows := t.rows.upsert cert
  keyed := KeyedRows.nodup_upsert t.keyed

def Table.setActive (t : Table) (waId : String) (active : Bool) : Table where
  rows := t.rows.setActive waId active
  keyed := by
    rw [Rows.setActive, KeyedRows.map_key_modify]
    · exact t.keyed
    · intro c
      rfl

/-- `bind_oauth_identity`, uninterrupted. -/
def Table.bindOauthIdentity (t : Table) (waId provider externalId : String) : Table :=
  match ((Phase.called (.bindOauthIdentity waId provider externalId)).advance t.rows).2 with
  | .writing cert => t.upsert cert
  | _ => t

/-! ## The sign-in -/

/-- `OAuthIdentity`. -/
structure OAuthIdentity where
  provider : String
  externalId : String
  email : Option String
  name : Option String
deriving DecidableEq

/-- `provider_name_is_wellformed`. -/
def providerNameIsWellformed (provider : String) : Bool :=
  1 ≤ provider.utf8ByteSize ∧ provider.utf8ByteSize ≤ 32 ∧
    provider.toList.all fun c => c.isLower || c.isDigit || c == '_' || c == '-'

inductive OAuthResolveError where
  | noLocalIdentity (provider : String)
  | store (error : StoreError)
deriving DecidableEq

/-- The `wa_id` of a created cert. -/
def OAuthIdentity.waId (ident : OAuthIdentity) : String :=
  "oauth-" ++ ident.provider ++ "-" ++ ident.externalId

/-- The role of a created cert. -/
def waRoleOf : UserRole → WaRole
  | .systemAdmin => .root
  | .authority => .authority
  | _ => .observer

/-- The cert that is created. `linkedAt` is the clock as RFC 3339. -/
def OAuthIdentity.cert (ident : OAuthIdentity) (role : UserRole) (now : Int) (linkedAt : String) :
    WaCert where
  waId := ident.waId
  name := ident.name.getD ident.externalId
  role := waRoleOf role
  oauthProvider := some ident.provider
  oauthExternalId := some ident.externalId
  oauthLinks := some (.arr [.obj [
    ("provider", .str ident.provider),
    ("external_id", .str ident.externalId),
    ("account_name", ident.name.elim .null .str),
    ("linked_at", .str linkedAt),
    ("metadata", .obj (ident.email.toList.map fun e => ("email", .str e))),
    ("is_primary", .bool true)]])
  created := now
  active := true

/-- `is_first_run`. -/
def WaStore.isFirstRun (s : WaStore) : Bool := (s.listByRole .root 1).isEmpty

/-- What a sign-in brings, and what the clock says. -/
structure SignIn where
  ident : OAuthIdentity
  role : UserRole
  now : Int
  linkedAt : String
deriving DecidableEq

/-- `create_oauth_user_inner`. -/
def createOauthUserInner (I : OauthIndex) (t : Table) (r : SignIn) :
    Table × Except StoreError String :=
  match (t.store I).getByOauth r.ident.provider r.ident.externalId with
  | .error e => (t, .error e)
  | .ok (some existing) => (t, .ok existing.waId)
  | .ok none => (t.upsert (r.ident.cert r.role r.now r.linkedAt), .ok r.ident.waId)

/-- `resolve_oauth_user`. -/
def resolveOauthUser (I : OauthIndex) (managed : Bool) (t : Table) (r : SignIn) :
    Table × Except OAuthResolveError String :=
  match (t.store I).getByOauth r.ident.provider r.ident.externalId with
  | .error e => (t, .error (.store e))
  | .ok (some existing) => (t, .ok existing.waId)
  | .ok none =>
    match r.ident.email.bind (t.store I).findPreprovisionedByEmail with
    | some slot =>
      (t.bindOauthIdentity slot.waId r.ident.provider r.ident.externalId, .ok slot.waId)
    | none =>
      if !(t.store I).isFirstRun && !managed then
        (t, .error (.noLocalIdentity r.ident.provider))
      else
        let (t, answer) := createOauthUserInner I t r
        (t, answer.mapError .store)

/-! ## Runs -/

inductive Step where
  | signIn (r : SignIn)
  | deactivate (waId : String)
deriving DecidableEq

/-- One request. -/
def Table.step (I : OauthIndex) (managed : Bool) (t : Table) : Step → Table
  | .signIn r => (resolveOauthUser I managed t r).1
  | .deactivate waId => t.setActive waId false

end CirisServer.AuthStore

/-!
## The doors that hand out a session

`login` of `src/auth/session.rs`, and `determine_role` and `resolve_login` of `src/auth/oauth.rs`,
which the provider's callback and the native exchange share. With the refresh they are the doors at
which an identity signs in.

`touch_login` writes the time of the last login, which nothing here reads, and its failure is
ignored.
-/

namespace CirisServer.LoginDoors

open SessionToken AuthStore SessionGrant

/-! ## The password -/

/-- Base64, PBKDF2-HMAC-SHA256 of 100,000 rounds and 32 bytes, the `password_hash` of a row, and the
    text of a store's error. -/
structure Passwords where
  decode : String → Option (List UInt8)
  pbkdf2 : List UInt8 → List UInt8 → List UInt8
  hashOf : String → Option String
  shown : StoreError → String

/-- `verify_password`. -/
def verifyPassword (P : Passwords) (presented storedHash : String) : Bool :=
  if storedHash = "" then false
  else
    match P.decode storedHash with
    | none => false
    | some decoded =>
      if decoded.length ≠ 64 then false
      else P.pbkdf2 (utf8 presented) (decoded.take 32) == decoded.drop 32

/-- An answer other than a grant. -/
inductive Denial where
  | login (status : Nat) (reasonId error : String)
  | oauth (error : OAuthResolveError)
  | refresh (refusal : Refusal)
deriving DecidableEq

/-- What the error of the store is answered with. -/
def loginStoreError (P : Passwords) : StoreError → Denial
  | e@(.ambiguousLoginName ..) => .login 409 "auth.login.ambiguous_name" (P.shown e)
  | e => .login 503 "auth.login.store_unavailable" ("store: " ++ P.shown e)

/-- `login`. -/
def login (L : Lib) (P : Passwords) (s : Sessions) (store : WaStore) (raw : List UInt8)
    (username password : String) : Except Denial Grant :=
  match store.resolveLoginDetailed username with
  | .error e => .error (loginStoreError P e)
  | .ok (.error _) => .error (.login 401 "auth.login.invalid_credentials" "invalid credentials")
  | .ok (.ok (cert, _)) =>
    if !cert.active then .error (.login 403 "auth.login.account_inactive" "account is inactive")
    else
      match P.hashOf cert.waId with
      | none => .error (.login 401 "auth.login.no_password_set" "no password set for this account")
      | some hash =>
        if !verifyPassword P password hash then
          .error (.login 401 "auth.login.invalid_credentials" "invalid credentials")
        else .ok (issue L s raw cert.waId (fromWaRole cert.role))

/-! ## OAuth -/

/-- The address ends in `@ciris.ai`. -/
def isStaff (email : Option String) : Bool :=
  email.any fun e => "@ciris.ai".toList.isSuffixOf e.toList

/-- `determine_role`. -/
def determineRole (email : Option String) : UserRole :=
  if isStaff email then .admin else .observer

/-- `resolve_login`. -/
def resolveLogin (L : Lib) (I : OauthIndex) (managed : Bool) (s : Sessions) (t : Table)
    (raw : List UInt8) (ident : OAuthIdentity) (now : Int) (linkedAt : String) :
    Table × Except OAuthResolveError Grant :=
  let role := determineRole ident.email
  let (t, answer) := resolveOauthUser I managed t ⟨ident, role, now, linkedAt⟩
  (t, answer.map fun userId => issue L s raw userId role)

/-! ## The doors -/

inductive Door where
  | login (username password : String)
  /-- The provider's callback, or the native exchange. -/
  | oauth (ident : OAuthIdentity) (now : Int) (linkedAt : String)
  | refresh (bearer : Option String)
deriving DecidableEq

/-- An identity comes to a door, and 24 bytes are drawn for its nonce. -/
def enter (L : Lib) (P : Passwords) (I : OauthIndex) (managed : Bool) (s : Sessions) (t : Table)
    (raw : List UInt8) : Door → Table × Except Denial Grant
  | .login username password => (t, login L P s (t.store I) raw username password)
  | .oauth ident now linkedAt =>
    let (t, answer) := resolveLogin L I managed s t raw ident now linkedAt
    (t, answer.mapError .oauth)
  | .refresh bearer =>
    (t, (refresh L s (fun waId => .ok (t.rows.get waId)) raw bearer).mapError .refresh)

end CirisServer.LoginDoors
