import Mathlib.Data.List.Sort
import CirisServer.ForStd.KeyedRows
import CirisServer.ForStd.Split
import CirisServer.Native.Session

/-!
# The auth store

`src/auth/store.rs`: the certs of `wa_cert`, and how a login identifier is resolved to one of
them. The lookups scan the three roles, a page of each, newest certs first.

The rows of the table are a list with the `wa_id` as its key. `get_by_oauth` of the backend reads
an index that answers with one row holding the pair, whether or not it is active.
-/

namespace CirisServer.AuthStore

inductive WaRole where
  | root
  | authority
  | observer
deriving DecidableEq

/-- What the lookups read of a `WaCert`. -/
structure WaCert where
  waId : String
  name : String
  role : WaRole
  oauthProvider : Option String
  oauthExternalId : Option String
  oauthLinks : Option Json
  created : Int
  active : Bool
deriving DecidableEq

inductive StoreError where
  | ambiguousOauthIdentity (provider : String) (holders : Nat)
  | ambiguousLoginName (name : String) (holders : List String)
deriving DecidableEq

/-- The `wa_cert` rows. -/
abbrev Rows := List WaCert

/-- `get_wa_cert`. -/
def Rows.get (rows : Rows) (waId : String) : Option WaCert := KeyedRows.get WaCert.waId waId rows

/-- `upsert_wa_cert`. -/
def Rows.upsert (rows : Rows) (cert : WaCert) : Rows := KeyedRows.upsert WaCert.waId cert rows

/-- `set_active` of the backend. -/
def Rows.setActive (rows : Rows) (waId : String) (active : Bool) : Rows :=
  KeyedRows.modify WaCert.waId waId (fun c => { c with active }) rows

/-- The certs, and the index of the oauth pairs. -/
structure WaStore where
  rows : Rows
  oauthIndex : String → String → Option WaCert
  keyed : (rows.map WaCert.waId).Nodup
  index_holds : ∀ {provider externalId c}, oauthIndex provider externalId = some c →
    c ∈ rows ∧ c.oauthProvider = some provider ∧ c.oauthExternalId = some externalId
  index_finds : ∀ {provider externalId c}, c ∈ rows → c.oauthProvider = some provider →
    c.oauthExternalId = some externalId → ∃ found, oauthIndex provider externalId = some found

namespace WaStore

variable (s : WaStore)

/-- `list_by_role`: at most `limit` active certs of the role, the newest first. -/
def listByRole (role : WaRole) (limit : Nat) : List WaCert :=
  ((s.rows.filter fun c => c.active ∧ c.role = role).insertionSort
    fun a b => b.created ≤ a.created).take limit

/-- The roles that a lookup scans, in their order. -/
def scanned : List WaRole := [.root, .authority, .observer]

/-- What a lookup finds on the first page of each role. -/
def scan (limit : Nat) (p : WaCert → Bool) : List WaCert :=
  scanned.flatMap fun role => (s.listByRole role limit).filter p

/-! ## By oauth pair -/

/-- The cert is live and holds the pair. -/
def holdsPair (provider externalId : String) (c : WaCert) : Bool :=
  c.active ∧ c.oauthProvider = some provider ∧ c.oauthExternalId = some externalId

/-- `live_oauth_holders`. -/
def liveOauthHolders (provider externalId : String) : List WaCert :=
  s.scan 128 (holdsPair provider externalId)

/-- `get_by_oauth`. -/
def getByOauth (provider externalId : String) : Except StoreError (Option WaCert) :=
  match s.liveOauthHolders provider externalId with
  | [] => .ok ((s.oauthIndex provider externalId).filter (·.active))
  | [c] => .ok (some c)
  | live => .error (.ambiguousOauthIdentity provider live.length)

/-! ## By email -/

/-- `str::to_ascii_lowercase`. -/
def toAsciiLowercase (text : String) : String := String.ofList (text.toList.map Char.toLower)

/-- The address as it is compared. -/
def address (text : String) : String := toAsciiLowercase (trim text)

/-- The address that an owner wrote onto the cert. -/
def provisioned (c : WaCert) : Option String :=
  ((c.oauthLinks.bind (Json.get? · "email")).bind Json.asStr).map address

/-- The cert is live, has no oauth pair yet, and carries the address. -/
def carries (want : String) (c : WaCert) : Bool :=
  c.active ∧ c.oauthExternalId = none ∧ provisioned c = some want

/-- `find_preprovisioned_by_email`. -/
def findPreprovisionedByEmail (email : String) : Option WaCert :=
  let want := address email
  if want = "" then none
  else
    match s.scan 512 (carries want) with
    | [c] => some c
    | _ => none

/-! ## By name -/

/-- The cert is called that. -/
def named (ident : String) (c : WaCert) : Bool := c.name = ident

/-- `certs_named`. -/
def certsNamed (ident : String) : List WaCert := s.scan 128 (named ident)

/-- `one_named`. -/
def oneNamed (ident : String) : List WaCert → Except StoreError (Option WaCert)
  | [] => .ok none
  | [c] => .ok (some c)
  | found => .error (.ambiguousLoginName ident (found.map WaCert.waId))

/-! ## A login -/

/-- The identifier is read as `provider:external_id`. -/
def loginByOauth (ident : String) : Except StoreError (Option WaCert) :=
  match List.splitOnce ':' ident.toList with
  | some (provider, externalId) =>
    if provider ≠ [] ∧ externalId ≠ [] then
      s.getByOauth (String.ofList provider) (String.ofList externalId)
    else .ok none
  | none => .ok none

/-- `resolve_login`. -/
def resolveLogin (ident : String) : Except StoreError (Option WaCert) := do
  if let some c := s.rows.get ident then
    return some c
  if let some c ← s.loginByOauth ident then
    return some c
  oneNamed ident (s.certsNamed ident)

/-- How a login identifier matched. -/
inductive LoginMatch where
  | waId
  | oauth
  | name
deriving DecidableEq

/-- What a login that matched nothing looked at. -/
structure LoginMiss where
  scanned : Nat
  names : List String
deriving DecidableEq

/-- `resolve_login_detailed`. -/
def resolveLoginDetailed (ident : String) :
    Except StoreError (Except LoginMiss (WaCert × LoginMatch)) := do
  if let some c := s.rows.get ident then
    return .ok (c, .waId)
  if let some c ← s.loginByOauth ident then
    return .ok (c, .oauth)
  if let some c ← oneNamed ident (s.certsNamed ident) then
    return .ok (c, .name)
  let seen := s.scan 128 fun _ => true
  return .error ⟨seen.length, seen.map WaCert.name⟩

end WaStore

end CirisServer.AuthStore
