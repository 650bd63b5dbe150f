import Mathlib.Algebra.Ring.Nat
import Mathlib.Data.List.AList
import Mathlib.Data.Prod.Lex
import CirisServer.ForStd.Except
import CirisServer.ForStd.Interleave
import CirisServer.Native.Json

/-!
# The config plane

`src/graph_config.rs`: a node's configuration is the `config:*` attestations it wrote
about itself. Each write of a key appends a row with the next version; a read scans the
rows into a snapshot and the newest version of a key wins. Snapshots are cached, one per
engine, for two seconds.

Persist's tables are the list of attestations this node authored, oldest first. What
persist answers to a scan (which reads fail, the order rows come back in, whose
standing is in doubt) is a `ScanEnv`. Versions are natural numbers: 2⁶⁴ writes of one
key are out of reach.
-/

namespace CirisServer

/-! ## Values -/

/-- `n as f64`: the nearest double, ties to even. -/
def intAsF64 (n : Int) : ℚ :=
  let m := n.natAbs
  -- the bits below the 53 a double keeps
  let shift := m.log2 - 52
  let q := m / 2 ^ shift
  let r := m % 2 ^ shift
  let up := 2 ^ shift < 2 * r ∨ (2 * r = 2 ^ shift ∧ q % 2 = 1)
  n.sign * (((if up then q + 1 else q) * 2 ^ shift : Nat) : ℚ)

/-- A typed config value. A stored `f64` is finite: JSON has no others. -/
inductive ConfigValue where
  | null
  | bool (b : Bool)
  | i64 (n : Int64)
  | f64 (x : ℚ)
  | str (s : String)
  | list (items : List Json)
  | dict (members : List (String × Json))
deriving DecidableEq

namespace ConfigValue

def asStr : ConfigValue → Option String
  | .str s => some s
  | _ => none

def asI64 : ConfigValue → Option Int64
  | .i64 n => some n
  | _ => none

def asF64 : ConfigValue → Option ℚ
  | .f64 x => some x
  | .i64 n => some (intAsF64 n.toInt)
  | _ => none

def asBool : ConfigValue → Option Bool
  | .bool b => some b
  | _ => none

/-- A list's items as texts; `jsonText` is `serde_json::Value`'s `to_string`. -/
def asStrList (jsonText : Json → String) : ConfigValue → Option (List String)
  | .list items => some <| items.map fun
    | .str s => s
    | other => jsonText other
  | _ => none

/-- The untagged serialisation. -/
def toJson : ConfigValue → Json
  | .null => .null
  | .bool b => .bool b
  | .i64 n => .num (.int n.toInt)
  | .f64 x => .num (.float x)
  | .str s => .str s
  | .list items => .arr items
  | .dict members => .obj members

/-- The untagged reading: an integer beyond `i64` is a float. -/
def ofJson : Json → ConfigValue
  | .null => .null
  | .bool b => .bool b
  | .num (.int n) => if n = (Int64.ofInt n).toInt then .i64 (Int64.ofInt n) else .f64 (intAsF64 n)
  | .num (.float x) => .f64 x
  | .str s => .str s
  | .arr items => .list items
  | .obj members => .dict members

@[simp] theorem ofJson_toJson (v : ConfigValue) : ofJson v.toJson = v := by
  cases v <;> simp [toJson, ofJson]

end ConfigValue

/-- Where a config key lives on the trust/authority spectrum. -/
inductive ConfigScope where
  | localScope
  | identity
deriving DecidableEq

namespace ConfigScope

/-- The lowercase wire name. -/
def toJson : ConfigScope → Json
  | .localScope => .str "local"
  | .identity => .str "identity"

def ofJson : Json → Option ConfigScope
  | .str "local" => some .localScope
  | .str "identity" => some .identity
  | _ => none

@[simp] theorem ofJson_toJson (s : ConfigScope) : ofJson s.toJson = some s := by
  cases s <;> rfl

end ConfigScope

/-- One version of a config key. -/
structure ConfigEntry where
  key : String
  value : ConfigValue
  version : Nat
  updatedBy : String
  scope : ConfigScope
  previousVersion : Option String
deriving DecidableEq

/-! ## Rows -/

/-- `CONFIG_DIMENSION_PREFIX`. -/
def configDimensionPrefix : String := "config:"

/-- The leaf a config key lives on. -/
def configDimension (key : String) : String := configDimensionPrefix ++ key ++ ":v1"

/-- Any leaf of the `config:` family, the legacy `config:v1` included. -/
def isConfigDimension : Option String → Bool
  | some d => configDimensionPrefix.toList.isPrefixOf d.toList
  | none => false

/-- A character of a `vocab` segment's first position. -/
def isLeafStart (c : Char) : Bool := ('a' ≤ c && c ≤ 'z') || ('0' ≤ c && c ≤ '9')

/-- `config_key_is_a_leaf`. -/
def configKeyIsALeaf (key : String) : Bool :=
  (key.toList.head?.any isLeafStart) &&
    key.toList.all fun c => isLeafStart c || c == '_' || c == '.' || c == '-'

inductive AttestationType where
  | scores
  | supersedes
  | withdraws
  | recants
  | other (name : String)
deriving DecidableEq

/-- A row this node authored, as far as the config plane reads it. -/
structure Attestation where
  attestationId : String
  attestationType : AttestationType
  attestedKeyId : String
  subjectKeyIds : List String
  assertedAt : Int
  attestationEnvelope : Json
deriving DecidableEq

/-- The envelope of an entry; `renews` names the row it supersedes. -/
def configEnvelope (nodeKeyId : String) (entry : ConfigEntry) (renews : Option String) : Json :=
  .obj <|
    [("dimension", .str (configDimension entry.key)),
     ("attesting_key_id", .str nodeKeyId),
     ("score", .num (.float 1)),
     ("cohort_scope", .str "self"),
     ("witness_relation", .str "self"),
     ("key", .str entry.key),
     ("value", entry.value.toJson),
     ("version", .num (.int entry.version)),
     ("updated_by", .str entry.updatedBy),
     ("scope", entry.scope.toJson),
     ("previous_version", (entry.previousVersion.map Json.str).getD .null)] ++
    (renews.map fun prior => ("references_attestation_id", Json.str prior)).toList

/-- A row's entry, where its envelope is a well-formed one. -/
def entryFromEnvelope (env : Json) : Option ConfigEntry := do
  let key ← (← env.get? "key").asStr
  let value := ConfigValue.ofJson (← env.get? "value")
  let version ← (← env.get? "version").asU64
  let updatedBy ← (← env.get? "updated_by").asStr
  let scope ← ConfigScope.ofJson (← env.get? "scope")
  let previousVersion := (env.get? "previous_version").bind Json.asStr
  some { key, value, version, updatedBy, scope, previousVersion }

/-- An entry comes back from its envelope unchanged. -/
theorem entryFromEnvelope_configEnvelope (nodeKeyId : String) (entry : ConfigEntry)
    (renews : Option String) :
    entryFromEnvelope (configEnvelope nodeKeyId entry renews) = some entry := by
  have hkey : (configEnvelope nodeKeyId entry renews).get? "key" = some (.str entry.key) := rfl
  have hvalue : (configEnvelope nodeKeyId entry renews).get? "value" = some entry.value.toJson := rfl
  have hversion : (configEnvelope nodeKeyId entry renews).get? "version" =
      some (.num (.int entry.version)) := rfl
  have hupdatedBy : (configEnvelope nodeKeyId entry renews).get? "updated_by" =
      some (.str entry.updatedBy) := rfl
  have hscope : (configEnvelope nodeKeyId entry renews).get? "scope" = some entry.scope.toJson := rfl
  have hprevious : ((configEnvelope nodeKeyId entry renews).get? "previous_version").bind Json.asStr =
      entry.previousVersion := by
    have hget : (configEnvelope nodeKeyId entry renews).get? "previous_version" =
        some ((entry.previousVersion.map Json.str).getD .null) := rfl
    rw [hget]
    cases entry.previousVersion <;> rfl
  have hnat : (Json.num (.int entry.version)).asU64 = some entry.version := by
    simp [Json.asU64]
  simp only [entryFromEnvelope, hkey, hvalue, hversion, hupdatedBy, hscope, hprevious, hnat,
    Json.asStr, ConfigValue.ofJson_toJson, ConfigScope.ofJson_toJson, Option.bind_eq_bind,
    Option.bind_some]

/-- The row's dimension, as its envelope names it. -/
def Attestation.dimension (a : Attestation) : Option String :=
  (a.attestationEnvelope.get? "dimension").bind Json.asStr

/-- The config entry a row carries, if it is one the plane reads: a `scores` or a
    `supersedes` row of the `config:` family with a well-formed envelope. -/
def Attestation.configEntry (a : Attestation) : Option ConfigEntry :=
  if isConfigDimension a.dimension = true ∧
      (a.attestationType = .scores ∨ a.attestationType = .supersedes) then
    entryFromEnvelope a.attestationEnvelope
  else none

/-- A live config row. -/
structure StoredRow where
  attestationId : String
  assertedAt : Int
  entry : ConfigEntry
deriving DecidableEq

/-- The row a scan makes of an attestation. -/
def Attestation.storedRow (a : Attestation) : Option StoredRow :=
  a.configEntry.map fun entry => ⟨a.attestationId, a.assertedAt, entry⟩

/-- The newest row on one key's leaf. -/
structure ChainHead where
  attestationId : String
  version : Nat
  assertedAt : Int
deriving DecidableEq

/-- Chain heads per key. -/
abbrev ChainHeads := AList fun _ : String => ChainHead

/-- The config plane as of one scan. `loadedAt` is in nanoseconds on the process's
    monotonic clock. -/
structure ConfigSnapshot where
  nodeKeyId : String
  rows : List StoredRow
  heads : ChainHeads
  loadedAt : Nat
  scan : Nat
deriving DecidableEq

/-- The newest row of `key`: highest version, then latest assertion. Of equal rows
    `max_by` keeps the last. -/
def latestForKey (rows : List StoredRow) (key : String) : Option StoredRow :=
  (rows.filter fun r => r.entry.key = key).reverse.maxOn? fun r => toLex (r.entry.version, r.assertedAt)

namespace ConfigSnapshot

/-- The newest live entry of `key`, unless it is a tombstone. -/
def get (snap : ConfigSnapshot) (key : String) : Option ConfigEntry :=
  ((latestForKey snap.rows key).filter fun r => r.entry.value ≠ .null).map (·.entry)

def str (snap : ConfigSnapshot) (key : String) : Option String :=
  (snap.get key).bind (·.value.asStr)

def i64 (snap : ConfigSnapshot) (key : String) : Option Int64 :=
  (snap.get key).bind (·.value.asI64)

def f64 (snap : ConfigSnapshot) (key : String) : Option ℚ :=
  (snap.get key).bind (·.value.asF64)

def bool (snap : ConfigSnapshot) (key : String) : Option Bool :=
  (snap.get key).bind (·.value.asBool)

def strList (jsonText : Json → String) (snap : ConfigSnapshot) (key : String) :
    Option (List String) :=
  (snap.get key).bind (·.value.asStrList jsonText)

/-- One row of `list`'s loop. -/
def listRow (snap : ConfigSnapshot) (under : Option String)
    (out : AList fun _ : String => ConfigEntry) (r : StoredRow) :
    AList fun _ : String => ConfigEntry :=
  if !under.all fun p => p.toList.isPrefixOf r.entry.key.toList then out
  else if r.entry.key ∈ out then out
  else
    match latestForKey snap.rows r.entry.key with
    | some latest =>
      if latest.entry.value = .null then out else out.insert latest.entry.key latest.entry
    | none => out

/-- Newest live entry per key, optionally under a key prefix. The map is read by its
    lookups only. -/
def list (snap : ConfigSnapshot) (under : Option String) : AList fun _ : String => ConfigEntry :=
  snap.rows.foldl (snap.listRow under) ∅

end ConfigSnapshot

/-! ## The scan -/

/-- Why a config call fails. -/
inductive ConfigError where
  | notALeaf (key : String)
  | identity (cause : String)
  | admission (cause : String)
  | listing (nodeKeyId cause : String)
  | revocations (cause : String)
  | emit (dimension : String) (kind : AttestationType) (cause : String)
deriving DecidableEq

/-- `CONFIG_READ_LIMIT`: the page size of the reads. -/
def configReadLimit : Nat := 512

/-- What persist answers while the plane is scanned. -/
structure ScanEnv where
  /-- `local_derived_key_id`. -/
  identity : Except String String
  /-- `build_caller_admission`. -/
  admission : Except String Unit
  /-- `list_attestations` of the `config:` family, page after page. -/
  listing : Except String Unit
  /-- The order rows come back in. -/
  order : List Attestation → List Attestation
  order_perm : ∀ rows, (order rows).Perm rows
  /-- `build_caller_admission` for the retraction reads. -/
  retractionAdmission : Bool
  withdrawsReadable : Bool
  recantsReadable : Bool
  /-- `revocations_for` finds something under the row's id. -/
  revokedExternally : String → Bool
  /-- `HeldRevocations`, and whom it suspects. -/
  suspect : Except String (Attestation → Bool)

/-- The rows of `kind` in the first page of a retraction read. -/
def ScanEnv.retractions (env : ScanEnv) (readable : Bool) (kind : AttestationType)
    (store : List Attestation) : List Attestation :=
  if readable then (env.order (store.filter fun a => a.attestationType = kind)).take configReadLimit
  else []

/-- The ids this node has retracted, as far as the reads succeed. -/
def revokedConfigRows (env : ScanEnv) (store : List Attestation) : List String :=
  if env.retractionAdmission then
    (env.retractions env.withdrawsReadable .withdraws store ++
      env.retractions env.recantsReadable .recants store).flatMap fun a =>
        a.attestedKeyId :: a.subjectKeyIds
  else []

/-- A row is newer than its key's head. -/
def isNewer (heads : ChainHeads) (entry : ConfigEntry) (assertedAt : Int) : Bool :=
  match heads.lookup entry.key with
  | none => true
  | some h => toLex (h.version, h.assertedAt) < toLex (entry.version, assertedAt)

/-- The chain heads after one more row. A legacy `config:v1` row is never a head. -/
def foldHead (heads : ChainHeads) (a : Attestation) (entry : ConfigEntry) : ChainHeads :=
  if a.dimension = some (configDimension entry.key) ∧ isNewer heads entry a.assertedAt = true then
    heads.insert entry.key ⟨a.attestationId, entry.version, a.assertedAt⟩
  else heads

/-- One row of the scan. `live` is false of a retracted or suspect row, which can be a
    head all the same. -/
def foldRow (live : Attestation → Bool) (acc : List StoredRow × ChainHeads) (a : Attestation) :
    List StoredRow × ChainHeads :=
  match a.configEntry with
  | none => acc
  | some entry =>
    let heads := foldHead acc.2 a entry
    if live a then (acc.1 ++ [⟨a.attestationId, a.assertedAt, entry⟩], heads) else (acc.1, heads)

/-- Neither retracted nor suspect, as this scan's reads say. -/
def ScanEnv.finds (env : ScanEnv) (suspect : Attestation → Bool) (store : List Attestation)
    (a : Attestation) : Bool :=
  !((revokedConfigRows env store).contains a.attestationId ||
    env.revokedExternally a.attestationId || suspect a)

/-- One scan of the config plane. -/
def liveConfigRows (env : ScanEnv) (scan now : Nat) (store : List Attestation) :
    Except ConfigError ConfigSnapshot := do
  let nodeKeyId ← env.identity.mapError .identity
  env.admission.mapError .admission
  env.listing.mapError (.listing nodeKeyId)
  let items := env.order (store.filter fun a => isConfigDimension a.dimension)
  let suspect ← env.suspect.mapError .revocations
  let (rows, heads) := items.foldl (foldRow (env.finds suspect store)) ([], ∅)
  return { nodeKeyId, rows, heads, loadedAt := now, scan }

/-! ## The cache -/

/-- `CONFIG_SNAPSHOT_TTL`, in nanoseconds. -/
def configSnapshotTtl : Nat := 2000000000

/-- `CACHE_SLOTS`. -/
def cacheSlots : Nat := 8

section Cache

variable {α : Type} (me : Nat) (slots : List (Nat × α))

/-- Drop the engine's slot. -/
def invalidateEngine : List (Nat × α) :=
  slots.filter fun slot => slot.1 ≠ me

/-- The engine's slot. -/
def cachedFor : Option α :=
  (slots.find? fun slot => slot.1 = me).map (·.2)

/-- Replace the engine's slot, dropping the oldest of a full cache. -/
def insertSlot (a : α) : List (Nat × α) :=
  let kept := invalidateEngine me slots
  (if cacheSlots ≤ kept.length then kept.tail else kept) ++ [(me, a)]

end Cache

/-- A snapshot still serves reads. -/
def ConfigSnapshot.fresh (snap : ConfigSnapshot) (now : Nat) : Bool :=
  now - snap.loadedAt < configSnapshotTtl

/-! ## Writes -/

/-- What `set_config` is asked to write. -/
structure WriteRequest where
  key : String
  value : ConfigValue
  updatedBy : String
  scope : ConfigScope
deriving DecidableEq

/-- The entry a write appends: the version after everything the snapshot holds of the
    key, chained to the leaf's head or to the newest live row. -/
def WriteRequest.entry (req : WriteRequest) (snap : ConfigSnapshot) : ConfigEntry :=
  let current := latestForKey snap.rows req.key
  let head := snap.heads.lookup req.key
  { key := req.key
    value := req.value
    version := ((current.map (·.entry.version)).toList ++
      (head.map (·.version)).toList).max?.getD 0 + 1
    updatedBy := req.updatedBy
    scope := req.scope
    previousVersion := (head.map (·.attestationId)).or (current.map (·.attestationId)) }

/-- The row the write supersedes, if the key's leaf is open. -/
def WriteRequest.renews (req : WriteRequest) (snap : ConfigSnapshot) : Option String :=
  (snap.heads.lookup req.key).map (·.attestationId)

/-- The first row of a leaf is a `scores`, every later one a `supersedes`. -/
def WriteRequest.kind (req : WriteRequest) (snap : ConfigSnapshot) : AttestationType :=
  if (req.renews snap).isSome then .supersedes else .scores

/-- The row `emit_attestation_self` stores, with the id and instant persist stamps. -/
def WriteRequest.row (req : WriteRequest) (snap : ConfigSnapshot) (nodeKeyId attestationId : String)
    (assertedAt : Int) : Attestation where
  attestationId := attestationId
  attestationType := req.kind snap
  attestedKeyId := nodeKeyId
  subjectKeyIds := [nodeKeyId]
  assertedAt := assertedAt
  attestationEnvelope := configEnvelope nodeKeyId (req.entry snap) (req.renews snap)

/-- `delete_config`'s write: a tombstone under the key's current scope. -/
def tombstone (snap : ConfigSnapshot) (key updatedBy : String) : WriteRequest where
  key := key
  value := .null
  updatedBy := updatedBy
  scope := ((snap.get key).map (·.scope)).getD .localScope

/-! ## What the fold keeps -/

/-- Only rows of the `config:` family are read. -/
theorem Attestation.isConfigDimension_of_storedRow {r : StoredRow} (a : Attestation)
    (h : a.storedRow = some r) : isConfigDimension a.dimension = true := by
  obtain ⟨entry, hentry, -⟩ := Option.map_eq_some_iff.mp h
  unfold configEntry at hentry
  split at hentry
  · rename_i hconfig
    exact hconfig.1
  · cases hentry

/-- A written row carries its entry. -/
theorem WriteRequest.row_configEntry (req : WriteRequest) (snap : ConfigSnapshot)
    (nodeKeyId attestationId : String) (assertedAt : Int) :
    (req.row snap nodeKeyId attestationId assertedAt).configEntry = some (req.entry snap) := by
  have hdimension : (req.row snap nodeKeyId attestationId assertedAt).dimension =
      some (configDimension req.key) := rfl
  have hconfig : isConfigDimension (some (configDimension req.key)) = true := by
    simp [isConfigDimension, configDimension]
  have hkind : (req.row snap nodeKeyId attestationId assertedAt).attestationType = .scores ∨
      (req.row snap nodeKeyId attestationId assertedAt).attestationType = .supersedes := by
    simp only [row, kind]
    by_cases hrenews : (req.renews snap).isSome = true <;> simp [hrenews]
  unfold Attestation.configEntry
  rw [if_pos ⟨hdimension ▸ hconfig, hkind⟩]
  exact entryFromEnvelope_configEnvelope nodeKeyId (req.entry snap) (req.renews snap)

/-- The scan's rows are the live rows it was handed, in their order. -/
theorem foldRow_rows (live : Attestation → Bool) (items : List Attestation)
    (acc : List StoredRow × ChainHeads) :
    (items.foldl (foldRow live) acc).1 =
      acc.1 ++ (items.filter live).filterMap Attestation.storedRow := by
  induction items generalizing acc with
  | nil => simp
  | cons a items ih =>
    rw [List.foldl_cons, ih]
    unfold foldRow
    cases hentry : a.configEntry with
    | none => cases hlive : live a <;> simp [Attestation.storedRow, hentry, hlive]
    | some entry => cases hlive : live a <;> simp [Attestation.storedRow, hentry, hlive]

/-- A scan that succeeds holds the rows of the store that it finds live. -/
theorem liveConfigRows_ok {env : ScanEnv} {scan now : Nat} {store : List Attestation}
    {snap : ConfigSnapshot} (h : liveConfigRows env scan now store = .ok snap) :
    ∃ suspect, env.suspect = .ok suspect ∧ ∀ r, r ∈ snap.rows ↔
      ∃ a ∈ store, env.finds suspect store a = true ∧ a.storedRow = some r := by
  unfold liveConfigRows at h
  obtain ⟨nodeKeyId, -, h⟩ := except_bind_ok h
  obtain ⟨_, -, h⟩ := except_bind_ok h
  obtain ⟨_, -, h⟩ := except_bind_ok h
  obtain ⟨suspect, hsuspect, h⟩ := except_bind_ok h
  refine ⟨suspect, except_mapError_ok hsuspect, fun r => ?_⟩
  obtain rfl := Except.ok.inj h
  rw [foldRow_rows, List.nil_append, List.mem_filterMap]
  constructor
  · rintro ⟨a, ha, hrow⟩
    obtain ⟨hitem, hfinds⟩ := List.mem_filter.mp ha
    have hstore := (env.order_perm _).mem_iff.mp hitem
    exact ⟨a, (List.mem_filter.mp hstore).1, hfinds, hrow⟩
  · rintro ⟨a, ha, hfinds, hrow⟩
    have hconfig : isConfigDimension a.dimension = true := a.isConfigDimension_of_storedRow hrow
    refine ⟨a, List.mem_filter.mpr ⟨(env.order_perm _).mem_iff.mpr ?_, hfinds⟩, hrow⟩
    exact List.mem_filter.mpr ⟨ha, hconfig⟩

/-- Rows are compared by version first. -/
theorem le_of_toLex_le {v v' : Nat} {t t' : Int} (h : toLex (v, t) ≤ toLex (v', t')) : v ≤ v' := by
  rcases Prod.Lex.le_iff.mp h with hlt | ⟨heq, -⟩
  · exact Nat.le_of_lt hlt
  · exact Nat.le_of_eq heq

/-- The newest row of a key is one of its rows, and none has a higher version. -/
theorem latestForKey_spec {rows : List StoredRow} {key : String} {r : StoredRow}
    (h : latestForKey rows key = some r) :
    r ∈ rows ∧ r.entry.key = key ∧
      ∀ r' ∈ rows, r'.entry.key = key → r'.entry.version ≤ r.entry.version := by
  have hmem := List.mem_filter.mp (List.mem_reverse.mp (List.maxOn?_mem h))
  refine ⟨hmem.1, by simpa using hmem.2, fun r' hr' hkey => ?_⟩
  have hr : r' ∈ (rows.filter fun r => r.entry.key = key).reverse := by
    simp [hr', hkey]
  have hle := List.le_apply_get_maxOn?_of_mem
    (f := fun r : StoredRow => toLex (r.entry.version, r.assertedAt)) hr
  unfold latestForKey at h
  simp only [h, Option.get_some] at hle
  exact le_of_toLex_le hle

/-- A key with a row has a newest one. -/
theorem latestForKey_isSome {rows : List StoredRow} {key : String} {r : StoredRow}
    (hr : r ∈ rows) (hkey : r.entry.key = key) : ∃ r', latestForKey rows key = some r' := by
  refine Option.isSome_iff_exists.mp (List.isSome_maxOn?_of_mem (x := r) ?_)
  simp [hr, hkey]

/-- A write's version is beyond every live row of its key. -/
theorem WriteRequest.version_lt (req : WriteRequest) (snap : ConfigSnapshot) {r : StoredRow}
    (hr : r ∈ snap.rows) (hkey : r.entry.key = req.key) :
    r.entry.version < (req.entry snap).version := by
  obtain ⟨r', hlatest⟩ := latestForKey_isSome hr hkey
  have hle := (latestForKey_spec hlatest).2.2 r hr hkey
  simp only [entry, hlatest, Option.map_some, Option.toList_some, List.cons_append, List.nil_append]
  rw [Nat.lt_succ_iff]
  refine Nat.le_trans hle ?_
  cases snap.heads.lookup req.key with
  | none => simp
  | some head => simp [List.max?_cons]

end CirisServer

/-!
## Config calls, step by step

`src/graph_config.rs`, `snapshot`, `get_config`, `set_config` and `delete_config` on one
engine: the cache lookup, the store scan, the cache insert, `invalidate_engine` and the
store write are atomic, and the calls of many tasks interleave between them.

Three things here are bookkeeping of the model, not of the server: how many rows the
store had when a scan read it (`Scan.seen`), the writes that have returned
(`ConfigPlane.returned`), and how many had returned when a read began (`Goal.read`).
-/

namespace CirisServer

open Interleave

/-- A snapshot, and the number of rows its scan found in the store. -/
structure Scan where
  snapshot : ConfigSnapshot
  seen : Nat
deriving DecidableEq

/-- A write that landed: its key, and the place of its row in the store. -/
structure Landed where
  key : String
  position : Nat
deriving DecidableEq

/-- The store, the snapshot cache, and the writes that have returned, oldest first. -/
structure ConfigPlane where
  store : List Attestation
  cache : List (Nat × Scan)
  scans : Nat
  clock : Nat
  returned : List Landed
deriving DecidableEq

/-- A call of one of the doors. -/
inductive ConfigCall where
  | snapshot
  | getConfig (key : String)
  | setConfig (req : WriteRequest)
  | deleteConfig (key updatedBy : String)
deriving DecidableEq

/-- Which keys' values a read hands out. -/
inductive ReadGoal where
  | snapshot
  | getConfig (key : String)
deriving DecidableEq

/-- What a call does with the snapshot it asked for. -/
inductive Goal where
  /-- Hand it out; `since` writes had returned when the read began. -/
  | read (goal : ReadGoal) (since : Nat)
  | write (req : WriteRequest)
  | delete (key updatedBy : String)
deriving DecidableEq

/-- Where a call stands. -/
inductive ConfigTask where
  | invalidating (req : WriteRequest)
  | lookup (goal : Goal)
  | scanning (goal : Goal)
  | inserting (goal : Goal) (scan : Scan)
  | writing (req : WriteRequest) (scan : Scan)
  /-- A write whose row is stored and whose trailing invalidation is next. -/
  | settling (landed : Landed) (entry : ConfigEntry)
  | answered (goal : ReadGoal) (since : Nat) (scan : Scan)
  | wrote (entry : ConfigEntry)
  | failed (e : ConfigError)
deriving DecidableEq

/-- `set_config` up to its first invalidation. -/
def ConfigTask.startWrite (req : WriteRequest) : ConfigTask :=
  if configKeyIsALeaf req.key then .invalidating req else .failed (.notALeaf req.key)

/-- The call goes on with its snapshot. -/
def Goal.resume (goal : Goal) (scan : Scan) : ConfigTask :=
  match goal with
  | .read goal since => .answered goal since scan
  | .write req => .writing req scan
  | .delete key updatedBy => .startWrite (tombstone scan.snapshot key updatedBy)

/-- What the outside does during a step. -/
structure ConfigEnv where
  wait : Nat
  scan : ScanEnv
  /-- `self_key_id` before a write. -/
  identity : Except String String
  /-- `emit_attestation_self`: the id and instant persist stamps. -/
  emit : Except String (String × Int)

namespace ConfigPlane

variable (me : Nat) (env : ConfigEnv) (p : ConfigPlane)

/-- Time passes before a step. -/
def tick : ConfigPlane := { p with clock := p.clock + env.wait }

/-- The cache lookup. -/
def lookupStep (goal : Goal) : ConfigTask :=
  match cachedFor me p.cache with
  | some scan => if scan.snapshot.fresh p.clock then goal.resume scan else .scanning goal
  | none => .scanning goal

/-- The store scan. -/
def scanStep (goal : Goal) : ConfigPlane × ConfigTask :=
  ({ p with scans := p.scans + 1 },
    match liveConfigRows env.scan (p.scans + 1) p.clock p.store with
    | .error e => .failed e
    | .ok snapshot => .inserting goal ⟨snapshot, p.store.length⟩)

/-- The store write. -/
def writeStep (req : WriteRequest) (scan : Scan) : ConfigPlane × ConfigTask :=
  match env.identity with
  | .error e => (p, .failed (.identity e))
  | .ok nodeKeyId =>
    match env.emit with
    | .error e => (p, .failed (.emit (configDimension req.key) (req.kind scan.snapshot) e))
    | .ok (attestationId, assertedAt) =>
      ({ p with store := p.store ++ [req.row scan.snapshot nodeKeyId attestationId assertedAt] },
        .settling ⟨req.key, p.store.length⟩ (req.entry scan.snapshot))

end ConfigPlane

/-- The next atomic step of a call. -/
def ConfigTask.advance (me : Nat) (env : ConfigEnv) (task : ConfigTask) (p : ConfigPlane) :
    ConfigPlane × ConfigTask :=
  match task with
  | .invalidating req => ({ p with cache := invalidateEngine me p.cache }, .lookup (.write req))
  | .lookup goal => (p, p.lookupStep me goal)
  | .scanning goal => p.scanStep env goal
  | .inserting goal scan => ({ p with cache := insertSlot me p.cache scan }, goal.resume scan)
  | .writing req scan => p.writeStep env req scan
  | .settling landed entry =>
    ({ p with cache := invalidateEngine me p.cache, returned := p.returned ++ [landed] },
      .wrote entry)
  | .answered goal since scan => (p, .answered goal since scan)
  | .wrote entry => (p, .wrote entry)
  | .failed e => (p, .failed e)

/-- A call's first state. -/
def ConfigCall.spawn (call : ConfigCall) (p : ConfigPlane) : ConfigTask :=
  match call with
  | .snapshot => .lookup (.read .snapshot p.returned.length)
  | .getConfig key => .lookup (.read (.getConfig key) p.returned.length)
  | .setConfig req => .startWrite req
  | .deleteConfig key updatedBy => .lookup (.delete key updatedBy)

/-- The calls on engine `me`, side by side. -/
def configServer (me : Nat) : System ConfigPlane ConfigTask ConfigCall ConfigEnv where
  spawn call p := (p, call.spawn p)
  advance env task p := task.advance me env (p.tick env)

end CirisServer

/-!
## Retractions beside config calls

`src/attest.rs`, `put`: the door by which every other row is stored. A row that touches the
config plane, and any `withdraws` or `recants`, invalidates the engine's snapshot once it is
stored. Here retractions go through it, side by side with the config calls.
-/

namespace CirisServer

open Interleave

/-- The row retracts what it names. -/
def Attestation.retracts (a : Attestation) : Bool :=
  a.attestationType = .withdraws ∨ a.attestationType = .recants

/-- A row that withdraws or recants. -/
structure Retraction where
  row : Attestation
  retracts : row.retracts = true
deriving DecidableEq

/-- Where a `put` stands. -/
inductive PutTask where
  | storing (row : Attestation)
  /-- The row is stored, and the engine's snapshot is to go. -/
  | invalidating (attestationId : String)
  | stored (attestationId : String)
  | refused (cause : String)
deriving DecidableEq

/-- The next region of a `put`; `admitted` is what persist answers. -/
def PutTask.advance (me : Nat) (admitted : Except String Unit) (task : PutTask) (p : ConfigPlane) :
    ConfigPlane × PutTask :=
  match task with
  | .storing row =>
    match admitted with
    | .error e => (p, .refused e)
    | .ok () =>
      ({ p with store := p.store ++ [row] },
        if isConfigDimension row.dimension = true ∨ row.retracts = true then
          .invalidating row.attestationId
        else .stored row.attestationId)
  | .invalidating attestationId =>
    ({ p with cache := invalidateEngine me p.cache }, .stored attestationId)
  | .stored attestationId => (p, .stored attestationId)
  | .refused e => (p, .refused e)

inductive PlaneCall where
  | config (call : ConfigCall)
  | retract (retraction : Retraction)
deriving DecidableEq

inductive PlaneTask where
  | config (task : ConfigTask)
  | put (task : PutTask)
deriving DecidableEq

structure PlaneEnv where
  config : ConfigEnv
  admitted : Except String Unit

/-- Config calls and retractions on engine `me`, side by side. -/
def planeServer (me : Nat) : System ConfigPlane PlaneTask PlaneCall PlaneEnv where
  spawn call p :=
    match call with
    | .config call => (p, .config (call.spawn p))
    | .retract retraction => (p, .put (.storing retraction.row))
  advance env task p :=
    match task with
    | .config task =>
      let (p, task) := task.advance me env.config (p.tick env.config)
      (p, .config task)
    | .put task =>
      let (p, task) := task.advance me env.admitted (p.tick env.config)
      (p, .put task)

end CirisServer
