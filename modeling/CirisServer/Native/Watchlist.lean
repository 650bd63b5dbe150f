import Mathlib.Data.List.AList
import CirisServer.Native.Infohazard

/-!
# Per-group watchlists

`src/safety/watchlist.rs`: `POST /v1/safety/watchlist` writes a row that enables a
watchlist for a group, or a `withdraws` that disables it; `watchlist_enables_for_group`
folds the rows about the group into the enables in force, and `on_publish` admits content
where there is none. Of a row, the reader looks at its type and its envelope.
-/

namespace CirisServer.Watchlist

open Infohazard

inductive WatchlistClass where
  | csam
  | otherContent
deriving DecidableEq

namespace WatchlistClass

def asStr : WatchlistClass → String
  | csam => "csam"
  | otherContent => "other_content"

def ofStr : String → Option WatchlistClass
  | "csam" => some csam
  | "other_content" => some otherContent
  | _ => none

@[simp] theorem ofStr_asStr (c : WatchlistClass) : ofStr c.asStr = some c := by
  cases c <;> rfl

end WatchlistClass

inductive WatchlistMode where
  | alertOnly
  | enforce
deriving DecidableEq

namespace WatchlistMode

def asStr : WatchlistMode → String
  | alertOnly => "alert_only"
  | enforce => "enforce"

def ofStr : String → Option WatchlistMode
  | "alert_only" => some alertOnly
  | "enforce" => some enforce
  | _ => none

@[simp] theorem ofStr_asStr (m : WatchlistMode) : ofStr m.asStr = some m := by
  cases m <;> rfl

end WatchlistMode

/-- The name of a unit variant, as serde reads it: a text, or a map from it to null. -/
def variantName : Json → Option String
  | .str s => some s
  | .obj [(s, .null)] => some s
  | _ => none

/-- A text, a null or nothing, as serde reads an optional text. The outer `none` is an error. -/
def optionalStr : Option Json → Option (Option String)
  | none => some none
  | some .null => some none
  | some (.str s) => some (some s)
  | some _ => none

structure WatchlistEnable where
  groupKeyId : String
  watchlistId : String
  watchlistClass : WatchlistClass
  enabled : Bool
  mode : WatchlistMode
  routeToModerator : Option String
deriving DecidableEq

namespace WatchlistEnable

def dimension (e : WatchlistEnable) : String := "watchlist:" ++ e.watchlistId ++ ":v1"

/-- The serde reading of an object; other members are ignored. -/
def ofJson (j : Json) : Option WatchlistEnable := do
  let groupKeyId ← (← j.get? "group_key_id").asStr
  let watchlistId ← (← j.get? "watchlist_id").asStr
  let watchlistClass ← WatchlistClass.ofStr (← variantName (← j.get? "class"))
  let enabled ← (← j.get? "enabled").asBool
  let mode ← WatchlistMode.ofStr (← variantName (← j.get? "mode"))
  let routeToModerator ← optionalStr (j.get? "route_to_moderator")
  some { groupKeyId, watchlistId, watchlistClass, enabled, mode, routeToModerator }

/-- The envelope of an enable. -/
def envelope (e : WatchlistEnable) : Json :=
  .obj
    [("dimension", .str e.dimension),
     ("group_key_id", .str e.groupKeyId),
     ("watchlist_id", .str e.watchlistId),
     ("class", .str e.watchlistClass.asStr),
     ("enabled", .bool e.enabled),
     ("mode", .str e.mode.asStr),
     ("route_to_moderator", (e.routeToModerator.map Json.str).getD .null)]

/-- An enable comes back from its envelope unchanged. -/
theorem ofJson_envelope (e : WatchlistEnable) : ofJson e.envelope = some e := by
  have hroute : optionalStr (e.envelope.get? "route_to_moderator") = some e.routeToModerator := by
    show optionalStr (some ((e.routeToModerator.map Json.str).getD .null)) = _
    cases e.routeToModerator <;> rfl
  have hclass : e.envelope.get? "class" = some (.str e.watchlistClass.asStr) := rfl
  have hmode : e.envelope.get? "mode" = some (.str e.mode.asStr) := rfl
  have hgroup : e.envelope.get? "group_key_id" = some (.str e.groupKeyId) := rfl
  have hid : e.envelope.get? "watchlist_id" = some (.str e.watchlistId) := rfl
  have henabled : e.envelope.get? "enabled" = some (.bool e.enabled) := rfl
  simp only [ofJson, hroute, hclass, hmode, hgroup, hid, henabled, variantName, Json.asStr,
    Json.asBool, WatchlistClass.ofStr_asStr, WatchlistMode.ofStr_asStr, Option.bind_eq_bind,
    Option.bind_some]

end WatchlistEnable

/-! ## Rows -/

/-- What the reader and the writers know of a row about a group. -/
structure WatchlistRow where
  attestingKeyId : String
  attestationType : String
  attestationEnvelope : Json
deriving DecidableEq

/-- The row of `enable_watchlist`. -/
def enableRow (signerKeyId : String) (e : WatchlistEnable) : WatchlistRow :=
  ⟨signerKeyId, "scores", e.envelope⟩

/-- The row of `disable_watchlist`. -/
def disableRow (signerKeyId groupKeyId watchlistId : String) : WatchlistRow where
  attestingKeyId := signerKeyId
  attestationType := "withdraws"
  attestationEnvelope := .obj
    [("dimension", .str ("watchlist:" ++ watchlistId)),
     ("group_key_id", .str groupKeyId),
     ("watchlist_id", .str watchlistId),
     ("enabled", .bool false)]

namespace WatchlistRow

def watchlistId (row : WatchlistRow) : Option String :=
  (row.attestationEnvelope.get? "watchlist_id").bind Json.asStr

/-- A claim, or the type that older builds wrote. -/
def isEnableType (row : WatchlistRow) : Bool :=
  row.attestationType == "scores" || row.attestationType == "watchlist_config"

def inFamily (row : WatchlistRow) : Bool :=
  ((row.attestationEnvelope.get? "dimension").bind Json.asStr).any fun d =>
    "watchlist:".toList.isPrefixOf d.toList

def enabled (row : WatchlistRow) : Bool :=
  ((row.attestationEnvelope.get? "enabled").bind Json.asBool).getD false

end WatchlistRow

/-! ## The reader -/

/-- The locals of `watchlist_enables_for_group`. -/
structure Enables where
  enables : AList fun _ : String => WatchlistEnable
  withdrawn : List String
deriving DecidableEq

/-- One row of the loop. -/
def Enables.step (s : Enables) (row : WatchlistRow) : Enables :=
  match row.watchlistId with
  | none => s
  | some watchlistId =>
    if row.attestationType = "withdraws" then { s with withdrawn := watchlistId :: s.withdrawn }
    else if !row.isEnableType || !row.inFamily then s
    else if !row.enabled then s
    else
      match WatchlistEnable.ofJson row.attestationEnvelope with
      | some enable => { s with enables := s.enables.insert watchlistId enable }
      | none => s

/-- `watchlist_enables_for_group`, of what the directory answers. A read that fails counts
    as no rows. -/
def watchlistEnablesForGroup (read : Except String (List WatchlistRow)) : List WatchlistEnable :=
  match read with
  | .error _ => []
  | .ok rows =>
    let s := rows.foldl Enables.step ⟨∅, []⟩
    (s.enables.entries.filter fun entry => !s.withdrawn.contains entry.1).map fun entry => entry.2

inductive SeamOutcome where
  | admitted
  | deferredNoMatcher
deriving DecidableEq

def onPublish (read : Except String (List WatchlistRow)) : SeamOutcome :=
  if (watchlistEnablesForGroup read).isEmpty then .admitted else .deferredNoMatcher

/-! ## The route -/

/-- `authority_admits_enable`: `moderate` over the group, and `takedown` too for CSAM. -/
def authorityAdmitsEnable (env : SafetyEnv) (signer : String) (enable : WatchlistEnable) :
    Except String Bool := do
  if !(← env.admits signer enable.groupKeyId .moderate) then return false
  if enable.watchlistClass = .csam then
    if !(← env.admits signer enable.groupKeyId .takedown) then return false
  return true

/-- The body of the route. -/
structure WatchlistRequest where
  signerKeyId : String
  enable : WatchlistEnable
deriving DecidableEq

/-- The row that the request asks for. -/
def WatchlistRequest.row (req : WatchlistRequest) : WatchlistRow :=
  if req.enable.enabled then enableRow req.signerKeyId req.enable
  else disableRow req.signerKeyId req.enable.groupKeyId req.enable.watchlistId

/-- The checks of `watchlist`, in their order. -/
def watchlistGate (env : SafetyEnv) (caller : Except Infohazard.VerifyError String)
    (body : Except String WatchlistRequest) : Except Answer WatchlistRequest := do
  let callerKeyId ← caller.mapError Infohazard.VerifyError.answer
  let req ← body.mapError fun e => err 400 ("bad request: " ++ e)
  if !env.actsFor callerKeyId req.signerKeyId then
    .error (err 403 "signer is neither the acting key nor an admitted occurrence of it")
  else
    match authorityAdmitsEnable env req.signerKeyId req.enable with
    | .ok true => .ok req
    | .ok false =>
      .error (err 403 ("not authorized to manage a watchlist for this group: requires " ++
        "`moderate` (CSAM also `takedown`) over the group — per-group, never global"))
    | .error e => .error (err 500 e)

/-- The rows about each group. -/
abbrev GroupRows := String → List WatchlistRow

/-- `POST /v1/safety/watchlist`, with the signature and the body read. The row is stored
    before it enters the mesh. -/
def watchlist (env : SafetyEnv) (caller : Except Infohazard.VerifyError String)
    (body : Except String WatchlistRequest) (rows : GroupRows) : GroupRows × Answer :=
  match watchlistGate env caller body with
  | .error answer => (rows, answer)
  | .ok req =>
    let group := req.enable.groupKeyId
    match env.emit with
    | .error e =>
      (rows, err 500 ((if req.enable.enabled then "upsert" else "withdraw") ++
        " watchlist_config: " ++ e))
    | .ok attestationId =>
      let rows := Function.update rows group (rows group ++ [req.row])
      match env.promote with
      | .error e =>
        (rows, err 500 ((if req.enable.enabled then "promote watchlist_config: "
          else "promote watchlist withdraw: ") ++ e))
      | .ok () =>
        (rows, ⟨200, .obj [("attestation_id", .str attestationId),
          ("enabled", .bool req.enable.enabled), ("dimension", .str req.enable.dimension)]⟩)

end CirisServer.Watchlist
