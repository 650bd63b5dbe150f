import CirisServer.Native.Watchlist

/-!
# The signed safety routes

`POST /v1/safety/flag`, `/watchlist`, `/moderation` and `/age-assurance`: the last two
(`src/safety/moderation.rs`, `src/safety/age.rs`), what serde reads of the bodies of all
four, and how a signed request reaches them. `verify_request` (`src/auth/verify.rs`) checks
a signature over the body: neither the route nor the time of the request is signed.
-/

namespace CirisServer.Infohazard

open Watchlist

/-! ## Bodies -/

/-- What a derived reader of these fields accepts: an object with no field twice, or an
    array that is not too long. Other members are ignored. -/
def hasFields (fields : List String) : Json → Bool
  | .obj members => fields.all fun name => members.countP (fun m => m.1 = name) ≤ 1
  | .arr items => items.length ≤ fields.length
  | _ => false

/-- A field, by its name in an object and by its place in an array. -/
def field? (fields : List String) (j : Json) (name : String) : Option Json :=
  match j with
  | .obj members => members.lookup name
  | .arr items => items[fields.idxOf name]?
  | _ => none

def ContentFlag.ofStr : String → Option ContentFlag
  | "infohazard" => some infohazard
  | "reported" => some reported
  | _ => none

def FlagAction.ofStr : String → Option FlagAction
  | "flag" => some flag
  | "clear" => some clear
  | _ => none

def flagFields : List String :=
  ["signer_key_id", "community_key_id", "subject_key_id", "content_class", "action"]

def FlagRequest.ofJson (j : Json) : Option FlagRequest := do
  if !hasFields flagFields j then none
  let field := field? flagFields j
  let signerKeyId ← (← field "signer_key_id").asStr
  let communityKeyId ← (← field "community_key_id").asStr
  let subjectKeyId ← (← field "subject_key_id").asStr
  let contentClass ← ContentFlag.ofStr (← variantName (← field "content_class"))
  let action ←
    match field "action" with
    | none => some .flag
    | some v => (variantName v).bind FlagAction.ofStr
  some { signerKeyId, communityKeyId, subjectKeyId, contentClass, action }

def watchlistFields : List String :=
  ["signer_key_id", "group_key_id", "watchlist_id", "class", "enabled", "mode",
    "route_to_moderator"]

/-- The enable is flattened into the body, which makes an array no body. -/
def watchlistRequestOfJson (j : Json) : Option WatchlistRequest :=
  match j with
  | .obj _ => do
    if !hasFields watchlistFields j then none
    let signerKeyId ← (← j.get? "signer_key_id").asStr
    let enable ← WatchlistEnable.ofJson j
    some { signerKeyId, enable }
  | _ => none

/-! ## Moderation events -/

def Duty.ofStr : String → Option Duty
  | "moderate" => some moderate
  | "takedown" => some takedown
  | "review" => some review
  | _ => none

structure ModerationRequest where
  signerKeyId : String
  communityKeyId : String
  duty : Duty
  allegationType : String
  targetKeyIds : List String
  payload : Json
deriving DecidableEq

/-- An array of texts. -/
def strings : Json → Option (List String)
  | .arr items => items.mapM Json.asStr
  | _ => none

def moderationFields : List String :=
  ["signer_key_id", "community_key_id", "duty", "allegation_type", "target_key_ids", "payload"]

def ModerationRequest.ofJson (j : Json) : Option ModerationRequest := do
  if !hasFields moderationFields j then none
  let field := field? moderationFields j
  let signerKeyId ← (← field "signer_key_id").asStr
  let communityKeyId ← (← field "community_key_id").asStr
  let duty ← Duty.ofStr (← variantName (← field "duty"))
  let allegationType ← (← field "allegation_type").asStr
  let targetKeyIds ←
    match field "target_key_ids" with
    | none => some []
    | some v => strings v
  some
    { signerKeyId, communityKeyId, duty, allegationType, targetKeyIds
      payload := (field "payload").getD .null }

/-- The row of `emit_moderation_event`. -/
structure ModerationRow where
  attestingKeyId : String
  attestedKeyId : Option String
  attestationEnvelope : Json
  subjectKeyIds : List String
deriving DecidableEq

def moderationRow (req : ModerationRequest) : ModerationRow where
  attestingKeyId := req.signerKeyId
  attestedKeyId := req.targetKeyIds.head?
  attestationEnvelope := .obj
    [("dimension", .str ("moderation:" ++ req.allegationType ++ ":v1")),
     ("community_id", .str req.communityKeyId),
     ("allegation_type", .str req.allegationType),
     ("payload", req.payload)]
  subjectKeyIds := req.targetKeyIds

/-- The checks of `moderation`, in their order. -/
def moderationGate (env : SafetyEnv) (caller : Except VerifyError String)
    (body : Except String ModerationRequest) : Except Answer ModerationRequest := do
  let callerKeyId ← caller.mapError VerifyError.answer
  let req ← body.mapError fun e => err 400 ("bad request: " ++ e)
  if !env.actsFor callerKeyId req.signerKeyId then
    .error (err 403 "signer is neither the acting key nor an admitted occurrence of it")
  else
    match env.admits req.signerKeyId req.communityKeyId req.duty with
    | .ok true => .ok req
    | .ok false =>
      .error (err 403 ("not authorized for this duty: the duty is held or delegated, never " ++
        "assumed (CEG §11.10 — no named-moderator authority and no live delegated chain)"))
    | .error e => .error (err 500 e)

/-- `POST /v1/safety/moderation`, with the signature and the body read. -/
def moderation (env : SafetyEnv) (caller : Except VerifyError String)
    (body : Except String ModerationRequest) (rows : List ModerationRow) :
    List ModerationRow × Answer :=
  match moderationGate env caller body with
  | .error answer => (rows, answer)
  | .ok req =>
    match env.emit with
    | .error e => (rows, err 500 ("upsert moderation event: " ++ e))
    | .ok attestationId =>
      let rows := rows ++ [moderationRow req]
      match env.promote with
      | .error e => (rows, err 500 ("promote moderation event: " ++ e))
      | .ok () =>
        (rows, ⟨200, .ofStrings [("attestation_id", attestationId),
          ("duty", req.duty.scopeToken)]⟩)

/-! ## Declarations of age -/

inductive AgeBand where
  | minor
  | adult
deriving DecidableEq

namespace AgeBand

def asStr : AgeBand → String
  | minor => "minor"
  | adult => "adult"

def ofStr : String → Option AgeBand
  | "minor" => some minor
  | "adult" => some adult
  | _ => none

end AgeBand

inductive AssuranceLevel where
  | selfDeclared
  | provider
  | government
deriving DecidableEq

namespace AssuranceLevel

def asStr : AssuranceLevel → String
  | selfDeclared => "self"
  | provider => "provider"
  | government => "government"

/-- The name in a body, which is not that in a dimension. -/
def ofStr : String → Option AssuranceLevel
  | "self_declared" => some selfDeclared
  | "provider" => some provider
  | "government" => some government
  | _ => none

end AssuranceLevel

def ageDimension (level : AssuranceLevel) (band : AgeBand) : String :=
  match level with
  | .selfDeclared => "age_self_declared:band:" ++ band.asStr ++ ":v1"
  | .provider | .government => "age_assurance:" ++ level.asStr ++ ":" ++ band.asStr ++ ":v1"

structure SetAgeRequest where
  subjectKeyId : String
  band : AgeBand
  level : Option AssuranceLevel
deriving DecidableEq

def setAgeFields : List String := ["subject_key_id", "band", "level"]

def SetAgeRequest.ofJson (j : Json) : Option SetAgeRequest := do
  if !hasFields setAgeFields j then none
  let field := field? setAgeFields j
  let subjectKeyId ← (← field "subject_key_id").asStr
  let band ← AgeBand.ofStr (← variantName (← field "band"))
  let level ←
    match field "level" with
    | none => some none
    | some .null => some none
    | some v => ((variantName v).bind AssuranceLevel.ofStr).map some
  some { subjectKeyId, band, level }

/-- The row of `emit_age_assurance`, which its subject attests. -/
structure AgeRow where
  attestingKeyId : String
  attestationEnvelope : Json
deriving DecidableEq

def ageRow (subjectKeyId : String) (level : AssuranceLevel) (band : AgeBand) : AgeRow where
  attestingKeyId := subjectKeyId
  attestationEnvelope := .ofStrings
    [("dimension", ageDimension level band), ("band", band.asStr), ("level", level.asStr)]

/-- The checks of `set_age`, in their order. -/
def setAgeGate (env : SafetyEnv) (caller : Except VerifyError String)
    (body : Except String SetAgeRequest) : Except Answer SetAgeRequest := do
  let callerKeyId ← caller.mapError VerifyError.answer
  let req ← body.mapError fun e => err 400 ("bad request: " ++ e)
  if !env.actsFor callerKeyId req.subjectKeyId then
    .error (err 403 ("age assurance must be signed by the subject or an admitted occurrence " ++
      "of it"))
  else if req.level.getD .selfDeclared ≠ .selfDeclared then
    .error (err 400 ("only self-declared level is supported via this route; " ++
      "provider/government levels require a verifier attestation (not yet wired)"))
  else .ok req

/-- The rows each subject attests. -/
abbrev AgeRows := String → List AgeRow

/-- `POST /v1/safety/age-assurance`, with the signature and the body read. -/
def setAge (env : SafetyEnv) (caller : Except VerifyError String)
    (body : Except String SetAgeRequest) (rows : AgeRows) : AgeRows × Answer :=
  match setAgeGate env caller body with
  | .error answer => (rows, answer)
  | .ok req =>
    let level := req.level.getD .selfDeclared
    match env.emit with
    | .error e => (rows, err 500 ("upsert age_assurance: " ++ e))
    | .ok attestationId =>
      let subject := req.subjectKeyId
      let rows := Function.update rows subject (rows subject ++ [ageRow subject level req.band])
      match env.promote with
      | .error e => (rows, err 500 ("promote age_assurance: " ++ e))
      | .ok () =>
        (rows, ⟨200, .ofStrings [("attestation_id", attestationId),
          ("dimension", ageDimension level req.band)]⟩)

/-! ## Signed requests -/

/-- The headers and the body of a request: the key that signed, and what the body is as
    JSON, or why it is not JSON. -/
structure SignedRequest where
  keyId : String
  body : Except String Json

inductive SafetyRoute where
  | flag
  | watchlist
  | moderation
  | ageAssurance
deriving DecidableEq

/-- What the outside answers while a route handles a request. -/
structure Handling where
  /-- Why the signature, which is the signer's, does not verify: the directory is the
      node's, and it may not list the key. -/
  unverified : Option VerifyError
  /-- serde's text for a value that is not the route's request. -/
  serdeError : String
  env : SafetyEnv

/-- `verify_request`, of a request with its own signature. -/
def SignedRequest.caller (req : SignedRequest) (h : Handling) : Except VerifyError String :=
  match h.unverified with
  | some e => .error e
  | none => .ok req.keyId

/-- `serde_json::from_slice`. -/
def SignedRequest.decode {α : Type} (req : SignedRequest) (h : Handling)
    (ofJson : Json → Option α) : Except String α := do
  let j ← req.body
  match ofJson j with
  | some a => .ok a
  | none => .error h.serdeError

/-- What the four routes have stored. -/
structure SafetyRows where
  flags : FlagRows
  watchlists : GroupRows
  moderations : List ModerationRow
  ages : AgeRows

/-- A route handles a request. -/
def handleSafety (substrateSigner : Option String) (h : Handling) (route : SafetyRoute)
    (req : SignedRequest) (rows : SafetyRows) : SafetyRows × Answer :=
  let caller := req.caller h
  match route with
  | .flag =>
    let (flags, answer) :=
      Infohazard.flag substrateSigner h.env caller (req.decode h FlagRequest.ofJson) rows.flags
    ({ rows with flags }, answer)
  | .watchlist =>
    let (watchlists, answer) :=
      Watchlist.watchlist h.env caller (req.decode h watchlistRequestOfJson) rows.watchlists
    ({ rows with watchlists }, answer)
  | .moderation =>
    let (moderations, answer) :=
      Infohazard.moderation h.env caller (req.decode h ModerationRequest.ofJson) rows.moderations
    ({ rows with moderations }, answer)
  | .ageAssurance =>
    let (ages, answer) := setAge h.env caller (req.decode h SetAgeRequest.ofJson) rows.ages
    ({ rows with ages }, answer)

end CirisServer.Infohazard
