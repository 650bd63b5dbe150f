import Mathlib.Logic.Function.Basic
import CirisServer.Native.Json

/-!
# The reveal gate

`src/safety/infohazard.rs`: a subject is flagged by `content_class:*` rows, anyone's, and a
withdrawal of an authorised emitter clears the flag. `POST /v1/safety/reveal` answers whether a
viewer may see the subject: a flag is lifted by the viewer's scoped consent.

The rows, the revocations and the consent fold are the federation directory's, so they are
parameters, and so is who signed the request (`verify_request`). A read that fails carries its
error.
-/

namespace CirisServer.Infohazard

inductive ContentFlag where
  | infohazard
  | reported
deriving DecidableEq

namespace ContentFlag

def asStr : ContentFlag → String
  | infohazard => "infohazard"
  | reported => "reported"

def dimensionPrefix : ContentFlag → String
  | infohazard => "content_class:infohazard"
  | reported => "content_class:reported"

def prompt : ContentFlag → String
  | infohazard => "I consent to view this material reported as a potential infohazard."
  | reported => "I consent to view this material that has been reported."

end ContentFlag

structure RequiredConsent where
  state : String
  scope : String
  contentClass : String
deriving DecidableEq

inductive RevealDecision where
  | allow
  | interstitial (flag : ContentFlag) (required : RequiredConsent)
deriving DecidableEq

def infohazardRevealDecision (flag : Option ContentFlag) (hasConsent : Bool) : RevealDecision :=
  match flag with
  | none => .allow
  | some flag =>
    if hasConsent then .allow
    else .interstitial flag ⟨"consent:state:granted", "consent:scope:view", flag.asStr⟩

/-! ## The directory -/

/-- What the gate reads of an attestation row. -/
structure Row where
  attestingKeyId : String
  attestationEnvelope : Json
  assertedAt : Int
  expiresAt : Option Int
deriving DecidableEq

namespace Row

def dimension (row : Row) : Option String :=
  (row.attestationEnvelope.get? "dimension").bind Json.asStr

def withdrawn (row : Row) : Bool :=
  ((row.attestationEnvelope.get? "withdrawn").bind Json.asBool).getD false

/-- The class that the row's dimension names. -/
def contentClass (row : Row) : Option ContentFlag :=
  row.dimension.bind fun dimension =>
    if ContentFlag.infohazard.dimensionPrefix.toList.isPrefixOf dimension.toList then
      some .infohazard
    else if ContentFlag.reported.dimensionPrefix.toList.isPrefixOf dimension.toList then
      some .reported
    else none

end Row

inductive ConsentState where
  | granted
  | revoked
  | expired
  | unspecified
deriving DecidableEq

/-- The federation directory. -/
structure Directory where
  attestationsToAll : String → Except String (List Row)
  /-- When each revocation of a key takes effect. -/
  revocationsFor : String → Except String (List Int)
  /-- `resolve_scoped_consent`: the target, the viewer, the scope, the class, and when. -/
  resolveScopedConsent : String → String → String → Option String → Int → Except String ConsentState

/-- The directory with other rows about a subject. -/
def Directory.withRows (dir : Directory) (subjectKeyId : String) (rows : List Row) : Directory :=
  { dir with
    attestationsToAll := Function.update dir.attestationsToAll subjectKeyId (.ok rows) }

/-! ## Who may clear a flag -/

structure FlagAuthority where
  emitters : List String
deriving DecidableEq

def FlagAuthority.lists (authority : FlagAuthority) (attestingKeyId : String) : Bool :=
  authority.emitters.contains attestingKeyId

inductive ClearAdmission where
  | admitted
  | notAuthorized
  | unevaluable
deriving DecidableEq

def clearVerdict (listed : Bool) (revocations : Except Unit (List Int)) (now : Int) :
    ClearAdmission :=
  if !listed then .notAuthorized
  else
    match revocations with
    | .error () => .unevaluable
    | .ok rows => if rows.any (· ≤ now) then .notAuthorized else .admitted

def FlagAuthority.admitsClear (authority : FlagAuthority) (dir : Directory)
    (attestingKeyId : String) (now : Int) : ClearAdmission :=
  clearVerdict (authority.lists attestingKeyId)
    ((dir.revocationsFor attestingKeyId).mapError fun _ => ()) now

/-! ## The flag -/

def flagRowIsLive (expiresAt : Option Int) (now : Int) : Bool :=
  expiresAt.all fun exp => now < exp

/-- The newest row of a class that was let in: when it was asserted, and whether it withdraws. -/
abbrev Slot := Option (Int × Bool)

/-- The locals of `subject_flag`. -/
structure Scan where
  infohazard : Slot := none
  reported : Slot := none
  verdicts : String → Option ClearAdmission := fun _ => none

/-- The verdict on an emitter, which is asked for once. -/
def Scan.verdict (authority : FlagAuthority) (dir : Directory) (now : Int) (s : Scan)
    (attestingKeyId : String) : Scan × ClearAdmission :=
  match s.verdicts attestingKeyId with
  | some v => (s, v)
  | none =>
    let v := authority.admitsClear dir attestingKeyId now
    ({ s with verdicts := Function.update s.verdicts attestingKeyId (some v) }, v)

/-- The newest row so far. -/
def newer (slot : Slot) (row : Row) : Slot :=
  if slot.all fun held => held.1 ≤ row.assertedAt then some (row.assertedAt, row.withdrawn)
  else slot

def Scan.record (s : Scan) (flag : ContentFlag) (row : Row) : Scan :=
  match flag with
  | .infohazard => { s with infohazard := newer s.infohazard row }
  | .reported => { s with reported := newer s.reported row }

/-- One round of the loop over the rows. -/
def Scan.step (authority : FlagAuthority) (dir : Directory) (now : Int) (s : Scan) (row : Row) :
    Scan :=
  if !flagRowIsLive row.expiresAt now then s
  else
    match row.contentClass with
    | none => s
    | some flag =>
      if row.withdrawn then
        let (s, verdict) := s.verdict authority dir now row.attestingKeyId
        if verdict ≠ .admitted then s else s.record flag row
      else s.record flag row

def Scan.slot (s : Scan) : ContentFlag → Slot
  | .infohazard => s.infohazard
  | .reported => s.reported

/-- The newest row of the class is a flag. -/
def Scan.present (s : Scan) (flag : ContentFlag) : Bool :=
  match s.slot flag with
  | some (_, false) => true
  | _ => false

def subjectFlag (dir : Directory) (now : Int) (subjectKeyId : String)
    (requested : Option ContentFlag) (authority : FlagAuthority) :
    Except String (Option ContentFlag) := do
  let rows ← (dir.attestationsToAll subjectKeyId).mapError ("list flags for subject: " ++ ·)
  let s := rows.foldl (Scan.step authority dir now) {}
  match requested with
  | some flag => return if s.present flag then some flag else none
  | none =>
    return if s.present .infohazard then some .infohazard
      else if s.present .reported then some .reported
      else none

/-! ## The answer -/

/-- `reveal_decision`. The clock is read for the rows, and once more for the consent. -/
def revealDecision (dir : Directory) (now now' : Int) (viewerKeyId subjectKeyId : String)
    (requested : Option ContentFlag) (authority : FlagAuthority) :
    Except String RevealDecision := do
  let flag ← subjectFlag dir now subjectKeyId requested authority
  let hasConsent ←
    match flag with
    | none => .ok false
    | some f =>
      ((dir.resolveScopedConsent subjectKeyId viewerKeyId "view" (some f.asStr) now').mapError
        ("resolve_scoped_consent: " ++ ·)).map fun state => decide (state = .granted)
  return infohazardRevealDecision flag hasConsent

/-- Why a request fails to authenticate. -/
inductive VerifyError where
  | missingHeader (header : String)
  | noDirectory
  | signatureInvalid (error : String)
deriving DecidableEq

structure RevealRequest where
  subjectKeyId : String
  contentClass : Option ContentFlag
deriving DecidableEq

structure RevealState where
  directory : Directory
  authority : FlagAuthority

/-- An HTTP answer. -/
structure Answer where
  status : Nat
  body : Json
deriving DecidableEq

def err (code : Nat) (msg : String) : Answer := ⟨code, .ofStrings [("error", msg)]⟩

def RequiredConsent.toJson (r : RequiredConsent) : Json :=
  .ofStrings [("state", r.state), ("scope", r.scope), ("content_class", r.contentClass)]

def RevealDecision.answer : RevealDecision → Answer
  | .allow => ⟨200, .ofStrings [("decision", "allow")]⟩
  | .interstitial flag required =>
    ⟨403, .obj [("decision", .str "interstitial"), ("flag", .str flag.asStr),
      ("prompt", .str flag.prompt), ("required", required.toJson)]⟩

/-- `POST /v1/safety/reveal`, with the signature and the body read. -/
def reveal (st : RevealState) (now now' : Int) (caller : Except VerifyError String)
    (body : Except String RevealRequest) : Answer :=
  match caller with
  | .error (.missingHeader h) => err 401 ("missing " ++ h)
  | .error .noDirectory => err 503 "no federation directory"
  | .error (.signatureInvalid e) => err 401 ("signature: " ++ e)
  | .ok viewerKeyId =>
    match body with
    | .error e => err 400 ("bad request: " ++ e)
    | .ok req =>
      match revealDecision st.directory now now' viewerKeyId req.subjectKeyId req.contentClass
        st.authority with
      | .ok decision => decision.answer
      | .error e => err 500 e

end CirisServer.Infohazard

/-!
## Flags and who may set them

`src/safety/infohazard.rs`, `flag`, and `src/safety/moderation.rs`,
`admit_moderation_action`: `POST /v1/safety/flag` checks the caller's `moderate` duty
over the community that the request names, and then the node's own key signs a
`content_class:*` row about the subject.

The duties and the occurrences of a key are the federation directory's, so what they
answer comes with each call, and so does what persist makes of the row.
-/

namespace CirisServer.Infohazard

/-- The duty a moderation action exercises. -/
inductive Duty where
  | moderate
  | takedown
  | review
deriving DecidableEq

def Duty.scopeToken : Duty → String
  | moderate => "moderate"
  | takedown => "takedown"
  | review => "review"

inductive FlagAction where
  | flag
  | clear
deriving DecidableEq

structure FlagRequest where
  signerKeyId : String
  communityKeyId : String
  subjectKeyId : String
  contentClass : ContentFlag
  action : FlagAction
deriving DecidableEq

/-- What the outside answers while a signed safety request is handled. -/
structure SafetyEnv where
  /-- `signer_acts_for`: the caller, and the identity it acts for. -/
  actsFor : String → String → Bool
  /-- `admit_moderation_action`: the signer, the community, and the duty. -/
  admits : String → String → Duty → Except String Bool
  /-- When persist stamps the row. -/
  now : Int
  /-- The id of the stored row, or why it was not stored. -/
  emit : Except String String
  /-- `enter_mesh_at`, for a row that is stored locally first. -/
  promote : Except String Unit

/-- The answer to a request that does not authenticate. -/
def VerifyError.answer : VerifyError → Answer
  | .missingHeader h => err 401 ("missing " ++ h)
  | .noDirectory => err 503 "no federation directory"
  | .signatureInvalid e => err 401 ("signature: " ++ e)

/-- The row that `emit_content_flag` has the node's key sign. It names the subject and the
    class. -/
def contentFlagRow (emitterKeyId : String) (flag : ContentFlag) (withdrawn : Bool) (now : Int) :
    Row where
  attestingKeyId := emitterKeyId
  attestationEnvelope := .obj <|
    [("dimension", .str ("content_class:" ++ flag.asStr ++ ":v1")),
     ("content_class", .str flag.asStr)] ++
    if withdrawn then [("withdrawn", .bool true)] else []
  assertedAt := now
  expiresAt := none

/-- The checks of `flag`, in their order. They end with the request and the key that signs. -/
def flagGate (substrateSigner : Option String) (env : SafetyEnv)
    (caller : Except VerifyError String) (body : Except String FlagRequest) :
    Except Answer (FlagRequest × String) := do
  let callerKeyId ← caller.mapError VerifyError.answer
  let req ← body.mapError fun e => err 400 ("bad request: " ++ e)
  if !env.actsFor callerKeyId req.signerKeyId then
    .error (err 403 "signer is neither the acting key nor an admitted occurrence of it")
  else
    match env.admits req.signerKeyId req.communityKeyId .moderate with
    | .ok true =>
      match substrateSigner with
      | some signer => .ok (req, signer)
      | none =>
        .error (err 503 ("no substrate_persist signer wired on this node — cannot author the " ++
          "reserved content_class flag (compose::substrate_persist_signer)"))
    | .ok false =>
      .error (err 403 ("not authorized to flag: the moderate duty is held or delegated, never " ++
        "assumed (CEG §11.10 — no named-moderator authority and no live delegated chain)"))
    | .error e => .error (err 500 e)

/-- The rows about each subject. -/
abbrev FlagRows := String → List Row

/-- `POST /v1/safety/flag`, with the signature and the body read. -/
def flag (substrateSigner : Option String) (env : SafetyEnv) (caller : Except VerifyError String)
    (body : Except String FlagRequest) (rows : FlagRows) : FlagRows × Answer :=
  match flagGate substrateSigner env caller body with
  | .error answer => (rows, answer)
  | .ok (req, signer) =>
    let withdrawn := decide (req.action = .clear)
    match env.emit with
    | .error e =>
      (rows, err 500 ("emit content_class:" ++ req.contentClass.asStr ++
        " flag (substrate-signed): " ++ e))
    | .ok attestationId =>
      (Function.update rows req.subjectKeyId
        (rows req.subjectKeyId ++ [contentFlagRow signer req.contentClass withdrawn env.now]),
        ⟨200, .ofStrings [("attestation_id", attestationId),
          ("content_class", req.contentClass.asStr),
          ("action", if withdrawn then "clear" else "flag"), ("emitter_key_id", signer)]⟩)

end CirisServer.Infohazard
