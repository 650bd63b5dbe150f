import CirisServer.ForStd.Except
import CirisServer.ForStd.Group
import CirisServer.ForStd.Walk
import CirisServer.Native.DeviceGrant
import CirisServer.Native.Multipart
import CirisServer.Native.RoomModeration
import Mathlib.Data.String.Basic

/-!
# What becomes of a chat message

`src/contacts_chat.rs`, from the transcript of a room to the history of a message: an author edits a
message with a row that supersedes it, and takes it back with a row that withdraws or recants it.
The rows are the directory's, and what they say of one another is edge's and persist's to read.
-/

namespace CirisServer.ContactsChat

open RoomModeration (ModerationView)

abbrev Attestation := RoomModeration.Attestation

/-- `ciris_edge::chat::Body`. -/
inductive Body where
  | text (text : String)
  | unopened (kind detail : String)
  | pointer
deriving DecidableEq

/-- `ciris_edge::chat::ChatMessage`. -/
structure Opened where
  authorKeyId : String
  assertedAt : Int
  edits : Option String
  attachment : Option String
  body : Body
deriving DecidableEq

/-- persist's `precedence` and edge's `chat`. -/
structure Crates where
  isStructuralComposer : String → Bool
  /-- `references_attestation_id_from_envelope`. -/
  references : Json → Option String
  precedenceWinner : List Attestation → Option Attestation
  composerRank : String → Nat
  composerIsAuthors : Attestation → Attestation → Bool
  fromRow : Attestation → String → Option Opened
  /-- A `ComposerReason` is allowed on an op. -/
  reasonAllowedOn : String → String → Bool
  toRfc3339 : Int → String
  /-- `{:?}` of a text. -/
  debug : String → String
  /-- The order that a `HashMap` lists its keys in. -/
  hashOrder : List String → List String
  /-- `paths::WIDENED_AT` and `FIELD_REASON_CODE`. -/
  widenedAt : String
  reasonCode : String

/-! ## Revisions -/

/-- `REVISION_OPS`. -/
def revisionOps : List String := ["supersede", "withdraw", "recant"]

/-- `is_placement_widening`. -/
def isPlacementWidening (cr : Crates) (row : Attestation) : Bool :=
  (row.str cr.widenedAt).any (· ≠ "")

/-- `is_revision`. -/
def isRevision (cr : Crates) (row : Attestation) : Bool :=
  cr.isStructuralComposer row.attestationType && !isPlacementWidening cr row

/-- The row that a row says it is about. -/
def target (cr : Crates) (row : Attestation) : Option String := cr.references row.attestationEnvelope

/-- `status_token`. -/
def statusToken : String → String
  | "recants" => "recanted"
  | "withdraws" => "withdrawn"
  | "supersedes" => "superseded"
  | _ => "live"

/-- The winner of a group of one attester's composers, if it outranks the best so far. -/
def better (cr : Crates) (best : Option Attestation) (group : List Attestation) :
    Option Attestation :=
  match cr.precedenceWinner group with
  | none => best
  | some winner =>
    if best.all fun b => cr.composerRank b.attestationType < cr.composerRank winner.attestationType
    then some winner else best

/-- `fold_status`. -/
def foldStatus (cr : Crates) : Option (List Attestation) → String × Option String
  | none => ("live", none)
  | some composers =>
    let attesters := cr.hashOrder (composers.map (·.attestingKeyId)).dedup
    let groups := attesters.map fun who => composers.filter (·.attestingKeyId = who)
    match groups.foldl (better cr) none with
    | some winner => (statusToken winner.attestationType, some winner.attestationId)
    | none => ("live", none)

/-- The rows that the members wrote, member by member. -/
def readBy (directory : String → Except String (List Attestation)) :
    List String → Except String (List Attestation)
  | [] => .ok []
  | member :: members => do
    let rows ← (directory member).mapError fun e => "list_attestations_by(" ++ member ++ "): " ++ e
    let rest ← readBy directory members
    return rows ++ rest

/-- `rows_by`: in the order of their ids, each once. -/
def rowsBy (directory : String → Except String (List Attestation)) (members : List String) :
    Except String (List Attestation) :=
  (readBy directory members).map (List.sortDedupBy (·.attestationId))

/-- The row with an id. -/
def rowOf (rows : List Attestation) (id : String) : Option Attestation :=
  rows.find? (·.attestationId == id)

/-- `authors_revisions`. -/
def authorsRevisions (cr : Crates) (rows : List Attestation) (target : Attestation) :
    List Attestation :=
  rows.filter fun r => isRevision cr r && cr.composerIsAuthors r target

/-- `max_by`, by the instant and then the id: the last of those that are equal. -/
def latest (rows : List Attestation) : Option Attestation :=
  rows.foldl (fun best row =>
    if best.all fun b => b.assertedAt < row.assertedAt ∨
        (b.assertedAt = row.assertedAt ∧ b.attestationId ≤ row.attestationId)
    then some row else best) none

/-- `next_edit`. -/
def nextEdit (cr : Crates) (rows : List Attestation) (target : Attestation) : Option Attestation :=
  latest ((authorsRevisions cr rows target).filter (·.attestationType = "supersedes"))

/-- `retraction_of`. -/
def retractionOf (cr : Crates) (rows : List Attestation) (head : Attestation) :
    Option Attestation :=
  let r := authorsRevisions cr rows head
  (r.find? (·.attestationType = "recants")).or (r.find? (·.attestationType = "withdraws"))

/-- `resolve_head`. -/
def resolveHead (cr : Crates) (rows : List Attestation) (id : String) : Option Attestation :=
  (rowOf rows id).map (Walk.last (nextEdit cr rows) rows.length)

/-- The version before an edit. -/
def previous (cr : Crates) (rows : List Attestation) (cur : Attestation) : Option Attestation :=
  if !(isRevision cr cur && cur.attestationType = "supersedes") then none
  else
    match (target cr cur).bind (rowOf rows) with
    | some p => if cr.composerIsAuthors cur p then some p else none
    | none => none

/-- `chain_root`. -/
def chainRoot (cr : Crates) (rows : List Attestation) (id : String) : Option Attestation :=
  (rowOf rows id).map (Walk.last (previous cr rows) rows.length)

/-! ## The transcript -/

structure ChatMessage where
  attestationId : String
  attestingKeyId : String
  attestedKeyId : String
  attestationType : String
  subjectKeyIds : List String
  cohortScope : String
  communityId : String
  status : String
  statusAttestationId : Option String
  statusReasonCode : Option String
  edits : Option String
  attachment : Option String
  moderation : Option ModerationView
  viewerOps : List String
  body : Option String
  unopenedReason : Option String
  unopenedDetail : Option String
  contentType : String
  assertedAt : String
  author : String
  mine : Bool
  kind : String
  authorKind : String
  relation : String
  authorRole : Option String
  authorDuties : List String
  messageId : Option String
deriving DecidableEq

/-- The owner of the node, with the caller who acts for them. -/
structure Owner where
  keyId : String
  caller : BoundCaller

structure Member where
  keyId : String
  role : Option String
deriving DecidableEq

/-- What the rest of the node answers to a reader. -/
structure Reader where
  owner : Owner
  /-- This node's occurrence of the owner, if it is active. -/
  viewerOccurrence : Option String
  /-- `resolve_content`, with an occurrence. -/
  resolveContent : String → Opened → Body
  /-- `author_facts`: what the author is, and to the owner. -/
  authorFacts : String → String × String
  dutiesOf : String → List String
  /-- `view_of`, of an item and its author. -/
  viewOf : String → String → Except String (Option ModerationView)

/-- `MAX_EDIT_CHAIN`. -/
def maxEditChain : Nat := 32

/-- The versions before a row, as far back as `n` more of them. -/
def editChain (editsOf : String → Option String) :
    Nat → List String → Option String → List String
  | 0, chain, _ => chain
  | _, chain, none => chain
  | n + 1, chain, some id =>
    if id ∈ chain then chain else editChain editsOf n (chain ++ [id]) (editsOf id)

/-- The decision about the first version that has one. -/
def firstView (viewOf : String → Except String (Option ModerationView)) :
    List String → Except String (Option ModerationView)
  | [] => .ok none
  | id :: chain => do
    match ← viewOf id with
    | some view => return some view
    | none => firstView viewOf chain

/-- A revision of a row that is held, by somebody else. -/
def isForeign (cr : Crates) (rows : List Attestation) (row : Attestation) : Bool :=
  isRevision cr row &&
    ((target cr row).bind (rowOf rows)).any fun t => !cr.composerIsAuthors row t

/-- The revisions of a row that count. -/
def composersOf (cr : Crates) (rows : List Attestation) (id : String) :
    Option (List Attestation) :=
  match rows.filter fun row =>
    isRevision cr row && target cr row = some id && !isForeign cr rows row with
  | [] => none
  | composers => some composers

/-- The body as the reader sees it: the text, or why it did not open. -/
def shownBody : Body → Option String × Option String × Option String
  | .text text => (some text, none, none)
  | .unopened kind detail => (none, some kind, some detail)
  | .pointer =>
    (none, some "not_fetched",
      some "content is in the room's blob store and was not fetched by this read")

/-- The row as a message of the transcript, if it is one. -/
def project (cr : Crates) (reader : Reader) (communityId : String) (members : List Member)
    (rows : List Attestation) (resolveOnly : Option String) (row : Attestation) :
    Except String (Option ChatMessage) :=
  if row.cohortScope ≠ "community" then .ok none
  else if isForeign cr rows row || row.attestationType = "withdraws" ||
      row.attestationType = "recants" then .ok none
  else
    match cr.fromRow row communityId with
    | none => .ok none
    | some opened => do
      let body :=
        match resolveOnly.all (· = row.attestationId), reader.viewerOccurrence with
        | true, some occurrence => reader.resolveContent occurrence opened
        | _, _ => opened.body
      let who := reader.authorFacts opened.authorKeyId
      let (status, statusAttestationId) := foldStatus cr (composersOf cr rows row.attestationId)
      let editsOf := fun id =>
        ((rowOf rows id).bind (cr.fromRow · communityId)).bind (·.edits)
      let chain := editChain editsOf (maxEditChain - 1) [row.attestationId] opened.edits
      let moderation ← firstView (reader.viewOf · opened.authorKeyId) chain
      let withheld := moderation.any (·.withheld)
      let (body, unopenedReason, unopenedDetail) :=
        if withheld then
          (none, some "withheld_by_moderation",
            some ("a moderator of this room flagged it as " ++
              ((moderation.bind (·.flag)).getD "reported") ++ "; reveal to view"))
        else shownBody body
      return some
        { attestationId := row.attestationId
          attestingKeyId := row.attestingKeyId
          attestedKeyId := row.attestedKeyId
          attestationType :=
            if isPlacementWidening cr row then "scores" else row.attestationType
          subjectKeyIds := row.subjectKeyIds
          cohortScope := row.cohortScope
          communityId
          status
          statusAttestationId
          statusReasonCode := (statusAttestationId.bind (rowOf rows)).bind (·.str cr.reasonCode)
          edits := opened.edits
          attachment := if withheld then none else opened.attachment
          moderation
          viewerOps :=
            -- revising is authoring, which a delegate never does
            if (authorizeDelegated reader.owner.caller .chatAuthor).isOk ∧ status = "live" ∧
              row.attestingKeyId = reader.owner.keyId then revisionOps else []
          body
          unopenedReason
          unopenedDetail
          contentType := "text/plain"
          assertedAt := cr.toRfc3339 opened.assertedAt
          author := opened.authorKeyId
          mine := opened.authorKeyId = reader.owner.keyId
          kind := "message"
          authorKind := who.1
          relation := who.2
          authorRole :=
            (members.reverse.find? (·.keyId = opened.authorKeyId)).bind (·.role)
          authorDuties := reader.dutiesOf opened.authorKeyId
          messageId := none }

/-- The room's roster and its members' rows. -/
structure Room where
  communityId : String
  /-- `active_community_members`. -/
  members : Except String (List Member)
  /-- `attestations_by_all`. -/
  directory : String → Except String (List Attestation)

/-- The rows of the room, with its roster. -/
def Room.read (room : Room) : Except String (List Member × List Attestation) := do
  let members ← room.members.mapError ("active_community_members: " ++ ·)
  let rows ← rowsBy room.directory (members.map (·.keyId))
  return (members, rows)

/-- The order of the transcript. -/
def ChatMessage.before (a b : ChatMessage) : Prop :=
  a.assertedAt < b.assertedAt ∨ (a.assertedAt = b.assertedAt ∧ a.attestationId ≤ b.attestationId)

instance : DecidableRel ChatMessage.before := fun _ _ =>
  inferInstanceAs (Decidable (_ ∨ (_ ∧ _)))

/-- `collect_messages`. -/
def collectMessages (cr : Crates) (reader : Reader) (room : Room) (resolveOnly : Option String) :
    Except String (List ChatMessage) := do
  let (members, rows) ← room.read
  let out ← rows.mapM (project cr reader room.communityId members rows resolveOnly)
  return out.reduceOption.insertionSort ChatMessage.before

/-- `heads_only`. -/
def headsOnly (messages : List ChatMessage) : List ChatMessage :=
  messages.filter (·.status ≠ "superseded")

/-! ## The routes -/

/-- `refuse`: a status, the id of the reason, and the detail. -/
structure Refusal where
  status : Nat
  reasonId : String
  detail : String
deriving DecidableEq

def storeUnavailable (detail : String) : Refusal := ⟨503, "chat.store_unavailable", detail⟩

/-- `require_verb`. -/
def requireVerb (owner : Owner) (verb : CapabilityVerb) (reasonId : String) : Except Refusal Unit :=
  (authorizeDelegated owner.caller verb).mapError fun deny => ⟨403, reasonId, deny.detail⟩

/-- `ReviseRequest`. -/
structure ReviseRequest where
  body : Option String := none
  contentType : Option String := none
  reason : Option String := none
deriving DecidableEq

/-- What the rest of the node answers to a revision. -/
structure ReviseAnswers where
  requireOwner : Except Refusal Owner
  /-- `conformance::require_op`. -/
  requireOp : Except Refusal Unit
  requireMember : Except Refusal Unit
  /-- The body of the request, where it is more than white space. -/
  request : Option (Except String ReviseRequest)
  /-- `active_community_members`. -/
  members : Except String (List Member)
  /-- Why the rows of a member cannot be read. -/
  readError : String → Option String
  /-- `owner_signer_capsule::acquire`. -/
  acquire : Except String Unit
  /-- edge's builder of the row, for the head that it names. -/
  build : Attestation → Except String Attestation
  /-- Who could not read what was sealed. -/
  excluded : List String
  /-- `put_attestation_authored`. -/
  put : Except String Unit

/-- The request of a body; one of white space alone asks for nothing in particular. -/
def ReviseAnswers.parsed (a : ReviseAnswers) : Except Refusal ReviseRequest :=
  match a.request with
  | none => .ok {}
  | some parsed => parsed.mapError fun e =>
      ⟨400, "chat.malformed_body", "expected \x7b\"body\"?, \"reason\"?\x7d: " ++ e⟩

/-- A revision that was put. -/
structure Revised where
  attestationId : String
  communityId : String
  op : String
  /-- The type of the row, and the head that it names. -/
  names : String × String
  /-- Of an edit: it is readable for all, or who is left out. -/
  readable : Option (Bool × List String)
deriving DecidableEq

/-- The type of the row that an action puts. -/
def opOf : String → Except Refusal String
  | "supersede" => .ok "supersedes"
  | "withdraw" => .ok "withdraws"
  | "recant" => .ok "recants"
  | _ => .error ⟨404, "chat.unknown_revision_op",
      "a message is revised by supersede, withdraw or recant"⟩

/-- `str::trim`. -/
def trim (s : String) : String := String.ofList (Multipart.trimMatches isWhiteSpace s.toList)

/-- The checks of an edit's text. -/
def checkText (cr : Crates) (req : ReviseRequest) : Except Refusal Unit :=
  let text := req.body.getD ""
  let contentType := (req.contentType.map trim).getD "text/plain"
  if trim text = "" then
    .error ⟨400, "chat.empty_message",
      "a message body must carry at least one non-whitespace character"⟩
  else if 16 * 1024 < text.utf8ByteSize then
    .error ⟨413, "chat.message_too_large",
      "message body is " ++ toString text.utf8ByteSize ++ " bytes; the ceiling is 16384"⟩
  else if contentType ≠ "text/plain" then
    .error ⟨415, "chat.unsupported_content_type",
      "the sealed community tier carries text only; got " ++ cr.debug contentType ++ ", want " ++
        cr.debug "text/plain"⟩
  else .ok ()

/-- The rows that the node holds, as the directory lists those of a key. -/
def attestationsBy (store : List Attestation) (readError : String → Option String)
    (member : String) : Except String (List Attestation) :=
  match readError member with
  | some e => .error e
  | none => .ok (store.filter (·.attestingKeyId = member))

/-- The head that a revision names: a message of the room, the owner's own, that stands. -/
def revisedHead (cr : Crates) (rows : List Attestation) (owner : Owner) (communityId id : String) :
    Except Refusal Attestation :=
  match (resolveHead cr rows id).filter fun h =>
    h.cohortScope = "community" && (cr.fromRow h communityId).isSome with
  | none => .error ⟨404, "chat.message_not_found", "no message with that id in this room"⟩
  | some head =>
    if head.attestingKeyId ≠ owner.keyId then
      .error ⟨403, "chat.not_author",
        "only the person who wrote a message may supersede, withdraw or recant it"⟩
    else if (retractionOf cr rows head).isSome then
      .error ⟨409, "chat.message_not_live", "this message was already withdrawn or recanted"⟩
    else .ok head

/-- The row of a revision, and what is said of its readers. -/
def builtRow (cr : Crates) (a : ReviseAnswers) (op : String) (req : ReviseRequest)
    (head : Attestation) : Except Refusal (Attestation × Option (Bool × List String)) :=
  if op = "supersedes" then do
    checkText cr req
    let row ← (a.build head).mapError fun e =>
      ⟨500, "chat.emit_failed", "chat_message_supersede_in: " ++ e⟩
    return (row, some (a.excluded = [], a.excluded))
  else if !cr.reasonAllowedOn (req.reason.getD "unspecified") op then
    .error ⟨400, "chat.reason_invalid", "that reason code does not apply to this revision"⟩
  else do
    let row ← (a.build head).mapError fun e =>
      ⟨500, "chat.emit_failed", "build the " ++ op ++ ": " ++ e⟩
    return (row, none)

/-- `revise_message`: the rows that the node then holds, and the answer. -/
def reviseMessage (cr : Crates) (store : List Attestation) (communityId attestationId action : String)
    (a : ReviseAnswers) : List Attestation × Except Refusal Revised :=
  let answer : Except Refusal (Attestation × Revised) := do
    let op ← opOf action
    let owner ← a.requireOwner
    requireVerb owner .chatAuthor "chat.delegate_may_not_author"
    a.requireOp
    a.requireMember
    let req ← a.parsed
    let members ← a.members.mapError fun e =>
      storeUnavailable ("active_community_members: " ++ e)
    let rows ← (rowsBy (attestationsBy store a.readError) (members.map (·.keyId))).mapError
      fun e => storeUnavailable ("read the room: " ++ e)
    let head ← revisedHead cr rows owner communityId attestationId
    a.acquire.mapError fun e => ⟨403, "chat.author_signer_unavailable",
      "a chat message is signed by the person who wrote it, and this node cannot wield that " ++
        "identity right now: " ++ e⟩
    let (row, readable) ← builtRow cr a op req head
    a.put.mapError fun e => ⟨500, "chat.emit_failed", "put the " ++ op ++ ": " ++ e⟩
    return (row,
      { attestationId := row.attestationId, communityId, op := action
        names := (op, head.attestationId), readable })
  match answer with
  | .error refusal => (store, .error refusal)
  | .ok (row, revised) => (store ++ [row], .ok revised)

/-- An entry of a history. -/
inductive Entry where
  | version (attestationId op attestingKeyId author assertedAt : String)
      (body unopenedReason : Option String)
  | retraction (attestationId op attestingKeyId assertedAt : String) (reasonCode : Option String)
deriving DecidableEq

structure History where
  communityId : String
  headAttestationId : String
  status : String
  chain : List Entry
deriving DecidableEq

/-- A version, as it opened in the transcript. -/
def versionEntry (cr : Crates) (projected : List ChatMessage) (op : String) (row : Attestation) :
    Entry :=
  let m := projected.find? (·.attestationId = row.attestationId)
  .version row.attestationId op row.attestingKeyId (m.elim row.attestingKeyId (·.author))
    (m.elim (cr.toRfc3339 row.assertedAt) (·.assertedAt)) (m.bind (·.body))
    (m.bind (·.unopenedReason))

def retractionEntry (cr : Crates) (r : Attestation) : Entry :=
  .retraction r.attestationId (if r.attestationType = "recants" then "recant" else "withdraw")
    r.attestingKeyId (cr.toRfc3339 r.assertedAt) (r.str cr.reasonCode)

/-- The chain from its root: the versions, and the retraction that ended it. -/
def historyOf (cr : Crates) (communityId : String) (rows : List Attestation)
    (projected : List ChatMessage) (root : Attestation) : History :=
  let edits := Walk.trail (nextEdit cr rows) rows.length root
  let head := edits.getLastD root
  let retraction := retractionOf cr rows head
  { communityId
    headAttestationId := head.attestationId
    status := (retraction.map fun r => statusToken r.attestationType).getD "live"
    chain := versionEntry cr projected "post" root ::
      edits.map (versionEntry cr projected "supersede") ++
      retraction.toList.map (retractionEntry cr) }

/-- `message_history`. -/
def messageHistory (cr : Crates) (requireOwner : Except Refusal Reader)
    (requireMember : Except Refusal Unit) (room : Room) (attestationId action : String) :
    Except Refusal History := do
  if action ≠ "history" then
    Except.error ⟨404, "chat.unknown_revision_op",
      "a message is revised by supersede, withdraw or recant"⟩
  let reader ← requireOwner
  requireVerb reader.owner .chatRead "chat.delegation_denied"
  requireMember
  let (_, rows) ← room.read.mapError fun e => storeUnavailable ("read the room: " ++ e)
  match (chainRoot cr rows attestationId).filter fun r =>
    (cr.fromRow r room.communityId).isSome with
  | none => .error ⟨404, "chat.message_not_found", "no message with that id in this room"⟩
  | some root =>
    let projected ← (collectMessages cr reader room none).mapError fun e =>
      storeUnavailable ("read transcript: " ++ e)
    return historyOf cr room.communityId rows projected root

/-! ## The rows of a node -/

inductive Event where
  /-- A row is put by replication, or by another route. -/
  | arrives (row : Attestation)
  /-- `POST …/messages/{id}/{action}`. -/
  | revise (communityId attestationId action : String) (a : ReviseAnswers)

def step (cr : Crates) (store : List Attestation) : Event → List Attestation
  | .arrives row => store ++ [row]
  | .revise communityId attestationId action a =>
    (reviseMessage cr store communityId attestationId action a).1

/-- The answer of a revision. -/
def answer (cr : Crates) (store : List Attestation) : Event → Option (Except Refusal Revised)
  | .arrives _ => none
  | .revise communityId attestationId action a =>
    some (reviseMessage cr store communityId attestationId action a).2

end CirisServer.ContactsChat
