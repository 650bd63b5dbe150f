import CirisServer.ForStd.Except
import CirisServer.ForStd.Paging
import CirisServer.ForStd.Split
import CirisServer.Native.TraceReceipt

/-!
# The drive, a page at a time

`src/drive.rs`, `GET /v1/drive`: everything that an identity can reach, room after room. A page's
`limit` counts the rows that the rooms' live listings give, and `resume` names the room and the
place in it where the next page starts.

Edge's two listings and persist's check of a `withdraws` are parameters of the store, and so is the
codec of the cursor (base64url over JSON).
-/

namespace CirisServer.Drive

inductive Cohort where
  | selfCollective
  | family
  | community
deriving DecidableEq

def Cohort.scopeToken : Cohort → String
  | selfCollective => "self"
  | family => "family"
  | community => "community"

structure ScopeRoom where
  cohort : Cohort
  contentGroupId : String
deriving DecidableEq

namespace ScopeRoom

def rowScopeToken (room : ScopeRoom) : String := room.cohort.scopeToken

def key (room : ScopeRoom) : String := room.rowScopeToken ++ ":" ++ room.contentGroupId

end ScopeRoom

/-- The cohorts that persist's admission places a caller in. -/
structure CallerAdmission where
  familyKeyIds : List String
  communityKeyIds : List String

def everythingReachable (owner : String) (admission : CallerAdmission) : List ScopeRoom :=
  ⟨.selfCollective, owner⟩ :: (admission.familyKeyIds.map (⟨.family, ·⟩) ++
    admission.communityKeyIds.map (⟨.community, ·⟩))

structure FileRow where
  attestationId : String
  attestingKeyId : String
  assertedAt : String
deriving DecidableEq

inductive FileLifecycle where
  | live
  | withdrawn
  | superseded
  | recanted
deriving DecidableEq

/-- What a drive reads, for one caller. `κ` is persist's cursor. -/
structure DriveStore (κ : Type) where
  /-- `files::in_room`: a page of the live rows of a room, from a place in it. -/
  inRoom : ScopeRoom → Nat → Option κ → Except String (Paging.Page κ FileRow)
  /-- `files::in_room_with` at `IncludeWithdrawn`: the pages of the lifecycle listing, in turn. -/
  lifecyclePages : ScopeRoom → Except String (List (List (FileRow × FileLifecycle)))
  /-- The id of a `withdraws` that has retired a row. -/
  withdrawnBy : String → Except String (Option String)
  /-- A room as the messages name it. -/
  shown : ScopeRoom → String

structure DriveCursor (κ : Type) where
  room : String
  place : Option κ

/-- How a cursor is spelled in a URL. -/
structure CursorCodec (κ : Type) where
  encode : DriveCursor κ → String
  decode : String → Option (DriveCursor κ)

structure DriveQuery where
  limit : Nat
  after : Option String
  includeWithdrawn : Bool

structure DriveEntry where
  cohort : String
  roomId : String
  attestationId : String
  authorKeyId : String
  assertedAt : String
  withdrawn : Bool
deriving DecidableEq

structure DrivePage where
  rooms : List ScopeRoom
  entries : List DriveEntry
  limit : Nat
  resume : Option String
deriving DecidableEq

structure Refusal where
  code : Nat
  reasonId : String
  detail : String
deriving DecidableEq

def maxPage : Nat := 500

def clampLimit (limit : Nat) : Nat := max 1 (min limit maxPage)

def entryOf (room : ScopeRoom) (withdrawn : Bool) (row : FileRow) : DriveEntry :=
  ⟨room.rowScopeToken, room.contentGroupId, row.attestationId, row.attestingKeyId, row.assertedAt,
    withdrawn⟩

variable {κ : Type}

def badCursor : Refusal :=
  ⟨400, "drive.bad_cursor",
    "`after` is not a cursor this drive issued — pass back a page's `resume` verbatim"⟩

def listingFailed (shown e : String) : Refusal :=
  ⟨503, "drive.listing_failed", "list " ++ shown ++ ": " ++ e⟩

/-- The rows of the lifecycle listing that a `withdraws` has retired. -/
def keepWithdrawn (withdrawnBy : String → Except String (Option String)) :
    List (FileRow × FileLifecycle) → Except String (List FileRow)
  | [] => .ok []
  | (row, lifecycle) :: rest =>
    if lifecycle = .withdrawn then do
      let withdrawn ← withdrawnBy row.attestationId
      let rows ← keepWithdrawn withdrawnBy rest
      .ok (if withdrawn.isSome then row :: rows else rows)
    else keepWithdrawn withdrawnBy rest

def withdrawnInRoom (store : DriveStore κ) (room : ScopeRoom) : Except String (List FileRow) := do
  let pages ← (store.lifecyclePages room).mapError
    fun e => "list withdrawn in " ++ store.shown room ++ ": " ++ e
  keepWithdrawn store.withdrawnBy pages.flatten

/-- The rows of a page, each with its room. -/
abbrev Rows := List (ScopeRoom × FileRow)

/-- A withdrawn row goes on the page unless the page has a row of that id. -/
def addWithdrawn (room : ScopeRoom) (rows : Rows) (extra : List FileRow) : Rows :=
  extra.foldl (fun rows row =>
    if rows.any (·.2.attestationId = row.attestationId) then rows else rows ++ [(room, row)]) rows

/-- The rows that a room's history adds. -/
def historyOf (store : DriveStore κ) (includeWithdrawn : Bool) (room : ScopeRoom) :
    Except Refusal (List FileRow) :=
  if includeWithdrawn then (withdrawnInRoom store room).mapError (listingFailed (store.shown room))
  else .ok []

/-- The loop over the rooms. `read` counts what the live listings have given. -/
def readRooms (store : DriveStore κ) (limit : Nat) (includeWithdrawn : Bool) :
    List ScopeRoom → Option κ → Nat → Rows → Except Refusal (Rows × Option (DriveCursor κ))
  | [], _, _, rows => .ok (rows, none)
  | room :: rooms, after, read, rows =>
    if limit - read = 0 then .ok (rows, some ⟨room.key, none⟩)
    else do
      let page ← (store.inRoom room (limit - read) after).mapError
        (listingFailed (store.shown room))
      let extra ← historyOf store includeWithdrawn room
      let rows := addWithdrawn room (rows ++ page.items.map (room, ·)) extra
      match page.resume with
      | some c => .ok (rows, some ⟨room.key, some c⟩)
      | none =>
        readRooms store limit includeWithdrawn rooms none (read + page.items.length) rows

/-- Each row's entry. A row that a `withdraws` has retired is shown only in a history. -/
def entriesOf (store : DriveStore κ) (includeWithdrawn : Bool) :
    Rows → Except Refusal (List DriveEntry)
  | [] => .ok []
  | (room, row) :: rows => do
    let withdrawn ← (store.withdrawnBy row.attestationId).mapError
      (listingFailed room.contentGroupId)
    let rest ← entriesOf store includeWithdrawn rows
    if withdrawn.isSome && !includeWithdrawn then .ok rest
    else .ok (entryOf room withdrawn.isSome row :: rest)

/-- Where a page starts: the room that the cursor names, at the cursor's place in it. -/
def startOf (codec : CursorCodec κ) (rooms : List ScopeRoom) :
    Option String → Except Refusal (Nat × Option κ)
  | none => .ok (0, none)
  | some after =>
    match codec.decode after with
    | none => .error badCursor
    | some cursor =>
      match rooms.findIdx? (·.key = cursor.room) with
      | some i => .ok (i, cursor.place)
      | none => .error badCursor

/-- `GET /v1/drive` over the rooms that the request names. -/
def readDrive (store : DriveStore κ) (codec : CursorCodec κ) (rooms : List ScopeRoom)
    (q : DriveQuery) : Except Refusal DrivePage := do
  let limit := clampLimit q.limit
  let (start, startAt) ← startOf codec rooms q.after
  let (rows, resume) ← readRooms store limit q.includeWithdrawn (rooms.drop start) startAt 0 []
  let entries ← entriesOf store q.includeWithdrawn rows
  .ok ⟨rooms, entries, limit, resume.map codec.encode⟩

/-- A client that asks for a page, and for the next one while there is a `resume`: `n` pages at
    most. -/
def walk (store : DriveStore κ) (codec : CursorCodec κ) (rooms : List ScopeRoom) (limit : Nat)
    (includeWithdrawn : Bool) : Nat → Option String → Option (List DrivePage)
  | 0, _ => none
  | n + 1, after =>
    match readDrive store codec rooms ⟨limit, after, includeWithdrawn⟩ with
    | .error _ => none
    | .ok page =>
      match page.resume with
      | none => some [page]
      | some after =>
        (walk store codec rooms limit includeWithdrawn n (some after)).map (page :: ·)

end CirisServer.Drive

/-!
## Changing a file

`src/drive.rs`, `PUT /v1/files/{attestation_id}` and `POST /v1/files/{attestation_id}/move`: the new
row is published, and then the old one is withdrawn, with the rows that it superseded.

What edge and persist answer to each call is a parameter. The store is what they keep, and a change
is the list of the writes that it has made, so that a stop between two of them is a shorter list.
-/

namespace CirisServer.Drive

structure Attestation where
  attestationId : String
  attestingKeyId : String
  attestationType : String
  /-- `references_attestation_id_from_envelope`. -/
  references : Option String
deriving DecidableEq

inductive Shared where
  | placed (attestationId : String)
  | alreadyThere (attestationId : String)
  | awaitingActor
deriving DecidableEq

structure PublishedFile where
  row : Attestation
  /-- The `supersedes` row of a crossing that widens. -/
  widening : Option Attestation
  shared : Shared
  crossed : Bool
deriving DecidableEq

def placedOr (shared : Shared) (authored : String) : String :=
  match shared with
  | .placed attestationId | .alreadyThere attestationId => attestationId
  | .awaitingActor => authored

def readableId (published : PublishedFile) : String :=
  placedOr published.shared published.row.attestationId

/-! ## The store -/

structure FileStore where
  rows : List Attestation
  /-- Which rows have crossed, and into which room. A parked row is in no room's listing. -/
  placed : List (ScopeRoom × String)
  /-- The rows that a `withdraws` has retired, each with its id. -/
  withdraws : List (String × String)

inductive Write where
  | publish (room : ScopeRoom) (published : PublishedFile)
  | withdraw (attestationId withdrawsId : String)

namespace FileStore

def apply (s : FileStore) : Write → FileStore
  | .publish room published =>
    { s with
      rows := s.rows ++ published.row :: published.widening.toList
      placed := if published.crossed then s.placed ++ [(room, readableId published)] else s.placed }
  | .withdraw attestationId withdrawsId =>
    { s with withdraws := (attestationId, withdrawsId) :: s.withdraws }

def after (s : FileStore) (writes : List Write) : FileStore := writes.foldl apply s

def getAttestation (s : FileStore) (attestationId : String) : Option Attestation :=
  s.rows.find? (·.attestationId = attestationId)

def withdrawnBy (s : FileStore) (attestationId : String) : Option String :=
  s.withdraws.lookup attestationId

end FileStore

/-! ## What the request meets -/

/-- How each call answers that this change makes. -/
structure Answers where
  nodeKeyId : String
  /-- `drive_author`: the owner's key. -/
  author : Except Refusal String
  requireOp : Except Refusal Unit
  /-- Membership of a family or a community, by persist's admission. -/
  admits : ScopeRoom → Except Refusal Unit
  /-- The reads of `find_file`. -/
  listing : Except String Unit
  upload : Except Refusal Unit
  /-- Does a live flag of a moderator hold the file? -/
  flagged : Except Refusal Bool
  viewerKey : Except String Unit
  /-- The probe of the bytes and their reading. -/
  bytes : Except Refusal Unit
  /-- The write gate and edge's `files::publish_stream`. -/
  publish : ScopeRoom → Except Refusal PublishedFile
  readRow : String → Except String Unit
  /-- The read of `withdrawn_by`. -/
  composers : String → Except String Unit
  /-- The person's signer. -/
  pen : Except Unit Unit
  /-- Edge's `withdraws_attestation`: the id of the new row. -/
  build : String → Except String String
  admitRow : String → Except String Unit
  shown : ScopeRoom → String
  /-- How a string is printed for debugging. -/
  debug : String → String

def Cohort.parse (debug : String → String) : Option String → Except String Cohort
  | none | some "self" => .ok .selfCollective
  | some "family" => .ok .family
  | some "community" => .ok .community
  | some other => .error ("unknown cohort " ++ debug other ++ " — use self | family | community")

def roomFor (cohort : Cohort) (roomId : Option String) (owner : String) :
    Except Refusal ScopeRoom :=
  match cohort, roomId with
  | .selfCollective, _ => .ok ⟨.selfCollective, owner⟩
  | .family, some id => .ok ⟨.family, id⟩
  | .family, none => .error ⟨400, "drive.family_id_required",
      "A family file needs to name its family. There is no default family."⟩
  | .community, some id => .ok ⟨.community, id⟩
  | .community, none => .error ⟨400, "drive.community_id_required",
      "A community file needs to name its room."⟩

def requireCohortMember (a : Answers) (room : ScopeRoom) : Except Refusal Unit :=
  match room.cohort with
  | .selfCollective => .ok ()
  | .family | .community => a.admits room

structure FileQuery where
  cohort : Option String
  roomId : Option String

def roomFromQuery (a : Answers) (owner : String) (q : FileQuery) : Except Refusal ScopeRoom := do
  let cohort ← (Cohort.parse a.debug q.cohort).mapError (⟨400, "drive.unknown_cohort", ·⟩)
  let room ← roomFor cohort q.roomId owner
  requireCohortMember a room
  .ok room

structure Found where
  row : Attestation
  withdrawnBy : Option String

def findFile (a : Answers) (s : FileStore) (room : ScopeRoom) (attestationId : String) :
    Except Refusal Found := do
  a.listing.mapError (listingFailed (a.shown room))
  let missing : Refusal := ⟨404, "drive.not_in_room",
    attestationId ++ " is not a file row in " ++ a.shown room⟩
  -- the listing has the live rows; a retired one is read by its id
  if (room, attestationId) ∈ s.placed then
    match s.getAttestation attestationId, s.withdrawnBy attestationId with
    | some row, withdrawnBy => .ok ⟨row, withdrawnBy⟩
    | none, none => .error (listingFailed (a.shown room) ("row " ++ attestationId ++ " vanished"))
    | none, some _ => .error missing
  else .error missing

def requireAuthor (a : Answers) (owner : String) (row : Attestation) : Except Refusal Unit :=
  if row.attestingKeyId = owner ∨ row.attestingKeyId = a.nodeKeyId then .ok ()
  else .error ⟨403, "drive.not_author",
    "only the author may change or withdraw a file, and this row was written by " ++
      row.attestingKeyId ++ " — a change is a new claim only its author can sign. A file you " ++
      "wrote on another of your devices is changed from that device"⟩

def rowWithdrawnRefusal (withdrawsId : String) : Refusal :=
  ⟨410, "drive.withdrawn",
    "withdrawn by its author — the bytes are no longer served anywhere (" ++ withdrawsId ++ ")"⟩

def notWithdrawn (found : Found) : Except Refusal Unit :=
  match found.withdrawnBy with
  | some withdrawsId => .error (rowWithdrawnRefusal withdrawsId)
  | none => .ok ()

/-! ## Withdrawing -/

/-- The rows behind a row that its widening superseded, `n` of them at most. -/
def supersededBy (a : Answers) (s : FileStore) (owner : String) :
    Nat → Attestation → Except String (List Attestation)
  | 0, _ => .ok []
  | n + 1, cur =>
    if cur.attestationType = "supersedes" then
      match cur.references with
      | none => .ok []
      | some priorId => do
        (a.readRow priorId).mapError fun e => "read prior " ++ priorId ++ ": " ++ e
        match s.getAttestation priorId with
        | none => .ok []
        | some prior =>
          if prior.attestingKeyId ≠ a.nodeKeyId ∧ prior.attestingKeyId ≠ owner then .ok []
          else do
            let rest ← supersededBy a s owner n prior
            .ok (prior :: rest)
    else .ok []

/-- The loop over the chain: what has been written, and the ids that are withdrawn or why it
    stopped. -/
def withdrawEach (a : Answers) : FileStore → List Attestation →
    List Write × Except String (List String)
  | _, [] => ([], .ok [])
  | s, row :: rows =>
    match a.composers row.attestationId with
    | .error e => ([], .error ("composers naming " ++ row.attestationId ++ ": " ++ e))
    | .ok () =>
      if (s.withdrawnBy row.attestationId).isSome then withdrawEach a s rows
      else
        match a.build row.attestationId with
        | .error e => ([], .error ("build withdraws for " ++ row.attestationId ++ ": " ++ e))
        | .ok withdrawsId =>
          match a.admitRow row.attestationId with
          | .error e => ([], .error ("admit withdraws for " ++ row.attestationId ++ ": " ++ e))
          | .ok () =>
            let write := Write.withdraw row.attestationId withdrawsId
            let rest := withdrawEach a (s.apply write) rows
            (write :: rest.1, rest.2.map (row.attestationId :: ·))

/-- At most eight rows: a chain is one hop per audience step. -/
def withdrawRows (a : Answers) (s : FileStore) (owner : String) (listed : Attestation) :
    List Write × Except String (List String) :=
  match supersededBy a s owner 7 listed with
  | .error e => ([], .error e)
  | .ok behind =>
    let chain := listed :: behind
    -- a row of the person's is withdrawn with the person's signer
    match if chain.any (·.attestingKeyId = owner) then a.pen else .ok () with
    | .error () => ([], .error ("the person's signer is unavailable to withdraw " ++
        listed.attestationId))
    | .ok () => withdrawEach a s chain

/-! ## The two changes -/

structure FileWriteResponse where
  attestationId : String
  cohort : String
  room : String
  crossed : Bool
  replaces : Option String
  withdrawn : List String

def writeResponse (a : Answers) (published : PublishedFile) (room : ScopeRoom)
    (replaces : Option String) (withdrawn : List String) : FileWriteResponse :=
  ⟨readableId published, room.rowScopeToken, a.shown room, published.crossed, replaces, withdrawn⟩

def withdrawFailed (detail : String) : Refusal := ⟨500, "drive.withdraw_failed", detail⟩

/-- What a request has written, in order, and what it answers. -/
structure Change where
  writes : List Write
  answer : Except Refusal FileWriteResponse

/-- A request that may go on to publish: its owner, the new row's room, and the old row. -/
structure Admitted where
  owner : String
  target : ScopeRoom
  found : Found

/-- The body of both: publish, and then withdraw unless the source is kept. -/
def publishThenWithdraw (a : Answers) (s : FileStore) (attestationId : String) (keepSource : Bool)
    (request : Admitted) : Change :=
  match a.publish request.target with
  | .error refusal => ⟨[], .error refusal⟩
  | .ok published =>
    let write := Write.publish request.target published
    if keepSource then ⟨[write], .ok (writeResponse a published request.target none [])⟩
    else
      let withdrawal := withdrawRows a (s.apply write) request.owner request.found.row
      ⟨write :: withdrawal.1, (withdrawal.2.mapError withdrawFailed).map
        (writeResponse a published request.target (some attestationId))⟩

def replaceChecks (a : Answers) (s : FileStore) (attestationId : String) (q : FileQuery) :
    Except Refusal Admitted := do
  let owner ← a.author
  a.requireOp
  let room ← roomFromQuery a owner q
  let found ← findFile a s room attestationId
  requireAuthor a owner found.row
  notWithdrawn found
  a.upload
  .ok ⟨owner, room, found⟩

structure MoveRequest where
  cohort : String
  roomId : Option String
  keepSource : Bool

def moveChecks (a : Answers) (s : FileStore) (attestationId : String) (q : FileQuery)
    (request : MoveRequest) : Except Refusal Admitted := do
  let owner ← a.author
  a.requireOp
  let targetCohort ← (Cohort.parse a.debug (some request.cohort)).mapError
    (⟨400, "drive.bad_move_target", ·⟩)
  ensure (targetCohort = .selfCollective ∨ request.roomId ≠ none)
    ⟨400, "drive.bad_move_target", "a move to a " ++ request.cohort ++
      " must name its `room_id` — there is no default circle to move a file into"⟩
  let source ← roomFromQuery a owner q
  let target ← roomFor targetCohort request.roomId owner
  ensure (target ≠ source)
    ⟨409, "drive.same_room", "the file is already in that room — a move needs a different circle"⟩
  requireCohortMember a target
  let found ← findFile a s source attestationId
  let held ← a.flagged
  ensure (!held) ⟨409, "drive.flagged_by_moderation",
    "a moderator of this room flagged this file; it stays in the room while the flag stands"⟩
  requireAuthor a owner found.row
  a.viewerKey.mapError fun e => ⟨503, "drive.no_node_key", "resolve this node's key: " ++ e⟩
  notWithdrawn found
  a.bytes
  .ok ⟨owner, target, found⟩

inductive FileRequest where
  | replace (attestationId : String) (q : FileQuery)
  | move (attestationId : String) (q : FileQuery) (request : MoveRequest)

namespace FileRequest

def attestationId : FileRequest → String
  | replace attestationId _ | move attestationId _ _ => attestationId

def keepSource : FileRequest → Bool
  | replace _ _ => false
  | move _ _ request => request.keepSource

def checks (a : Answers) (s : FileStore) : FileRequest → Except Refusal Admitted
  | replace attestationId q => replaceChecks a s attestationId q
  | move attestationId q request => moveChecks a s attestationId q request

/-- `replace_file` and `move_file`. -/
def handle (a : Answers) (s : FileStore) (request : FileRequest) : Change :=
  match request.checks a s with
  | .error refusal => ⟨[], .error refusal⟩
  | .ok admitted => publishThenWithdraw a s request.attestationId request.keepSource admitted

end FileRequest

end CirisServer.Drive

/-!
## Deleting a file

`src/drive.rs`, `DELETE /v1/files/{attestation_id}`: the listed row is withdrawn, then the rows that
it superseded, one at a time. A stop between two of them is a shorter list of writes.
-/

namespace CirisServer.Drive

structure DeleteAnswers extends Answers where
  /-- What other than a `withdraws` retires a row that the listing leaves out: the row that
      supersedes or recants it. -/
  retiredBy : String → Except String (Option String)
  /-- Nothing live binds the bytes any more, and the local copy is gone. -/
  evicted : Bool

/-- `find_file`, with the retirements that are not a `withdraws`. -/
def findRow (a : DeleteAnswers) (s : FileStore) (room : ScopeRoom) (attestationId : String) :
    Except Refusal Found := do
  let found ← findFile a.toAnswers s room attestationId
  match found.withdrawnBy with
  | some _ => .ok found
  | none => do
    let retired ← (a.retiredBy attestationId).mapError (listingFailed (a.shown room))
    .ok { found with withdrawnBy := retired }

def withdrawChecks (a : DeleteAnswers) (s : FileStore) (attestationId : String) (q : FileQuery) :
    Except Refusal (String × Found) := do
  let owner ← a.author
  a.requireOp
  let room ← roomFromQuery a.toAnswers owner q
  let found ← findRow a s room attestationId
  requireAuthor a.toAnswers owner found.row
  notWithdrawn found
  .ok (owner, found)

structure DeleteResponse where
  attestationId : String
  withdrawn : List String
  evicted : Bool

/-- What a deletion has written, in order, and what it answers. -/
structure Deletion where
  writes : List Write
  answer : Except Refusal DeleteResponse

/-- `withdraw_file`. -/
def withdrawFile (a : DeleteAnswers) (s : FileStore) (attestationId : String) (q : FileQuery) :
    Deletion :=
  match withdrawChecks a s attestationId q with
  | .error refusal => ⟨[], .error refusal⟩
  | .ok (owner, found) =>
    let withdrawal := withdrawRows a.toAnswers s owner found.row
    ⟨withdrawal.1, (withdrawal.2.mapError withdrawFailed).map
      fun withdrawn => ⟨attestationId, withdrawn, a.evicted⟩⟩

end CirisServer.Drive

/-!
## Ranges of a file

`src/drive.rs`, `parse_range` and what `read_file` makes of it: a `Range: bytes=…` header, resolved
against the size of the plaintext. A `u64` is its number; an operation on them that leaves their
range panics.
-/

namespace CirisServer.Drive

open TraceReceipt (parseU64)

inductive RangeAsk where
  | whole
  | part (start last : Nat)
  | unsatisfiable
deriving DecidableEq

/-- `u64::MAX`. -/
def u64Max : Nat := 2 ^ 64 - 1

/-- `a - b`. -/
def subU64 (a b : Nat) : Option Nat := if b ≤ a then some (a - b) else none

/-- `a + b`. -/
def addU64 (a b : Nat) : Option Nat := if a + b ≤ u64Max then some (a + b) else none

/-- The last position of a range: what is written, or the end of the file. -/
def lastPosition (first : Nat) (text : String) : Option Nat :=
  if text = "" then some u64Max else (parseU64 text).filter fun e => first ≤ e

/-- `parse_range`, or a panic. -/
def parseRange (h : Option String) (total : UInt64) : Option RangeAsk :=
  match h.bind fun v => List.stripPrefix? "bytes=".toList (trim v).toList with
  | none => some .whole
  | some spec =>
    if spec.contains ',' then some .whole
    else
      match List.splitOnce '-' spec with
      | none => some .whole
      | some (a, b) =>
        let (a, b) := (trim (String.ofList a), trim (String.ofList b))
        if a = "" then
          match parseU64 b with
          | none => some .whole
          | some n =>
            if n = 0 ∨ total.toNat = 0 then some .unsatisfiable
            else (subU64 total.toNat 1).map (.part (total.toNat - n))
        else
          match parseU64 a with
          | none => some .whole
          | some s =>
            match lastPosition s b with
            | none => some .whole
            | some e =>
              if total.toNat ≤ s then some .unsatisfiable
              else (subU64 total.toNat 1).map fun last => .part s (min e last)

/-- The `Content-Length` that `read_file` answers for a part. -/
def partLength (start last : Nat) : Option Nat := (subU64 last start).bind (addU64 · 1)

end CirisServer.Drive
