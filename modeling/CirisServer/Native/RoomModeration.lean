import CirisServer.ForStd.Split
import CirisServer.Native.Infohazard

/-!
# What a room decided about an item

`src/room_moderation.rs`: the flags, the appeals and the rulings of a room, folded where its content
is read, and the viewer's own consent to see what is withheld. `POST /v1/chat/{id}/items/{id}/reveal`
is the last step of `src/contacts_chat.rs` that is about them.

The directory's rows and who holds a duty of the room are parameters; the answers that the code
keeps for one read (`DutyCache`) are asked for again.
-/

namespace CirisServer.RoomModeration

open Infohazard (ContentFlag)

/-- What is read of an attestation. -/
structure Attestation where
  attestationId : String
  attestingKeyId : String
  attestedKeyId : String
  attestationType : String
  subjectKeyIds : List String
  cohortScope : String
  assertedAt : Int
  expiresAt : Option Int
  attestationEnvelope : Json
deriving DecidableEq

namespace Attestation

def str (row : Attestation) (name : String) : Option String :=
  (row.attestationEnvelope.get? name).bind Json.asStr

def dimension (row : Attestation) : Option String := row.str "dimension"

/-- `names_room`. -/
def namesRoom (row : Attestation) (room : String) : Bool := row.str "community_id" = some room

/-- `references`. -/
def references (row : Attestation) : Option String := row.str "references_attestation_id"

/-- A withdrawn flag is one that was cleared. -/
def cleared (row : Attestation) : Bool :=
  ((row.attestationEnvelope.get? "withdrawn").bind Json.asBool).getD false

end Attestation

/-- `ContentFlag::from_token`. -/
def fromToken : String → Option ContentFlag
  | "infohazard" => some .infohazard
  | "reported" => some .reported
  | _ => none

/-- `flag_class`: the first part of the tail of the dimension. -/
def flagClass (dimension : String) : Option ContentFlag :=
  (List.stripPrefix? "content_class:".toList dimension.toList).bind fun tail =>
    fromToken (String.ofList (tail.takeWhile (· ≠ ':')))

inductive Reconsideration where
  | filed
  | upheld
  | partly
  | reversed
deriving DecidableEq

structure ModerationView where
  flag : Option String
  itemAttestationId : String
  flagAttestationId : String
  flaggedBy : String
  withheld : Bool
  revealed : Bool
  reconsideration : Option Reconsideration
  reconsiderationAttestationId : Option String
deriving DecidableEq

/-- The federation directory. -/
structure Directory where
  /-- The rows about a key in a family of dimensions, page by page. -/
  rowsAbout : String → String → Except String (List Attestation)
  /-- `is_named_moderator`: who, which room, which duty. -/
  isNamedModerator : String → String → String → Except String Bool

namespace Directory

/-- `rows_about`. -/
def readAbout (dir : Directory) (key : String) : List String → Except String (List Attestation)
  | [] => .ok []
  | family :: families => do
    let rows ← (dir.rowsAbout key family).mapError fun e =>
      "read " ++ family ++ "* rows about " ++ key ++ ": " ++ e
    let rest ← dir.readAbout key families
    return rows ++ rest

/-- `DutyCache::moderation_rows`. -/
def moderationRows (dir : Directory) (author : String) : Except String (List Attestation) :=
  dir.readAbout author ["content_class:", "reconsideration:"]

/-- `DutyCache::holds`. -/
def holds (dir : Directory) (who room duty : String) : Except String Bool :=
  (dir.isNamedModerator who room duty).mapError fun e =>
    "is_named_moderator(" ++ who ++ ", " ++ room ++ ", " ++ duty ++ "): " ++ e

end Directory

/-! ## The flag -/

/-- The class that a row flags the item as, if it is a flag of the room that has not run out. -/
def flagged (room targetId : String) (now : Int) (row : Attestation) : Option ContentFlag :=
  if row.attestationType ≠ "scores" || !row.namesRoom room || row.references ≠ some targetId then none
  else
    match row.dimension.bind flagClass with
    | none => none
    | some flag => if row.expiresAt.any (· ≤ now) then none else some flag

/-- A slot that takes a newer row. -/
def newer (slot : Option Attestation) (row : Attestation) : Option Attestation :=
  if slot.all (·.assertedAt < row.assertedAt) then some row else slot

/-- The newest flag of each class from a holder of the duty. -/
def newestFlags (dir : Directory) (room targetId : String) (now : Int) :
    (ContentFlag → Option Attestation) → List Attestation →
      Except String (ContentFlag → Option Attestation)
  | newest, [] => .ok newest
  | newest, row :: rows =>
    match flagged room targetId now row with
    | none => newestFlags dir room targetId now newest rows
    | some flag => do
      let held ← dir.holds row.attestingKeyId room "moderate"
      if held then
        newestFlags dir room targetId now
          (Function.update newest flag (newer (newest flag) row)) rows
      else newestFlags dir room targetId now newest rows

/-- The more severe class leads. -/
def leading (newest : ContentFlag → Option Attestation) : Option Attestation :=
  (newest .infohazard).or (newest .reported)

/-! ## The appeal -/

/-- A row of an appeal against the flag. -/
def appeals (flagId : String) (row : Attestation) : Bool :=
  row.attestationType = "scores" && row.references = some flagId &&
    row.dimension.any fun dimension => "reconsideration:".toList.isPrefixOf dimension.toList

/-- The newest filing, and the newest ruling with its outcome. -/
structure Appeal where
  filing : Option Attestation := none
  ruling : Option (Attestation × String) := none
deriving DecidableEq

/-- The rows of the appeal; a row with an outcome is a ruling. -/
def readAppeal (dir : Directory) (room flagId : String) :
    Appeal → List Attestation → Except String Appeal
  | a, [] => .ok a
  | a, row :: rows =>
    if !appeals flagId row then readAppeal dir room flagId a rows
    else
      match row.str "outcome" with
      | none => readAppeal dir room flagId { a with filing := newer a.filing row } rows
      | some outcome => do
        let held ← dir.holds row.attestingKeyId room "review"
        if held && a.ruling.all (·.1.assertedAt < row.assertedAt) then
          readAppeal dir room flagId { a with ruling := some (row, outcome) } rows
        else readAppeal dir room flagId a rows

/-- Where the appeal stands. -/
def Appeal.standing (a : Appeal) : Option Reconsideration :=
  match a.filing, a.ruling with
  | some filing, some (ruling, outcome) =>
    if filing.assertedAt ≤ ruling.assertedAt then
      match outcome with
      | "reversed" => some .reversed
      | "partial" => some .partly
      | _ => some .upheld
    else some .filed
  | some _, none => some .filed
  | none, some (_, outcome) => if outcome = "reversed" then some .reversed else some .upheld
  | none, none => none

/-! ## The viewer -/

/-- The viewer's own consent row about the item. -/
def consents (viewer targetId : String) (flag : ContentFlag) (row : Attestation) : Bool :=
  row.attestingKeyId = viewer && row.attestationType = "scores" &&
    row.references = some targetId &&
    (row.dimension.any fun dimension => "consent:state:".toList.isPrefixOf dimension.toList) &&
    row.str "scope" = some "view" && row.str "content_class" = some flag.asStr

/-- `max_by_key`: the newest, and the last of those. -/
def lastNewest (rows : List Attestation) : Option Attestation :=
  rows.foldl (fun slot row =>
    if slot.all (·.assertedAt ≤ row.assertedAt) then some row else slot) none

/-- `has_view_consent`. -/
def hasViewConsent (dir : Directory) (viewer targetId : String) (flag : ContentFlag) :
    Except String Bool := do
  let rows ← dir.readAbout viewer ["consent:state:"]
  return (lastNewest (rows.filter (consents viewer targetId flag))).any fun row =>
    row.dimension.any fun dimension => "consent:state:granted".toList.isPrefixOf dimension.toList

/-- `view_of`. -/
def viewOf (dir : Directory) (now : Int) (room targetId author viewer : String) :
    Except String (Option ModerationView) := do
  let rows ← dir.moderationRows author
  let newest ← newestFlags dir room targetId now (fun _ => none) rows
  match leading newest with
  | none => return none
  | some flagRow =>
    let flag := (flagRow.dimension.bind flagClass).getD .reported
    let appeal ← readAppeal dir room flagRow.attestationId {} rows
    let reconsideration := appeal.standing
    let live := !flagRow.cleared && reconsideration ≠ some .reversed
    let revealed ← if live then hasViewConsent dir viewer targetId flag else .ok false
    return some
      { flag := if live then some flag.asStr else none
        itemAttestationId := targetId
        flagAttestationId := flagRow.attestationId
        flaggedBy := flagRow.attestingKeyId
        withheld := live && !revealed
        revealed
        reconsideration
        reconsiderationAttestationId := appeal.filing.map (·.attestationId) }

end CirisServer.RoomModeration
