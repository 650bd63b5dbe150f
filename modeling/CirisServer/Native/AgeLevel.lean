import CirisServer.ForStd.Find
import CirisServer.ForStd.Split
import CirisServer.Native.ComposePolicy
import CirisServer.Native.SafetyRoutes

/-!
# The age that an identity is read to have

`src/safety/age.rs`: the dimension of an age row, the reading of it, the level of an identity as the
strongest that its own rows claim, and the gate in front of adult content.
-/

namespace CirisServer.AgeLevel

open Infohazard (AgeBand AssuranceLevel)

/-- A row of the directory. -/
abbrev Attestation := ComposePolicy.Attestation

/-- `AssuranceLevel::from_token`. -/
def levelFromToken : String → Option AssuranceLevel
  | "self" => some .selfDeclared
  | "provider" => some .provider
  | "government" => some .government
  | _ => none

/-- The place of a level on the ladder. -/
def rung : AssuranceLevel → Nat
  | .selfDeclared => 0
  | .provider => 1
  | .government => 2

structure AgeAssurance where
  band : AgeBand
  level : AssuranceLevel
deriving DecidableEq

inductive ContentClass where
  | general
  | adult
deriving DecidableEq

/-- `gate_content_for`. -/
def gateContentFor (viewer : AgeAssurance) : ContentClass → Bool
  | .general => true
  | .adult => viewer.band = .adult

/-! ## Dimensions -/

/-- `str::rsplit_once`. -/
def rsplitOnce (sep text : List Char) : Option (List Char × List Char) :=
  (List.firstOccurrence sep.reverse text.reverse).map fun i =>
    ((text.reverse.drop (i + sep.length)).reverse, (text.reverse.take i).reverse)

/-- The dimension without its version. -/
def withoutVersion (dimension : List Char) : List Char :=
  match rsplitOnce ":v".toList dimension with
  | some (head, v) => if v.all Char.isDigit ∧ v ≠ [] then head else dimension
  | none => dimension

def selfDeclaredPrefix : List Char := "age_self_declared:".toList

def assurancePrefix : List Char := "age_assurance:".toList

/-- `parse_age_dimension`. -/
def parseAgeDimension (dimension : String) : Option AgeAssurance :=
  let core := withoutVersion dimension.toList
  match List.stripPrefix? selfDeclaredPrefix core with
  | some rest =>
    let bandTok := (List.stripPrefix? "band:".toList rest).getD rest
    (AgeBand.ofStr (String.ofList bandTok)).map fun band => ⟨band, .selfDeclared⟩
  | none => do
    let rest ← List.stripPrefix? assurancePrefix core
    let (levelTok, bandTok) ← List.splitOnce ':' rest
    let level ← levelFromToken (String.ofList levelTok)
    let band ← AgeBand.ofStr (String.ofList bandTok)
    return ⟨band, level⟩

/-! ## Reading -/

/-- What a row says of an age, if it does. -/
def reading (row : Attestation) : Option AgeAssurance :=
  if row.attestationType ≠ ComposePolicy.scoresType then none
  else (ComposePolicy.envelopeStr row "dimension").bind parseAgeDimension

/-- The strongest level is kept, and of equal ones the first. -/
def keep (best : Option AgeAssurance) (a : AgeAssurance) : Option AgeAssurance :=
  match best with
  | some prev => if rung a.level ≤ rung prev.level then some prev else some a
  | none => some a

/-- `read_age_level`, of the rows that the identity has authored. -/
def readAgeLevel (rows : Except String (List Attestation)) : Option AgeAssurance :=
  match rows with
  | .error _ => none
  | .ok rows => rows.foldl (fun best row => (reading row).elim best (keep best)) none

/-- `viewer_or_minor`. -/
def viewerOrMinor (rows : Except String (List Attestation)) : AgeAssurance :=
  (readAgeLevel rows).getD ⟨.minor, .selfDeclared⟩

end CirisServer.AgeLevel
