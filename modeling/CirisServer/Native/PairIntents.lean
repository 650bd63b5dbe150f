import CirisServer.Native.MembershipInvites

/-!
# Pair rooms that were asked for

`src/pair_intents.rs`: a file keeps the pair rooms that this node's person asked for, and
`advance` goes over them: it accepts the invitation that was asked for, and drops what is
settled.

The file is the list of the intents; there is no file when there are none. Each read and
write of it may fail, and each intent of a pass is looked at with a directory of its own,
since the directory may change in between.
-/

namespace CirisServer.PairIntents

open Invites

structure PairIntent where
  pairId : String
  contactPerson : String
  askedAt : Int
deriving DecidableEq

/-- 30 days. -/
def maxAge : Int := 30 * 86400 * nanosPerSec

/-- What one read and one write of the file come to: why they fail, if they do. -/
structure FileAccess where
  read : Option String
  write : Option String

/-- A file that cannot be read, or that does not parse, is read as no intents. -/
def readIntents (failure : Option String) (file : List PairIntent) : List PairIntent :=
  match failure with
  | some _ => []
  | none => file

@[simp] theorem readIntents_none (file : List PairIntent) : readIntents none file = file := rfl

@[simp] theorem readIntents_some (e : String) (file : List PairIntent) :
    readIntents (some e) file = [] := rfl

/-- A write that fails leaves the file, which is replaced as a whole. -/
def writeIntents (failure : Option String) (intents file : List PairIntent) :
    List PairIntent × Except String Unit :=
  match failure with
  | some e => (file, .error e)
  | none => (intents, .ok ())

def record (fs : FileAccess) (now : Int) (pairId contactPerson : String)
    (file : List PairIntent) : List PairIntent × Except String Unit :=
  let intents := readIntents fs.read file
  if intents.any fun i => i.pairId = pairId ∧ i.contactPerson = contactPerson then (file, .ok ())
  else writeIntents fs.write (intents ++ [⟨pairId, contactPerson, now⟩]) file

def forget (fs : FileAccess) (pairId : String) (file : List PairIntent) :
    List PairIntent × Except String Unit :=
  let intents := readIntents fs.read file
  let kept := intents.filter fun i => i.pairId ≠ pairId
  if kept.length = intents.length then (file, .ok ())
  else writeIntents fs.write kept file

/-! ## One pass -/

/-- What the outside answers while a pass is at one intent. -/
structure Lookup where
  dir : Directory
  /-- When `group_invites` reads the clock. -/
  now : Int
  fs : FileAccess

/-- The invitations into the pair that invite this person and come from the contact. A
    proposer whose identity cannot be read is nobody. -/
def matchingInvites (edge : Edge) (me : String) (look : Lookup) (active : List String)
    (intent : PairIntent) : Except String (List InviteView) := do
  let invites ← groupInvites edge look.dir look.now .community intent.pairId active
  return (invites.map Prod.fst).filter fun view =>
    view.inviteeKeyId = me ∧
      (look.dir.admissionIdentityForWriter view.proposerKeyId).toOption.getD "" =
        intent.contactPerson

inductive Verdict where
  | drop (why : String)
  | accept (pending : InviteView)
  | keep
deriving DecidableEq

def Verdict.isDrop : Verdict → Bool
  | drop _ => true
  | accept _ | keep => false

/-- A roster that cannot be read counts as empty. -/
def activeMembers (look : Lookup) (pairId : String) : List String :=
  (look.dir.activeCommunityMembers pairId).toOption.getD []

def isClosed (view : InviteView) : Bool :=
  view.state = .declined || view.state = .expired || view.state = .withdrawn

/-- What `advance` makes of one intent. -/
def judge (edge : Edge) (me : String) (now : Int) (look : Lookup) (intent : PairIntent) :
    Verdict :=
  if maxAge < now - intent.askedAt then .drop "no invitation within a proposal's life"
  else if edge.pairCommunityKeyId me intent.contactPerson ≠ intent.pairId then
    .drop "not this person's pair"
  else
    let active := activeMembers look intent.pairId
    if me ∈ active then .drop "seated"
    else
      match matchingInvites edge me look active intent with
      | .error _ => .keep
      | .ok found =>
        match found.reverse.find? fun v => v.state = .pending with
        | some pending => .accept pending
        | none =>
          let answeredInTime := found.any fun v => v.state = .accepted
          if found.any isClosed && !answeredInTime then
            .drop "the invitation was declined, expired or withdrawn"
          else .keep

/-- The file, and what the pass accepted so far: for which intent, and which invitation. -/
structure Pass where
  file : List PairIntent
  accepted : List (PairIntent × InviteView)
deriving DecidableEq

/-- One round of the loop of `advance`. -/
def consider (edge : Edge) (me : String) (now : Int) (look : Lookup) (s : Pass)
    (intent : PairIntent) : Pass :=
  match judge edge me now look intent with
  | .drop _ => { s with file := (forget look.fs intent.pairId s.file).1 }
  | .accept pending =>
    match look.dir.reply pending.proposalId with
    | .ok () => { s with accepted := s.accepted ++ [(intent, pending)] }
    | .error _ => s
  | .keep => s

/-- `advance`: the answers to its first read of the file, and to each intent of it. -/
def advance (edge : Edge) (me : String) (now : Int) (read : Option String)
    (looks : Nat → Lookup) (file : List PairIntent) : Pass :=
  (readIntents read file).zipIdx.foldl
    (fun s entry => consider edge me now (looks entry.2) s entry.1) ⟨file, []⟩

end CirisServer.PairIntents
