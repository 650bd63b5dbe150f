import CirisServer.ForStd.Group
import CirisServer.ForStd.Interleave
import Mathlib.Data.String.Basic

/-!
# The MLS group of a room

`reconcile_room_group` of `src/contacts_chat.rs`, with `place_unplaced`, `place_commit` and
`keep_unplaced`: the creator of a room makes the members of its group the active members of the
room. Each change of the group is a Commit, which the other members need in order; one that did
not reach the room is kept and placed again first. `src/mls_guard.rs` keeps a package that makes the
library panic from being tried twice.

A pass stops at every `await`, where other passes over the same room may run. The group itself,
the rows that are built and the crossing into the room are edge's: a reply says how each call
ended.
-/

namespace CirisServer.RoomGroup

open Interleave

/-! ## The group and the room -/

/-- `CohortCommit`: a step of the group to an epoch, with the Welcome of one that was added. -/
structure Commit where
  epoch : Nat
  welcome : Option (List UInt8)
deriving DecidableEq

structure Member where
  keyId : String
  /-- `member_added_at`, in milliseconds. -/
  addedAt : Option Int
deriving DecidableEq

/-- edge's `CohortGroup`, as far as its members go. -/
structure Group where
  epoch : Nat
  members : List Member
deriving DecidableEq

namespace Group

/-- `member_key_ids`. -/
def keyIds (g : Group) : List String := g.members.map (·.keyId)

/-- `member_added_at`. -/
def addedAt (g : Group) (m : String) : Option Int :=
  (g.members.find? (·.keyId = m)).bind (·.addedAt)

def add (g : Group) (m : String) (now : Int) : Group :=
  ⟨g.epoch + 1, g.members ++ [⟨m, some now⟩]⟩

def remove (g : Group) (m : String) : Group :=
  ⟨g.epoch + 1, g.members.filter (·.keyId ≠ m)⟩

variable {g : Group} {k m : String} {now : Int}

theorem keyIds_add (g : Group) (m : String) (now : Int) :
    (g.add m now).keyIds = g.keyIds ++ [m] := by
  simp [keyIds, add]

theorem mem_keyIds_remove : k ∈ (g.remove m).keyIds ↔ k ∈ g.keyIds ∧ k ≠ m := by
  simp only [keyIds, remove, List.mem_map, List.mem_filter, decide_eq_true_eq]
  constructor
  · rintro ⟨member, ⟨hmem, hne⟩, rfl⟩
    exact ⟨⟨member, hmem, rfl⟩, hne⟩
  · rintro ⟨⟨member, hmem, rfl⟩, hne⟩
    exact ⟨member, ⟨hmem, hne⟩, rfl⟩

theorem addedAt_remove (h : k ≠ m) : (g.remove m).addedAt k = g.addedAt k := by
  have hfind : (g.members.filter (·.keyId ≠ m)).find? (·.keyId = k) =
      g.members.find? (·.keyId = k) := by
    rw [List.find?_filter]
    congr 1
    funext member
    by_cases hk : member.keyId = k
    · simp [hk, h]
    · simp [hk]
  rw [addedAt, addedAt, remove, hfind]

theorem addedAt_add_of_mem (h : k ∈ g.keyIds) : (g.add m now).addedAt k = g.addedAt k := by
  obtain ⟨member, hmem, hk⟩ := List.mem_map.mp h
  have hsome : (g.members.find? (·.keyId = k)).isSome = true := by
    rw [List.find?_isSome]
    exact ⟨member, hmem, by simpa using hk⟩
  obtain ⟨found, hfound⟩ := Option.isSome_iff_exists.mp hsome
  rw [addedAt, addedAt, add, List.find?_append, hfound]
  rfl

theorem addedAt_add_self (h : m ∉ g.keyIds) : (g.add m now).addedAt m = some now := by
  have hnone : g.members.find? (·.keyId = m) = none := by
    rw [List.find?_eq_none]
    intro member hmem hk
    exact h (List.mem_map.mpr ⟨member, hmem, by simpa using hk⟩)
  rw [addedAt, add, List.find?_append, hnone]
  simp

end Group

/-- A Welcome row, for one member. -/
structure Welcome where
  mlsForKeyId : String
  welcome : List UInt8
  epoch : Nat
  assertedAt : Int
deriving DecidableEq

/-- A row of the creator's in the room. -/
inductive Row where
  | commit (commit : Commit)
  | welcome (welcome : Welcome)
deriving DecidableEq

/-- The node of the creator, and the room. -/
structure Node where
  group : Group
  /-- `unplaced_commits`, of this room. -/
  unplaced : List Commit := []
  /-- `POISONED`, by digest. -/
  poisoned : List (List UInt8) := []
  /-- The rows that were placed in the room, oldest first. -/
  rows : List Row := []
  /-- `key_package_from`: the KeyPackages that have arrived. -/
  packages : String → Option (List UInt8)
  clock : Int
  /-- The Commits that the group has made, and those of them that no row was placed or kept of. -/
  made : List Commit := []
  lost : List Commit := []

structure Crates where
  /-- SHA-256. -/
  digest : List UInt8 → List UInt8
  /-- `key_package_from_bytes`. -/
  decode : List UInt8 → Except String Unit

/-- `MAX_POISONED`. -/
def maxPoisoned : Nat := 1024

/-- `is_poisoned`. -/
def isPoisoned (cr : Crates) (s : Node) (package : List UInt8) : Bool :=
  s.poisoned.any (· = cr.digest package)

/-- `poison`. -/
def poison (cr : Crates) (s : Node) (package : List UInt8) : Node :=
  if s.poisoned.length < maxPoisoned then
    { s with poisoned := s.poisoned.insert (cr.digest package) }
  else s

/-- A Welcome for a member, that counts for an add at this time. -/
def Row.welcomes (m : String) (added : Option Int) : Row → Bool
  | .commit _ => false
  | .welcome w => w.mlsForKeyId = m && added.all (· ≤ w.assertedAt)

/-- `welcomed_for_current_add`: a Welcome since the add, or any if its instant is not known. -/
def welcomedForCurrentAdd (s : Node) (m : String) : Bool :=
  s.rows.any (Row.welcomes m (s.group.addedAt m))

/-! ## A pass -/

/-- What is left of a pass. -/
inductive Rest where
  | repair (members : List String)
  | add (roster inGroup : List String)
  | remove (gone : List String)
deriving DecidableEq

/-- Where a pass waits. -/
inductive Phase where
  | replacing (row : Commit) (rows : List Commit)
  | listing
  | checking (m : String) (members : List String)
  | removing (m : String) (rest : Rest)
  | relisting
  | reading (m : String) (roster inGroup : List String)
  | adding (m : String) (package : List UInt8) (roster inGroup : List String)
  | buildingWelcome (commit : Commit) (welcome : Welcome) (rest : Rest)
  | building (commit : Commit) (welcome : Option Welcome) (rest : Rest)
  | welcoming (commit : Commit) (welcome : Welcome) (rest : Rest)
  | placing (commit : Commit) (rest : Rest)
  | finished (result : Except String Unit)
  /-- The request went away, and the pass with it. -/
  | dropped

namespace Phase

/-- The Commits that a pass has in hand. -/
def hand : Phase → List Commit
  | .replacing row rows => row :: rows
  | .buildingWelcome commit _ _ | .building commit _ _ | .welcoming commit _ _
  | .placing commit _ => [commit]
  | _ => []

def isOver : Phase → Bool
  | .finished _ | .dropped => true
  | _ => false

end Phase

structure Pass where
  room : String
  author : String
  /-- The active members, by the fold. -/
  roster : List String
  phase : Phase

namespace Pass

/-- The members that the repair looks at. -/
def repairNext (p : Pass) : List String → Phase
  | [] => .relisting
  | m :: ms => if m = p.author then p.repairNext ms else .checking m ms

def removeNext : List String → Phase
  | [] => .finished (.ok ())
  | m :: ms => .removing m (.remove ms)

/-- The members of the group that the fold no longer names. -/
def gone (p : Pass) (inGroup : List String) : List String :=
  inGroup.filter fun m => m ≠ p.author && m ∉ p.roster

/-- The active members that are not in the group, and then those of the group that are gone. -/
def addNext (p : Pass) (inGroup : List String) : List String → Phase
  | [] => removeNext (p.gone inGroup)
  | m :: ms => if m = p.author ∨ m ∈ inGroup then p.addNext inGroup ms else .reading m ms inGroup

def next (p : Pass) : Rest → Phase
  | .repair ms => p.repairNext ms
  | .add ms inGroup => p.addNext inGroup ms
  | .remove ms => removeNext ms

/-- The kept Commits, oldest first. -/
def replaceNext : List Commit → Phase
  | [] => .listing
  | row :: rows => .replacing row rows

end Pass

/-- How a call ended that a pass waited for. -/
inductive Answer where
  | ok
  | error (e : String)
  | panicked
  | dropped
deriving DecidableEq

structure Reply where
  answer : Answer
  /-- The Welcome of `add_member`. -/
  welcome : Option (List UInt8) := some []
  elapsed : Nat := 0
deriving DecidableEq

/-- The call succeeded. -/
def proceed (cr : Crates) (welcome : Option (List UInt8)) (p : Pass) (s : Node) : Node × Phase :=
  match p.phase with
  | .replacing row rows => ({ s with rows := s.rows ++ [.commit row] }, Pass.replaceNext rows)
  | .listing => (s, p.repairNext s.group.keyIds)
  | .checking m ms =>
    (s, if welcomedForCurrentAdd s m then p.repairNext ms else .removing m (.repair ms))
  | .removing m rest =>
    let commit := ⟨s.group.epoch + 1, none⟩
    ({ s with group := s.group.remove m, made := s.made ++ [commit] }, .building commit none rest)
  | .relisting => (s, p.addNext s.group.keyIds.sortedKeys p.roster)
  | .reading m ms inGroup =>
    match s.packages m with
    | none => (s, p.addNext inGroup ms)
    | some package =>
      if isPoisoned cr s package then (s, p.addNext inGroup ms)
      else
        match cr.decode package with
        | .error e => (s, .finished (.error ("KeyPackage: " ++ e)))
        | .ok () => (s, .adding m package ms inGroup)
  | .adding m _ ms inGroup =>
    let commit := ⟨s.group.epoch + 1, welcome⟩
    let s := { s with group := s.group.add m s.clock, made := s.made ++ [commit] }
    match welcome with
    | none =>
      ({ s with lost := s.lost ++ [commit] }, .finished (.error "add_member produced no Welcome"))
    | some bytes =>
      (s, .buildingWelcome commit ⟨m, bytes, commit.epoch, s.clock⟩ (.add ms inGroup))
  | .buildingWelcome commit w rest => (s, .building commit (some w) rest)
  | .building commit none rest => (s, .placing commit rest)
  | .building commit (some w) rest => (s, .welcoming commit w rest)
  | .welcoming commit w rest => ({ s with rows := s.rows ++ [.welcome w] }, .placing commit rest)
  | .placing commit rest => ({ s with rows := s.rows ++ [.commit commit] }, p.next rest)
  | phase => (s, phase)

/-- The call failed, and the pass with it. -/
def fail (e : String) (p : Pass) (s : Node) : Node × Phase :=
  match p.phase with
  | .replacing row rows =>
    ({ s with unplaced := row :: rows ++ s.unplaced },
      .finished (.error ("an earlier Commit in " ++ p.room ++ " is still unplaced: " ++ e)))
  | .checking _ _ | .reading _ _ _ => (s, .finished (.error e))
  | .removing m (.repair _) =>
    (s, .finished (.error ("remove_member(" ++ m ++ ") to re-welcome: " ++ e)))
  | .removing m _ => (s, .finished (.error ("remove_member(" ++ m ++ "): " ++ e)))
  | .adding m _ _ _ => (s, .finished (.error ("add_member(" ++ m ++ "): " ++ e)))
  -- no row was built of a Commit that the group has made
  | .buildingWelcome commit _ _ | .building commit _ _ =>
    ({ s with lost := s.lost ++ [commit] }, .finished (.error e))
  | .welcoming commit _ _ =>
    ({ s with unplaced := s.unplaced ++ [commit] }, .finished (.error e))
  | .placing commit _ =>
    ({ s with unplaced := s.unplaced ++ [commit] },
      .finished (.error (e ++ " (the Commit is kept and placed again first)")))
  | phase => (s, phase)

/-- The pass is gone, with what it had in hand. -/
def drop (p : Pass) (s : Node) : Node × Phase :=
  if p.phase.isOver then (s, p.phase) else ({ s with lost := s.lost ++ p.phase.hand }, .dropped)

/-- A call ends, and the pass goes on to the next one. -/
def advance (cr : Crates) (reply : Reply) (p : Pass) (s : Node) : Node × Pass :=
  let s := { s with clock := s.clock + reply.elapsed }
  let (s, phase) :=
    match reply.answer, p.phase with
    | .ok, _ => proceed cr reply.welcome p s
    | .error e, _ => fail e p s
    -- the panic is caught, and the package is not tried again
    | .panicked, .adding _ package ms inGroup => (poison cr s package, p.addNext inGroup ms)
    | _, _ => drop p s
  (s, { p with phase })

/-- Who the creator is, and the active members. -/
structure Arrival where
  room : String
  author : String
  roster : List String

/-- `reconcile_room_group`, up to where it first waits: it takes what is unplaced. -/
def spawn (a : Arrival) (s : Node) : Node × Pass :=
  ({ s with unplaced := [] }, ⟨a.room, a.author, a.roster, Pass.replaceNext s.unplaced⟩)

def system (cr : Crates) : System Node Pass Arrival Reply where
  spawn := spawn
  advance := advance cr

end CirisServer.RoomGroup
