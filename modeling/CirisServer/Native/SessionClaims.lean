import Mathlib.Data.List.Sort
import Mathlib.Data.Prod.Lex
import CirisServer.ForStd.Interleave
import CirisServer.ForStd.KeyedRows

/-!
# Session claims

`src/session_claims.rs`: the devices of one person, and which of them handles an exchange. A
device claims an exchange that nobody holds while the person is there (`gate`), and renews what
it holds (`renew_once`). Each device has a view of the claim rows; rows reach the other views in
any order. Who handles an exchange is the fold of a view (`handler_for` of the store).

The devices are the members of `ι`, in the order of their occurrence ids. Time is in nanoseconds;
what is signed is cut to milliseconds.
-/

namespace CirisServer.SessionClaims

open Interleave

/-! ## The horizons -/

/-- `SESSION_CLAIM_TTL`: 120 s. -/
def ttl : Int := 120 * 1000000000

/-- `SESSION_CLAIM_RENEW_AFTER`: 60 s. -/
def renewAfter : Int := 60 * 1000000000

/-- `PRESENCE_IDLE`: 10 min. -/
def presenceIdle : Int := 600 * 1000000000

/-- `SESSION_LEASE_MAX_SECS`: 86 400 s. -/
def sessionLeaseMax : Int := 86400 * 1000000000

/-- `canonical_instant`, read back. -/
def canonicalInstant (t : Int) : Int := t / 1000000 * 1000000

/-! ## Claims and their fold -/

/-- The community and the session of an exchange. -/
abbrev ExchangeKey := String × String

structure SessionClaim (ι : Type) where
  occurrenceKeyId : ι
  claimedAt : Int
deriving DecidableEq

/-- A claim row, as it is signed. -/
structure ClaimRow (ι : Type) where
  key : ExchangeKey
  claim : SessionClaim ι
  validUntil : Int
deriving DecidableEq

variable {ι : Type} [LinearOrder ι]

/-- The order of the merge: the earliest claim first, ties by the lowest occurrence id. -/
def SessionClaim.rank (c : SessionClaim ι) : Int ×ₗ ι := toLex (c.claimedAt, c.occurrenceKeyId)

/-- `handler_for`: the earliest of the claims of an exchange that are live in a view. -/
structure Fold (ι : Type) [LinearOrder ι] where
  handlerFor : List (ClaimRow ι) → ExchangeKey → Int → Option (SessionClaim ι)
  unclaimed : ∀ {view key now}, handlerFor view key now = none →
    ∀ row ∈ view, row.key = key → ¬ now < row.validUntil
  names : ∀ {view key now claim}, handlerFor view key now = some claim →
    ∃ row ∈ view, row.key = key ∧ now < row.validUntil ∧ row.claim = claim
  earliest : ∀ {view key now claim}, handlerFor view key now = some claim →
    ∀ row ∈ view, row.key = key → now < row.validUntil → claim.rank ≤ row.claim.rank

/-! ## The decisions -/

inductive Step (ι : Type) where
  | claim
  | renew
  | hold
  | defer (handler : ι)
  | lapse
deriving DecidableEq

/-- `step`. -/
def step (attended : Bool) (handler : Option (SessionClaim ι)) (me : ι) (newestLease : Option Int)
    (now : Int) : Step ι :=
  if !attended then .lapse
  else
    match handler with
    | none => .claim
    | some h =>
      if h.occurrenceKeyId ≠ me then .defer h.occurrenceKeyId
      else
        match newestLease with
        | some lease => if now - lease < renewAfter then .hold else .renew
        | none => .renew

inductive Verdict (ι : Type) where
  | act
  | handledElsewhere (occurrence : ι)
  | unclaimed
deriving DecidableEq

/-- `Verdict::of`. -/
def Verdict.of (handler : Option (SessionClaim ι)) (me : ι) : Verdict ι :=
  match handler with
  | some h => if h.occurrenceKeyId = me then .act else .handledElsewhere h.occurrenceKeyId
  | none => .unclaimed

/-- `renewal_lease`. -/
def renewalLease (claimedAt now : Int) : Option Int :=
  if now + ttl ≤ claimedAt + sessionLeaseMax then some (now + ttl) else none

/-- `lease_for`: the `claimed_at` and the `valid_until` of the lease that is written now. -/
def leaseFor (original : Option Int) (now : Int) : Int × Int :=
  match original.bind fun c => (renewalLease c now).map fun v => (c, v) with
  | some renewal => renewal
  | none => (now, now + ttl)

/-! ## The devices -/

/-- What a process remembers of an exchange that it has offered. -/
structure Exchange where
  newestLease : Option Int := none
  claimedAt : Option Int := none
deriving DecidableEq

/-- When the person was last here, and the exchanges that were offered, by their key. -/
structure Attendance where
  presence : Option Int := none
  exchanges : List (ExchangeKey × Exchange) := []
deriving DecidableEq

namespace Attendance

def attended (now : Int) (a : Attendance) : Bool := a.presence.any fun t => now - t < presenceIdle

def keyLe (a b : ExchangeKey × Exchange) : Prop :=
  a.1.1 < b.1.1 ∨ a.1.1 = b.1.1 ∧ a.1.2 ≤ b.1.2

instance : DecidableRel keyLe := fun a b =>
  inferInstanceAs (Decidable (a.1.1 < b.1.1 ∨ a.1.1 = b.1.1 ∧ a.1.2 ≤ b.1.2))

def offer (key : ExchangeKey) (a : Attendance) : Attendance :=
  if (KeyedRows.get Prod.fst key a.exchanges).isSome then a
  else { a with exchanges := a.exchanges.orderedInsert keyLe (key, {}) }

def leased (key : ExchangeKey) (now claimedAt : Int) (a : Attendance) : Attendance :=
  { a with
    exchanges := KeyedRows.modify Prod.fst key (fun e => (e.1, ⟨some now, some claimedAt⟩))
      a.exchanges }

def forget (key : ExchangeKey) (a : Attendance) : Attendance :=
  { a with exchanges := a.exchanges.filter (·.1 ≠ key) }

end Attendance

/-- A device: its claim rows, what its process remembers, and how often that was started. -/
structure Device (ι : Type) where
  view : List (ClaimRow ι) := []
  attendance : Attendance := {}
  boot : Nat := 0

/-- The devices, and the time. -/
structure Fleet (ι : Type) where
  clock : Int
  devices : ι → Device ι

namespace Fleet

def view (i : ι) (f : Fleet ι) : List (ClaimRow ι) := (f.devices i).view

/-- One device changes. -/
def modify (i : ι) (g : Device ι → Device ι) (f : Fleet ι) : Fleet ι :=
  { f with devices := Function.update f.devices i (g (f.devices i)) }

/-- Is the person on the device? -/
def attended (i : ι) (f : Fleet ι) : Bool := (f.devices i).attendance.attended f.clock

def attendance (i : ι) (g : Attendance → Attendance) (f : Fleet ι) : Fleet ι :=
  f.modify i fun d => { d with attendance := g d.attendance }

/-- A row is in the device's view from now on. -/
def putRow (i : ι) (row : ClaimRow ι) (f : Fleet ι) : Fleet ι :=
  f.modify i fun d => { d with view := d.view.insert row }

/-- `claim_now`, once it has its pen: the row is written, and remembered. -/
def claimNow (i : ι) (key : ExchangeKey) (now : Int) (original : Option Int) (f : Fleet ι) :
    Fleet ι :=
  let (claimedAt, validUntil) := leaseFor original now
  let row : ClaimRow ι :=
    { key, claim := ⟨i, canonicalInstant claimedAt⟩, validUntil := canonicalInstant validUntil }
  (f.putRow i row).attendance i (Attendance.leased key now claimedAt)

end Fleet

/-! ## The operations -/

structure RenewalLine (ι : Type) where
  key : ExchangeKey
  step : Step ι
deriving DecidableEq

/-- Where an operation stands. `now` is the instant it was called at. -/
inductive Phase (ι : Type) where
  /-- `gate` is to read the fold. -/
  | gating (key : ExchangeKey) (now : Int)
  /-- `gate` is to write a claim. -/
  | claiming (key : ExchangeKey) (now : Int)
  /-- `gate` is to read the fold again. -/
  | rereading (key : ExchangeKey) (now : Int)
  | answered (key : ExchangeKey) (verdict : Verdict ι)
  /-- `renew_once` is to read the fold of the next exchange. -/
  | renewing (now : Int) (attended : Bool) (todo : List (ExchangeKey × Exchange))
      (lines : List (RenewalLine ι))
  /-- `renew_once` is to write a lease. -/
  | leasing (now : Int) (attended : Bool) (line : RenewalLine ι) (original : Option Int)
      (todo : List (ExchangeKey × Exchange)) (lines : List (RenewalLine ι))
  | passed (lines : List (RenewalLine ι))
deriving DecidableEq

/-- What a step meets: a read of the fold that fails, a claim that cannot be signed or written. -/
structure Env where
  readFails : Bool := false
  writeFails : Bool := false

/-- The first read of `gate`. -/
def gateRead (L : Fold ι) (env : Env) (i : ι) (key : ExchangeKey) (now : Int) (f : Fleet ι) :
    Fleet ι × Phase ι :=
  if env.readFails then (f, .answered key .unclaimed)
  else
    let handler := L.handlerFor (f.view i) key now
    let f := f.attendance i (Attendance.offer key)
    if handler.isNone ∧ f.attended i then (f, .claiming key now)
    else (f, .answered key (.of handler i))

/-- A read of `renew_once`, and what follows from it. -/
def renewRead (L : Fold ι) (env : Env) (i : ι) (now : Int) (attended : Bool) (key : ExchangeKey)
    (ex : Exchange) (todo : List (ExchangeKey × Exchange)) (lines : List (RenewalLine ι))
    (f : Fleet ι) : Fleet ι × Phase ι :=
  if env.readFails then (f, .renewing now attended todo lines)
  else
    let handler := L.handlerFor (f.view i) key now
    let s := step attended handler i ex.newestLease now
    match s with
    | .claim => (f, .leasing now attended ⟨key, s⟩ none todo lines)
    | .renew =>
      (f, .leasing now attended ⟨key, s⟩ ((handler.map (·.claimedAt)).or ex.claimedAt) todo lines)
    | .lapse =>
      let stale := ex.newestLease.all fun t => ttl ≤ now - t
      (if stale then f.attendance i (Attendance.forget key) else f,
        .renewing now attended todo (lines ++ [⟨key, s⟩]))
    | .hold | .defer _ => (f, .renewing now attended todo (lines ++ [⟨key, s⟩]))

/-- The next step of an operation. -/
def Phase.advance (L : Fold ι) (env : Env) (i : ι) (phase : Phase ι) (f : Fleet ι) :
    Fleet ι × Phase ι :=
  match phase with
  | .gating key now => gateRead L env i key now f
  | .claiming key now =>
    if env.writeFails then (f, .answered key .unclaimed)
    else (f.claimNow i key now none, .rereading key now)
  | .rereading key now =>
    -- a read that fails names nobody
    let handler := if env.readFails then none else L.handlerFor (f.view i) key now
    (f, .answered key (.of handler i))
  | .answered key verdict => (f, .answered key verdict)
  | .renewing _ _ [] lines => (f, .passed lines)
  | .renewing now attended ((key, ex) :: todo) lines =>
    renewRead L env i now attended key ex todo lines f
  | .leasing now attended line original todo lines =>
    (if env.writeFails then f else f.claimNow i line.key now original,
      .renewing now attended todo (lines ++ [line]))
  | .passed lines => (f, .passed lines)

/-- An operation of a process, or nothing. -/
inductive Task (ι : Type) where
  | idle
  | op (device : ι) (boot : Nat) (phase : Phase ι)
deriving DecidableEq

/-- What happens on its own. -/
inductive Happening (ι : Type) where
  | gate (i : ι) (key : ExchangeKey)
  | renewOnce (i : ι)
  | notePresence (i : ι)
  /-- The process is started again, and remembers nothing. -/
  | restart (i : ι)
  /-- The time goes on. -/
  | elapse (nanos : Nat)
  /-- A row of one view reaches another. -/
  | replicate (source target : ι) (row : ClaimRow ι)
deriving DecidableEq

def Happening.spawn (h : Happening ι) (f : Fleet ι) : Fleet ι × Task ι :=
  match h with
  | .gate i key => (f, .op i (f.devices i).boot (.gating key f.clock))
  | .renewOnce i =>
    (f, .op i (f.devices i).boot
      (.renewing f.clock (f.attended i) (f.devices i).attendance.exchanges []))
  | .notePresence i =>
    (f.attendance i fun a => { a with presence := some f.clock }, .idle)
  | .restart i => (f.modify i fun d => { d with attendance := {}, boot := d.boot + 1 }, .idle)
  | .elapse nanos => ({ f with clock := f.clock + nanos }, .idle)
  | .replicate source target row =>
    (if row ∈ f.view source then f.putRow target row else f, .idle)

/-- A step of an operation, if its process still runs. -/
def Task.advance (L : Fold ι) (env : Env) (t : Task ι) (f : Fleet ι) : Fleet ι × Task ι :=
  match t with
  | .idle => (f, .idle)
  | .op i boot phase =>
    if boot = (f.devices i).boot then
      let (f', phase') := phase.advance L env i f
      (f', .op i boot phase')
    else (f, .idle)

/-- The devices of a person, side by side. -/
def fleetSystem (L : Fold ι) : System (Fleet ι) (Task ι) (Happening ι) Env where
  spawn h f := h.spawn f
  advance env t f := t.advance L env f

/-- Devices without a claim, and nothing under way. -/
def start (clock : Int) : Config (Fleet ι) (Task ι) := ⟨⟨clock, fun _ => {}⟩, []⟩

end CirisServer.SessionClaims
