import Mathlib.Algebra.Ring.Int.Defs
import CirisServer.Native.TraceReceipt

/-!
# The producer's receipt

`src/trace_receipt.rs`, `delivery_receipt_with`: what this node authored, agent by agent, against
what each canonical says and signs. Discovery pages through the corpus and keeps the agents of the
rows that this node's key has signed; each canonical is asked for each agent, and what has answered
by its deadline is filed by its index.

The store's reads are parameters, and so are the turns of each ask and the order in which the asks
come to an end. An ask that panics leaves no receipt.
-/

namespace CirisServer.TraceReceipt

/-! ## Discovery -/

structure TraceSummary where
  traceId : String
  agentIdHash : String
  agentKeyId : Option String
  startedAt : Int
  completedAt : Int
deriving DecidableEq

def TraceSummary.newest (s : TraceSummary) : Newest := ⟨s.traceId, s.startedAt, s.completedAt⟩

/-- The node's own trace store. -/
structure TraceStore where
  /-- `local_derived_key_id`. -/
  ownKey : Except String String
  /-- `list_trace_summaries` over the whole corpus, newest first, at a page size: the pages in turn.
      The last one has no cursor. -/
  pages : Int → List (Except String (List TraceSummary))
  countTraces : String → Except String Int
  /-- The newest summary of an agent. -/
  newestOf : String → Except String (Option TraceSummary)

inductive DiscoveryMode where
  | explicit
  | signingKey
deriving DecidableEq

structure Discovery where
  mode : DiscoveryMode
  rowsScanned : Nat
  truncated : Bool
  agentsTruncated : Bool
deriving DecidableEq

structure Authored where
  agentIdHash : String
  authored : Int
  newestAuthored : Option Newest
deriving DecidableEq

/-- The locals of the scan: the hashes in the order in which they are found, with the newest row of
    each. -/
structure Scan where
  hashes : List String
  newest : List (String × Newest)
  discovery : Discovery

def Scan.start (mode : DiscoveryMode) (hashes : List String) : Scan :=
  ⟨hashes, [], ⟨mode, 0, false, false⟩⟩

/-- One row that this node's key has signed. -/
def Scan.keep (maxAgents : Nat) (s : Scan) (row : TraceSummary) : Scan :=
  if row.agentIdHash ∈ s.hashes then s
  else if s.hashes.length ≥ maxAgents then
    { s with discovery := { s.discovery with agentsTruncated := true } }
  else
    { s with
      hashes := s.hashes ++ [row.agentIdHash]
      newest := (row.agentIdHash, row.newest) :: s.newest }

def Scan.page (ownKey : String) (maxAgents : Nat) (s : Scan) (items : List TraceSummary) : Scan :=
  (items.filter (·.agentKeyId = some ownKey)).foldl (Scan.keep maxAgents)
    { s with discovery := { s.discovery with rowsScanned := s.discovery.rowsScanned + items.length } }

/-- The loop over the pages. -/
def Scan.run (ownKey : String) (maxRows maxAgents : Nat) (s : Scan) :
    List (Except String (List TraceSummary)) → Except String Scan
  | [] => .ok s
  | .error e :: _ => .error ("list local traces: " ++ e)
  | .ok items :: pages =>
    let s := s.page ownKey maxAgents items
    if pages.isEmpty then .ok s
    else if s.discovery.rowsScanned ≥ maxRows then
      .ok { s with discovery := { s.discovery with truncated := true } }
    else s.run ownKey maxRows maxAgents pages

def nonblank (s : Option String) : Option String := (s.map trim).filter (· ≠ "")

def scanFor (store : TraceStore) (only : Option String) (pageSize : Int) (maxRows maxAgents : Nat) :
    Except String Scan :=
  match nonblank only with
  | some hash => .ok (Scan.start .explicit [hash])
  | none => do
    let ownKey ← store.ownKey.mapError ("this node's own key id: " ++ ·)
    (Scan.start .signingKey []).run ownKey maxRows maxAgents (store.pages pageSize)

def authoredFor (store : TraceStore) (newest : List (String × Newest)) (hash : String) :
    Except String Authored := do
  let authored ← (store.countTraces hash).mapError
    fun e => "count local traces for " ++ hash ++ ": " ++ e
  match newest.lookup hash with
  | some n => .ok ⟨hash, authored, some n⟩
  | none => do
    let found ← (store.newestOf hash).mapError fun e => "newest local trace for " ++ hash ++ ": " ++ e
    .ok ⟨hash, authored, found.map TraceSummary.newest⟩

def authoredHereWith (store : TraceStore) (only : Option String) (pageSize : Int)
    (maxRows maxAgents : Nat) : Except String (List Authored × Discovery) := do
  let s ← scanFor store only pageSize maxRows maxAgents
  let agents ← s.hashes.mapM (authoredFor store s.newest)
  .ok (agents, s.discovery)

/-! ## One canonical -/

inductive CanonicalStanding where
  | answered
  | partly
  | unverified
  | unreachable
deriving DecidableEq

def standingOf (verified total : Nat) (reachable : Bool) : CanonicalStanding :=
  if verified > 0 ∧ verified = total then .answered
  else if verified > 0 then .partly
  else if reachable then .unverified
  else .unreachable

/-- What the receipt says about one canonical and one agent. -/
structure AgentView where
  agentIdHash : String
  verification : Verification
  authored : Int
  held : Option Int
  countGap : Option Int
  shippedAny : Option Bool
  newestAuthored : Option Newest
  newestAuthoredHeld : Option Bool
  newestHeld : Option Newest
deriving DecidableEq

structure CanonicalView where
  keyId : String
  url : String
  reachable : Bool
  standing : Option CanonicalStanding
  error : Option String
  agents : List AgentView
deriving DecidableEq

/-- What the asks meet: the turns of each ask of each canonical, the order in which the asks of a
    canonical come to an end before its deadline, and the deadlines on the clock. -/
structure Asking where
  turns : Nat → Nat → Nat → Turn
  order : Nat → List Nat
  deadline : Nat → Nat
  /-- `canonical_deadline`, in whole seconds. -/
  deadlineSecs : Nat
  /-- Could the HTTP client be built? -/
  client : Bool

/-- What is asked: the agents and their newest traces, or one probe. -/
def questions (agents : List Authored) : List (String × Option String) :=
  if agents.isEmpty then [("probe", none)]
  else agents.map fun a => (a.agentIdHash, a.newestAuthored.map Newest.traceId)

/-- Ask `i` of canonical `j`. No result is a panic. -/
def answer (v : Verifier) (asking : Asking) (qs : List (String × Option String)) (j : Nat)
    (c : CanonicalRead) (i : Nat) : Option (Nat × AskResult) :=
  match qs[i]? with
  | none => none
  | some q =>
    ((ask v c q.1 q.2 (asking.turns j i) (asking.deadline j) max429Retries 0).result).map (i, ·)

def noAnswer (deadlineSecs : Nat) : AskResult :=
  .error (.unavailable, "no answer within the " ++ toString deadlineSecs ++
    " s canonical deadline")

/-- Each result is filed by its index. -/
def fileSlots (total : Nat) (arrivals : List (Nat × AskResult)) : List (Option AskResult) :=
  arrivals.foldl (fun slots arrival => slots.set arrival.1 (some arrival.2))
    (List.replicate total none)

def askAll (v : Verifier) (asking : Asking) (qs : List (String × Option String)) (j : Nat)
    (c : CanonicalRead) : Option (List AskResult) := do
  let arrivals ← (asking.order j).mapM (answer v asking qs j c)
  some ((fileSlots qs.length arrivals).map (·.getD (noAnswer asking.deadlineSecs)))

/-- The locals of the loop over a canonical's results. -/
structure Tally where
  perAgent : List AgentView
  reachable : Bool
  verified : Nat
  firstError : Option String
  heldEverywhere : Bool
  worstGap : Int

def newestAuthoredHeld (a : Authored) (receipt : Receipt) : Option Bool :=
  a.newestAuthored.map fun _ => receipt.holdsTrace.getD false

def verifiedView (a : Authored) (receipt : Receipt) : AgentView :=
  ⟨a.agentIdHash, .verified, a.authored, some receipt.traces,
    some (max (a.authored - receipt.traces) 0), some (decide (receipt.traces > 0)),
    a.newestAuthored, newestAuthoredHeld a receipt, receipt.newest⟩

def unknownView (a : Authored) (verification : Verification) : AgentView :=
  ⟨a.agentIdHash, verification, a.authored, none, none, none, a.newestAuthored, none, none⟩

/-- One result, for an agent or for the probe. -/
def Tally.add (t : Tally) : Option Authored × AskResult → Tally
  | (none, .ok _) => { t with verified := t.verified + 1 }
  | (some a, .ok receipt) =>
    { t with
      verified := t.verified + 1
      worstGap := max t.worstGap (max (a.authored - receipt.traces) 0)
      heldEverywhere := t.heldEverywhere && decide (newestAuthoredHeld a receipt ≠ some false)
      perAgent := t.perAgent ++ [verifiedView a receipt] }
  | (a, .error (verification, e)) =>
    { t with
      reachable := t.reachable && !unreachable (.error (verification, e))
      firstError := some (t.firstError.getD e)
      perAgent := t.perAgent ++ (a.map (unknownView · verification)).toList }

/-- The agent of each result. A probe has none. -/
def withAgents (agents : List Authored) (results : List AskResult) :
    List (Option Authored × AskResult) :=
  if agents.isEmpty then results.map (none, ·) else (agents.map some).zip results

/-! ## The receipt -/

structure CanonicalRoster where
  reads : List CanonicalRead
  refused : List String

/-- The locals of the loop over the canonicals. -/
structure Totals where
  views : List CanonicalView
  answered : Nat
  partly : Nat
  unverified : Nat
  unreachable : Nat
  heldEverywhere : Bool
  worstGap : Int

def Totals.start : Totals := ⟨[], 0, 0, 0, 0, true, 0⟩

def Totals.count (t : Totals) : CanonicalStanding → Totals
  | .answered => { t with answered := t.answered + 1 }
  | .partly => { t with partly := t.partly + 1 }
  | .unverified => { t with unverified := t.unverified + 1 }
  | .unreachable => { t with unreachable := t.unreachable + 1 }

/-- One canonical. -/
def Totals.canonical (v : Verifier) (asking : Asking) (agents : List Authored) (t : Totals)
    (entry : CanonicalRead × Nat) : Option Totals :=
  let c := entry.1
  if !asking.client then
    some { t with
      unreachable := t.unreachable + 1
      views := t.views ++ [⟨c.keyId, c.url, false, none, some "http client could not be built", []⟩] }
  else do
    let results ← askAll v asking (questions agents) entry.2 c
    let tally := (withAgents agents results).foldl Tally.add
      ⟨[], true, 0, none, t.heldEverywhere, t.worstGap⟩
    let standing := standingOf tally.verified results.length tally.reachable
    let view : CanonicalView :=
      ⟨c.keyId, c.url, tally.reachable, some standing, tally.firstError, tally.perAgent⟩
    some ({ t with
      views := t.views ++ [view]
      heldEverywhere := tally.heldEverywhere
      worstGap := tally.worstGap }.count standing)

structure Verdict where
  canonicalsAnswered : Nat
  canonicalsPartial : Nat
  canonicalsUnverified : Nat
  canonicalsUnreachable : Nat
  discoveryIncomplete : Bool
  identityUnavailable : Bool
  newestAuthoredHeldByEveryAnsweringCanonical : Option Bool
deriving DecidableEq

/-- What the hint says about the verdict. -/
inductive Hint where
  | rosterUnread (e : String)
  | allRefused
  | noUrl
  | nothingVerified (unreachable unverified : Nat)
  | stoppedEarly (rowsScanned : Nat) (agentsTruncated : Bool)
  | noIdentity
  | somePartly (partly : Nat)
  | nothingAuthored (stoppedAfter : Option Nat)
  | delivered (unreachable unverified : Nat)
  | behind (worstGap : Int)
deriving DecidableEq

structure Report where
  discovery : Discovery
  agents : List Authored
  rosterError : Option String
  refused : List String
  canonicals : List CanonicalView
  verdict : Verdict
  hint : Hint
deriving DecidableEq

def verdictOf (agents : List Authored) (discovery : Discovery) (t : Totals) : Verdict :=
  let discoveryIncomplete := (discovery.truncated || discovery.agentsTruncated) &&
    decide (discovery.mode = .signingKey)
  let identityUnavailable := agents.any fun a => decide (a.authored > 0) && a.newestAuthored.isNone
  let known := decide (t.answered > 0) && decide ((agents.map Authored.authored).sum > 0) &&
    decide (t.partly = 0) && !discoveryIncomplete && !identityUnavailable
  ⟨t.answered, t.partly, t.unverified, t.unreachable, discoveryIncomplete, identityUnavailable,
    if known then some t.heldEverywhere else none⟩

def hintOf (roster : List CanonicalRead × Option String × List String) (agents : List Authored)
    (discovery : Discovery) (t : Totals) : Hint :=
  let verdict := verdictOf agents discovery t
  match roster.2.1 with
  | some e => .rosterUnread e
  | none =>
    if roster.1.isEmpty && !roster.2.2.isEmpty then .allRefused
    else if roster.1.isEmpty then .noUrl
    else if t.answered = 0 then .nothingVerified t.unreachable t.unverified
    else if verdict.discoveryIncomplete then
      .stoppedEarly discovery.rowsScanned discovery.agentsTruncated
    else if verdict.identityUnavailable then .noIdentity
    else if t.partly > 0 then .somePartly t.partly
    else if (agents.map Authored.authored).sum = 0 then
      .nothingAuthored (if discovery.truncated then some discovery.rowsScanned else none)
    else if t.heldEverywhere then .delivered t.unreachable t.unverified
    else .behind t.worstGap

def rosterReads : Except String CanonicalRoster → List CanonicalRead × Option String × List String
  | .ok roster => (roster.reads, none, roster.refused)
  | .error e => ([], some e, [])

/-- What the producer reads: a store that could not be read, or the report. Nothing is a panic. -/
def deliveryReceiptWith (v : Verifier) (store : TraceStore) (asking : Asking)
    (roster : Except String CanonicalRoster) (only : Option String) (pageSize : Int)
    (maxRows maxAgents : Nat) : Option (Except String Report) :=
  match authoredHereWith store only pageSize maxRows maxAgents with
  | .error e => some (.error e)
  | .ok (agents, discovery) => do
    let roster := rosterReads roster
    let totals ← roster.1.zipIdx.foldlM (Totals.canonical v asking agents) Totals.start
    some (.ok ⟨discovery, agents, roster.2.1, roster.2.2, totals.views,
      verdictOf agents discovery totals, hintOf roster agents discovery totals⟩)

end CirisServer.TraceReceipt
