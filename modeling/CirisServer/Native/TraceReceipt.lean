import CirisServer.ForStd.Except
import CirisServer.ForStd.Find
import CirisServer.ForStd.Utf8
import CirisServer.Native.Session

/-!
# Asking a canonical for a receipt

`src/trace_receipt.rs`: one ask over HTTP, its answer checked and bound to the question, and the
retries of a 429.

What arrives and what the clock says are a list of turns. Serde, the digest, the canonicalizer, the
signature check and the directory are parameters. An instant of tokio's clock is a number of
nanoseconds; it counts seconds in 64 bits with a sign.
-/

namespace CirisServer.TraceReceipt

def receiptRoute : String := "/v1/traces/receipt"

def max429Retries : Nat := 3

def maxReceiptBytes : Nat := 64 * 1024

/-- `MAX_RECEIPT_AGE`, ten minutes. -/
def maxReceiptAge : Int := 600 * nanosPerSec

structure Newest where
  traceId : String
  startedAt : Int
  completedAt : Int
deriving DecidableEq

structure Receipt where
  agentIdHash : String
  traces : Int
  newest : Option Newest
  askedTraceId : Option String
  holdsTrace : Option Bool
  nonce : Option String
  readAt : Int
deriving DecidableEq

inductive Verification where
  | verified
  | failed
  | unavailable
deriving DecidableEq

/-- The bound receipt, or why its numbers are not to be used. -/
abbrev AskResult := Except (Verification × String) Receipt

inductive KeyStatementStanding where
  | stands
  | suspectAfterBound
  | suspectUnbounded
deriving DecidableEq

def standingPermits : KeyStatementStanding → Except String Unit
  | .stands => .ok ()
  | .suspectAfterBound => .error "is revoked as of before this receipt was signed"
  | .suspectUnbounded => .error "is revoked without a bound: nothing it signed is believed"

structure CanonicalRead where
  keyId : String
  url : String
deriving DecidableEq

/-! ## The reply -/

/-- A reply, with its chunks in the order in which they arrive. -/
structure Reply where
  status : Nat
  /-- The status' canonical reason. -/
  reason : String
  /-- The `Retry-After` header, where it is a text. -/
  retryAfter : Option String
  contentLength : Option Nat
  chunks : List (Except String (List UInt8))

/-- One request: what comes back, and what the clocks say around it. -/
structure Turn where
  nonce : String
  sent : Except String Reply
  askedAt : Int
  checkedAt : Int
  readAt : Int
  instant : Nat

def readChunks (url : String) : List UInt8 → List (Except String (List UInt8)) →
    Except String (List UInt8)
  | body, [] => .ok body
  | _, .error e :: _ => .error (url ++ ": read body: " ++ e)
  | body, .ok chunk :: chunks =>
    if body.length + chunk.length > maxReceiptBytes then
      .error (url ++ ": body exceeds the " ++ toString maxReceiptBytes ++
        "-byte receipt limit — not a receipt")
    else readChunks url (body ++ chunk) chunks

def boundedBody (url : String) (reply : Reply) : Except String (List UInt8) :=
  match reply.contentLength with
  | some len =>
    if len > maxReceiptBytes then
      .error (url ++ ": declared body of " ++ toString len ++ " bytes exceeds the " ++
        toString maxReceiptBytes ++ "-byte receipt limit — not a receipt")
    else readChunks url [] reply.chunks
  | none => readChunks url [] reply.chunks

/-- The line of a reply that is not a success: the status, the body's first characters, the header. -/
def statusLine (url : String) (reply : Reply) (body : List UInt8) : String :=
  url ++ ": HTTP " ++ toString reply.status ++ " " ++ reply.reason ++ ": " ++
    String.ofList ((fromUtf8Lossy body).toList.take 200) ++
    (reply.retryAfter.map (" retry-after=" ++ ·)).getD ""

/-! ## The answer -/

structure KeyRecord where
  pubkeyEd25519Base64 : String
  pubkeyMlDsa65Base64 : Option String

/-- The libraries and the directory, and how values are printed. -/
structure Verifier where
  json : List UInt8 → Except String Json
  receipt : Json → Except String Receipt
  receiptBytes : Receipt → List UInt8
  sha256Hex : List UInt8 → String
  lookupPublicKey : String → Except String (Option KeyRecord)
  canonicalize : Json → Except String (List UInt8)
  /-- `verify_hybrid` under the strict policy: is the outcome `HybridVerified`? -/
  verifyHybrid : List UInt8 → String → String → KeyRecord → Bool
  /-- `resolve_key_statement_standing`. -/
  standing : String → Int → Int → Except String KeyStatementStanding
  shownTime : Int → String
  debugOption : Option String → String

/-- `sign_object::verify_object_bytes`. -/
def verifyObjectBytes (v : Verifier) (bytes : List UInt8) (doc : Json) : Except String Bool := do
  let manifest ← (doc.get? "manifest").elim
    (.error "verify_object: signature document has no manifest") .ok
  let claimed ← ((manifest.get? "sha256").bind Json.asStr).elim
    (.error "verify_object: manifest has no sha256") .ok
  if v.sha256Hex bytes ≠ claimed then .ok false
  else
    let keyId ← ((manifest.get? "signer_key_id").bind Json.asStr).elim
      (.error "verify_object: manifest has no signer_key_id") .ok
    let found ← (v.lookupPublicKey keyId).mapError fun e =>
      "verify_object: lookup_public_key(" ++ keyId ++ "): " ++ e
    let record ← found.elim
      (.error ("verify_object: signer " ++ keyId ++ " is not a registered key")) .ok
    let classical ← ((doc.get? "scrub_signature_classical").bind Json.asStr).elim
      (.error "verify_object: no classical signature") .ok
    let pqc ← ((doc.get? "scrub_signature_pqc").bind Json.asStr).elim
      (.error "verify_object: no pqc signature") .ok
    let canonical ← (v.canonicalize manifest).mapError
      ("verify_object: canonicalize manifest: " ++ ·)
    .ok (v.verifyHybrid canonical classical pqc record)

def isObject : Json → Bool
  | .obj _ => true
  | _ => false

def signerOf (doc : Json) : String :=
  (((doc.get? "manifest").bind (·.get? "signer_key_id")).bind Json.asStr).getD ""

/-- One ask, verified and bound. -/
def askOnce (v : Verifier) (c : CanonicalRead) (agentIdHash : String) (traceId : Option String)
    (turn : Turn) : AskResult := do
  let url := c.url ++ receiptRoute
  let reply ← turn.sent.mapError fun e => (.unavailable, url ++ ": error sending request: " ++ e)
  let body ← (boundedBody url reply).mapError (Verification.unavailable, ·)
  ensure (200 ≤ reply.status ∧ reply.status < 300) (.unavailable, statusLine url reply body)
  let answer ← (v.json body).mapError fun e => (.unavailable, url ++ ": not JSON: " ++ e)
  let receipt ← (v.receipt ((answer.get? "data").getD .null)).mapError fun e =>
    (.unavailable, url ++ ": not a receipt: " ++ e)
  let doc ← ((answer.get? "signature").filter isObject).elim
    (.error (.unavailable, url ++ ": the receipt carries no signature — numbers discarded")) .ok
  let signer := signerOf doc
  ensure (signer = c.keyId)
    (.failed, url ++ ": receipt signed by `" ++ signer ++ "`, but this canonical is `" ++ c.keyId ++
      "` — not its receipt")
  let verified ← (verifyObjectBytes v (v.receiptBytes receipt) doc).mapError fun e =>
    (.unavailable, url ++ ": could not verify the receipt (signer `" ++ signer ++ "`): " ++ e)
  ensure verified
    (.failed, url ++ ": receipt signature does not verify against `" ++ signer ++
      "`'s registered keys")
  -- the key's standing is judged at the instant of this ask
  let standing ← (v.standing signer turn.askedAt turn.checkedAt).mapError fun e =>
    (.unavailable, url ++ ": could not read signer `" ++ signer ++ "`'s standing: " ++ e)
  (standingPermits standing).mapError fun why =>
    (.failed, url ++ ": signer `" ++ signer ++ "` " ++ why ++ " — receipt discarded")
  ensure (receipt.agentIdHash = agentIdHash ∧ receipt.askedTraceId = traceId ∧
      receipt.nonce = some turn.nonce)
    (.failed, url ++ ": a valid receipt, but not for this ask (agent `" ++ receipt.agentIdHash ++
      "`, trace " ++ v.debugOption receipt.askedTraceId ++ ", nonce echoed: " ++
      toString (decide (receipt.nonce = some turn.nonce)) ++ ") — replayed")
  let age := turn.readAt - receipt.readAt
  ensure (age ≤ maxReceiptAge ∧ -maxReceiptAge ≤ age)
    (.failed, url ++ ": receipt read_at " ++ v.shownTime receipt.readAt ++ " is " ++
      toString (age.tdiv nanosPerSec) ++ " s from this node's clock — outside the " ++
      toString (maxReceiptAge.tdiv nanosPerSec) ++ " s window")
  .ok receipt

/-! ## The retries -/

/-- `str::contains`. -/
def contains (hay needle : String) : Bool :=
  (List.firstOccurrence needle.toList hay.toList).isSome

/-- What stands behind the last `needle`. -/
def afterLast (needle hay : String) : Option String :=
  (List.firstOccurrence needle.toList.reverse hay.toList.reverse).map fun i =>
    String.ofList (hay.toList.reverse.take i).reverse

/-- `str::parse::<u64>`: decimal digits, with a plus sign or without. -/
def parseU64 (s : String) : Option Nat :=
  let digits := if s.toList.head? = some '+' then s.toList.tail else s.toList
  if digits ≠ [] ∧ digits.all Char.isDigit then
    let n := digits.foldl (fun n c => n * 10 + (c.toNat - 48)) 0
    if n < 2 ^ 64 then some n else none
  else none

/-- The stated delay, in seconds. -/
def retryDelay (e : String) : Nat :=
  max 1 (((afterLast "retry-after=" e).bind fun t => parseU64 (trim t)).getD 1)

/-- `Instant + Duration`, which panics where the clock cannot count so far. -/
def addSeconds (instant secs : Nat) : Option Nat :=
  if instant / 10 ^ 9 + secs < 2 ^ 63 then some (instant + secs * 10 ^ 9) else none

/-- An error that asks for a retry. -/
def limited : AskResult → Option String
  | .error (.unavailable, e) => if contains e ": HTTP 429" then some e else none
  | _ => none

def doesNotFit (e : String) : String := e ++ " (Retry-After does not fit the canonical deadline)"

/-- The delays that an ask has waited, and its result. No result is a panic. -/
structure Asked where
  waits : List Nat
  result : Option AskResult

/-- One ask with its retries: `left` more of them, from turn `i`. -/
def ask (v : Verifier) (c : CanonicalRead) (agentIdHash : String) (traceId : Option String)
    (turns : Nat → Turn) (deadline : Nat) : Nat → Nat → Asked
  | 0, i => ⟨[], some (askOnce v c agentIdHash traceId (turns i))⟩
  | left + 1, i =>
    let result := askOnce v c agentIdHash traceId (turns i)
    match limited result with
    | none => ⟨[], some result⟩
    | some e =>
      let wait := retryDelay e
      match addSeconds (turns i).instant wait with
      | none => ⟨[], none⟩
      | some wake =>
        if wake > deadline then ⟨[], some (.error (.unavailable, doesNotFit e))⟩
        else
          let rest := ask v c agentIdHash traceId turns deadline left (i + 1)
          ⟨wait :: rest.waits, rest.result⟩

/-- Is the canonical reported unreachable for this result? -/
def unreachable : AskResult → Bool
  | .error (_, e) => contains e ": error sending request"
  | .ok _ => false

end CirisServer.TraceReceipt
