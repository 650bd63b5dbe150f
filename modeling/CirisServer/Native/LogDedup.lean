import CirisServer.ForStd.Find
import CirisServer.ForStd.Members

/-!
# Collapsing repeated log lines

`log_dedup.rs`: events of one target, level and normalized message print three times in a window;
the rest are counted, and a flush reports the count. The map is keyed by a hash of the three
(`DefaultHasher`), which is a parameter. `SUPPRESSED` is a map beside it that no flush clears. Each
has a lock, which is poisoned when a thread panics with it in hand. An `Instant` is a number of
nanoseconds.
-/

namespace CirisServer.LogDedup

/-- Occurrences allowed through per window before collapsing begins. -/
def BURST : Nat := 3

/-- Upper bound on tracked distinct events. -/
def MAX_TRACKED : Nat := 4096

/-- Target of the layer's own summaries. -/
def SUMMARY_TARGET : String := "ciris_server::log_dedup"

/-- Targets whose events are never collapsed. -/
def NEVER_COLLAPSED : List String :=
  [SUMMARY_TARGET, "ciris_server::compose_status", "ciris_server::diag"]

/-- `tracing::Level`. -/
inductive Level where
  | error | warn | info | debug | trace
deriving DecidableEq

def Level.asStr : Level → String
  | .error => "ERROR"
  | .warn => "WARN"
  | .info => "INFO"
  | .debug => "DEBUG"
  | .trace => "TRACE"

/-- `str::contains`. -/
def contains (msg needle : String) : Bool :=
  (List.firstOccurrence needle.toList msg.toList).isSome

/-! ## The key of an event -/

/-- `char::is_ascii_hexdigit`. -/
def isAsciiHexdigit (c : Char) : Bool :=
  c.isDigit || ('a' ≤ c && c ≤ 'f') || ('A' ≤ c && c ≤ 'F')

/-- The token is a hash, a uuid group or an identifier with a digit in it. -/
def isIdentifier (tok : List Char) : Bool :=
  let hasDigit := tok.any Char.isDigit
  let isHex := tok.all isAsciiHexdigit
  let n := tok.length
  isHex && (n ≥ 8 || n ≥ 4 && hasDigit) || n ≥ 8 && hasDigit

/-- The `flush` of `normalize`: writes out the token that has ended. -/
def flushToken (tok out : List Char) : List Char :=
  if tok.isEmpty then out
  else if isIdentifier tok then out ++ "<id>".toList
  else if tok.all Char.isDigit then out ++ "<n>".toList
  else out ++ tok

/-- The loop of `normalize`. A token is an ASCII alphanumeric run. -/
def normalizeLoop : List Char → List Char → List Char → List Char
  | [], tok, out => flushToken tok out
  | c :: msg, tok, out =>
    if c.isAlphanum then normalizeLoop msg (tok ++ [c]) out
    else normalizeLoop msg [] (flushToken tok out ++ [c])

/-- Messages that differ only by hash, uuid or count come out the same. -/
def normalize (msg : String) : String := String.ofList (normalizeLoop msg.toList [] [])

/-- What is hashed. -/
structure Key where
  target : String
  level : Level
  message : String
deriving DecidableEq

def keyOf (target : String) (level : Level) (msg : String) : Key :=
  { target, level, message := normalize msg }

/-! ## The state -/

structure Entry where
  seen : Nat
  suppressed : Nat
  first : Nat
  sample : String
  target : String
  level : Level
deriving DecidableEq

/-- The tracked events and the cumulative counts, each with the state of its lock. -/
structure DedupState where
  map : List (UInt64 × Entry)
  poisoned : Bool
  counts : Option (List (String × Nat))
  countsPoisoned : Bool
deriving DecidableEq

/-- Nothing tracked. -/
def DedupState.default : DedupState :=
  { map := [], poisoned := false, counts := none, countsPoisoned := false }

/-- The name a suppressed event is counted under. -/
def countName (target : String) (level : Level) : String := target ++ ":" ++ level.asStr

def countSuppressed (target : String) (level : Level) (s : DedupState) : DedupState :=
  if s.countsPoisoned then s
  else
    let counts := s.counts.getD []
    let name := countName target level
    let n := (counts.lookup name).getD 0
    { s with counts := some (Members.insert name (n + 1) counts) }

/-- The cumulative counts. The order of the names is not modelled. -/
def suppressedSnapshot (s : DedupState) : List (String × Nat) :=
  if s.countsPoisoned then [] else s.counts.getD []

/-! ## Admitting an event -/

/-- A line that states its operands. -/
def isDiagnostic (msg : String) : Bool := contains msg "diag=" || contains msg "DIAG#"

/-- The map has no room for another event. -/
def isFull (s : DedupState) (key : UInt64) : Bool :=
  MAX_TRACKED ≤ s.map.length && !Members.contains key s.map

/-- The entry under a key, or the one `or_insert_with` puts there. -/
def entryAt (s : DedupState) (key : UInt64) (now : Nat) (target : String) (level : Level)
    (msg : String) : Entry :=
  (s.map.lookup key).getD
    { seen := 0, suppressed := 0, first := now, sample := msg, target, level }

/-- Records one occurrence; true lets the event print. A poisoned lock never silences logging. -/
def admitEvent (hash : Key → UInt64) (now : Nat) (target : String) (level : Level) (msg : String)
    (s : DedupState) : Bool × DedupState :=
  if isDiagnostic msg then (true, s)
  else
    let key := hash (keyOf target level msg)
    if s.poisoned then (true, s)
    else if isFull s key then (true, s)
    else
      let e := entryAt s key now target level msg
      let e := { e with seen := e.seen + 1 }
      if e.seen ≤ BURST then (true, { s with map := Members.insert key e s.map })
      else
        let e := { e with suppressed := e.suppressed + 1 }
        (false, countSuppressed target level { s with map := Members.insert key e s.map })

/-! ## Flushing -/

/-- An order in which the hash map gives its keys. -/
structure KeyOrder where
  keys : List (UInt64 × Entry) → List UInt64
  perm : ∀ m, (keys m).Perm (m.map Prod.fst)

/-- The loop of `flush`: takes every entry out, and keeps those that stand for something. -/
def drain : List UInt64 → List (UInt64 × Entry) → List Entry → List Entry × List (UInt64 × Entry)
  | [], map, out => (out, map)
  | k :: keys, map, out =>
    match map.lookup k with
    | some e =>
      if 0 < e.suppressed then drain keys (Members.remove k map) (out ++ [e])
      else drain keys (Members.remove k map) out
    | none => drain keys (Members.remove k map) out

/-- The event that reports an entry, at the entry's own level; below `WARN` at `INFO`. -/
structure Summary where
  level : Level
  target : String
  repeatedTarget : String
  total : Nat
  suppressed : Nat
  windowSecs : Nat
  sample : String
  message : String
deriving DecidableEq

def summary (now : Nat) (e : Entry) : Summary :=
  let total := e.seen
  let suppressed := e.suppressed
  let secs := (now - e.first) / 1000000000
  { level := match e.level with
      | .error => .error
      | .warn => .warn
      | _ => .info
    target := SUMMARY_TARGET
    repeatedTarget := e.target
    total
    suppressed
    windowSecs := secs
    sample := e.sample
    message := s!"event repeated {total} times in past {secs}s ({suppressed} suppressed)" }

/-- Drains the window, unless the lock is poisoned. -/
def flush (order : KeyOrder) (s : DedupState) : List Entry × DedupState :=
  if s.poisoned then ([], s)
  else
    let drained := drain (order.keys s.map) s.map []
    (drained.1, { s with map := drained.2 })

/-! ## The layer -/

/-- The event as the layer keys it: the message, then every other field. -/
structure MessageVisitor where
  message : Option String
  fields : String
deriving DecidableEq

def MessageVisitor.recordDebug (v : MessageVisitor) (field : String × String) : MessageVisitor :=
  if field.1 = "message" then
    if v.message.isNone then { v with message := some field.2 } else v
  else { v with fields := v.fields ++ " " ++ field.1 ++ "=" ++ field.2 }

def MessageVisitor.rendered (v : MessageVisitor) : Option String := v.message.map (· ++ v.fields)

/-- An event, with its fields as they are printed. -/
structure Event where
  target : String
  level : Level
  fields : List (String × String)

/-- `event.record`. -/
def Event.record (event : Event) : MessageVisitor :=
  event.fields.foldl MessageVisitor.recordDebug { message := none, fields := "" }

def eventEnabled (hash : Key → UInt64) (now : Nat) (event : Event) (s : DedupState) :
    Bool × DedupState :=
  if NEVER_COLLAPSED.contains event.target then (true, s)
  else
    match event.record.rendered with
    | some msg => admitEvent hash now event.target event.level msg s
    | none => (true, s)

/-! ## Runs -/

/-- What happens to the state: an event is admitted, the window is flushed, or a thread panics with
    one of the locks in hand. -/
inductive Call where
  | event (now : Nat) (target : String) (level : Level) (msg : String)
  | flush (now : Nat) (order : KeyOrder)
  | poison
  | poisonCounts

def step (hash : Key → UInt64) (s : DedupState) : Call → DedupState
  | .event now target level msg => (admitEvent hash now target level msg s).2
  | .flush _ order => (flush order s).2
  | .poison => { s with poisoned := true }
  | .poisonCounts => { s with countsPoisoned := true }

end CirisServer.LogDedup
