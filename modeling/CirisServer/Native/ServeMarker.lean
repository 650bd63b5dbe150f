/-!
# The serve marker

`src/serve_marker.rs`, and where `src/compose.rs` calls it: a file in the home that a serve writes
before it binds and removes when it has stopped through the door. The boot that finds one says so.

A file is what its bytes parse to. What the machine says of a process (`kill(pid, 0)`, and the start
time in `/proc`) is that of Linux.
-/

namespace CirisServer

namespace ServeMarker

/-- `FILE_NAME`. -/
def fileName : String := "serving.json"

structure Marker where
  pid : Nat
  instanceId : String
  startedAt : String
  listenAddr : String
  keyId : String
  procStart : Option Nat
deriving DecidableEq

/-- What the previous serve left. -/
inductive Previous where
  | clean
  | unclean (marker : Marker) (pidAlive : Option Bool)
  | unreadable (path error : String)
deriving DecidableEq

/-- The file of a home. -/
abbrev File : Type := Option (Except String Marker)

/-- A process, as it knows itself. -/
structure Proc where
  pid : Nat
  instanceId : String
  startedAt : String
  procStart : Nat
deriving DecidableEq

/-- `pid_is_alive`. -/
def pidIsAlive (live : List Proc) (pid : Nat) : Option Bool := some (live.any (·.pid = pid))

/-- `proc_start_of`. -/
def procStartOf (live : List Proc) (pid : Nat) : Option Nat :=
  (live.find? (·.pid = pid)).map (·.procStart)

/-- `path`. -/
def path (dataDir : String) : String := dataDir ++ "/" ++ fileName

/-- `previous_is_alive`: a pid that was used again is another process. -/
def previousIsAlive (live : List Proc) (self : Proc) (marker : Marker) : Option Bool :=
  if marker.pid = self.pid then some false
  else
    match pidIsAlive live marker.pid with
    | some true =>
      match marker.procStart, procStartOf live marker.pid with
      | some recorded, some now => some (recorded = now)
      | _, _ => some true
    | other => other

/-- What the file system answers. -/
structure Io where
  readError : Option String := none
  removeFails : Bool := false
deriving DecidableEq

/-- `inspect`. -/
def inspect (live : List Proc) (dataDir : String) (self : Proc) (io : Io) (file : File) :
    Previous :=
  match io.readError with
  | some error => .unreadable (path dataDir) error
  | none =>
    match file with
    | none => .clean
    | some (.ok marker) => .unclean marker (previousIsAlive live self marker)
    | some (.error error) => .unreadable (path dataDir) error

/-- `previous_still_running`. -/
def previousStillRunning : Previous → Bool
  | .unclean _ (some true) => true
  | _ => false

/-- `fs::remove_file`. -/
def removeFile (io : Io) (file : File) : File := if io.removeFails then file else none

/-- `inspect_at_boot`: the marker of a serve that is over is said, and removed. -/
def inspectAtBoot (live : List Proc) (dataDir : String) (self : Proc) (io : Io) (file : File) :
    File × Previous :=
  let prev := inspect live dataDir self io file
  if !previousStillRunning prev && prev ≠ .clean then (removeFile io file, prev)
  else (file, prev)

/-- The marker of a serve. -/
def markerOf (self : Proc) (listenAddr keyId : String) : Marker where
  pid := self.pid
  instanceId := self.instanceId
  startedAt := self.startedAt
  listenAddr := listenAddr
  keyId := keyId
  procStart := some self.procStart

/-- `clear`: a marker of another serve stays. -/
def clear (self : Proc) (io : Io) (file : File) : File :=
  match io.readError, file with
  | none, some (.ok m) =>
    if m.pid ≠ self.pid || m.instanceId ≠ self.instanceId then file else removeFile io file
  | _, _ => removeFile io file

/-! ## Serves on a home -/

/-- Where a serve is, as far as the marker goes. -/
inductive Phase where
  | idle
  /-- `inspect_at_boot` has returned. -/
  | inspected (previous : Previous)
  /-- The marker is written or withheld, and the bind has not returned. -/
  | marked (written : Bool)
  | bound
deriving DecidableEq

structure World where
  dataDir : String
  file : File := none
  /-- The processes of the machine, with the phase of the serve on this home. -/
  live : List (Proc × Phase) := []

def World.procs (w : World) : List Proc := w.live.map (·.1)

def World.setPhase (w : World) (p : Proc) (phase : Phase) : World :=
  { w with live := w.live.map fun e => if e.1 = p then (e.1, phase) else e }

inductive Event where
  /-- A process starts on the machine. -/
  | spawned (p : Proc)
  | died (p : Proc)
  /-- `inspect_at_boot`. -/
  | boot (p : Proc) (io : Io)
  /-- The marker is written, where it is not withheld and the write succeeds. -/
  | mark (p : Proc) (listenAddr keyId : String) (ok : Bool)
  /-- The bind returns. -/
  | bind (p : Proc) (ok : Bool) (io : Io)
  /-- The read API has drained, and the listener is closed. -/
  | stopped (p : Proc) (io : Io)
  /-- The serve returns with an error. -/
  | failed (p : Proc)

/-- A step of a serve that is not there, or is elsewhere, does nothing. -/
def step (w : World) : Event → World
  | .spawned p => { w with live := w.live ++ [(p, .idle)] }
  | .died p => { w with live := w.live.filter fun e => e.1 ≠ p }
  | .boot p io =>
    match w.live.lookup p with
    | some .idle =>
      let (file, prev) := inspectAtBoot w.procs w.dataDir p io w.file
      { w with file }.setPhase p (.inspected prev)
    | _ => w
  | .mark p listenAddr keyId ok =>
    match w.live.lookup p with
    | some (.inspected prev) =>
      if previousStillRunning prev then w.setPhase p (.marked false)
      else if ok then
        { w with file := some (.ok (markerOf p listenAddr keyId)) }.setPhase p (.marked true)
      else w.setPhase p (.marked false)
    | _ => w
  | .bind p ok io =>
    match w.live.lookup p with
    | some (.marked written) =>
      if ok then w.setPhase p .bound
      else if written then { w with file := clear p io w.file }.setPhase p .idle
      else w.setPhase p .idle
    | _ => w
  | .stopped p io =>
    match w.live.lookup p with
    | some .bound => { w with file := clear p io w.file }.setPhase p .idle
    | _ => w
  | .failed p =>
    match w.live.lookup p with
    | some _ => w.setPhase p .idle
    | none => w

/-- What the boot of a step says of the previous serve. -/
def reported (w : World) : Event → List Previous
  | .boot p io =>
    match w.live.lookup p with
    | some .idle => [(inspectAtBoot w.procs w.dataDir p io w.file).2]
    | _ => []
  | _ => []

end ServeMarker

end CirisServer
