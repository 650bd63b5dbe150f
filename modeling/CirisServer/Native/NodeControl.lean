/-!
# Stopping a node

`src/node_control.rs`, and the frame of a serve in `src/compose.rs`: SIGTERM for the life of a
process, and the request to stop from within it.

The signal handler writes a byte to a socket, a thread of its own (the broker) reads it, and the
serve runs on a third. Their steps interleave as they like; each loads or stores one of the
process's cells. A run starts when the broker is installed. A step whose thread is elsewhere, or
that waits for something which is not there yet, does nothing.
-/

namespace CirisServer

namespace NodeControl

/-- How a process ends. -/
inductive Exit where
  /-- The default action of SIGTERM, raised again. -/
  | raised
  /-- `process::exit(143)`. -/
  | second
deriving DecidableEq

/-- Where the broker's thread is. -/
inductive Broker where
  /-- At the first `read_exact`. -/
  | reading
  /-- The byte is read, and counted. -/
  | counted
  /-- The latch is set; `SERVE_ACTIVE` is not loaded yet. -/
  | latched
  /-- No serve was active. -/
  | propagating
  /-- At the second `read_exact`. -/
  | waiting
deriving DecidableEq

/-- Where the serve's thread is. -/
inductive Serve where
  | idle
  /-- `serve_began` was called, and no listener is bound. -/
  | booting
  /-- At the stop-select. -/
  | serving
  /-- The select has resolved; whether by the SIGTERM arm. -/
  | stopping (bySigterm : Bool)
  /-- Everything is torn down. -/
  | tornDown (bySigterm : Bool)
  /-- The function returns, with a result or an error: `ServeGuard` is dropped next. -/
  | returned
  /-- `serve_ended` has stored; the latch is not loaded yet. -/
  | ended
deriving DecidableEq

structure Process where
  /-- `HOST_OWNS_SIGTERM`. -/
  hostOwns : Bool
  /-- `SERVE_ACTIVE`. -/
  serveActive : Bool := false
  /-- `terminated_latch`. -/
  terminated : Bool := false
  /-- `latch`. -/
  stopRequested : Bool := false
  /-- `BOUND_ADDR`. -/
  boundAddr : Option String := none
  /-- `HANDLER_HITS`. -/
  handlerHits : Nat := 0
  /-- `BROKER_READS`. -/
  brokerReads : Nat := 0
  /-- The bytes in the socket. -/
  unread : Nat := 0
  broker : Broker := .reading
  serve : Serve := .idle
  exit : Option Exit := none
deriving DecidableEq

/-- `propagate_terminate`: a host that owns SIGTERM decides for itself. -/
def propagateTerminate (p : Process) : Process :=
  if p.hostOwns then p else { p with exit := some .raised }

/-- The handler; the byte is dropped if the socket is full. -/
def handler (p : Process) (dropped : Bool) : Process :=
  { p with
    handlerHits := p.handlerHits + 1
    unread := if dropped && 0 < p.unread then p.unread else p.unread + 1 }

/-- The broker's next step. -/
def brokerStep (p : Process) : Process :=
  match p.broker with
  | .reading =>
    if p.unread = 0 then p
    else { p with unread := p.unread - 1, brokerReads := p.brokerReads + 1, broker := .counted }
  | .counted => { p with terminated := true, broker := .latched }
  | .latched => { p with broker := if p.serveActive then .waiting else .propagating }
  | .propagating => { propagateTerminate p with broker := .waiting }
  | .waiting => if p.unread = 0 then p else { p with exit := some .second }

/-- The arms of the stop-select. -/
inductive Arm where
  | sigint
  | terminated
  | shutdownRequested
deriving DecidableEq

/-- An arm that is ready. -/
def Arm.ready (p : Process) : Arm → Bool
  | .sigint => true
  | .terminated => p.terminated
  | .shutdownRequested => p.stopRequested

/-- What the serve's thread does next. -/
inductive ServeStep where
  /-- `serve_began`. -/
  | began
  /-- A boot step fails. -/
  | bootFailed
  /-- The listener is bound: `arm`. -/
  | bound (addr : String)
  | select (arm : Arm)
  /-- The read API drains, and the rest is torn down: `disarm`. -/
  | drained
  /-- The read API does not shut down. -/
  | drainFailed
  /-- The last test of the latch, at the end of the function. -/
  | finish
  /-- `serve_ended` stores. -/
  | guardDropped
  /-- `serve_ended` loads the latch. -/
  | checked
deriving DecidableEq

def serveStep (p : Process) : ServeStep → Process
  | .began =>
    match p.serve with
    | .idle => { p with serveActive := true, serve := .booting }
    | _ => p
  | .bootFailed =>
    match p.serve with
    | .booting => { p with serve := .returned }
    | _ => p
  | .bound addr =>
    match p.serve with
    | .booting => { p with stopRequested := false, boundAddr := some addr, serve := .serving }
    | _ => p
  | .select arm =>
    match p.serve with
    | .serving =>
      if arm.ready p then { p with serve := .stopping (arm = .terminated) } else p
    | _ => p
  | .drained =>
    match p.serve with
    | .stopping bySigterm => { p with boundAddr := none, serve := .tornDown bySigterm }
    | _ => p
  | .drainFailed =>
    match p.serve with
    | .stopping _ => { p with serve := .returned }
    | _ => p
  | .finish =>
    match p.serve with
    | .tornDown bySigterm =>
      let p := { p with serve := .returned }
      if bySigterm || p.terminated then propagateTerminate p else p
    | _ => p
  | .guardDropped =>
    match p.serve with
    | .returned => { p with serveActive := false, serve := .ended }
    | _ => p
  | .checked =>
    match p.serve with
    | .ended =>
      let p := { p with serve := .idle }
      if p.terminated then propagateTerminate p else p
    | _ => p

inductive Event where
  /-- SIGTERM is delivered. -/
  | sigterm (dropped : Bool)
  /-- `request_shutdown`. -/
  | requestShutdown
  | broker
  | serve (s : ServeStep)
deriving DecidableEq

/-- A process that has ended does nothing. -/
def step (p : Process) (e : Event) : Process :=
  if p.exit.isSome then p
  else
    match e with
    | .sigterm dropped => handler p dropped
    | .requestShutdown => { p with stopRequested := true }
    | .broker => brokerStep p
    | .serve s => serveStep p s

end NodeControl

end CirisServer
