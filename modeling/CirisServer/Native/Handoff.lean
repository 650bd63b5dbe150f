import Mathlib.Logic.Function.Basic
import CirisServer.ForStd.Interleave
import CirisServer.ForStd.KeyedRows

/-!
# The sign-in hand-off

`src/auth/oauth.rs`: a sign-in that a desktop app starts in a browser. `CsrfStore` holds the
authorizations that are not consumed, `HandoffStore` the outcomes that wait for the app, and the
sign-ins that a callback has in hand. The app polls `oauth_handoff`.

The outcomes are of any type: the store hands them on as they are. Time is in nanoseconds, and an
operation that reads the clock twice is given both instants. The tables of the hand-off are maps
from nonces. The authorizations are rows, by their state token.
-/

namespace CirisServer.Handoff

open Interleave

def secs (n : Nat) : Nat := n * 1000000000

/-- How long an authorization is pending: 600 s. -/
def pendingTtl : Nat := secs 600

/-- How long an outcome waits: 300 s. -/
def outcomeTtl : Nat := secs 300

/-- `IN_FLIGHT_TTL`. -/
def inFlightTtl : Nat := secs 300

/-! ## The authorizations -/

structure Pending where
  token : String
  deadline : Nat
  codeVerifier : String
  appNonce : Option String
  postLoginRedirect : Option String
deriving DecidableEq

structure ConsumedState where
  codeVerifier : String
  appNonce : Option String
  postLoginRedirect : Option String
deriving DecidableEq

structure CsrfStore where
  pending : List Pending := []
deriving DecidableEq

namespace CsrfStore

def prune (now : Nat) (s : CsrfStore) : CsrfStore :=
  ⟨s.pending.filter fun p => now < p.deadline⟩

/-- `issue`, with the token and the verifier drawn. -/
def issue (now : Nat) (token codeVerifier : String)
    (appNonce postLoginRedirect : Option String) (s : CsrfStore) : CsrfStore :=
  ⟨KeyedRows.upsert Pending.token
    { token, deadline := now + pendingTtl, codeVerifier, appNonce, postLoginRedirect }
    (s.prune now).pending⟩

def consume (now : Nat) (token : String) (s : CsrfStore) : CsrfStore × Option ConsumedState :=
  let s := s.prune now
  match KeyedRows.get Pending.token token s.pending with
  | none => (s, none)
  | some p =>
    (⟨s.pending.filter (·.token ≠ token)⟩,
      if now < p.deadline then some ⟨p.codeVerifier, p.appNonce, p.postLoginRedirect⟩ else none)

def hasPendingNonce (now : Nat) (appNonce : String) (s : CsrfStore) : CsrfStore × Bool :=
  let s := s.prune now
  (s, s.pending.any (·.appNonce = some appNonce))

end CsrfStore

/-! ## The outcomes -/

variable {ω : Type}

structure HandoffStore (ω : Type) where
  ready : String → Option (ω × Nat) := fun _ => none
  recent : Option (ω × Nat) := none
  inFlight : String → Option Nat := fun _ => none

namespace HandoffStore

/-- A deadline that lies ahead. -/
def live (now : Nat) (slot : Option (ω × Nat)) : Option (ω × Nat) :=
  slot.filter fun p => now < p.2

def prune (now : Nat) (h : HandoffStore ω) : HandoffStore ω where
  ready n := live now (h.ready n)
  recent := live now h.recent
  inFlight n := (h.inFlight n).filter fun started => now - started < inFlightTtl

/-- An outcome under the nonce of its flow. -/
def putReady (nonce : String) (parked : ω × Nat) (h : HandoffStore ω) : HandoffStore ω :=
  { h with
    inFlight := Function.update h.inFlight nonce none
    ready := Function.update h.ready nonce (some parked) }

/-- `park`. -/
def park (now now' : Nat) (nonce : Option String) (outcome : ω) (h : HandoffStore ω) :
    HandoffStore ω :=
  let parked := (outcome, now' + outcomeTtl)
  let h := nonce.elim (h.prune now) fun n => (h.prune now).putReady n parked
  { h with recent := some parked }

/-- `collect`. -/
def collect (now now' : Nat) (nonce : String) (h : HandoffStore ω) :
    HandoffStore ω × Option ω :=
  let h := h.prune now
  match h.ready nonce with
  | none => (h, none)
  | some (outcome, deadline) =>
    let h := { h with ready := Function.update h.ready nonce none }
    if now' < deadline then ({ h with recent := none }, some outcome) else (h, none)

/-- `collect_recent`. -/
def collectRecent (now now' : Nat) (h : HandoffStore ω) : HandoffStore ω × Option ω :=
  let h := h.prune now
  match h.recent with
  | none => (h, none)
  | some (outcome, deadline) =>
    ({ h with recent := none }, if now' < deadline then some outcome else none)

/-- `begin_flight`. -/
def beginFlight (now now' : Nat) (nonce : String) (h : HandoffStore ω) : HandoffStore ω :=
  let h := h.prune now
  { h with inFlight := Function.update h.inFlight nonce (some now') }

/-- `is_in_flight`. -/
def isInFlight (now : Nat) (nonce : String) (h : HandoffStore ω) : HandoffStore ω × Bool :=
  let h := h.prune now
  (h, (h.inFlight nonce).isSome)

end HandoffStore

/-! ## The requests -/

/-- The stores, and the time. -/
structure Desk (ω : Type) where
  clock : Nat
  csrf : CsrfStore := {}
  handoff : HandoffStore ω := {}
  /-- The nonces that apps have started a flow with. -/
  started : List String := []

/-- Where `oauth_callback` stands. -/
inductive Callback where
  /-- The state token is to be consumed. -/
  | called (token : String)
  /-- The flow is to be marked as in flight. -/
  | consumed (state : ConsumedState)
  /-- The provider is asked. -/
  | exchanging (state : ConsumedState) (started : Nat)
  | refused
  | parked
deriving DecidableEq

/-- What a poll is answered. -/
inductive Reply (ω : Type) where
  | outcome (outcome : ω)
  | noContent
  | gone
deriving DecidableEq

/-- Where `oauth_handoff` stands. -/
inductive Poll (ω : Type) where
  /-- The outcome is to be collected. -/
  | called (allowUnbound : Bool)
  /-- There was none: is the flow in flight? -/
  | checkingFlight
  /-- It is not: is its authorization pending? -/
  | checkingPending
  | answered (reply : Reply ω)
deriving DecidableEq

/-- A request. -/
inductive Task (ω : Type) where
  /-- `oauth_login`, that is to issue a state. -/
  | login (appNonce postLoginRedirect : Option String)
  | redirected
  | callback (phase : Callback)
  | poll (nonce : String) (phase : Poll ω)
  | idle
deriving DecidableEq

/-- What happens on its own. -/
inductive Happening where
  | login (appNonce postLoginRedirect : Option String)
  | callback (token : String)
  | poll (nonce : String) (allowUnbound : Bool)
  | elapse (nanos : Nat)
deriving DecidableEq

/-- What a region meets: the token and the verifier that are drawn, what the sign-in comes to, and
    whether the callback is dropped. -/
structure Env (ω : Type) where
  token : String
  codeVerifier : String
  outcome : ω
  dropped : Bool := false

/-- The next region of a callback. -/
def Callback.advance (env : Env ω) (phase : Callback) (d : Desk ω) : Desk ω × Callback :=
  match phase with
  | .called token =>
    let (csrf, state) := d.csrf.consume d.clock token
    ({ d with csrf }, state.elim .refused .consumed)
  | .consumed state =>
    if env.dropped then (d, .refused)
    else
      (state.appNonce.elim d fun n =>
          { d with handoff := d.handoff.beginFlight d.clock d.clock n },
        .exchanging state d.clock)
  | .exchanging state _ =>
    if env.dropped then (d, .refused)
    else ({ d with handoff := d.handoff.park d.clock d.clock state.appNonce env.outcome }, .parked)
  | .refused => (d, .refused)
  | .parked => (d, .parked)

/-- The first region of a poll. -/
def pollCollect (nonce : String) (allowUnbound : Bool) (d : Desk ω) : Desk ω × Poll ω :=
  let (handoff, outcome) := d.handoff.collect d.clock d.clock nonce
  let (handoff, outcome) :=
    if outcome.isNone ∧ allowUnbound then handoff.collectRecent d.clock d.clock
    else (handoff, outcome)
  ({ d with handoff }, outcome.elim .checkingFlight fun o => .answered (.outcome o))

/-- The next region of a poll. -/
def Poll.advance (nonce : String) (phase : Poll ω) (d : Desk ω) : Desk ω × Poll ω :=
  match phase with
  | .called allowUnbound => pollCollect nonce allowUnbound d
  | .checkingFlight =>
    let (handoff, found) := d.handoff.isInFlight d.clock nonce
    ({ d with handoff }, if found then .answered .noContent else .checkingPending)
  | .checkingPending =>
    let (csrf, found) := d.csrf.hasPendingNonce d.clock nonce
    ({ d with csrf }, .answered (if found then .noContent else .gone))
  | .answered reply => (d, .answered reply)

/-- The next region of a request. -/
def Task.advance (env : Env ω) (t : Task ω) (d : Desk ω) : Desk ω × Task ω :=
  match t with
  | .login appNonce postLoginRedirect =>
    ({ d with
        csrf := d.csrf.issue d.clock env.token env.codeVerifier appNonce postLoginRedirect },
      .redirected)
  | .redirected => (d, .redirected)
  | .callback phase =>
    let (d, phase) := phase.advance env d
    (d, .callback phase)
  | .poll nonce phase =>
    let (d, phase) := phase.advance nonce d
    (d, .poll nonce phase)
  | .idle => (d, .idle)

def Happening.spawn (a : Happening) (d : Desk ω) : Desk ω × Task ω :=
  match a with
  | .login appNonce postLoginRedirect =>
    ({ d with started := appNonce.toList ++ d.started }, .login appNonce postLoginRedirect)
  | .callback token => (d, .callback (.called token))
  | .poll nonce allowUnbound => (d, .poll nonce (.called allowUnbound))
  | .elapse nanos => ({ d with clock := d.clock + nanos }, .idle)

/-- The requests of one node, side by side. -/
def deskSystem : System (Desk ω) (Task ω) Happening (Env ω) where
  spawn a d := a.spawn d
  advance env t d := t.advance env d

/-- A new process, and no requests. -/
def start (clock : Nat) : Config (Desk ω) (Task ω) := ⟨{ clock }, []⟩

end CirisServer.Handoff
