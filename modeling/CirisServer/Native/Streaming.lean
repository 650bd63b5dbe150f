import CirisServer.Native.Multipart

/-!
# Streamed reads

`src/drive/streaming.rs`: a task walks a file and hands it, piece by piece, to a channel. A whole
file is walked by edge's `chunks()`, and from the first byte not yet sent by `open_range` once a
key grant is pending; a range is walked by `open_range` in windows.

What edge answers, what the clock says and whether the receiver still listens come from outside,
one step of the walk at a time. A walk whose steps run out is not over.
-/

namespace CirisServer.Streaming

inductive UnopenedReason where
  | notGranted
  /-- Any other reason, with what `is_pending` says of it. -/
  | other (isPending : Bool)
deriving DecidableEq

inductive FileError where
  | unopened (reason : UnopenedReason)
  | other (text : String)
deriving DecidableEq

abbrev Item := Except FileError (List UInt8)

/-- `grant_pending`. -/
def grantPending : FileError → Bool
  | .unopened .notGranted => true
  | .unopened (.other isPending) => isPending
  | .other _ => false

/-- `RANGE_WINDOW`: 1 MiB. -/
def rangeWindow : Nat := 1048576

/-- `GRANT_WAIT`, in seconds. -/
def grantWait : Nat := 120

/-- How a producer stands. -/
inductive Channel where
  | walking
  /-- The receiver was dropped. -/
  | dropped
  | closed
deriving DecidableEq

/-- What came out of the channel so far, and how it stands. -/
structure Sent where
  items : List Item
  channel : Channel

/-- One item more, in front. -/
def Sent.push (item : Item) (rest : Sent) : Sent := { rest with items := item :: rest.items }

/-- `let _ = tx.send(Err(e)).await; return`. -/
def sendError (received : Bool) (e : FileError) : Sent :=
  if received then ⟨[.error e], .closed⟩ else ⟨[], .dropped⟩

/-! ## `walk_range` -/

/-- One call of `open_range`: what it answers at an offset for a length, the instant, and whether
    the receiver takes an item. -/
structure Try where
  openRange : Nat → Nat → Item
  now : Nat
  received : Bool

/-- The last byte of the window at `start`. -/
def windowLast (start last : Nat) : Nat := min ((start / rangeWindow + 1) * rangeWindow - 1) last

/-- `walk_range`, from `start` on to `last`. -/
def walkRange (last : Nat) : List Try → Nat → Option Nat → Sent
  | [], start, _ => if last < start then ⟨[], .closed⟩ else ⟨[], .walking⟩
  | t :: tries, start, stalledSince =>
    if last < start then ⟨[], .closed⟩
    else
      let upTo := windowLast start last
      match t.openRange start (upTo - start + 1) with
      | .ok bytes =>
        if t.received then (walkRange last tries (upTo + 1) none).push (.ok bytes)
        else ⟨[], .dropped⟩
      | .error e =>
        if grantPending e then
          let since := stalledSince.getD t.now
          if grantWait ≤ t.now - since then sendError t.received e
          else walkRange last tries start (some since)
        else sendError t.received e

/-- `spawn_range`. -/
def spawnRange (start last : Nat) (tries : List Try) : Sent := walkRange last tries start none

/-! ## `spawn_chunks` -/

/-- One call of `chunks.next()`. -/
inductive Pull where
  | item (item : Item) (received : Bool)
  | ended

/-- The walk of chunks is over: the range reader takes it from the first byte not yet sent. -/
def handOver (size : Option Nat) (tries : List Try) (sent : Nat) : Sent :=
  match size with
  | none => ⟨[], .closed⟩
  | some total =>
    if total ≤ sent then ⟨[], .closed⟩ else walkRange (total - 1) tries sent none

/-- `spawn_chunks`, with `sent` bytes sent. `size` is what the file's pointer declares. -/
def spawnChunks (size : Option Nat) (tries : List Try) : List Pull → Nat → Sent
  | [], _ => ⟨[], .walking⟩
  | .ended :: _, sent => handOver size tries sent
  | .item (.ok bytes) received :: pulls, sent =>
    if received then (spawnChunks size tries pulls (sent + bytes.length)).push (.ok bytes)
    else ⟨[], .dropped⟩
  | .item (.error e) received :: _, sent =>
    if grantPending e then handOver size tries sent else sendError received e

end CirisServer.Streaming

/-!
## The chunk reader

`src/drive/streaming.rs` (`ChunkReader`): the items of a channel, read as bytes. `peek` looks at
what comes next, and `poll_read` takes it.

The channel is the list of what receiving from it brings, and is passed along; once the list is
empty, it is closed. `peek` is modelled poll by poll: what it awaits leaves nothing behind but the
reader. Lengths are `Nat`, and what `peek` is asked for is a machine word: it panics where its sum
has none.
-/

namespace CirisServer.Streaming

open Multipart (Poll)

/-- What receiving from the channel brings. -/
inductive Recv where
  | pending
  | item (item : Item)

/-- `pos` is the source's `at`. -/
structure ChunkReader where
  pending : List UInt8
  pos : Nat
  done : Bool
  failure : Option FileError
  pos_le : pos ≤ pending.length
  done_of_failure : failure.isSome = true → done = true
deriving DecidableEq

/-- What `peek` comes to. -/
inductive Peeked where
  | shown (bytes : List UInt8)
  | refused (e : FileError)
  | panicked
deriving DecidableEq

namespace ChunkReader

def new : ChunkReader := ⟨[], 0, false, none, Nat.le_refl _, fun h => nomatch h⟩

/-- A reader that holds these bytes, and nothing consumed of them. -/
def hold (r : ChunkReader) (bytes : List UInt8) : ChunkReader :=
  { r with pending := bytes, pos := 0, pos_le := Nat.zero_le _ }

/-- The channel is closed. -/
def finish (r : ChunkReader) : ChunkReader := { r with done := true, done_of_failure := fun _ => rfl }

/-- The channel brought an error. -/
def refuse (r : ChunkReader) (e : FileError) : ChunkReader :=
  { r with done := true, failure := some e, done_of_failure := fun _ => rfl }

/-- The last lines of `peek`: `at + n` is a sum of machine words. -/
def peeked (r : ChunkReader) (n : UInt64) : Peeked :=
  if 2 ^ 64 ≤ r.pos + n.toNat then .panicked
  else .shown ((r.pending.take (min (r.pos + n.toNat) r.pending.length)).drop r.pos)

/-- `peek` need not receive any more. -/
def peekReady (r : ChunkReader) (n : UInt64) : Bool :=
  n.toNat ≤ r.pending.length - r.pos ∨ r.done

/-- `peek`, polled once. -/
def pollPeek (n : UInt64) (r : ChunkReader) : List Recv → Poll Peeked × ChunkReader × List Recv
  | [] =>
    if r.peekReady n then (.ready (r.peeked n), r, [])
    else (.ready (r.finish.peeked n), r.finish, [])
  | recv :: rx =>
    if r.peekReady n then (.ready (r.peeked n), r, recv :: rx)
    else
      match recv with
      | .pending => (.pending, r, rx)
      | .item (.ok b) => pollPeek n (r.hold (r.pending.drop r.pos ++ b)) rx
      | .item (.error e) => (.ready (.refused e), r.refuse e, rx)

/-- What is read of the bytes that the reader holds. -/
def take (size : Nat) (r : ChunkReader) : List UInt8 × ChunkReader :=
  let n := min (r.pending.length - r.pos) size
  ((r.pending.drop r.pos).take n,
    { r with
      pos := r.pos + n
      pos_le := by
        have hpos := r.pos_le
        omega })

/-- The loop of `poll_read`, up to where it receives. `display` is the text of an error. -/
def serve (display : FileError → String) (size : Nat) (r : ChunkReader) :
    Option (Except String (List UInt8) × ChunkReader) :=
  if r.pos < r.pending.length then some (.ok (r.take size).1, (r.take size).2)
  else
    match r.failure with
    | some e => some (.error (display e), r)
    | none => if r.done then some (.ok [], r) else none

/-- `poll_read`, into a buffer with room for `size` bytes. -/
def pollRead (display : FileError → String) (size : Nat) (r : ChunkReader) :
    List Recv → Poll (Except String (List UInt8)) × ChunkReader × List Recv
  | [] =>
    match r.serve display size with
    | some (a, r) => (.ready a, r, [])
    -- the next turn of the loop reports the end
    | none => (.ready (.ok []), r.finish, [])
  | recv :: rx =>
    match r.serve display size with
    | some (a, r) => (.ready a, r, recv :: rx)
    | none =>
      match recv with
      | .pending => (.pending, r, rx)
      | .item (.ok b) => pollRead display size (r.hold b) rx
      | .item (.error e) => pollRead display size (r.refuse e) rx

/-! ## Any number of calls -/

inductive Call where
  | read (size : Nat)
  | peek (n : UInt64)
deriving DecidableEq

inductive Answer where
  | read (r : Poll (Except String (List UInt8)))
  | peek (r : Poll Peeked)
deriving DecidableEq

def answer (display : FileError → String) (r : ChunkReader) (rx : List Recv) :
    Call → Answer × ChunkReader × List Recv
  | .read size =>
    let (a, r, rx) := r.pollRead display size rx
    (.read a, r, rx)
  | .peek n =>
    let (a, r, rx) := r.pollPeek n rx
    (.peek a, r, rx)

/-- The calls, with their answers. -/
def run (display : FileError → String) (r : ChunkReader) (rx : List Recv) :
    List Call → List (Call × Answer)
  | [] => []
  | call :: calls =>
    let (a, r, rx) := r.answer display rx call
    (call, a) :: run display r rx calls

end ChunkReader

end CirisServer.Streaming
