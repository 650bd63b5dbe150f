import CirisServer.ForStd.Split
import CirisServer.ForStd.Utf8
import CirisServer.Native.Retention
import CirisServer.Native.Session

/-!
# The multipart reader

`src/drive/multipart.rs`: the upload form, read one frame at a time. Fields are read whole and the
file, which comes last, is handed on as it arrives.

The stream of frames is the list of what polling it brings, and is passed along; once the list is
empty, the body is at its end. An `async fn` runs until it is ready: a poll that is pending is
made again. A slice that is copied out is the list of its bytes, and its length is what the code
returns. Places in the buffer are `Nat`.
-/

namespace CirisServer

namespace Multipart

/-- `HEADER_CAP`. -/
def headerCap : Nat := 16 * 1024

inductive Failure where
  | tooLarge (limit : Nat)
  | fieldAfterFile
  | truncated
  | malformed (text : String)
  | transport (text : String)
deriving DecidableEq

structure PartHead where
  name : String := ""
  filename : Option String := none
  contentType : Option String := none
deriving DecidableEq

inductive State where
  | preamble
  | afterDelimiter
  | inPart
  | closed
deriving DecidableEq

/-- What polling the stream brings. -/
inductive Event where
  | pending
  | frame (bytes : List UInt8)
  | error (text : String)

inductive Poll (α : Type) where
  | pending
  | ready (value : α)
deriving DecidableEq

inductive ReadPartError where
  | aboveCap
  | failed (f : Failure)
deriving DecidableEq

def crlf : List UInt8 := [13, 10]

/-- `--`. -/
def dashes : List UInt8 := [45, 45]

end Multipart

/-- The reader. -/
structure Multipart where
  buf : List UInt8
  /-- What is consumed of `buf`. -/
  pos : Nat
  /-- `CRLF -- boundary`. -/
  delim : List UInt8
  /-- No delimiter starts below this place. -/
  cleanUntil : Nat
  read : Nat
  limit : Nat
  ended : Bool
  state : Multipart.State
  failure : Option Multipart.Failure

namespace Multipart

/-! ## Texts of a header -/

/-- `str::trim_matches`, by a test. -/
def trimMatches (p : Char → Bool) (text : List Char) : List Char :=
  ((text.dropWhile p).reverse.dropWhile p).reverse

/-- `eq_ignore_ascii_case` of the trimmed text. -/
def isKey (text : List Char) (key : String) : Bool :=
  (trimMatches isWhiteSpace text).map Char.toLower == key.toList.map Char.toLower

/-- `disposition_param`. -/
def dispositionParam (value : List Char) (key : String) : Option (List Char) :=
  ((value.splitOn ';').drop 1).findSome? fun param =>
    match List.splitOnce '=' param with
    | none => none
    | some (k, v) =>
      if isKey k key then some (trimMatches (· == '"') (trimMatches isWhiteSpace v)) else none

/-- `split("\r\n")`. -/
def splitCrlf : List Char → List (List Char)
  | [] => [[]]
  | '\r' :: '\n' :: text => [] :: splitCrlf text
  | c :: text =>
    match splitCrlf text with
    | [] => [[c]]
    | line :: lines => (c :: line) :: lines

/-- One line of a part's headers, and whether the part is named. -/
def headLine (acc : PartHead × Bool) (line : List Char) : PartHead × Bool :=
  match List.splitOnce ':' line with
  | none => acc
  | some (k, v) =>
    if isKey k "content-disposition" then
      let (head, named) :=
        match dispositionParam v "name" with
        | some n => ({ acc.1 with name := String.ofList n }, true)
        | none => acc
      ({ head with filename := (dispositionParam v "filename").map String.ofList }, named)
    else if isKey k "content-type" then
      ({ acc.1 with contentType := some (String.ofList (trimMatches isWhiteSpace v)) }, acc.2)
    else acc

/-- The headers of a part. -/
def parseHead (text : List Char) : PartHead × Bool := (splitCrlf text).foldl headLine ({}, false)

/-! ## Finding a delimiter -/

/-- `find`: a scan for the first byte, then a compare. -/
def find (hay needle : List UInt8) (start : Nat) : Option Nat :=
  match needle.head? with
  | none => none
  | some first =>
    if start + needle.length ≤ hay.length then
      match ((hay.drop start).take (hay.length - needle.length + 1 - start)).findIdx?
          (· == first) with
      | none => none
      | some rel =>
        if (hay.drop (start + rel)).take needle.length = needle then some (start + rel)
        else find hay needle (start + rel + 1)
    else none
termination_by hay.length + 1 - start

/-- `new`. The buffer starts with a CRLF, so that the first delimiter is like the others. -/
def new (boundary : String) (limit : Nat) : Multipart where
  buf := crlf
  pos := 0
  delim := crlf ++ dashes ++ utf8 boundary
  cleanUntil := 0
  read := 0
  limit := limit
  ended := false
  state := .preamble
  failure := none

/-- `fail`. The first failure stays. -/
def fail (mp : Multipart) (f : Failure) : Failure × Multipart :=
  (mp.failure.getD f, { mp with failure := some (mp.failure.getD f) })

/-- The consumed part of the buffer is dropped. -/
def compact (mp : Multipart) : Multipart :=
  if 0 < mp.pos then
    { mp with buf := mp.buf.drop mp.pos, cleanUntil := mp.cleanUntil - mp.pos, pos := 0 }
  else mp

/-- `poll_fill`. -/
def pollFill (mp : Multipart) (stream : List Event) :
    Poll (Except Failure Bool) × Multipart × List Event :=
  match mp.failure with
  | some f => (.ready (.error f), mp, stream)
  | none =>
    if mp.ended then (.ready (.ok false), mp, stream)
    else
      match stream with
      | [] => (.ready (.ok false), { mp with ended := true }, [])
      | .pending :: stream => (.pending, mp, stream)
      | .error e :: stream =>
        let (f, mp) := mp.fail (.transport e)
        (.ready (.error f), mp, stream)
      | .frame bytes :: stream =>
        let mp := { mp with read := min (mp.read + bytes.length) u64Max }
        if mp.limit < mp.read then
          let (f, mp) := mp.fail (.tooLarge mp.limit)
          (.ready (.error f), mp, stream)
        else
          let mp := mp.compact
          (.ready (.ok true), { mp with buf := mp.buf ++ bytes }, stream)

theorem pollFill_pending_lt {mp mp' : Multipart} {stream stream' : List Event}
    (h : mp.pollFill stream = (.pending, mp', stream')) : stream'.length < stream.length := by
  unfold pollFill at h
  split at h
  · cases h
  split at h
  · cases h
  split at h
  · cases h
  · cases h
    exact Nat.lt_succ_self _
  · cases h
  · dsimp only at h
    split at h <;> cases h

theorem pollFill_filled_lt {mp mp' : Multipart} {stream stream' : List Event}
    (h : mp.pollFill stream = (.ready (.ok true), mp', stream')) :
    stream'.length < stream.length := by
  unfold pollFill at h
  split at h
  · cases h
  split at h
  · cases h
  split at h
  · cases h
  · cases h
  · cases h
  · dsimp only at h
    split at h
    · cases h
    · cases h
      exact Nat.lt_succ_self _

/-- `fill`. -/
def fill (mp : Multipart) (stream : List Event) : Except Failure Bool × Multipart × List Event :=
  match _h : mp.pollFill stream with
  | (.pending, mp, stream) => fill mp stream
  | (.ready r, mp, stream) => (r, mp, stream)
termination_by stream.length
decreasing_by exact pollFill_pending_lt (by assumption)

theorem fill_filled_lt {mp mp' : Multipart} {stream stream' : List Event}
    (h : mp.fill stream = (.ok true, mp', stream')) : stream'.length < stream.length := by
  induction mp, stream using fill.induct with
  | case1 mp stream mp₁ stream₁ hpoll ih =>
    rw [fill] at h
    split at h
    · next hpoll' =>
      rw [hpoll] at hpoll'
      cases hpoll'
      exact Nat.lt_trans (ih h) (pollFill_pending_lt hpoll)
    · next hpoll' =>
      rw [hpoll] at hpoll'
      cases hpoll'
  | case2 mp stream r mp₁ stream₁ hpoll =>
    rw [fill] at h
    split at h
    · next hpoll' =>
      rw [hpoll] at hpoll'
      cases hpoll'
    · next hpoll' =>
      cases h
      exact pollFill_filled_lt hpoll'

/-- A loop around `fill`: `step` is what it does before more bytes are needed, and `atEnd` the
    failure if there are none. -/
def fillLoop {α : Type} (step : Multipart → Multipart × Option (Except Failure α))
    (atEnd : State → Failure) (mp : Multipart) (stream : List Event) :
    Except Failure α × Multipart × List Event :=
  match step mp with
  | (mp, some r) => (r, mp, stream)
  | (mp, none) =>
    match _h : mp.fill stream with
    | (.ok true, mp, stream) => fillLoop step atEnd mp stream
    | (.ok false, mp, stream) =>
      let (f, mp) := mp.fail (atEnd mp.state)
      (.error f, mp, stream)
    | (.error f, mp, stream) => (.error f, mp, stream)
termination_by stream.length
decreasing_by exact fill_filled_lt (by assumption)

/-- A loop around `poll_fill`. -/
def pollLoop {α : Type} (step : Multipart → Multipart × Option (Except Failure α))
    (atEnd : State → Failure) (mp : Multipart) (stream : List Event) :
    Poll (Except Failure α) × Multipart × List Event :=
  match step mp with
  | (mp, some r) => (.ready r, mp, stream)
  | (mp, none) =>
    match _h : mp.pollFill stream with
    | (.pending, mp, stream) => (.pending, mp, stream)
    | (.ready (.ok true), mp, stream) => pollLoop step atEnd mp stream
    | (.ready (.ok false), mp, stream) =>
      let (f, mp) := mp.fail (atEnd mp.state)
      (.ready (.error f), mp, stream)
    | (.ready (.error f), mp, stream) => (.ready (.error f), mp, stream)
termination_by stream.length
decreasing_by exact pollFill_filled_lt (by assumption)

/-- **Rule for `pollLoop`.** `I` holds before a step, and `J` where more bytes are needed. -/
theorem pollLoop_rule {α : Type} {step : Multipart → Multipart × Option (Except Failure α)}
    {atEnd : State → Failure} {I J : Multipart → List Event → Prop}
    {Q : Poll (Except Failure α) → Multipart → List Event → Prop}
    (hdone : ∀ mp stream mp' r, I mp stream → step mp = (mp', some r) → Q (.ready r) mp' stream)
    (hmore : ∀ mp stream mp', I mp stream → step mp = (mp', none) → J mp' stream)
    (hpending : ∀ mp stream mp' stream', J mp stream →
      mp.pollFill stream = (.pending, mp', stream') → Q .pending mp' stream')
    (hfilled : ∀ mp stream mp' stream', J mp stream →
      mp.pollFill stream = (.ready (.ok true), mp', stream') → I mp' stream')
    (hended : ∀ mp stream mp' stream', J mp stream →
      mp.pollFill stream = (.ready (.ok false), mp', stream') →
      Q (.ready (.error (mp'.fail (atEnd mp'.state)).1)) (mp'.fail (atEnd mp'.state)).2 stream')
    (hfailed : ∀ mp stream mp' stream' f, J mp stream →
      mp.pollFill stream = (.ready (.error f), mp', stream') → Q (.ready (.error f)) mp' stream')
    {mp : Multipart} {stream : List Event} (h : I mp stream) :
    Q (mp.pollLoop step atEnd stream).1 (mp.pollLoop step atEnd stream).2.1
      (mp.pollLoop step atEnd stream).2.2 := by
  induction hn : stream.length using Nat.strong_induction_on generalizing mp stream with
  | _ n ih =>
    rw [pollLoop]
    split
    · next mp₁ r hstep => exact hdone mp stream mp₁ r h hstep
    · next mp₁ hstep =>
      have hJ := hmore mp stream mp₁ h hstep
      split
      · next hpoll => exact hpending _ _ _ _ hJ hpoll
      · next hpoll =>
        exact ih _ (hn ▸ pollFill_filled_lt hpoll) (hfilled _ _ _ _ hJ hpoll) rfl
      · next hpoll => exact hended _ _ _ _ hJ hpoll
      · next hpoll => exact hfailed _ _ _ _ _ hJ hpoll

/-- **Rule for `fillLoop`.** -/
theorem fillLoop_rule {α : Type} {step : Multipart → Multipart × Option (Except Failure α)}
    {atEnd : State → Failure} {I J : Multipart → List Event → Prop}
    {Q : Except Failure α → Multipart → List Event → Prop}
    (hdone : ∀ mp stream mp' r, I mp stream → step mp = (mp', some r) → Q r mp' stream)
    (hmore : ∀ mp stream mp', I mp stream → step mp = (mp', none) → J mp' stream)
    (hfilled : ∀ mp stream mp' stream', J mp stream →
      mp.fill stream = (.ok true, mp', stream') → I mp' stream')
    (hended : ∀ mp stream mp' stream', J mp stream → mp.fill stream = (.ok false, mp', stream') →
      Q (.error (mp'.fail (atEnd mp'.state)).1) (mp'.fail (atEnd mp'.state)).2 stream')
    (hfailed : ∀ mp stream mp' stream' f, J mp stream →
      mp.fill stream = (.error f, mp', stream') → Q (.error f) mp' stream')
    {mp : Multipart} {stream : List Event} (h : I mp stream) :
    Q (mp.fillLoop step atEnd stream).1 (mp.fillLoop step atEnd stream).2.1
      (mp.fillLoop step atEnd stream).2.2 := by
  induction hn : stream.length using Nat.strong_induction_on generalizing mp stream with
  | _ n ih =>
    rw [fillLoop]
    split
    · next mp₁ r hstep => exact hdone mp stream mp₁ r h hstep
    · next mp₁ hstep =>
      have hJ := hmore mp stream mp₁ h hstep
      split
      · next hfill => exact ih _ (hn ▸ fill_filled_lt hfill) (hfilled _ _ _ _ hJ hfill) rfl
      · next hfill => exact hended _ _ _ _ hJ hfill
      · next hfill => exact hfailed _ _ _ _ _ hJ hfill

/-- `next_delim`, with the search cache. -/
def nextDelim (mp : Multipart) : Option Nat × Multipart :=
  match find mp.buf mp.delim (max mp.cleanUntil mp.pos) with
  | some i => (some i, { mp with cleanUntil := i })
  | none =>
    (none, { mp with cleanUntil := max (mp.buf.length - (mp.delim.length - 1)) mp.pos })

/-- A failure of a step. -/
def failStep {α : Type} (mp : Multipart) (f : Failure) : Multipart × Option (Except Failure α) :=
  let (f, mp) := mp.fail f
  (mp, some (.error f))

/-! ## Parts -/

/-- The loop of `part_headers`: where the header block starts and where it ends. -/
def headStep (mp : Multipart) : Multipart × Option (Except Failure (Nat × Nat)) :=
  let lwsp := ((mp.buf.drop mp.pos).takeWhile fun b => b == 32 || b == 9).length
  let line := mp.pos + lwsp
  let complete := line + 2 ≤ mp.buf.length
  if complete ∧ (mp.buf.drop line).take 2 ≠ crlf then
    mp.failStep (.malformed "malformed delimiter line")
  else
    match if complete then find mp.buf (crlf ++ crlf) line else none with
    | some i => (mp, some (.ok (line + 2, i)))
    | none =>
      if headerCap < mp.buf.length - mp.pos then
        mp.failStep (.malformed "part headers too long")
      else (mp, none)

/-- `part_headers`. -/
def partHeaders (mp : Multipart) (stream : List Event) :
    Except Failure PartHead × Multipart × List Event :=
  match mp.fillLoop headStep (fun _ => .truncated) stream with
  | (.error f, mp, stream) => (.error f, mp, stream)
  | (.ok (start, stop), mp, stream) =>
    match fromUtf8 ((mp.buf.take stop).drop (min start stop)) with
    | none =>
      let (f, mp) := mp.fail (.malformed "part headers are not UTF-8")
      (.error f, mp, stream)
    | some text =>
      match parseHead text.toList with
      | (_, false) =>
        let (f, mp) := mp.fail (.malformed "a part has no `name`")
        (.error f, mp, stream)
      | (head, true) =>
        (.ok head, { mp with pos := stop + 4, cleanUntil := stop + 4, state := .inPart }, stream)

/-- `next_part` before the first delimiter, or in a part that was not read: on to a delimiter. -/
def skipStep (mp : Multipart) : Multipart × Option (Except Failure Unit) :=
  match mp.nextDelim with
  | (some i, mp) =>
    ({ mp with pos := i + mp.delim.length, state := .afterDelimiter }, some (.ok ()))
  | (none, mp) => ({ mp with pos := mp.cleanUntil }, none)

/-- The failure of `next_part` where no delimiter comes. -/
def noDelim : State → Failure
  | .preamble => .malformed "the body does not contain its boundary"
  | _ => .truncated

/-- `next_part` behind a delimiter: whether it closes the body. -/
def afterStep (mp : Multipart) : Multipart × Option (Except Failure Bool) :=
  if mp.buf.length - mp.pos < 2 then (mp, none)
  else if dashes <+: mp.buf.drop mp.pos then ({ mp with state := .closed }, some (.ok true))
  else (mp, some (.ok false))

def afterDelim (mp : Multipart) (stream : List Event) :
    Except Failure (Option PartHead) × Multipart × List Event :=
  match mp.fillLoop afterStep (fun _ => .truncated) stream with
  | (.error f, mp, stream) => (.error f, mp, stream)
  | (.ok true, mp, stream) => (.ok none, mp, stream)
  | (.ok false, mp, stream) =>
    match mp.partHeaders stream with
    | (.error f, mp, stream) => (.error f, mp, stream)
    | (.ok head, mp, stream) => (.ok (some head), mp, stream)

/-- `next_part`. -/
def nextPart (mp : Multipart) (stream : List Event) :
    Except Failure (Option PartHead) × Multipart × List Event :=
  match mp.state with
  | .closed => (.ok none, mp, stream)
  | .afterDelimiter => mp.afterDelim stream
  | .preamble | .inPart =>
    match mp.fillLoop skipStep noDelim stream with
    | (.error f, mp, stream) => (.error f, mp, stream)
    | (.ok (), mp, stream) => mp.afterDelim stream

/-- The loop of `poll_part_data`, into `out` bytes. -/
def partStep (out : Nat) (mp : Multipart) : Multipart × Option (Except Failure (List UInt8)) :=
  let (found, mp) := mp.nextDelim
  if found = some mp.pos then
    ({ mp with
        pos := mp.pos + mp.delim.length
        cleanUntil := mp.pos + mp.delim.length
        state := .afterDelimiter }, some (.ok []))
  else
    let avail := found.getD mp.cleanUntil - mp.pos
    if 0 < avail then
      let n := min avail out
      ({ mp with pos := mp.pos + n }, some (.ok ((mp.buf.drop mp.pos).take n)))
    else (mp, none)

/-- `poll_part_data`. -/
def pollPartData (mp : Multipart) (stream : List Event) (out : Nat) :
    Poll (Except Failure (List UInt8)) × Multipart × List Event :=
  if mp.state ≠ .inPart then (.ready (.ok []), mp, stream)
  else mp.pollLoop (partStep out) (fun _ => .truncated) stream

/-- `peek`, of at most `n` bytes. -/
def peekStep (n : Nat) (mp : Multipart) : Multipart × Option (Except Failure (List UInt8)) :=
  if mp.state ≠ .inPart then (mp, some (.ok []))
  else
    match find mp.buf mp.delim mp.pos with
    | some i => (mp, some (.ok ((mp.buf.take (min i (mp.pos + n))).drop mp.pos)))
    | none =>
      if n + mp.delim.length - 1 ≤ mp.buf.length - mp.pos then
        (mp, some (.ok ((mp.buf.drop mp.pos).take n)))
      else (mp, none)

/-- `peek`. -/
def peek (mp : Multipart) (stream : List Event) (n : Nat) :
    Except Failure (List UInt8) × Multipart × List Event :=
  mp.fillLoop (peekStep n) (fun _ => .truncated) stream

/-- `poll_file` behind the file: the body has to close. -/
def closeStep (mp : Multipart) : Multipart × Option (Except Failure (List UInt8)) :=
  if 2 ≤ mp.buf.length - mp.pos then
    if dashes <+: mp.buf.drop mp.pos then ({ mp with state := .closed }, some (.ok []))
    else mp.failStep .fieldAfterFile
  else (mp, none)

def pollClose (mp : Multipart) (stream : List Event) :
    Poll (Except Failure (List UInt8)) × Multipart × List Event :=
  mp.pollLoop closeStep (fun _ => .truncated) stream

/-- `poll_file`. -/
def pollFile (mp : Multipart) (stream : List Event) (out : Nat) :
    Poll (Except Failure (List UInt8)) × Multipart × List Event :=
  match mp.state with
  | .closed => (.ready (.ok []), mp, stream)
  | .inPart =>
    match mp.pollPartData stream out with
    | (.ready (.ok []), mp, stream) => mp.pollClose stream
    | other => other
  | .afterDelimiter => mp.pollClose stream
  | .preamble =>
    let (f, mp) := mp.fail (.malformed "no part is open")
    (.ready (.error f), mp, stream)

/-! ## A part read whole -/

/-- The bytes that frames still bring. -/
def frameBytes : List Event → Nat
  | [] => 0
  | .frame bytes :: stream => bytes.length + frameBytes stream
  | _ :: stream => frameBytes stream

/-- The bytes that can still be copied out. -/
def left (mp : Multipart) (stream : List Event) : Nat :=
  mp.buf.length - mp.pos + frameBytes stream

theorem pollFill_left_le {mp mp' : Multipart} {stream stream' : List Event}
    {r : Poll (Except Failure Bool)} (h : mp.pollFill stream = (r, mp', stream')) :
    mp'.left stream' ≤ mp.left stream := by
  unfold pollFill at h
  split at h
  · cases h
    exact Nat.le_refl _
  split at h
  · cases h
    exact Nat.le_refl _
  split at h
  · cases h
    exact Nat.le_refl _
  · cases h
    exact Nat.le_refl _
  · cases h
    exact Nat.le_refl _
  · dsimp only at h
    split at h
    · cases h
      show mp.buf.length - mp.pos + frameBytes _ ≤ mp.buf.length - mp.pos + (_ + frameBytes _)
      omega
    · cases h
      simp only [left, frameBytes, compact]
      split <;> simp <;> omega

theorem nextDelim_eq (mp : Multipart) :
    ∃ found cleanUntil, mp.nextDelim = (found, { mp with cleanUntil := cleanUntil }) := by
  rw [nextDelim]
  split
  · exact ⟨_, _, rfl⟩
  · exact ⟨_, _, rfl⟩

/-- A copy takes what it copies from what is left. -/
theorem partStep_left {mp mp' : Multipart} {out : Nat} {r : Option (Except Failure (List UInt8))}
    (h : partStep out mp = (mp', r)) (stream : List Event) :
    mp'.left stream ≤ mp.left stream ∧
      ∀ bytes, r = some (.ok bytes) → mp'.left stream + bytes.length ≤ mp.left stream := by
  obtain ⟨found, cleanUntil, hnext⟩ := nextDelim_eq mp
  rw [partStep, hnext] at h
  dsimp only at h
  simp only [left]
  split at h
  · cases h
    refine ⟨by dsimp only; omega, ?_⟩
    intro bytes hbytes
    cases hbytes
    simp only [List.length_nil]
    omega
  · split at h
    · cases h
      refine ⟨by dsimp only; omega, ?_⟩
      intro bytes hbytes
      cases hbytes
      simp only [List.length_take, List.length_drop]
      omega
    · cases h
      refine ⟨Nat.le_refl _, ?_⟩
      intro bytes hbytes
      cases hbytes

/-- What a poll of a part leaves. -/
structure LeavesLess (mp : Multipart) (stream : List Event)
    (r : Poll (Except Failure (List UInt8))) (mp' : Multipart) (stream' : List Event) : Prop where
  pending : r = .pending → stream'.length < stream.length
  le : mp'.left stream' ≤ mp.left stream
  copied : ∀ bytes, r = .ready (.ok bytes) → mp'.left stream' + bytes.length ≤ mp.left stream

theorem pollPartData_leavesLess (mp : Multipart) (stream : List Event) (out : Nat) :
    LeavesLess mp stream (mp.pollPartData stream out).1 (mp.pollPartData stream out).2.1
      (mp.pollPartData stream out).2.2 := by
  rw [pollPartData]
  split
  · refine ⟨fun h => ?_, Nat.le_refl _, fun bytes h => ?_⟩
    · cases h
    · cases h
      exact Nat.le_refl _
  · apply pollLoop_rule (I := fun mp' s => s.length ≤ stream.length ∧ mp'.left s ≤ mp.left stream)
      (J := fun mp' s => s.length ≤ stream.length ∧ mp'.left s ≤ mp.left stream)
      (Q := LeavesLess mp stream)
    · rintro mp₁ s mp₂ r ⟨-, hleft⟩ hstep
      have hcopy := partStep_left hstep s
      refine ⟨fun h => ?_, Nat.le_trans hcopy.1 hleft, fun bytes h => ?_⟩
      · cases h
      · cases h
        exact Nat.le_trans (hcopy.2 bytes rfl) hleft
    · rintro mp₁ s mp₂ ⟨hlen, hleft⟩ hstep
      exact ⟨hlen, Nat.le_trans (partStep_left hstep s).1 hleft⟩
    · rintro mp₁ s mp₂ s' ⟨hlen, hleft⟩ hpoll
      refine ⟨fun _ => Nat.lt_of_lt_of_le (pollFill_pending_lt hpoll) hlen,
        Nat.le_trans (pollFill_left_le hpoll) hleft, fun bytes h => ?_⟩
      cases h
    · rintro mp₁ s mp₂ s' ⟨hlen, hleft⟩ hpoll
      exact ⟨Nat.le_trans (Nat.le_of_lt (pollFill_filled_lt hpoll)) hlen,
        Nat.le_trans (pollFill_left_le hpoll) hleft⟩
    · rintro mp₁ s mp₂ s' ⟨-, hleft⟩ hpoll
      have hle : mp₂.left s' ≤ mp₁.left s := pollFill_left_le hpoll
      refine ⟨fun h => ?_, Nat.le_trans hle hleft, fun bytes h => ?_⟩
      · cases h
      · cases h
    · rintro mp₁ s mp₂ s' f ⟨-, hleft⟩ hpoll
      refine ⟨fun h => ?_, Nat.le_trans (pollFill_left_le hpoll) hleft, fun bytes h => ?_⟩
      · cases h
      · cases h
    · exact ⟨Nat.le_refl _, Nat.le_refl _⟩

theorem pollPartData_pending_lt {mp mp' : Multipart} {stream stream' : List Event} {out : Nat}
    (h : mp.pollPartData stream out = (.pending, mp', stream')) :
    stream'.length < stream.length := by
  have hless := pollPartData_leavesLess mp stream out
  rw [h] at hless
  exact hless.pending rfl

/-- `poll_part_data`, awaited. -/
def partData (mp : Multipart) (stream : List Event) (out : Nat) :
    Except Failure (List UInt8) × Multipart × List Event :=
  match _h : mp.pollPartData stream out with
  | (.pending, mp, stream) => partData mp stream out
  | (.ready r, mp, stream) => (r, mp, stream)
termination_by stream.length
decreasing_by exact pollPartData_pending_lt (by assumption)

theorem partData_left {mp mp' : Multipart} {stream stream' : List Event} {out : Nat}
    {bytes : List UInt8} (h : mp.partData stream out = (.ok bytes, mp', stream')) :
    mp'.left stream' + bytes.length ≤ mp.left stream := by
  induction hn : stream.length using Nat.strong_induction_on generalizing mp stream with
  | _ n ih =>
    have hless := pollPartData_leavesLess mp stream out
    rw [partData] at h
    split at h
    · next hpoll =>
      rw [hpoll] at hless
      exact Nat.le_trans (ih _ (hn ▸ hless.pending rfl) h rfl) hless.le
    · next hpoll =>
      cases h
      rw [hpoll] at hless
      exact hless.copied bytes rfl

/-- The loop of `read_part`, with what is read in `out`. The scratch space has 64 KiB. -/
def readInto (mp : Multipart) (stream : List Event) (cap : Nat) (out : List UInt8) :
    Except ReadPartError (List UInt8) × Multipart × List Event :=
  match _h : mp.partData stream (64 * 1024) with
  | (.error f, mp, stream) => (.error (.failed f), mp, stream)
  | (.ok [], mp, stream) => (.ok out, mp, stream)
  | (.ok (b :: bytes), mp, stream) =>
    if cap < out.length + (b :: bytes).length then (.error .aboveCap, mp, stream)
    else readInto mp stream cap (out ++ b :: bytes)
termination_by mp.left stream
decreasing_by
  have hleft := partData_left _h
  rw [List.length_cons] at hleft
  omega

/-- `read_part`. -/
def readPart (mp : Multipart) (stream : List Event) (cap : Nat) :
    Except ReadPartError (List UInt8) × Multipart × List Event :=
  mp.readInto stream cap []

end Multipart

end CirisServer
