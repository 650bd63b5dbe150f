import CirisServer.ForStd.Outputs
import CirisServer.Native.Radio

/-!
# What one radio sends, another receives

The deframer holds one frame at most, the one it is in, and hands it on at the next `FEND`. Counting
that frame with those that are handed on, decoding is a queue: from any state, and however the line
is cut into reads, the frames of a line that was written are the frames that were sent, in order.

## Key results

- `push_written`: a write, whole or cut off, in front of a decoder in any state
- `push_lines`: the same of any number of writes
- `turns_fifo`: payloads leave the driver in the order they were decoded, and none is lost
- `received_of_sent`: what is received is what was sent, between what noise left behind and what a
  failing port cut off
-/

namespace CirisServer.Radio

namespace KissDecoder

variable (d : KissDecoder)

/-- The frame the decoder is in, as the next `FEND` hands it on. -/
def held : List Frame :=
  match d.inFrame, d.command with
  | true, some command => [(command, d.buffer)]
  | _, _ => []

/-- The decoder is in a frame of `command`, and `got` of its payload has come. -/
structure Holds (command : UInt8) (got : List UInt8) : Prop where
  inFrame : d.inFrame = true
  command : d.command = some command
  buffer : d.buffer = got.take d.maxPayload

variable {d}

theorem Holds.held {command : UInt8} {got : List UInt8} (h : d.Holds command got) :
    d.held = [(command, got.take d.maxPayload)] := by
  simp only [KissDecoder.held, h.inFrame, h.command, h.buffer]

@[simp] theorem held_new (maxPayload : Nat) : (new maxPayload).held = [] := rfl

@[simp] theorem held_opened (maxPayload : Nat) : (opened maxPayload).held = [] := rfl

@[simp] theorem maxPayload_opened (maxPayload : Nat) :
    (opened maxPayload).maxPayload = maxPayload := rfl

/-! ## One byte -/

@[simp] theorem maxPayload_store (byte : UInt8) : (d.store byte).maxPayload = d.maxPayload := by
  unfold store
  split <;> rfl

@[simp] theorem escapeNext_store (byte : UInt8) : (d.store byte).escapeNext = d.escapeNext := by
  unfold store
  split <;> rfl

/-- What is stored is the payload up to the cap, also once it is full. -/
theorem Holds.store {command : UInt8} {got : List UInt8} (h : d.Holds command got) (byte : UInt8) :
    (d.store byte).Holds command (got ++ [byte]) := by
  have hbuf := h.buffer
  unfold KissDecoder.store
  split
  next hroom =>
    -- below the cap the whole of `got` is there
    have hlen : got.length < d.maxPayload := by
      rw [hbuf, List.length_take] at hroom
      omega
    refine ⟨h.inFrame, h.command, ?_⟩
    show d.buffer ++ [byte] = (got ++ [byte]).take d.maxPayload
    rw [hbuf, List.take_of_length_le (by omega : got.length ≤ d.maxPayload)]
    rw [List.take_of_length_le (by simp; omega)]
  next hfull =>
    have hlen : d.maxPayload ≤ got.length := by
      rw [hbuf, List.length_take] at hfull
      omega
    refine ⟨h.inFrame, h.command, ?_⟩
    rw [hbuf, List.take_append_of_le_length hlen]

/-- The flag of an escape says nothing of what has come. -/
theorem Holds.escape {command : UInt8} {got : List UInt8} (h : d.Holds command got) (flag : Bool) :
    ({ d with escapeNext := flag } : KissDecoder).Holds command got :=
  ⟨h.inFrame, h.command, h.buffer⟩

/-- A `FEND` hands on what is held, in any state. -/
theorem pushByte_fend : d.pushByte fend = (opened d.maxPayload, d.held.head?) := by
  unfold pushByte KissDecoder.held
  rw [if_pos rfl]
  cases d.inFrame with
  | false => rfl
  | true =>
    cases d.command with
    | none => rfl
    | some command => rfl

theorem pushByte_maxPayload (byte : UInt8) : (d.pushByte byte).1.maxPayload = d.maxPayload := by
  unfold pushByte
  split
  · split <;> rfl
  · split
    · split
      · rfl
      · split
        · simp
        · split
          · rfl
          · simp
    · rfl

/-- The first byte of a frame is its command. -/
theorem pushByte_command (maxPayload : Nat) {command : UInt8} (h : command ≠ fend) :
    (opened maxPayload).pushByte command =
      ({ opened maxPayload with command := some command }, none) := by
  simp [pushByte, h, opened, new]

/-! ## Any bytes -/

@[simp] theorem push_nil : d.push [] = (d, []) := rfl

theorem push_cons (byte : UInt8) (data : List UInt8) :
    d.push (byte :: data) =
      (((d.pushByte byte).1.push data).1,
        (d.pushByte byte).2.toList ++ ((d.pushByte byte).1.push data).2) := rfl

theorem push_append (data more : List UInt8) :
    d.push (data ++ more) =
      (((d.push data).1.push more).1, (d.push data).2 ++ ((d.push data).1.push more).2) := by
  induction data generalizing d with
  | nil => rfl
  | cons byte data ih =>
    rw [List.cons_append, push_cons, ih, push_cons]
    simp only [List.append_assoc]

@[simp] theorem push_maxPayload (data : List UInt8) :
    (d.push data).1.maxPayload = d.maxPayload := by
  induction data generalizing d with
  | nil => rfl
  | cons byte data ih => rw [push_cons, ih, pushByte_maxPayload]

/-! ## A payload -/

/-- An escaped byte is one byte of payload. -/
theorem push_escaped {command : UInt8} {got : List UInt8} (h : d.Holds command got)
    (hesc : d.escapeNext = false) (byte : UInt8) :
    (d.push (escaped byte)).2 = [] ∧ (d.push (escaped byte)).1.Holds command (got ++ [byte]) ∧
      (d.push (escaped byte)).1.escapeNext = false := by
  have hin := h.inFrame
  have hcmd := h.command
  unfold escaped
  split
  next hfend =>
    subst hfend
    -- `FESC` sets the flag, and `TFEND` after it is stored as `FEND`
    have hpush : d.push [fesc, tfend] =
        (({ d with escapeNext := false } : KissDecoder).store fend, []) := by
      simp [push_cons, pushByte, hin, hcmd, hesc, fesc, tfend, fend, resolved]
    rw [hpush]
    exact ⟨rfl, (h.escape false).store fend, escapeNext_store fend⟩
  next hfend =>
    split
    next hfesc =>
      subst hfesc
      have hpush : d.push [fesc, tfesc] =
          (({ d with escapeNext := false } : KissDecoder).store fesc, []) := by
        simp [push_cons, pushByte, hin, hcmd, hesc, fesc, tfesc, fend, tfend, resolved]
      rw [hpush]
      exact ⟨rfl, (h.escape false).store fesc, escapeNext_store fesc⟩
    next hfesc =>
      have hpush : d.push [byte] = (d.store byte, []) := by
        simp [push_cons, pushByte, hin, hcmd, hesc, hfend, hfesc]
      rw [hpush]
      exact ⟨rfl, h.store byte, (escapeNext_store byte).trans hesc⟩

/-- Half an escape leaves the payload as it was. -/
theorem push_fesc {command : UInt8} {got : List UInt8} (h : d.Holds command got)
    (hesc : d.escapeNext = false) :
    (d.push [fesc]).2 = [] ∧ (d.push [fesc]).1.Holds command got := by
  have hpush : d.push [fesc] = ({ d with escapeNext := true }, []) := by
    simp [push_cons, pushByte, h.inFrame, h.command, hesc, fesc, fend]
  rw [hpush]
  exact ⟨rfl, h.escape true⟩

end KissDecoder

/-- How many bytes of `payload` are whole in the first `n` bytes of what is written of it. -/
def wholeBytes : List UInt8 → Nat → Nat
  | [], _ => 0
  | byte :: payload, n =>
    if (escaped byte).length ≤ n then wholeBytes payload (n - (escaped byte).length) + 1 else 0

theorem escaped_length_pos (byte : UInt8) : 0 < (escaped byte).length := by
  unfold escaped
  split
  · decide
  · split <;> simp

/-- Where a byte is cut in two, it is an escape that is. -/
theorem escaped_take {byte : UInt8} {n : Nat} (h : n < (escaped byte).length) :
    (escaped byte).take n = [] ∨ (escaped byte).take n = [fesc] := by
  have hcases : n = 0 ∨ n = 1 := by
    have hle : (escaped byte).length ≤ 2 := by
      unfold escaped
      split
      · decide
      · split <;> simp
    omega
  cases hcases with
  | inl hzero => exact Or.inl (by rw [hzero]; rfl)
  | inr hone =>
    subst hone
    refine Or.inr ?_
    revert h
    unfold escaped
    split
    · exact fun _ => rfl
    · split
      · exact fun _ => rfl
      · simp

theorem wholeBytes_of_le {payload : List UInt8} {n : Nat}
    (h : (payload.flatMap escaped).length ≤ n) : wholeBytes payload n = payload.length := by
  induction payload generalizing n with
  | nil => rfl
  | cons byte payload ih =>
    rw [List.flatMap_cons, List.length_append] at h
    rw [wholeBytes, if_pos (by omega), ih (by omega), List.length_cons]

namespace KissDecoder

variable {d : KissDecoder}

/-- However much of a payload comes, the decoder holds the bytes that came whole. -/
theorem push_payload {command : UInt8} {got : List UInt8} (payload : List UInt8)
    (h : d.Holds command got) (hesc : d.escapeNext = false) (n : Nat) :
    (d.push ((payload.flatMap escaped).take n)).2 = [] ∧
      (d.push ((payload.flatMap escaped).take n)).1.Holds command
        (got ++ payload.take (wholeBytes payload n)) := by
  induction payload generalizing d got n with
  | nil => simpa using h
  | cons byte payload ih =>
    rw [List.flatMap_cons, List.take_append]
    by_cases hwhole : (escaped byte).length ≤ n
    · have hbyte := push_escaped h hesc byte
      have hrest := ih hbyte.2.1 hbyte.2.2 (n - (escaped byte).length)
      rw [List.take_of_length_le hwhole, push_append, wholeBytes, if_pos hwhole, hbyte.1,
        List.take_succ_cons]
      rw [List.append_assoc] at hrest
      exact hrest
    · -- the cut is in this byte, and nothing comes after it
      have hnone : (payload.flatMap escaped).take (n - (escaped byte).length) = [] := by
        rw [show n - (escaped byte).length = 0 by omega, List.take_zero]
      rw [hnone, List.append_nil, wholeBytes, if_neg hwhole, List.take_zero, List.append_nil]
      cases escaped_take (Nat.lt_of_not_le hwhole) with
      | inl hempty =>
        rw [hempty]
        exact ⟨rfl, h⟩
      | inr hfesc =>
        rw [hfesc]
        exact push_fesc h hesc

/-! ## A line -/

/-- The frame the first `n` bytes of an encoded frame come to. -/
def cutFrame (maxPayload : Nat) (command : UInt8) (payload : List UInt8) (n : Nat) : List Frame :=
  if n < 2 then []
  else [(command, (payload.take (wholeBytes payload (n - 2))).take maxPayload)]

/-- **A cut frame.** Whatever state it is in, the decoder hands on what it held, and then holds or
    hands on the frame that is written, as far as it is written. -/
theorem push_take_encode {command : UInt8} (hcmd : command ≠ fend) (payload : List UInt8)
    (n : Nat) :
    (d.push ((kissEncode command payload).take n)).2 ++
        (d.push ((kissEncode command payload).take n)).1.held =
      d.held ++ cutFrame d.maxPayload command payload n := by
  have hheld : d.held.head?.toList = d.held := by
    unfold KissDecoder.held
    split <;> rfl
  match n with
  | 0 => simp [cutFrame]
  | 1 => simp [kissEncode, push_cons, pushByte_fend, cutFrame, hheld]
  | n + 2 =>
    let inside : KissDecoder := { opened d.maxPayload with command := some command }
    have hin : inside.Holds command [] := ⟨rfl, rfl, List.take_nil.symm⟩
    have hpayload := push_payload payload hin rfl n
    rw [List.nil_append] at hpayload
    have hmax : (inside.push ((payload.flatMap escaped).take n)).1.maxPayload = d.maxPayload :=
      push_maxPayload _
    have hholds := hpayload.2.held
    rw [hmax] at hholds
    have hlead : d.push ((kissEncode command payload).take (n + 2)) =
        ((inside.push ((payload.flatMap escaped ++ [fend]).take n)).1,
          d.held ++ (inside.push ((payload.flatMap escaped ++ [fend]).take n)).2) := by
      simp only [kissEncode, List.take_succ_cons, push_cons, pushByte_fend, hheld,
        pushByte_command d.maxPayload hcmd, Option.toList_none, List.nil_append, inside]
    rw [hlead, List.append_assoc, cutFrame, if_neg (by omega), Nat.add_sub_cancel]
    congr 1
    by_cases hclosed : (payload.flatMap escaped).length < n
    · -- the closing `FEND` hands the whole frame on
      have hall : (payload.flatMap escaped).take n = payload.flatMap escaped :=
        List.take_of_length_le (by omega)
      have hend : (payload.flatMap escaped ++ [fend]).take n =
          (payload.flatMap escaped).take n ++ [fend] := by
        rw [hall, List.take_of_length_le (by rw [List.length_append]; exact hclosed)]
      rw [hend, push_append, hpayload.1, push_cons, pushByte_fend, hholds]
      rfl
    · rw [List.take_append_of_le_length (by omega), hpayload.1, hholds]
      rfl

end KissDecoder

/-- A frame that is written, and what the port does with it. -/
structure Write where
  command : UInt8
  payload : List UInt8
  port : PortWrite

namespace Write

/-- What it puts on the line. -/
def line (w : Write) : List UInt8 := (writeKiss w.command w.payload w.port).1

/-- The frame it comes to at a receiver that holds payloads of `maxPayload` bytes. -/
def arrives (maxPayload : Nat) (w : Write) : List Frame :=
  match w.port with
  | .done | .flushFailed _ => [(w.command, w.payload.take maxPayload)]
  | .cut written _ => KissDecoder.cutFrame maxPayload w.command w.payload written

end Write

namespace KissDecoder

variable {d : KissDecoder}

/-- An encoded frame, whole. -/
theorem push_kissEncode {command : UInt8} (hcmd : command ≠ fend) (payload : List UInt8) :
    (d.push (kissEncode command payload)).2 ++ (d.push (kissEncode command payload)).1.held =
      d.held ++ [(command, payload.take d.maxPayload)] := by
  have hcut := push_take_encode (d := d) hcmd payload (kissEncode command payload).length
  have hlen : (kissEncode command payload).length - 2 = (payload.flatMap escaped).length + 1 := by
    simp [kissEncode]
  rw [List.take_length, cutFrame, if_neg (by simp [kissEncode]), hlen,
    wholeBytes_of_le (by omega), List.take_length] at hcut
  exact hcut

/-- **A write.** Its frame joins the queue of what the decoder hands on and what it holds. -/
theorem push_written {w : Write} (hcmd : w.command ≠ fend) :
    (d.push w.line).2 ++ (d.push w.line).1.held = d.held ++ w.arrives d.maxPayload := by
  unfold Write.line Write.arrives
  cases w.port with
  | done => exact push_kissEncode hcmd w.payload
  | flushFailed text => exact push_kissEncode hcmd w.payload
  | cut written text => exact push_take_encode hcmd w.payload written

/-- **A line.** The frames of all its writes, in order. -/
theorem push_lines {ws : List Write} (hcmd : ∀ w ∈ ws, w.command ≠ fend) :
    (d.push (ws.flatMap Write.line)).2 ++ (d.push (ws.flatMap Write.line)).1.held =
      d.held ++ ws.flatMap (Write.arrives d.maxPayload) := by
  induction ws generalizing d with
  | nil => simp
  | cons w ws ih =>
    rw [List.forall_mem_cons] at hcmd
    have hfirst := push_written (d := d) hcmd.1
    have hrest := ih (d := (d.push w.line).1) hcmd.2
    rw [push_maxPayload] at hrest
    rw [List.flatMap_cons, push_append, List.append_assoc, hrest, ← List.append_assoc, hfirst,
      List.flatMap_cons, List.append_assoc]

end KissDecoder

/-! ## The driver -/

theorem dataPayloads_append (frames more : List Frame) :
    dataPayloads (frames ++ more) = dataPayloads frames ++ dataPayloads more :=
  List.filterMap_append

namespace SerialRNodeDriver

open Run

/-- The bytes the port gives up at a step. -/
def bytesRead (d : SerialRNodeDriver) : Event → List UInt8
  | .turn (.bytes bytes) => if d.listening && d.inner.pending.isEmpty then bytes else []
  | _ => []

/-- The payload a call of `recv_frame` returns at a step. -/
def returned (d : SerialRNodeDriver) (e : Event) : List (List UInt8) :=
  (d.answers e).filterMap fun
    | .received (.ok payload) => some payload
    | _ => none

/-- The payloads that complete at a step. -/
def decoded (d : SerialRNodeDriver) (e : Event) : List (List UInt8) :=
  dataPayloads (d.inner.decoder.push (d.bytesRead e)).2

/-- What a step does to the decoder and to the queue, whatever the port answers. -/
theorem step_spec (d : SerialRNodeDriver) (e : Event) :
    (d.step e).inner.decoder = (d.inner.decoder.push (d.bytesRead e)).1 ∧
      d.inner.pending ++ d.decoded e = d.returned e ++ (d.step e).inner.pending := by
  cases e with
  | recv =>
    refine ⟨rfl, ?_⟩
    cases hl : d.listening <;> simp [decoded, bytesRead, returned, answers, step, dataPayloads, hl]
  | dropped => exact ⟨rfl, List.append_nil _⟩
  | send bytes port => exact ⟨rfl, List.append_nil _⟩
  | turn port =>
    cases hl : d.listening with
    | false => cases port <;>
        simp [step, hl, decoded, bytesRead, returned, answers, dataPayloads]
    | true =>
      cases hp : d.inner.pending with
      | cons frame rest =>
        -- a payload that waits is returned, and the port is not asked
        cases port <;>
          simp [step, hl, hp, decoded, bytesRead, returned, answers, dataPayloads, recvTurn]
      | nil =>
        cases port with
        | bytes bytes =>
          cases hb : bytes.isEmpty with
          | true =>
            rw [List.isEmpty_iff] at hb
            simp [step, hl, hp, hb, decoded, bytesRead, returned, answers, dataPayloads, recvTurn,
              SerialInner.readOnce]
          | false =>
            simp [step, hl, hp, hb, decoded, bytesRead, returned, answers, recvTurn,
              SerialInner.readOnce]
        | timedOut => simp [step, hl, hp, decoded, bytesRead, returned, answers, dataPayloads,
            recvTurn, SerialInner.readOnce]
        | wouldBlock => simp [step, hl, hp, decoded, bytesRead, returned, answers, dataPayloads,
            recvTurn, SerialInner.readOnce]
        | failed text => simp [step, hl, hp, decoded, bytesRead, returned, answers, dataPayloads,
            recvTurn, SerialInner.readOnce]

/-- Reads that come in pieces decode as the bytes they make up. -/
theorem push_bytesRead (d : SerialRNodeDriver) (es : List Event) :
    (after step d es).inner.decoder = (d.inner.decoder.push (outputs step bytesRead d es)).1 ∧
      outputs step decoded d es =
        dataPayloads (d.inner.decoder.push (outputs step bytesRead d es)).2 := by
  induction es generalizing d with
  | nil => exact ⟨rfl, rfl⟩
  | cons e es ih =>
    have hnext := ih (d.step e)
    rw [(step_spec d e).1] at hnext
    simp only [outputs_cons, after_cons, KissDecoder.push_append, dataPayloads_append]
    exact ⟨hnext.1, by rw [hnext.2]; rfl⟩

/-- **The driver's queue.** Over any turns, failures and dropped calls, what is returned and what
    still waits are the payloads the line decodes to, in order. -/
theorem turns_fifo (d : SerialRNodeDriver) (es : List Event) :
    d.inner.pending ++ dataPayloads (d.inner.decoder.push (outputs step bytesRead d es)).2 =
      outputs step returned d es ++ (after step d es).inner.pending := by
  rw [← (push_bytesRead d es).2]
  exact fifo (fun d : SerialRNodeDriver => d.inner.pending) fun d e => (step_spec d e).2

/-! ## Both ends of a line -/

/-- What a step puts on the line. -/
def written (_ : SerialRNodeDriver) : Event → List UInt8
  | .send bytes port => (sendFrame bytes port).1
  | _ => []

/-- The frame a step writes; one above the MTU is not written. -/
def writes : Event → List Write
  | .send bytes port => if bytes.length > rnodeHwMtu then [] else [⟨cmdData, bytes, port⟩]
  | _ => []

/-- The payload that reaches the other end: all of it, unless the port fails in the middle. -/
def arriving : Event → List (List UInt8)
  | .send bytes port =>
    if bytes.length > rnodeHwMtu then []
    else
      match port with
      | .done | .flushFailed _ => [bytes]
      | .cut n _ => if n < 2 then [] else [bytes.take (wholeBytes bytes (n - 2))]
  | _ => []

/-- A send that succeeds arrives whole. -/
theorem arriving_of_ok {bytes : List UInt8} {port : PortWrite}
    (h : (sendFrame bytes port).2 = .ok ()) : arriving (.send bytes port) = [bytes] := by
  unfold sendFrame at h
  split at h
  next => cases h
  next hfits =>
    cases port with
    | done => simp [arriving, hfits]
    | cut n text => cases h
    | flushFailed text => cases h

theorem written_eq (d : SerialRNodeDriver) (e : Event) :
    d.written e = (writes e).flatMap Write.line := by
  cases e with
  | send bytes port =>
    by_cases hbig : bytes.length > rnodeHwMtu
    · simp [written, sendFrame, writes, hbig]
    · simp [written, sendFrame, writes, hbig, Write.line]
  | recv => rfl
  | turn port => rfl
  | dropped => rfl

theorem arriving_eq (e : Event) :
    arriving e = dataPayloads ((writes e).flatMap (Write.arrives rnodeHwMtu)) := by
  cases e with
  | recv => rfl
  | turn port => rfl
  | dropped => rfl
  | send bytes port =>
    by_cases hbig : bytes.length > rnodeHwMtu
    · simp [arriving, writes, hbig, dataPayloads]
    · -- within the MTU nothing is cut at the receiver
      have htake : ∀ n, (bytes.take n).take rnodeHwMtu = bytes.take n := fun n =>
        List.take_of_length_le (by rw [List.length_take]; omega)
      have hwhole : bytes.take rnodeHwMtu = bytes := List.take_of_length_le (by omega)
      cases port with
      | done => simp [arriving, writes, hbig, Write.arrives, dataPayloads, hwhole]
      | flushFailed text => simp [arriving, writes, hbig, Write.arrives, dataPayloads, hwhole]
      | cut n text =>
        by_cases hn : n < 2
        · simp [arriving, writes, hbig, Write.arrives, dataPayloads, KissDecoder.cutFrame, hn]
        · simp [arriving, writes, hbig, Write.arrives, dataPayloads, KissDecoder.cutFrame, hn,
            htake]

theorem command_of_writes {e : Event} : ∀ w ∈ writes e, w.command ≠ fend := by
  cases e with
  | send bytes port =>
    by_cases hbig : bytes.length > rnodeHwMtu
    · simp [writes, hbig]
    · simp [writes, hbig, cmdData, fend]
  | recv => exact fun w hw => absurd hw List.not_mem_nil
  | turn port => exact fun w hw => absurd hw List.not_mem_nil
  | dropped => exact fun w hw => absurd hw List.not_mem_nil

/-- **What one radio sends, another receives.** A driver that reads `noise` and then what another
    wrote, in any pieces, returns what the noise came to, at most the one frame the noise left
    open, and then the payloads that were sent, in order: whole, but where the port failed. -/
theorem received_of_sent (sender : SerialRNodeDriver) (es fs : List Event) (noise : List UInt8)
    (hread : outputs step bytesRead opened fs = noise ++ outputs step written sender es) :
    outputs step returned opened fs ++ (after step opened fs).inner.pending ++
        dataPayloads (after step opened fs).inner.decoder.held =
      dataPayloads ((KissDecoder.new rnodeHwMtu).push noise).2 ++
        dataPayloads ((KissDecoder.new rnodeHwMtu).push noise).1.held ++ es.flatMap arriving := by
  have hline : outputs step written sender es = (es.flatMap writes).flatMap Write.line := by
    clear hread
    induction es generalizing sender with
    | nil => rfl
    | cons e es ih => rw [outputs_cons, ih, written_eq, List.flatMap_cons, List.flatMap_append]
  have harrive : es.flatMap arriving =
      dataPayloads ((es.flatMap writes).flatMap (Write.arrives rnodeHwMtu)) := by
    clear hread hline
    induction es with
    | nil => rfl
    | cons e es ih =>
      rw [List.flatMap_cons, List.flatMap_cons, List.flatMap_append, dataPayloads_append, ih,
        arriving_eq]
  have hcmd : ∀ w ∈ es.flatMap writes, w.command ≠ fend := by
    intro w hw
    obtain ⟨e, -, hw⟩ := List.mem_flatMap.mp hw
    exact command_of_writes w hw
  -- the noise leaves the decoder somewhere, and from there the line is decoded
  let start := (KissDecoder.new rnodeHwMtu).push noise
  have hmax : start.1.maxPayload = rnodeHwMtu := KissDecoder.push_maxPayload noise
  have hdecode := KissDecoder.push_lines (d := start.1) hcmd
  rw [hmax] at hdecode
  have hqueue := turns_fifo opened fs
  have hdecoder := (push_bytesRead opened fs).1
  rw [hread, hline] at hqueue hdecoder
  let line := (es.flatMap writes).flatMap Write.line
  have hpush := KissDecoder.push_append (d := KissDecoder.new rnodeHwMtu) noise line
  calc outputs step returned opened fs ++ (after step opened fs).inner.pending ++
        dataPayloads (after step opened fs).inner.decoder.held
      = dataPayloads ((KissDecoder.new rnodeHwMtu).push (noise ++ line)).2 ++
          dataPayloads ((KissDecoder.new rnodeHwMtu).push (noise ++ line)).1.held := by
        rw [← hqueue, hdecoder]
        rfl
    _ = dataPayloads (start.2 ++ ((start.1.push line).2 ++ (start.1.push line).1.held)) := by
        rw [← dataPayloads_append, hpush, List.append_assoc]
    _ = dataPayloads (start.2 ++ (start.1.held ++
          (es.flatMap writes).flatMap (Write.arrives rnodeHwMtu))) := by rw [hdecode]
    _ = dataPayloads start.2 ++ dataPayloads start.1.held ++ es.flatMap arriving := by
        rw [dataPayloads_append, dataPayloads_append, harrive, List.append_assoc]

/-- A frame is open on the line when the listener comes; `[0xC0]` is sent, cut off in its escape
    first, and then whole. -/
theorem received_of_sent_cut :
    outputs step returned opened
        [.recv, .turn (.bytes [fend, cmdData, 7]), .turn .timedOut,
          .turn (.bytes [fend, cmdData, fesc]), .turn .timedOut, .recv,
          .turn (.bytes [fend, cmdData, fesc, tfend, fend])] ++ [[], [0xC0]] ++ dataPayloads [] =
      dataPayloads [] ++ [[7]] ++ [[], [0xC0]] :=
  received_of_sent opened [.send [0xC0] (.cut 3 "gone"), .send [0xC0] .done]
    [.recv, .turn (.bytes [fend, cmdData, 7]), .turn .timedOut,
      .turn (.bytes [fend, cmdData, fesc]), .turn .timedOut, .recv,
      .turn (.bytes [fend, cmdData, fesc, tfend, fend])]
    [fend, cmdData, 7] (by decide)

end SerialRNodeDriver

end CirisServer.Radio
