/-!
# The serial radio

`src/radio.rs`: the KISS framing of an RNode on a serial line, and the driver that sends and
receives over it.

The driver's state moves only while its lock is held, and a call that is dropped is dropped at an
await, where it holds no lock. So a run is the list of the times the lock was held: a call of
`recv_frame` that takes the listener's place, one turn of its loop, its end by being dropped, and a
call of `send_frame`. What the port answers, to a read or to a write, comes with the event.
-/

namespace CirisServer

namespace Radio

/-! ## Wire constants -/

def fend : UInt8 := 0xC0
def fesc : UInt8 := 0xDB
def tfend : UInt8 := 0xDC
def tfesc : UInt8 := 0xDD

def cmdData : UInt8 := 0x00
def cmdFrequency : UInt8 := 0x01
def cmdBandwidth : UInt8 := 0x02
def cmdTxpower : UInt8 := 0x03
def cmdSf : UInt8 := 0x04
def cmdCr : UInt8 := 0x05
def cmdRadioState : UInt8 := 0x06

def radioStateOn : UInt8 := 0x01

/-- `RNODE_HW_MTU`. -/
def rnodeHwMtu : Nat := 508

/-! ## Encoding -/

/-- What one byte of a payload is written as. -/
def escaped (byte : UInt8) : List UInt8 :=
  if byte = fend then [fesc, tfend]
  else if byte = fesc then [fesc, tfesc]
  else [byte]

/-- `kiss_encode`. -/
def kissEncode (command : UInt8) (payload : List UInt8) : List UInt8 :=
  fend :: command :: (payload.flatMap escaped ++ [fend])

/-! ## Decoding -/

/-- A command and its payload. -/
abbrev Frame : Type := UInt8 × List UInt8

/-- The deframer. No payload above `maxPayload` can be held. -/
structure KissDecoder where
  inFrame : Bool
  escapeNext : Bool
  command : Option UInt8
  buffer : List UInt8
  maxPayload : Nat
  fits : buffer.length ≤ maxPayload
deriving DecidableEq

namespace KissDecoder

def new (maxPayload : Nat) : KissDecoder :=
  { inFrame := false, escapeNext := false, command := none, buffer := [], maxPayload,
    fits := Nat.zero_le _ }

/-- In a frame of which nothing has come. -/
def opened (maxPayload : Nat) : KissDecoder :=
  { new maxPayload with inFrame := true }

/-- A byte of the payload, if there is room. -/
def store (d : KissDecoder) (byte : UInt8) : KissDecoder :=
  if h : d.buffer.length < d.maxPayload then
    { d with
      buffer := d.buffer ++ [byte]
      fits := by rw [List.length_append]; exact h }
  else d

/-- What a byte after `FESC` stands for. -/
def resolved (byte : UInt8) : UInt8 :=
  if byte = tfend then fend
  else if byte = tfesc then fesc
  else byte

/-- `push_byte`. -/
def pushByte (d : KissDecoder) (byte : UInt8) : KissDecoder × Option Frame :=
  if byte = fend then
    match d.inFrame, d.command with
    | true, some command => (opened d.maxPayload, some (command, d.buffer))
    | _, _ => (opened d.maxPayload, none)
  else if d.inFrame then
    match d.command with
    | none => ({ d with command := some byte }, none)
    | some _ =>
      if d.escapeNext then (({ d with escapeNext := false }).store (resolved byte), none)
      else if byte = fesc then ({ d with escapeNext := true }, none)
      else (d.store byte, none)
  else (d, none)

/-- `push`: the frames that complete. -/
def push : KissDecoder → List UInt8 → KissDecoder × List Frame
  | d, [] => (d, [])
  | d, byte :: data =>
    let (d', frame) := d.pushByte byte
    let (d'', frames) := push d' data
    (d'', frame.toList ++ frames)

end KissDecoder

/-! ## The driver -/

inductive DriverError where
  | hardware (text : String)
  | frameOverMtu (got limit : Nat)
  | concurrentReceive
deriving DecidableEq

/-- What the port answers to a read. -/
inductive PortRead where
  | bytes (bytes : List UInt8)
  | timedOut
  | wouldBlock
  | failed (text : String)
deriving DecidableEq

/-- What the port does with a write and the flush after it. -/
inductive PortWrite where
  | done
  /-- `write_all` fails with this many bytes on the line. -/
  | cut (written : Nat) (text : String)
  | flushFailed (text : String)
deriving DecidableEq

/-- What the lock guards. -/
structure SerialInner where
  decoder : KissDecoder
  pending : List (List UInt8)
deriving DecidableEq

/-- The payloads of the `CMD_DATA` frames. -/
def dataPayloads (frames : List Frame) : List (List UInt8) :=
  frames.filterMap fun frame => if frame.1 = cmdData then some frame.2 else none

/-- `write_kiss`: what is on the line after it, and its result. -/
def writeKiss (command : UInt8) (payload : List UInt8) :
    PortWrite → List UInt8 × Except DriverError Unit
  | .done => (kissEncode command payload, .ok ())
  | .cut written text =>
    ((kissEncode command payload).take written, .error (.hardware s!"serial write: {text}"))
  | .flushFailed text =>
    (kissEncode command payload, .error (.hardware s!"serial flush: {text}"))

/-- `read_once`. -/
def SerialInner.readOnce (s : SerialInner) : PortRead → SerialInner × Except DriverError Bool
  | .timedOut => (s, .ok false)
  | .wouldBlock => (s, .ok false)
  | .failed text => (s, .error (.hardware s!"serial read: {text}"))
  | .bytes bytes =>
    if bytes.isEmpty then (s, .ok false)
    else
      let (decoder, frames) := s.decoder.push bytes
      let got := dataPayloads frames
      ({ decoder, pending := s.pending ++ got }, .ok (!got.isEmpty))

/-- `SerialRNodeDriver`: the radio's own side, and whether `rx_lock` is taken. -/
structure SerialRNodeDriver where
  inner : SerialInner
  listening : Bool
deriving DecidableEq

/-- `RadioParams`, as far as they go over the line. -/
structure RadioParams where
  frequencyHz : UInt32
  bandwidthHz : UInt32
  spreadingFactor : UInt8
  codingRate : UInt8
  txPowerDbm : UInt8
deriving DecidableEq

/-- `u32::to_be_bytes`. -/
def toBeBytes (n : UInt32) : List UInt8 :=
  [(n >>> 24).toUInt8, (n >>> 16).toUInt8, (n >>> 8).toUInt8, n.toUInt8]

/-- The commands `open` writes, in its order. -/
def configuration (params : RadioParams) : List Frame :=
  [(cmdFrequency, toBeBytes params.frequencyHz), (cmdBandwidth, toBeBytes params.bandwidthHz),
    (cmdTxpower, [params.txPowerDbm]), (cmdSf, [params.spreadingFactor]),
    (cmdCr, [params.codingRate]), (cmdRadioState, [radioStateOn])]

namespace SerialRNodeDriver

/-- The driver `open` returns. -/
def opened : SerialRNodeDriver :=
  { inner := { decoder := KissDecoder.new rnodeHwMtu, pending := [] }, listening := false }

/-- `send_frame`: what is on the line after it, and its result. -/
def sendFrame (bytes : List UInt8) (port : PortWrite) : List UInt8 × Except DriverError Unit :=
  if bytes.length > rnodeHwMtu then ([], .error (.frameOverMtu bytes.length rnodeHwMtu))
  else writeKiss cmdData bytes port

/-- One turn of the loop of `recv_frame`; nothing is returned when it goes round again. -/
def recvTurn (s : SerialInner) (port : PortRead) :
    SerialInner × Option (Except DriverError (List UInt8)) :=
  match s.pending with
  | frame :: rest => ({ s with pending := rest }, some (.ok frame))
  | [] =>
    match s.readOnce port with
    | (s', .error e) => (s', some (.error e))
    | (s', .ok _) => (s', none)

/-- A time the lock, or the listener's place, was held. -/
inductive Event where
  | recv
  | turn (port : PortRead)
  | dropped
  | send (bytes : List UInt8) (port : PortWrite)

/-- What a call returned to its caller. -/
inductive Answer where
  | received (result : Except DriverError (List UInt8))
  | sent (result : Except DriverError Unit)

def step (d : SerialRNodeDriver) : Event → SerialRNodeDriver
  | .recv => { d with listening := true }
  | .dropped => { d with listening := false }
  | .send _ _ => d
  | .turn port =>
    if d.listening then
      let (inner, result) := recvTurn d.inner port
      { inner, listening := result.isNone }
    else d

/-- What the calls return at a step. -/
def answers (d : SerialRNodeDriver) : Event → List Answer
  | .recv => if d.listening then [.received (.error .concurrentReceive)] else []
  | .dropped => []
  | .send bytes port => [.sent (sendFrame bytes port).2]
  | .turn port =>
    if d.listening then ((recvTurn d.inner port).2.map Answer.received).toList else []

end SerialRNodeDriver

end Radio

end CirisServer
