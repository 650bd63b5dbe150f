import CirisServer.ForStd.Except
import CirisServer.ForStd.Split
import CirisServer.ForStd.Utf8
import CirisServer.Native.Session

/-!
# NodeCode

`src/nodecode.rs`: the code that a node is introduced by. A version, the hash of the key id, the
public key, three texts with their lengths and a CRC, as base32 behind the prefix `CIRIS-V1-`.
-/

namespace CirisServer

structure NodeCode where
  keyId : String
  pubkeyEd25519Base64 : String
  transportHint : Option String
  aliasHint : Option String
deriving DecidableEq

namespace NodeCode

/-- SHA-256 and base64, and the texts that other crates give to errors. -/
structure Lib where
  sha256 : List UInt8 → List UInt8
  b64Encode : List UInt8 → String
  b64Decode : String → Except String (List UInt8)
  /-- The `Utf8Error` of bytes that are no text. -/
  utf8Error : List UInt8 → String
  /-- `{:?}` of a byte as a character. -/
  debugChar : UInt8 → String

/-- `CIRIS_NODE_CODE_VERSION`. -/
def cirisNodeCodeVersion : UInt8 := 0x01

/-- `PREFIX`. -/
def codePrefix : String := "CIRIS-V1-"

def maxHintBytes : Nat := 255

def pubkeyRawLen : Nat := 32

def keyIdHashLen : Nat := 32

def crcPoly : UInt16 := 0x1021

def crcInit : UInt16 := 0xFFFF

inductive NodeCodeError where
  | invalidVersion (text : String)
  | checksumMismatch (declared computed : UInt16)
  | malformed (text : String)
deriving DecidableEq

/-! ## CRC-16-CCITT -/

/-- One of the eight turns for a byte. -/
def crcTurn (crc : UInt16) : UInt16 :=
  if crc &&& 0x8000 ≠ 0 then (crc <<< 1) ^^^ crcPoly else crc <<< 1

def crcByte (crc : UInt16) (byte : UInt8) : UInt16 :=
  Nat.repeat crcTurn 8 (crc ^^^ (byte.toUInt16 <<< 8))

/-- `crc16_ccitt`. -/
def crc16Ccitt (data : List UInt8) : UInt16 := data.foldl crcByte crcInit

/-! ## Fields -/

/-- `encode_hint`. -/
def encodeHint (value : Option String) : Except NodeCodeError (List UInt8) :=
  match value with
  | none => .ok [0]
  | some v =>
    if v = "" then .ok [0]
    else
      let raw := utf8 v
      if maxHintBytes < raw.length then
        .error (.malformed
          s!"hint field exceeds {maxHintBytes}-byte limit ({raw.length} bytes)")
      else .ok (UInt8.ofNat raw.length :: raw)

/-- `read_length_prefixed`. -/
def readLengthPrefixed (L : Lib) (buf : List UInt8) (offset : Nat) :
    Except NodeCodeError (String × Nat) :=
  match buf[offset]? with
  | none => .error (.malformed "truncated NodeCode: missing length byte")
  | some byte =>
    let length := byte.toNat
    let start := offset + 1
    let stop := start + length
    if buf.length < stop then
      .error (.malformed
        s!"truncated NodeCode: declared field length {length} exceeds remaining buffer")
    else
      let field := (buf.drop start).take length
      match fromUtf8 field with
      | none => .error (.malformed s!"field is not valid UTF-8: {L.utf8Error field}")
      | some value => .ok (value, stop)

/-- `build_payload`. -/
def buildPayload (L : Lib) (nc : NodeCode) : Except NodeCodeError (List UInt8) := do
  let keyIdBytes := utf8 nc.keyId
  if maxHintBytes < keyIdBytes.length then
    throw (.malformed s!"key_id exceeds {maxHintBytes}-byte limit ({keyIdBytes.length} bytes)")
  let pubkeyRaw ← (L.b64Decode nc.pubkeyEd25519Base64).mapError fun e =>
    .malformed s!"pubkey_ed25519_base64 is not valid base64: {e}"
  if pubkeyRaw.length ≠ pubkeyRawLen then
    throw (.malformed
      s!"pubkey_ed25519 must be {pubkeyRawLen} raw bytes, got {pubkeyRaw.length}")
  let transport ← encodeHint nc.transportHint
  let nickname ← encodeHint nc.aliasHint
  return cirisNodeCodeVersion :: L.sha256 keyIdBytes ++ pubkeyRaw ++
    UInt8.ofNat keyIdBytes.length :: keyIdBytes ++ transport ++ nickname

/-! ## Base32 -/

/-- `B32_ALPHABET`. -/
def b32Alphabet : List Char := "ABCDEFGHIJKLMNOPQRSTUVWXYZ234567".toList

def b32Char (digit : UInt32) : Char := b32Alphabet.getD digit.toNat 'A'

/-- The inner loop of `b32_no_pad_encode`: the digits that are complete, and the bits left. -/
def b32Drain (buffer : UInt32) : Nat → List Char × Nat
  | bits + 5 =>
    let (out, left) := b32Drain buffer bits
    (b32Char ((buffer >>> UInt32.ofNat bits) &&& 0x1F) :: out, left)
  | bits => ([], bits)

/-- `b32_no_pad_encode`, with `bits` bits in the buffer. -/
def b32EncodeFrom : List UInt8 → UInt32 → Nat → List Char
  | [], buffer, bits =>
    if 0 < bits then [b32Char ((buffer <<< UInt32.ofNat (5 - bits)) &&& 0x1F)] else []
  | b :: data, buffer, bits =>
    let buffer := (buffer <<< 8) ||| b.toUInt32
    let (out, bits) := b32Drain buffer (bits + 8)
    out ++ b32EncodeFrom data buffer bits

/-- `b32_no_pad_encode`. -/
def b32NoPadEncode (data : List UInt8) : List Char := b32EncodeFrom data 0 0

/-- The value of a base32 character. -/
def b32Value (ch : UInt8) : Option UInt32 :=
  if 65 ≤ ch ∧ ch ≤ 90 then some (ch - 65).toUInt32
  else if 50 ≤ ch ∧ ch ≤ 55 then some (ch - 50 + 26).toUInt32
  else none

/-- `b32_no_pad_decode`, with `bits` bits in the buffer. -/
def b32DecodeFrom (L : Lib) : List UInt8 → UInt32 → Nat → Except NodeCodeError (List UInt8)
  | [], _, _ => .ok []
  | ch :: text, buffer, bits =>
    match b32Value ch with
    | none => .error (.malformed s!"invalid base32 character: {L.debugChar ch}")
    | some val =>
      let buffer := (buffer <<< 5) ||| val
      let bits := bits + 5
      if 8 ≤ bits then
        (b32DecodeFrom L text buffer (bits - 8)).map fun out =>
          ((buffer >>> UInt32.ofNat (bits - 8)) &&& 0xFF).toUInt8 :: out
      else b32DecodeFrom L text buffer bits

/-- `b32_no_pad_decode`. -/
def b32NoPadDecode (L : Lib) (text : List Char) : Except NodeCodeError (List UInt8) :=
  b32DecodeFrom L (utf8 (String.ofList text)) 0 0

/-! ## Encode -/

/-- `group`, in chunks of `GROUP_SIZE`. -/
def group : List Char → List Char
  | a :: b :: c :: d :: e :: rest => a :: b :: c :: d :: '-' :: group (e :: rest)
  | text => text

/-- `encode_body`. -/
def encodeBody (L : Lib) (nc : NodeCode) : Except NodeCodeError (List Char) := do
  let payload ← buildPayload L nc
  let crc := crc16Ccitt payload
  return b32NoPadEncode (payload ++ [(crc >>> 8).toUInt8, (crc &&& 0xFF).toUInt8])

/-- `encode`. -/
def encode (L : Lib) (nc : NodeCode) : Except NodeCodeError String :=
  (encodeBody L nc).map fun body => codePrefix ++ String.ofList (group body)

/-- `encode_qr`. -/
def encodeQr (L : Lib) (nc : NodeCode) : Except NodeCodeError String :=
  (encodeBody L nc).map fun body => codePrefix ++ String.ofList body

/-! ## Decode -/

/-- `str::parse::<u32>`. -/
def parseU32 (text : List Char) : Option Nat :=
  let digits := (List.stripPrefix? ['+'] text).getD text
  if digits = [] ∨ ¬ digits.all Char.isDigit then none
  else
    let n := digits.foldl (fun n c => n * 10 + (c.toNat - 48)) 0
    if n < 4294967296 then some n else none

/-- The version that a prefix declares. -/
def checkTextualVersion (digits : List Char) (malformed : String) : Except NodeCodeError Unit :=
  match parseU32 digits with
  | none => .error (.malformed malformed)
  | some declared =>
    if declared ≠ cirisNodeCodeVersion.toNat then
      .error (.invalidVersion
        s!"textual prefix V{declared}; this build supports V{cirisNodeCodeVersion}")
    else .ok ()

/-- `strip_dashed_prefix`. -/
def stripDashedPrefix (cleaned : List Char) : Except NodeCodeError (Option (List Char)) :=
  match (List.stripPrefix? "CIRIS-V".toList cleaned).bind (List.splitOnce '-') with
  | none => .ok none
  | some (digits, rest) =>
    (checkTextualVersion digits "malformed CIRIS-V<version>- prefix").map fun _ => some rest

/-- `strip_undashed_prefix`. -/
def stripUndashedPrefix (cleaned : List Char) : Except NodeCodeError (Option (List Char)) :=
  match List.stripPrefix? "CIRISV".toList cleaned with
  | none => .ok none
  | some text =>
    let digits := text.takeWhile Char.isDigit
    if digits = [] then .ok none
    else
      (checkTextualVersion digits "malformed CIRISV<version> prefix").map fun _ =>
        some (text.drop digits.length)

/-- The whitespace dropped, and the rest in upper case. -/
def clean (code : String) : List Char :=
  (code.toList.filter fun c => !isWhiteSpace c).map Char.toUpper

/-- What follows either prefix. -/
def stripPrefixes (cleaned : List Char) : Except NodeCodeError (List Char) := do
  if let some rest ← stripDashedPrefix cleaned then
    return rest
  if let some rest ← stripUndashedPrefix cleaned then
    return rest
  throw (.malformed
    "NodeCode does not start with \"CIRIS-V1-\" (or its undashed equivalent)")

/-- `{:02x}`. -/
def hex2 (byte : UInt8) : String :=
  String.ofList [Nat.digitChar (byte.toNat / 16), Nat.digitChar (byte.toNat % 16)]

/-- A hint that is not empty. -/
def hint (text : String) : Option String := if text = "" then none else some text

/-- The fields of a payload whose CRC is right. -/
def parsePayload (L : Lib) (payload : List UInt8) : Except NodeCodeError NodeCode := do
  let version := payload.headD 0
  if version ≠ cirisNodeCodeVersion then
    throw (.invalidVersion ("binary version 0x" ++ hex2 version ++ "; this build supports 0x" ++
      hex2 cirisNodeCodeVersion))
  let keyIdHash := (payload.drop 1).take keyIdHashLen
  let pubkeyRaw := (payload.drop (1 + keyIdHashLen)).take pubkeyRawLen
  let (keyId, offset) ← readLengthPrefixed L payload (1 + keyIdHashLen + pubkeyRawLen)
  let (transportHint, offset) ← readLengthPrefixed L payload offset
  let (aliasHint, offset) ← readLengthPrefixed L payload offset
  if offset ≠ payload.length then
    throw (.malformed ("NodeCode has trailing garbage after parsed fields (" ++
      toString (payload.length - offset) ++ " extra bytes)"))
  if keyId = "" then
    throw (.malformed "decoded key_id is empty — NodeCode is malformed")
  if L.sha256 (utf8 keyId) ≠ keyIdHash then
    throw (.malformed "decoded key_id hash does not match key_id string — NodeCode is corrupt")
  return ⟨keyId, L.b64Encode pubkeyRaw, hint transportHint, hint aliasHint⟩

/-- Version, hash, key, three lengths and the CRC. -/
def minSize : Nat := 1 + keyIdHashLen + pubkeyRawLen + 1 + 1 + 1 + 2

/-- The bytes behind the prefix: the CRC is split off and verified. -/
def decodeRaw (L : Lib) (raw : List UInt8) : Except NodeCodeError NodeCode := do
  if raw.length < minSize then
    throw (.malformed s!"NodeCode payload too short ({raw.length} bytes; need at least {minSize})")
  let payload := raw.take (raw.length - 2)
  let crcBytes := raw.drop (raw.length - 2)
  let declared := ((crcBytes.getD 0 0).toUInt16 <<< 8) ||| (crcBytes.getD 1 0).toUInt16
  let computed := crc16Ccitt payload
  if declared ≠ computed then
    throw (.checksumMismatch declared computed)
  parsePayload L payload

/-- `decode`. -/
def decode (L : Lib) (code : String) : Except NodeCodeError NodeCode := do
  let rest ← stripPrefixes (clean code)
  let body := rest.filter (· ≠ '-')
  if body = [] then
    throw (.malformed "NodeCode has no payload after prefix")
  let raw ← b32NoPadDecode L body
  decodeRaw L raw

end NodeCode

end CirisServer
