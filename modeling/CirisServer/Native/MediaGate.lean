import CirisServer.ForStd.Split
import CirisServer.ForStd.Utf8
import CirisServer.Native.Drive
import CirisServer.Native.Session

/-!
# The write gate

`src/media_gate.rs`: what a file says it is, what its leading bytes are, and the display name it
keeps; and `write_gate` of `src/drive.rs`, through which every door that writes a file comes. Bytes
are lists.
-/

namespace CirisServer.MediaGate

inductive TypeRefusal where
  | badEssence (declared : String)
  | mismatch (declared sniffed : String)
deriving DecidableEq

/-! ## The declared type -/

/-- `TOP_LEVEL`. -/
def topLevel : List String :=
  ["application", "audio", "font", "haptics", "image", "message", "model", "multipart", "text",
    "video"]

/-- `char::is_ascii_alphanumeric`. -/
def isAsciiAlphanumeric (c : Char) : Bool := c.isAlphanum

/-- `restricted_name`. -/
def restrictedName (s : String) : Bool :=
  s != "" && decide ((utf8 s).length ≤ 127) && s.toList.head?.any isAsciiAlphanumeric &&
    s.toList.all fun c => isAsciiAlphanumeric c || "!#$&-^_.+".toList.contains c

/-- `str::to_ascii_lowercase`. -/
def toAsciiLowercase (l : List Char) : String := String.ofList (l.map Char.toLower)

/-- `parse_essence`. -/
def parseEssence (declared : String) : Except TypeRefusal String :=
  let bare := trim (String.ofList (declared.toList.takeWhile (· ≠ ';')))
  match bare.toList.splitOnce '/' with
  | none => .error (.badEssence declared)
  | some (ty, sub) =>
    let (ty, sub) := (toAsciiLowercase ty, toAsciiLowercase sub)
    if !topLevel.contains ty || !restrictedName ty || !restrictedName sub then
      .error (.badEssence declared)
    else .ok (ty ++ "/" ++ sub)

/-! ## The leading bytes -/

/-- A byte string of ASCII characters. -/
def ascii (s : String) : List UInt8 := s.toList.map fun c => c.toNat.toUInt8

/-- A format that is recognised. -/
def on (test : Bool) (format : String) : Option String := if test then some format else none

/-- The formats of a RIFF container. -/
def riff (b : List UInt8) : Option String :=
  if 12 ≤ b.length ∧ b.take 4 = ascii "RIFF" then
    let form := (b.drop 8).take 4
    if form = ascii "WEBP" then some "image/webp"
    else if form = ascii "WAVE" then some "audio/wav"
    else if form = ascii "AVI " then some "video/x-msvideo"
    else none
  else none

/-- The formats of an ISO container, by its brand. -/
def ftyp (b : List UInt8) : Option String :=
  if 12 ≤ b.length ∧ (b.drop 4).take 4 = ascii "ftyp" then
    let brand := (b.drop 8).take 4
    if brand ∈ ["heic", "heix", "hevc", "hevx"].map ascii then some "image/heic"
    else if brand ∈ ["mif1", "msf1"].map ascii then some "image/heif"
    else if brand ∈ ["avif", "avis"].map ascii then some "image/avif"
    else if brand = ascii "qt  " then some "video/quicktime"
    else if brand ∈ ["M4A ", "M4B "].map ascii then some "audio/mp4"
    else some "video/mp4"
  else none

/-- The frame sync of an MPEG audio stream. -/
def frameSync (b : List UInt8) : Bool :=
  match b with
  | x :: y :: _ => x == 0xFF && (y &&& 0xE6) == 0xE2
  | _ => false

/-- The table of `sniff`, in order. -/
def sniffTable (b : List UInt8) : List (Option String) :=
  let starts (p : List UInt8) : Bool := p.isPrefixOf b
  [on (starts [0xFF, 0xD8, 0xFF]) "image/jpeg",
    on (starts [0x89, 0x50, 0x4E, 0x47, 0x0D, 0x0A, 0x1A, 0x0A]) "image/png",
    on (starts (ascii "GIF87a") || starts (ascii "GIF89a")) "image/gif",
    riff b,
    ftyp b,
    on (starts [0x1A, 0x45, 0xDF, 0xA3]) "video/webm",
    on (starts (ascii "OggS")) "audio/ogg",
    on (starts (ascii "fLaC")) "audio/flac",
    on (starts (ascii "ID3") || frameSync b) "audio/mpeg",
    on (starts (ascii "%PDF-")) "application/pdf",
    on (starts [0x50, 0x4B, 0x03, 0x04] || starts [0x50, 0x4B, 0x05, 0x06]) "application/zip",
    on (starts [0x1F, 0x8B]) "application/gzip",
    on (starts (ascii "BM") && decide (14 ≤ b.length)) "image/bmp",
    on (starts [0x49, 0x49, 0x2A, 0x00] || starts [0x4D, 0x4D, 0x00, 0x2A]) "image/tiff",
    on (starts [0x00, 0x00, 0x01, 0x00]) "image/x-icon",
    on (starts (ascii "MZ")) "application/vnd.microsoft.portable-executable",
    on (starts [0x7F, 0x45, 0x4C, 0x46]) "application/x-elf"]

/-- `sniff`. -/
def sniff (bytes : List UInt8) : Option String := (sniffTable (bytes.take 2048)).findSome? id

/-- `str::starts_with`. -/
def hasPrefix (head s : String) : Bool := head.toList.isPrefixOf s.toList

/-- `str::ends_with`. -/
def hasSuffix (tail s : String) : Bool := tail.toList.isSuffixOf s.toList

/-- The essences beside its own that a sniffed format covers. -/
def covers (sniffed declared : String) : Bool :=
  match sniffed with
  | "application/zip" =>
    hasSuffix "+zip" declared ||
      hasPrefix "application/vnd.openxmlformats-officedocument." declared ||
      hasPrefix "application/vnd.oasis.opendocument." declared ||
      ["application/epub+zip", "application/java-archive",
        "application/x-zip-compressed"].contains declared
  | "video/mp4" => ["audio/mp4", "video/3gpp", "video/x-m4v", "audio/x-m4a"].contains declared
  | "audio/mp4" => ["video/mp4", "audio/x-m4a"].contains declared
  | "image/heif" => declared == "image/heic"
  | "image/heic" => declared == "image/heif"
  | "video/webm" => ["audio/webm", "video/x-matroska", "audio/x-matroska"].contains declared
  | "audio/wav" => ["audio/x-wav", "audio/wave", "audio/vnd.wave"].contains declared
  | "audio/ogg" => ["video/ogg", "application/ogg"].contains declared
  | "audio/flac" => declared == "audio/x-flac"
  | "application/gzip" => declared == "application/x-gzip"
  | "image/x-icon" => declared == "image/vnd.microsoft.icon"
  | _ => false

/-- `compatible`. -/
def compatible (declared sniffed : String) : Bool := declared == sniffed || covers sniffed declared

/-! ## The gate -/

/-- `FORMAT_HEAD_BYTES`. -/
def formatHeadBytes : Nat := 64 * 1024

/-- `RECOGNISABLE`. -/
def recognisable : List String :=
  ["image/jpeg", "image/png", "image/gif", "image/webp", "image/heic", "image/heif", "image/avif",
    "image/bmp", "image/tiff", "audio/wav", "audio/mp4", "audio/mpeg", "audio/ogg", "audio/flac",
    "video/mp4", "video/quicktime", "video/webm", "application/pdf", "application/zip",
    "application/gzip"]

/-- Bytes that begin a character and end before it does. -/
def beginsCharacter : List UInt8 → Bool
  | [] => false
  | b :: more =>
    match announced b with
    | none => false
    | some (n, lo, hi) => decide (more.length < n) && takeContinuation n lo hi more == more

/-- `Utf8Error::error_len` is `None`: a text, and then the beginning of a character at the end of
    the input. -/
def endsUnexpectedly (bytes : List UInt8) : Bool :=
  [1, 2, 3].any fun k => decide (k ≤ bytes.length) &&
    (fromUtf8 (bytes.take (bytes.length - k))).isSome &&
      beginsCharacter (bytes.drop (bytes.length - k))

/-- The check of a text's head: UTF-8, up to a character that is cut where the head ends, and no
    NUL. -/
def readsAsText (head : List UInt8) : Bool :=
  ((fromUtf8 head).isSome || endsUnexpectedly head && head.length == formatHeadBytes) &&
    !head.contains 0

/-- `check_format`. -/
def checkFormat (declared : String) (bytes : List UInt8) : Except TypeRefusal String := do
  let essence ← parseEssence declared
  match sniff bytes with
  | some s => if compatible essence s then return essence else throw (.mismatch essence s)
  | none =>
    if recognisable.contains essence then throw (.mismatch essence "unrecognised")
    if hasPrefix "text/" essence && !readsAsText (bytes.take formatHeadBytes) then
      throw (.mismatch essence "binary")
    return essence

/-! ## The display name -/

/-- `char::is_control`. -/
def isControl (c : Char) : Bool := c.toNat < 0x20 || (0x7F ≤ c.toNat && c.toNat < 0xA0)

/-- `is_hostile`. -/
def isHostile (c : Char) : Bool :=
  isControl c || c.toNat == 0x061C || (0x200B ≤ c.toNat && c.toNat ≤ 0x200F) ||
    (0x202A ≤ c.toNat && c.toNat ≤ 0x202E) || (0x2060 ≤ c.toNat && c.toNat ≤ 0x2069) ||
    c.toNat == 0xFEFF

/-- What comes after the last path separator. -/
def lastComponent (name : List Char) : List Char :=
  (name.reverse.takeWhile fun c => !(c == '/' || c == '\\')).reverse

/-- `trim` or `trim_matches`, by a test. -/
def trimWhere (p : Char → Bool) (text : List Char) : List Char :=
  ((text.dropWhile p).reverse.dropWhile p).reverse

/-- The longest beginning of at most `n` bytes. -/
def takeBytes : Nat → List Char → List Char
  | _, [] => []
  | n, c :: text => if c.utf8Size ≤ n then c :: takeBytes (n - c.utf8Size) text else []

/-- `sanitize_filename`: the name, and whether it changed. -/
def sanitizeFilename (name : String) : Option (String × Bool) :=
  let out := (lastComponent name.toList).filter fun c => !isHostile c
  let out := trimWhere isWhiteSpace (trimWhere (· == '.') (trimWhere isWhiteSpace out))
  let out := if 255 < (utf8 (String.ofList out)).length then takeBytes 255 out else out
  if out.isEmpty then none else some (String.ofList out, decide (String.ofList out ≠ name))

/-! ## `write_gate` -/

/-- A refusal, and what else its body names. -/
structure Refused where
  refusal : Drive.Refusal
  extra : List (String × String)
deriving DecidableEq

/-- What the gate lets through. -/
structure Gated where
  mediaType : String
  filename : Option String
deriving DecidableEq

/-- What a refused type is answered; `debug` prints a string for debugging. -/
def TypeRefusal.answer (debug : String → String) : TypeRefusal → Refused
  | .badEssence d => ⟨⟨400, "drive.bad_media_type",
      debug d ++ " is not an RFC 6838 media type (type/subtype)"⟩, []⟩
  | .mismatch declared sniffed => ⟨⟨415, "drive.format_mismatch",
      "declared " ++ declared ++ ", but the bytes are " ++ sniffed ++
        " — a file must be what it says it is (CC 5.3.2.6)"⟩,
      [("declared", declared), ("sniffed", sniffed)]⟩

/-- `write_gate`. -/
def writeGate (debug : String → String) (mediaType : String) (head : List UInt8)
    (filename : Option String) : Except Refused Gated := do
  let essence ← (checkFormat mediaType head).mapError (·.answer debug)
  match filename with
  | none => return ⟨essence, none⟩
  | some raw =>
    match sanitizeFilename raw with
    | some (n, _) => return ⟨essence, some n⟩
    | none => throw ⟨⟨400, "drive.bad_filename",
        "nothing displayable is left of that filename once path components and control / bidi " ++
        "characters are removed (RFC 6266 §4.3)"⟩, []⟩

/-- The name that `rename_file` of `src/drive.rs` gives a file, from the one that it is asked for. -/
def renamedName (filename : String) : Except Drive.Refusal String :=
  if trim filename = "" then
    .error ⟨400, "drive.filename_empty",
      "a rename needs a name — an empty filename would leave the file unnamed rather " ++
        "than renamed"⟩
  else
    match sanitizeFilename (trim filename) with
    | none => .error ⟨400, "drive.bad_filename",
        "nothing displayable is left of that filename once path components and control / " ++
          "bidi characters are removed (RFC 6266 §4.3)"⟩
    | some (clean, _) => .ok clean

end CirisServer.MediaGate
