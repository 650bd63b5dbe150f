import CirisServer.Native.MediaGate

/-!
# What the write gate admits

The gate reads the first 64 KiB of a file and no more, so that a streamed file meets the same gate.
What it admits is nothing that the table of leading bytes takes for another format. A text is
admitted as one unless it begins as one of the formats does whose leading bytes can be text.
-/

namespace CirisServer.MediaGate

/-! ## The window -/

theorem isPrefixOf_take {p b : List UInt8} {n : Nat} (h : p.length ≤ n) :
    p.isPrefixOf (b.take n) = p.isPrefixOf b := by
  rw [Bool.eq_iff_iff, List.isPrefixOf_iff_prefix, List.isPrefixOf_iff_prefix,
    List.prefix_take_iff]
  exact and_iff_left h

theorem frameSync_take {b : List UInt8} {n : Nat} (h : 2 ≤ n) :
    frameSync (b.take n) = frameSync b := by
  obtain ⟨m, rfl⟩ := Nat.exists_eq_add_of_le' h
  match b with
  | [] => rfl
  | [_] => rfl
  | x :: y :: b => rfl

theorem take_drop_take {b : List UInt8} {n i j : Nat} (h : i + j ≤ n) :
    ((b.take n).drop i).take j = (b.drop i).take j := by
  rw [List.drop_take, List.take_take, Nat.min_eq_left (by omega)]

/-- The table looks at fourteen bytes. -/
theorem sniffTable_take {b : List UInt8} {n : Nat} (h : 14 ≤ n) :
    sniffTable (b.take n) = sniffTable b := by
  have hriff : riff (b.take n) = riff b := by
    have hlength : (12 ≤ (b.take n).length) ↔ 12 ≤ b.length := by rw [List.length_take]; omega
    rw [riff, riff, List.take_take, Nat.min_eq_left (by omega), take_drop_take (by omega)]
    simp only [hlength]
  have hftyp : ftyp (b.take n) = ftyp b := by
    have hlength : (12 ≤ (b.take n).length) ↔ 12 ≤ b.length := by rw [List.length_take]; omega
    rw [ftyp, ftyp, take_drop_take (by omega), take_drop_take (by omega)]
    simp only [hlength]
  have hlength : decide (14 ≤ (b.take n).length) = decide (14 ≤ b.length) := by
    rw [List.length_take]
    congr 1
    exact propext (by omega)
  have hstarts : ∀ p : List UInt8, p.length ≤ 14 → p.isPrefixOf (b.take n) = p.isPrefixOf b :=
    fun p hp => isPrefixOf_take (by omega)
  simp (disch := decide) only [sniffTable, hriff, hftyp, hlength, hstarts,
    frameSync_take (show 2 ≤ n by omega)]

theorem sniff_eq (b : List UInt8) : sniff b = (sniffTable b).findSome? id := by
  rw [sniff, sniffTable_take (by decide)]

/-- The gate reads the head and no more. -/
theorem checkFormat_take (declared : String) (b : List UInt8) :
    checkFormat declared (b.take formatHeadBytes) = checkFormat declared b := by
  have hsniff : sniff (b.take formatHeadBytes) = sniff b := by
    rw [sniff_eq, sniff_eq, sniffTable_take (by decide)]
  rw [checkFormat, checkFormat, hsniff, List.take_take, Nat.min_self]

/-- What is admitted is nothing that is taken for an incompatible format. -/
theorem compatible_of_checkFormat {declared essence format : String} {b : List UInt8}
    (h : checkFormat declared b = .ok essence) (hformat : sniff b = some format) :
    compatible essence format = true := by
  rw [checkFormat, except_bind_eq_ok_iff] at h
  obtain ⟨e, -, h⟩ := h
  rw [hformat] at h
  dsimp only at h
  split at h
  · next hcompatible =>
    cases h
    exact hcompatible
  · cases h

/-! ## Texts -/

/-- The bytes of a text. -/
def IsText (bytes : List UInt8) : Prop := ∃ s, utf8 s = bytes

/-- The head of the file is a text, up to a character that is cut at its end. -/
def TextHead (b : List UInt8) : Prop :=
  IsText (b.take formatHeadBytes) ∨
    endsUnexpectedly (b.take formatHeadBytes) = true ∧
      (b.take formatHeadBytes).length = formatHeadBytes

/-- The formats of the table whose leading bytes can be those of a text. -/
def ReadsAsBinary (b : List UInt8) : Prop :=
  (∃ magic ∈ [ascii "GIF87a", ascii "GIF89a", [0x1A, 0x45, 0xDF, 0xA3], ascii "OggS", ascii "fLaC",
      ascii "ID3", ascii "%PDF-", [0x50, 0x4B, 0x03, 0x04], [0x50, 0x4B, 0x05, 0x06], ascii "MZ",
      [0x7F, 0x45, 0x4C, 0x46]], magic <+: b) ∨
  (ascii "BM" <+: b ∧ 14 ≤ b.length) ∨
  (12 ≤ b.length ∧ b.take 4 = ascii "RIFF" ∧
    (b.drop 8).take 4 ∈ [ascii "WEBP", ascii "WAVE", ascii "AVI "]) ∨
  (12 ≤ b.length ∧ (b.drop 4).take 4 = ascii "ftyp")

theorem isText_iff {bytes : List UInt8} : IsText bytes ↔ (fromUtf8 bytes).isSome = true := by
  rw [Option.isSome_iff_exists]
  constructor
  · rintro ⟨s, rfl⟩
    exact ⟨s, fromUtf8_utf8 s⟩
  · rintro ⟨s, hs⟩
    exact ⟨s, utf8_of_fromUtf8 hs⟩

theorem readsAsText_iff (b : List UInt8) : readsAsText (b.take formatHeadBytes) = true ↔
    TextHead b ∧ 0 ∉ b.take formatHeadBytes := by
  rw [readsAsText, TextHead, isText_iff]
  simp [List.contains_eq_mem]

/-- A text up to a few bytes. -/
theorem exists_text_of_textHead {b : List UInt8} (h : TextHead b) :
    ∃ s n, 4 ≤ n ∧ utf8 s = b.take n := by
  rcases h with ⟨s, hs⟩ | ⟨hends, hlength⟩
  · exact ⟨s, formatHeadBytes, by decide, hs⟩
  · simp only [endsUnexpectedly, List.any_eq_true, Bool.and_eq_true] at hends
    obtain ⟨k, hk, ⟨-, hsome⟩, -⟩ := hends
    obtain ⟨s, hs⟩ := isText_iff.mpr hsome
    have hle : k ≤ 3 := by
      simp only [List.mem_cons, List.not_mem_nil, or_false] at hk
      omega
    rw [hlength, List.take_take] at hs
    have hhead : formatHeadBytes = 65536 := rfl
    exact ⟨s, min (formatHeadBytes - k) formatHeadBytes, by omega, hs⟩

/-- Of a text the first byte is the first of a character, and so is the second after an ASCII
    one. -/
theorem lead_of_textHead {b p : List UInt8} {x y : UInt8} (h : TextHead b)
    (hp : x :: y :: p <+: b) :
    (x.toNat < 128 ∧ (y.toNat < 128 ∨ 0xC0 ≤ y.toNat)) ∨ 0xC0 ≤ x.toNat ∧ x.toNat ≤ 0xF7 := by
  obtain ⟨s, n, hn, hs⟩ := exists_text_of_textHead h
  obtain ⟨m, rfl⟩ := Nat.exists_eq_add_of_le' hn
  obtain ⟨rest, rfl⟩ := hp
  have hcons : utf8 s = x :: y :: (p ++ rest).take (m + 2) := hs
  refine (lead_of_utf8 hcons).imp_left fun ⟨hx, t, ht⟩ => ⟨hx, ?_⟩
  exact (lead_of_utf8 ht).imp (·.1) (·.1)

theorem zero_mem_head {b p : List UInt8} (hp : p <+: b) (hlength : p.length ≤ formatHeadBytes)
    (h0 : 0 ∈ p) : 0 ∈ b.take formatHeadBytes :=
  (List.prefix_take_iff.mpr ⟨hp, hlength⟩).mem h0

@[simp] theorem on_eq_none_iff {test : Bool} {format : String} :
    on test format = none ↔ test = false := by
  cases test <;> simp [on]

theorem riff_eq_none_iff {b : List UInt8} : riff b = none ↔
    ¬ (12 ≤ b.length ∧ b.take 4 = ascii "RIFF" ∧
      (b.drop 8).take 4 ∈ [ascii "WEBP", ascii "WAVE", ascii "AVI "]) := by
  rw [riff]
  split
  · next hriff =>
    simp only [hriff, true_and, List.mem_cons, List.not_mem_nil, or_false]
    split
    · simp [*]
    · split
      · simp [*]
      · split <;> simp [*]
  · next hriff =>
    exact iff_of_true rfl fun h => hriff ⟨h.1, h.2.1⟩

theorem ftyp_eq_none_iff {b : List UInt8} : ftyp b = none ↔
    ¬ (12 ≤ b.length ∧ (b.drop 4).take 4 = ascii "ftyp") := by
  rw [ftyp]
  split
  · next hftyp =>
    refine iff_of_false ?_ (not_not_intro hftyp)
    dsimp only
    split_ifs <;> simp
  · next hftyp => exact iff_of_true rfl hftyp

/-- Of the table a text meets what reads as text. -/
theorem sniff_text_iff {b : List UInt8} (h : TextHead b) (h0 : 0 ∉ b.take formatHeadBytes) :
    sniff b = none ↔ ¬ ReadsAsBinary b := by
  have hnot : ∀ {p : List UInt8}, ¬ p <+: b → p.isPrefixOf b = false := by
    intro p hp
    rwa [Bool.eq_false_iff, Ne, List.isPrefixOf_iff_prefix]
  have hlead : ∀ {x y : UInt8} {p : List UInt8}, 128 ≤ x.toNat ∧ x.toNat < 0xC0 ∨ 0xF7 < x.toNat →
      (x :: y :: p).isPrefixOf b = false := by
    intro x y p hx
    refine hnot fun hp => ?_
    have := lead_of_textHead h hp
    omega
  have hzero : ∀ {p : List UInt8}, p.length ≤ formatHeadBytes → 0 ∈ p → p.isPrefixOf b = false :=
    fun hlength hp => hnot fun hprefix => h0 (zero_mem_head hprefix hlength hp)
  have hsync : frameSync b = false := by
    match b, h with
    | [], _ => rfl
    | [_], _ => rfl
    | x :: y :: rest, h =>
      have hx : (x == 0xFF) = false := by
        rw [beq_eq_false_iff_ne]
        rintro rfl
        have hbounds := lead_of_textHead h (List.prefix_append [0xFF, y] rest)
        have h255 : (0xFF : UInt8).toNat = 255 := rfl
        omega
      rw [frameSync, hx, Bool.false_and]
  have hgzip : [0x1F, 0x8B].isPrefixOf b = false := by
    refine hnot fun hp => ?_
    have hbounds := lead_of_textHead h hp
    revert hbounds
    decide
  have hjpeg : [0xFF, 0xD8, 0xFF].isPrefixOf b = false := hlead (by decide)
  have hpng : [0x89, 0x50, 0x4E, 0x47, 0x0D, 0x0A, 0x1A, 0x0A].isPrefixOf b = false :=
    hlead (by decide)
  have hintel : [0x49, 0x49, 0x2A, 0x00].isPrefixOf b = false := hzero (by decide) (by decide)
  have hmotorola : [0x4D, 0x4D, 0x00, 0x2A].isPrefixOf b = false := hzero (by decide) (by decide)
  have hicon : [0x00, 0x00, 0x01, 0x00].isPrefixOf b = false := hzero (by decide) (by decide)
  have hprefix : ∀ p : List UInt8, p.isPrefixOf b = false ↔ ¬ p <+: b := by
    intro p
    rw [Bool.eq_false_iff, Ne, List.isPrefixOf_iff_prefix]
  have htable : sniff b = none ↔ (¬ ascii "GIF87a" <+: b ∧ ¬ ascii "GIF89a" <+: b) ∧
      riff b = none ∧ ftyp b = none ∧ ¬ [0x1A, 0x45, 0xDF, 0xA3] <+: b ∧ ¬ ascii "OggS" <+: b ∧
      ¬ ascii "fLaC" <+: b ∧ ¬ ascii "ID3" <+: b ∧ ¬ ascii "%PDF-" <+: b ∧
      (¬ [0x50, 0x4B, 0x03, 0x04] <+: b ∧ ¬ [0x50, 0x4B, 0x05, 0x06] <+: b) ∧
      (¬ ascii "BM" <+: b ∨ ¬ 14 ≤ b.length) ∧ ¬ ascii "MZ" <+: b ∧
      ¬ [0x7F, 0x45, 0x4C, 0x46] <+: b := by
    rw [sniff_eq, List.findSome?_eq_none_iff]
    simp only [sniffTable, List.forall_mem_cons, List.not_mem_nil, false_imp_iff, implies_true,
      id_eq, on_eq_none_iff, hsync, hgzip, hjpeg, hpng, hintel, hmotorola, hicon, Bool.or_false,
      Bool.or_eq_false_iff, Bool.and_eq_false_iff, decide_eq_false_iff_not, hprefix, true_and,
      and_true]
  have hreads : ReadsAsBinary b ↔ (ascii "GIF87a" <+: b ∨ ascii "GIF89a" <+: b ∨
      [0x1A, 0x45, 0xDF, 0xA3] <+: b ∨ ascii "OggS" <+: b ∨ ascii "fLaC" <+: b ∨
      ascii "ID3" <+: b ∨ ascii "%PDF-" <+: b ∨ [0x50, 0x4B, 0x03, 0x04] <+: b ∨
      [0x50, 0x4B, 0x05, 0x06] <+: b ∨ ascii "MZ" <+: b ∨ [0x7F, 0x45, 0x4C, 0x46] <+: b) ∨
      (ascii "BM" <+: b ∧ 14 ≤ b.length) ∨ ¬ riff b = none ∨ ¬ ftyp b = none := by
    rw [riff_eq_none_iff, ftyp_eq_none_iff, not_not, not_not, ReadsAsBinary]
    simp only [List.exists_mem_cons_iff, List.not_mem_nil, false_and, exists_false, or_false]
  rw [htable, hreads]
  simp only [not_or, not_and_or, not_not, and_assoc]
  constructor
  · rintro ⟨h1, h2, h3, h4, h5, h6, h7, h8, h9, h10, h11, h12, h13, h14⟩
    exact ⟨h1, h2, h5, h6, h7, h8, h9, h10, h11, h13, h14, h12, h3, h4⟩
  · rintro ⟨h1, h2, h5, h6, h7, h8, h9, h10, h11, h13, h14, h12, h3, h4⟩
    exact ⟨h1, h2, h3, h4, h5, h6, h7, h8, h9, h10, h11, h12, h13, h14⟩

/-! ## Text as text -/

theorem on_ne_some {test : Bool} {format s : String} (h : format ≠ s) : on test format ≠ some s := by
  cases test
  · exact fun heq => nomatch heq
  · exact fun heq => h (Option.some.inj heq)

/-- No format of the table is plain text. -/
theorem sniff_ne_text (b : List UInt8) : sniff b ≠ some "text/plain" := by
  have hriff : riff b ≠ some "text/plain" := by
    rw [riff]
    dsimp only
    split_ifs <;> decide
  have hftyp : ftyp b ≠ some "text/plain" := by
    rw [ftyp]
    dsimp only
    split_ifs <;> decide
  have htable : ∀ x ∈ sniffTable b, x ≠ some "text/plain" := by
    simp (disch := decide) only [sniffTable, List.forall_mem_cons, List.not_mem_nil, false_imp_iff,
      implies_true, on_ne_some, ne_eq, not_false_eq_true, true_and, and_true]
    exact ⟨hriff, hftyp⟩
  rw [sniff_eq]
  intro heq
  obtain ⟨x, hx, hid⟩ := List.exists_of_findSome?_eq_some heq
  exact htable x hx hid

/-- And none covers it. -/
theorem compatible_text_of_sniff {b : List UInt8} {format : String} (h : sniff b = some format) :
    compatible "text/plain" format = false := by
  have hne : ("text/plain" == format) = false := by
    rw [beq_eq_false_iff_ne]
    rintro rfl
    exact sniff_ne_text b h
  have hcovers : covers format "text/plain" = false := by
    unfold covers
    split <;> decide +kernel
  rw [compatible, hne, hcovers, Bool.false_or]

/-- A text is admitted exactly if the table does not know its leading bytes. -/
theorem checkFormat_text_iff {b : List UInt8} (h : TextHead b) (h0 : 0 ∉ b.take formatHeadBytes) :
    checkFormat "text/plain" b = .ok "text/plain" ↔ sniff b = none := by
  have hessence : parseEssence "text/plain" = .ok "text/plain" := by decide +kernel
  have hrecognisable : recognisable.contains "text/plain" = false := by decide +kernel
  have htext : readsAsText (b.take formatHeadBytes) = true := (readsAsText_iff b).mpr ⟨h, h0⟩
  have hok : ∀ f : String → Except TypeRefusal String,
      (Except.ok "text/plain" >>= f : Except TypeRefusal String) = f "text/plain" := fun _ => rfl
  rw [checkFormat, hessence, hok]
  cases hsniff : sniff b with
  | none =>
    refine iff_of_true ?_ rfl
    simp only [hrecognisable, htext, Bool.not_true, Bool.and_false, Bool.false_eq_true, if_false]
    rfl
  | some format =>
    refine iff_of_false ?_ (fun heq => nomatch heq)
    simp only [compatible_text_of_sniff hsniff, Bool.false_eq_true, if_false]
    exact fun heq => nomatch heq

/-- **The gate**: a streamed file meets the one it would meet as a whole, nothing is admitted that
    reads as an incompatible format, and a text is admitted as one, exactly if it does not read as
    binary. -/
theorem checkFormat_iff (declared : String) (b : List UInt8) :
    ((checkFormat declared b = checkFormat declared (b.take formatHeadBytes) ∧
        ∀ debug filename, writeGate debug declared b filename =
          writeGate debug declared (b.take formatHeadBytes) filename) ∧
      (∀ essence format, checkFormat declared b = .ok essence → sniff b = some format →
        compatible essence format = true) ∧
      (TextHead b → 0 ∉ b.take formatHeadBytes →
        checkFormat "text/plain" b = .ok "text/plain")) ↔
    (TextHead b → 0 ∉ b.take formatHeadBytes → ¬ ReadsAsBinary b) := by
  constructor
  · rintro ⟨-, -, htext⟩ h h0
    rw [← sniff_text_iff h h0, ← checkFormat_text_iff h h0]
    exact htext h h0
  · intro hnot
    refine ⟨⟨(checkFormat_take declared b).symm, fun debug filename => ?_⟩,
      fun _ _ => compatible_of_checkFormat, fun h h0 => ?_⟩
    · rw [writeGate, writeGate, checkFormat_take]
    · rw [checkFormat_text_iff h h0, sniff_text_iff h h0]
      exact hnot h h0

/-- A line of text that begins like a bitmap. -/
def monogram : List UInt8 := ascii "BM, Botanical Museum"

/-- It is refused as one. -/
theorem checkFormat_monogram : IsText monogram ∧ monogram.length ≤ formatHeadBytes ∧
    0 ∉ monogram ∧
    checkFormat "text/plain" monogram = .error (.mismatch "text/plain" "image/bmp") := by
  refine ⟨⟨"BM, Botanical Museum", by decide +kernel⟩, by decide, by decide, by decide +kernel⟩

end CirisServer.MediaGate
