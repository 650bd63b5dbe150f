import CirisServer.Spec.Base32

/-!
# NodeCode round trip

However a code is presented (with or without dashes, with blanks, in either case), it decodes to
the NodeCode that it was made of; and what was decoded can be encoded again.

Key results:
- `decode_of_presents`: a presentation is decoded as its body is
- `parsePayload_payloadOf`: the fields come back
- `decode_valid`: what is decoded is well formed
- `codec_round_trip`: both directions
-/

namespace CirisServer.NodeCode

/-- What base64 and SHA-256 are relied on for. -/
structure Lib.Lawful (L : Lib) : Prop where
  b64 : ∀ data, L.b64Decode (L.b64Encode data) = .ok data
  sha256_length : ∀ data, (L.sha256 data).length = keyIdHashLen

/-- A hint that can be given. -/
def ValidHint (value : Option String) : Prop :=
  ∀ v, value = some v → v ≠ "" ∧ (utf8 v).length ≤ maxHintBytes

/-- A NodeCode that can be given. -/
structure Valid (L : Lib) (nc : NodeCode) : Prop where
  keyId_ne : nc.keyId ≠ ""
  keyId_le : (utf8 nc.keyId).length ≤ maxHintBytes
  pubkey : ∃ raw, raw.length = pubkeyRawLen ∧ nc.pubkeyEd25519Base64 = L.b64Encode raw
  transportHint : ValidHint nc.transportHint
  aliasHint : ValidHint nc.aliasHint

/-- `code` presents `body`: behind either prefix, with dashes in the body, whitespace anywhere and
    ASCII letters in any case. -/
def Presents (body : List Char) (code : String) : Prop :=
  ∃ head ∈ ["CIRIS-V1-".toList, "CIRISV1".toList], ∃ dashed spaced : List Char,
    List.Interspersed (· == '-') body dashed ∧
    List.Interspersed isWhiteSpace (head ++ dashed) spaced ∧
    spaced.map Char.toUpper = code.toList.map Char.toUpper

/-! ## Presentations -/

theorem group_interspersed (text : List Char) :
    List.Interspersed (· == '-') text (group text) := by
  induction text using group.induct with
  | case1 a b c d e rest ih =>
    exact .keep a (.keep b (.keep c (.keep d (.insert rfl ih))))
  | case2 text hshort =>
    rw [group.eq_2 text hshort]
    exact .refl _ text

/-- Dashes in the body are one presentation. -/
theorem presents_of_dashed {body dashed : List Char} {code : String}
    (h : List.Interspersed (· == '-') body dashed)
    (hcode : code.toList = codePrefix.toList ++ dashed) : Presents body code := by
  refine ⟨_, List.mem_cons_self, dashed, _, h, .refl _ _, ?_⟩
  rw [hcode]
  rfl

theorem toNat_toUpper_of_lower {c : Char} (h : 'a'.val ≤ c.val ∧ c.val ≤ 'z'.val) :
    c.toUpper.toNat = c.toNat - 32 := by
  delta Char.toUpper
  rw [dif_pos h]
  have hlow : 97 ≤ c.val.toNat := h.1
  have hhigh : c.val.toNat ≤ 122 := h.2
  have hamount : ('A'.val - 'a'.val).toNat = 4294967264 := by decide
  show (c.val + ('A'.val - 'a'.val)).toNat = c.val.toNat - 32
  rw [UInt32.toNat_add, hamount]
  omega

/-- A letter is not blank. -/
theorem isWhiteSpace_of_range {c : Char} (hlow : 65 ≤ c.toNat) (hhigh : c.toNat ≤ 122) :
    isWhiteSpace c = false := by
  rw [isWhiteSpace]
  simp
  omega

theorem isWhiteSpace_toUpper (c : Char) : isWhiteSpace c.toUpper = isWhiteSpace c := by
  by_cases h : 'a'.val ≤ c.val ∧ c.val ≤ 'z'.val
  · have hlow : 97 ≤ c.toNat := h.1
    have hhigh : c.toNat ≤ 122 := h.2
    have hupper := toNat_toUpper_of_lower h
    rw [isWhiteSpace_of_range (by omega) hhigh, isWhiteSpace_of_range (by omega) (by omega)]
  · have hsame : c.toUpper = c := dif_neg h
    rw [hsame]

/-- Blanks and case are gone. -/
theorem clean_eq {text spaced : List Char} {code : String}
    (hspaced : List.Interspersed isWhiteSpace text spaced)
    (hcase : spaced.map Char.toUpper = code.toList.map Char.toUpper)
    (htext : ∀ c ∈ text, isWhiteSpace c = false ∧ c.toUpper = c) : clean code = text := by
  have hcomm (l : List Char) : (l.filter fun c => !isWhiteSpace c).map Char.toUpper =
      (l.map Char.toUpper).filter fun c => !isWhiteSpace c := by
    rw [List.filter_map]
    congr 1
    apply List.filter_congr
    intro c _
    show _ = !isWhiteSpace c.toUpper
    rw [isWhiteSpace_toUpper]
  calc clean code
      = (spaced.map Char.toUpper).filter fun c => !isWhiteSpace c := by
        rw [clean, hcomm, hcase]
    _ = text.map Char.toUpper := by
        rw [← hcomm, hspaced.filter fun c hc => (htext c hc).1]
    _ = text := by rw [List.map_congr_left fun c hc => (htext c hc).2, List.map_id']

/-- The characters of a code are upper case, and none is blank. -/
theorem plain_spec : (codePrefix.toList ++ b32Alphabet).all
    (fun c => !isWhiteSpace c && c.toUpper == c) = true := by
  decide

theorem clean_of_presents {body : List Char} {code : String}
    (hbody : ∀ c ∈ body, c ∈ b32Alphabet) (h : Presents body code) :
    ∃ dashed, List.Interspersed (· == '-') body dashed ∧
      (clean code = "CIRIS-V1-".toList ++ dashed ∨ clean code = "CIRISV1".toList ++ dashed) := by
  obtain ⟨head, hhead, dashed, spaced, hdashed, hspaced, hcase⟩ := h
  have hheads : ∀ c ∈ head, c ∈ codePrefix.toList := by
    rw [List.mem_cons, List.mem_singleton] at hhead
    have hall : head.all (fun c => codePrefix.toList.elem c) = true := by
      rcases hhead with rfl | rfl <;> decide
    exact fun c hc => List.elem_iff.mp (List.all_eq_true.mp hall c hc)
  have htext : ∀ c ∈ head ++ dashed, isWhiteSpace c = false ∧ c.toUpper = c := by
    intro c hc
    have hmem : c ∈ codePrefix.toList ++ b32Alphabet := by
      rcases List.mem_append.mp hc with hc | hc
      · exact List.mem_append_left _ (hheads c hc)
      · rcases hdashed.mem hc with hc | hc
        · exact List.mem_append_right _ (hbody c hc)
        · rw [beq_iff_eq.mp hc]
          decide
    have hplain := List.all_eq_true.mp plain_spec c hmem
    rw [Bool.and_eq_true, Bool.not_eq_true', beq_iff_eq] at hplain
    exact hplain
  refine ⟨dashed, hdashed, ?_⟩
  rw [clean_eq hspaced hcase htext]
  rw [List.mem_cons, List.mem_singleton] at hhead
  exact hhead.imp (congrArg (· ++ dashed)) (congrArg (· ++ dashed))

theorem stripPrefixes_dashed (rest : List Char) :
    stripPrefixes ("CIRIS-V1-".toList ++ rest) = .ok rest := by
  rfl

/-- Without a dash, the version ends where the digits do. -/
theorem stripPrefixes_undashed {rest : List Char} (h : rest.takeWhile Char.isDigit = []) :
    stripPrefixes ("CIRISV1".toList ++ rest) = .ok rest := by
  have hdigits : ('1' :: rest).takeWhile Char.isDigit = ['1'] := by
    rw [List.takeWhile_cons_of_pos rfl, h]
  have hstrip : stripUndashedPrefix ("CIRISV1".toList ++ rest) = .ok (some rest) := by
    have hafter : List.stripPrefix? "CIRISV".toList ("CIRISV1".toList ++ rest) =
        some ('1' :: rest) := rfl
    rw [stripUndashedPrefix, hafter]
    dsimp only
    rw [hdigits]
    rfl
  have hdashed : stripDashedPrefix ("CIRISV1".toList ++ rest) = .ok none := rfl
  rw [stripPrefixes, hdashed, hstrip]
  rfl

/-- Behind the prefix, the dashes are dropped and the rest is decoded. -/
theorem decode_of_rest (L : Lib) {body dashed : List Char} {code : String}
    (hstrip : stripPrefixes (clean code) = .ok dashed)
    (hdashed : List.Interspersed (· == '-') body dashed)
    (hbody : ∀ c ∈ body, c ∈ b32Alphabet) (hne : body ≠ []) :
    decode L code = b32NoPadDecode L body >>= decodeRaw L := by
  have hfilter : dashed.filter (· ≠ '-') = body := by
    have hnodash : ∀ c ∈ body, (c == '-') = false := by
      have hall : b32Alphabet.all (fun c => !(c == '-')) = true := by decide
      intro c hc
      simpa using List.all_eq_true.mp hall c (hbody c hc)
    rw [← hdashed.filter hnodash]
    apply List.filter_congr
    intro c _
    exact decide_not
  rw [decode, hstrip]
  dsimp only [bind, Except.bind]
  rw [hfilter, if_neg hne]

/-! ## Fields -/

/-- A text behind its length. -/
def field (text : String) : List UInt8 := UInt8.ofNat (utf8 text).length :: utf8 text

theorem encodeHint_eq {value : Option String} (h : ValidHint value) :
    encodeHint value = .ok (field (value.getD "")) := by
  cases value with
  | none => rfl
  | some v =>
    obtain ⟨hne, hle⟩ := h v rfl
    rw [encodeHint, if_neg hne]
    dsimp only
    rw [if_neg (Nat.not_lt.mpr hle)]
    rfl

/-- A hint is read as it was given. -/
theorem hint_getD {value : Option String} (h : ValidHint value) : hint (value.getD "") = value := by
  cases value with
  | none => rfl
  | some v => exact if_neg (h v rfl).1

theorem readLengthPrefixed_field (L : Lib) (before : List UInt8) {text : String}
    (after : List UInt8) (h : (utf8 text).length ≤ maxHintBytes) :
    readLengthPrefixed L (before ++ field text ++ after) before.length =
      .ok (text, (before ++ field text).length) := by
  have hbyte : (before ++ field text ++ after)[before.length]? =
      some (UInt8.ofNat (utf8 text).length) := by
    rw [List.append_assoc, List.getElem?_append_right (Nat.le_refl _), Nat.sub_self]
    rfl
  have hlength : (UInt8.ofNat (utf8 text).length).toNat = (utf8 text).length :=
    UInt8.toNat_ofNat_of_lt' (Nat.lt_succ_of_le h)
  have hbuf : before ++ field text ++ after =
      (before ++ [UInt8.ofNat (utf8 text).length]) ++ (utf8 text ++ after) := by
    simp [field]
  have hfield : ((before ++ field text ++ after).drop (before.length + 1)).take
      (utf8 text).length = utf8 text := by
    rw [hbuf, List.drop_left' (by simp), List.take_left]
  have hstop : before.length + 1 + (utf8 text).length = (before ++ field text).length := by
    simp [field]
    omega
  rw [readLengthPrefixed, hbyte]
  dsimp only
  rw [hlength, hfield, fromUtf8_utf8, hstop, if_neg (by simp)]

/-- The two bytes of the CRC. -/
theorem crc_bytes (crc : UInt16) :
    ((crc >>> 8).toUInt8.toUInt16 <<< 8) ||| (crc &&& 0xFF).toUInt8.toUInt16 = crc := by
  apply UInt16.toNat_inj.mp
  have hcrc := crc.toNat_lt
  have hamount : (8 : UInt16).toNat % 16 = 8 := rfl
  have hmask : (0xFF : UInt16).toNat = 2 ^ 8 - 1 := rfl
  rw [UInt16.toNat_or, UInt16.toNat_shiftLeft, UInt8.toNat_toUInt16, UInt8.toNat_toUInt16,
    UInt16.toNat_toUInt8, UInt16.toNat_toUInt8, UInt16.toNat_shiftRight, UInt16.toNat_and, hamount,
    hmask, Nat.and_two_pow_sub_one_eq_mod, Nat.shiftRight_eq_div_pow, Nat.mod_mod]
  rw [Nat.mod_eq_of_lt (a := crc.toNat / 2 ^ 8) (by omega),
    Nat.mod_eq_of_lt (a := (crc.toNat / 2 ^ 8) <<< 8) (by rw [Nat.shiftLeft_eq]; omega),
    ← Nat.shiftLeft_add_eq_or_of_lt (by omega), Nat.shiftLeft_eq]
  omega

/-- What is decoded has the CRC of its payload. -/
theorem decodeRaw_ok_iff {L : Lib} {payload : List UInt8} {hi lo : UInt8} {nc : NodeCode} :
    decodeRaw L (payload ++ [hi, lo]) = .ok nc ↔ minSize ≤ payload.length + 2 ∧
      (hi.toUInt16 <<< 8) ||| lo.toUInt16 = crc16Ccitt payload ∧
      parsePayload L payload = .ok nc := by
  have hlen : (payload ++ [hi, lo]).length = payload.length + 2 := by simp
  rw [decodeRaw, hlen, Nat.add_sub_cancel, List.take_left, List.drop_left]
  have hhi : [hi, lo].getD 0 0 = hi := rfl
  have hlo : [hi, lo].getD 1 0 = lo := rfl
  dsimp only [bind, Except.bind]
  rw [hhi, hlo]
  by_cases hsize : payload.length + 2 < minSize
  · rw [if_pos hsize]
    constructor
    · intro h
      cases h
    · intro h
      omega
  · rw [if_neg hsize]
    by_cases hcrc : (hi.toUInt16 <<< 8) ||| lo.toUInt16 = crc16Ccitt payload
    · rw [if_neg (not_not.mpr hcrc)]
      exact ⟨fun h => ⟨Nat.not_lt.mp hsize, hcrc, h⟩, fun h => h.2.2⟩
    · rw [if_pos hcrc]
      constructor
      · intro h
        cases h
      · intro h
        exact absurd h.2.1 hcrc

/-! ## Payload -/

/-- Version, hash and key: the part of a payload whose length is fixed. -/
def fixedPart (L : Lib) (nc : NodeCode) (raw : List UInt8) : List UInt8 :=
  cirisNodeCodeVersion :: L.sha256 (utf8 nc.keyId) ++ raw

/-- The bytes that a NodeCode stands for. -/
def payloadOf (L : Lib) (nc : NodeCode) (raw : List UInt8) : List UInt8 :=
  fixedPart L nc raw ++ field nc.keyId ++ field (nc.transportHint.getD "") ++
    field (nc.aliasHint.getD "")

section Lawful

variable {L : Lib} (hL : L.Lawful) {nc : NodeCode} (hvalid : Valid L nc) {raw : List UInt8}
  (hraw : raw.length = pubkeyRawLen) (hkey : nc.pubkeyEd25519Base64 = L.b64Encode raw)
include hL hraw

theorem length_fixedPart : (fixedPart L nc raw).length = 1 + keyIdHashLen + pubkeyRawLen := by
  rw [fixedPart, List.length_append, List.length_cons, hL.sha256_length, hraw,
    Nat.add_comm keyIdHashLen]

/-- The hash and the key come back. -/
theorem fixedPart_fields (after : List UInt8) :
    ((fixedPart L nc raw ++ after).drop 1).take keyIdHashLen = L.sha256 (utf8 nc.keyId) ∧
      ((fixedPart L nc raw ++ after).drop (1 + keyIdHashLen)).take pubkeyRawLen = raw := by
  have hhash := hL.sha256_length (utf8 nc.keyId)
  constructor
  · have hdrop : (fixedPart L nc raw ++ after).drop 1 =
        L.sha256 (utf8 nc.keyId) ++ (raw ++ after) := by
      simp [fixedPart]
    rw [hdrop, List.take_left' hhash]
  · have hsplit : fixedPart L nc raw ++ after =
        (cirisNodeCodeVersion :: L.sha256 (utf8 nc.keyId)) ++ (raw ++ after) := by
      simp [fixedPart]
    rw [hsplit, List.drop_left' (by rw [List.length_cons, hhash, Nat.add_comm]),
      List.take_left' hraw]

include hvalid hkey

theorem buildPayload_eq : buildPayload L nc = .ok (payloadOf L nc raw) := by
  have hb64 : (L.b64Decode nc.pubkeyEd25519Base64).mapError (fun e =>
      NodeCodeError.malformed s!"pubkey_ed25519_base64 is not valid base64: {e}") = .ok raw := by
    rw [hkey, hL.b64]
    rfl
  rw [buildPayload, hb64, encodeHint_eq hvalid.transportHint, encodeHint_eq hvalid.aliasHint]
  dsimp only [bind, Except.bind]
  rw [if_neg (Nat.not_lt.mpr hvalid.keyId_le), if_neg (not_not.mpr hraw)]
  rfl

/-- The fields come back. -/
theorem parsePayload_payloadOf : parsePayload L (payloadOf L nc raw) = .ok nc := by
  have hhint {value : Option String} (h : ValidHint value) :
      (utf8 (value.getD "")).length ≤ maxHintBytes := by
    cases value with
    | none => exact Nat.zero_le _
    | some v => exact (h v rfl).2
  have hkeyId : readLengthPrefixed L (payloadOf L nc raw) (1 + keyIdHashLen + pubkeyRawLen) =
      .ok (nc.keyId, (fixedPart L nc raw ++ field nc.keyId).length) := by
    have hread := readLengthPrefixed_field L (fixedPart L nc raw)
      (field (nc.transportHint.getD "") ++ field (nc.aliasHint.getD "")) hvalid.keyId_le
    rwa [← List.append_assoc, length_fixedPart hL hraw] at hread
  have htransport := readLengthPrefixed_field L (fixedPart L nc raw ++ field nc.keyId)
    (field (nc.aliasHint.getD "")) (hhint hvalid.transportHint)
  have halias := readLengthPrefixed_field L (fixedPart L nc raw ++ field nc.keyId ++
    field (nc.transportHint.getD "")) [] (hhint hvalid.aliasHint)
  rw [List.append_nil] at halias
  obtain ⟨hhash, hpubkey⟩ : _ ∧
      ((fixedPart L nc raw ++ _).drop (1 + keyIdHashLen)).take pubkeyRawLen = raw :=
    fixedPart_fields hL hraw
      (field nc.keyId ++ field (nc.transportHint.getD "") ++ field (nc.aliasHint.getD ""))
  rw [← List.append_assoc, ← List.append_assoc] at hhash hpubkey
  have hversion : (payloadOf L nc raw).headD 0 = cirisNodeCodeVersion := rfl
  rw [parsePayload, hversion, hkeyId]
  dsimp only [bind, Except.bind]
  rw [payloadOf, htransport]
  dsimp only
  rw [halias]
  dsimp only
  rw [hhash, hpubkey, if_neg (not_not.mpr rfl), if_neg (not_not.mpr rfl), if_neg hvalid.keyId_ne,
    if_neg (not_not.mpr rfl)]
  rw [hint_getD hvalid.transportHint, hint_getD hvalid.aliasHint, ← hkey]
  rfl

/-- The CRC behind the payload is the one that is computed. -/
theorem decodeRaw_payloadOf :
    decodeRaw L (payloadOf L nc raw ++ [(crc16Ccitt (payloadOf L nc raw) >>> 8).toUInt8,
      (crc16Ccitt (payloadOf L nc raw) &&& 0xFF).toUInt8]) = .ok nc := by
  have hparse := parsePayload_payloadOf hL hvalid hraw hkey
  have hsize : minSize ≤ (payloadOf L nc raw).length + 2 := by
    rw [payloadOf, List.length_append, List.length_append, List.length_append,
      length_fixedPart hL hraw, minSize]
    simp only [field, List.length_cons]
    omega
  exact decodeRaw_ok_iff.mpr ⟨hsize, crc_bytes _, hparse⟩

/-- The code is the digits of bytes that pass. -/
theorem encodeBody_eq : ∃ data, encodeBody L nc = .ok (b32NoPadEncode data) ∧
    (b32NoPadEncode data).head? = some 'A' ∧ decodeRaw L data = .ok nc :=
  ⟨_, by rw [encodeBody, buildPayload_eq hL hvalid hraw hkey]; rfl, rfl,
    decodeRaw_payloadOf hL hvalid hraw hkey⟩

end Lawful

/-! ## What is decoded -/

/-- A length is one byte. -/
theorem readLengthPrefixed_le {L : Lib} {buf : List UInt8} {offset stop : Nat} {text : String}
    (h : readLengthPrefixed L buf offset = .ok (text, stop)) :
    (utf8 text).length ≤ maxHintBytes := by
  rw [readLengthPrefixed] at h
  cases hbyte : buf[offset]? with
  | none =>
    rw [hbyte] at h
    cases h
  | some byte =>
    rw [hbyte] at h
    dsimp only at h
    split at h
    · cases h
    · cases htext : fromUtf8 ((buf.drop (offset + 1)).take byte.toNat) with
      | none =>
        rw [htext] at h
        cases h
      | some value =>
        rw [htext] at h
        cases h
        have hlt := byte.toNat_lt
        rw [utf8_of_fromUtf8 htext, List.length_take, maxHintBytes]
        omega

theorem validHint_hint {text : String} (h : (utf8 text).length ≤ maxHintBytes) :
    ValidHint (hint text) := by
  intro v hv
  rw [hint] at hv
  split at hv
  · cases hv
  · next hne =>
    cases hv
    exact ⟨hne, h⟩

theorem parsePayload_valid {L : Lib} {payload : List UInt8} {nc : NodeCode}
    (hsize : minSize ≤ payload.length + 2) (h : parsePayload L payload = .ok nc) :
    Valid L nc := by
  rw [parsePayload] at h
  dsimp only at h
  split at h
  · cases h
  obtain ⟨⟨keyId, offset⟩, hkeyId, h⟩ := except_bind_ok h
  obtain ⟨⟨transport, offset'⟩, htransport, h⟩ := except_bind_ok h
  obtain ⟨⟨nickname, stop⟩, halias, h⟩ := except_bind_ok h
  dsimp only at h
  split at h
  · cases h
  split at h
  · cases h
  next hne =>
    split at h
    · cases h
    cases h
    refine ⟨hne, readLengthPrefixed_le hkeyId, ⟨_, ?_, rfl⟩,
      validHint_hint (readLengthPrefixed_le htransport),
      validHint_hint (readLengthPrefixed_le halias)⟩
    rw [List.length_take, List.length_drop]
    simp only [minSize, keyIdHashLen, pubkeyRawLen] at hsize ⊢
    omega

/-- What passes is a payload and its CRC. -/
theorem decodeRaw_ok {L : Lib} {raw : List UInt8} {nc : NodeCode}
    (h : decodeRaw L raw = .ok nc) :
    ∃ (payload : List UInt8) (hi lo : UInt8), raw = payload ++ [hi, lo] ∧
      minSize ≤ payload.length + 2 ∧ (hi.toUInt16 <<< 8) ||| lo.toUInt16 = crc16Ccitt payload ∧
      parsePayload L payload = .ok nc := by
  have hsize : minSize ≤ raw.length := by
    rw [decodeRaw] at h
    dsimp only at h
    split at h
    · cases h
    · next hsize => exact Nat.not_lt.mp hsize
  have htail : (raw.drop (raw.length - 2)).length = 2 := by
    rw [List.length_drop]
    simp only [minSize, keyIdHashLen, pubkeyRawLen] at hsize
    omega
  obtain ⟨hi, lo, hcrc⟩ := List.length_eq_two.mp htail
  have hraw : raw = raw.take (raw.length - 2) ++ [hi, lo] := by
    rw [← hcrc, List.take_append_drop]
  rw [hraw] at h
  exact ⟨_, hi, lo, hraw, decodeRaw_ok_iff.mp h⟩

/-- What is decoded is well formed. -/
theorem decode_valid {L : Lib} {code : String} {nc : NodeCode} (h : decode L code = .ok nc) :
    Valid L nc := by
  obtain ⟨rest, -, h⟩ := except_bind_ok h
  dsimp only at h
  split at h
  · cases h
  obtain ⟨raw, -, h⟩ := except_bind_ok h
  obtain ⟨payload, hi, lo, -, hsize, -, hparse⟩ := decodeRaw_ok h
  exact parsePayload_valid hsize hparse

/-! ## Round trip -/

/-- A body that is made of a NodeCode starts with its version, so it does not go on with the
    digits of a prefix without a dash. -/
theorem takeWhile_isDigit_eq_nil {body dashed : List Char}
    (h : List.Interspersed (· == '-') body dashed) (hhead : body.head? = some 'A') :
    dashed.takeWhile Char.isDigit = [] := by
  cases h with
  | nil => rfl
  | keep c =>
    rw [List.head?_cons, Option.some.injEq] at hhead
    rw [hhead]
    rfl
  | insert hdash =>
    rw [beq_iff_eq.mp hdash]
    rfl

theorem decode_of_presents (L : Lib) {body : List Char} {code : String}
    (hbody : ∀ c ∈ body, c ∈ b32Alphabet) (hhead : body.head? = some 'A')
    (h : Presents body code) : decode L code = b32NoPadDecode L body >>= decodeRaw L := by
  have hne : body ≠ [] := by
    intro hnil
    rw [hnil] at hhead
    cases hhead
  obtain ⟨dashed, hdashed, hclean⟩ := clean_of_presents hbody h
  have hstrip : stripPrefixes (clean code) = .ok dashed := by
    rcases hclean with hclean | hclean
    · rw [hclean]
      exact stripPrefixes_dashed dashed
    · rw [hclean]
      exact stripPrefixes_undashed (takeWhile_isDigit_eq_nil hdashed hhead)
  exact decode_of_rest L hstrip hdashed hbody hne

/-- **Round trip.** A NodeCode comes back from every presentation of its code, of which `encode`
    and `encodeQr` write two; and what was decoded can be encoded, and comes back. -/
theorem codec_round_trip (L : Lib) (hL : L.Lawful) :
    (∀ nc, Valid L nc → ∃ body code qr, encodeBody L nc = .ok body ∧ encode L nc = .ok code ∧
      encodeQr L nc = .ok qr ∧ Presents body code ∧ Presents body qr ∧
      ∀ s, Presents body s → decode L s = .ok nc) ∧
    ∀ s nc, decode L s = .ok nc → ∃ code, encode L nc = .ok code ∧ decode L code = .ok nc := by
  have hforth : ∀ nc, Valid L nc → ∃ body code qr, encodeBody L nc = .ok body ∧
      encode L nc = .ok code ∧ encodeQr L nc = .ok qr ∧ Presents body code ∧ Presents body qr ∧
      ∀ s, Presents body s → decode L s = .ok nc := by
    intro nc hvalid
    obtain ⟨raw, hraw, hkey⟩ := hvalid.pubkey
    obtain ⟨data, hencode, hhead, hdecode⟩ := encodeBody_eq hL hvalid hraw hkey
    refine ⟨b32NoPadEncode data, _, _, hencode, by rw [encode, hencode]; rfl,
      by rw [encodeQr, hencode]; rfl, presents_of_dashed (group_interspersed _) (by simp),
      presents_of_dashed (.refl _ _) (by simp), ?_⟩
    intro s hs
    rw [decode_of_presents L (fun c hc => mem_b32NoPadEncode hc) hhead hs, b32_round_trip]
    exact hdecode
  refine ⟨hforth, ?_⟩
  intro s nc h
  obtain ⟨body, code, qr, -, hcode, -, hpresents, -, hback⟩ := hforth nc (decode_valid h)
  exact ⟨code, hcode, hback code hpresents⟩

/-! ## One node -/

def zeroKey : List UInt8 := List.replicate pubkeyRawLen 0

def zeroKeyBase64 : String := "AAAAAAAAAAAAAAAAAAAAAAAAAAAAAAAAAAAAAAAAAAA="

/-- SHA-256 of the key id `a` and base64 of the key of zeros are what they are; other keys have
    texts of their own. -/
def sampleLib : Lib where
  sha256 data :=
    if data = utf8 "a" then [
      0xca, 0x97, 0x81, 0x12, 0xca, 0x1b, 0xbd, 0xca, 0xfa, 0xc2, 0x31, 0xb3,
      0x9a, 0x23, 0xdc, 0x4d, 0xa7, 0x86, 0xef, 0xf8, 0x14, 0x7c, 0x4e, 0x72,
      0xb9, 0x80, 0x77, 0x85, 0xaf, 0xee, 0x48, 0xbb]
    else List.replicate keyIdHashLen 0
  b64Encode data :=
    if data = zeroKey then zeroKeyBase64 else String.ofList ('=' :: data.map Char.ofUInt8)
  b64Decode text :=
    .ok (if text = zeroKeyBase64 then zeroKey else (text.toList.drop 1).map Char.toUInt8)
  utf8Error _ := "invalid utf-8 sequence"
  debugChar byte := String.singleton (Char.ofUInt8 byte)

theorem sampleLib_b64Encode (data : List UInt8) : sampleLib.b64Encode data =
    if data = zeroKey then zeroKeyBase64 else String.ofList ('=' :: data.map Char.ofUInt8) := rfl

theorem sampleLib_lawful : sampleLib.Lawful where
  b64 data := by
    show Except.ok (if sampleLib.b64Encode data = zeroKeyBase64 then _ else _) = Except.ok data
    congr 1
    by_cases h : data = zeroKey
    · rw [sampleLib_b64Encode, if_pos h, if_pos rfl, h]
    · have hne : String.ofList ('=' :: data.map Char.ofUInt8) ≠ zeroKeyBase64 := by
        intro heq
        have hhead : some '=' = some 'A' := by
          have hchars := congrArg (fun s => s.toList.head?) heq
          rwa [String.toList_ofList] at hchars
        cases hhead
      have hbyte (b : UInt8) : (Char.ofUInt8 b).toUInt8 = b := by
        show b.toUInt32.toUInt8 = b
        simp
      rw [sampleLib_b64Encode, if_neg h, if_neg hne, String.toList_ofList, List.drop_one,
        List.tail_cons, List.map_map]
      exact (List.map_congr_left fun b _ => hbyte b).trans (List.map_id data)
  sha256_length data := by
    show (ite (data = utf8 "a") _ (List.replicate keyIdHashLen 0)).length = keyIdHashLen
    split
    · rfl
    · exact List.length_replicate

def sample : NodeCode := ⟨"a", zeroKeyBase64, none, some "b"⟩

theorem sample_valid : Valid sampleLib sample where
  keyId_ne := by decide
  keyId_le := by decide
  pubkey := by
    refine ⟨zeroKey, rfl, ?_⟩
    rw [sampleLib_b64Encode, if_pos rfl]
    rfl
  transportHint := by
    intro v hv
    cases hv
  aliasHint := by
    intro v hv
    cases hv
    decide

theorem codec_round_trip_sample : ∃ code, encode sampleLib sample = .ok code ∧
    decode sampleLib code = .ok sample ∧ decode sampleLib (" " ++ code) = .ok sample := by
  obtain ⟨hforth, hback⟩ := codec_round_trip sampleLib sampleLib_lawful
  obtain ⟨body, code, qr, -, hcode, -, hpresents, -, hdecode⟩ := hforth sample sample_valid
  obtain ⟨again, hagain, hsame⟩ := hback code sample (hdecode code hpresents)
  have hcodes : again = code := Except.ok.inj (hagain.symm.trans hcode)
  rw [hcodes] at hsame
  obtain ⟨head, hhead, dashed, spaced, hdashed, hspaced, hcase⟩ := hpresents
  have hblank : Presents body (" " ++ code) := by
    refine ⟨head, hhead, dashed, ' ' :: spaced, hdashed, .insert rfl hspaced, ?_⟩
    rw [List.map_cons, hcase, String.toList_append, List.map_append]
    rfl
  exact ⟨code, hcode, hsame, hdecode _ hblank⟩

end CirisServer.NodeCode
