import CirisServer.ForStd.Crc
import CirisServer.Spec.NodeCode

/-!
# Misread NodeCodes

The CRC of a code is the residue of its bits, so that a code whose bits differ within two
characters is refused, wherever the two lie: in the fields, in the CRC or across its border.

Key results:
- `crc_matches_iff`: the CRC matches if nothing is left over
- `misread_bits`: a misread code differs in two characters at most
- `misread_detected`: it is refused, or nothing but the filling of the last character changed
-/

namespace CirisServer.NodeCode

open BitStream

/-! ## The CRC is a residue -/

def crcPolynomial : BitVec 16 := crcPoly.toBitVec

theorem crcPolynomial_odd : crcPolynomial.getLsbD 0 = true := by decide

theorem toBitVec_crcTurn (crc : UInt16) :
    (crcTurn crc).toBitVec = Crc.shift crcPolynomial crc.toBitVec := by
  have htop : (crc &&& 0x8000).toBitVec =
      if crc.toBitVec.msb then BitVec.twoPow 16 15 else 0#16 := by
    rw [BitVec.msb_eq_getLsbD_last, ← BitVec.and_twoPow]
    rfl
  rw [crcTurn, Crc.shift, Crc.feedback]
  cases hmsb : crc.toBitVec.msb with
  | true =>
    have hne : crc &&& 0x8000 ≠ 0 := by
      intro h
      rw [h, hmsb] at htop
      cases htop
    rw [if_pos hne, if_pos rfl]
    rfl
  | false =>
    have heq : crc &&& 0x8000 = 0 := by
      rw [hmsb] at htop
      exact UInt16.toBitVec_inj.mp htop
    rw [if_neg (not_not.mpr heq), if_neg Bool.false_ne_true]
    exact (BitVec.xor_zero).symm

theorem toBitVec_repeat (n : Nat) (crc : UInt16) :
    (Nat.repeat crcTurn n crc).toBitVec = Crc.shifts crcPolynomial n crc.toBitVec := by
  induction n with
  | zero => rfl
  | succ n ih => rw [Crc.shifts_succ', ← ih, Nat.repeat, toBitVec_crcTurn]

/-- Eight turns take eight bits in. -/
theorem toBitVec_crcByte (crc : UInt16) (byte : UInt8) :
    (crcByte crc byte).toBitVec = Crc.residue crcPolynomial crc.toBitVec (msb 8 byte.toNat) := by
  have hbyte : (Crc.align (msb 8 byte.toNat) : BitVec 16) = (byte.toUInt16 <<< 8).toBitVec := by
    rw [Crc.align_msb (by omega)]
    apply BitVec.eq_of_toNat_eq
    simp
  rw [crcByte, toBitVec_repeat, UInt16.toBitVec_xor, ← hbyte,
    Crc.residue_eq_shifts _ (by rw [length_msb]; omega), length_msb]

theorem toBitVec_foldl_crcByte (crc : UInt16) (data : List UInt8) :
    (data.foldl crcByte crc).toBitVec = Crc.residue crcPolynomial crc.toBitVec (bytes data) := by
  induction data generalizing crc with
  | nil => rfl
  | cons byte data ih =>
    rw [List.foldl_cons, ih, toBitVec_crcByte, bytes_cons, Crc.residue_append]

/-- The CRC matches if nothing is left over. -/
theorem crc_matches_iff (payload : List UInt8) (hi lo : UInt8) :
    (hi.toUInt16 <<< 8) ||| lo.toUInt16 = crc16Ccitt payload ↔
      Crc.residue crcPolynomial crcInit.toBitVec (bytes (payload ++ [hi, lo])) = 0 := by
  have hdeclared : (Crc.align (bytes [hi, lo]) : BitVec 16) =
      ((hi.toUInt16 <<< 8) ||| lo.toUInt16).toBitVec := by
    have hbits : bytes [hi, lo] = msb 16 (hi.toNat <<< 8 ||| lo.toNat) := by
      rw [bytes_cons, bytes_cons, bytes_nil, List.append_nil]
      exact (msb_shiftLeft_or lo.toNat_lt 8 hi.toNat).symm
    rw [hbits, Crc.align_msb (Nat.le_refl 16)]
    apply BitVec.eq_of_toNat_eq
    simp
  rw [bytes_append, Crc.residue_append, Crc.residue_eq_zero_iff crcPolynomial_odd (by simp),
    hdeclared, ← toBitVec_foldl_crcByte, UInt16.toBitVec_inj]
  exact eq_comm

/-- A change within 16 bits leaves something over. -/
theorem residue_changed {before e e' after : List Bool} (hlen : e.length = e'.length)
    (hle : e.length ≤ 16)
    (h : Crc.residue crcPolynomial crcInit.toBitVec (before ++ e ++ after) = 0)
    (h' : Crc.residue crcPolynomial crcInit.toBitVec (before ++ e' ++ after) = 0) : e = e' :=
  Crc.residue_burst crcPolynomial_odd hlen hle (h.trans h'.symm)

/-! ## Misread codes -/

/-- `body'` is `body` with one character replaced by another, or with two neighbours exchanged. -/
inductive Misread : List Char → List Char → Prop
  | replaced (before after : List Char) {c d : Char} : d ∈ b32Alphabet → c ≠ d →
      Misread (before ++ c :: after) (before ++ d :: after)
  | swapped (before after : List Char) (c d : Char) :
      Misread (before ++ c :: d :: after) (before ++ d :: c :: after)

/-- The bits of a text that are bytes. The rest fills up the last character. -/
def dataBits (body : List Char) : List Bool :=
  (bodyBits body).take (8 * (5 * body.length / 8))

theorem Misread.mem {body body' : List Char} (h : Misread body body')
    (hbody : ∀ c ∈ body, c ∈ b32Alphabet) : ∀ c ∈ body', c ∈ b32Alphabet := by
  cases h with
  | replaced before after hd _ =>
    intro x hx
    rcases List.mem_append.mp hx with hx | hx
    · exact hbody x (List.mem_append_left _ hx)
    · rcases List.mem_cons.mp hx with rfl | hx
      · exact hd
      · exact hbody x (List.mem_append_right _ (List.mem_cons_of_mem _ hx))
  | swapped before after c d =>
    intro x hx
    apply hbody x
    simp only [List.mem_append, List.mem_cons] at hx ⊢
    tauto

theorem Misread.length {body body' : List Char} (h : Misread body body') :
    body'.length = body.length := by
  cases h <;> simp

/-- A misread code differs in two characters at most. -/
theorem misread_bits {body body' : List Char} (h : Misread body body') :
    ∃ before e e' after, bodyBits body = before ++ e ++ after ∧
      bodyBits body' = before ++ e' ++ after ∧ e.length = e'.length ∧ e.length ≤ 10 := by
  cases h with
  | @replaced before after c d _ _ =>
    refine ⟨bodyBits before, msb 5 (b32Digit c), msb 5 (b32Digit d), bodyBits after, ?_, ?_, ?_, ?_⟩
    · rw [bodyBits_append, bodyBits_cons, List.append_assoc]
    · rw [bodyBits_append, bodyBits_cons, List.append_assoc]
    · rw [length_msb, length_msb]
    · rw [length_msb]
      omega
  | swapped before after c d =>
    refine ⟨bodyBits before, bodyBits [c, d], bodyBits [d, c], bodyBits after, ?_, ?_, ?_, ?_⟩
    · rw [← bodyBits_append, ← bodyBits_append, List.append_assoc]
      rfl
    · rw [← bodyBits_append, ← bodyBits_append, List.append_assoc]
      rfl
    · rw [length_bodyBits, length_bodyBits]
      rfl
    · rw [length_bodyBits]
      exact Nat.le_refl 10

/-- What is decoded of a text has its data bits. -/
theorem decode_dataBits (L : Lib) {body : List Char} (hbody : ∀ c ∈ body, c ∈ b32Alphabet) :
    ∃ raw, b32NoPadDecode L body = .ok raw ∧ bytes raw = dataBits body :=
  b32NoPadDecode_spec L hbody

/-- What passes leaves nothing over. -/
theorem residue_of_decodeRaw {L : Lib} {raw : List UInt8} {nc : NodeCode}
    (h : decodeRaw L raw = .ok nc) :
    Crc.residue crcPolynomial crcInit.toBitVec (bytes raw) = 0 := by
  obtain ⟨payload, hi, lo, hraw, -, hcrc, -⟩ := decodeRaw_ok h
  rw [hraw]
  exact (crc_matches_iff payload hi lo).mp hcrc

/-- **Two misread characters.** Both pass only if they have the same data bits. -/
theorem dataBits_eq_of_decodeRaw {L : Lib} {body body' : List Char} (h : Misread body body')
    {raw raw' : List UInt8} {nc nc' : NodeCode} (hraw : bytes raw = dataBits body)
    (hraw' : bytes raw' = dataBits body') (hok : decodeRaw L raw = .ok nc)
    (hok' : decodeRaw L raw' = .ok nc') : dataBits body' = dataBits body := by
  obtain ⟨before, e, e', after, hbits, hbits', hlen, hle⟩ := misread_bits h
  have hres := residue_of_decodeRaw hok
  have hres' := residue_of_decodeRaw hok'
  rw [hraw, dataBits, hbits] at hres
  rw [hraw', dataBits, hbits', h.length] at hres'
  rw [dataBits, dataBits, hbits, hbits', h.length]
  generalize 8 * (5 * body.length / 8) = n at hres hres' ⊢
  simp only [List.take_append, List.length_append, ← hlen] at hres hres' ⊢
  have hsame : e.take (n - before.length) = e'.take (n - before.length) := by
    apply residue_changed _ _ hres hres'
    · rw [List.length_take, List.length_take, hlen]
    · rw [List.length_take]
      omega
  rw [hsame]

/-! ## The filling of the last character -/

theorem bodyBits_inj {body body' : List Char} (hbody : ∀ c ∈ body, c ∈ b32Alphabet)
    (hbody' : ∀ c ∈ body', c ∈ b32Alphabet) (hlen : body.length = body'.length)
    (h : bodyBits body = bodyBits body') : body = body' := by
  have hdigits : body.map b32Digit = body'.map b32Digit := by
    apply stream_inj (by simpa using hlen) _ _ h
    · intro d hd
      obtain ⟨c, hc, rfl⟩ := List.mem_map.mp hd
      exact (mem_alphabet (hbody c hc)).2.1
    · intro d hd
      obtain ⟨c, hc, rfl⟩ := List.mem_map.mp hd
      exact (mem_alphabet (hbody' c hc)).2.1
  have hchars (l : List Char) (hl : ∀ c ∈ l, c ∈ b32Alphabet) :
      (l.map b32Digit).map (fun d => b32Alphabet[d]?) = l.map some := by
    rw [List.map_map]
    exact List.map_congr_left fun c hc => (mem_alphabet (hl c hc)).2.2.1
  have hsome : body.map some = body'.map some := by
    rw [← hchars body hbody, ← hchars body' hbody', hdigits]
  exact (List.map_inj_right fun _ _ => Option.some.inj).mp hsome

/-- Where less than a character is filled up, the data bits say all characters but the last. -/
theorem dropLast_eq_of_dataBits {body body' : List Char} (hbody : ∀ c ∈ body, c ∈ b32Alphabet)
    (hbody' : ∀ c ∈ body', c ∈ b32Alphabet) (hlen : body'.length = body.length)
    (hpad : 5 * body.length % 8 < 5) (h : dataBits body' = dataBits body) :
    body'.dropLast = body.dropLast := by
  have hcut (l : List Char) : (bodyBits l).take (5 * (l.length - 1)) = bodyBits l.dropLast := by
    rcases List.eq_nil_or_concat l with rfl | ⟨init, last, rfl⟩
    · rfl
    · rw [List.concat_eq_append, List.dropLast_concat, bodyBits_append, List.length_append]
      exact List.take_left' (by rw [length_bodyBits]; rfl)
  have hshort : 5 * (body.length - 1) ≤ 8 * (5 * body.length / 8) := by omega
  have hbits : bodyBits body'.dropLast = bodyBits body.dropLast := by
    rw [← hcut, ← hcut, hlen]
    have htake := congrArg (List.take (5 * (body.length - 1))) h
    rwa [dataBits, dataBits, hlen, List.take_take, List.take_take, Nat.min_eq_left hshort] at htake
  apply bodyBits_inj _ _ _ hbits
  · exact fun c hc => hbody' c (List.dropLast_subset _ hc)
  · exact fun c hc => hbody c (List.dropLast_subset _ hc)
  · rw [List.length_dropLast, List.length_dropLast, hlen]

/-! ## A digit behind the prefix without a dash -/

theorem le_foldl_digits (digits : List Char) (n : Nat) :
    n ≤ digits.foldl (fun n c => n * 10 + (c.toNat - 48)) n := by
  induction digits generalizing n with
  | nil => exact Nat.le_refl n
  | cons c digits ih =>
    rw [List.foldl_cons]
    have hnext := ih (n * 10 + (c.toNat - 48))
    omega

/-- A version that goes on after the `1` is another one. -/
theorem checkTextualVersion_of_digits (d : Char) (digits : List Char) (malformed : String) :
    ∃ e, checkTextualVersion ('1' :: d :: digits) malformed = .error e := by
  have hsign : (List.stripPrefix? ['+'] ('1' :: d :: digits)).getD ('1' :: d :: digits) =
      '1' :: d :: digits := rfl
  rw [checkTextualVersion, parseU32, hsign]
  dsimp only
  split
  · exact ⟨_, rfl⟩
  · next declared hparse =>
    have hlarge : 10 ≤ declared := by
      split at hparse
      · cases hparse
      · split at hparse
        · cases hparse
          have hfold := le_foldl_digits digits (1 * 10 + (d.toNat - 48))
          exact Nat.le_trans (by omega) hfold
        · cases hparse
    have hother : declared ≠ cirisNodeCodeVersion.toNat := by
      show declared ≠ 1
      omega
    rw [if_pos hother]
    exact ⟨_, rfl⟩

theorem stripPrefixes_digits {rest : List Char} (h : rest.takeWhile Char.isDigit ≠ []) :
    ∃ e, stripPrefixes ("CIRISV1".toList ++ rest) = .error e := by
  obtain ⟨d, digits, hdigits⟩ := List.exists_cons_of_ne_nil h
  have htake : ('1' :: rest).takeWhile Char.isDigit = '1' :: d :: digits := by
    rw [List.takeWhile_cons_of_pos rfl, hdigits]
  obtain ⟨e, he⟩ := checkTextualVersion_of_digits d digits "malformed CIRISV<version> prefix"
  have hstrip : stripUndashedPrefix ("CIRISV1".toList ++ rest) = .error e := by
    have hafter : List.stripPrefix? "CIRISV".toList ("CIRISV1".toList ++ rest) =
        some ('1' :: rest) := rfl
    rw [stripUndashedPrefix, hafter]
    dsimp only
    rw [htake, he]
    rfl
  have hdashed : stripDashedPrefix ("CIRISV1".toList ++ rest) = .ok none := rfl
  refine ⟨e, ?_⟩
  rw [stripPrefixes, hdashed, hstrip]
  rfl

/-- A presentation of any text is refused, or decoded as the text is. -/
theorem decode_of_presents_or (L : Lib) {body : List Char} {code : String}
    (hbody : ∀ c ∈ body, c ∈ b32Alphabet) (hne : body ≠ []) (h : Presents body code) :
    (∃ e, decode L code = .error e) ∨ decode L code = b32NoPadDecode L body >>= decodeRaw L := by
  obtain ⟨dashed, hdashed, hclean⟩ := clean_of_presents hbody h
  rcases hclean with hclean | hclean
  · have hstrip : stripPrefixes (clean code) = .ok dashed := by
      rw [hclean]
      exact stripPrefixes_dashed dashed
    exact Or.inr (decode_of_rest L hstrip hdashed hbody hne)
  · by_cases hdigits : dashed.takeWhile Char.isDigit = []
    · have hstrip : stripPrefixes (clean code) = .ok dashed := by
        rw [hclean]
        exact stripPrefixes_undashed hdigits
      exact Or.inr (decode_of_rest L hstrip hdashed hbody hne)
    · obtain ⟨e, he⟩ := stripPrefixes_digits hdigits
      refine Or.inl ⟨e, ?_⟩
      rw [decode, hclean, he]
      rfl

/-! ## Detection -/

/-- **One misread character, or two exchanged ones.** The code is refused; or it is decoded to the
    same NodeCode, and then nothing but the filling of the last character changed. -/
theorem misread_detected (L : Lib) (hL : L.Lawful) {nc : NodeCode} (hvalid : Valid L nc)
    {body body' : List Char} (hencode : encodeBody L nc = .ok body) (hmisread : Misread body body')
    {code : String} (hcode : Presents body' code) :
    (∃ e, decode L code = .error e) ∨
      (decode L code = .ok nc ∧ body'.dropLast = body.dropLast ∧
        dataBits body' = dataBits body) := by
  obtain ⟨key, hkeyLen, hkey⟩ := hvalid.pubkey
  obtain ⟨data, hdata, hhead, hok⟩ := encodeBody_eq hL hvalid hkeyLen hkey
  obtain rfl : b32NoPadEncode data = body := Except.ok.inj (hdata.symm.trans hencode)
  have hbody : ∀ c ∈ b32NoPadEncode data, c ∈ b32Alphabet := fun c hc => mem_b32NoPadEncode hc
  have hbody' := hmisread.mem hbody
  have hne : body' ≠ [] := by
    intro hnil
    have hlen := hmisread.length
    rw [hnil, List.length_nil] at hlen
    rw [List.eq_nil_of_length_eq_zero hlen.symm] at hhead
    cases hhead
  -- the data bits of the code are those of the bytes
  obtain ⟨raw, hraw, hbits⟩ := decode_dataBits L hbody
  obtain rfl : data = raw := Except.ok.inj ((b32_round_trip L data).symm.trans hraw)
  obtain ⟨raw', hraw', hbits'⟩ := decode_dataBits L hbody'
  rcases decode_of_presents_or L hbody' hne hcode with herror | hdecode
  · exact Or.inl herror
  have hdecodeRaw : decode L code = decodeRaw L raw' := by
    rw [hdecode, hraw']
    rfl
  cases hresult : decodeRaw L raw' with
  | error e => exact Or.inl ⟨e, hdecodeRaw.trans hresult⟩
  | ok nc' =>
    have hsame : dataBits body' = dataBits (b32NoPadEncode data) :=
      dataBits_eq_of_decodeRaw hmisread hbits hbits' hok hresult
    have hraws : raw' = data := bytes_inj (by rw [hbits', hsame, ← hbits])
    refine Or.inr ⟨by rw [hdecodeRaw, hraws, hok], ?_, hsame⟩
    have hpad : 5 * (b32NoPadEncode data).length % 8 < 5 := by
      obtain ⟨pad, hpad, hfill⟩ := bodyBits_encode data
      have hlen := congrArg List.length hfill
      rw [length_bodyBits, List.length_append, length_bytes, List.length_replicate] at hlen
      rw [hlen, Nat.mul_add_mod, Nat.mod_eq_of_lt (by omega)]
      exact hpad
    exact dropLast_eq_of_dataBits hbody hbody' hmisread.length hpad hsame

theorem misread_detected_sample : ∃ body e, encodeBody sampleLib sample = .ok ('A' :: body) ∧
    decode sampleLib (codePrefix ++ String.ofList ('B' :: body)) = .error e := by
  obtain ⟨data, hencode, hhead, hok⟩ :=
    encodeBody_eq sampleLib_lawful sample_valid (show zeroKey.length = _ from rfl) (by
      show zeroKeyBase64 = _
      rw [sampleLib_b64Encode, if_pos rfl])
  obtain ⟨body, hbody⟩ := List.head?_eq_some_iff.mp hhead
  have hmisread : Misread (b32NoPadEncode data) ('B' :: body) := by
    rw [hbody]
    exact .replaced [] body (by decide) (by decide)
  have hpresents : Presents ('B' :: body) (codePrefix ++ String.ofList ('B' :: body)) :=
    presents_of_dashed (.refl _ _) (by rw [String.toList_append, String.toList_ofList])
  rcases misread_detected sampleLib sampleLib_lawful sample_valid hencode hmisread hpresents with
    ⟨e, he⟩ | ⟨-, hlast, -⟩
  · rw [hbody] at hencode
    exact ⟨body, e, hencode, he⟩
  · -- the first character is not the last
    have hlong : body ≠ [] := by
      intro hnil
      obtain ⟨payload, hi, lo, hdata, hsize, -⟩ := decodeRaw_ok hok
      obtain ⟨pad, hpad, hfill⟩ := bodyBits_encode data
      have hlen := congrArg List.length hfill
      rw [hbody, hnil, hdata] at hlen
      simp [minSize] at hlen hsize
      omega
    rw [hbody] at hlast
    obtain ⟨c, rest, rfl⟩ := List.exists_cons_of_ne_nil hlong
    cases hlast

end CirisServer.NodeCode
