import CirisServer.ForStd.BitStream
import CirisServer.Native.NodeCode

/-!
# Base32 as bits

The encoder and the decoder shift bytes and digits through one word. What comes out has the bits
of what went in: the encoder's last digit is filled up with zeros, and the decoder drops what is
left of a byte.

Key results:
- `bodyBits_encode`: the digits of bytes
- `b32NoPadDecode_spec`: the bytes of digits
- `b32_round_trip`: decoding what was encoded
-/

namespace CirisServer.NodeCode

open BitStream

/-! ## The word -/

/-- A digit of `k` bits is shifted in. -/
theorem msb_shiftIn {buffer v amount : UInt32} {k w : Nat} (hamount : amount.toNat = k)
    (hv : v.toNat < 2 ^ k) (h : w + k < 32) :
    msb (w + k) ((buffer <<< amount) ||| v).toNat = msb w buffer.toNat ++ msb k v.toNat := by
  rw [← msb_shiftLeft_or hv]
  apply msb_congr
  intro i hi
  have hmod : amount.toNat % 32 = k := by rw [hamount, Nat.mod_eq_of_lt (by omega)]
  have hlow : i < 32 := by omega
  rw [UInt32.toNat_or, UInt32.toNat_shiftLeft, hmod, Nat.testBit_or, Nat.testBit_or,
    Nat.testBit_mod_two_pow]
  simp [hlow]

/-- The `k` bits above the low `w`. -/
theorem msb_shiftOut {buffer mask : UInt32} {k w : Nat} (hmask : mask.toNat = 2 ^ k - 1)
    (hw : w < 32) :
    msb k ((buffer >>> UInt32.ofNat w) &&& mask).toNat = msb k (buffer.toNat / 2 ^ w) := by
  have hmod : (UInt32.ofNat w).toNat % 32 = w := by
    rw [UInt32.toNat_ofNat_of_lt' (by simp [UInt32.size]; omega), Nat.mod_eq_of_lt hw]
  rw [UInt32.toNat_and, UInt32.toNat_shiftRight, hmod, hmask, Nat.and_two_pow_sub_one_eq_mod,
    Nat.shiftRight_eq_div_pow, msb_mod (Nat.le_refl k)]

/-! ## The alphabet -/

/-- What a character of the alphabet stands for. -/
def b32Digit (c : Char) : Nat := ((b32Value c.toNat.toUInt8).getD 0).toNat

/-- The bits of a text of the alphabet. -/
def bodyBits (body : List Char) : List Bool := stream 5 (body.map b32Digit)

@[simp] theorem bodyBits_nil : bodyBits [] = [] := rfl

@[simp] theorem bodyBits_cons (c : Char) (body : List Char) :
    bodyBits (c :: body) = msb 5 (b32Digit c) ++ bodyBits body := rfl

@[simp] theorem bodyBits_append (body body' : List Char) :
    bodyBits (body ++ body') = bodyBits body ++ bodyBits body' := by
  simp [bodyBits]

@[simp] theorem length_bodyBits (body : List Char) : (bodyBits body).length = 5 * body.length := by
  simp [bodyBits]

/-- The alphabet and its values. -/
theorem alphabet_spec : b32Alphabet.all (fun c => c.toNat < 128 &&
    (b32Value c.toNat.toUInt8).any fun v => v.toNat < 32 && b32Alphabet[v.toNat]? == some c) =
      true := by
  decide

theorem mem_alphabet {c : Char} (h : c ∈ b32Alphabet) :
    c.toNat < 128 ∧ b32Digit c < 32 ∧ b32Alphabet[b32Digit c]? = some c ∧
      b32Value c.toNat.toUInt8 = some (UInt32.ofNat (b32Digit c)) := by
  have hc := List.all_eq_true.mp alphabet_spec c h
  rw [Bool.and_eq_true, decide_eq_true_eq, Option.any_eq_true] at hc
  obtain ⟨hascii, v, hv, hvalue⟩ := hc
  rw [Bool.and_eq_true, decide_eq_true_eq, beq_iff_eq] at hvalue
  have hdigit : b32Digit c = v.toNat := by rw [b32Digit, hv, Option.getD_some]
  rw [hdigit]
  refine ⟨hascii, hvalue.1, hvalue.2, ?_⟩
  rw [hv, UInt32.ofNat_toNat]

theorem digits_spec :
    (List.range 32).all (fun n => b32Digit (b32Alphabet.getD n 'A') == n) = true := by
  decide

/-- A digit's character stands for it. -/
theorem b32Digit_b32Char {d : UInt32} (h : d.toNat < 32) :
    b32Char d ∈ b32Alphabet ∧ b32Digit (b32Char d) = d.toNat := by
  have hlen : b32Alphabet.length = 32 := by decide
  refine ⟨?_, beq_iff_eq.mp (List.all_eq_true.mp digits_spec d.toNat (List.mem_range.mpr h))⟩
  rw [b32Char, List.getD_eq_getElem?_getD, List.getElem?_eq_getElem (by omega), Option.getD_some]
  exact List.getElem_mem _

/-! ## Encode -/

/-- What the inner loop takes out of the word, and what it leaves. -/
theorem b32Drain_spec (buffer : UInt32) {bits : Nat} (h : bits < 32) :
    (b32Drain buffer bits).2 < 5 ∧
      (∀ c ∈ (b32Drain buffer bits).1, c ∈ b32Alphabet) ∧
      bodyBits (b32Drain buffer bits).1 ++ msb (b32Drain buffer bits).2 buffer.toNat =
        msb bits buffer.toNat := by
  induction bits using b32Drain.induct buffer with
  | case1 bits out left hdrain ih =>
    obtain ⟨hleft, halphabet, hbits⟩ := ih (by omega)
    rw [hdrain] at hleft halphabet hbits
    have hdigit : ((buffer >>> UInt32.ofNat bits) &&& 0x1F).toNat < 32 := by
      rw [UInt32.toNat_and]
      exact Nat.and_lt_two_pow _ (by decide : (31 : UInt32).toNat < 2 ^ 5)
    obtain ⟨hmem, hvalue⟩ := b32Digit_b32Char hdigit
    rw [b32Drain, hdrain]
    refine ⟨hleft, ?_, ?_⟩
    · intro c hc
      rcases List.mem_cons.mp hc with rfl | hc
      · exact hmem
      · exact halphabet c hc
    · show bodyBits (_ :: out) ++ msb left buffer.toNat = msb (bits + 5) buffer.toNat
      rw [bodyBits_cons, hvalue, msb_shiftOut rfl (by omega), List.append_assoc, hbits,
        Nat.add_comm bits 5, msb_add]
  | case2 bits hsmall =>
    rw [b32Drain.eq_2 buffer bits hsmall]
    refine ⟨?_, ?_, ?_⟩
    · show bits < 5
      rcases Nat.lt_or_ge bits 5 with hlt | hge
      · exact hlt
      · exact (hsmall (bits - 5) (by omega)).elim
    · intro c hc
      cases hc
    · rfl

/-- The last digit is filled up with zeros. -/
theorem msb_lastDigit {buffer : UInt32} {bits : Nat} (hpos : 0 < bits) (h : bits < 5) :
    msb 5 ((buffer <<< UInt32.ofNat (5 - bits)) &&& 0x1F).toNat =
      msb bits buffer.toNat ++ List.replicate (5 - bits) false := by
  have hamount : (UInt32.ofNat (5 - bits)).toNat = 5 - bits :=
    UInt32.toNat_ofNat_of_lt' (by simp [UInt32.size]; omega)
  have hzero : (0 : UInt32).toNat < 2 ^ (5 - bits) := Nat.two_pow_pos _
  have hroom : bits + (5 - bits) < 32 := by omega
  have hshift : msb (bits + (5 - bits)) ((buffer <<< UInt32.ofNat (5 - bits)) ||| 0).toNat =
      msb bits buffer.toNat ++ msb (5 - bits) (0 : UInt32).toNat :=
    msb_shiftIn hamount hzero hroom
  rw [UInt32.or_zero, Nat.add_sub_cancel' (Nat.le_of_lt h)] at hshift
  have hmask : (0x1F : UInt32).toNat = 2 ^ 5 - 1 := rfl
  rw [UInt32.toNat_and, hmask, Nat.and_two_pow_sub_one_eq_mod, msb_mod (Nat.le_refl 5), hshift]
  exact congrArg (msb bits buffer.toNat ++ ·) (msb_of_zero _)

/-- The digits of the bytes that are left, behind the bits in the word. -/
theorem b32EncodeFrom_spec (data : List UInt8) (buffer : UInt32) {bits : Nat} (h : bits < 5) :
    (∀ c ∈ b32EncodeFrom data buffer bits, c ∈ b32Alphabet) ∧
      ∃ pad < 5, bodyBits (b32EncodeFrom data buffer bits) =
        msb bits buffer.toNat ++ bytes data ++ List.replicate pad false := by
  induction data generalizing buffer bits with
  | nil =>
    rw [b32EncodeFrom]
    rcases Nat.eq_zero_or_pos bits with rfl | hpos
    · refine ⟨?_, 0, by omega, rfl⟩
      intro c hc
      cases hc
    · have hdigit : ((buffer <<< UInt32.ofNat (5 - bits)) &&& 0x1F).toNat < 32 := by
        rw [UInt32.toNat_and]
        exact Nat.and_lt_two_pow _ (by decide : (31 : UInt32).toNat < 2 ^ 5)
      obtain ⟨hmem, hvalue⟩ := b32Digit_b32Char hdigit
      rw [if_pos hpos]
      refine ⟨?_, 5 - bits, by omega, ?_⟩
      · intro c hc
        rw [List.mem_singleton.mp hc]
        exact hmem
      · rw [bodyBits_cons, hvalue, msb_lastDigit hpos h]
        simp
  | cons b data ih =>
    have hb : b.toUInt32.toNat < 2 ^ 8 := by
      rw [UInt8.toNat_toUInt32]
      exact b.toNat_lt
    have hword : msb (bits + 8) ((buffer <<< 8) ||| b.toUInt32).toNat =
        msb bits buffer.toNat ++ msb 8 b.toNat := by
      have hamount : (8 : UInt32).toNat = 8 := rfl
      rw [msb_shiftIn hamount hb (by omega), UInt8.toNat_toUInt32]
    obtain ⟨hleft, halphabet, hbits⟩ :=
      b32Drain_spec ((buffer <<< 8) ||| b.toUInt32) (show bits + 8 < 32 by omega)
    obtain ⟨htail, pad, hpad, hrest⟩ := ih ((buffer <<< 8) ||| b.toUInt32) hleft
    refine ⟨?_, pad, hpad, ?_⟩
    · intro c hc
      rcases List.mem_append.mp hc with hc | hc
      · exact halphabet c hc
      · exact htail c hc
    · calc bodyBits (b32EncodeFrom (b :: data) buffer bits)
          = bodyBits (b32Drain ((buffer <<< 8) ||| b.toUInt32) (bits + 8)).1 ++
              bodyBits (b32EncodeFrom data ((buffer <<< 8) ||| b.toUInt32)
                (b32Drain ((buffer <<< 8) ||| b.toUInt32) (bits + 8)).2) := bodyBits_append _ _
        _ = msb (bits + 8) ((buffer <<< 8) ||| b.toUInt32).toNat ++ bytes data ++
              List.replicate pad false := by
            rw [hrest, ← List.append_assoc, ← List.append_assoc, hbits]
        _ = msb bits buffer.toNat ++ bytes (b :: data) ++ List.replicate pad false := by
            rw [hword, bytes_cons, List.append_assoc (msb bits _)]

theorem mem_b32NoPadEncode {data : List UInt8} {c : Char} (h : c ∈ b32NoPadEncode data) :
    c ∈ b32Alphabet :=
  (b32EncodeFrom_spec data 0 (by omega)).1 c h

/-- **Digits of bytes.** The bits are those of the bytes, filled up with less than a digit. -/
theorem bodyBits_encode (data : List UInt8) :
    ∃ pad < 5, bodyBits (b32NoPadEncode data) = bytes data ++ List.replicate pad false :=
  (b32EncodeFrom_spec data 0 (by omega)).2

/-! ## Decode -/

/-- The bytes of the digits that are left, behind the bits in the word. -/
theorem b32DecodeFrom_spec (L : Lib) {text : List Char} (htext : ∀ c ∈ text, c ∈ b32Alphabet)
    (buffer : UInt32) {bits : Nat} (h : bits < 8) :
    ∃ out, b32DecodeFrom L (text.map fun c => c.toNat.toUInt8) buffer bits = .ok out ∧
      bytes out = (msb bits buffer.toNat ++ bodyBits text).take
        (8 * ((bits + 5 * text.length) / 8)) := by
  induction text generalizing buffer bits with
  | nil =>
    refine ⟨[], rfl, ?_⟩
    have hnone : (bits + 5 * ([] : List Char).length) / 8 = 0 := by
      rw [List.length_nil]
      omega
    rw [hnone]
    rfl
  | cons c text ih =>
    obtain ⟨-, hlt, -, hvalue⟩ := mem_alphabet (htext c List.mem_cons_self)
    have htail : ∀ d ∈ text, d ∈ b32Alphabet := fun d hd => htext d (List.mem_cons_of_mem c hd)
    have hdigit : (UInt32.ofNat (b32Digit c)).toNat = b32Digit c :=
      UInt32.toNat_ofNat_of_lt' (by simp [UInt32.size]; omega)
    have hword : msb (bits + 5) ((buffer <<< 5) ||| UInt32.ofNat (b32Digit c)).toNat =
        msb bits buffer.toNat ++ msb 5 (b32Digit c) := by
      have hamount : (5 : UInt32).toNat = 5 := rfl
      rw [msb_shiftIn hamount (by rw [hdigit]; exact hlt) (by omega), hdigit]
    have hlen : bits + 5 * (c :: text).length = bits + 5 + 5 * text.length := by
      rw [List.length_cons]
      omega
    rw [List.map_cons, b32DecodeFrom, hvalue, bodyBits_cons, ← List.append_assoc, ← hword, hlen]
    dsimp only
    split
    · next hfull =>
      -- a byte is complete: it is the top of what is in the word
      obtain ⟨out, hout, hbits⟩ := ih htail ((buffer <<< 5) ||| UInt32.ofNat (b32Digit c))
        (show bits + 5 - 8 < 8 by omega)
      refine ⟨_, by rw [hout]; rfl, ?_⟩
      have hcount : 8 * ((bits + 5 + 5 * text.length) / 8) =
          8 + 8 * ((bits + 5 - 8 + 5 * text.length) / 8) := by omega
      have hbyte : msb 8 (((buffer <<< 5 ||| UInt32.ofNat (b32Digit c)) >>>
          UInt32.ofNat (bits + 5 - 8)) &&& 0xFF).toUInt8.toNat =
            msb 8 ((buffer <<< 5 ||| UInt32.ofNat (b32Digit c)).toNat / 2 ^ (bits + 5 - 8)) := by
        rw [UInt32.toNat_toUInt8, msb_mod (Nat.le_refl 8), msb_shiftOut rfl (by omega)]
      have hcut : msb (bits + 5) (buffer <<< 5 ||| UInt32.ofNat (b32Digit c)).toNat =
          msb 8 ((buffer <<< 5 ||| UInt32.ofNat (b32Digit c)).toNat / 2 ^ (bits + 5 - 8)) ++
            msb (bits + 5 - 8) (buffer <<< 5 ||| UInt32.ofNat (b32Digit c)).toNat := by
        rw [← msb_add, Nat.add_sub_cancel' hfull]
      rw [bytes_cons, hbyte, hbits, hcount, hcut, List.append_assoc, take_msb_append]
    · next hopen =>
      exact ih htail _ (by omega)

/-- **Bytes of digits.** The bits are those of the digits, as far as they fill bytes. -/
theorem b32NoPadDecode_spec (L : Lib) {text : List Char} (htext : ∀ c ∈ text, c ∈ b32Alphabet) :
    ∃ raw, b32NoPadDecode L text = .ok raw ∧
      bytes raw = (bodyBits text).take (8 * (5 * text.length / 8)) := by
  obtain ⟨raw, hraw, hbits⟩ := b32DecodeFrom_spec L htext 0 (show 0 < 8 by omega)
  refine ⟨raw, ?_, by simpa using hbits⟩
  rw [b32NoPadDecode, utf8_ofList_of_ascii fun c hc => (mem_alphabet (htext c hc)).1]
  exact hraw

/-- **Round trip.** -/
theorem b32_round_trip (L : Lib) (data : List UInt8) :
    b32NoPadDecode L (b32NoPadEncode data) = .ok data := by
  obtain ⟨raw, hraw, hbits⟩ :=
    b32NoPadDecode_spec L fun c (hc : c ∈ b32NoPadEncode data) => mem_b32NoPadEncode hc
  obtain ⟨pad, hpad, hcode⟩ := bodyBits_encode data
  have hlen : 5 * (b32NoPadEncode data).length = 8 * data.length + pad := by
    have hcount := congrArg List.length hcode
    simpa using hcount
  have hwhole : 8 * (5 * (b32NoPadEncode data).length / 8) = 8 * data.length := by omega
  rw [hraw]
  congr 1
  apply bytes_inj
  rw [hbits, hcode, hwhole, ← length_bytes, List.take_left]

end CirisServer.NodeCode
