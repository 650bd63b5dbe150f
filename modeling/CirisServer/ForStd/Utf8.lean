import Mathlib.Data.List.Basic

/-!
# UTF-8 bytes of a text

`str::as_bytes` and `str::from_utf8` as lists of bytes: the two are inverse to each other, and a
byte below 128 in a text is one of its characters.
-/

/-- `str::as_bytes`. -/
def utf8 (s : String) : List UInt8 := s.toUTF8.data.toList

/-- `str::from_utf8`. -/
def fromUtf8 (bytes : List UInt8) : Option String := String.fromUTF8? ⟨⟨bytes⟩⟩

/-! ## Lossy decoding -/

/-- How many bytes the first byte of a character announces, and the bounds of the second one. -/
def announced (b : UInt8) : Option (Nat × UInt8 × UInt8) :=
  if 0xC2 ≤ b ∧ b ≤ 0xDF then some (1, 0x80, 0xBF)
  else if b = 0xE0 then some (2, 0xA0, 0xBF)
  else if b = 0xED then some (2, 0x80, 0x9F)
  else if 0xE1 ≤ b ∧ b ≤ 0xEF then some (2, 0x80, 0xBF)
  else if b = 0xF0 then some (3, 0x90, 0xBF)
  else if 0xF1 ≤ b ∧ b ≤ 0xF3 then some (3, 0x80, 0xBF)
  else if b = 0xF4 then some (3, 0x80, 0x8F)
  else none

/-- The bytes that go on with the character, `n` of them at most. -/
def takeContinuation : Nat → UInt8 → UInt8 → List UInt8 → List UInt8
  | n + 1, lo, hi, b :: bytes =>
    if lo ≤ b ∧ b ≤ hi then b :: takeContinuation n 0x80 0xBF bytes else []
  | _, _, _, _ => []

/-- What is no character, as far as it looks like one, is one replacement character. -/
def lossyChars : Nat → List UInt8 → List Char
  | fuel + 1, b :: bytes =>
    if b < 0x80 then Char.ofNat b.toNat :: lossyChars fuel bytes
    else
      match announced b with
      | none => Char.ofNat 0xFFFD :: lossyChars fuel bytes
      | some (n, lo, hi) =>
        let more := takeContinuation n lo hi bytes
        let c := if more.length = n then
            Char.ofNat (more.foldl (fun c b => c * 64 + (b.toNat - 0x80)) (b.toNat % 2 ^ (6 - n)))
          else Char.ofNat 0xFFFD
        c :: lossyChars fuel (bytes.drop more.length)
  | _, _ => []

/-- `String::from_utf8_lossy`. -/
def fromUtf8Lossy (bytes : List UInt8) : String := String.ofList (lossyChars bytes.length bytes)

/-! ## Texts and their bytes -/

theorem utf8_eq_flatMap (s : String) : utf8 s = s.toList.flatMap String.utf8EncodeChar := by
  rw [utf8, String.toUTF8_eq_toByteArray, ← String.utf8Encode_toList, List.utf8Encode]
  simp

theorem utf8_injective {s t : String} (h : utf8 s = utf8 t) : s = t := by
  apply String.toByteArray_inj.mp
  apply ByteArray.ext
  exact Array.toList_inj.mp h

@[simp] theorem utf8_append (s t : String) : utf8 (s ++ t) = utf8 s ++ utf8 t := by
  simp [utf8]

@[simp] theorem fromUtf8_utf8 (s : String) : fromUtf8 (utf8 s) = some s := by
  show String.fromUTF8? s.toUTF8 = some s
  unfold String.fromUTF8?
  rw [String.toUTF8_eq_toByteArray, dif_pos s.isValidUTF8]
  rfl

theorem utf8_of_fromUtf8 {bytes : List UInt8} {s : String} (h : fromUtf8 bytes = some s) :
    utf8 s = bytes := by
  unfold fromUtf8 String.fromUTF8? at h
  split at h
  · cases h
    rfl
  · cases h

/-- A byte below 128 is a character of its own. -/
theorem toNat_of_mem_utf8EncodeChar {c : Char} {b : UInt8} (hb : b.toNat < 128)
    (h : b ∈ String.utf8EncodeChar c) : c.toNat = b.toNat := by
  have hcont (n : Nat) (hlow : 128 ≤ n) (hhigh : n < 256) (heq : b = UInt8.ofNat n) : False := by
    rw [heq, UInt8.toNat_ofNat_of_lt' hhigh] at hb
    omega
  unfold String.utf8EncodeChar at h
  dsimp only at h
  split at h
  · next hv =>
    rw [List.mem_singleton.mp h, UInt8.toNat_ofNat_of_lt' (Nat.lt_of_le_of_lt hv (by decide))]
    rfl
  · -- every byte of a longer encoding has its top bit set
    split at h
    · simp only [List.mem_cons, List.not_mem_nil, or_false] at h
      rcases h with h | h
      · exact (hcont _ (by omega) (by omega) h).elim
      · exact (hcont _ (by omega) (by omega) h).elim
    · split at h
      · simp only [List.mem_cons, List.not_mem_nil, or_false] at h
        rcases h with h | h | h
        · exact (hcont _ (by omega) (by omega) h).elim
        · exact (hcont _ (by omega) (by omega) h).elim
        · exact (hcont _ (by omega) (by omega) h).elim
      · simp only [List.mem_cons, List.not_mem_nil, or_false] at h
        rcases h with h | h | h | h
        · exact (hcont _ (by omega) (by omega) h).elim
        · exact (hcont _ (by omega) (by omega) h).elim
        · exact (hcont _ (by omega) (by omega) h).elim
        · exact (hcont _ (by omega) (by omega) h).elim

/-- A character begins with an ASCII byte, which is all of it, or with one that announces more. -/
theorem lead_of_utf8EncodeChar {c : Char} {x : UInt8} {more : List UInt8}
    (h : String.utf8EncodeChar c = x :: more) :
    x.toNat < 128 ∧ more = [] ∨ 0xC0 ≤ x.toNat ∧ x.toNat ≤ 0xF7 := by
  have hlead (n : Nat) (hlow : 0xC0 ≤ n) (hhigh : n ≤ 0xF7) :
      0xC0 ≤ (UInt8.ofNat n).toNat ∧ (UInt8.ofNat n).toNat ≤ 0xF7 := by
    rw [UInt8.toNat_ofNat_of_lt' (Nat.lt_of_le_of_lt hhigh (by decide))]
    exact ⟨hlow, hhigh⟩
  unfold String.utf8EncodeChar at h
  dsimp only at h
  split at h
  · next hv =>
    obtain ⟨rfl, rfl⟩ := List.cons.inj h
    rw [UInt8.toNat_ofNat_of_lt' (Nat.lt_of_le_of_lt hv (by decide))]
    exact .inl ⟨by omega, rfl⟩
  · split at h
    · obtain ⟨rfl, -⟩ := List.cons.inj h
      exact .inr (hlead _ (by omega) (by omega))
    · split at h
      · obtain ⟨rfl, -⟩ := List.cons.inj h
        exact .inr (hlead _ (by omega) (by omega))
      · obtain ⟨rfl, -⟩ := List.cons.inj h
        exact .inr (hlead _ (by omega) (by omega))

/-- A text begins with a character. -/
theorem lead_of_utf8 {s : String} {x : UInt8} {rest : List UInt8} (h : utf8 s = x :: rest) :
    (x.toNat < 128 ∧ ∃ t, utf8 t = rest) ∨ 0xC0 ≤ x.toNat ∧ x.toNat ≤ 0xF7 := by
  rw [utf8_eq_flatMap] at h
  cases hs : s.toList with
  | nil =>
    rw [hs] at h
    cases h
  | cons c cs =>
    rw [hs, List.flatMap_cons] at h
    cases hc : String.utf8EncodeChar c with
    | nil =>
      have hsize := String.length_utf8EncodeChar c
      rw [hc] at hsize
      have hpos := Char.utf8Size_pos c
      rw [← hsize] at hpos
      exact absurd hpos (Nat.lt_irrefl 0)
    | cons y more =>
      rw [hc, List.cons_append] at h
      obtain ⟨rfl, hrest⟩ := List.cons.inj h
      refine (lead_of_utf8EncodeChar hc).imp_left fun ⟨hy, hmore⟩ => ⟨hy, String.ofList cs, ?_⟩
      rw [utf8_eq_flatMap, String.toList_ofList, ← hrest, hmore, List.nil_append]

/-- A byte below 128 of a text is one of its characters. -/
theorem exists_char_of_mem_utf8 {s : String} {b : UInt8} (hb : b.toNat < 128) (h : b ∈ utf8 s) :
    ∃ c ∈ s.toList, c.toNat = b.toNat := by
  rw [utf8_eq_flatMap, List.mem_flatMap] at h
  obtain ⟨c, hc, hmem⟩ := h
  exact ⟨c, hc, toNat_of_mem_utf8EncodeChar hb hmem⟩

theorem cr_not_mem_utf8 {s : String} (h : '\r' ∉ s.toList) : 13 ∉ utf8 s := by
  intro hmem
  obtain ⟨c, hc, hcr⟩ := exists_char_of_mem_utf8 (by decide) hmem
  have heq : c = '\r' := Char.ext (UInt32.toNat_inj.mp hcr)
  exact h (heq ▸ hc)

/-- The bytes of an ASCII text are its characters. -/
theorem utf8_ofList_of_ascii {l : List Char} (h : ∀ c ∈ l, c.toNat < 128) :
    utf8 (String.ofList l) = l.map fun c => c.toNat.toUInt8 := by
  rw [utf8_eq_flatMap, String.toList_ofList]
  induction l with
  | nil => rfl
  | cons c l ih =>
    have hc : c.toNat < 128 := h c List.mem_cons_self
    have hsingle : String.utf8EncodeChar c = [c.toNat.toUInt8] := by
      have hle : c.val.toNat ≤ 127 := Nat.le_of_lt_succ hc
      unfold String.utf8EncodeChar
      dsimp only
      rw [if_pos hle]
      rfl
    rw [List.flatMap_cons, ih fun d hd => h d (List.mem_cons_of_mem c hd), hsingle]
    rfl
