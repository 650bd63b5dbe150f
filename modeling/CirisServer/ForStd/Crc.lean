import CirisServer.ForStd.BitStream

/-!
# Cyclic redundancy checks

A check of `w` bits is a register that bits are shifted into, the highest bit of a message first:
the bit that falls out, against the bit that comes in, says whether the polynomial is added. The
register is linear in what it held and what comes in, and where the polynomial has a constant term
no step loses anything; so a burst of at most `w` changed bits is seen (`residue_burst`).
-/

namespace Crc

variable {w : Nat} (poly : BitVec w)

/-- What is added for the bit that falls out. -/
def feedback (b : Bool) : BitVec w := if b then poly else 0

/-- One place up. -/
def shift (r : BitVec w) : BitVec w := r <<< 1 ^^^ feedback poly r.msb

/-- `n` places up. -/
def shifts : Nat → BitVec w → BitVec w
  | 0, r => r
  | n + 1, r => shifts n (shift poly r)

/-- One bit of the message. -/
def push (r : BitVec w) (b : Bool) : BitVec w := r <<< 1 ^^^ feedback poly (r.msb ^^ b)

/-- The register after the bits of the message. -/
def residue (r : BitVec w) (bits : List Bool) : BitVec w := bits.foldl (push poly) r

/-- A bit at the top of the register. -/
def top (b : Bool) : BitVec w := if b then BitVec.twoPow w (w - 1) else 0

/-- The bits at the top of the register, the first one the highest. -/
def align : List Bool → BitVec w
  | [] => 0
  | b :: bits => top b ^^^ align bits >>> 1

variable {poly}

@[simp] theorem residue_nil (r : BitVec w) : residue poly r [] = r := rfl

@[simp] theorem residue_cons (r : BitVec w) (b : Bool) (bits : List Bool) :
    residue poly r (b :: bits) = residue poly (push poly r b) bits := rfl

theorem residue_append (r : BitVec w) (bits bits' : List Bool) :
    residue poly r (bits ++ bits') = residue poly (residue poly r bits) bits' :=
  List.foldl_append

/-! ## The register is linear -/

theorem feedback_xor (a b : Bool) :
    feedback poly (a ^^ b) = feedback poly a ^^^ feedback poly b := by
  cases a <;> cases b <;> simp [feedback]

theorem shift_xor (r s : BitVec w) : shift poly (r ^^^ s) = shift poly r ^^^ shift poly s := by
  simp only [shift, BitVec.msb_xor, BitVec.shiftLeft_xor_distrib, feedback_xor]
  ac_rfl

/-- The last place up can be taken apart as well as the first. -/
theorem shifts_succ' (n : Nat) (r : BitVec w) :
    shifts poly (n + 1) r = shift poly (shifts poly n r) := by
  induction n generalizing r with
  | zero => rfl
  | succ n ih => rw [shifts, ih, shifts]

theorem shifts_zero (n : Nat) : shifts poly n 0 = 0 := by
  induction n with
  | zero => rfl
  | succ n ih =>
    have hzero : shift poly 0 = 0 := by simp [shift, feedback]
    rw [shifts, hzero, ih]

/-! ## Nothing is lost -/

/-- Where the polynomial has a constant term, the lowest bit says what fell out. -/
theorem shift_inj (hpoly : poly.getLsbD 0 = true) {r s : BitVec w}
    (h : shift poly r = shift poly s) : r = s := by
  have hlow (x : BitVec w) : (shift poly x).getLsbD 0 = x.msb := by
    cases hx : x.msb <;> simp [shift, feedback, hx, hpoly]
  have hmsb : r.msb = s.msb := by rw [← hlow r, h, hlow s]
  rw [shift, shift, hmsb, BitVec.xor_left_inj] at h
  apply BitVec.eq_of_getLsbD_eq
  intro i hi
  rcases Nat.lt_or_ge (i + 1) w with hnext | hlast
  · have hbit := congrArg (BitVec.getLsbD · (i + 1)) h
    simpa [hnext, BitVec.getLsbD_eq_getElem hi] using hbit
  · have htop : i = w - 1 := by omega
    rw [htop, ← BitVec.msb_eq_getLsbD_last, ← BitVec.msb_eq_getLsbD_last]
    exact hmsb

theorem shifts_inj (hpoly : poly.getLsbD 0 = true) {n : Nat} {r s : BitVec w}
    (h : shifts poly n r = shifts poly n s) : r = s := by
  induction n generalizing r s with
  | zero => exact h
  | succ n ih => exact shift_inj hpoly (ih h)

/-! ## Bits that come in -/

theorem getLsbD_top {b : Bool} {i : Nat} (h : i + 1 < w) :
    (top b : BitVec w).getLsbD i = false := by
  have hne : w - 1 ≠ i := by omega
  cases b <;> simp [top, BitVec.getLsbD_twoPow, hne]

theorem msb_top (hw : 0 < w) (b : Bool) : (top b : BitVec w).msb = b := by
  cases b <;> simp [top, BitVec.msb_twoPow]
  omega

/-- What is at the top falls out. -/
theorem top_shiftLeft (b : Bool) : (top b : BitVec w) <<< 1 = 0 := by
  apply BitVec.eq_of_getLsbD_eq
  intro i hi
  rw [BitVec.getLsbD_shiftLeft]
  rcases Nat.eq_zero_or_pos i with rfl | hpos
  · simp
  · rw [getLsbD_top (by omega)]
    simp

/-- A bit that comes in is a bit at the top. -/
theorem push_eq_shift (hw : 0 < w) (r : BitVec w) (b : Bool) :
    push poly r b = shift poly (r ^^^ top b) := by
  rw [push, shift, BitVec.msb_xor, msb_top hw, BitVec.shiftLeft_xor_distrib, top_shiftLeft,
    BitVec.ofNat_eq_ofNat, BitVec.xor_zero]

/-- The first bit is the highest. -/
theorem getLsbD_align (bits : List Bool) {i : Nat} (hi : i < w) :
    (align bits : BitVec w).getLsbD i = bits.getD (w - 1 - i) false := by
  induction bits generalizing i with
  | nil => simp [align]
  | cons b bits ih =>
    rw [align, BitVec.getLsbD_xor, BitVec.getLsbD_ushiftRight]
    rcases Nat.lt_or_ge (i + 1) w with hnext | hlast
    · have hplace : w - 1 - i = w - 1 - (1 + i) + 1 := by omega
      rw [getLsbD_top hnext, ih (by omega), hplace, List.getD_cons_succ, Bool.false_xor]
    · have htop : i = w - 1 := by omega
      have hout : (align bits : BitVec w).getLsbD (1 + i) = false :=
        BitVec.getLsbD_of_ge _ _ (by omega)
      rw [hout, htop, ← BitVec.msb_eq_getLsbD_last, msb_top (by omega), Nat.sub_self,
        List.getD_cons_zero, Bool.xor_false]

/-- The bits lie above the rest of the register. -/
theorem getLsbD_align_of_lt {bits : List Bool} {i : Nat} (h : i + bits.length < w) :
    (align bits : BitVec w).getLsbD i = false := by
  rw [getLsbD_align bits (by omega), List.getD_eq_getElem?_getD,
    List.getElem?_eq_none (by omega), Option.getD_none]

/-- The bits of a number are the number, brought to the top. -/
theorem align_msb {k : Nat} (hk : k ≤ w) (n : Nat) :
    (align (BitStream.msb k n) : BitVec w) = BitVec.ofNat w n <<< (w - k) := by
  apply BitVec.eq_of_getLsbD_eq
  intro i hi
  rw [getLsbD_align _ hi, BitStream.getD_msb, BitVec.getLsbD_shiftLeft,
    BitVec.getLsbD_ofNat]
  rcases Nat.lt_or_ge i (w - k) with hlow | hhigh
  · have hout : ¬ w - 1 - i < k := by omega
    simp [hlow, hout]
  · have hin : w - 1 - i < k := by omega
    have hplace : k - 1 - (w - 1 - i) = i - (w - k) := by omega
    have hwidth : i - (w - k) < w := by omega
    simp [hi, hin, hplace, hwidth, Nat.not_lt.mpr hhigh]

/-- What is brought down goes up again. -/
theorem ushiftRight_shiftLeft {r : BitVec w} (h : r.getLsbD 0 = false) : r >>> 1 <<< 1 = r := by
  apply BitVec.eq_of_getLsbD_eq
  intro i hi
  rw [BitVec.getLsbD_shiftLeft, BitVec.getLsbD_ushiftRight]
  rcases Nat.eq_zero_or_pos i with rfl | hpos
  · simp [h]
  · have hback : 1 + (i - 1) = i := by omega
    rw [hback]
    simp [hi, Nat.not_lt.mpr hpos]

theorem shift_ushiftRight {r : BitVec w} (h : r.getLsbD 0 = false) : shift poly (r >>> 1) = r := by
  have hmsb : (r >>> 1).msb = false := by simp [BitVec.msb_ushiftRight]
  rw [shift, hmsb, ushiftRight_shiftLeft h]
  simp [feedback]

/-- At most `w` bits come in at the top, and go up together. -/
theorem residue_eq_shifts (r : BitVec w) {bits : List Bool} (h : bits.length ≤ w) :
    residue poly r bits = shifts poly bits.length (r ^^^ align bits) := by
  induction bits generalizing r with
  | nil => simp [align, shifts]
  | cons b bits ih =>
    rw [List.length_cons] at h
    have hw : 0 < w := by omega
    have hlow : (align bits : BitVec w).getLsbD 0 = false := getLsbD_align_of_lt (by omega)
    rw [residue_cons, ih _ (by omega), List.length_cons, shifts, push_eq_shift hw, align,
      ← BitVec.xor_assoc, shift_xor (r ^^^ top b), shift_ushiftRight hlow]

theorem align_inj {bits bits' : List Bool} (hlen : bits.length = bits'.length)
    (hle : bits.length ≤ w) (h : (align bits : BitVec w) = align bits') : bits = bits' := by
  apply List.ext_getElem hlen
  intro i hi hi'
  have hplace : w - 1 - (w - 1 - i) = i := by omega
  have hbit := congrArg (BitVec.getLsbD · (w - 1 - i)) h
  rw [getLsbD_align _ (by omega), getLsbD_align _ (by omega), hplace] at hbit
  simpa [List.getD_eq_getElem?_getD, hi, hi'] using hbit

/-! ## What is detected -/

/-- The state is told by the residue, whatever comes in. -/
theorem residue_inj (hpoly : poly.getLsbD 0 = true) {r s : BitVec w} {bits : List Bool}
    (h : residue poly r bits = residue poly s bits) : r = s := by
  induction bits generalizing r s with
  | nil => exact h
  | cons b bits ih =>
    have hw : 0 < w := by
      rcases Nat.eq_zero_or_pos w with rfl | hw
      · simp at hpoly
      · exact hw
    have hpush := ih h
    rw [push_eq_shift hw, push_eq_shift hw] at hpush
    exact (BitVec.xor_left_inj _).mp (shift_inj hpoly hpush)

/-- **Burst.** Two messages that differ within `w` neighbouring bits have different residues. -/
theorem residue_burst (hpoly : poly.getLsbD 0 = true) {r : BitVec w} {a e e' c : List Bool}
    (hlen : e.length = e'.length) (hle : e.length ≤ w)
    (h : residue poly r (a ++ e ++ c) = residue poly r (a ++ e' ++ c)) : e = e' := by
  simp only [residue_append] at h
  have hburst := residue_inj hpoly h
  rw [residue_eq_shifts _ hle, residue_eq_shifts _ (Nat.le_trans (Nat.le_of_eq hlen.symm) hle),
    hlen] at hburst
  exact align_inj hlen hle ((BitVec.xor_right_inj _).mp (shifts_inj hpoly hburst))

/-- **Check digits.** The `w` bits that leave nothing are the register itself. -/
theorem residue_eq_zero_iff (hpoly : poly.getLsbD 0 = true) {r : BitVec w} {bits : List Bool}
    (hlen : bits.length = w) : residue poly r bits = 0 ↔ r = align bits := by
  rw [residue_eq_shifts r (Nat.le_of_eq hlen)]
  constructor
  · intro h
    rw [← shifts_zero bits.length] at h
    exact BitVec.xor_eq_zero_iff.mp (shifts_inj hpoly h)
  · intro h
    rw [h, BitVec.xor_self]
    exact shifts_zero _

end Crc
