import Mathlib.Algebra.Ring.Nat

/-!
# Digits as bits

A list of digits of `w` bits each, read as one stream of bits, the highest bit of a digit first.
Two cuts of one stream into digits, of 5 bits and of 8 for example, are compared as streams.
-/

namespace BitStream

/-- The low `w` bits of `n`, the highest first. -/
def msb : Nat → Nat → List Bool
  | 0, _ => []
  | w + 1, n => n.testBit w :: msb w n

@[simp] theorem msb_zero (n : Nat) : msb 0 n = [] := rfl

@[simp] theorem length_msb (w n : Nat) : (msb w n).length = w := by
  induction w with
  | zero => rfl
  | succ w ih => rw [msb, List.length_cons, ih]

theorem getD_msb (w n i : Nat) :
    (msb w n).getD i false = (decide (i < w) && n.testBit (w - 1 - i)) := by
  induction w generalizing i with
  | zero => simp
  | succ w ih =>
    cases i with
    | zero => simp [msb]
    | succ i =>
      have hplace : w + 1 - 1 - (i + 1) = w - 1 - i := by omega
      rw [msb, List.getD_cons_succ, ih, hplace]
      simp

theorem take_msb_append (w n m : Nat) (bits : List Bool) :
    (msb w n ++ bits).take (w + m) = msb w n ++ bits.take m := by
  have htake : (msb w n ++ bits).take ((msb w n).length + m) = msb w n ++ bits.take m :=
    List.take_length_add_append m
  rwa [length_msb] at htake

theorem msb_congr {w m n : Nat} (h : ∀ i < w, m.testBit i = n.testBit i) : msb w m = msb w n := by
  induction w with
  | zero => rfl
  | succ w ih =>
    rw [msb, msb, h w (Nat.lt_succ_self w), ih fun i hi => h i (Nat.lt_succ_of_lt hi)]

/-- Bits above the low `w` do not count. -/
theorem msb_mod {v w : Nat} (h : w ≤ v) (n : Nat) : msb w (n % 2 ^ v) = msb w n := by
  apply msb_congr
  intro i hi
  rw [Nat.testBit_mod_two_pow]
  simp [Nat.lt_of_lt_of_le hi h]

/-- A stretch of bits is cut in two. -/
theorem msb_add (v w n : Nat) : msb (v + w) n = msb v (n / 2 ^ w) ++ msb w n := by
  induction v with
  | zero => simp
  | succ v ih =>
    rw [Nat.add_right_comm, msb, msb, ih, List.cons_append, Nat.testBit_div_two_pow]

/-- Digits that are put below a number come after it. -/
theorem msb_shiftLeft_or {k v : Nat} (hv : v < 2 ^ k) (w n : Nat) :
    msb (w + k) (n <<< k ||| v) = msb w n ++ msb k v := by
  rw [msb_add]
  congr 1
  · apply msb_congr
    intro i _
    rw [Nat.testBit_div_two_pow, Nat.testBit_or, Nat.testBit_shiftLeft,
      Nat.testBit_lt_two_pow (Nat.lt_of_lt_of_le hv (Nat.pow_le_pow_right (by omega) (by omega)))]
    simp
  · apply msb_congr
    intro i hi
    rw [Nat.testBit_or, Nat.testBit_shiftLeft]
    simp [Nat.not_le.mpr hi]

theorem msb_of_zero (w : Nat) : msb w 0 = List.replicate w false := by
  induction w with
  | zero => rfl
  | succ w ih => rw [msb, ih, Nat.zero_testBit, List.replicate_succ]

/-- The number that the bits spell. -/
def ofMsb : List Bool → Nat
  | [] => 0
  | b :: bits => b.toNat * 2 ^ bits.length + ofMsb bits

theorem ofMsb_msb (w n : Nat) : ofMsb (msb w n) = n % 2 ^ w := by
  induction w with
  | zero => rw [msb, ofMsb, Nat.pow_zero, Nat.mod_one]
  | succ w ih =>
    rw [msb, ofMsb, length_msb, ih, Nat.mod_pow_succ, Nat.toNat_testBit, Nat.add_comm,
      Nat.mul_comm]

theorem msb_inj {w m n : Nat} (hm : m < 2 ^ w) (hn : n < 2 ^ w) (h : msb w m = msb w n) :
    m = n := by
  rw [← Nat.mod_eq_of_lt hm, ← Nat.mod_eq_of_lt hn, ← ofMsb_msb, ← ofMsb_msb, h]

/-- The bits of the digits, one after the other. -/
def stream (w : Nat) (digits : List Nat) : List Bool := digits.flatMap (msb w)

@[simp] theorem stream_nil (w : Nat) : stream w [] = [] := rfl

@[simp] theorem stream_cons (w d : Nat) (digits : List Nat) :
    stream w (d :: digits) = msb w d ++ stream w digits := rfl

@[simp] theorem stream_append (w : Nat) (digits digits' : List Nat) :
    stream w (digits ++ digits') = stream w digits ++ stream w digits' := List.flatMap_append

@[simp] theorem length_stream (w : Nat) (digits : List Nat) :
    (stream w digits).length = w * digits.length := by
  induction digits with
  | nil => rfl
  | cons d digits ih =>
    rw [stream_cons, List.length_append, length_msb, ih, List.length_cons, Nat.mul_succ,
      Nat.add_comm]

/-- A stream says its digits. -/
theorem stream_inj {w : Nat} {digits digits' : List Nat} (hlen : digits.length = digits'.length)
    (hd : ∀ d ∈ digits, d < 2 ^ w) (hd' : ∀ d ∈ digits', d < 2 ^ w)
    (h : stream w digits = stream w digits') : digits = digits' := by
  induction digits generalizing digits' with
  | nil => exact (List.eq_nil_of_length_eq_zero hlen.symm).symm
  | cons d digits ih =>
    cases digits' with
    | nil => cases hlen
    | cons d' digits' =>
      obtain ⟨hhead, htail⟩ := List.append_inj h (by simp)
      have hsame : d = d' :=
        msb_inj (hd d List.mem_cons_self) (hd' d' List.mem_cons_self) hhead
      have hrest : digits = digits' :=
        ih (by simpa using hlen) (fun e he => hd e (List.mem_cons_of_mem d he))
          (fun e he => hd' e (List.mem_cons_of_mem d' he)) htail
      rw [hsame, hrest]

/-- The bits of a list of bytes. -/
def bytes (data : List UInt8) : List Bool := stream 8 (data.map UInt8.toNat)

@[simp] theorem bytes_nil : bytes [] = [] := rfl

@[simp] theorem bytes_cons (b : UInt8) (data : List UInt8) :
    bytes (b :: data) = msb 8 b.toNat ++ bytes data := rfl

@[simp] theorem bytes_append (data data' : List UInt8) :
    bytes (data ++ data') = bytes data ++ bytes data' := by
  simp [bytes]

@[simp] theorem length_bytes (data : List UInt8) : (bytes data).length = 8 * data.length := by
  simp [bytes]

theorem bytes_inj {data data' : List UInt8} (h : bytes data = bytes data') : data = data' := by
  have hlen : data.length = data'.length := by
    have hbits := congrArg List.length h
    rw [length_bytes, length_bytes] at hbits
    omega
  have hbound (l : List UInt8) : ∀ d ∈ l.map UInt8.toNat, d < 2 ^ 8 := by
    intro d hd
    obtain ⟨b, -, rfl⟩ := List.mem_map.mp hd
    exact b.toNat_lt
  have hdigits := stream_inj (by simpa using hlen) (hbound data) (hbound data') h
  exact (List.map_inj_right fun _ _ => UInt8.toNat_inj.mp).mp hdigits

end BitStream
