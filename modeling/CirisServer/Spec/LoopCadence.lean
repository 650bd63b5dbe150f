import CirisServer.ForStd.Run
import CirisServer.Native.LoopCadence

/-!
# Two loops never tick together

Loop `i` sits `i` slot spacings past the epoch, and every period is a multiple of 30 s,
so two loops' deadlines differ by the distance of their slots up to a multiple of 30 s.
The thirteen slots leave 27 s between the first and the last, and so a spacing between
the last and the first of the next 30 s.

Key results:
- `grids_apart`: two grids of one common unit keep the distance of their origins
- `Cadence.run_onSlot`: every call keeps a cadence on the slot of its name
- `loops_apart`: no deadlines of two loops come closer than a slot spacing
- `Cadence.lt_gridDeadline_iff`: what `firstSeqAfter` finds
- `Cadence.retune_next`: a retune takes effect within one new period
-/

/-- Two grids whose steps are multiples of `g`, with origins at least `s` apart both
    ways round the circle of length `g`: no two of their points are closer than `s`. -/
theorem grids_apart {g s a b p q : Nat} (hp : g ∣ p) (hq : g ∣ q) (hab : a + s ≤ b)
    (hba : b + s ≤ a + g) (n m : Nat) :
    a + p * n + s ≤ b + q * m ∨ b + q * m + s ≤ a + p * n := by
  obtain ⟨p', rfl⟩ := hp
  obtain ⟨q', rfl⟩ := hq
  rw [Nat.mul_assoc, Nat.mul_assoc]
  by_cases h : p' * n ≤ q' * m
  · have hle := Nat.mul_le_mul_left g h
    omega
  · have hle := Nat.mul_le_mul_left g (Nat.succ_le_of_lt (Nat.lt_of_not_le h))
    rw [Nat.mul_succ] at hle
    omega

namespace CirisServer

/-- Thirty seconds. -/
def halfMinute : Nat := 30000 * nanosPerMilli

/-- A positive multiple of 30 s. -/
def WholePeriod (period : Nat) : Prop := 0 < period ∧ halfMinute ∣ period

instance (period : Nat) : Decidable (WholePeriod period) := inferInstanceAs (Decidable (_ ∧ _))

/-- The distance of two instants. -/
def absDiff (x y : Nat) : Nat := if x < y then y - x else x - y

theorem WholePeriod.halfMinute_le {period : Nat} (h : WholePeriod period) :
    halfMinute ≤ period :=
  Nat.le_of_dvd h.1 h.2

/-! ## Slots -/

/-- A registered loop has a slot of its own. -/
theorem slot_of_mem {name : String} (h : name ∈ LOOPS) :
    ∃ slot, LOOPS.findIdx? (· == name) = some slot ∧ LOOPS[slot]? = some name := by
  cases hslot : LOOPS.findIdx? (· == name) with
  | none =>
    have hno := List.findIdx?_eq_none_iff.mp hslot name h
    simp at hno
  | some slot =>
    obtain ⟨hlt, heq, -⟩ := List.findIdx?_eq_some_iff_getElem.mp hslot
    refine ⟨slot, rfl, ?_⟩
    rw [List.getElem?_eq_getElem hlt, beq_iff_eq.mp heq]

/-- On a whole period no slot wraps. -/
theorem phaseFor_eq {name : String} {slot period : Nat}
    (hslot : LOOPS.findIdx? (· == name) = some slot) (hperiod : WholePeriod period) :
    phaseFor name period = slotSpacing * slot ∧ slot < LOOPS.length := by
  have hlt : slot < 13 := (List.findIdx?_eq_some_iff_getElem.mp hslot).1
  have hoffset : slotSpacing * slot < period := by
    have hle := hperiod.halfMinute_le
    have hmul : slotSpacing * slot ≤ slotSpacing * 12 := Nat.mul_le_mul_left _ (by omega)
    simp only [slotSpacing, halfMinute, nanosPerMilli] at hle hmul ⊢
    omega
  exact ⟨by simp only [phaseFor, hslot, if_pos hoffset], hlt⟩

/-! ## One cadence -/

namespace Cadence

/-- The grid the loop's deadlines lie on. -/
def gridDeadline (c : Cadence) (n : Nat) : Nat := c.base + c.period * n

/-- The cadence `c` of the loop `name` sits on its slot, at a whole period. -/
structure OnSlot (epoch : Nat) (name : String) (c : Cadence) : Prop where
  name_eq : c.name = name
  whole : WholePeriod c.period
  base_eq : c.base = epoch + phaseFor name c.period

/-- A call that leaves the loop on a whole period. -/
def WholeCall : Call → Prop
  | .retune period _ => WholePeriod period
  | _ => True

instance (e : Call) : Decidable (WholeCall e) := by
  cases e <;> unfold WholeCall <;> infer_instance

theorem clampPeriod_of_whole {period : Nat} (h : WholePeriod period) :
    clampPeriod period = period := by
  have hpos := h.1
  rw [clampPeriod, if_neg (by omega)]

theorem new_onSlot (epoch : Nat) (name : String) {period : Nat} (now : Nat)
    (h : WholePeriod period) : OnSlot epoch name (new epoch name period now) := by
  have hclamp := clampPeriod_of_whole h
  exact
    { name_eq := rfl
      whole := by simpa only [new, hclamp] using h
      base_eq := rfl }

theorem OnSlot.setSeq {epoch : Nat} {name : String} {c : Cadence} (h : OnSlot epoch name c)
    (seq : Nat) : OnSlot epoch name { c with seq := seq } :=
  { name_eq := h.name_eq, whole := h.whole, base_eq := h.base_eq }

/-- A tick moves the ordinal or the mark of the first tick, and nothing else. -/
theorem OnSlot.tick {epoch : Nat} {name : String} {c : Cadence} (h : OnSlot epoch name c)
    (now : Nat) (wake : Option Nat) : OnSlot epoch name (c.tick now wake) := by
  unfold Cadence.tick
  split
  · exact { name_eq := h.name_eq, whole := h.whole, base_eq := h.base_eq }
  · split
    · exact h.setSeq _
    · cases wake with
      | some woken => exact h.setSeq _
      | none => exact h

theorem OnSlot.retune {epoch : Nat} {name : String} {c : Cadence} (h : OnSlot epoch name c)
    {period : Nat} (now : Nat) (hwhole : WholePeriod period) :
    OnSlot epoch name (c.retune epoch period now) := by
  have hclamp := clampPeriod_of_whole hwhole
  exact
    { name_eq := h.name_eq
      whole := by simpa only [Cadence.retune, hclamp] using hwhole
      base_eq := by simp only [Cadence.retune, phase, h.name_eq] }

/-- **Step.** No call takes a loop off its slot. -/
theorem step_onSlot {epoch : Nat} {name : String} (c : Cadence) (e : Call)
    (h : OnSlot epoch name c) (he : WholeCall e) : OnSlot epoch name (step epoch c e) := by
  cases e with
  | tick now wake => exact h.tick now wake
  | reset now => exact h.setSeq _
  | retune period now => exact h.retune now he

/-- **Run.** Every run of calls keeps the loop on its slot. -/
theorem run_onSlot {epoch : Nat} {name : String} {period now : Nat} {calls : List Call}
    (hperiod : WholePeriod period)
    (hcalls : Run.Guarded (step epoch) (fun _ e => WholeCall e) (new epoch name period now)
      calls) :
    OnSlot epoch name (Run.after (step epoch) (new epoch name period now) calls) :=
  Run.Guarded.invariant step_onSlot hcalls (new_onSlot epoch name now hperiod)

/-- The deadlines are the grid, until the nanoseconds of the process outgrow a `u64`. -/
theorem deadline_eq_gridDeadline {c : Cadence} {n : Nat} (hperiod : c.period ≤ u64Max)
    (hn : c.period * n ≤ u64Max) : c.deadline n = c.gridDeadline n := by
  rw [deadline, gridDeadline, Nat.min_eq_left hperiod, Nat.min_eq_left hn]

end Cadence

/-! ## Two loops -/

open Cadence

/-- Two cadences on different slots of one epoch, the first on the earlier slot. -/
theorem onSlots_apart {epoch : Nat} {a b : String} {c d : Cadence} {i j : Nat}
    (hc : OnSlot epoch a c) (hd : OnSlot epoch b d) (hi : LOOPS.findIdx? (· == a) = some i)
    (hj : LOOPS.findIdx? (· == b) = some j) (hij : i < j) (n m : Nat) :
    c.gridDeadline n + slotSpacing ≤ d.gridDeadline m ∨
      d.gridDeadline m + slotSpacing ≤ c.gridDeadline n := by
  obtain ⟨hphase, -⟩ := phaseFor_eq hi hc.whole
  obtain ⟨hphase', hlt⟩ := phaseFor_eq hj hd.whole
  have hj13 : j < 13 := hlt
  have hbefore : slotSpacing * i + slotSpacing ≤ slotSpacing * j := by
    rw [← Nat.mul_succ]
    exact Nat.mul_le_mul_left _ hij
  have hround : slotSpacing * j + slotSpacing ≤ halfMinute := by
    have hmul : slotSpacing * j ≤ slotSpacing * 12 := Nat.mul_le_mul_left _ (by omega)
    simp only [slotSpacing, halfMinute, nanosPerMilli] at hmul ⊢
    omega
  have hapart := grids_apart (s := slotSpacing) (a := c.base) (b := d.base)
    hc.whole.2 hd.whole.2 (by rw [hc.base_eq, hd.base_eq, hphase, hphase']; omega)
    (by rw [hc.base_eq, hd.base_eq, hphase, hphase']; omega) n m
  exact hapart

theorem slotSpacing_le_absDiff {x y : Nat} (h : x + slotSpacing ≤ y ∨ y + slotSpacing ≤ x) :
    slotSpacing ≤ absDiff x y := by
  unfold absDiff
  split <;> omega

/-- No deadline of one loop is within a slot spacing of a deadline of another, whatever
    the loops' ticks, resets and retunes were and at every two ordinals. The deadlines of
    the code are those of the grid until their nanoseconds outgrow a `u64`. -/
theorem loops_apart {epoch : Nat} {a b : String} (ha : a ∈ LOOPS) (hb : b ∈ LOOPS)
    (hab : a ≠ b) {p q : Nat} (hp : WholePeriod p) (hq : WholePeriod q)
    {bornA bornB : Nat} {callsA callsB : List Call}
    (hcallsA : Run.Guarded (step epoch) (fun _ e => WholeCall e) (new epoch a p bornA) callsA)
    (hcallsB : Run.Guarded (step epoch) (fun _ e => WholeCall e) (new epoch b q bornB) callsB)
    (n m : Nat) :
    let c := Run.after (step epoch) (new epoch a p bornA) callsA
    let d := Run.after (step epoch) (new epoch b q bornB) callsB
    slotSpacing ≤ absDiff (c.gridDeadline n) (d.gridDeadline m) ∧
      (c.period ≤ u64Max → c.period * n ≤ u64Max → c.deadline n = c.gridDeadline n) := by
  intro c d
  refine ⟨slotSpacing_le_absDiff ?_, deadline_eq_gridDeadline⟩
  have hc : OnSlot epoch a c := run_onSlot hp hcallsA
  have hd : OnSlot epoch b d := run_onSlot hq hcallsB
  obtain ⟨i, hi, hai⟩ := slot_of_mem ha
  obtain ⟨j, hj, hbj⟩ := slot_of_mem hb
  have hij : i ≠ j := by
    intro h
    rw [h, hbj] at hai
    exact hab (Option.some.inj hai).symm
  by_cases hlt : i < j
  · exact onSlots_apart hc hd hi hj hlt n m
  · exact (onSlots_apart hd hc hj hi (by omega) m n).symm

/-- The scorer at 60 s, retuned to an hour and back, against the delivery loop at 30 s. -/
theorem loops_apart_scorer :
    let c := Run.after (step 7) (new 7 "scorer" (2 * halfMinute) 9)
      [.tick 9 none, .retune (120 * halfMinute) 11, .retune (2 * halfMinute) 12]
    let d := Run.after (step 7) (new 7 "federation_delivery" halfMinute 8) [.reset 10]
    slotSpacing ≤ absDiff (c.gridDeadline 3) (d.gridDeadline 6) ∧
      (c.period ≤ u64Max → c.period * 3 ≤ u64Max → c.deadline 3 = c.gridDeadline 3) :=
  loops_apart (by decide) (by decide) (by decide) (by decide) (by decide) (by decide)
    (by decide) 3 6

/-! ## The next deadline -/

namespace Cadence

/-- `firstSeqAfter` is the smallest ordinal whose deadline is after `t`, the origin of
    the grid apart: at that instant deadline 0 itself is found. -/
theorem lt_gridDeadline_iff {c : Cadence} (hpos : 0 < c.period) {t : Nat} (ht : t ≠ c.base)
    (hsmall : t - c.base < u64Max) (n : Nat) :
    t < c.gridDeadline n ↔ c.firstSeqAfter t ≤ n := by
  have hperiod : max c.period 1 = c.period := by omega
  unfold firstSeqAfter gridDeadline
  split
  · -- the grid has not begun
    omega
  · have hord : (t - c.base) / c.period < n ↔ t - c.base < n * c.period :=
      Nat.div_lt_iff_lt_mul hpos
    have hfits : (t - c.base) / c.period ≤ t - c.base := Nat.div_le_self _ _
    rw [hperiod, Nat.min_eq_left (by omega), Nat.succ_le_iff, hord, Nat.mul_comm n]
    omega

/-- After the origin of the grid, the deadline `firstSeqAfter` finds is at most a period
    away. -/
theorem gridDeadline_firstSeqAfter_le {c : Cadence} {t : Nat} (ht : c.base < t)
    (hpos : 0 < c.period) : c.gridDeadline (c.firstSeqAfter t) ≤ t + c.period := by
  have hperiod : max c.period 1 = c.period := by omega
  have hfloor : c.period * ((t - c.base) / c.period) ≤ t - c.base := Nat.mul_div_le _ _
  have hmin : c.period * min ((t - c.base) / c.period + 1) u64Max ≤
      c.period * ((t - c.base) / c.period + 1) := Nat.mul_le_mul_left _ (Nat.min_le_left _ _)
  rw [Nat.mul_succ] at hmin
  unfold gridDeadline firstSeqAfter
  rw [if_neg (by omega), hperiod]
  omega

/-- Once the grid has begun, a retune puts the next deadline after `now` and at most one
    new period away. -/
theorem retune_next {epoch : Nat} {c : Cadence} {period now : Nat}
    (hbegun : epoch + phaseFor c.name (clampPeriod period) < now) (hsmall : now < u64Max) :
    let c' := c.retune epoch period now
    now < c'.gridDeadline c'.seq ∧ c'.gridDeadline c'.seq ≤ now + c'.period := by
  intro c'
  have hpos : 0 < c'.period := by
    show 0 < clampPeriod period
    unfold clampPeriod nanosPerMilli
    split <;> omega
  have hbase : c'.base < now := hbegun
  have hseq : c'.seq = c'.firstSeqAfter now := rfl
  rw [hseq]
  constructor
  · exact (lt_gridDeadline_iff hpos (by omega) (by omega) _).mpr (Nat.le_refl _)
  · exact gridDeadline_firstSeqAfter_le hbase hpos

end Cadence

end CirisServer
