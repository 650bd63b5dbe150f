import CirisServer.Native.RetentionLoop
import CirisServer.Spec.LoopCadence
import Mathlib.Algebra.Group.Int.Defs

/-!
# Which configurations are safe downstream

`resolve` filters every knob on its own, and the retention planner and the loops' cadences compute
with what comes through. The filter of the two radio knobs has no upper bound and the cast after it
wraps; the filter of the two age bounds admits ages beyond chrono's calendar; and the filter of the
cadences admits periods beyond the last `Instant`.

Key results:
- `radioU32_kept_iff`: when a radio knob comes through unwrapped
- `ageBound_onCalendar_iff`: when the planner's subtraction stays on the calendar
- `Cadence.run_tuned`: the cadences a loop can have
- `cadenceReturns_iff`: when a cadence does not overflow
- `safe_downstream_iff`: when the configuration is safe
-/

namespace CirisServer

/-! ## What is asked -/

/-- The integer knobs. -/
inductive IntegerKnob where
  | scorerCadenceSecs
  | scorerWindow
  | scorerSampleGate
  | scorerMinFeatureDim
  | scorerActiveLookbackDays
  | replicationReconcileSecs
  | retentionCadenceSecs
  | retentionMaxAgeDays
  | retentionMaxDiskGb
  | retentionAuditLogMaxAgeDays
  | radioFrequencyHz
  | radioBandwidthHz
  | radioSpreadingFactor
  | radioCodingRate
  | radioTxPowerDbm
deriving DecidableEq

namespace IntegerKnob

def key : IntegerKnob → String
  | scorerCadenceSecs => keyScorerCadenceSecs
  | scorerWindow => keyScorerWindow
  | scorerSampleGate => keyScorerSampleGate
  | scorerMinFeatureDim => keyScorerMinFeatureDim
  | scorerActiveLookbackDays => keyScorerActiveLookbackDays
  | replicationReconcileSecs => keyReplicationReconcileSecs
  | retentionCadenceSecs => keyRetentionCadenceSecs
  | retentionMaxAgeDays => keyRetentionMaxAgeDays
  | retentionMaxDiskGb => keyRetentionMaxDiskGb
  | retentionAuditLogMaxAgeDays => keyRetentionAuditLogMaxAgeDays
  | radioFrequencyHz => keyRadioFrequency
  | radioBandwidthHz => keyRadioBandwidth
  | radioSpreadingFactor => keyRadioSf
  | radioCodingRate => keyRadioCr
  | radioTxPowerDbm => keyRadioTxpower

/-- The field of the resolved configuration. -/
def value (r : ResolvedConfig) : IntegerKnob → Int
  | scorerCadenceSecs => r.scorerCadenceSecs.toNat
  | scorerWindow => r.scorerWindow.toInt
  | scorerSampleGate => r.scorerSampleGate.toNat
  | scorerMinFeatureDim => r.scorerMinFeatureDim.toNat
  | scorerActiveLookbackDays => r.scorerActiveLookbackDays.toInt
  | replicationReconcileSecs => r.replicationReconcileSecs.toNat
  | retentionCadenceSecs => r.retentionCadenceSecs.toNat
  | retentionMaxAgeDays => r.retentionMaxAgeDays.toNat
  | retentionMaxDiskGb => r.retentionMaxDiskGb.toNat
  | retentionAuditLogMaxAgeDays => r.retentionAuditLogMaxAgeDays.toNat
  | radioFrequencyHz => r.radioFrequencyHz.toNat
  | radioBandwidthHz => r.radioBandwidthHz.toNat
  | radioSpreadingFactor => r.radioSpreadingFactor.toNat
  | radioCodingRate => r.radioCodingRate.toNat
  | radioTxPowerDbm => r.radioTxPowerDbm.toNat

/-- The two that `radio_u32` reads. -/
def radioWords : List IntegerKnob := [radioFrequencyHz, radioBandwidthHz]

/-- The two that the planner subtracts. -/
def ages : List IntegerKnob := [retentionMaxAgeDays, retentionAuditLogMaxAgeDays]

/-- The three that are periods of a loop. -/
def cadences : List IntegerKnob :=
  [scorerCadenceSecs, replicationReconcileSecs, retentionCadenceSecs]

end IntegerKnob

/-- The integer on the plane. -/
def PlaneReads.stored (reads : PlaneReads) (knob : IntegerKnob) : Option Int64 :=
  reads.snapshot.toOption.bind (·.i64 knob.key)

/-- What comes out is the stored integer or the baked default. -/
def Kept (v : Option Int64) (baked x : Int) : Prop := x = baked ∨ ∃ n, v = some n ∧ n.toInt = x

/-- The periods of the loops, in seconds. -/
def ResolvedConfig.cadences (r : ResolvedConfig) : List UInt64 :=
  [r.scorerCadence, r.replicationReconcileInterval, r.retentionCadence]

/-- What the clocks read at one moment. `Utc::now` panics before 1970, and the monotonic clock is an
    `i64` of nanoseconds. -/
structure Clocks where
  wall : Int
  epoch : Nat
  now : Nat
  wall_nonneg : 0 ≤ wall
  epoch_le : epoch ≤ now
  now_lt : now < 2 ^ 63

/-- A cadence at this period: what `new` and `retune` leave, and `tick` and `reset` keep. -/
structure Cadence.Tuned (epoch period : Nat) (c : Cadence) : Prop where
  period_eq : c.period = clampPeriod period
  base_eq : c.base = epoch + phaseFor c.name c.period

/-- No call overflows on a cadence at this period. -/
structure CadenceReturns (k : Clocks) (period : Nat) : Prop where
  new : ∀ name, (Cadence.newOrPanic k.epoch name period k.now).isSome
  retune : ∀ c, (Cadence.retuneOrPanic k.epoch c period k.now).isSome
  reset : ∀ c, Cadence.Tuned k.epoch period c → (c.resetOrPanic k.now).isSome
  deadline : ∀ c n, Cadence.Tuned k.epoch period c → (c.deadlineOrPanic n).isSome

/-- Every integer comes through as it is stored, or is the baked default; and with the resolved
    configuration neither the planner nor a cadence overflows. -/
structure SafeDownstream (jsonText : Json → String) (reads : PlaneReads) (k : Clocks) : Prop where
  kept : ∀ knob : IntegerKnob, Kept (reads.stored knob) (knob.value .default)
    (knob.value (resolve jsonText reads))
  plans : ∀ summary, (planEvictionOrPanic summary
    (RetentionConfig.fromResolved (resolve jsonText reads)).policy k.wall).isSome
  cap : ∀ gb, (RetentionConfig.fromResolved (resolve jsonText reads)).policy.maxDiskGb = some gb →
    capBytes gb ≤ u64Max
  returns : ∀ secs ∈ (resolve jsonText reads).cadences, CadenceReturns k (durationFromSecs secs)

/-- The plane stores nothing that is admitted and too large: no radio word beyond 32 bits, unless it
    wraps to the default; no age that reaches below the calendar; no period that reaches beyond the
    last `Instant`. -/
structure InRange (reads : PlaneReads) (k : Clocks) : Prop where
  words : ∀ knob ∈ IntegerKnob.radioWords, ∀ n, reads.stored knob = some n → 0 < n →
    n.toInt < 2 ^ 32 ∨ n.toInt % 2 ^ 32 = knob.value .default
  ages : ∀ knob ∈ IntegerKnob.ages, ∀ n, reads.stored knob = some n → 0 < n → n ≤ u32MaxAsI64 →
    minUtc ≤ k.wall - n.toInt * nanosPerDay
  periods : ∀ knob ∈ IntegerKnob.cadences, ∀ n, reads.stored knob = some n → 0 < n →
    k.now + n.toInt * 1000000000 ≤ lastInstant

/-! ## One knob -/

/-- A cast that keeps what the filter admits keeps the knob. -/
theorem knob_kept {α : Type} {p : Int64 → Bool} {cast : Int64 → α} (toInt : α → Int)
    (hcast : ∀ n, p n = true → toInt (cast n) = n.toInt) (v : Option Int64) (d : α) :
    Kept v (toInt d) (toInt (((v.filter p).map cast).getD d)) := by
  cases v with
  | none => exact .inl rfl
  | some n =>
    rw [Option.filter_some]
    by_cases hp : p n = true
    · rw [if_pos hp]
      exact .inr ⟨n, rfl, (hcast n hp).symm⟩
    · rw [if_neg hp]
      exact .inl rfl

theorem toUInt64_toNat {n : Int64} (h : 0 ≤ n) : (n.toUInt64.toNat : Int) = n.toInt := by
  have hpos : 0 ≤ n.toInt := Int64.le_iff_toInt_le.mp h
  rw [Int64.toNat_toUInt64_of_le h, ← Int64.toNat_toInt]
  omega

/-- The cast takes the low 32 bits. -/
theorem i64AsU32_toNat {n : Int64} (h : 0 ≤ n) : ((i64AsU32 n).toNat : Int) = n.toInt % 2 ^ 32 := by
  rw [i64AsU32, UInt64.toNat_toUInt32, Int.natCast_emod, toUInt64_toNat h]
  rfl

theorem i64AsU8_toNat {n : Int64} (h : 0 ≤ n) : ((i64AsU8 n).toNat : Int) = n.toInt % 2 ^ 8 := by
  rw [i64AsU8, UInt64.toNat_toUInt8, Int.natCast_emod, toUInt64_toNat h]
  rfl

theorem cadenceKnob_kept (v : Option Int64) (d : UInt64) :
    Kept v d.toNat (cadenceKnob v d).toNat := by
  apply knob_kept (fun x : UInt64 => (x.toNat : Int))
  intro n hn
  have hpos := of_decide_eq_true hn
  exact toUInt64_toNat (Int64.le_of_lt hpos)

theorem i64Knob_kept (lo hi : Int64) (v : Option Int64) (d : Int64) :
    Kept v d.toInt (i64Knob lo hi v d).toInt := by
  have hcast : ∀ n : Int64, decide (lo ≤ n ∧ n ≤ hi) = true → (id n).toInt = n.toInt :=
    fun _ _ => rfl
  have hkept := knob_kept Int64.toInt hcast v d
  rwa [Option.map_id] at hkept

theorem u32Knob_kept {lo hi : Int64} (hlo : 0 ≤ lo) (hhi : hi ≤ u32MaxAsI64) (v : Option Int64)
    (d : UInt32) : Kept v d.toNat (u32Knob lo hi v d).toNat := by
  apply knob_kept (fun x : UInt32 => (x.toNat : Int))
  intro n hn
  obtain ⟨hlow, hhigh⟩ := of_decide_eq_true hn
  have hnonneg := Int64.le_trans hlo hlow
  have hmax : n.toInt ≤ 4294967295 := Int64.le_iff_toInt_le.mp (Int64.le_trans hhigh hhi)
  have hpos : 0 ≤ n.toInt := Int64.le_iff_toInt_le.mp hnonneg
  rw [i64AsU32_toNat hnonneg]
  omega

theorem radioU8_kept (v : Option Int64) (d : UInt8) : Kept v d.toNat (radioU8 v d).toNat := by
  apply knob_kept (fun x : UInt8 => (x.toNat : Int))
  intro n hn
  obtain ⟨hlow, hhigh⟩ := of_decide_eq_true hn
  have hnonneg := Int64.le_of_lt hlow
  have hmax : n.toInt ≤ 255 := Int64.le_iff_toInt_le.mp hhigh
  have hpos : 0 ≤ n.toInt := Int64.le_iff_toInt_le.mp hnonneg
  rw [i64AsU8_toNat hnonneg]
  omega

/-- A radio word comes through if it has 32 bits, or if what is left of it is the default. -/
theorem radioU32_kept_iff (v : Option Int64) (d : UInt32) :
    Kept v d.toNat (radioU32 v d).toNat ↔
      ∀ n, v = some n → 0 < n → n.toInt < 2 ^ 32 ∨ n.toInt % 2 ^ 32 = d.toNat := by
  cases v with
  | none =>
    constructor
    · intro _ n hn
      cases hn
    · intro _
      exact .inl rfl
  | some n =>
    rw [radioU32, Option.filter_some]
    by_cases hn : 0 < n
    · have hnonneg := Int64.le_of_lt hn
      have hpos : 0 ≤ n.toInt := Int64.le_iff_toInt_le.mp hnonneg
      rw [if_pos (decide_eq_true hn), Option.map_some, Option.getD_some, i64AsU32_toNat hnonneg]
      constructor
      · intro hkept m hm _
        cases hm
        rcases hkept with hbaked | ⟨m, hm, hstored⟩
        · exact .inr hbaked
        · cases hm
          exact .inl (by omega)
      · intro hrange
        rcases hrange n rfl hn with hsmall | hbaked
        · exact .inr ⟨n, rfl, by omega⟩
        · exact .inl hbaked
    · rw [if_neg (by simpa using hn)]
      constructor
      · intro _ m hm hpos
        cases hm
        exact absurd hpos hn
      · intro _
        exact .inl rfl

section Resolve

variable {jsonText : Json → String} {reads : PlaneReads}

/-- Every other knob comes through. -/
theorem kept_of_not_word {knob : IntegerKnob} (h : knob ∉ IntegerKnob.radioWords) :
    Kept (reads.stored knob) (knob.value .default) (knob.value (resolve jsonText reads)) := by
  cases knob with
  | scorerCadenceSecs => exact cadenceKnob_kept _ _
  | scorerWindow => exact i64Knob_kept _ _ _ _
  | scorerSampleGate => exact u32Knob_kept (by decide) (by decide) _ _
  | scorerMinFeatureDim => exact u32Knob_kept (by decide) (by decide) _ _
  | scorerActiveLookbackDays => exact i64Knob_kept _ _ _ _
  | replicationReconcileSecs => exact cadenceKnob_kept _ _
  | retentionCadenceSecs => exact cadenceKnob_kept _ _
  | retentionMaxAgeDays => exact u32Knob_kept (by decide) (by decide) _ _
  | retentionMaxDiskGb =>
    apply knob_kept (fun x : UInt64 => (x.toNat : Int))
    intro n hn
    exact toUInt64_toNat (of_decide_eq_true hn)
  | retentionAuditLogMaxAgeDays => exact u32Knob_kept (by decide) (by decide) _ _
  | radioFrequencyHz => exact absurd (by decide) h
  | radioBandwidthHz => exact absurd (by decide) h
  | radioSpreadingFactor => exact radioU8_kept _ _
  | radioCodingRate => exact radioU8_kept _ _
  | radioTxPowerDbm => exact radioU8_kept _ _

theorem word_kept_iff {knob : IntegerKnob} (h : knob ∈ IntegerKnob.radioWords) :
    Kept (reads.stored knob) (knob.value .default) (knob.value (resolve jsonText reads)) ↔
      ∀ n, reads.stored knob = some n → 0 < n →
        n.toInt < 2 ^ 32 ∨ n.toInt % 2 ^ 32 = knob.value .default := by
  simp only [IntegerKnob.radioWords, List.mem_cons, List.not_mem_nil, or_false] at h
  rcases h with rfl | rfl
  · exact radioU32_kept_iff _ _
  · exact radioU32_kept_iff _ _

end Resolve

/-! ## The planner -/

theorem planEvictionOrPanic_isSome_iff {policy : RetentionPolicy} {now : Int}
    (summary : StorageSummary) :
    (planEvictionOrPanic summary policy now).isSome ↔
      policy.maxAgeDays.all (onCalendar now) = true ∧
        policy.auditLogMaxAgeDays.all (onCalendar now) = true := by
  rw [planEvictionOrPanic, ← Bool.and_eq_true]
  split
  · next hcalendar => exact iff_of_true rfl hcalendar
  · next hbelow => exact iff_of_false (by simp) hbelow

theorem u32Knob_some (lo hi n : Int64) (d : UInt32) :
    u32Knob lo hi (some n) d = if lo ≤ n ∧ n ≤ hi then i64AsU32 n else d := by
  rw [u32Knob, Option.filter_some, apply_ite (Option.map i64AsU32), apply_ite (Option.getD · d)]
  simp only [decide_eq_true_eq, Option.map_some, Option.map_none, Option.getD_some,
    Option.getD_none]

/-- An age bound stays on the calendar if the stored age does. -/
theorem ageBound_onCalendar_iff {now : Int} {v : Option Int64} {d : UInt32}
    (hbaked : onCalendar now d = true) :
    (if 0 < u32Knob 0 u32MaxAsI64 v d then some (u32Knob 0 u32MaxAsI64 v d) else none).all
        (onCalendar now) = true ↔
      ∀ n, v = some n → 0 < n → n ≤ u32MaxAsI64 → minUtc ≤ now - n.toInt * nanosPerDay := by
  have hsome : (if 0 < d then some d else none).all (onCalendar now) = true := by
    split
    · exact hbaked
    · rfl
  cases v with
  | none =>
    constructor
    · intro _ n hn
      cases hn
    · intro _
      exact hsome
  | some n =>
    rw [u32Knob_some]
    by_cases hn : 0 ≤ n ∧ n ≤ u32MaxAsI64
    · have hmax : n.toInt ≤ 4294967295 := Int64.le_iff_toInt_le.mp hn.2
      have hnonneg : 0 ≤ n.toInt := Int64.le_iff_toInt_le.mp hn.1
      have hdays : ((i64AsU32 n).toNat : Int) = n.toInt := by
        rw [i64AsU32_toNat hn.1]
        omega
      rw [if_pos hn]
      -- zero days are no bound
      by_cases hzero : 0 < i64AsU32 n
      · have hpos : 0 < n := by
          rw [Int64.lt_iff_toInt_lt, ← hdays]
          exact Int.natCast_pos.mpr hzero
        rw [if_pos hzero, Option.all_some, onCalendar, decide_eq_true_eq, hdays]
        constructor
        · intro hcalendar m hm _ _
          cases hm
          exact hcalendar
        · intro hcalendar
          exact hcalendar n rfl hpos hn.2
      · rw [if_neg hzero]
        constructor
        · intro _ m hm hpos
          cases hm
          have hpos : 0 < n.toInt := Int64.lt_iff_toInt_lt.mp hpos
          refine absurd ?_ hzero
          rw [UInt32.lt_iff_toNat_lt]
          show 0 < (i64AsU32 n).toNat
          omega
        · intro _
          rfl
    · rw [if_neg hn]
      constructor
      · intro _ m hm hpos hmax
        cases hm
        exact absurd ⟨Int64.le_of_lt hpos, hmax⟩ hn
      · intro _
        exact hsome

/-! ## The cadences -/

theorem lastInstant_eq : lastInstant = 9223372036854775807999999999 := by
  unfold lastInstant nanosPerMilli
  omega

theorem addDuration_isSome_iff {t d : Nat} : (addDuration t d).isSome ↔ t + d ≤ lastInstant := by
  rw [addDuration]
  split
  · next h => exact iff_of_true rfl h
  · next h => exact iff_of_false (by simp) h

/-- A sum that does not overflow is the sum. -/
theorem addDuration_map {α : Type} (f : Nat → α) (t d : Nat) :
    (addDuration t d).map f = (addDuration t d).map fun _ => f (t + d) := by
  unfold addDuration
  split <;> rfl

/-- The last slot is 27 s past the epoch. -/
theorem phaseFor_le (name : String) (period : Nat) : phaseFor name period ≤ 27000000000 := by
  cases hslot : LOOPS.findIdx? (· == name) with
  | none =>
    rw [phaseFor, hslot]
    exact Nat.zero_le _
  | some slot =>
    have hlt : slot < 13 := (List.findIdx?_eq_some_iff_getElem.mp hslot).1
    have hoffset : slotSpacing * slot ≤ 27000000000 := by
      unfold slotSpacing nanosPerMilli
      omega
    rw [phaseFor, hslot]
    dsimp only
    split
    · exact hoffset
    · exact (Nat.mod_le _ _).trans hoffset

namespace Cadence

variable {epoch period : Nat} {c : Cadence}

/-- Where nothing overflows, `new` is as before. -/
theorem newOrPanic_eq (epoch : Nat) (name : String) (period now : Nat) :
    newOrPanic epoch name period now =
      (addDuration epoch (phaseFor name (clampPeriod period))).map fun _ =>
        new epoch name period now :=
  addDuration_map _ _ _

theorem resetOrPanic_eq (c : Cadence) (now : Nat) :
    c.resetOrPanic now = (addDuration now c.period).map fun _ => c.reset now :=
  addDuration_map _ _ _

theorem retuneOrPanic_eq (epoch : Nat) (c : Cadence) (period now : Nat) :
    c.retuneOrPanic epoch period now =
      (addDuration epoch (phaseFor c.name (clampPeriod period))).map fun _ =>
        c.retune epoch period now :=
  addDuration_map _ _ _

theorem deadlineOrPanic_eq (c : Cadence) (n : Nat) :
    c.deadlineOrPanic n =
      (addDuration c.base (min (min c.period u64Max * n) u64Max)).map fun _ => c.deadline n := by
  have hmap := addDuration_map id c.base (min (min c.period u64Max * n) u64Max)
  rwa [Option.map_id] at hmap

/-- The period after a call. -/
def periodAfter (period : Nat) : Call → Nat
  | .retune period _ => period
  | _ => period

theorem new_tuned (epoch : Nat) (name : String) (period now : Nat) :
    Tuned epoch period (new epoch name period now) where
  period_eq := rfl
  base_eq := rfl

theorem Tuned.setSeq (h : Tuned epoch period c) (seq : Nat) :
    Tuned epoch period { c with seq := seq } where
  period_eq := h.period_eq
  base_eq := h.base_eq

/-- **Step.** Every call leaves a cadence at its period. -/
theorem step_tuned (h : Tuned epoch period c) (e : Call) :
    Tuned epoch (periodAfter period e) (step epoch c e) := by
  cases e with
  | tick now wake =>
    show Tuned epoch period (c.tick now wake)
    unfold Cadence.tick
    split
    · exact { period_eq := h.period_eq, base_eq := h.base_eq }
    · split
      · exact h.setSeq _
      · cases wake with
        | some woken => exact h.setSeq _
        | none => exact h
  | reset now => exact h.setSeq _
  | retune period now => exact { period_eq := rfl, base_eq := rfl }

/-- **Run.** Whatever a loop calls, its cadence is at the period it was last given. -/
theorem run_tuned (epoch : Nat) (name : String) (period now : Nat) (calls : List Call) :
    Tuned epoch (Run.after periodAfter period calls)
      (Run.after (step epoch) (new epoch name period now) calls) := by
  have hrun : ∀ (period : Nat) (c : Cadence), Tuned epoch period c →
      Tuned epoch (Run.after periodAfter period calls) (Run.after (step epoch) c calls) := by
    induction calls with
    | nil => exact fun _ _ h => h
    | cons e calls ih => exact fun _ _ h => ih _ _ (step_tuned h e)
  exact hrun period _ (new_tuned epoch name period now)

end Cadence

/-- A cadence overflows where a reset would. -/
theorem cadenceReturns_iff (k : Clocks) (period : Nat) :
    CadenceReturns k period ↔ k.now + Cadence.clampPeriod period ≤ lastInstant := by
  constructor
  · intro h
    have hreset := h.reset _ (Cadence.new_tuned k.epoch "retention" period k.now)
    rw [Cadence.resetOrPanic, Option.isSome_map] at hreset
    exact addDuration_isSome_iff.mp hreset
  · intro h
    have hnow := k.now_lt
    have hepoch := k.epoch_le
    have hlast := lastInstant_eq
    exact
      { new := fun name => by
          have hphase := phaseFor_le name (Cadence.clampPeriod period)
          rw [Cadence.newOrPanic_eq, Option.isSome_map, addDuration_isSome_iff]
          omega
        retune := fun c => by
          have hphase := phaseFor_le c.name (Cadence.clampPeriod period)
          rw [Cadence.retuneOrPanic_eq, Option.isSome_map, addDuration_isSome_iff]
          omega
        reset := fun c hc => by
          rw [Cadence.resetOrPanic_eq, Option.isSome_map, addDuration_isSome_iff, hc.period_eq]
          exact h
        deadline := fun c n hc => by
          have hphase := phaseFor_le c.name c.period
          have hbase := hc.base_eq
          have hsaturates : min (min c.period u64Max * n) u64Max ≤ 2 ^ 64 - 1 := Nat.min_le_right _ _
          rw [Cadence.deadlineOrPanic_eq, Option.isSome_map, addDuration_isSome_iff]
          omega }

/-- The period of a knob fits if the stored number of seconds does. -/
theorem cadenceKnob_fits_iff {now : Nat} (v : Option Int64) {d : UInt64} (hd : 0 < d)
    (hbaked : now + durationFromSecs d ≤ lastInstant) :
    now + Cadence.clampPeriod (durationFromSecs
        (if cadenceKnob v d = 0 then d else cadenceKnob v d)) ≤ lastInstant ↔
      ∀ n, v = some n → 0 < n → now + n.toInt * 1000000000 ≤ lastInstant := by
  have hclamp : ∀ secs : UInt64, 0 < secs →
      Cadence.clampPeriod (durationFromSecs secs) = secs.toNat * 1000000000 := by
    intro secs hsecs
    have hpos : 0 < secs.toNat := hsecs
    rw [Cadence.clampPeriod, durationFromSecs, nanosPerMilli, if_neg (by omega)]
  have hdefault : now + Cadence.clampPeriod (durationFromSecs d) ≤ lastInstant := by
    rw [hclamp d hd]
    exact hbaked
  cases v with
  | none =>
    have hknob : cadenceKnob none d = d := rfl
    rw [hknob, ite_self]
    constructor
    · intro _ n hn
      cases hn
    · intro _
      exact hdefault
  | some n =>
    by_cases hn : 0 < n
    · have hknob : cadenceKnob (some n) d = n.toUInt64 := by
        rw [cadenceKnob, Option.filter_some, if_pos (decide_eq_true hn)]
        rfl
      have hsecs := toUInt64_toNat (Int64.le_of_lt hn)
      have hpos : 0 < n.toUInt64 := by
        have hint : 0 < n.toInt := Int64.lt_iff_toInt_lt.mp hn
        rw [UInt64.lt_iff_toNat_lt]
        show 0 < n.toUInt64.toNat
        omega
      rw [hknob, if_neg (UInt64.pos_iff_ne_zero.mp hpos), hclamp _ hpos]
      constructor
      · intro hfits m hm _
        cases hm
        omega
      · intro hfits
        have hfits := hfits n rfl hn
        omega
    · have hknob : cadenceKnob (some n) d = d := by
        rw [cadenceKnob, Option.filter_some, if_neg (by simpa using hn)]
        rfl
      rw [hknob, ite_self]
      constructor
      · intro _ m hm hpos
        cases hm
        exact absurd hpos hn
      · intro _
        exact hdefault

/-! ## The configuration -/

section Configuration

variable {jsonText : Json → String} {reads : PlaneReads} {k : Clocks}

theorem plans_iff (k : Clocks) :
    (∀ summary, (planEvictionOrPanic summary
        (RetentionConfig.fromResolved (resolve jsonText reads)).policy k.wall).isSome) ↔
      ∀ knob ∈ IntegerKnob.ages, ∀ n, reads.stored knob = some n → 0 < n → n ≤ u32MaxAsI64 →
        minUtc ≤ k.wall - n.toInt * nanosPerDay := by
  have hwall := k.wall_nonneg
  have hage : onCalendar k.wall defaultRetentionMaxAgeDays = true := by
    rw [onCalendar, decide_eq_true_eq]
    have hdays : defaultRetentionMaxAgeDays.toNat = 90 := rfl
    rw [hdays, minUtc, nanosPerDay, nanosPerSec]
    omega
  have haudit : onCalendar k.wall defaultRetentionAuditLogMaxAgeDays = true := by
    rw [onCalendar, decide_eq_true_eq]
    have hdays : defaultRetentionAuditLogMaxAgeDays.toNat = 0 := rfl
    rw [hdays, minUtc, nanosPerDay, nanosPerSec]
    omega
  simp only [planEvictionOrPanic_isSome_iff, IntegerKnob.ages, List.forall_mem_cons,
    List.not_mem_nil, false_implies, implies_true, and_true]
  constructor
  · intro h
    obtain ⟨hplan, hplanAudit⟩ := h ⟨⟨0, none, none⟩, ⟨0, none, none⟩, 0⟩
    exact ⟨(ageBound_onCalendar_iff hage).mp hplan, (ageBound_onCalendar_iff haudit).mp hplanAudit⟩
  · rintro ⟨hstored, hstoredAudit⟩ _
    exact ⟨(ageBound_onCalendar_iff hage).mpr hstored,
      (ageBound_onCalendar_iff haudit).mpr hstoredAudit⟩

theorem returns_iff (k : Clocks) :
    (∀ secs ∈ (resolve jsonText reads).cadences, CadenceReturns k (durationFromSecs secs)) ↔
      ∀ knob ∈ IntegerKnob.cadences, ∀ n, reads.stored knob = some n → 0 < n →
        k.now + n.toInt * 1000000000 ≤ lastInstant := by
  have hnow := k.now_lt
  have hlast := lastInstant_eq
  have hbaked : ∀ secs : UInt64, secs.toNat ≤ 3600 →
      k.now + durationFromSecs secs ≤ lastInstant := by
    intro secs hsecs
    rw [durationFromSecs, nanosPerMilli]
    omega
  simp only [ResolvedConfig.cadences, IntegerKnob.cadences, cadenceReturns_iff,
    List.forall_mem_cons, List.not_mem_nil, false_implies, implies_true, and_true]
  have hpos : 0 < defaultScorerCadenceSecs ∧ 0 < defaultReplicationReconcileSecs ∧
      0 < defaultRetentionCadenceSecs := by decide
  exact and_congr (cadenceKnob_fits_iff _ hpos.1 (hbaked _ (by decide)))
    (and_congr (cadenceKnob_fits_iff _ hpos.2.1 (hbaked _ (by decide)))
      (cadenceKnob_fits_iff _ hpos.2.2 (hbaked _ (by decide))))

/-- The configuration is safe downstream exactly if the plane stores nothing that is admitted and
    too large. -/
theorem safe_downstream_iff (jsonText : Json → String) (reads : PlaneReads) (k : Clocks) :
    SafeDownstream jsonText reads k ↔ InRange reads k := by
  constructor
  · intro h
    exact
      { words := fun knob hknob => (word_kept_iff hknob).mp (h.kept knob)
        ages := (plans_iff k).mp h.plans
        periods := (returns_iff k).mp h.returns }
  · intro h
    exact
      { kept := fun knob => by
          by_cases hknob : knob ∈ IntegerKnob.radioWords
          · exact (word_kept_iff hknob).mpr (h.words knob hknob)
          · exact kept_of_not_word hknob
        plans := (plans_iff k).mpr h.ages
        cap := fun gb _ => Nat.min_le_right _ _
        returns := (returns_iff k).mpr h.periods }

end Configuration

/-! ## What is too large -/

/-- A plane that stores one integer. -/
def Fixture.plane (knob : IntegerKnob) (n : Int64) : PlaneReads :=
  let entry : ConfigEntry :=
    { key := knob.key, value := .i64 n, version := 1, updatedBy := "operator", scope := .localScope,
      previousVersion := none }
  let snap : ConfigSnapshot :=
    { nodeKeyId := "node", rows := [⟨"row", 0, entry⟩], heads := ∅, loadedAt := 0, scan := 1 }
  ⟨.ok snap, .ok snap, .ok snap⟩

/-- A minute after boot. -/
def Fixture.minute : Clocks where
  wall := 0
  epoch := 0
  now := 60000000000
  wall_nonneg := Int.le_refl 0
  epoch_le := Nat.zero_le _
  now_lt := by omega

/-- An age of a hundred million days, a frequency of 2³² Hz, and the longest cadence: each is
    admitted, and none is safe. -/
theorem admitted_unsafe :
    ¬ SafeDownstream (fun _ => "") (Fixture.plane .retentionMaxAgeDays 100000000) Fixture.minute ∧
    ¬ SafeDownstream (fun _ => "") (Fixture.plane .radioFrequencyHz 4294967296) Fixture.minute ∧
    ¬ SafeDownstream (fun _ => "") (Fixture.plane .scorerCadenceSecs 9223372036854775807)
      Fixture.minute := by
  refine ⟨fun h => ?_, fun h => ?_, fun h => ?_⟩
  · have hage := (plans_iff _).mp h.plans .retentionMaxAgeDays (by decide) 100000000 (by decide)
      (by decide) (by decide)
    exact absurd hage (by decide)
  · have hword := (word_kept_iff (by decide)).mp (h.kept .radioFrequencyHz) 4294967296 (by decide)
      (by decide)
    exact absurd hword (by decide)
  · have hperiod := (returns_iff _).mp h.returns .scorerCadenceSecs (by decide) 9223372036854775807
      (by decide) (by decide)
    exact absurd hperiod (by decide)

end CirisServer
