import CirisServer.ForStd.Outputs
import CirisServer.Spec.LoopCadence
import Mathlib.Order.Bounds.Basic

/-!
# What a cadence promises over a whole run

A loop ticks, drops ticks, resets and retunes its cadence in any order, and the clock never
goes back. A tick that sleeps is woken at its deadline or later; how much later is the
scheduler's matter. `Completion` is a tick that returned.

The `u64` of nanoseconds saturates some 584 years past the origin of the grid. Where a call
realigns short of that, and not at the very origin, it finds the next grid point after the
instant it reads (`Within`).

Key results:
- `Cadence.isLeast_firstSeqAfter_iff`: what `firstSeqAfter` finds, and until when
- `Cadence.Ahead.step`: what a call leaves of a grid point still to come
- `Cadence.reachable_onSchedule`: the schedule, from every state a run reaches
-/

namespace CirisServer

namespace Cadence

/-! ## What a call completes -/

/-- A completed tick: when it returned, and the deadline it took. The immediate first tick
    takes none. -/
structure Completion where
  time : Nat
  deadline : Option Nat
deriving DecidableEq

/-- A tick called at `now` goes to sleep. -/
def Sleeps (c : Cadence) (now : Nat) : Prop := c.started = true ∧ now < c.deadline c.seq

instance (c : Cadence) (now : Nat) : Decidable (c.Sleeps now) :=
  inferInstanceAs (Decidable (_ ∧ _))

/-- The tick a call completes. -/
def completes (c : Cadence) : Call → Option Completion
  | .tick now wake =>
    if !c.started then some ⟨now, none⟩
    else if c.deadline c.seq ≤ now then some ⟨now, some (c.deadline c.seq)⟩
    else wake.map fun woken => ⟨woken, some (c.deadline c.seq)⟩
  | _ => none

/-- When a call is made. -/
def Call.time : Call → Nat
  | .tick now _ => now
  | .reset now => now
  | .retune _ now => now

/-- A cadence and the last reading of the clock. -/
structure Clocked where
  cadence : Cadence
  clock : Nat

/-- A cadence of the process with this `epoch`, built at `born`. -/
def Clocked.new (epoch : Nat) (name : String) (period born : Nat) : Clocked :=
  ⟨Cadence.new epoch name period born, born⟩

/-- A call, and the clock when it returns. -/
def Clocked.step (epoch : Nat) (s : Clocked) (k : Call) : Clocked where
  cadence := Cadence.step epoch s.cadence k
  clock := match s.cadence.completes k with
    | some x => x.time
    | none => k.time

/-- The ticks a run of calls completes, oldest first. -/
def Clocked.completions (epoch : Nat) (s : Clocked) (calls : List Call) : List Completion :=
  Run.outputs (Clocked.step epoch) (fun s k => (s.cadence.completes k).toList) s calls

/-- The clock does not go back, and a sleep ends at its deadline or later. -/
def Timely (s : Clocked) (k : Call) : Prop :=
  s.clock ≤ k.time ∧
    match k with
    | .tick now wake =>
      s.cadence.Sleeps now → ∀ woken ∈ wake, s.cadence.deadline s.cadence.seq ≤ woken
    | _ => True

instance decidableTimely (s : Clocked) : ∀ k, Decidable (Timely s k)
  | .tick now wake => inferInstanceAs (Decidable (s.clock ≤ now ∧
      (s.cadence.Sleeps now → ∀ woken ∈ wake, s.cadence.deadline s.cadence.seq ≤ woken)))
  | .reset now | .retune _ now => inferInstanceAs (Decidable (s.clock ≤ now ∧ True))

/-- An instant from which the cadence finds the next point of its grid: not the origin itself, and
    a period short of where the nanoseconds saturate. -/
def Within (c : Cadence) (t : Nat) : Prop := t ≠ c.base ∧ t + c.period ≤ c.base + u64Max

instance (c : Cadence) (t : Nat) : Decidable (c.Within t) := inferInstanceAs (Decidable (_ ∧ _))

/-- A call that realigns does so within the grid. -/
def Realigns (epoch : Nat) (s : Clocked) : Call → Prop
  | .tick now wake =>
    s.cadence.started = true →
      ∀ x ∈ s.cadence.completes (.tick now wake), s.cadence.Within x.time
  | .reset now => s.cadence.Within (now + s.cadence.period)
  | .retune period now => (s.cadence.retune epoch period now).Within now

instance decidableRealigns (epoch : Nat) (s : Clocked) : ∀ k, Decidable (Realigns epoch s k)
  | .tick now wake => inferInstanceAs (Decidable (s.cadence.started = true →
      ∀ x ∈ s.cadence.completes (.tick now wake), s.cadence.Within x.time))
  | .reset now => inferInstanceAs (Decidable (s.cadence.Within (now + s.cadence.period)))
  | .retune period now =>
    inferInstanceAs (Decidable ((s.cadence.retune epoch period now).Within now))

/-- The call is no retune. -/
def Call.keepsGrid : Call → Bool
  | .retune _ _ => false
  | _ => true

/-! ## The ordinal -/

variable {c : Cadence} {t n : Nat}

theorem deadline_le_gridDeadline : c.deadline n ≤ c.gridDeadline n := by
  have hmul : min c.period u64Max * n ≤ c.period * n :=
    Nat.mul_le_mul_right n (Nat.min_le_left _ _)
  unfold deadline gridDeadline
  omega

/-- Short of the saturation, a deadline and the grid point it stands for are after the same
    instants. -/
theorem lt_deadline_iff_lt_gridDeadline (ht : t < c.base + u64Max) :
    t < c.deadline n ↔ t < c.gridDeadline n := by
  constructor
  · exact fun h => Nat.lt_of_lt_of_le h deadline_le_gridDeadline
  · intro h
    unfold gridDeadline at h
    unfold deadline
    by_cases hperiod : c.period ≤ u64Max
    · have hmin : min c.period u64Max = c.period := Nat.min_eq_left hperiod
      rw [hmin]
      omega
    · -- the period itself saturates: every deadline past the origin is the last one
      have hmin : min c.period u64Max = u64Max := Nat.min_eq_right (by omega)
      rw [hmin]
      cases n with
      | zero => simpa using h
      | succ n =>
        rw [Nat.mul_succ]
        omega

/-- `firstSeqAfter` is the least ordinal whose deadline is after `t`, wherever a deadline is. -/
theorem isLeast_firstSeqAfter_iff (hpos : 0 < c.period) (ht : t ≠ c.base) :
    IsLeast {n | t < c.deadline n} (c.firstSeqAfter t) ↔ t < c.base + u64Max := by
  constructor
  · intro h
    have hnext : t < c.deadline (c.firstSeqAfter t) := h.1
    unfold deadline at hnext
    omega
  · intro hsmall
    have hmax : 0 < u64Max := by decide
    have hiff : ∀ n, t < c.deadline n ↔ c.firstSeqAfter t ≤ n := fun n =>
      (lt_deadline_iff_lt_gridDeadline hsmall).trans (lt_gridDeadline_iff hpos ht (by omega) n)
    exact ⟨(hiff _).mpr (Nat.le_refl _), fun n hn => (hiff n).mp hn⟩

theorem Within.lt_next (h : c.Within t) (hpos : 0 < c.period) :
    t < c.deadline (c.firstSeqAfter t) :=
  ((isLeast_firstSeqAfter_iff hpos h.1).mpr (by have := h.2; omega)).1

/-- What is found within the grid is a point of the grid. -/
theorem Within.onGrid (h : c.Within t) (hpos : 0 < c.period) :
    c.deadline (c.firstSeqAfter t) = c.gridDeadline (c.firstSeqAfter t) := by
  have hend := h.2
  by_cases hbegun : t ≤ c.base
  · have hseq : c.firstSeqAfter t = 0 := if_pos hbegun
    rw [hseq, deadline, gridDeadline]
    simp
  · have hnext := gridDeadline_firstSeqAfter_le (c := c) (Nat.lt_of_not_le hbegun) hpos
    unfold gridDeadline at hnext
    exact deadline_eq_gridDeadline (by omega) (by omega)

/-- Two points of a grid that are not the same are a period apart. -/
theorem gridDeadline_add_period_le {m n : Nat} (h : c.gridDeadline m < c.gridDeadline n) :
    c.gridDeadline m + c.period ≤ c.gridDeadline n := by
  unfold gridDeadline at h ⊢
  have hlt : m < n := by
    by_contra hle
    have hmul := Nat.mul_le_mul_left c.period (Nat.le_of_not_lt hle)
    omega
  have hmul := Nat.mul_le_mul_left c.period (Nat.succ_le_of_lt hlt)
  rw [Nat.mul_succ] at hmul
  omega

/-! ## One call -/

/-- What a call does: the tick it completes, and the cadence and the clock after it. -/
inductive Effect (epoch : Nat) (s : Clocked) : Call → Option Completion → Clocked → Prop where
  /-- The first tick is immediate and takes no deadline. -/
  | first {now : Nat} {wake : Option Nat} (hstarted : s.cadence.started = false)
      (hclock : s.clock ≤ now) :
      Effect epoch s (.tick now wake) (some ⟨now, none⟩)
        ⟨{ s.cadence with started := true }, now⟩
  /-- A later tick takes the next deadline, overdue or slept for, and realigns. -/
  | took {now t : Nat} {wake : Option Nat} (hstarted : s.cadence.started = true)
      (hcompletes : s.cadence.completes (.tick now wake) =
        some ⟨t, some (s.cadence.deadline s.cadence.seq)⟩)
      (hclock : s.clock ≤ t) (hdeadline : s.cadence.deadline s.cadence.seq ≤ t) :
      Effect epoch s (.tick now wake) (some ⟨t, some (s.cadence.deadline s.cadence.seq)⟩)
        ⟨{ s.cadence with seq := s.cadence.firstSeqAfter t }, t⟩
  /-- A tick that is dropped in its sleep leaves everything as it was. -/
  | dropped {now : Nat} {wake : Option Nat} (hstarted : s.cadence.started = true)
      (hclock : s.clock ≤ now) :
      Effect epoch s (.tick now wake) none ⟨s.cadence, now⟩
  | reset {now : Nat} (hclock : s.clock ≤ now) :
      Effect epoch s (.reset now) none ⟨s.cadence.reset now, now⟩
  | retune {period now : Nat} (hclock : s.clock ≤ now) :
      Effect epoch s (.retune period now) none ⟨s.cadence.retune epoch period now, now⟩

variable {epoch : Nat} {s s' : Clocked} {k : Call} {x : Option Completion}

theorem Timely.effect (h : Timely s k) (epoch : Nat) :
    Effect epoch s k (s.cadence.completes k) (s.step epoch k) := by
  cases k with
  | reset now => exact .reset h.1
  | retune period now => exact .retune h.1
  | tick now wake =>
    obtain ⟨hclock, hwake⟩ := h
    have hclock : s.clock ≤ now := hclock
    by_cases hstarted : s.cadence.started = true
    · by_cases hdue : s.cadence.deadline s.cadence.seq ≤ now
      · have hx : s.cadence.completes (.tick now wake) =
            some ⟨now, some (s.cadence.deadline s.cadence.seq)⟩ := by
          simp [completes, hstarted, hdue]
        have hstep : s.step epoch (.tick now wake) =
            ⟨{ s.cadence with seq := s.cadence.firstSeqAfter now }, now⟩ := by
          simp [Clocked.step, hx, Cadence.step, tick, hstarted, hdue]
        rw [hstep, hx]
        exact .took hstarted hx hclock hdue
      · cases wake with
        | none =>
          have hx : s.cadence.completes (.tick now none) = none := by
            simp [completes, hstarted, hdue]
          have hstep : s.step epoch (.tick now none) = ⟨s.cadence, now⟩ := by
            simp [Clocked.step, hx, Cadence.step, tick, hstarted, hdue, Call.time]
          rw [hstep, hx]
          exact .dropped hstarted hclock
        | some woken =>
          have hwoken : s.cadence.deadline s.cadence.seq ≤ woken :=
            hwake ⟨hstarted, Nat.lt_of_not_le hdue⟩ woken rfl
          have hx : s.cadence.completes (.tick now (some woken)) =
              some ⟨woken, some (s.cadence.deadline s.cadence.seq)⟩ := by
            simp [completes, hstarted, hdue]
          have hstep : s.step epoch (.tick now (some woken)) =
              ⟨{ s.cadence with seq := s.cadence.firstSeqAfter woken }, woken⟩ := by
            simp [Clocked.step, hx, Cadence.step, tick, hstarted, hdue]
          rw [hstep, hx]
          exact .took hstarted hx (by omega) hwoken
    · have hstarted : s.cadence.started = false := by simpa using hstarted
      have hx : s.cadence.completes (.tick now wake) = some ⟨now, none⟩ := by
        simp [completes, hstarted]
      have hstep : s.step epoch (.tick now wake) = ⟨{ s.cadence with started := true }, now⟩ := by
        simp [Clocked.step, hx, Cadence.step, tick, hstarted]
      rw [hstep, hx]
      exact .first hstarted hclock

/-- The cadence sits on the slot of its name, and the process began before the clock. -/
structure Sound (epoch : Nat) (s : Clocked) : Prop where
  pos : 0 < s.cadence.period
  base_eq : s.cadence.base = epoch + phaseFor s.cadence.name s.cadence.period
  epoch_le : epoch ≤ s.clock

theorem clampPeriod_pos (period : Nat) : 0 < clampPeriod period := by
  unfold clampPeriod nanosPerMilli
  split <;> omega

theorem phaseFor_lt (name : String) {period : Nat} (h : 0 < period) :
    phaseFor name period < period := by
  have hmax : max period 1 = period := by omega
  unfold phaseFor
  split
  next =>
    dsimp only
    split
    · assumption
    · rw [hmax]
      exact Nat.mod_lt _ h
  next => exact h

/-- The grid begins less than a period past the clock. -/
theorem Sound.base_lt (h : Sound epoch s) : s.cadence.base < s.clock + s.cadence.period := by
  have hphase := phaseFor_lt s.cadence.name h.pos
  have hbase := h.base_eq
  have hepoch := h.epoch_le
  omega

theorem Sound.effect (h : Sound epoch s) (he : Effect epoch s k x s') : Sound epoch s' := by
  have hepoch := h.epoch_le
  cases he with
  | first _ hclock | took _ _ hclock | dropped _ hclock | reset hclock =>
    exact ⟨h.pos, h.base_eq, Nat.le_trans hepoch hclock⟩
  | retune hclock => exact ⟨clampPeriod_pos _, rfl, Nat.le_trans hepoch hclock⟩

/-- Until a retune the grid stays, and the first tick stays taken. -/
theorem Effect.keeps (he : Effect epoch s k x s') (hk : k.keepsGrid = true) :
    s'.cadence.base = s.cadence.base ∧ s'.cadence.period = s.cadence.period := by
  cases he with
  | first | took | dropped | reset => exact ⟨rfl, rfl⟩
  | retune => cases hk

theorem Effect.started (he : Effect epoch s k x s') (h : s.cadence.started = true) :
    s'.cadence.started = true := by
  cases he with
  | first => rfl
  | took | dropped | reset | retune => exact h

theorem Realigns.took {now t : Nat} {wake : Option Nat}
    (h : Realigns epoch s (.tick now wake)) (hstarted : s.cadence.started = true)
    (hx : s.cadence.completes (.tick now wake) =
      some ⟨t, some (s.cadence.deadline s.cadence.seq)⟩) : s.cadence.Within t :=
  h hstarted _ hx

/-- Every call that realigns leaves the next deadline past what the clock has seen. -/
theorem Effect.deadline_gt {d : Nat} (he : Effect epoch s k x s') (hs : Sound epoch s)
    (hr : Realigns epoch s k) (hd : d < s.cadence.deadline s.cadence.seq) (hclock : d ≤ s.clock) :
    d < s'.cadence.deadline s'.cadence.seq ∧ d ≤ s'.clock := by
  have hpos := hs.pos
  cases he with
  | first _ hnow | dropped _ hnow => exact ⟨hd, Nat.le_trans hclock hnow⟩
  | took hstarted hx hnow hdue =>
    have hnext := (hr.took hstarted hx).lt_next hpos
    exact ⟨Nat.lt_trans (Nat.lt_of_lt_of_le hd hdue) hnext, Nat.le_trans hclock hnow⟩
  | @reset now hnow =>
    have hw : s.cadence.Within (now + s.cadence.period) := hr
    have hlater : d ≤ now + s.cadence.period := by omega
    exact ⟨Nat.lt_of_le_of_lt hlater (hw.lt_next hpos), Nat.le_trans hclock hnow⟩
  | retune hnow =>
    have hnext := Within.lt_next hr (clampPeriod_pos _)
    exact ⟨Nat.lt_of_le_of_lt (Nat.le_trans hclock hnow) hnext, Nat.le_trans hclock hnow⟩

/-- `t` is behind the next deadline, which is a point of the grid, and at most a period past the
    clock. -/
structure Ahead (t : Nat) (s : Clocked) : Prop where
  lt_next : t < s.cadence.deadline s.cadence.seq
  onGrid : s.cadence.deadline s.cadence.seq = s.cadence.gridDeadline s.cadence.seq
  recent : t ≤ s.clock + s.cadence.period

/-- A completed tick leaves the next deadline ahead of it. -/
theorem Effect.ahead_of_took {y : Completion} (he : Effect epoch s k (some y) s')
    (hs : Sound epoch s) (hr : Realigns epoch s k) (hstarted : s.cadence.started = true) :
    Ahead y.time s' := by
  cases he with
  | first hnot => exact absurd hstarted (by simp [hnot])
  | took _ hx hnow hdue =>
    have hw := hr.took hstarted hx
    exact
      { lt_next := hw.lt_next hs.pos
        onGrid := hw.onGrid hs.pos
        recent := Nat.le_add_right _ _ }

/-- **Step.** What is behind the next deadline stays behind it, until a retune. -/
theorem Ahead.effect (ha : Ahead t s) (he : Effect epoch s k x s') (hs : Sound epoch s)
    (hr : Realigns epoch s k) (hk : k.keepsGrid = true) : Ahead t s' := by
  obtain ⟨hlt, hgrid, hrecent⟩ := ha
  have hpos := hs.pos
  cases he with
  | @first now _ _ hnow | @dropped now _ _ hnow =>
    have hlater : t ≤ now + s.cadence.period := by omega
    exact ⟨hlt, hgrid, hlater⟩
  | @took _ u _ hstarted hx hnow hdue =>
    have hw := hr.took hstarted hx
    have hpast : t < u := Nat.lt_of_lt_of_le hlt hdue
    exact ⟨Nat.lt_trans hpast (hw.lt_next hpos), hw.onGrid hpos, by dsimp only; omega⟩
  | @reset now hnow =>
    have hw : s.cadence.Within (now + s.cadence.period) := hr
    have hlater : t ≤ now + s.cadence.period := by omega
    exact ⟨Nat.lt_of_le_of_lt hlater (hw.lt_next hpos), hw.onGrid hpos, hlater⟩
  | retune => cases hk

/-- A tick that takes a deadline leaves the next one a period past whatever was behind it. -/
theorem Ahead.add_period (ha : Ahead t s) {y : Completion} (he : Effect epoch s k (some y) s')
    (hs : Sound epoch s) (hr : Realigns epoch s k) (hstarted : s.cadence.started = true) :
    Ahead (t + s.cadence.period) s' := by
  obtain ⟨hlt, hgrid, -⟩ := ha
  cases he with
  | first hnot => exact absurd hstarted (by simp [hnot])
  | @took _ u _ _ hx hnow hdue =>
    have hw := hr.took hstarted hx
    have hnext := hw.lt_next hs.pos
    have hgrid' := hw.onGrid hs.pos
    have happart := gridDeadline_add_period_le (c := s.cadence) (m := s.cadence.seq)
      (n := s.cadence.firstSeqAfter u) (by omega)
    have hpast : t + s.cadence.period < s.cadence.deadline (s.cadence.firstSeqAfter u) := by
      omega
    have hrecent : t + s.cadence.period ≤ u + s.cadence.period := by omega
    exact ⟨hpast, hgrid', hrecent⟩

/-- A tick completes past whatever was behind the next deadline. -/
theorem Ahead.lt_time (ha : Ahead t s) {y : Completion} (he : Effect epoch s k (some y) s')
    (hstarted : s.cadence.started = true) : t < y.time := by
  cases he with
  | first hnot => exact absurd hstarted (by simp [hnot])
  | took _ _ _ hdue => exact Nat.lt_of_lt_of_le ha.lt_next hdue

/-! ## Every run -/

/-- A call of a run that stays within the grid. -/
def OnGrid (epoch : Nat) (s : Clocked) (k : Call) : Prop := Timely s k ∧ Realigns epoch s k

instance (epoch : Nat) (s : Clocked) (k : Call) : Decidable (OnGrid epoch s k) :=
  inferInstanceAs (Decidable (_ ∧ _))

/-- A call of a run that stays within one grid. -/
def OnOneGrid (epoch : Nat) (s : Clocked) (k : Call) : Prop :=
  OnGrid epoch s k ∧ k.keepsGrid = true

variable {calls : List Call} {y : Completion}

theorem mem_completes (he : Effect epoch s k (s.cadence.completes k) s')
    (hy : y ∈ (s.cadence.completes k).toList) : Effect epoch s k (some y) s' := by
  rw [Option.mem_toList] at hy
  rwa [hy] at he

/-- The deadline a tick takes is the next one. -/
theorem Effect.mem_deadline (he : Effect epoch s k (some y) s') :
    ∀ d ∈ y.deadline, d = s.cadence.deadline s.cadence.seq ∧ d ≤ y.time := by
  intro d hd
  cases he with
  | first => cases hd
  | took _ _ _ hdue =>
    cases hd
    exact ⟨rfl, hdue⟩

theorem Effect.deadline_isSome (he : Effect epoch s k (some y) s')
    (hstarted : s.cadence.started = true) : y.deadline.isSome = true := by
  cases he with
  | first hnot => exact absurd hstarted (by simp [hnot])
  | took => rfl

/-- The next tick takes a later deadline than this one. -/
theorem Effect.lt_next (he : Effect epoch s k (some y) s') (hs : Sound epoch s)
    (hr : Realigns epoch s k) :
    ∀ d ∈ y.deadline, d < s'.cadence.deadline s'.cadence.seq ∧ d ≤ s'.clock := by
  intro d hd
  cases he with
  | first => cases hd
  | took hstarted hx _ hdue =>
    cases hd
    have hnext := (hr.took hstarted hx).lt_next hs.pos
    exact ⟨Nat.lt_of_le_of_lt hdue hnext, hdue⟩

theorem new_sound (name : String) (period : Nat) {born : Nat} (h : epoch ≤ born) :
    Sound epoch (Clocked.new epoch name period born) :=
  { pos := clampPeriod_pos period, base_eq := rfl, epoch_le := h }

theorem Sound.run (hs : Sound epoch s)
    (hcalls : Run.Guarded (Clocked.step epoch) Timely s calls) :
    Sound epoch (Run.after (Clocked.step epoch) s calls) :=
  Run.Guarded.invariant (fun _ _ hs hk => hs.effect (hk.effect epoch)) hcalls hs

theorem taken_of_timely (hstarted : s.cadence.started = true)
    (hcalls : Run.Guarded (Clocked.step epoch) Timely s calls) :
    ∀ x ∈ s.completions epoch calls, ∃ d ∈ x.deadline, d ≤ x.time := by
  have hstep : ∀ (s : Clocked) (k : Call), s.cadence.started = true → Timely s k →
      (s.step epoch k).cadence.started = true ∧
        ∀ x ∈ (s.cadence.completes k).toList, ∃ d ∈ x.deadline, d ≤ x.time := by
    intro s k hstarted hk
    have he := hk.effect epoch
    refine ⟨he.started hstarted, fun x hx => ?_⟩
    have hx := mem_completes he hx
    obtain ⟨d, hd⟩ := Option.isSome_iff_exists.mp (hx.deadline_isSome hstarted)
    exact ⟨d, hd, (hx.mem_deadline d hd).2⟩
  exact Run.Guarded.forall_outputs hstep hcalls hstarted

/-- What a completed tick has taken stays behind every later deadline, across resets and
    retunes. -/
theorem increasing_of_onGrid (hs : Sound epoch s)
    (hcalls : Run.Guarded (Clocked.step epoch) (OnGrid epoch) s calls) :
    (s.completions epoch calls).Pairwise fun x y =>
      ∀ d ∈ x.deadline, ∀ e ∈ y.deadline, d < e := by
  apply Run.Guarded.pairwise_outputs (I := Sound epoch) (L := fun x s =>
    ∀ d ∈ x.deadline, d < s.cadence.deadline s.cadence.seq ∧ d ≤ s.clock) _ _ _ _ hcalls hs
  · exact fun s k hs hk => hs.effect (hk.1.effect epoch)
  · exact fun _ _ _ _ => Option.pairwise_toList
  · exact fun s k hs hk x hx => (mem_completes (hk.1.effect epoch) hx).lt_next hs hk.2
  · intro s k hs hk x hL
    have he := hk.1.effect epoch
    refine ⟨fun d hd => he.deadline_gt hs hk.2 (hL d hd).1 (hL d hd).2, fun y hy d hd e he' => ?_⟩
    rw [((mem_completes he hy).mem_deadline e he').1]
    exact (hL d hd).1

/-- A run without a retune, from a state in which the first tick is taken. -/
structure OneGrid (epoch period : Nat) (s : Clocked) : Prop extends Sound epoch s where
  started : s.cadence.started = true
  period_eq : s.cadence.period = period

theorem OneGrid.effect {period : Nat} (h : OneGrid epoch period s)
    (he : Effect epoch s k x s') (hk : k.keepsGrid = true) : OneGrid epoch period s' :=
  { toSound := h.toSound.effect he
    started := he.started h.started
    period_eq := (he.keeps hk).2.trans h.period_eq }

/-- No tick completes before what is behind the next deadline. -/
theorem lt_time_of_ahead {period : Nat} (hs : OneGrid epoch period s) (ha : Ahead t s)
    (hcalls : Run.Guarded (Clocked.step epoch) (OnOneGrid epoch) s calls) :
    ∀ x ∈ s.completions epoch calls, t < x.time := by
  have hstep : ∀ (s : Clocked) (k : Call), OneGrid epoch period s ∧ Ahead t s →
      OnOneGrid epoch s k → (OneGrid epoch period (s.step epoch k) ∧ Ahead t (s.step epoch k)) ∧
        ∀ x ∈ (s.cadence.completes k).toList, t < x.time := by
    intro s k ⟨hs, ha⟩ hk
    have he := hk.1.1.effect epoch
    refine ⟨⟨hs.effect he hk.2, ha.effect he hs.toSound hk.1.2 hk.2⟩, fun x hx => ?_⟩
    exact ha.lt_time (mem_completes he hx) hs.started
  exact Run.Guarded.forall_outputs hstep hcalls ⟨hs, ha⟩

/-- Two ticks after `t`, the second returns more than a period past it. -/
theorem second_of_ahead {period : Nat} (hs : OneGrid epoch period s) (ha : Ahead t s)
    (hcalls : Run.Guarded (Clocked.step epoch) (OnOneGrid epoch) s calls) :
    (s.completions epoch calls).Pairwise fun _ z => t + period < z.time := by
  apply Run.Guarded.pairwise_outputs (I := fun s => OneGrid epoch period s ∧ Ahead t s)
    (L := fun _ s => Ahead (t + period) s) _ _ _ _ hcalls ⟨hs, ha⟩
  · intro s k ⟨hs, ha⟩ hk
    have he := hk.1.1.effect epoch
    exact ⟨hs.effect he hk.2, ha.effect he hs.toSound hk.1.2 hk.2⟩
  · exact fun _ _ _ _ => Option.pairwise_toList
  · intro s k ⟨hs, ha⟩ hk x hx
    rw [← hs.period_eq]
    exact ha.add_period (mem_completes (hk.1.1.effect epoch) hx) hs.toSound hk.1.2 hs.started
  · intro s k ⟨hs, _⟩ hk x hL
    have he := hk.1.1.effect epoch
    refine ⟨hL.effect he hs.toSound hk.1.2 hk.2, fun z hz => ?_⟩
    exact hL.lt_time (mem_completes he hz) hs.started

/-- Of three ticks on one grid, the last returns more than a period after the first. -/
theorem third_of_onOneGrid {period : Nat} (hs : OneGrid epoch period s)
    (hcalls : Run.Guarded (Clocked.step epoch) (OnOneGrid epoch) s calls) {x y z : Completion}
    (hxyz : [x, y, z].Sublist (s.completions epoch calls)) : x.time + period < z.time := by
  have hone : ∀ (s : Clocked) (k : Call), (s.cadence.completes k).toList.length ≤ 1 := by
    intro s k
    cases s.cadence.completes k <;> simp
  obtain ⟨before, k, rest, rfl, hx, hyz⟩ := Run.exists_split_of_sublist hone hxyz
  rw [Run.guarded_append_iff] at hcalls
  obtain ⟨hbefore, hk, hrest⟩ := hcalls
  have hmid : OneGrid epoch period (Run.after (Clocked.step epoch) s before) :=
    Run.Guarded.invariant (fun _ _ hs hk => hs.effect (hk.1.1.effect epoch) hk.2) hbefore hs
  -- the first of the three leaves the next deadline ahead of it
  have he := hk.1.1.effect epoch
  have hahead := (mem_completes he hx).ahead_of_took hmid.toSound hk.1.2 hmid.started
  rw [Run.after_concat] at hyz
  have hpair := (second_of_ahead (hmid.effect he hk.2) hahead hrest).sublist hyz
  exact List.rel_of_pairwise_cons hpair List.mem_cons_self

/-- The next deadline is at most a period past the instant the cadence realigns from. -/
theorem deadline_firstSeqAfter_le (hpos : 0 < c.period) (ht : c.base ≤ t + c.period) :
    c.deadline (c.firstSeqAfter t) ≤ t + c.period := by
  by_cases hbegun : t ≤ c.base
  · have hseq : c.firstSeqAfter t = 0 := if_pos hbegun
    have hzero : c.deadline 0 = c.base := by simp [deadline]
    rw [hseq, hzero]
    exact ht
  · exact Nat.le_trans deadline_le_gridDeadline
      (gridDeadline_firstSeqAfter_le (Nat.lt_of_not_le hbegun) hpos)

/-- After a reset no tick returns before a period is over, and the next deadline is at most two
    away. -/
theorem reset_of_onOneGrid (hs : Sound epoch s) (hstarted : s.cadence.started = true) {now : Nat}
    (hcalls : Run.Guarded (Clocked.step epoch) (OnOneGrid epoch) s (.reset now :: calls)) :
    let c := s.cadence.reset now
    now + s.cadence.period < c.deadline c.seq ∧
      c.deadline c.seq ≤ now + 2 * s.cadence.period ∧
      ∀ x ∈ (s.step epoch (.reset now)).completions epoch calls,
        now + s.cadence.period < x.time := by
  intro c
  obtain ⟨⟨⟨htimely, hw⟩, -⟩, hrest⟩ := hcalls
  have hclock : s.clock ≤ now := htimely.1
  have hwithin : s.cadence.Within (now + s.cadence.period) := hw
  have hbase := hs.base_lt
  have hnext := hwithin.lt_next hs.pos
  have hle := deadline_firstSeqAfter_le (c := s.cadence) (t := now + s.cadence.period) hs.pos
    (by omega)
  have hafter : OneGrid epoch s.cadence.period ⟨s.cadence.reset now, now⟩ :=
    { toSound := hs.effect (.reset hclock)
      started := hstarted
      period_eq := rfl }
  have hahead : Ahead (now + s.cadence.period) ⟨s.cadence.reset now, now⟩ :=
    ⟨hnext, hwithin.onGrid hs.pos, Nat.le_refl _⟩
  refine ⟨hnext, ?_, lt_time_of_ahead hafter hahead hrest⟩
  have htwo : now + 2 * s.cadence.period = now + s.cadence.period + s.cadence.period := by omega
  rw [htwo]
  exact hle

/-- After a retune the next deadline is at most the new period away. -/
theorem retune_le (c : Cadence) {period now : Nat} (hpos : 0 < period) (hepoch : epoch ≤ now) :
    let c' := c.retune epoch period now
    (c'.Within now → now < c'.deadline c'.seq) ∧ c'.deadline c'.seq ≤ now + period := by
  intro c'
  have hperiod : c'.period = period := if_neg (Nat.ne_of_gt hpos)
  have hphase := phaseFor_lt c'.name (hperiod.symm ▸ hpos : 0 < c'.period)
  have hbase : c'.base = epoch + phaseFor c'.name c'.period := rfl
  constructor
  · exact fun hw => hw.lt_next (by omega)
  · rw [← hperiod]
    exact deadline_firstSeqAfter_le (c := c') (by omega) (by omega)

/-- What the cadence promises in the state `s`, of the next call and of every run from there. -/
structure OnSchedule (epoch : Nat) (s : Clocked) : Prop where
  /-- `firstSeqAfter` is the least ordinal whose deadline is after `t`, until the deadlines
      saturate. -/
  least : ∀ t, t ≠ s.cadence.base →
    (IsLeast {n | t < s.cadence.deadline n} (s.cadence.firstSeqAfter t) ↔
      t < s.cadence.base + u64Max)
  /-- A cancelled tick leaves the cadence as it was. -/
  cancelled : ∀ now wake, s.cadence.completes (.tick now wake) = none →
    s.cadence.tick now wake = s.cadence
  /-- The first tick is immediate. -/
  first : s.cadence.started = false →
    ∀ now wake, s.cadence.completes (.tick now wake) = some ⟨now, none⟩
  /-- Every tick after it takes a deadline, and returns no earlier. -/
  taken : s.cadence.started = true → ∀ calls, Run.Guarded (Clocked.step epoch) Timely s calls →
    ∀ x ∈ s.completions epoch calls, ∃ d ∈ x.deadline, d ≤ x.time
  /-- Each takes a later deadline than every one before it. -/
  increasing : ∀ calls, Run.Guarded (Clocked.step epoch) (OnGrid epoch) s calls →
    (s.completions epoch calls).Pairwise fun x y => ∀ d ∈ x.deadline, ∀ e ∈ y.deadline, d < e
  /-- Of three ticks with no retune between them, the last returns more than a period after the
      first. -/
  apart : s.cadence.started = true → ∀ calls,
    Run.Guarded (Clocked.step epoch) (OnOneGrid epoch) s calls →
    ∀ x y z, [x, y, z].Sublist (s.completions epoch calls) →
      x.time + s.cadence.period < z.time
  /-- After a reset the next deadline is one to two periods away, and until a retune no tick
      returns before a period is over. -/
  reset : s.cadence.started = true → ∀ now calls,
    Run.Guarded (Clocked.step epoch) (OnOneGrid epoch) s (.reset now :: calls) →
    let c := s.cadence.reset now
    now + s.cadence.period < c.deadline c.seq ∧
      c.deadline c.seq ≤ now + 2 * s.cadence.period ∧
      ∀ x ∈ (s.step epoch (.reset now)).completions epoch calls,
        now + s.cadence.period < x.time
  /-- After a retune the next deadline is at most the new period away. -/
  retune : ∀ period now, 0 < period → s.clock ≤ now →
    let c := s.cadence.retune epoch period now
    (c.Within now → now < c.deadline c.seq) ∧ c.deadline c.seq ≤ now + period

/-- A tick that does not complete leaves the cadence as it was. -/
theorem tick_of_not_completes {now : Nat} {wake : Option Nat}
    (h : c.completes (.tick now wake) = none) : c.tick now wake = c := by
  by_cases hstarted : c.started = true
  · by_cases hdue : c.deadline c.seq ≤ now
    · simp [completes, hstarted, hdue] at h
    · cases wake with
      | none => simp [tick, hstarted, hdue]
      | some woken => simp [completes, hstarted, hdue] at h
  · simp [completes, hstarted] at h

/-- The cadence is on schedule in every state that a run of timely calls reaches. -/
theorem run_onSchedule {born period : Nat} {name : String} (hborn : epoch ≤ born)
    (hcalls : Run.Guarded (Clocked.step epoch) Timely (Clocked.new epoch name period born) calls) :
    OnSchedule epoch
      (Run.after (Clocked.step epoch) (Clocked.new epoch name period born) calls) := by
  have hs := (new_sound name period hborn).run hcalls
  exact
    { least := fun t ht => isLeast_firstSeqAfter_iff hs.pos ht
      cancelled := fun _ _ => tick_of_not_completes
      first := fun hnot now wake => by simp [completes, hnot]
      taken := fun hstarted _ => taken_of_timely hstarted
      increasing := fun _ => increasing_of_onGrid hs
      apart := fun hstarted _ hcalls _ _ _ =>
        third_of_onOneGrid { toSound := hs, started := hstarted, period_eq := rfl } hcalls
      reset := fun hstarted _ _ => reset_of_onOneGrid hs hstarted
      retune := fun _ _ hpos hclock => retune_le _ hpos (Nat.le_trans hs.epoch_le hclock) }

/-- Nanoseconds. -/
def seconds (n : Nat) : Nat := n * (1000 * nanosPerMilli)

/-- A loop at 30 s that ticks, drops a tick, runs late, pauses and is retuned. -/
theorem run_onSchedule_scorer :
    OnSchedule 0 (Run.after (Clocked.step 0) (Clocked.new 0 "scorer" (seconds 30) (seconds 1))
      [.tick (seconds 1) none, .tick (seconds 2) none, .tick (seconds 70) none,
        .reset (seconds 80), .tick (seconds 80) (some (seconds 125)),
        .retune (seconds 7) (seconds 130)]) :=
  run_onSchedule (by decide) (by decide)

/-- A tick that is a second late, one on time, and a retune from 30 s to 7 s: three ticks return
    within four seconds, each at its deadline or later. And a reset before the first tick does not
    hold that tick back. -/
theorem third_across_retune :
    let s := Clocked.new 0 "config_reconcile" (seconds 30) (seconds 1)
    let calls : List Call := [.tick (seconds 1) none, .tick (seconds 59) none,
      .tick (seconds 59) (some (seconds 60)), .retune (seconds 7) (seconds 60),
      .tick (seconds 60) (some (seconds 63))]
    Run.Guarded (Clocked.step 0) (OnGrid 0) s calls ∧
      s.completions 0 calls =
        [⟨seconds 1, none⟩, ⟨seconds 59, some (seconds 30)⟩, ⟨seconds 60, some (seconds 60)⟩,
          ⟨seconds 63, some (seconds 63)⟩] ∧
      seconds 63 < seconds 59 + seconds 7 ∧
      s.completions 0 [.reset (seconds 1), .tick (seconds 1) none] = [⟨seconds 1, none⟩] := by
  decide

end Cadence

end CirisServer
