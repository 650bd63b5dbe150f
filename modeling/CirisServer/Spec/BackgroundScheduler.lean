import Mathlib.Algebra.Order.BigOperators.Group.List
import Mathlib.Algebra.Order.Group.Nat
import CirisServer.Native.BackgroundScheduler

/-!
# No permit is lost or made

Two books are kept over every interleaving. `granted` counts the free permits and those
of the tasks that still answer for one: a live slot, a drop that has not decided yet, and
a drop that will release. A drop that owes its permit to a shrink has left `granted`
already but holds its permit still, and so the permits in existence are `granted` and one
for each such drop.

Key results:
- `run_books`: the books balance in every reachable state
- `run_settled`: `granted` is at the target, or draining to it, or some task is yet to
  reconcile it
- `scheduler_conserves`: what holds of permits and bounds in every reachable state
-/

namespace CirisServer

open Interleave Run

/-! ## The books -/

namespace SchedulerTask

/-- The task answers for a permit within `granted`. -/
def weight : SchedulerTask → Nat
  | .live | .dropping | .unowed => 1
  | _ => 0

/-- The task holds a permit of the semaphore. -/
def permits : SchedulerTask → Nat
  | .live | .dropping | .owed | .unowed => 1
  | _ => 0

/-- The task has decremented `granted` and not yet forgotten its permit. -/
def owes : SchedulerTask → Nat
  | .owed => 1
  | _ => 0

/-- The task is a live `TaskSlot`: its drop has decided nothing yet. -/
def slots : SchedulerTask → Nat
  | .live | .dropping => 1
  | _ => 0

/-- The task is yet to reconcile `granted` with the target. -/
def Reconciles : SchedulerTask → Prop
  | .owed | .unowed | .reconciling => True
  | _ => False

theorem permits_eq (t : SchedulerTask) : t.permits = t.weight + t.owes := by
  cases t <;> rfl

theorem slots_le (t : SchedulerTask) : t.slots ≤ t.weight := by
  cases t <;> simp only [slots, weight, Nat.le_refl, Nat.zero_le]

end SchedulerTask

/-- The live slots. -/
def liveSlots (c : Config BackgroundScheduler SchedulerTask) : Nat :=
  (c.tasks.map SchedulerTask.slots).sum

/-- The permits in existence: free in the semaphore or held by a task. -/
def permitsInExistence (c : Config BackgroundScheduler SchedulerTask) : Nat :=
  c.shared.available + (c.tasks.map SchedulerTask.permits).sum

/-- The drops that have decremented `granted` and not yet forgotten their permits. -/
def owedDrops (c : Config BackgroundScheduler SchedulerTask) : Nat :=
  (c.tasks.map SchedulerTask.owes).sum

/-- No live slot, and no call or drop in progress. -/
def Quiescent (c : Config BackgroundScheduler SchedulerTask) : Prop :=
  ∀ t ∈ c.tasks, t = .done

/-- The bounds never fall below 1. -/
structure BackgroundScheduler.Floored (s : BackgroundScheduler) : Prop where
  target_pos : 1 ≤ s.target
  granted_pos : 1 ≤ s.granted

/-- `granted` is at the target, or above it with nothing free to take back. -/
def BackgroundScheduler.Settled (s : BackgroundScheduler) : Prop :=
  s.granted = s.target ∨ s.target < s.granted ∧ s.available = 0

/-! ## The regions -/

namespace BackgroundScheduler

/-- **Spec of `reconcile`.** It moves `granted` and the free permits alike, never below
    the target, and leaves them settled. -/
theorem reconcile_spec (s : BackgroundScheduler) :
    s.reconcile.target = s.target ∧
      s.reconcile.available + s.granted = s.available + s.reconcile.granted ∧
      (s.reconcile.granted = s.target ∨
        s.target < s.reconcile.granted ∧ s.reconcile.available = 0) := by
  by_cases hlt : s.granted < s.target
  · have heq : s.reconcile = { s with
        available := s.available + (s.target - s.granted)
        granted := s.granted + (s.target - s.granted) } := by
      simp only [reconcile, if_pos hlt, addPermits]
    rw [heq]
    refine ⟨rfl, ?_, Or.inl ?_⟩
    · show s.available + (s.target - s.granted) + s.granted =
        s.available + (s.granted + (s.target - s.granted))
      omega
    · show s.granted + (s.target - s.granted) = s.target
      omega
  · by_cases hgt : s.granted > s.target
    · have heq : s.reconcile = { s with
          available := s.available - min (s.granted - s.target) s.available
          granted := s.granted - min (s.granted - s.target) s.available } := by
        simp only [reconcile, if_neg hlt, if_pos hgt, forgetPermits]
      rw [heq]
      refine ⟨rfl, ?_, ?_⟩
      · show s.available - min (s.granted - s.target) s.available + s.granted =
          s.available + (s.granted - min (s.granted - s.target) s.available)
        omega
      · show s.granted - min (s.granted - s.target) s.available = s.target ∨
          s.target < s.granted - min (s.granted - s.target) s.available ∧
            s.available - min (s.granted - s.target) s.available = 0
        omega
    · have heq : s.reconcile = s := by
        simp only [reconcile, if_neg hlt, if_neg hgt]
      rw [heq]
      exact ⟨rfl, rfl, Or.inl (by omega)⟩

/-- **Cases of `retarget`.** -/
theorem retarget_cases (s : BackgroundScheduler) (n : Nat) :
    s.retarget n = none ∨ s.retarget n = some { s with target := max n 1 } := by
  by_cases h : s.target = max n 1
  · exact Or.inl (if_pos h)
  · exact Or.inr (if_neg h)

/-- **Cases of the drop's decision.** -/
theorem decideOwed_cases (s : BackgroundScheduler) :
    s.target < s.granted ∧ s.decideOwed = ({ s with granted := s.granted - 1 }, true) ∨
      s.granted ≤ s.target ∧ s.decideOwed = (s, false) := by
  unfold decideOwed
  by_cases h : s.granted > s.target
  · exact Or.inl ⟨h, if_pos h⟩
  · exact Or.inr ⟨Nat.le_of_not_lt h, if_neg h⟩

end BackgroundScheduler

namespace SchedulerTask

open BackgroundScheduler

/-! ## One step -/

/-- **Step.** No step takes a bound below 1. -/
theorem advance_floored (t : SchedulerTask) {s : BackgroundScheduler} (h : s.Floored) :
    (t.advance s).1.Floored := by
  obtain ⟨htarget, hgranted⟩ := h
  cases t with
  | apply n =>
    rcases retarget_cases s n with hr | hr <;> simp only [advance, hr]
    · exact ⟨htarget, hgranted⟩
    · exact ⟨Nat.le_max_right n 1, hgranted⟩
  | acquire =>
    simp only [advance]
    split <;> exact ⟨htarget, hgranted⟩
  | dropping =>
    rcases decideOwed_cases s with ⟨hlt, hd⟩ | ⟨-, hd⟩ <;> simp only [advance, hd]
    · exact ⟨htarget, show 1 ≤ s.granted - 1 by omega⟩
    · exact ⟨htarget, hgranted⟩
  | reconciling =>
    obtain ⟨hsame, -, hset⟩ := reconcile_spec s
    exact ⟨show 1 ≤ s.reconcile.target by omega, show 1 ≤ s.reconcile.granted by omega⟩
  -- the other steps leave the bounds alone
  | live => exact ⟨htarget, hgranted⟩
  | owed => exact ⟨htarget, hgranted⟩
  | unowed => exact ⟨htarget, hgranted⟩
  | done => exact ⟨htarget, hgranted⟩

/-- **Step.** The free permits and the task's weight change as `granted` does. -/
theorem advance_balance (t : SchedulerTask) {s : BackgroundScheduler} (h : s.Floored) :
    (t.advance s).1.available + (t.advance s).2.weight + s.granted =
      s.available + t.weight + (t.advance s).1.granted := by
  have hgranted := h.granted_pos
  cases t with
  | apply n =>
    rcases retarget_cases s n with hr | hr <;> simp only [advance, hr, weight]
  | acquire =>
    by_cases hfree : 0 < s.available
    · simp only [advance, if_pos hfree, weight]
      omega
    · simp only [advance, if_neg hfree]
  | dropping =>
    rcases decideOwed_cases s with ⟨-, hd⟩ | ⟨-, hd⟩
    · simp only [advance, hd, if_pos, weight]
      omega
    · simp [advance, hd, weight]
  | reconciling =>
    obtain ⟨-, hmove, -⟩ := reconcile_spec s
    simpa [advance, weight] using hmove
  | unowed => rfl
  | live => rfl
  | owed => rfl
  | done => rfl

/-- **Step.** A task that unsettles the bound reconciles it later, and a task that is to
    reconcile it does or goes on. -/
theorem advance_settled (t : SchedulerTask) {s : BackgroundScheduler}
    (h : s.Settled ∨ t.Reconciles) :
    (t.advance s).1.Settled ∨ (t.advance s).2.Reconciles := by
  cases t with
  | apply n =>
    have hs : s.Settled := h.resolve_right id
    rcases retarget_cases s n with hr | hr <;> simp only [advance, hr]
    · exact Or.inl hs
    · exact Or.inr trivial
  | acquire =>
    have hs : s.Settled := h.resolve_right id
    left
    simp only [advance]
    split
    · rcases hs with heq | ⟨hlt, hnone⟩
      · exact Or.inl heq
      · exact Or.inr ⟨hlt, show s.available - 1 = 0 by omega⟩
    · exact hs
  | live => exact Or.inl (h.resolve_right id)
  | dropping =>
    rcases decideOwed_cases s with ⟨-, hd⟩ | ⟨-, hd⟩ <;> simp only [advance, hd] <;>
      exact Or.inr trivial
  | owed => exact Or.inr trivial
  | unowed => exact Or.inr trivial
  | reconciling =>
    obtain ⟨hsame, -, hset⟩ := reconcile_spec s
    left
    show s.reconcile.granted = s.reconcile.target ∨
      s.reconcile.target < s.reconcile.granted ∧ s.reconcile.available = 0
    rwa [hsame]
  | done => exact Or.inl (h.resolve_right id)

end SchedulerTask

/-! ## Runs -/

/-- What holds in every reachable state. -/
structure Books (c : Config BackgroundScheduler SchedulerTask) : Prop where
  floored : c.shared.Floored
  balance : c.shared.available + (c.tasks.map SchedulerTask.weight).sum = c.shared.granted
  settled : c.shared.Settled ∨ ∃ t ∈ c.tasks, t.Reconciles

theorem withBound_books (n : Nat) : Books (withBound n) where
  floored := ⟨Nat.le_max_right n 1, Nat.le_max_right n 1⟩
  balance := rfl
  settled := Or.inl (Or.inl rfl)

/-- A call has changed nothing when it arrives. -/
theorem scheduler_spawn (call : SchedulerCall) (s : BackgroundScheduler) :
    (scheduler.spawn call s).1 = s ∧ (scheduler.spawn call s).2.weight = 0 := by
  cases call <;> exact ⟨rfl, rfl⟩

/-- **Step.** Every move keeps the books. -/
theorem step_books (c : Config BackgroundScheduler SchedulerTask)
    (m : Move SchedulerCall Unit) (h : Books c) : Books (scheduler.step c m) where
  floored := by
    apply scheduler.step_shared h.floored
    · intro a _
      rw [(scheduler_spawn a c.shared).1]
      exact h.floored
    · intro i e t _ _
      exact t.advance_floored h.floored
  balance := by
    apply scheduler.step_balance (w := BackgroundScheduler.available)
      (b := BackgroundScheduler.granted) h.balance
    · intro a _
      obtain ⟨hsame, hweight⟩ := scheduler_spawn a c.shared
      rw [hsame, hweight, Nat.add_zero]
    · intro i e t _ _
      exact t.advance_balance h.floored
  settled := by
    apply scheduler.step_settles h.settled
    · intro a hset
      rw [(scheduler_spawn a c.shared).1]
      exact Or.inl hset
    · intro e t ht
      exact t.advance_settled ht

/-- **Run.** The books hold in every reachable state. -/
theorem run_books (n : Nat) (moves : List (Move SchedulerCall Unit)) :
    Books (after scheduler.step (withBound n) moves) :=
  after_invariant step_books (withBound_books n)

namespace Books

variable {c : Config BackgroundScheduler SchedulerTask}

theorem liveSlots_le (h : Books c) : liveSlots c ≤ c.shared.granted := by
  have hle : liveSlots c ≤ (c.tasks.map SchedulerTask.weight).sum :=
    List.sum_le_sum fun t _ => t.slots_le
  have hbal := h.balance
  omega

theorem permitsInExistence_eq (h : Books c) :
    permitsInExistence c = c.shared.granted + owedDrops c := by
  have hsplit : (c.tasks.map SchedulerTask.permits).sum =
      (c.tasks.map SchedulerTask.weight).sum + owedDrops c := by
    rw [owedDrops, ← List.sum_map_add, List.map_congr_left fun t _ => t.permits_eq]
  have hbal := h.balance
  unfold permitsInExistence
  omega

/-- With nothing in progress every permit is free, and the bound is at the target. -/
theorem of_quiescent (h : Books c) (hq : Quiescent c) :
    c.shared.granted = c.shared.target ∧ c.shared.available = c.shared.granted := by
  have hnone : (c.tasks.map SchedulerTask.weight).sum = 0 := by
    rw [List.sum_eq_zero_iff_forall_eq_nat]
    intro w hw
    obtain ⟨t, ht, rfl⟩ := List.mem_map.mp hw
    rw [hq t ht]
    rfl
  have hbal := h.balance
  have hpos := h.floored.granted_pos
  refine ⟨?_, by omega⟩
  rcases h.settled with hset | ⟨t, ht, hrec⟩
  · exact hset.resolve_right fun hdrain => by omega
  · rw [hq t ht] at hrec
    exact hrec.elim

end Books

/-- In every interleaving of applies, acquires and drops: no more slots are live than
    granted, no bound falls below 1, the permits in existence are those granted and those
    of the drops that are yet to forget theirs, and when nothing is in progress the
    granted and the free permits are the target. -/
theorem scheduler_conserves (n : Nat) (moves : List (Move SchedulerCall Unit)) :
    let c := after scheduler.step (withBound n) moves
    liveSlots c ≤ c.shared.granted ∧
      1 ≤ c.shared.granted ∧ 1 ≤ c.shared.target ∧
      permitsInExistence c = c.shared.granted + owedDrops c ∧
      (Quiescent c →
        c.shared.granted = c.shared.target ∧ c.shared.available = c.shared.target) := by
  intro c
  have hbooks : Books c := run_books n moves
  refine ⟨hbooks.liveSlots_le, hbooks.floored.granted_pos, hbooks.floored.target_pos,
    hbooks.permitsInExistence_eq, fun hq => ?_⟩
  obtain ⟨htarget, hfree⟩ := hbooks.of_quiescent hq
  exact ⟨htarget, hfree.trans htarget⟩

/-- A shrink to 1 while both slots are held, and then the first drop before it forgets its
    permit: one slot is granted and two permits exist. -/
example :
    let c := after scheduler.step (withBound 2)
      [.arrive .acquire, .arrive .acquire, .advance 0 (), .advance 1 (), .arrive (.apply 1),
        .advance 2 (), .advance 2 (), .advance 0 (), .advance 0 ()]
    (c.shared.granted, liveSlots c, permitsInExistence c, owedDrops c) = (1, 1, 2, 1) := by
  decide

end CirisServer
