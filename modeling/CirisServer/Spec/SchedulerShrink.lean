import CirisServer.Spec.BackgroundScheduler

/-!
# A lowered ceiling

Once an `apply` has returned, nothing is free above the target, and so a waiter that gets a permit
is within the ceiling. Two steps break this: a drop that has decided before the target was lowered
and releases its permit afterwards, and an `apply` that finds its target set by another one that is
yet to reconcile.

Key results:
- `advance_drained`: the steps that keep what is free within the target
- `lowered_ceiling_obeyed`: the runs in which no waiter exceeds the ceiling
-/

namespace CirisServer

open Interleave Run

variable {c : Config BackgroundScheduler SchedulerTask} {m : Move SchedulerCall Unit}
  {i j k n t : Nat}

/-! ## The condition -/

/-- Nothing is free above the target. -/
def BackgroundScheduler.Drained (s : BackgroundScheduler) : Prop :=
  s.granted ≤ s.target ∨ s.available = 0

instance (s : BackgroundScheduler) : Decidable s.Drained :=
  inferInstanceAs (Decidable (_ ∨ _))

namespace SchedulerTask

/-- The task is an `apply` that has not reached its region. -/
def applies : SchedulerTask → Bool
  | .apply _ => true
  | _ => false

/-- The step of the task heeds the ceiling: after the return of the `apply` a drop does not release
    its permit above the target, and an `apply` finds its own target set only if it is drained. -/
def Heeds (returned : Prop) (s : BackgroundScheduler) : SchedulerTask → Prop
  | .unowed => returned → s.granted ≤ s.target
  | .apply n => s.target = max n 1 → s.Drained
  | _ => True

instance (returned : Prop) [Decidable returned] (s : BackgroundScheduler) :
    (t : SchedulerTask) → Decidable (t.Heeds returned s)
  | .unowed => inferInstanceAs (Decidable (_ → _))
  | .apply _ => inferInstanceAs (Decidable (_ → _))
  | .acquire | .live | .dropping | .owed | .reconciling | .done =>
    inferInstanceAs (Decidable True)

end SchedulerTask

/-- The move heeds the ceiling that the call `i` has set. -/
def Obedient (i : Nat) (c : Config BackgroundScheduler SchedulerTask) :
    Move SchedulerCall Unit → Prop
  | .arrive _ => True
  | .advance j _ => ∀ u ∈ c.tasks[j]?, u.Heeds (c.tasks[i]? = some .done) c.shared

instance (i : Nat) (c : Config BackgroundScheduler SchedulerTask) :
    (m : Move SchedulerCall Unit) → Decidable (Obedient i c m)
  | .arrive _ => inferInstanceAs (Decidable True)
  | .advance j _ =>
    inferInstanceAs (Decidable (∀ u ∈ c.tasks[j]?, u.Heeds (c.tasks[i]? = some .done) c.shared))

/-- The move is not the region of an `apply`. -/
def NoApply (c : Config BackgroundScheduler SchedulerTask) : Move SchedulerCall Unit → Prop
  | .arrive _ => True
  | .advance j _ => ∀ u ∈ c.tasks[j]?, u.applies = false

instance (c : Config BackgroundScheduler SchedulerTask) :
    (m : Move SchedulerCall Unit) → Decidable (NoApply c m)
  | .arrive _ => inferInstanceAs (Decidable True)
  | .advance j _ => inferInstanceAs (Decidable (∀ u ∈ c.tasks[j]?, u.applies = false))

/-- The pending `acquire` completes with its next step. -/
def Completes (c : Config BackgroundScheduler SchedulerTask) (k : Nat) : Prop :=
  c.tasks[k]? = some .acquire ∧ (scheduler.step c (.advance k ())).tasks[k]? = some .live

instance (c : Config BackgroundScheduler SchedulerTask) (k : Nat) : Decidable (Completes c k) :=
  inferInstanceAs (Decidable (_ ∧ _))

/-! ## One step -/

namespace SchedulerTask

open BackgroundScheduler

variable {s : BackgroundScheduler}

/-- **Step.** Only an `apply` moves the target. -/
theorem advance_target (u : SchedulerTask) (h : u.applies = false) :
    (u.advance s).1.target = s.target := by
  cases u with
  | apply n => cases h
  | acquire =>
    simp only [advance]
    split <;> rfl
  | dropping => rcases decideOwed_cases s with ⟨-, hd⟩ | ⟨-, hd⟩ <;> simp only [advance, hd]
  | reconciling => exact (reconcile_spec s).1
  | live => rfl
  | owed => rfl
  | unowed => rfl
  | done => rfl

theorem reconcile_drained (s : BackgroundScheduler) : s.reconcile.Drained := by
  obtain ⟨hsame, -, hset⟩ := reconcile_spec s
  rw [Drained, hsame]
  omega

/-- **Step.** Only a release above the target frees anything there. -/
theorem advance_drained (u : SchedulerTask) (happly : u.applies = false) (hs : s.Drained)
    (hheeds : u.Heeds True s) : (u.advance s).1.Drained := by
  cases u with
  | apply n => cases happly
  | acquire =>
    simp only [advance]
    split
    · exact hs.imp id fun hnone => show s.available - 1 = 0 by omega
    · exact hs
  | dropping =>
    rcases decideOwed_cases s with ⟨-, hd⟩ | ⟨-, hd⟩ <;> simp only [advance, hd]
    · exact hs.imp (fun hle => show s.granted - 1 ≤ s.target by omega) id
    · exact hs
  | unowed => exact Or.inl (hheeds trivial)
  | reconciling => exact reconcile_drained s
  | live => exact hs
  | owed => exact hs
  | done => exact hs

end SchedulerTask

/-! ## Runs -/

/-- The ceiling of the call `i` is set, and it has returned only if nothing is free above it. -/
structure CeilingSet (t i : Nat) (c : Config BackgroundScheduler SchedulerTask) : Prop where
  target : c.shared.target = max t 1
  drained : c.tasks[i]? = some .reconciling ∨ c.tasks[i]? = some .done ∧ c.shared.Drained

/-- The region of the `apply` sets the ceiling. -/
theorem step_ceilingSet (hi : c.tasks[i]? = some (.apply t))
    (hobey : Obedient i c (.advance i ())) :
    CeilingSet t i (scheduler.step c (.advance i ())) := by
  have hlt : i < c.tasks.length := (List.getElem?_eq_some_iff.mp hi).1
  have hheeds := hobey _ hi
  rw [scheduler.step_advance_some () hi]
  show CeilingSet t i ⟨((SchedulerTask.apply t).advance c.shared).1,
    c.tasks.set i ((SchedulerTask.apply t).advance c.shared).2⟩
  rcases c.shared.retarget_cases t with hsame | hnew
  · -- it returns at once
    have htarget : c.shared.target = max t 1 := by
      by_contra hne
      rw [BackgroundScheduler.retarget, if_neg hne] at hsame
      cases hsame
    simp only [SchedulerTask.advance, hsame]
    exact ⟨htarget, Or.inr ⟨by simp [hlt], hheeds htarget⟩⟩
  · simp only [SchedulerTask.advance, hnew]
    exact ⟨rfl, Or.inl (by simp [hlt])⟩

/-- **Step.** The ceiling stays set, and drained after the return. -/
theorem CeilingSet.step (h : CeilingSet t i c) (hno : NoApply c m) (hobey : Obedient i c m) :
    CeilingSet t i (scheduler.step c m) := by
  cases m with
  | arrive a =>
    have hlt : i < c.tasks.length := by
      rcases h.drained with hi | ⟨hi, -⟩ <;> exact (List.getElem?_eq_some_iff.mp hi).1
    rw [scheduler.step_arrive, (scheduler_spawn a c.shared).1]
    refine ⟨h.target, ?_⟩
    rw [List.getElem?_append_left hlt]
    exact h.drained
  | advance j e =>
    cases hj : c.tasks[j]? with
    | none =>
      rw [scheduler.step_advance_none e hj]
      exact h
    | some u =>
      have happly := hno u hj
      have hheeds := hobey u hj
      rw [scheduler.step_advance_some e hj]
      show CeilingSet t i ⟨(u.advance c.shared).1, c.tasks.set j (u.advance c.shared).2⟩
      refine ⟨(u.advance_target happly).trans h.target, ?_⟩
      by_cases hij : j = i
      · -- the step is that of the call itself
        subst hij
        have hlt : j < c.tasks.length := (List.getElem?_eq_some_iff.mp hj).1
        right
        rcases h.drained with hrec | ⟨hdone, hdrained⟩
        · obtain rfl : u = .reconciling := Option.some.inj (hj.symm.trans hrec)
          exact ⟨by simp [hlt, SchedulerTask.advance], SchedulerTask.reconcile_drained c.shared⟩
        · obtain rfl : u = .done := Option.some.inj (hj.symm.trans hdone)
          exact ⟨by simp [hlt, SchedulerTask.advance], hdrained⟩
      · rw [List.getElem?_set_ne hij]
        rcases h.drained with hrec | ⟨hdone, hdrained⟩
        · exact Or.inl hrec
        · refine Or.inr ⟨hdone, u.advance_drained happly hdrained ?_⟩
          cases u with
          | unowed => exact fun _ => hheeds hdone
          | apply n => cases happly
          | _ => trivial

/-- A waiter gets a permit only where one is free. -/
theorem Completes.available_pos (h : Completes c k) : 0 < c.shared.available := by
  by_contra hnone
  have hnext := h.2
  rw [scheduler.step_advance_some () h.1] at hnext
  have hlt : k < c.tasks.length := (List.getElem?_eq_some_iff.mp h.1).1
  have hstay : (scheduler.advance () .acquire c.shared).2 = .acquire := by
    show (SchedulerTask.advance .acquire c.shared).2 = .acquire
    simp only [SchedulerTask.advance, if_neg hnone]
  rw [hstay] at hnext
  simp [hlt] at hnext

/-- With nothing free above the target, fewer slots are live where a waiter gets a permit. -/
theorem Books.liveSlots_lt (h : Books c) (hdrained : c.shared.Drained) (hk : Completes c k) :
    liveSlots c < c.shared.target := by
  have hfree := hk.available_pos
  have hlive : liveSlots c ≤ (c.tasks.map SchedulerTask.weight).sum :=
    List.sum_le_sum fun t _ => t.slots_le
  have hbal := h.balance
  rcases hdrained with hle | hnone
  · omega
  · omega

/-- **Run.** From the region of an `apply` on, before any other one, and with every move obedient:
    once the call has returned, no waiter gets a permit with as many live slots as the ceiling. -/
theorem lowered_ceiling_obeyed (n t i k : Nat) (before later : List (Move SchedulerCall Unit))
    (hi : (after scheduler.step (withBound n) before).tasks[i]? = some (.apply t))
    (hno : Guarded scheduler.step NoApply
      (after scheduler.step (withBound n) (before ++ [.advance i ()])) later)
    (hobey : Guarded scheduler.step (Obedient i) (after scheduler.step (withBound n) before)
      (.advance i () :: later))
    (hreturned : (after scheduler.step (withBound n)
      (before ++ .advance i () :: later)).tasks[i]? = some .done)
    (hk : Completes (after scheduler.step (withBound n) (before ++ .advance i () :: later)) k) :
    liveSlots (after scheduler.step (withBound n) (before ++ .advance i () :: later)) <
      max t 1 := by
  have hbooks := run_books n (before ++ .advance i () :: later)
  have hset := step_ceilingSet hi hobey.1
  rw [after_concat] at hno
  rw [after_append, after_cons] at hreturned hk hbooks ⊢
  have hrun : CeilingSet t i (after scheduler.step
      (scheduler.step (after scheduler.step (withBound n) before) (.advance i ())) later) :=
    (hno.and hobey.2).invariant (fun _ _ h hok => h.step hok.1 hok.2) hset
  rcases hrun.drained with hrec | ⟨-, hdrained⟩
  · rw [hrec] at hreturned
    cases hreturned
  · exact hrun.target ▸ hbooks.liveSlots_lt hdrained hk

/-- What a release above the target leads to: a waiter gets the permit, with as many as the target
    still held. -/
theorem released_above (h : Books c) {j : Nat} (hj : c.tasks[j]? = some .unowed)
    (hk : c.tasks[k]? = some .acquire) (hdrained : c.shared.Drained)
    (habove : c.shared.target < c.shared.granted) :
    Completes (scheduler.step c (.advance j ())) k ∧
      c.shared.target ≤
        ((scheduler.step c (.advance j ())).tasks.map SchedulerTask.weight).sum := by
  have hne : j ≠ k := by
    rintro rfl
    rw [hj] at hk
    cases hk
  have hlt : k < c.tasks.length := (List.getElem?_eq_some_iff.mp hk).1
  constructor
  · rw [scheduler.step_advance_some () hj]
    have hwaits : (c.tasks.set j (scheduler.advance () .unowed c.shared).2)[k]? =
        some .acquire := by
      rw [List.getElem?_set_ne hne, hk]
    refine ⟨hwaits, ?_⟩
    rw [scheduler.step_advance_some () hwaits]
    have hfree : 0 < (scheduler.advance () .unowed c.shared).1.available :=
      Nat.succ_pos c.shared.available
    show (List.set _ k (SchedulerTask.advance .acquire _).2)[k]? = _
    simp only [SchedulerTask.advance, if_pos hfree]
    simp [hlt]
  · have hsum := scheduler.sum_step_advance (f := SchedulerTask.weight) () hj
    have hbal := h.balance
    have hone : SchedulerTask.weight .unowed = 1 := rfl
    have hzero : (scheduler.advance () .unowed c.shared).2.weight = 0 := rfl
    have hnone : c.shared.available = 0 := hdrained.resolve_left (Nat.not_le_of_lt habove)
    omega

/-! ### A permit that is handed over -/

namespace Shrink

/-- Two slots are live under a bound of 2, and a third call waits. -/
def waiting : List (Move SchedulerCall Unit) :=
  [.arrive .acquire, .arrive .acquire, .arrive .acquire, .advance 0 (), .advance 1 ()]

/-- `n` steps of the call `i`. -/
def steps (i n : Nat) : List (Move SchedulerCall Unit) := List.replicate n (.advance i ())

/-- A ceiling of 1 comes. -/
def relieved : List (Move SchedulerCall Unit) := waiting ++ [.arrive (.apply 1)]

/-- It is set, and both slots are dropped. -/
def dropped : List (Move SchedulerCall Unit) := steps 3 1 ++ steps 0 4 ++ steps 1 3

end Shrink

/-- The waiter gets the second slot's permit, when no slot is live. -/
theorem lowered_ceiling_obeyed_drops :
    Completes (after scheduler.step (withBound 2)
        (Shrink.relieved ++ .advance 3 () :: Shrink.dropped)) 2 ∧
      liveSlots (after scheduler.step (withBound 2)
        (Shrink.relieved ++ .advance 3 () :: Shrink.dropped)) < max 1 1 := by
  have hk : Completes (after scheduler.step (withBound 2)
      (Shrink.relieved ++ .advance 3 () :: Shrink.dropped)) 2 := by decide +kernel
  have hlt := lowered_ceiling_obeyed 2 1 3 2 Shrink.relieved Shrink.dropped (by decide +kernel)
    (by decide +kernel) (by decide +kernel) (by decide +kernel) hk
  exact ⟨hk, hlt⟩

/-- A drop decides that it owes nothing, the ceiling is lowered to 1 and the call returns; then the
    drop releases its permit, and a waiter gets it while the other slot is live. And a call that
    finds its ceiling set returns before the other call has taken back what is free. -/
theorem lowered_ceiling_exceeded :
    (let before := Shrink.waiting ++ Shrink.steps 0 2 ++ [.arrive (.apply 1)]
      let later := Shrink.steps 3 1 ++ Shrink.steps 0 1
      let c := after scheduler.step (withBound 2) (before ++ .advance 3 () :: later)
      (after scheduler.step (withBound 2) before).tasks[3]? = some (.apply 1) ∧
        Guarded scheduler.step NoApply
          (after scheduler.step (withBound 2) (before ++ [.advance 3 ()])) later ∧
        c.tasks[3]? = some .done ∧ Completes c 2 ∧ liveSlots c = 1) ∧
    (let before := [.arrive .acquire, .arrive .acquire, .advance 0 (), .arrive (.apply 1),
        .arrive (.apply 1), .advance 2 ()]
      let c := after scheduler.step (withBound 4) (before ++ [.advance 3 ()])
      (after scheduler.step (withBound 4) before).tasks[3]? = some (.apply 1) ∧
        c.tasks[3]? = some .done ∧ Completes c 1 ∧ liveSlots c = 1) := by
  decide +kernel

end CirisServer
