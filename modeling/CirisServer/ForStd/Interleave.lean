import Mathlib.Algebra.Ring.Nat
import CirisServer.ForStd.Run

/-!
# Interleaved tasks over a shared state

A server handles many requests at once: each is a task that runs in atomic steps on
one shared state, and the scheduler picks whose step is next. This file has the
system as a step function (`System.step`), so that the rules of `ForStd/Run.lean`
apply to its runs, what a request does that runs alone (`System.after_solo`,
`System.after_alone`), the rule for an invariant that speaks about the shared state and
about every task (`System.step_preserves`), the rules for a budget that the shared state and the tasks
draw on together (`System.step_budget`, `System.step_balance`), and the rule for work that
some task still has to do (`System.step_settles`).
-/

universe u v w x

namespace Interleave

variable {σ : Type u} {π : Type v} {α : Type w} {ε : Type x}

/-- How a request becomes a task, and what one atomic step of a task does. `ε` is what
    the outside answers during the step. -/
structure System (σ : Type u) (π : Type v) (α : Type w) (ε : Type x) where
  spawn : α → σ → σ × π
  advance : ε → π → σ → σ × π

/-- The shared state and the tasks, in the order they arrived. -/
structure Config (σ : Type u) (π : Type v) where
  shared : σ
  tasks : List π
deriving DecidableEq

/-- The scheduler's choice. -/
inductive Move (α : Type w) (ε : Type x) where
  | arrive (a : α)
  | advance (i : Nat) (e : ε)
deriving DecidableEq

namespace System

variable (S : System σ π α ε)

/-- One move: a request arrives, or task `i` takes its next step. -/
def step (c : Config σ π) : Move α ε → Config σ π
  | .arrive a =>
    let (shared, t) := S.spawn a c.shared
    ⟨shared, c.tasks ++ [t]⟩
  | .advance i e =>
    match c.tasks[i]? with
    | none => c
    | some t =>
      let (shared, t) := S.advance e t c.shared
      ⟨shared, c.tasks.set i t⟩

theorem step_arrive (c : Config σ π) (a : α) :
    S.step c (.arrive a) = ⟨(S.spawn a c.shared).1, c.tasks ++ [(S.spawn a c.shared).2]⟩ := rfl

theorem step_advance_none {c : Config σ π} {i : Nat} (e : ε) (h : c.tasks[i]? = none) :
    S.step c (.advance i e) = c := by
  simp only [step, h]

theorem step_advance_some {c : Config σ π} {i : Nat} {t : π} (e : ε) (h : c.tasks[i]? = some t) :
    S.step c (.advance i e) =
      ⟨(S.advance e t c.shared).1, c.tasks.set i (S.advance e t c.shared).2⟩ := by
  simp only [step, h]

/-- **Step rule.** `J` of the shared state and `P` of every task survive a move, if the
    moving task restores them for itself and for the others. -/
theorem step_preserves {J : σ → Prop} {P : σ → π → Prop} {c : Config σ π} {m : Move α ε}
    (hJ : J c.shared) (hP : ∀ t ∈ c.tasks, P c.shared t)
    (harrive : ∀ a, m = .arrive a →
      J (S.spawn a c.shared).1 ∧ P (S.spawn a c.shared).1 (S.spawn a c.shared).2 ∧
        ∀ u ∈ c.tasks, P (S.spawn a c.shared).1 u)
    (hadvance : ∀ i e t, m = .advance i e → c.tasks[i]? = some t →
      J (S.advance e t c.shared).1 ∧ P (S.advance e t c.shared).1 (S.advance e t c.shared).2 ∧
        ∀ u ∈ c.tasks, P (S.advance e t c.shared).1 u) :
    J (S.step c m).shared ∧ ∀ t ∈ (S.step c m).tasks, P (S.step c m).shared t := by
  cases m with
  | arrive a =>
    obtain ⟨hJ', hnew, hold⟩ := harrive a rfl
    rw [S.step_arrive]
    refine ⟨hJ', fun t ht => ?_⟩
    rcases List.mem_append.mp ht with ht | ht
    · exact hold t ht
    · rw [List.mem_singleton.mp ht]
      exact hnew
  | advance i e =>
    cases ht : c.tasks[i]? with
    | none =>
      rw [S.step_advance_none e ht]
      exact ⟨hJ, hP⟩
    | some t =>
      rw [S.step_advance_some e ht]
      obtain ⟨hJ', hnew, hold⟩ := hadvance i e t rfl ht
      refine ⟨hJ', fun u hu => ?_⟩
      rcases List.mem_or_eq_of_mem_set hu with hu | rfl
      · exact hold u hu
      · exact hnew

/-- What every region keeps of the shared state, a move keeps. -/
theorem step_shared {J : σ → Prop} {c : Config σ π} {m : Move α ε} (h : J c.shared)
    (harrive : ∀ a, m = .arrive a → J (S.spawn a c.shared).1)
    (hadvance : ∀ i e t, m = .advance i e → c.tasks[i]? = some t → J (S.advance e t c.shared).1) :
    J (S.step c m).shared := by
  have hstep := S.step_preserves (P := fun _ _ => True) h (fun _ _ => trivial)
    (fun a hm => ⟨harrive a hm, trivial, fun _ _ => trivial⟩)
    (fun i e t hm ht => ⟨hadvance i e t hm ht, trivial, fun _ _ => trivial⟩)
  exact hstep.1

/-- A task that is over stays as it is. -/
theorem step_mem_of_fixed {c : Config σ π} {m : Move α ε} {t : π}
    (hfixed : ∀ e s, (S.advance e t s).2 = t) (h : t ∈ c.tasks) : t ∈ (S.step c m).tasks := by
  cases m with
  | arrive a => exact List.mem_append_left _ h
  | advance i e =>
    cases ht : c.tasks[i]? with
    | none => rwa [S.step_advance_none e ht]
    | some u =>
      rw [S.step_advance_some e ht]
      obtain ⟨j, hj, rfl⟩ := List.mem_iff_getElem.mp h
      by_cases hij : i = j
      · -- the step is its own
        have hu : u = c.tasks[j] := by
          rw [← Option.some.injEq, ← ht, hij, List.getElem?_eq_getElem hj]
        have hself := hfixed e c.shared
        rw [← hu] at hself ⊢
        show u ∈ c.tasks.set i (S.advance e u c.shared).2
        rw [hself]
        exact List.mem_set (hij ▸ hj) u
      · have hkept := List.getElem_set_ne hij (by simpa using hj)
          (a := (S.advance e u c.shared).2) (l := c.tasks)
        exact List.mem_iff_getElem.mpr ⟨j, by simpa using hj, hkept⟩

/-- A request that nothing interrupts, whatever it is answered. -/
theorem after_solo (c : Config σ π) (a : α) (es : List ε) :
    Run.after S.step c (.arrive a :: es.map (.advance c.tasks.length)) =
      ⟨(Run.after (fun q e => S.advance e q.2 q.1) (S.spawn a c.shared) es).1,
        c.tasks ++ [(Run.after (fun q e => S.advance e q.2 q.1) (S.spawn a c.shared) es).2]⟩ := by
  have hrun : ∀ q : σ × π, Run.after S.step ⟨q.1, c.tasks ++ [q.2]⟩
      (es.map (.advance c.tasks.length)) =
        ⟨(Run.after (fun q e => S.advance e q.2 q.1) q es).1,
          c.tasks ++ [(Run.after (fun q e => S.advance e q.2 q.1) q es).2]⟩ := by
    induction es with
    | nil =>
      intro q
      rfl
    | cons e es ih =>
      intro q
      have ht : (c.tasks ++ [q.2])[c.tasks.length]? = some q.2 := by simp
      rw [List.map_cons, Run.after_cons, S.step_advance_some e ht, Run.after_cons, ← ih]
      simp
  exact hrun (S.spawn a c.shared)

/-- `n` steps of a task that nothing interrupts. -/
def steps (e : ε) : Nat → σ × π → σ × π
  | 0, p => p
  | n + 1, p => steps e n (S.advance e p.2 p.1)

theorem steps_eq_after (e : ε) (n : Nat) (p : σ × π) :
    S.steps e n p = Run.after (fun q e => S.advance e q.2 q.1) p (List.replicate n e) := by
  induction n generalizing p with
  | zero => rfl
  | succ n ih =>
    rw [steps, ih, List.replicate_succ, Run.after_cons]

/-- A request that runs alone, from its arrival on. -/
theorem after_alone (c : Config σ π) (a : α) (e : ε) (n : Nat) :
    Run.after S.step c (.arrive a :: List.replicate n (.advance c.tasks.length e)) =
      ⟨(S.steps e n (S.spawn a c.shared)).1,
        c.tasks ++ [(S.steps e n (S.spawn a c.shared)).2]⟩ := by
  rw [S.steps_eq_after, ← S.after_solo, List.map_replicate]

/-- A task, and those beside it. -/
theorem exists_beside {ts : List π} {i : Nat} {t : π} (h : ts[i]? = some t) :
    ∃ before after, ts = before ++ t :: after ∧ ∀ u, ts.set i u = before ++ u :: after := by
  induction ts generalizing i with
  | nil => cases h
  | cons x ts ih =>
    cases i with
    | zero =>
      have hx : x = t := Option.some.inj h
      exact ⟨[], ts, by rw [hx, List.nil_append], fun u => rfl⟩
    | succ i =>
      obtain ⟨before, after, hts, hset⟩ := ih (i := i) h
      exact ⟨x :: before, after, by rw [hts, List.cons_append], fun u => by
        rw [List.set_cons_succ, hset, List.cons_append]⟩

/-- Exchanging one summand. -/
theorem sum_map_set {f : π → Nat} {ts : List π} {i : Nat} {t : π} (h : ts[i]? = some t) (u : π) :
    ((ts.set i u).map f).sum + f t = (ts.map f).sum + f u := by
  induction ts generalizing i with
  | nil => cases h
  | cons x xs ih =>
    cases i with
    | zero =>
      have hx : x = t := Option.some.inj h
      simp only [List.set_cons_zero, List.map_cons, List.sum_cons, hx]
      omega
    | succ i =>
      have hrest := ih (i := i) h
      simp only [List.set_cons_succ, List.map_cons, List.sum_cons]
      omega

/-- A sum over the tasks, when a request arrives. -/
theorem sum_step_arrive {f : π → Nat} (c : Config σ π) (a : α) :
    ((S.step c (.arrive a)).tasks.map f).sum =
      (c.tasks.map f).sum + f (S.spawn a c.shared).2 := by
  rw [S.step_arrive]
  simp only [List.map_append, List.map_cons, List.map_nil, List.sum_append, List.sum_cons,
    List.sum_nil, Nat.add_zero]

/-- A sum over the tasks, when a task steps. -/
theorem sum_step_advance {f : π → Nat} {c : Config σ π} {i : Nat} {t : π} (e : ε)
    (h : c.tasks[i]? = some t) :
    ((S.step c (.advance i e)).tasks.map f).sum + f t =
      (c.tasks.map f).sum + f (S.advance e t c.shared).2 := by
  rw [S.step_advance_some e h]
  exact sum_map_set h _

/-- What the shared state and the tasks hold together stays in a relation to the budget that can be
    added up and cancelled, if what a move takes is in it to what the move adds. -/
theorem step_ledger {R : Nat → Nat → Prop}
    (hR : ∀ {x y p q x' y' : Nat} (d : Nat), R x y → R p q → x' + d = x + p → y' + d = y + q →
      R x' y')
    {w b : σ → Nat} {f : π → Nat} {c : Config σ π} {m : Move α ε}
    (h : R (w c.shared + (c.tasks.map f).sum) (b c.shared))
    (harrive : ∀ a, m = .arrive a →
      R (w (S.spawn a c.shared).1 + f (S.spawn a c.shared).2 + b c.shared)
        (w c.shared + b (S.spawn a c.shared).1))
    (hadvance : ∀ i e t, m = .advance i e → c.tasks[i]? = some t →
      R (w (S.advance e t c.shared).1 + f (S.advance e t c.shared).2 + b c.shared)
        (w c.shared + f t + b (S.advance e t c.shared).1)) :
    R (w (S.step c m).shared + ((S.step c m).tasks.map f).sum) (b (S.step c m).shared) := by
  cases m with
  | arrive a =>
    rw [S.sum_step_arrive, S.step_arrive]
    apply hR (w c.shared + b c.shared) h (harrive a rfl)
    · dsimp only
      omega
    · dsimp only
      omega
  | advance i e =>
    cases ht : c.tasks[i]? with
    | none =>
      rw [S.step_advance_none e ht]
      exact h
    | some t =>
      have hsum := S.sum_step_advance (f := f) e ht
      have hshared : (S.step c (.advance i e)).shared = (S.advance e t c.shared).1 := by
        rw [S.step_advance_some e ht]
      rw [hshared]
      apply hR (w c.shared + f t + b c.shared) h (hadvance i e t rfl ht)
      · omega
      · omega

/-- **Budget rule.** What the shared state and the tasks hold together stays within the
    budget, if no move takes more than it adds to the budget. -/
theorem step_budget {w b : σ → Nat} {f : π → Nat} {c : Config σ π} {m : Move α ε}
    (h : w c.shared + (c.tasks.map f).sum ≤ b c.shared)
    (harrive : ∀ a, m = .arrive a →
      w (S.spawn a c.shared).1 + f (S.spawn a c.shared).2 + b c.shared ≤
        w c.shared + b (S.spawn a c.shared).1)
    (hadvance : ∀ i e t, m = .advance i e → c.tasks[i]? = some t →
      w (S.advance e t c.shared).1 + f (S.advance e t c.shared).2 + b c.shared ≤
        w c.shared + f t + b (S.advance e t c.shared).1) :
    w (S.step c m).shared + ((S.step c m).tasks.map f).sum ≤ b (S.step c m).shared :=
  S.step_ledger (R := (· ≤ ·)) (fun d hxy hpq hx hy => by omega) h harrive hadvance

/-- **Balance rule.** What the shared state and the tasks hold together is the budget,
    if every move takes exactly what it adds to the budget. -/
theorem step_balance {w b : σ → Nat} {f : π → Nat} {c : Config σ π} {m : Move α ε}
    (h : w c.shared + (c.tasks.map f).sum = b c.shared)
    (harrive : ∀ a, m = .arrive a →
      w (S.spawn a c.shared).1 + f (S.spawn a c.shared).2 + b c.shared =
        w c.shared + b (S.spawn a c.shared).1)
    (hadvance : ∀ i e t, m = .advance i e → c.tasks[i]? = some t →
      w (S.advance e t c.shared).1 + f (S.advance e t c.shared).2 + b c.shared =
        w c.shared + f t + b (S.advance e t c.shared).1) :
    w (S.step c m).shared + ((S.step c m).tasks.map f).sum = b (S.step c m).shared :=
  S.step_ledger (R := (· = ·)) (fun d hxy hpq hx hy => by omega) h harrive hadvance

/-- **Settling rule.** The shared state is settled or some task has yet to settle it, if
    a task that unsettles it takes that on and a task that had taken it on settles it or
    goes on. -/
theorem step_settles {A : σ → Prop} {Q : π → Prop} {c : Config σ π} {m : Move α ε}
    (h : A c.shared ∨ ∃ t ∈ c.tasks, Q t)
    (harrive : ∀ a, A c.shared → A (S.spawn a c.shared).1 ∨ Q (S.spawn a c.shared).2)
    (hadvance : ∀ e t, A c.shared ∨ Q t →
      A (S.advance e t c.shared).1 ∨ Q (S.advance e t c.shared).2) :
    A (S.step c m).shared ∨ ∃ t ∈ (S.step c m).tasks, Q t := by
  cases m with
  | arrive a =>
    rw [S.step_arrive]
    rcases h with hA | ⟨t, ht, hQ⟩
    · refine (harrive a hA).imp_right fun hQ => ?_
      exact ⟨_, List.mem_append_right _ (List.mem_singleton_self _), hQ⟩
    · exact Or.inr ⟨t, List.mem_append_left _ ht, hQ⟩
  | advance i e =>
    cases ht : c.tasks[i]? with
    | none =>
      rw [S.step_advance_none e ht]
      exact h
    | some t =>
      rw [S.step_advance_some e ht]
      have hi : i < c.tasks.length := (List.getElem?_eq_some_iff.mp ht).1
      have hown : A c.shared ∨ Q t →
          A (S.advance e t c.shared).1 ∨
            ∃ u ∈ c.tasks.set i (S.advance e t c.shared).2, Q u := by
        intro hAQ
        exact (hadvance e t hAQ).imp_right fun hQ => ⟨_, List.mem_set hi _, hQ⟩
      rcases h with hA | ⟨u, hu, hQ⟩
      · exact hown (Or.inl hA)
      · obtain ⟨j, hj, hju⟩ := List.mem_iff_getElem.mp hu
        by_cases hij : i = j
        · -- the step is the task's own
          have htu : t = u := by
            rw [← Option.some.injEq, ← ht, hij, List.getElem?_eq_getElem hj, hju]
          exact hown (Or.inr (htu ▸ hQ))
        · refine Or.inr ⟨u, List.mem_iff_getElem.mpr ⟨j, by simpa using hj, ?_⟩, hQ⟩
          rw [List.getElem_set_ne hij, hju]

end System

end Interleave
