import CirisServer.ForStd.Run
import Mathlib.Algebra.GroupWithZero.Nat

/-!
# What a run puts out

A step may put something out: an answer, a completed tick, a printed line. `Run.outputs` lists what
the steps of a run put out, oldest first. The rules lift a fact about one step to the outputs of
every guarded run:

- `Guarded.forall_outputs`: what holds of each step's outputs holds of all of them
- `Guarded.pairwise_outputs`: what an output leaves behind bounds every later one
- `exists_split_of_sublist`: the run up to an output, and what comes after it
- `Guarded.fifo`: where each step keeps the order of a queue, the run does
- `Guarded.balance`: where each step's intake is its outputs' weight and the change of what is held,
  the same is true of the run; `Guarded.intake` where nothing goes out
-/

universe u v w

namespace Run

variable {σ : Type u} {ε : Type v} {α : Type w} {step : σ → ε → σ} {out : σ → ε → List α}

/-- What the steps of a run put out, oldest first. -/
def outputs (step : σ → ε → σ) (out : σ → ε → List α) : σ → List ε → List α
  | _, [] => []
  | s, e :: es => out s e ++ outputs step out (step s e) es

@[simp] theorem outputs_nil (s : σ) : outputs step out s [] = [] := rfl

@[simp] theorem outputs_cons (s : σ) (e : ε) (es : List ε) :
    outputs step out s (e :: es) = out s e ++ outputs step out (step s e) es := rfl

theorem outputs_append (s : σ) (es es' : List ε) :
    outputs step out s (es ++ es') =
      outputs step out s es ++ outputs step out (after step s es) es' := by
  induction es generalizing s with
  | nil => rfl
  | cons e es ih =>
    rw [List.cons_append, outputs_cons, outputs_cons, ih, after_cons, List.append_assoc]

variable {ok : σ → ε → Prop} {I : σ → Prop} {s : σ} {es : List ε}

/-- Every run is guarded by nothing. -/
theorem Guarded.trivial (s : σ) (es : List ε) : Guarded step (fun _ _ => True) s es := by
  induction es generalizing s with
  | nil => exact True.intro
  | cons e es ih => exact ⟨True.intro, ih (step s e)⟩

/-- A guard that does not look at the state. -/
theorem guarded_of_forall {q : ε → Prop} (h : ∀ e ∈ es, q e) :
    Guarded step (fun _ e => q e) s es := by
  induction es generalizing s with
  | nil => exact True.intro
  | cons e es ih =>
    rw [List.forall_mem_cons] at h
    exact ⟨h.1, ih h.2⟩

/-- **Output rule.** What every guarded step's outputs have, all outputs of a run have. -/
theorem Guarded.forall_outputs {Q : α → Prop}
    (hstep : ∀ s e, I s → ok s e → I (step s e) ∧ ∀ x ∈ out s e, Q x)
    (hg : Guarded step ok s es) (h : I s) : ∀ x ∈ outputs step out s es, Q x := by
  induction es generalizing s with
  | nil => exact fun x hx => absurd hx List.not_mem_nil
  | cons e es ih =>
    intro x hx
    have hkeep := hstep s e h hg.1
    rw [outputs_cons, List.mem_append] at hx
    cases hx with
    | inl hnow => exact hkeep.2 x hnow
    | inr hlater => exact ih hg.2 hkeep.1 x hlater

/-- What every step's outputs have in every state, all outputs have. -/
theorem forall_outputs {Q : α → Prop} (h : ∀ s e, ∀ x ∈ out s e, Q x) :
    ∀ x ∈ outputs step out s es, Q x :=
  Guarded.forall_outputs (I := fun _ => True) (fun s e _ _ => ⟨True.intro, h s e⟩)
    (Guarded.trivial s es) True.intro

/-- **Order rule.** `L x s` is what the output `x` leaves behind in the states after it. If the
    steps keep it and it puts every output after `x` in relation to `x`, then the outputs of a
    run are in that relation pairwise. -/
theorem Guarded.pairwise_outputs {R : α → α → Prop} {L : α → σ → Prop}
    (hI : ∀ s e, I s → ok s e → I (step s e))
    (hout : ∀ s e, I s → ok s e → (out s e).Pairwise R)
    (hnew : ∀ s e, I s → ok s e → ∀ x ∈ out s e, L x (step s e))
    (hkeep : ∀ s e, I s → ok s e → ∀ x, L x s → L x (step s e) ∧ ∀ y ∈ out s e, R x y)
    (hg : Guarded step ok s es) (h : I s) : (outputs step out s es).Pairwise R := by
  induction es generalizing s with
  | nil => exact List.Pairwise.nil
  | cons e es ih =>
    have hI' := hI s e h hg.1
    rw [outputs_cons, List.pairwise_append]
    refine ⟨hout s e h hg.1, ih hg.2 hI', fun x hx => ?_⟩
    -- what `x` left behind goes with the invariant through the rest of the run
    have hstep : ∀ s e, I s ∧ L x s → ok s e →
        (I (step s e) ∧ L x (step s e)) ∧ ∀ y ∈ out s e, R x y := by
      intro s e hs hok
      have hx := hkeep s e hs.1 hok x hs.2
      exact ⟨⟨hI s e hs.1 hok, hx.1⟩, hx.2⟩
    exact Guarded.forall_outputs hstep hg.2 ⟨hI', hnew s e h hg.1 x hx⟩

/-- Where a step puts out one thing at most, an output divides the run into what came before it and
    what put out the rest. -/
theorem exists_split_of_sublist (hone : ∀ s e, (out s e).length ≤ 1) {x : α} {l : List α}
    (h : (x :: l).Sublist (outputs step out s es)) :
    ∃ before e rest, es = before ++ e :: rest ∧ x ∈ out (after step s before) e ∧
      l.Sublist (outputs step out (after step s (before ++ [e])) rest) := by
  induction es generalizing s with
  | nil => cases h
  | cons e es ih =>
    -- either the first step put `x` out, or `x` is among the later outputs
    have hcases : (x ∈ out s e ∧ l.Sublist (outputs step out (step s e) es)) ∨
        (x :: l).Sublist (outputs step out (step s e) es) := by
      rw [outputs_cons] at h
      have hlen := hone s e
      cases hout : out s e with
      | nil =>
        rw [hout] at h
        exact Or.inr h
      | cons a as =>
        rw [hout, List.length_cons] at hlen
        have has : as = [] := List.eq_nil_of_length_eq_zero (by omega)
        rw [hout, has] at h
        cases h with
        | cons _ hrest => exact Or.inr hrest
        | cons_cons _ hrest => exact Or.inl ⟨List.mem_cons_self, hrest⟩
    cases hcases with
    | inl hx => exact ⟨[], e, es, rfl, hx⟩
    | inr hlater =>
      obtain ⟨before, e', rest, hes, hx, hl⟩ := ih hlater
      exact ⟨e :: before, e', rest, by rw [hes]; rfl, hx, hl⟩

/-- **Queue rule.** If in every guarded step what is held, followed by what comes in, is what goes
    out followed by what is held then, so it is over a run: everything leaves in the order it
    came. -/
theorem Guarded.fifo {into : σ → ε → List α} (held : σ → List α)
    (hI : ∀ s e, I s → ok s e → I (step s e))
    (hstep : ∀ s e, I s → ok s e → held s ++ into s e = out s e ++ held (step s e))
    (hg : Guarded step ok s es) (h : I s) :
    held s ++ outputs step into s es = outputs step out s es ++ held (after step s es) := by
  induction es generalizing s with
  | nil => simp
  | cons e es ih =>
    have hlater := ih hg.2 (hI s e h hg.1)
    calc held s ++ (into s e ++ outputs step into (step s e) es)
        = out s e ++ (held (step s e) ++ outputs step into (step s e) es) := by
          rw [← List.append_assoc, hstep s e h hg.1, List.append_assoc]
      _ = out s e ++ outputs step out (step s e) es ++ held (after step (step s e) es) := by
          rw [hlater, List.append_assoc]

/-- The queue rule where nothing is guarded. -/
theorem fifo {into : σ → ε → List α} (held : σ → List α)
    (hstep : ∀ s e, held s ++ into s e = out s e ++ held (step s e)) :
    held s ++ outputs step into s es = outputs step out s es ++ held (after step s es) :=
  Guarded.fifo (I := fun _ => True) held (fun _ _ _ _ => True.intro) (fun s e _ _ => hstep s e)
    (Guarded.trivial s es) True.intro

/-- **Balance rule.** If in every guarded step what comes in is what goes out and what the held
    amount grows by, then so it is over a run. -/
theorem Guarded.balance {β : Type w} {into : σ → ε → List β} {weigh : β → Nat} {weight : α → Nat}
    {held : σ → Nat} (hI : ∀ s e, I s → ok s e → I (step s e))
    (hstep : ∀ s e, I s → ok s e →
      held s + ((into s e).map weigh).sum = ((out s e).map weight).sum + held (step s e))
    (hg : Guarded step ok s es) (h : I s) :
    held s + ((outputs step into s es).map weigh).sum =
      ((outputs step out s es).map weight).sum + held (after step s es) := by
  induction es generalizing s with
  | nil => simp
  | cons e es ih =>
    have hnow := hstep s e h hg.1
    have hlater := ih hg.2 (hI s e h hg.1)
    simp only [outputs_cons, List.map_append, List.sum_append, after_cons]
    omega

/-- The balance of a run in which nothing goes out. -/
theorem Guarded.intake {weigh : α → Nat} {held : σ → Nat}
    (hI : ∀ s e, I s → ok s e → I (step s e))
    (hstep : ∀ s e, I s → ok s e → held s + ((out s e).map weigh).sum = held (step s e))
    (hg : Guarded step ok s es) (h : I s) :
    held s + ((outputs step out s es).map weigh).sum = held (after step s es) := by
  have hbalance : held s + ((outputs step out s es).map weigh).sum =
      ((outputs step (fun _ _ => ([] : List α)) s es).map fun _ => 0).sum +
        held (after step s es) :=
    Guarded.balance hI (fun s e hs hok => by simpa using hstep s e hs hok) hg h
  simpa only [List.map_const', List.sum_replicate_nat, Nat.mul_zero, Nat.zero_add] using hbalance

end Run
