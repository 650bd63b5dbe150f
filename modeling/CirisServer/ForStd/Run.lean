/-!
# Runs of a step function

A system is a step function `step : σ → ε → σ`: a state and the next event give
the next state. A run is a list of events, oldest first. This file holds the
vocabulary the correctness proofs share, over arbitrary states and events:

- `Run.after`: the state a run ends in
- `Run.Guarded`: every event of the run meets a condition in the state it finds
- `Run.Happens`: some event of the run meets a condition in the state it finds

and the rules that turn a fact about one step into a fact about every run,
`Guarded.invariant`, `Guarded.unless` and `guarded_iff_after`.
-/

universe u v w

namespace Run

variable {σ : Type u} {ε : Type v} {step : σ → ε → σ}

/-- The state after the events `es`, applied in order from `s`. -/
def after (step : σ → ε → σ) (s : σ) (es : List ε) : σ :=
  es.foldl step s

@[simp] theorem after_nil (s : σ) : after step s [] = s := rfl

@[simp] theorem after_cons (s : σ) (e : ε) (es : List ε) :
    after step s (e :: es) = after step (step s e) es := rfl

theorem after_append (s : σ) (es es' : List ε) :
    after step s (es ++ es') = after step (after step s es) es' :=
  List.foldl_append

theorem after_concat (s : σ) (es : List ε) (e : ε) :
    after step s (es ++ [e]) = step (after step s es) e :=
  after_append s es [e]

/-- What every step preserves, a run preserves. -/
theorem after_invariant {I : σ → Prop} {s : σ} {es : List ε}
    (hstep : ∀ s e, I s → I (step s e)) (h : I s) : I (after step s es) := by
  induction es generalizing s with
  | nil => exact h
  | cons e es ih => exact ih (hstep s e h)

/-- Every event of the run meets `ok` in the state it is applied to. -/
def Guarded (step : σ → ε → σ) (ok : σ → ε → Prop) : σ → List ε → Prop
  | _, [] => True
  | s, e :: es => ok s e ∧ Guarded step ok (step s e) es

/-- Some event of the run meets `p` in the state it is applied to. -/
def Happens (step : σ → ε → σ) (p : σ → ε → Prop) : σ → List ε → Prop
  | _, [] => False
  | s, e :: es => p s e ∨ Happens step p (step s e) es

instance decidableGuarded (ok : σ → ε → Prop) [∀ s e, Decidable (ok s e)] :
    ∀ (s : σ) (es : List ε), Decidable (Guarded step ok s es)
  | _, [] => inferInstanceAs (Decidable True)
  | s, e :: es =>
    have := decidableGuarded ok (step s e) es
    inferInstanceAs (Decidable (ok s e ∧ Guarded step ok (step s e) es))

instance decidableHappens (p : σ → ε → Prop) [∀ s e, Decidable (p s e)] :
    ∀ (s : σ) (es : List ε), Decidable (Happens step p s es)
  | _, [] => inferInstanceAs (Decidable False)
  | s, e :: es =>
    have := decidableHappens p (step s e) es
    inferInstanceAs (Decidable (p s e ∨ Happens step p (step s e) es))

/-- A run in which no event meets `p` is guarded by `¬ p`. -/
theorem Guarded.of_not_happens {p : σ → ε → Prop} {s : σ} {es : List ε}
    (h : ¬ Happens step p s es) : Guarded step (fun s e => ¬ p s e) s es := by
  induction es generalizing s with
  | nil => trivial
  | cons e es ih =>
    simp only [Happens, not_or] at h
    exact ⟨h.1, ih h.2⟩

/-- A guarded run is guarded up to any point, and from there on. -/
theorem guarded_append_iff {ok : σ → ε → Prop} {s : σ} {es es' : List ε} :
    Guarded step ok s (es ++ es') ↔
      Guarded step ok s es ∧ Guarded step ok (after step s es) es' := by
  induction es generalizing s with
  | nil => simp [Guarded]
  | cons e es ih => simp only [List.cons_append, Guarded, after_cons, ih, and_assoc]

/-- A guard may be weakened. -/
theorem Guarded.imp {ok ok' : σ → ε → Prop} {s : σ} {es : List ε}
    (himp : ∀ s e, ok s e → ok' s e) (h : Guarded step ok s es) : Guarded step ok' s es := by
  induction es generalizing s with
  | nil => trivial
  | cons e es ih => exact ⟨himp s e h.1, ih h.2⟩

/-- Two guards of one run hold together. -/
theorem Guarded.and {ok ok' : σ → ε → Prop} {s : σ} {es : List ε}
    (h : Guarded step ok s es) (h' : Guarded step ok' s es) :
    Guarded step (fun s e => ok s e ∧ ok' s e) s es := by
  induction es generalizing s with
  | nil => trivial
  | cons e es ih => exact ⟨⟨h.1, h'.1⟩, ih h.2 h'.2⟩

/-- Where one guard makes two others the same, the runs they guard are the same. -/
theorem Guarded.congr {q ok ok' : σ → ε → Prop} {s : σ} {es : List ε} (hq : Guarded step q s es)
    (hiff : ∀ s e, q s e → (ok s e ↔ ok' s e)) :
    Guarded step ok s es ↔ Guarded step ok' s es := by
  constructor
  · exact fun h => (hq.and h).imp fun s e hs => (hiff s e hs.1).mp hs.2
  · exact fun h => (hq.and h).imp fun s e hs => (hiff s e hs.1).mpr hs.2

/-- **Invariant rule.** What every guarded step preserves, a guarded run preserves. -/
theorem Guarded.invariant {ok : σ → ε → Prop} {I : σ → Prop} {s : σ} {es : List ε}
    (hstep : ∀ s e, I s → ok s e → I (step s e))
    (hg : Guarded step ok s es) (h : I s) : I (after step s es) := by
  induction es generalizing s with
  | nil => exact h
  | cons e es ih => exact ih hg.2 (hstep s e h hg.1)

/-- **Guarantee rule.** If every guarded step preserves `I` and guarantees `q`, then every
    step of a guarded run guarantees `q`. -/
theorem Guarded.guarantee {ok q : σ → ε → Prop} {I : σ → Prop} {s : σ} {es : List ε}
    (hstep : ∀ s e, I s → ok s e → I (step s e) ∧ q s e)
    (hg : Guarded step ok s es) (h : I s) : Guarded step q s es := by
  induction es generalizing s with
  | nil => trivial
  | cons e es ih =>
    obtain ⟨hI, hq⟩ := hstep s e h hg.1
    exact ⟨hq, ih hg.2 hI⟩

/-- A run of a system that tracks more state is a run of the system it tracks. -/
theorem Guarded.project {τ : Type w} {step' : τ → ε → τ} {f : σ → τ} {q : τ → ε → Prop}
    {s : σ} {es : List ε} (hf : ∀ s e, f (step s e) = step' (f s) e)
    (h : Guarded step (fun s e => q (f s) e) s es) : Guarded step' q (f s) es := by
  induction es generalizing s with
  | nil => trivial
  | cons e es ih => exact ⟨h.1, hf s e ▸ ih h.2⟩

/-- What no step can repair holds before a run if it holds after it. -/
theorem of_after {I J : σ → Prop} {s : σ} {es : List ε} (hkeep : ∀ s e, J s → J (step s e))
    (hback : ∀ s e, J s → I (step s e) → I s) (hJ : J s) (h : I (after step s es)) : I s := by
  induction es generalizing s with
  | nil => exact h
  | cons e es ih => exact hback s e hJ (ih (hkeep s e hJ) h)

/-- **Exact rule.** If the guard is what a step needs to preserve `I`, and no step repairs
    `I`, then the guarded runs are those that end with `I`. -/
theorem guarded_iff_after {ok : σ → ε → Prop} {I J : σ → Prop} {s : σ} {es : List ε}
    (hkeep : ∀ s e, J s → J (step s e)) (hback : ∀ s e, J s → I (step s e) → I s)
    (hstep : ∀ s e, J s → I s → (ok s e ↔ I (step s e))) (hJ : J s) (hI : I s) :
    Guarded step ok s es ↔ I (after step s es) := by
  induction es generalizing s with
  | nil => exact iff_of_true trivial hI
  | cons e es ih =>
    have hJ' := hkeep s e hJ
    constructor
    · intro ⟨hok, hes⟩
      exact (ih hJ' ((hstep s e hJ hI).mp hok)).mp hes
    · intro hafter
      have hI' : I (step s e) := of_after hkeep hback hJ' hafter
      exact ⟨(hstep s e hJ hI).mpr hI', (ih hJ' hI').mpr hafter⟩

/-- **Unless rule.** If every guarded step preserves `I` or is one at which `p`
    holds, then a guarded run preserves `I` or `p` happens in it. -/
theorem Guarded.unless {ok p : σ → ε → Prop} {I : σ → Prop} {s : σ} {es : List ε}
    (hstep : ∀ s e, I s → ok s e → I (step s e) ∨ p s e)
    (hg : Guarded step ok s es) (h : I s) :
    I (after step s es) ∨ Happens step p s es := by
  induction es generalizing s with
  | nil => exact Or.inl h
  | cons e es ih =>
    rcases hstep s e h hg.1 with hinv | hp
    · exact (ih hg.2 hinv).imp id Or.inr
    · exact Or.inr (Or.inl hp)

/-- What happens is one of two things, so one of them happens. -/
theorem Happens.or {p q : σ → ε → Prop} {s : σ} {es : List ε}
    (h : Happens step (fun s e => p s e ∨ q s e) s es) :
    Happens step p s es ∨ Happens step q s es := by
  induction es generalizing s with
  | nil => exact h.elim
  | cons e es ih =>
    rcases h with (hp | hq) | htail
    · exact Or.inl (Or.inl hp)
    · exact Or.inr (Or.inl hq)
    · exact (ih htail).imp Or.inr Or.inr

/-- A condition on neither state nor event comes out of `Happens`. -/
theorem Happens.and_left {c : Prop} {p : σ → ε → Prop} {s : σ} {es : List ε}
    (h : Happens step (fun s e => c ∧ p s e) s es) : c ∧ Happens step p s es := by
  induction es generalizing s with
  | nil => exact h.elim
  | cons e es ih =>
    rcases h with hp | htail
    · exact ⟨hp.1, Or.inl hp.2⟩
    · exact ⟨(ih htail).1, Or.inr (ih htail).2⟩

end Run
