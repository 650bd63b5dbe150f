import CirisServer.ForStd.Interleave

/-!
# Requests that leave nothing behind

A request that fails should leave the shared state as it found it, as far as its own steps go; other
requests may have changed it meanwhile. `System.tracked` is the system in which every task keeps
whether a step of its own has changed the shared state, and `Clean` says that no failed task has.
`AllOrNothing.guarded_iff_clean` is the rule: where failing steps write nothing, the runs that stay
clean are those in which a task that has changed something never takes a failing step.
-/

universe u v w x

namespace Interleave

variable {σ : Type u} {π : Type v} {α : Type w} {ε : Type x} [DecidableEq σ]

/-- The system in which every task keeps whether it has changed the shared state. -/
def System.tracked (S : System σ π α ε) : System σ (π × Bool) α ε where
  spawn a s := ((S.spawn a s).1, (S.spawn a s).2, decide ((S.spawn a s).1 ≠ s))
  advance e t s :=
    ((S.advance e t.1 s).1, (S.advance e t.1 s).2, t.2 || decide ((S.advance e t.1 s).1 ≠ s))

/-- The run without what the tasks keep. -/
def Config.untracked (c : Config σ (π × Bool)) : Config σ π := ⟨c.shared, c.tasks.map Prod.fst⟩

/-- Tracking does not touch the run. -/
theorem System.untracked_step (S : System σ π α ε) (c : Config σ (π × Bool)) (m : Move α ε) :
    (S.tracked.step c m).untracked = S.step c.untracked m := by
  cases m with
  | arrive a =>
    rw [step_arrive, step_arrive, Config.untracked, List.map_append]
    rfl
  | advance i e =>
    have htask : c.untracked.tasks[i]? = c.tasks[i]?.map Prod.fst := List.getElem?_map
    cases ht : c.tasks[i]? with
    | none =>
      rw [ht] at htask
      rw [step_advance_none _ _ ht, step_advance_none _ _ htask]
    | some t =>
      rw [ht] at htask
      rw [step_advance_some _ _ ht, step_advance_some _ _ htask, Config.untracked, List.map_set]
      rfl

/-- No failed task has changed the shared state. -/
def Clean (failed : π → Prop) (c : Config σ (π × Bool)) : Prop :=
  ∀ t ∈ c.tasks, failed t.1 → t.2 = false

instance decidableClean (failed : π → Prop) [DecidablePred failed] (c : Config σ (π × Bool)) :
    Decidable (Clean failed c) :=
  inferInstanceAs (Decidable (∀ t ∈ c.tasks, failed t.1 → t.2 = false))

/-- A task that has changed something takes only steps that go on. -/
def GoesOn (goesOn : ε → π → σ → Prop) (c : Config σ (π × Bool)) : Move α ε → Prop
  | .arrive _ => True
  | .advance i e => ∀ t ∈ c.tasks[i]?, t.2 = true → goesOn e t.1 c.shared

/-- What is asked of a system: a task that has failed is over, and a failing step writes nothing; a
    task is `late` once it may have written, and then fails exactly by a step that does not go on. -/
structure AllOrNothing (S : System σ π α ε) (failed late : π → Prop)
    (goesOn : ε → π → σ → Prop) : Prop where
  spawn : ∀ a s, (S.spawn a s).1 = s ∧ ¬ failed (S.spawn a s).2
  ended : ∀ e t s, failed t → S.advance e t s = (s, t)
  quiet : ∀ e t s, failed (S.advance e t s).2 → (S.advance e t s).1 = s
  stays_late : ∀ e t s, (S.advance e t s).1 ≠ s ∨ late t → late (S.advance e t s).2
  fails_iff : ∀ e t s, late t → ¬ failed t → (¬ failed (S.advance e t s).2 ↔ goesOn e t s)

namespace AllOrNothing

variable {S : System σ π α ε} {failed late : π → Prop} {goesOn : ε → π → σ → Prop}
variable {c : Config σ (π × Bool)}

/-- What a task has kept is what its step changes. -/
theorem late_step (h : AllOrNothing S failed late goesOn) (m : Move α ε)
    (hlate : ∀ t ∈ c.tasks, t.2 = true → late t.1) :
    ∀ t ∈ (S.tracked.step c m).tasks, t.2 = true → late t.1 := by
  have hadvance : ∀ e t, t ∈ c.tasks → (S.tracked.advance e t c.shared).2.2 = true →
      late (S.tracked.advance e t c.shared).2.1 := by
    intro e t ht hchanged
    apply h.stays_late
    rcases Bool.or_eq_true_iff.mp hchanged with hold | hnew
    · exact Or.inr (hlate t ht hold)
    · exact Or.inl (of_decide_eq_true hnew)
  have hstep := S.tracked.step_preserves (J := fun _ => True)
    (P := fun _ t => t.2 = true → late t.1) (c := c) (m := m) trivial hlate
    (fun a _ => ⟨trivial, fun hchanged => absurd (h.spawn a c.shared).1 (of_decide_eq_true hchanged),
      hlate⟩)
    (fun i e t _ ht => ⟨trivial, hadvance e t (List.mem_of_getElem? ht), hlate⟩)
  exact hstep.2

/-- A task that has failed unclean stays so. -/
theorem clean_of_step (h : AllOrNothing S failed late goesOn) (m : Move α ε)
    (hclean : Clean failed (S.tracked.step c m)) : Clean failed c := by
  intro t ht hfailed
  have hover : ∀ e s, (S.tracked.advance e t s).2 = t := by
    intro e s
    show ((S.advance e t.1 s).2, t.2 || decide ((S.advance e t.1 s).1 ≠ s)) = t
    rw [h.ended e t.1 s hfailed]
    simp
  exact hclean t (S.tracked.step_mem_of_fixed hover ht) hfailed

/-- A step of a task that has changed something goes on exactly if it leaves the task clean. -/
theorem advance_clean_iff (h : AllOrNothing S failed late goesOn) {e : ε} {t : π × Bool} {s : σ}
    (hlate : t.2 = true → late t.1) (hclean : failed t.1 → t.2 = false) :
    (t.2 = true → goesOn e t.1 s) ↔
      (failed (S.tracked.advance e t s).2.1 → (S.tracked.advance e t s).2.2 = false) := by
  cases hchanged : t.2 with
  | false =>
    refine iff_of_true nofun fun hfailed => ?_
    -- a failing step writes nothing
    show (t.2 || decide _) = false
    rw [hchanged, Bool.false_or, decide_eq_false_iff_not]
    exact fun hne => hne (h.quiet e t.1 s hfailed)
  | true =>
    have halive : ¬ failed t.1 := fun hfailed => by
      rw [hclean hfailed] at hchanged
      cases hchanged
    have hkept : (S.tracked.advance e t s).2.2 = true := by
      show (t.2 || _) = true
      rw [hchanged, Bool.true_or]
    rw [imp_iff_right rfl, ← h.fails_iff e t.1 s (hlate hchanged) halive, hkept]
    exact ⟨fun hgoes hfailed => absurd hfailed hgoes, fun himp hfailed => nomatch himp hfailed⟩

/-- **Step.** -/
theorem goesOn_iff_clean (h : AllOrNothing S failed late goesOn) (m : Move α ε)
    (hlate : ∀ t ∈ c.tasks, t.2 = true → late t.1) (hclean : Clean failed c) :
    GoesOn goesOn c m ↔ Clean failed (S.tracked.step c m) := by
  cases m with
  | arrive a =>
    refine iff_of_true trivial fun t ht => ?_
    rcases List.mem_append.mp ht with hold | hnew
    · exact hclean t hold
    · rw [List.mem_singleton.mp hnew]
      exact fun hfailed => absurd hfailed (h.spawn a c.shared).2
  | advance i e =>
    cases ht : c.tasks[i]? with
    | none =>
      rw [S.tracked.step_advance_none e ht]
      refine iff_of_true (fun t hmem => ?_) hclean
      rw [ht] at hmem
      cases hmem
    | some t =>
      have hmem := List.mem_of_getElem? ht
      have hi := (List.getElem?_eq_some_iff.mp ht).1
      have hiff := h.advance_clean_iff (e := e) (s := c.shared) (hlate t hmem) (hclean t hmem)
      rw [S.tracked.step_advance_some e ht]
      constructor
      · intro hgoes u hu
        rcases List.mem_or_eq_of_mem_set hu with hu | rfl
        · exact hclean u hu
        · exact hiff.mp (hgoes t ht)
      · intro hstep u hu
        obtain rfl := Option.some.inj (ht.symm.trans hu)
        exact hiff.mpr (hstep _ (List.mem_set hi _))

/-- **Run rule.** The runs that stay clean are those in which a task that has changed something takes
    only steps that go on. -/
theorem guarded_iff_clean (h : AllOrNothing S failed late goesOn) (s : σ)
    (moves : List (Move α ε)) :
    Run.Guarded S.tracked.step (GoesOn goesOn) ⟨s, []⟩ moves ↔
      Clean failed (Run.after S.tracked.step ⟨s, []⟩ moves) :=
  Run.guarded_iff_after (J := fun c => ∀ t ∈ c.tasks, t.2 = true → late t.1)
    (fun _ m hlate => h.late_step m hlate) (fun _ m _ hclean => h.clean_of_step m hclean)
    (fun _ m hlate hclean => h.goesOn_iff_clean m hlate hclean)
    (fun _ ht => nomatch ht) (fun _ ht => nomatch ht)

end AllOrNothing

end Interleave
