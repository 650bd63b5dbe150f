/-!
# Logs in which something has ended

A log lists what happened, newest first. An event may act on a key, and an event may end a
key; `NeverAfter acts ends log` says that nothing acts on a key that was ended before. This
file has the notion and how it grows with the log.
-/

universe u v

variable {ε : Type u} {κ : Type v}

/-- An event of the log has ended `k`. -/
def Ended (ends : ε → κ → Prop) (log : List ε) (k : κ) : Prop :=
  ∃ e ∈ log, ends e k

/-- No event of the log acts on a key that an older event ended. -/
def NeverAfter (acts ends : ε → κ → Prop) (log : List ε) : Prop :=
  log.Pairwise fun new old => ∀ k, acts new k → ¬ ends old k

variable {acts ends : ε → κ → Prop} {log es : List ε}

instance decidableEnded [∀ e k, Decidable (ends e k)] (k : κ) : Decidable (Ended ends log k) :=
  inferInstanceAs (Decidable (∃ e ∈ log, ends e k))

theorem not_ended_nil (k : κ) : ¬ Ended ends [] k := by
  rintro ⟨e, he, -⟩
  cases he

theorem ended_cons_iff {e : ε} {k : κ} :
    Ended ends (e :: log) k ↔ ends e k ∨ Ended ends log k := by
  simp [Ended]

/-- What has ended stays ended. -/
theorem Ended.append {k : κ} (h : Ended ends log k) (es : List ε) : Ended ends (es ++ log) k := by
  obtain ⟨e, he, hk⟩ := h
  exact ⟨e, List.mem_append_right _ he, hk⟩

/-- Events that end nothing leave what has ended alone. -/
theorem ended_append_iff (hes : ∀ e ∈ es, ∀ k, ¬ ends e k) {k : κ} :
    Ended ends (es ++ log) k ↔ Ended ends log k := by
  constructor
  · rintro ⟨e, he, hk⟩
    rcases List.mem_append.mp he with hnew | hold
    · exact absurd hk (hes e hnew k)
    · exact ⟨e, hold, hk⟩
  · exact fun h => h.append es

namespace NeverAfter

theorem nil : NeverAfter acts ends ([] : List ε) := List.Pairwise.nil

/-- An event that acts only on what has not ended. -/
theorem cons {e : ε} (h : NeverAfter acts ends log) (he : ∀ k, acts e k → ¬ Ended ends log k) :
    NeverAfter acts ends (e :: log) := by
  apply List.Pairwise.cons _ h
  intro old hold k hacts hends
  exact he k hacts ⟨old, hold, hends⟩

/-- Events that act on nothing. -/
theorem append_inert (h : NeverAfter acts ends log) (hes : ∀ e ∈ es, ∀ k, ¬ acts e k) :
    NeverAfter acts ends (es ++ log) := by
  induction es with
  | nil => exact h
  | cons e es ih =>
    apply (ih fun e' he' => hes e' (List.mem_cons_of_mem _ he')).cons
    intro k hacts
    exact absurd hacts (hes e List.mem_cons_self k)

end NeverAfter
