import Mathlib.Order.Lattice

/-!
# Leases in order of rank

A holder keeps a place by a series of leases, each with a rank and an end, and the lease of least
rank that is in force names who has the place. Rivals have leases too. This file has what it
takes for the holder to stay named while its leases follow one another, also when a later one
has a greater rank: `First` is the lease that ends next, `TakesOver` is the condition on a
lease against a rival, and `exists_rank_lt` is the rule.
-/

universe u v w

namespace Lease

variable {ρ : Type u} {α : Type v} {τ : Type w} [LinearOrder α] [LinearOrder τ]
variable (rank : ρ → α) (ends : ρ → τ)

/-- Of the leases in force at `t`, one that ends first. -/
structure First (t : τ) (mine : List ρ) (r : ρ) : Prop where
  mem : r ∈ mine
  inForce : t < ends r
  first : ∀ s ∈ mine, t < ends s → ends r ≤ ends s

/-- The lease precedes the rival's, or comes after one that does and outlasts the rival's. -/
def TakesOver (mine : List ρ) (r rival : ρ) : Prop :=
  rank r < rank rival ∨
    ∃ s ∈ mine, rank s < rank rival ∧ ends rival ≤ ends s ∧ ends s ≤ ends r

variable {rank ends} {t : τ} {mine : List ρ} {r rival : ρ}

theorem exists_first (h : ∃ r ∈ mine, t < ends r) : ∃ r, First ends t mine r := by
  induction mine with
  | nil =>
    obtain ⟨r, hr, -⟩ := h
    cases hr
  | cons x mine ih =>
    by_cases hrest : ∃ r ∈ mine, t < ends r
    · obtain ⟨r, hmem, hforce, hfirst⟩ := ih hrest
      by_cases hx : t < ends x ∧ ends x ≤ ends r
      · refine ⟨x, List.mem_cons_self, hx.1, ?_⟩
        intro s hs hsforce
        rcases List.mem_cons.mp hs with rfl | hs
        · exact le_refl _
        · exact hx.2.trans (hfirst s hs hsforce)
      · refine ⟨r, List.mem_cons_of_mem _ hmem, hforce, ?_⟩
        intro s hs hsforce
        rcases List.mem_cons.mp hs with rfl | hs
        · exact le_of_not_ge fun hle => hx ⟨hsforce, hle⟩
        · exact hfirst s hs hsforce
    · -- only the head is in force
      obtain ⟨r, hr, hforce⟩ := h
      have hhead : ∀ s ∈ x :: mine, t < ends s → s = x := by
        intro s hs hsforce
        rcases List.mem_cons.mp hs with rfl | hs
        · rfl
        · exact absurd ⟨s, hs, hsforce⟩ hrest
      refine ⟨r, hr, hforce, fun s hs hsforce => ?_⟩
      rw [hhead r hr hforce, hhead s hs hsforce]

/-- **Rule.** A view that holds the leases that end first holds one that precedes the rival's. -/
theorem exists_rank_lt {view : List ρ} (hview : ∀ r, First ends t mine r → r ∈ view)
    (hforce : ∃ r ∈ mine, t < ends r) (hrival : t < ends rival)
    (h : ∀ r ∈ mine, t < ends r → TakesOver rank ends mine r rival) :
    ∃ r ∈ view, r ∈ mine ∧ t < ends r ∧ rank r < rank rival := by
  obtain ⟨r, hr⟩ := exists_first hforce
  rcases h r hr.mem hr.inForce with hlt | ⟨s, hs, hlt, hoverlap, hbefore⟩
  · exact ⟨r, hview r hr, hr.mem, hr.inForce, hlt⟩
  · -- the lease it takes over from ends no later, so it is one that ends first as well
    have hsforce := hrival.trans_le hoverlap
    have hsfirst : First ends t mine s :=
      ⟨hs, hsforce, fun u hu huforce => hbefore.trans (hr.first u hu huforce)⟩
    exact ⟨s, hview s hsfirst, hs, hsforce, hlt⟩

theorem TakesOver.mono {mine' : List ρ} (hsub : ∀ s ∈ mine, s ∈ mine')
    (h : TakesOver rank ends mine r rival) : TakesOver rank ends mine' r rival := by
  rcases h with hlt | ⟨s, hs, hrest⟩
  · exact Or.inl hlt
  · exact Or.inr ⟨s, hsub s hs, hrest⟩

end Lease
