import Mathlib.Data.List.Forall2

/-!
# Lists

Logs and queues grow at the end: what a list keeps when one element is appended. Then folds that may
fail, facts about maps (over lists that are pairwise related, after a filter, and with gaps), what
the first elements of a permutation can be, and what the last one can be when elements are mixed in.
-/

universe u

variable {α : Type u}

/-- A new element at the end leaves the elements different. -/
theorem nodup_append_singleton {l : List α} {a : α} (hl : l.Nodup) (ha : a ∉ l) :
    (l ++ [a]).Nodup := by
  rw [List.nodup_append]
  refine ⟨hl, List.nodup_cons.mpr ⟨List.not_mem_nil, List.nodup_nil⟩, ?_⟩
  intro x hx y hy hxy
  rw [List.mem_singleton] at hy
  rw [hxy, hy] at hx
  exact ha hx

/-- What holds of every element, and of the new one, holds of all. -/
theorem forall_mem_append_singleton {P : α → Prop} {l : List α} {a : α}
    (hl : ∀ x ∈ l, P x) (ha : P a) : ∀ x ∈ l ++ [a], P x := by
  intro x hx
  rcases List.mem_append.mp hx with hold | hlast
  · exact hl x hold
  · rw [List.mem_singleton.mp hlast]
    exact ha

/-- What each step of a fold that may fail preserves, the fold preserves. -/
theorem List.foldlM_option_invariant {σ β : Type*} {P : σ → Prop} {f : σ → β → Option σ} {l : List β}
    {s s' : σ} (hfold : l.foldlM f s = some s') (hs : P s)
    (hstep : ∀ s b s', b ∈ l → P s → f s b = some s' → P s') : P s' := by
  induction l generalizing s with
  | nil =>
    cases hfold
    exact hs
  | cons b l ih =>
    rw [List.foldlM_cons] at hfold
    obtain ⟨next, hnext, hfold⟩ := Option.bind_eq_some_iff.mp hfold
    exact ih hfold (hstep s b next mem_cons_self hs hnext)
      (fun s b s' hb => hstep s b s' (mem_cons_of_mem _ hb))

/-- Where each step of such a fold puts one element out, the elements put out match the list. -/
theorem List.foldlM_option_forall₂ {σ β γ : Type*} {f : σ → β → Option σ} (out : σ → List γ)
    (R : β → γ → Prop) {l : List β} {s s' : σ} (hfold : l.foldlM f s = some s')
    (hstep : ∀ s b s', f s b = some s' → ∃ c, out s' = out s ++ [c] ∧ R b c) :
    ∃ cs, out s' = out s ++ cs ∧ List.Forall₂ R l cs := by
  induction l generalizing s with
  | nil =>
    cases hfold
    exact ⟨[], (List.append_nil _).symm, .nil⟩
  | cons b l ih =>
    rw [List.foldlM_cons] at hfold
    obtain ⟨next, hnext, hfold⟩ := Option.bind_eq_some_iff.mp hfold
    obtain ⟨c, hc, hrel⟩ := hstep s b next hnext
    obtain ⟨cs, hcs, hrels⟩ := ih hfold
    refine ⟨c :: cs, ?_, .cons hrel hrels⟩
    rw [hcs, hc, List.append_assoc, List.singleton_append]

/-- What holds of every element of the second list may be added to the relation. -/
theorem List.Forall₂.and_right {β : Type*} {R : α → β → Prop} {Q : β → Prop} {l : List α}
    {l' : List β} (h : List.Forall₂ R l l') (hq : ∀ b ∈ l', Q b) :
    List.Forall₂ (fun a b => R a b ∧ Q b) l l' := by
  induction h with
  | nil => exact .nil
  | cons hab _ ih =>
    rw [List.forall_mem_cons] at hq
    exact .cons ⟨hab, hq.1⟩ (ih hq.2)

/-- Lists that are pairwise as `R` allows are one under a map that does not tell apart what `R`
    relates. -/
theorem List.Forall₂.map_eq {β : Type*} {R : α → α → Prop} {f : α → β} {l l' : List α}
    (h : List.Forall₂ R l l') (hf : ∀ a b, R a b → f a = f b) : l.map f = l'.map f := by
  induction h with
  | nil => rfl
  | cons hab _ ih => rw [List.map_cons, List.map_cons, hf _ _ hab, ih]

/-- A filter and a map after a filter and a map that the second filter does not see are one filter
    and one map. -/
theorem List.map_filter_map_filter {p q : α → Bool} {f g : α → α} (h : ∀ x, p (g x) = p x)
    (l : List α) :
    (((l.filter q).map g).filter p).map f = (l.filter fun x => p x && q x).map fun x => f (g x) := by
  rw [List.filter_map, List.map_map, List.filter_filter]
  congr 1
  apply List.filter_congr
  intro x _
  simp [h]

/-- What is put out for some of the elements, each with its element, comes in their order. -/
theorem List.map_fst_filterMap_sublist {β γ : Type*} (f : α × β → Option γ) (l : List (α × β)) :
    ((l.filterMap fun x => (f x).map (x.1, ·)).map Prod.fst).Sublist (l.map Prod.fst) := by
  induction l with
  | nil => exact List.Sublist.slnil
  | cons x l ih =>
    cases hf : f x with
    | none => simpa [hf] using ih.cons x.1
    | some c => simpa [hf] using ih.cons_cons x.1

/-! ## The first page of a permutation -/

/-- The elements with `p` come last. -/
def List.putLast (p : α → Bool) (l : List α) : List α :=
  l.filter (fun a => !p a) ++ l.filter p

theorem List.putLast_perm (p : α → Bool) (l : List α) : (l.putLast p).Perm l :=
  (List.perm_append_comm).trans (List.filter_append_perm p l)

/-- With fewer than `n` elements without `p`, the first `n` of every permutation have one with
    it. -/
theorem List.exists_mem_take_of_perm {p : α → Bool} {l l' : List α} {n : Nat}
    (hperm : l'.Perm l) (hex : ∃ a ∈ l, p a = true)
    (hfew : (l.filter fun a => !p a).length < n) : ∃ a ∈ l'.take n, p a = true := by
  by_contra hnone
  have hall : ∀ a ∈ l'.take n, (!p a) = true := by
    intro a ha
    by_contra hp
    exact hnone ⟨a, ha, by simpa using hp⟩
  -- all of the first `n` are without `p`, so there are fewer than `n` at all
  have hlen : (l'.take n).length ≤ (l.filter fun a => !p a).length := by
    rw [← (hperm.filter _).length_eq, ← List.filter_eq_self.mpr hall]
    exact ((List.take_sublist n l').filter _).length_le
  have hwhole : l'.take n = l' := by
    apply List.take_of_length_le
    rw [List.length_take] at hlen
    omega
  obtain ⟨a, ha, hp⟩ := hex
  have hmem : a ∈ l'.take n := by
    rw [hwhole]
    exact hperm.mem_iff.mpr ha
  exact hnone ⟨a, hmem, hp⟩

/-- With `n` elements without `p`, or none with it, the first `n` can all be without it. -/
theorem List.forall_mem_take_putLast {p : α → Bool} {l : List α} {n : Nat}
    (h : (∀ a ∈ l, p a = false) ∨ n ≤ (l.filter fun a => !p a).length) :
    ∀ a ∈ (l.putLast p).take n, p a = false := by
  intro a ha
  rcases h with hnone | hmany
  · exact hnone a ((l.putLast_perm p).mem_iff.mp (List.mem_of_mem_take ha))
  · rw [List.putLast, List.take_append_of_le_length hmany] at ha
    simpa using (List.mem_filter.mp (List.mem_of_mem_take ha)).2

/-- Put last, an element of the list ends it. -/
theorem List.exists_putLast_eq [DecidableEq α] {a : α} {l : List α} (h : a ∈ l) :
    ∃ pre, l.putLast (fun b => decide (b = a)) = pre ++ [a] := by
  rcases List.eq_nil_or_concat (l.filter fun b => decide (b = a)) with hnil | ⟨pre, b, hconcat⟩
  · have hmem : a ∈ l.filter fun b => decide (b = a) := by simpa using h
    rw [hnil] at hmem
    cases hmem
  · rw [List.concat_eq_append] at hconcat
    have hmem : b ∈ l.filter fun b => decide (b = a) := by
      rw [hconcat]
      exact List.mem_append_right _ (List.mem_singleton_self b)
    have hb : b = a := by simpa using (List.mem_filter.mp hmem).2
    exact ⟨l.filter (fun b => !decide (b = a)) ++ pre, by
      rw [List.putLast, hconcat, hb, List.append_assoc]⟩

/-! ## Elements mixed in -/

/-- With elements mixed into a list, the last one is one of them, or the last one as before. -/
theorem List.getLast?_of_sublist_perm {l l' added : List α} (hsub : l.Sublist l')
    (hperm : l'.Perm (l ++ added)) :
    l'.getLast? = l.getLast? ∨ ∃ a ∈ added, l'.getLast? = some a := by
  rcases List.eq_nil_or_concat l' with hnil | ⟨front, a, hconcat⟩
  · rw [hnil] at hsub
    rw [hnil, List.sublist_nil.mp hsub]
    exact Or.inl rfl
  · rw [List.concat_eq_append] at hconcat
    rw [hconcat] at hsub hperm
    rw [hconcat, List.getLast?_concat]
    obtain ⟨l₁, l₂, rfl, hfront, hlast⟩ := List.sublist_append_iff.mp hsub
    rcases List.sublist_singleton.mp hlast with hl₂ | hl₂
    · -- the whole list is before `a`, so `a` was mixed in
      rw [hl₂, List.append_nil] at hperm ⊢
      obtain ⟨rest, hrest⟩ := hfront.exists_perm_append
      have hadded : (rest ++ [a]).Perm added := by
        apply (List.perm_append_left_iff l₁).mp
        rw [← List.append_assoc]
        exact (hrest.symm.append_right [a]).trans hperm
      exact Or.inr ⟨a, hadded.mem_iff.mp (List.mem_append_right _ (List.mem_singleton_self a)), rfl⟩
    · rw [hl₂, List.getLast?_concat]
      exact Or.inl rfl

/-! ## Lists that grow at their end -/

/-- The second list is the first one, with nothing behind it but what is like that. -/
def List.GrownBy (R : α → Prop) (l l' : List α) : Prop :=
  ∃ added, l' = l ++ added ∧ ∀ a ∈ added, R a

namespace List.GrownBy

variable {R : α → Prop} {l l' l'' : List α}

protected theorem refl (R : α → Prop) (l : List α) : GrownBy R l l :=
  ⟨[], (List.append_nil l).symm, fun _ h => absurd h List.not_mem_nil⟩

protected theorem trans (h : GrownBy R l l') (h' : GrownBy R l' l'') : GrownBy R l l'' := by
  obtain ⟨added, rfl, hadded⟩ := h
  obtain ⟨added', rfl, hadded'⟩ := h'
  refine ⟨added ++ added', List.append_assoc _ _ _, fun a ha => ?_⟩
  exact (List.mem_append.mp ha).elim (hadded a) (hadded' a)

theorem concat {a : α} (l : List α) (ha : R a) : GrownBy R l (l ++ [a]) :=
  ⟨[a], rfl, fun _ h => List.mem_singleton.mp h ▸ ha⟩

end List.GrownBy
