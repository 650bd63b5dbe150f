/-!
# Cutting a list at a separator

Texts and byte strings are cut at separators: at the first one (`splitOnce`), at the last one
(`rsplitOnce`), or off a known prefix (`stripPrefix?`). Each comes with the equation that says
when it cuts and where. Separators that were put in anywhere (`Interspersed`) are filtered out.
-/

universe u

namespace List

variable {α : Type u} [DecidableEq α]

/-- What comes before the first `sep`, and what comes after it. -/
def splitOnce (sep : α) : List α → Option (List α × List α)
  | [] => none
  | x :: xs =>
    if x = sep then some ([], xs)
    else (splitOnce sep xs).map fun p => (x :: p.1, p.2)

/-- What comes before the last `sep`, and what comes after it. -/
def rsplitOnce (sep : α) : List α → Option (List α × List α)
  | [] => none
  | x :: xs =>
    match rsplitOnce sep xs with
    | some (a, b) => some (x :: a, b)
    | none => if x = sep then some ([], xs) else none

/-- What follows the prefix `p`. -/
def stripPrefix? (p xs : List α) : Option (List α) :=
  if p.isPrefixOf xs then some (xs.drop p.length) else none

theorem stripPrefix?_eq_some_iff {p xs ys : List α} :
    stripPrefix? p xs = some ys ↔ xs = p ++ ys := by
  unfold stripPrefix?
  constructor
  · intro h
    split at h
    next hp =>
      obtain ⟨zs, rfl⟩ := isPrefixOf_iff_prefix.mp hp
      rw [drop_left, Option.some.injEq] at h
      rw [h]
    next => cases h
  · rintro rfl
    have hp := isPrefixOf_iff_prefix.mpr (prefix_append p ys)
    rw [if_pos hp, drop_left]

/-- The first separator is where the list is cut. -/
theorem splitOnce_eq_some_iff {sep : α} {xs a b : List α} :
    splitOnce sep xs = some (a, b) ↔ xs = a ++ sep :: b ∧ sep ∉ a := by
  induction xs generalizing a b with
  | nil => simp [splitOnce]
  | cons x xs ih =>
    rw [splitOnce]
    by_cases hx : x = sep
    · rw [if_pos hx, Option.some.injEq, Prod.mk.injEq]
      constructor
      · rintro ⟨rfl, rfl⟩
        exact ⟨by rw [hx, nil_append], not_mem_nil⟩
      · rintro ⟨hxs, ha⟩
        cases a with
        | nil => exact ⟨rfl, (cons.inj hxs).2⟩
        | cons y a => exact absurd (mem_cons.mpr (Or.inl ((cons.inj hxs).1 ▸ hx.symm))) ha
    · rw [if_neg hx, Option.map_eq_some_iff]
      constructor
      · rintro ⟨⟨a', b'⟩, hsplit, heq⟩
        obtain ⟨hxs, ha⟩ := ih.mp hsplit
        obtain ⟨rfl, rfl⟩ := Prod.mk.inj heq
        refine ⟨by rw [hxs, cons_append], ?_⟩
        rw [mem_cons, not_or]
        exact ⟨Ne.symm hx, ha⟩
      · rintro ⟨hxs, ha⟩
        cases a with
        | nil => exact absurd (cons.inj hxs).1 hx
        | cons y a =>
          obtain ⟨rfl, hrest⟩ := cons.inj hxs
          exact ⟨(a, b), ih.mpr ⟨hrest, fun h => ha (mem_cons_of_mem _ h)⟩, rfl⟩

theorem rsplitOnce_eq_none_iff {sep : α} {xs : List α} :
    rsplitOnce sep xs = none ↔ sep ∉ xs := by
  induction xs with
  | nil => simp [rsplitOnce]
  | cons x xs ih =>
    rw [rsplitOnce, mem_cons, not_or]
    cases hsplit : rsplitOnce sep xs with
    | some p =>
      have hmem : sep ∈ xs := by
        rw [← Decidable.not_not (p := sep ∈ xs), ← ih, hsplit]
        simp
      simp [hmem]
    | none =>
      have hmem : sep ∉ xs := ih.mp hsplit
      by_cases hx : x = sep
      · simp [hx]
      · simp [hx, Ne.symm hx, hmem]

/-- The last separator is where the list is cut. -/
theorem rsplitOnce_eq_some_iff {sep : α} {xs a b : List α} :
    rsplitOnce sep xs = some (a, b) ↔ xs = a ++ sep :: b ∧ sep ∉ b := by
  induction xs generalizing a b with
  | nil => simp [rsplitOnce]
  | cons x xs ih =>
    rw [rsplitOnce]
    cases hsplit : rsplitOnce sep xs with
    | some p =>
      obtain ⟨a', b'⟩ := p
      obtain ⟨hxs, hb'⟩ := ih.mp hsplit
      simp only [Option.some.injEq, Prod.mk.injEq]
      constructor
      · rintro ⟨rfl, rfl⟩
        exact ⟨by rw [hxs, cons_append], hb'⟩
      · rintro ⟨heq, hb⟩
        cases a with
        | nil =>
          -- a separator is left in the rest, so it was not the last one
          rw [nil_append, cons.injEq] at heq
          exact absurd (heq.2 ▸ hxs ▸ mem_append_right a' mem_cons_self) hb
        | cons y a =>
          obtain ⟨rfl, hrest⟩ := cons.inj heq
          have hsame := hsplit.symm.trans (ih.mpr ⟨hrest, hb⟩)
          rw [Option.some.injEq, Prod.mk.injEq] at hsame
          exact ⟨by rw [hsame.1], hsame.2⟩
    | none =>
      have hmem := rsplitOnce_eq_none_iff.mp hsplit
      by_cases hx : x = sep
      · simp only [hx, if_true, Option.some.injEq, Prod.mk.injEq]
        constructor
        · rintro ⟨rfl, rfl⟩
          exact ⟨by rw [nil_append], hmem⟩
        · rintro ⟨heq, hb⟩
          cases a with
          | nil => exact ⟨rfl, (cons.inj heq).2⟩
          | cons y a =>
            exact absurd ((cons.inj heq).2 ▸ mem_append_right a mem_cons_self) hmem
      · simp only [hx, if_false]
        constructor
        · rintro ⟨⟩
        · rintro ⟨heq, -⟩
          cases a with
          | nil => exact absurd (cons.inj heq).1 hx
          | cons y a =>
            exact absurd ((cons.inj heq).2 ▸ mem_append_right a mem_cons_self) hmem

/-- The pieces of a list that is cut at every `sep` have none. -/
theorem not_mem_of_mem_splitOn {sep : α} {xs piece : List α} (h : piece ∈ xs.splitOn sep) :
    sep ∉ piece := by
  induction xs generalizing piece with
  | nil =>
    rw [splitOn_nil, mem_singleton] at h
    rw [h]
    exact not_mem_nil
  | cons x xs ih =>
    rw [splitOn_cons_eq_if_modifyHead] at h
    split at h
    next =>
      rcases mem_cons.mp h with rfl | h
      · exact not_mem_nil
      · exact ih h
    next hx =>
      obtain ⟨first, rest, hsplit⟩ := exists_cons_of_ne_nil (splitOn_ne_nil sep xs)
      rw [hsplit, modifyHead_cons] at h
      rw [hsplit] at ih
      rcases mem_cons.mp h with rfl | h
      · rw [mem_cons, not_or]
        exact ⟨fun heq => hx (beq_iff_eq.mpr heq.symm), ih mem_cons_self⟩
      · exact ih (mem_cons_of_mem first h)

/-! ## Separators anywhere -/

/-- `ys` is `xs` with elements of `p` put in. -/
inductive Interspersed (p : α → Bool) : List α → List α → Prop
  | nil : Interspersed p [] []
  | keep (x : α) {xs ys : List α} : Interspersed p xs ys → Interspersed p (x :: xs) (x :: ys)
  | insert {y : α} {xs ys : List α} : p y = true → Interspersed p xs ys →
      Interspersed p xs (y :: ys)

omit [DecidableEq α] in
theorem Interspersed.refl (p : α → Bool) (xs : List α) : Interspersed p xs xs := by
  induction xs with
  | nil => exact .nil
  | cons x xs ih => exact .keep x ih

omit [DecidableEq α] in
/-- What was put in is filtered out. -/
theorem Interspersed.filter {p : α → Bool} {xs ys : List α} (h : Interspersed p xs ys)
    (hxs : ∀ x ∈ xs, p x = false) : ys.filter (fun y => !p y) = xs := by
  induction h with
  | nil => rfl
  | keep x _ ih =>
    have hx : p x = false := hxs x mem_cons_self
    rw [filter_cons_of_pos (by rw [hx]; rfl), ih fun z hz => hxs z (mem_cons_of_mem x hz)]
  | insert hy _ ih => rw [filter_cons_of_neg (by rw [hy]; exact Bool.false_ne_true), ih hxs]

omit [DecidableEq α] in
theorem Interspersed.mem {p : α → Bool} {xs ys : List α} (h : Interspersed p xs ys) {y : α}
    (hy : y ∈ ys) : y ∈ xs ∨ p y = true := by
  induction h with
  | nil => exact Or.inl hy
  | keep x _ ih =>
    rcases mem_cons.mp hy with rfl | hy
    · exact Or.inl mem_cons_self
    · exact (ih hy).imp_left (mem_cons_of_mem x)
  | insert hp _ ih =>
    rcases mem_cons.mp hy with rfl | hy
    · exact Or.inr hp
    · exact ih hy

end List
