import Mathlib.Data.List.Basic

/-!
# First occurrences

Where one list occurs in another for the first time. An occurrence that lies within a beginning of
the list is found there; where the first element of the needle does not come back in it, nothing
straddles the place where the needle was put (`FirstAt.of_append`).
-/

universe u

namespace List

variable {α : Type u}

/-- `needle` occurs in `hay` at `i`. -/
def StartsAt (needle hay : List α) (i : Nat) : Prop := needle <+: hay.drop i

/-- `needle` occurs in `hay` at `i`, and not before. -/
structure FirstAt (needle hay : List α) (i : Nat) : Prop where
  starts : StartsAt needle hay i
  clean : ∀ j < i, ¬ StartsAt needle hay j

theorem StartsAt.length_le {needle hay : List α} {i : Nat} (h : StartsAt needle hay i)
    (hne : needle ≠ []) : i + needle.length ≤ hay.length := by
  have hle := IsPrefix.length_le h
  have hpos := length_pos_of_ne_nil hne
  rw [length_drop] at hle
  omega

theorem startsAt_drop {needle hay : List α} {k i : Nat} :
    StartsAt needle (hay.drop k) i ↔ StartsAt needle hay (k + i) := by
  rw [StartsAt, StartsAt, drop_drop]

theorem StartsAt.append {needle hay : List α} {i : Nat} (h : StartsAt needle hay i)
    (more : List α) : StartsAt needle (hay ++ more) i := by
  rw [StartsAt, drop_append]
  exact h.trans (prefix_append _ _)

/-- What lies within a beginning is seen there. -/
theorem startsAt_append_iff {needle hay more : List α} {i : Nat}
    (h : i + needle.length ≤ hay.length) :
    StartsAt needle (hay ++ more) i ↔ StartsAt needle hay i := by
  constructor
  · intro hstarts
    rw [StartsAt, drop_append_of_le_length (by omega)] at hstarts
    apply prefix_of_prefix_length_le hstarts (prefix_append _ _)
    rw [length_drop]
    omega
  · exact fun hstarts => hstarts.append more

theorem StartsAt.isInfix {needle hay : List α} {i : Nat} (h : StartsAt needle hay i) :
    needle <:+: hay :=
  (IsPrefix.isInfix h).trans (drop_suffix i hay).isInfix

/-- An occurrence skips what the needle's first element is not in. -/
theorem StartsAt.skip {c : α} {rest before after : List α} {i : Nat} (hc : c ∉ before)
    (h : StartsAt (c :: rest) (before ++ after) i) :
    before.length ≤ i ∧ StartsAt (c :: rest) after (i - before.length) := by
  have hle : before.length ≤ i := by
    by_contra hlt
    obtain ⟨tail, htail⟩ := h
    have hhead : (before ++ after)[i]? = some c := by
      rw [← Nat.add_zero i, ← getElem?_drop, ← htail]
      rfl
    rw [getElem?_append_left (by omega)] at hhead
    exact hc (mem_of_getElem? hhead)
  refine ⟨hle, ?_⟩
  rw [← Nat.add_sub_cancel' hle, ← startsAt_drop, drop_left] at h
  exact h

theorem FirstAt.unique {needle hay : List α} {i j : Nat} (hi : FirstAt needle hay i)
    (hj : FirstAt needle hay j) : i = j := by
  rcases Nat.lt_trichotomy i j with hlt | heq | hgt
  · exact absurd hi.starts (hj.clean i hlt)
  · exact heq
  · exact absurd hj.starts (hi.clean j hgt)

/-- More at the end does not matter. -/
theorem FirstAt.append {needle hay : List α} {i : Nat} (h : FirstAt needle hay i)
    (hne : needle ≠ []) (more : List α) : FirstAt needle (hay ++ more) i := by
  refine ⟨h.starts.append more, ?_⟩
  intro j hj hstarts
  have hle := h.starts.length_le hne
  exact h.clean j hj ((startsAt_append_iff (by omega)).mp hstarts)

theorem FirstAt.drop {needle hay : List α} {i k : Nat} (h : FirstAt needle hay i) (hk : k ≤ i) :
    FirstAt needle (hay.drop k) (i - k) := by
  constructor
  · rw [startsAt_drop, Nat.add_sub_cancel' hk]
    exact h.starts
  · intro j hj
    rw [startsAt_drop]
    exact h.clean (k + j) (by omega)

/-- Where no occurrence starts in the first `k` elements, those of the rest are all there are. -/
theorem not_startsAt_of_drop {needle hay : List α} {k i : Nat}
    (hclean : ∀ j < k, ¬ StartsAt needle hay j)
    (h : ∀ j, k + j = i → ¬ StartsAt needle (hay.drop k) j) : ¬ StartsAt needle hay i := by
  intro hstarts
  rcases Nat.lt_or_ge i k with hlt | hge
  · exact hclean i hlt hstarts
  · apply h (i - k) (Nat.add_sub_cancel' hge)
    rw [startsAt_drop, Nat.add_sub_cancel' hge]
    exact hstarts

theorem FirstAt.of_drop {needle hay : List α} {k i : Nat}
    (hclean : ∀ j < k, ¬ StartsAt needle hay j) (h : FirstAt needle (hay.drop k) i) :
    FirstAt needle hay (k + i) := by
  constructor
  · rw [← startsAt_drop]
    exact h.starts
  · intro j hj
    apply not_startsAt_of_drop hclean
    intro j' hj'
    exact h.clean j' (by omega)

/-- What comes before the needle, the needle and the rest. -/
theorem FirstAt.split {needle hay : List α} {i : Nat} (h : FirstAt needle hay i) :
    hay = hay.take i ++ needle ++ hay.drop (i + needle.length) := by
  obtain ⟨rest, hrest⟩ := h.starts
  have hdrop : hay.drop (i + needle.length) = rest := by
    rw [← drop_drop, ← hrest, drop_left]
  rw [hdrop, append_assoc, hrest, take_append_drop]

/-- **Put there.** Where the first element of the needle does not come back in it, an occurrence
    does not straddle the place where the needle was put. -/
theorem FirstAt.of_append {c : α} {rest before : List α} (hc : c ∉ rest)
    (hbefore : ¬ (c :: rest) <:+: before) (after : List α) :
    FirstAt (c :: rest) (before ++ (c :: rest) ++ after) before.length := by
  constructor
  · rw [StartsAt, append_assoc, drop_left]
    exact prefix_append _ _
  · intro j hj hstarts
    rcases Nat.lt_or_ge before.length (j + (c :: rest).length) with hover | hin
    · -- the `c` that was put there is one of `rest`
      obtain ⟨tail, htail⟩ := hstarts
      have hput : (before ++ (c :: rest) ++ after)[before.length]? = some c := by
        rw [append_assoc, getElem?_append_right (Nat.le_refl _), Nat.sub_self]
        rfl
      have hplace : before.length = j + (before.length - j - 1 + 1) := by omega
      rw [length_cons] at hover
      rw [hplace, ← getElem?_drop, ← htail, cons_append, getElem?_cons_succ,
        getElem?_append_left (by omega)] at hput
      exact hc (mem_of_getElem? hput)
    · rw [append_assoc] at hstarts
      exact hbefore ((startsAt_append_iff hin).mp hstarts).isInfix

/-- What follows does not matter to a needle that does not occur in it, or reach into it. -/
theorem isInfix_append_iff {needle hay more : List α} (hmore : ¬ needle <:+: more)
    (hreach : ∀ k < needle.length, 0 < k → ¬ needle.drop k <+: more) :
    needle <:+: hay ++ more ↔ needle <:+: hay := by
  constructor
  · rintro ⟨before, after, heq⟩
    rw [append_assoc] at heq
    rcases append_eq_append_iff.mp heq with ⟨rest, rfl, hneedle⟩ | ⟨rest, rfl, hneedle⟩
    · -- the needle begins within `hay`
      rcases append_eq_append_iff.mp hneedle with ⟨rest', rfl, hafter⟩ | ⟨rest', rfl, hmore'⟩
      · exact ⟨before, rest', (append_assoc _ _ _)⟩
      · by_cases hrest : rest = []
        · subst hrest
          exact absurd ⟨[], after, by simpa using hmore'.symm⟩ hmore
        · by_cases hrest' : rest' = []
          · subst hrest'
            exact ⟨before, [], by simp⟩
          · have hpos := length_pos_of_ne_nil hrest
            have hpos' := length_pos_of_ne_nil hrest'
            refine absurd ⟨after, ?_⟩ (hreach rest.length (by rw [length_append]; omega) hpos)
            rw [drop_left]
            exact hmore'.symm
    · exact absurd ⟨rest, after, by rw [append_assoc]; exact hneedle.symm⟩ hmore
  · exact fun h => h.trans (prefix_append hay more).isInfix

section Decidable

variable [DecidableEq α]

/-- The first occurrence of `needle`, if there is one. -/
def firstOccurrence (needle : List α) : List α → Option Nat
  | [] => none
  | x :: xs => if needle <+: x :: xs then some 0 else (firstOccurrence needle xs).map (· + 1)

theorem firstOccurrence_eq_some_iff {needle hay : List α} (hne : needle ≠ []) {i : Nat} :
    firstOccurrence needle hay = some i ↔ FirstAt needle hay i := by
  induction hay generalizing i with
  | nil =>
    constructor
    · intro h
      cases h
    · intro h
      have hle := h.starts.length_le hne
      have hpos := length_pos_of_ne_nil hne
      rw [length_nil] at hle
      omega
  | cons x xs ih =>
    rw [firstOccurrence]
    by_cases hx : needle <+: x :: xs
    · have hzero : FirstAt needle (x :: xs) 0 := ⟨hx, fun j hj => absurd hj (Nat.not_lt_zero j)⟩
      rw [if_pos hx, Option.some.injEq]
      exact ⟨fun h => h ▸ hzero, fun h => hzero.unique h⟩
    · rw [if_neg hx, Option.map_eq_some_iff]
      constructor
      · rintro ⟨k, hk, rfl⟩
        have hfirst := ih.mp hk
        refine ⟨hfirst.starts, ?_⟩
        intro j hj hstarts
        cases j with
        | zero => exact hx hstarts
        | succ j => exact hfirst.clean j (by omega) hstarts
      · intro h
        cases i with
        | zero => exact absurd h.starts hx
        | succ k =>
          refine ⟨k, ih.mpr ⟨h.starts, ?_⟩, rfl⟩
          intro j hj hstarts
          exact h.clean (j + 1) (by omega) hstarts

theorem isSome_firstOccurrence_iff {needle hay : List α} (hne : needle ≠ []) :
    (firstOccurrence needle hay).isSome = true ↔ needle <:+: hay := by
  induction hay with
  | nil => simp [firstOccurrence, hne]
  | cons x xs ih =>
    rw [firstOccurrence, infix_cons_iff]
    by_cases hx : needle <+: x :: xs
    · simp [hx]
    · simp [hx, ih]

theorem firstOccurrence_eq_none_iff {needle hay : List α} (hne : needle ≠ []) :
    firstOccurrence needle hay = none ↔ ∀ i, ¬ StartsAt needle hay i := by
  induction hay with
  | nil =>
    refine ⟨fun _ i h => ?_, fun _ => rfl⟩
    have hle := h.length_le hne
    have hpos := length_pos_of_ne_nil hne
    rw [length_nil] at hle
    omega
  | cons x xs ih =>
    rw [firstOccurrence]
    by_cases hx : needle <+: x :: xs
    · rw [if_pos hx]
      refine ⟨fun h => ?_, fun h => absurd hx (h 0)⟩
      cases h
    · rw [if_neg hx, Option.map_eq_none_iff, ih]
      constructor
      · intro h i
        cases i with
        | zero => exact hx
        | succ i => exact h i
      · exact fun h i => h (i + 1)

end Decidable

end List
