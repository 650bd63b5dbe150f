import Mathlib.Algebra.Order.Field.Basic
import Mathlib.Data.List.GetD
import Mathlib.Data.List.Sort
import Mathlib.Tactic.Linarith

/-!
# Order statistics

The place of an element in a sorted list and the number of elements on either side of a bound. The
middle of a sorted list is within bounds that the list attains exactly if fewer than half of the
elements are beyond either.
-/

universe u

namespace List

section Order

variable {α : Type u} [LinearOrder α] {l : List α} {i : Nat}

/-- In a sorted list, what holds downwards holds as far as it is counted. -/
theorem Pairwise.getElem_iff_lt_countP (hsorted : l.Pairwise (· ≤ ·)) {p : α → Bool}
    (hp : ∀ x y, x ≤ y → p y = true → p x = true) (hi : i < l.length) :
    p l[i] = true ↔ i < l.countP p := by
  induction l generalizing i with
  | nil => simp at hi
  | cons a l ih =>
    obtain ⟨hhead, htail⟩ := pairwise_cons.mp hsorted
    by_cases ha : p a = true
    · rw [countP_cons_of_pos ha]
      cases i with
      | zero => simp [ha]
      | succ i =>
        rw [getElem_cons_succ, ih htail (by simpa using hi)]
        omega
    · -- nothing after the head holds either
      have hnone : ∀ x ∈ l, ¬ p x = true := fun x hx hpx => ha (hp a x (hhead x hx) hpx)
      have hcount : l.countP p = 0 := countP_eq_zero.mpr hnone
      rw [countP_cons_of_neg ha, hcount]
      have hnot : ¬ p (a :: l)[i] = true := by
        cases i with
        | zero => exact ha
        | succ i => exact hnone _ (getElem_mem _)
      simp [hnot]

/-- An element is at most a bound if enough elements are. -/
theorem Pairwise.getElem_le_iff (hsorted : l.Pairwise (· ≤ ·)) (hi : i < l.length) (b : α) :
    l[i] ≤ b ↔ l.countP (fun x => Decidable.decide (b < x)) + i < l.length := by
  have hcount : l.countP (fun x => Decidable.decide (x ≤ b)) +
      l.countP (fun x => Decidable.decide (b < x)) = l.length := by
    rw [length_eq_countP_add_countP fun x => Decidable.decide (x ≤ b)]
    congr 1
    apply countP_congr
    simp
  have hplace := hsorted.getElem_iff_lt_countP (p := fun x => Decidable.decide (x ≤ b))
    (fun x y hxy hy => decide_eq_true (hxy.trans (of_decide_eq_true hy))) hi
  rw [decide_eq_true_eq] at hplace
  rw [hplace]
  omega

/-- An element is at least a bound if few enough elements are less. -/
theorem Pairwise.le_getElem_iff (hsorted : l.Pairwise (· ≤ ·)) (hi : i < l.length) (b : α) :
    b ≤ l[i] ↔ l.countP (fun x => Decidable.decide (x < b)) ≤ i := by
  have hplace := hsorted.getElem_iff_lt_countP (p := fun x => Decidable.decide (x < b))
    (fun x y hxy hy => decide_eq_true (lt_of_le_of_lt hxy (of_decide_eq_true hy))) hi
  rw [decide_eq_true_eq] at hplace
  rw [← not_lt, hplace, not_lt]

/-- Every element is less than a bound, or greater, or the bound. -/
theorem countP_lt_add_countP_gt_add_count (l : List α) (b : α) :
    l.countP (fun x => decide (x < b)) + l.countP (fun x => decide (b < x)) + l.count b =
      l.length := by
  induction l with
  | nil => rfl
  | cons a l ih =>
    rw [countP_cons, countP_cons, count_cons, length_cons, ← ih]
    obtain hlt | rfl | hgt := lt_trichotomy a b
    · simp [hlt, hlt.ne, hlt.not_gt]
      omega
    · simp
      omega
    · simp [hgt, hgt.ne', hgt.not_gt]
      omega

end Order

section Middle

variable {α : Type u} [Field α] [LinearOrder α] [IsStrictOrderedRing α] {l : List α} {b : α}

/-- The middle element, or the mean of the two in the middle. -/
def middle (l : List α) : α :=
  if l.length % 2 = 0 then (l.getD (l.length / 2 - 1) 0 + l.getD (l.length / 2) 0) / 2
  else l.getD (l.length / 2) 0

/-- The middle of a sorted list is at most an element of it exactly if fewer than half of the
    elements are greater. -/
theorem Pairwise.middle_le_iff (hsorted : l.Pairwise (· ≤ ·)) (hb : b ∈ l) :
    l.middle ≤ b ↔ 2 * l.countP (fun x => Decidable.decide (b < x)) < l.length := by
  have hpos := length_pos_of_mem hb
  unfold middle
  split
  · next heven =>
    have hlow : l.length / 2 - 1 < l.length := by omega
    have hhigh : l.length / 2 < l.length := by omega
    rw [getD_eq_getElem _ _ hlow, getD_eq_getElem _ _ hhigh]
    have hhighIff := hsorted.getElem_le_iff hhigh b
    constructor
    · intro hmean
      by_contra hmany
      -- the upper one is beyond the bound, and the lower one reaches it
      have hupper : b < l[l.length / 2] := by
        rw [← not_le, hhighIff]
        omega
      have hlower : b ≤ l[l.length / 2 - 1] := by
        rw [hsorted.le_getElem_iff hlow]
        have hcount := countP_lt_add_countP_gt_add_count l b
        have hself := count_pos_iff.mpr hb
        omega
      linarith
    · intro hfew
      have hupper : l[l.length / 2] ≤ b := hhighIff.mpr (by omega)
      have hlower : l[l.length / 2 - 1] ≤ b := (hsorted.getElem_le_iff hlow b).mpr (by omega)
      linarith
  · next hodd =>
    have hmid : l.length / 2 < l.length := by omega
    rw [getD_eq_getElem _ _ hmid, hsorted.getElem_le_iff hmid b]
    omega

/-- And it is at least an element exactly if fewer than half of them are less. -/
theorem Pairwise.le_middle_iff (hsorted : l.Pairwise (· ≤ ·)) (hb : b ∈ l) :
    b ≤ l.middle ↔ 2 * l.countP (fun x => Decidable.decide (x < b)) < l.length := by
  have hpos := length_pos_of_mem hb
  unfold middle
  split
  · next heven =>
    have hlow : l.length / 2 - 1 < l.length := by omega
    have hhigh : l.length / 2 < l.length := by omega
    rw [getD_eq_getElem _ _ hlow, getD_eq_getElem _ _ hhigh]
    have hlowIff := hsorted.le_getElem_iff hlow b
    constructor
    · intro hmean
      by_contra hmany
      have hlower : l[l.length / 2 - 1] < b := by
        rw [← not_le, hlowIff]
        omega
      have hupper : l[l.length / 2] ≤ b := by
        rw [hsorted.getElem_le_iff hhigh]
        have hcount := countP_lt_add_countP_gt_add_count l b
        have hself := count_pos_iff.mpr hb
        omega
      linarith
    · intro hfew
      have hlower : b ≤ l[l.length / 2 - 1] := hlowIff.mpr (by omega)
      have hupper : b ≤ l[l.length / 2] := (hsorted.le_getElem_iff hhigh b).mpr (by omega)
      linarith
  · next hodd =>
    have hmid : l.length / 2 < l.length := by omega
    rw [getD_eq_getElem _ _ hmid, hsorted.le_getElem_iff hmid b]
    omega

end Middle

end List
