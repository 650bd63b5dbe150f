import Mathlib.Data.List.DropRight

/-!
# Trimming by turns

A text is trimmed at both ends by one test, then by another, then by the first again. What goes at
an end is a run of the first kind, one of the second and one of the first, and no more: a rim of
more runs is not taken off whole.

Key results:
- `trimTurns_eq`: the turns of the two ends do not meet
- `exists_trimTurns`: what is left lies between two rims
- `trimTurns_append`: of a text between two rims, what is taken off beyond them
-/

universe u

namespace List

variable {α : Type u} {p q : α → Bool} {l m rim rim' : List α}

/-! ## The two ends -/

theorem rdropWhile_cons (q : α → Bool) (x : α) (l : List α) :
    (x :: l).rdropWhile q =
      if l.rdropWhile q = [] then (if q x then [] else [x]) else x :: l.rdropWhile q := by
  induction l using List.reverseRecOn with
  | nil => simp [rdropWhile_singleton]
  | append_singleton l y ih =>
    rw [← List.cons_append, rdropWhile_concat, rdropWhile_concat]
    cases hy : q y with
    | true => simpa [hy] using ih
    | false => simp

/-- What is dropped at one end does not depend on what is dropped at the other. -/
theorem dropWhile_rdropWhile (p q : α → Bool) (l : List α) :
    (l.rdropWhile q).dropWhile p = (l.dropWhile p).rdropWhile q := by
  induction l with
  | nil => simp
  | cons x l ih =>
    rw [rdropWhile_cons]
    cases hx : p x with
    | true =>
      rw [List.dropWhile_cons_of_pos hx, ← ih]
      split
      · -- nothing is left of the rest, and `x` goes in any case
        next hnil =>
          rw [hnil]
          split <;> simp [hx]
      · rw [List.dropWhile_cons_of_pos hx]
    | false =>
      rw [List.dropWhile_cons_of_neg (by simp [hx]), rdropWhile_cons]
      split
      · split <;> simp [hx]
      · rw [List.dropWhile_cons_of_neg (by simp [hx])]

/-- `trim` by a test. -/
def trimEnds (p : α → Bool) (l : List α) : List α := (l.dropWhile p).rdropWhile p

/-- What a trim takes off. -/
theorem exists_trimEnds (p : α → Bool) (l : List α) : ∃ pre post,
    l = pre ++ (trimEnds p l ++ post) ∧ (∀ x ∈ pre, p x) ∧ ∀ x ∈ post, p x := by
  refine ⟨l.takeWhile p, ((l.dropWhile p).reverse.takeWhile p).reverse, ?_, ?_, ?_⟩
  · rw [trimEnds, rdropWhile, ← List.reverse_append, List.takeWhile_append_dropWhile,
      List.reverse_reverse, List.takeWhile_append_dropWhile]
  · exact fun x hx => List.mem_takeWhile_imp hx
  · exact fun x hx => List.mem_takeWhile_imp (List.mem_reverse.mp hx)

theorem dropWhile_append_of_all (hl : ∀ x ∈ l, p x) (m : List α) :
    (l ++ m).dropWhile p = m.dropWhile p := by
  induction l with
  | nil => rfl
  | cons x l ih =>
    rw [List.forall_mem_cons] at hl
    rw [List.cons_append, List.dropWhile_cons_of_pos hl.1, ih hl.2]

theorem dropWhile_of_head (h : ∀ x ∈ l.head?, p x = false) : l.dropWhile p = l := by
  cases l with
  | nil => rfl
  | cons x l => exact List.dropWhile_cons_of_neg (by simp [h x rfl])

/-- A text that neither begins nor ends with what is trimmed off is what is left of it. -/
theorem trimEnds_append {pre post : List α} (hpre : ∀ x ∈ pre, p x) (hpost : ∀ x ∈ post, p x)
    (hhead : ∀ x ∈ m.head?, p x = false) (hlast : ∀ x ∈ m.getLast?, p x = false) :
    trimEnds p (pre ++ (m ++ post)) = m := by
  have hback : m.reverse.dropWhile p = m.reverse :=
    dropWhile_of_head (by simpa using hlast)
  rw [trimEnds, dropWhile_append_of_all hpre]
  cases m with
  | nil => simpa using fun x hx => hpost x ((List.dropWhile_sublist p).mem hx)
  | cons x m =>
    rw [dropWhile_of_head (by simpa using hhead), rdropWhile, List.reverse_append,
      dropWhile_append_of_all (by simpa using hpost), hback, List.reverse_reverse]

/-- Trimming by `p`, by `q`, and by `p` again. -/
def trimTurns (p q : α → Bool) (l : List α) : List α := trimEnds p (trimEnds q (trimEnds p l))

/-- The three turns at the front. -/
def peel (p q : α → Bool) (l : List α) : List α := ((l.dropWhile p).dropWhile q).dropWhile p

theorem trimTurns_eq (p q : α → Bool) (l : List α) :
    trimTurns p q l = (peel p q (peel p q l).reverse).reverse := by
  have hpeel : (peel p q (peel p q l).reverse).reverse =
      (((peel p q l).rdropWhile p).rdropWhile q).rdropWhile p := by
    simp only [peel, rdropWhile, List.reverse_reverse]
  rw [hpeel]
  simp only [trimTurns, trimEnds, peel, dropWhile_rdropWhile]

/-! ## Rims -/

/-- A run of the first kind, one of the second, and one of the first. -/
def Rim (p q : α → Bool) (l : List α) : Prop :=
  ∃ a b c, l = a ++ (b ++ c) ∧ (∀ x ∈ a, p x) ∧ (∀ x ∈ b, q x) ∧ ∀ x ∈ c, p x

theorem Rim.nil : Rim p q ([] : List α) := ⟨[], [], [], by simp⟩

theorem Rim.reverse (h : Rim p q l) : Rim p q l.reverse := by
  obtain ⟨a, b, c, rfl, ha, hb, hc⟩ := h
  refine ⟨c.reverse, b.reverse, a.reverse, by simp, ?_, ?_, ?_⟩
  · simpa using hc
  · simpa using hb
  · simpa using ha

theorem Rim.tail {x : α} (h : Rim p q (x :: l)) : Rim p q l := by
  obtain ⟨a, b, c, hl, ha, hb, hc⟩ := h
  match a, b, c, hl with
  | y :: a, b, c, hl =>
    rw [List.forall_mem_cons] at ha
    exact ⟨a, b, c, List.tail_eq_of_cons_eq hl, ha.2, hb, hc⟩
  | [], y :: b, c, hl =>
    rw [List.forall_mem_cons] at hb
    exact ⟨[], b, c, List.tail_eq_of_cons_eq hl, by simp, hb.2, hc⟩
  | [], [], y :: c, hl =>
    rw [List.forall_mem_cons] at hc
    exact ⟨[], [], c, List.tail_eq_of_cons_eq hl, by simp, by simp, hc.2⟩

/-- An end of a rim is a rim. -/
theorem Rim.of_append (h : Rim p q (l ++ m)) : Rim p q m := by
  induction l with
  | nil => exact h
  | cons x l ih => exact ih h.tail

theorem exists_peel (p q : α → Bool) (l : List α) : ∃ rim, l = rim ++ peel p q l ∧ Rim p q rim := by
  refine ⟨l.takeWhile p ++ ((l.dropWhile p).takeWhile q ++
    ((l.dropWhile p).dropWhile q).takeWhile p), ?_, _, _, _, rfl, ?_, ?_, ?_⟩
  · simp only [peel, List.append_assoc, List.takeWhile_append_dropWhile]
  · exact fun x hx => List.mem_takeWhile_imp hx
  · exact fun x hx => List.mem_takeWhile_imp hx
  · exact fun x hx => List.mem_takeWhile_imp hx

/-- `m` after some elements of either kind. -/
def Stripped (p q : α → Bool) (l m : List α) : Prop := ∃ t, l = t ++ m ∧ ∀ x ∈ t, p x || q x

theorem Stripped.refl (l : List α) : Stripped p q l l := ⟨[], rfl, by simp⟩

theorem Stripped.left (h : Stripped p q l m) : Stripped p q l (m.dropWhile p) := by
  obtain ⟨t, rfl, ht⟩ := h
  refine ⟨t ++ m.takeWhile p, by simp [List.takeWhile_append_dropWhile], fun x hx => ?_⟩
  rcases List.mem_append.mp hx with hold | hnew
  · exact ht x hold
  · simp [List.mem_takeWhile_imp hnew]

theorem Stripped.right (h : Stripped p q l m) : Stripped p q l (m.dropWhile q) := by
  obtain ⟨t, rfl, ht⟩ := h
  refine ⟨t ++ m.takeWhile q, by simp [List.takeWhile_append_dropWhile], fun x hx => ?_⟩
  rcases List.mem_append.mp hx with hold | hnew
  · exact ht x hold
  · simp [List.mem_takeWhile_imp hnew]

/-- The front rim goes, and beyond it only elements of the two kinds. -/
theorem peel_append (hpq : ∀ x, p x → q x = false) (h : Rim p q rim) (m : List α) :
    Stripped p q m (peel p q (rim ++ m)) := by
  obtain ⟨a, b, c, rfl, ha, hb, hc⟩ := h
  rw [peel, List.append_assoc, dropWhile_append_of_all ha, List.append_assoc]
  cases b with
  | nil =>
    rw [List.nil_append, dropWhile_append_of_all hc]
    exact (Stripped.refl m).left.right.left
  | cons y b =>
    -- the first turn stops at the run of the second kind
    have hy : q y = true := hb y List.mem_cons_self
    have hpy : ¬ p y = true := fun hp => by simp [hpq y hp] at hy
    rw [List.cons_append, List.dropWhile_cons_of_neg hpy, ← List.cons_append,
      dropWhile_append_of_all hb]
    cases c with
    | nil =>
      rw [List.nil_append]
      exact (Stripped.refl m).right.left
    | cons z c =>
      have hz : ¬ q z = true := by simp [hpq z (hc z List.mem_cons_self)]
      rw [List.cons_append, List.dropWhile_cons_of_neg hz, ← List.cons_append,
        dropWhile_append_of_all hc]
      exact (Stripped.refl m).left

theorem Stripped.eq_of_head (h : Stripped p q l m) (hl : ∀ x ∈ l.head?, (p x || q x) = false) :
    m = l := by
  obtain ⟨t, rfl, ht⟩ := h
  cases t with
  | nil => rfl
  | cons x t =>
    have hx := hl x (by simp)
    have hx' := ht x List.mem_cons_self
    rw [hx] at hx'
    cases hx'

/-! ## Both ends -/

/-- What is left lies between two rims. -/
theorem exists_trimTurns (p q : α → Bool) (l : List α) :
    ∃ rim rim', l = rim ++ (trimTurns p q l ++ rim') ∧ Rim p q rim ∧ Rim p q rim' := by
  obtain ⟨rim, hfront, hrim⟩ := exists_peel p q l
  obtain ⟨back, hback, hrim'⟩ := exists_peel p q (peel p q l).reverse
  refine ⟨rim, back.reverse, ?_, hrim, hrim'.reverse⟩
  rw [trimTurns_eq, ← List.reverse_append, ← hback, List.reverse_reverse]
  exact hfront

/-- Between two rims, a text that does not begin with either kind is kept, up to elements of the
    two kinds at its end. -/
theorem trimTurns_append (hpq : ∀ x, p x → q x = false) (hrim : Rim p q rim) (hrim' : Rim p q rim')
    (hm : ∀ x ∈ m.head?, (p x || q x) = false) :
    ∃ t, m = trimTurns p q (rim ++ (m ++ rim')) ++ t ∧ ∀ x ∈ t, p x || q x := by
  rw [trimTurns_eq]
  cases m with
  | nil =>
    -- the front turns leave an end of the other rim, and that is a rim
    obtain ⟨t, ht, -⟩ := peel_append hpq hrim rim'
    have hend : Rim p q (peel p q (rim ++ rim')) := (ht ▸ hrim').of_append
    have hgone : peel p q (peel p q (rim ++ rim')).reverse = [] := by
      obtain ⟨t', ht', -⟩ := peel_append hpq hend.reverse []
      rw [List.append_nil] at ht'
      exact (List.append_eq_nil_iff.mp ht'.symm).2
    exact ⟨[], by simp [hgone], by simp⟩
  | cons x m =>
    have hkept : peel p q (rim ++ (x :: m ++ rim')) = x :: m ++ rim' :=
      (peel_append hpq hrim (x :: m ++ rim')).eq_of_head (by simpa using hm)
    rw [hkept, List.reverse_append]
    obtain ⟨t, ht, hall⟩ := peel_append hpq hrim'.reverse (x :: m).reverse
    refine ⟨t.reverse, ?_, by simpa using hall⟩
    rw [← List.reverse_append, ← ht, List.reverse_reverse]

end List
