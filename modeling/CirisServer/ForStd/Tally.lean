import CirisServer.ForStd.Members
import Mathlib.Algebra.GroupWithZero.Nat
import Mathlib.Data.List.Dedup

/-!
# Tallies

A tally is a map from keys to counts, as a list with one entry for a key. A key without an entry
counts 0. Where every count is at most its count in another tally, so is the total (`total_le`).
-/

universe u v

namespace Tally

variable {κ : Type u} {k k' : κ} {n : Nat} {t t' : List (κ × Nat)}

/-- The sum of the counts. -/
def total (t : List (κ × Nat)) : Nat := (t.map Prod.snd).sum

@[simp] theorem total_cons : total ((k, n) :: t) = n + total t := by
  simp [total]

variable [DecidableEq κ]

/-- The count of `k`. -/
def count (k : κ) (t : List (κ × Nat)) : Nat := (t.lookup k).getD 0

theorem count_cons : count k' ((k, n) :: t) = if k' = k then n else count k' t := by
  rw [count, List.lookup_cons]
  by_cases h : k' = k
  · rw [if_pos h, h, beq_self_eq_true]
    rfl
  · rw [if_neg h, beq_false_of_ne h]
    rfl

/-- A key without an entry counts 0. -/
theorem count_eq_zero (h : k ∉ t.map Prod.fst) : count k t = 0 := by
  induction t with
  | nil => rfl
  | cons e t ih =>
    rw [List.map_cons, List.mem_cons, not_or] at h
    rw [count_cons, if_neg h.1, ih h.2]

theorem count_remove : count k' (Members.remove k t) = if k' = k then 0 else count k' t := by
  induction t with
  | nil => exact (ite_self 0).symm
  | cons e t ih =>
    rw [Members.remove] at ih
    rw [Members.remove, List.filter_cons]
    by_cases hkey : e.1 = k
    · rw [if_neg (by simpa using hkey), ih, count_cons, hkey]
      by_cases h : k' = k
      · rw [if_pos h, if_pos h]
      · rw [if_neg h, if_neg h, if_neg h]
    · rw [if_pos (by simpa using hkey), count_cons, ih, count_cons]
      by_cases h : k' = e.1
      · rw [if_pos h, if_neg (h ▸ hkey), if_pos h]
      · rw [if_neg h, if_neg h]

/-- A total is a count and the total of the rest. -/
theorem total_eq_add (h : (t.map Prod.fst).Nodup) :
    total t = count k t + total (Members.remove k t) := by
  induction t with
  | nil => rfl
  | cons e t ih =>
    obtain ⟨key, n⟩ := e
    rw [List.map_cons, List.nodup_cons] at h
    rw [total_cons, count_cons, Members.remove, List.filter_cons]
    by_cases hkey : k = key
    · have hrest : Members.remove k t = t :=
        Members.remove_of_not_contains (Members.contains_eq_false_iff.mpr (hkey ▸ h.1))
      rw [if_pos hkey, if_neg (by simpa using hkey.symm), ← Members.remove, hrest]
    · rw [if_neg hkey, if_pos (by simpa using Ne.symm hkey), total_cons, ih h.2, Members.remove]
      omega

/-- Where every count is at most its count in another tally, so is the total. -/
theorem total_le (h : (t.map Prod.fst).Nodup) (h' : (t'.map Prod.fst).Nodup)
    (hle : ∀ k, count k t ≤ count k t') : total t ≤ total t' := by
  induction t generalizing t' with
  | nil => exact Nat.zero_le _
  | cons e t ih =>
    obtain ⟨key, n⟩ := e
    rw [List.map_cons, List.nodup_cons] at h
    have hkey := hle key
    rw [count_cons, if_pos rfl] at hkey
    have hrest : total t ≤ total (Members.remove key t') := by
      apply ih h.2 (Members.nodup_remove h')
      intro k
      have hcount := hle k
      rw [count_cons] at hcount
      rw [count_remove]
      by_cases hk : k = key
      · have hnone : count key t = 0 := count_eq_zero h.1
        simp [hk, hnone]
      · rw [if_neg hk] at hcount
        rw [if_neg hk]
        exact hcount
    rw [total_cons, total_eq_add (k := key) h']
    omega

/-! ## Counting a list -/

/-- One more of `k`. -/
def bump (t : List (κ × Nat)) (k : κ) : List (κ × Nat) := Members.insert k (count k t + 1) t

/-- How often each element occurs. -/
def ofList (l : List κ) : List (κ × Nat) := l.foldl bump []

theorem count_bump : count k' (bump t k) = count k' t + if k' = k then 1 else 0 := by
  unfold bump
  by_cases h : k' = k
  · rw [h, count, Members.lookup_insert_self, if_pos rfl]
    rfl
  · rw [count, Members.lookup_insert_of_ne h, if_neg h]
    rfl

theorem nodup_bump (h : (t.map Prod.fst).Nodup) : ((bump t k).map Prod.fst).Nodup :=
  Members.nodup_insert h

theorem count_foldl_bump (l : List κ) : count k (l.foldl bump t) = count k t + l.count k := by
  induction l generalizing t with
  | nil => simp
  | cons x l ih =>
    rw [List.foldl_cons, ih, count_bump, List.count_cons]
    by_cases h : k = x
    · simp [h]
      omega
    · have hne : ¬ x = k := fun hx => h hx.symm
      simp [h, hne]

/-- The tally of a list counts it. -/
@[simp] theorem count_ofList (l : List κ) : count k (ofList l) = l.count k := by
  rw [ofList, count_foldl_bump]
  simp [count]

theorem nodup_ofList (l : List κ) : ((ofList l).map Prod.fst).Nodup := by
  unfold ofList
  have hfold : ∀ t : List (κ × Nat), (t.map Prod.fst).Nodup →
      ((l.foldl bump t).map Prod.fst).Nodup := by
    induction l with
    | nil => exact fun _ h => h
    | cons x l ih => exact fun t h => ih (bump t x) (nodup_bump h)
  exact hfold [] List.nodup_nil

/-- The keys of a tally are those it was bumped at. -/
theorem mem_ofList_iff (l : List κ) : k ∈ (ofList l).map Prod.fst ↔ k ∈ l := by
  have hfold : ∀ t : List (κ × Nat),
      k ∈ (l.foldl bump t).map Prod.fst ↔ k ∈ t.map Prod.fst ∨ k ∈ l := by
    induction l with
    | nil => simp
    | cons x l ih =>
      intro t
      have hbump : k ∈ (bump t x).map Prod.fst ↔ k ∈ t.map Prod.fst ∨ x = k := by
        have hcontains : Members.contains k (bump t x) =
            (Members.contains k t || decide (x = k)) := Members.contains_insert
        have hiff : ∀ ms : List (κ × Nat), Members.contains k ms = true ↔ k ∈ ms.map Prod.fst := by
          intro ms
          rw [← Bool.not_eq_false, Members.contains_eq_false_iff, not_not]
        rw [← hiff, ← hiff, hcontains]
        simp
      rw [List.foldl_cons, ih, hbump, List.mem_cons, or_assoc, @eq_comm _ k x]
  simpa [ofList] using hfold []

/-- An entry of a tally is a key and how often it occurs. -/
theorem mem_ofList {l : List κ} (h : (k, n) ∈ ofList l) : k ∈ l ∧ n = l.count k := by
  have hkey : k ∈ l := (mem_ofList_iff l).mp (List.mem_map_of_mem h)
  have hcount : count k (ofList l) = n := by
    have hlookup := Members.lookup_of_mem (nodup_ofList l) h
    rw [count, hlookup]
    rfl
  exact ⟨hkey, by rw [← hcount, count_ofList]⟩

/-- There are as many entries as there are different elements. -/
theorem length_ofList (l : List κ) : (ofList l).length = l.dedup.length := by
  rw [← List.length_map (f := Prod.fst)]
  apply List.Perm.length_eq
  rw [List.perm_ext_iff_of_nodup (nodup_ofList l) (List.nodup_dedup l)]
  intro x
  rw [mem_ofList_iff, List.mem_dedup]

/-! ## Weights -/

variable {α : Type v} {f : α → Nat} {ms : List (κ × α)} {x : α}

/-- The sum of what the members weigh. -/
def weigh (f : α → Nat) (ms : List (κ × α)) : Nat := (ms.map fun m => f m.2).sum

omit [DecidableEq κ] in
theorem weigh_eq_zero (h : ∀ m ∈ ms, f m.2 = 0) : weigh f ms = 0 := by
  induction ms with
  | nil => rfl
  | cons m ms ih =>
    rw [List.forall_mem_cons] at h
    rw [weigh, List.map_cons, List.sum_cons, h.1, Nat.zero_add]
    exact ih h.2

/-- A write puts a weight in the place of the one that was there. -/
theorem weigh_insert (h : (ms.map Prod.fst).Nodup) :
    weigh f (Members.insert k x ms) + ((ms.lookup k).map f).getD 0 = weigh f ms + f x := by
  unfold Members.insert
  split
  case isTrue hk =>
    induction ms with
    | nil => cases hk
    | cons m ms ih =>
      obtain ⟨key, y⟩ := m
      rw [List.map_cons, List.nodup_cons] at h
      by_cases hkey : key = k
      · have hrest : Members.modify k (fun _ => x) ms = ms :=
          Members.modify_of_not_contains (Members.contains_eq_false_iff.mpr (hkey ▸ h.1))
        rw [Members.modify] at hrest
        simp only [weigh, Members.modify, List.map_cons, List.sum_cons, hkey, if_true,
          List.lookup_cons_self, Option.map_some, Option.getD_some, hrest]
        omega
      · have hne : (k == key) = false := beq_eq_false_iff_ne.mpr (Ne.symm hkey)
        have hrest := ih h.2 (by simpa [Members.contains, hkey] using hk)
        simp only [weigh, Members.modify] at hrest
        simp only [weigh, Members.modify, List.map_cons, List.sum_cons, List.lookup_cons, hne,
          if_neg hkey]
        omega
  case isFalse hk =>
    have hnone : ms.lookup k = none :=
      Members.lookup_of_not_contains (Bool.not_eq_true _ ▸ hk)
    simp [weigh, hnone]

/-- A removal takes one weight away. -/
theorem weigh_remove (h : (ms.map Prod.fst).Nodup) :
    weigh f ms = ((ms.lookup k).map f).getD 0 + weigh f (Members.remove k ms) := by
  induction ms with
  | nil => rfl
  | cons m ms ih =>
    obtain ⟨key, y⟩ := m
    rw [List.map_cons, List.nodup_cons] at h
    rw [Members.remove, List.filter_cons]
    by_cases hkey : key = k
    · have hrest : Members.remove k ms = ms :=
        Members.remove_of_not_contains (Members.contains_eq_false_iff.mpr (hkey ▸ h.1))
      rw [if_neg (by simpa using hkey), ← Members.remove, hrest, hkey]
      simp [weigh]
    · have hne : (k == key) = false := beq_eq_false_iff_ne.mpr (Ne.symm hkey)
      have hrest := ih h.2
      rw [if_pos (by simpa using hkey), ← Members.remove, List.lookup_cons, hne]
      simp only [weigh, List.map_cons, List.sum_cons] at hrest ⊢
      omega

section

variable {p : α → Bool} {g : α → Nat} {l : List α}

/-- Where all but some weigh nothing, the sum is theirs. -/
theorem sum_map_eq_filter (h : ∀ x ∈ l, f x = if p x then g x else 0) :
    (l.map f).sum = ((l.filter p).map g).sum := by
  induction l with
  | nil => rfl
  | cons x l ih =>
    rw [List.forall_mem_cons] at h
    rw [List.map_cons, List.sum_cons, ih h.2, List.filter_cons, h.1]
    cases p x <;> simp

theorem sum_map_eq_countP (h : ∀ x ∈ l, f x = if p x then 1 else 0) :
    (l.map f).sum = l.countP p := by
  rw [sum_map_eq_filter h, List.countP_eq_length_filter]
  simp

end

end Tally
