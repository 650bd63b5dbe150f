import Mathlib.Data.List.Basic

/-!
# Members of an object

The members of an object, as a list of keys and values: a member is written, changed in place, or
removed. Where keys are distinct this is a map; every law below holds of any list.
-/

universe u v

namespace Members

variable {κ : Type u} {α : Type v} [DecidableEq κ]

/-- Some member has the key `k`. -/
def contains (k : κ) (ms : List (κ × α)) : Bool := ms.any fun m => m.1 = k

/-- Changes the value under `k`, where there is one. -/
def modify (k : κ) (f : α → α) (ms : List (κ × α)) : List (κ × α) :=
  ms.map fun m => if m.1 = k then (m.1, f m.2) else m

/-- Writes `v` under `k`: in place of the value that is there, or as a new member. -/
def insert (k : κ) (v : α) (ms : List (κ × α)) : List (κ × α) :=
  if contains k ms then modify k (fun _ => v) ms else ms ++ [(k, v)]

/-- Takes away the member under `k`. -/
def remove (k : κ) (ms : List (κ × α)) : List (κ × α) := ms.filter fun m => m.1 ≠ k

/-- Takes away the members under `ks`, one key after the other. -/
def removeAll (ks : List κ) (ms : List (κ × α)) : List (κ × α) :=
  ks.foldl (fun ms k => remove k ms) ms

variable {k l : κ} {f g : α → α} {v w : α} {ms : List (κ × α)}

@[simp] theorem contains_modify : contains l (modify k f ms) = contains l ms := by
  simp only [contains, modify, List.any_map]
  congr 1
  funext m
  by_cases hm : m.1 = k <;> simp [hm]

theorem contains_append (ms' : List (κ × α)) :
    contains k (ms ++ ms') = (contains k ms || contains k ms') := List.any_append

@[simp] theorem contains_insert :
    contains l (insert k v ms) = (contains l ms || decide (k = l)) := by
  unfold insert
  split
  case isTrue hk =>
    rw [contains_modify]
    by_cases hkl : k = l
    · simp [← hkl, hk]
    · simp [hkl]
  case isFalse => simp [contains]

theorem modify_of_not_contains (h : contains k ms = false) : modify k f ms = ms := by
  simp only [contains, List.any_eq_false, decide_eq_true_eq] at h
  simp only [modify]
  exact (List.map_congr_left fun m hm => if_neg (h m hm)).trans (List.map_id' ms)

/-- Nothing is found under a key that no member has. -/
theorem lookup_of_not_contains (h : contains k ms = false) : ms.lookup k = none := by
  simp only [contains, List.any_eq_false, decide_eq_true_eq] at h
  rw [List.lookup_eq_none_iff]
  exact fun m hm => bne_iff_ne.mpr (Ne.symm (h m hm))

theorem remove_of_not_contains (h : contains k ms = false) : remove k ms = ms := by
  simp only [contains, List.any_eq_false, decide_eq_true_eq] at h
  rw [remove, List.filter_eq_self]
  exact fun m hm => decide_eq_true (h m hm)

theorem contains_eq_false_iff : contains k ms = false ↔ k ∉ ms.map Prod.fst := by
  simp only [contains, List.any_eq_false, decide_eq_true_eq, List.mem_map, not_exists, not_and]

theorem modify_append (ms' : List (κ × α)) :
    modify k f (ms ++ ms') = modify k f ms ++ modify k f ms' := List.map_append

theorem modify_modify : modify k f (modify k g ms) = modify k (fun x => f (g x)) ms := by
  simp only [modify, List.map_map]
  congr 1
  funext m
  by_cases hm : m.1 = k <;> simp [hm]

/-- Changes under two keys do not disturb each other. -/
theorem modify_comm (h : k ≠ l) : modify k f (modify l g ms) = modify l g (modify k f ms) := by
  simp only [modify, List.map_map]
  congr 1
  funext m
  by_cases hk : m.1 = k
  · simp [hk, h]
  · by_cases hl : m.1 = l <;> simp [hk, hl, h.symm]

/-- A change and a write under two keys do not disturb each other. -/
theorem modify_insert_comm (h : k ≠ l) :
    modify k f (insert l v ms) = insert l v (modify k f ms) := by
  simp only [insert, contains_modify]
  split
  case isTrue => exact modify_comm h
  case isFalse => rw [modify_append]; simp [modify, h.symm]

/-- Of two writes under one key, the second stays. -/
theorem insert_insert : insert k v (insert k w ms) = insert k v ms := by
  have hins : contains k (insert k w ms) = true := by simp
  rw [insert, if_pos hins]
  unfold insert
  split
  case isTrue => exact modify_modify
  case isFalse hk =>
    rw [modify_append, modify_of_not_contains (Bool.not_eq_true _ ▸ hk)]
    simp [modify]

/-- A write where there is something is a change. -/
theorem insert_of_contains : (if contains k ms then insert k v ms else ms) =
    modify k (fun _ => v) ms := by
  split
  case isTrue hk => rw [insert, if_pos hk]
  case isFalse hk => rw [modify_of_not_contains (Bool.not_eq_true _ ▸ hk)]

/-- A removal and a change do not disturb each other, whatever the keys. -/
theorem remove_modify : remove k (modify l f ms) = modify l f (remove k ms) := by
  simp only [remove, modify, List.filter_map]
  congr 1
  apply List.filter_congr
  intro m _
  by_cases hl : m.1 = l <;> simp [hl]

/-- What is written under a key is removed with it. -/
theorem remove_insert : remove k (insert k v ms) = remove k ms := by
  have hnot : contains k (remove k ms) = false := by simp [contains, remove]
  unfold insert
  split
  case isTrue => rw [remove_modify, modify_of_not_contains hnot]
  case isFalse => simp [remove]

theorem lookup_modify_of_ne (h : l ≠ k) : (modify k f ms).lookup l = ms.lookup l := by
  induction ms with
  | nil => rfl
  | cons m ms ih =>
    obtain ⟨key, value⟩ := m
    simp only [modify, List.map_cons] at ih ⊢
    by_cases hm : key = k
    · have hne : (l == key) = false := beq_eq_false_iff_ne.mpr (hm ▸ h)
      rw [if_pos hm, List.lookup_cons, List.lookup_cons, hne, ih]
    · rw [if_neg hm, List.lookup_cons, List.lookup_cons, ih]

theorem lookup_insert_of_ne (h : l ≠ k) : (insert k v ms).lookup l = ms.lookup l := by
  unfold insert
  split
  case isTrue => exact lookup_modify_of_ne h
  case isFalse =>
    have hne : (l == k) = false := beq_eq_false_iff_ne.mpr h
    simp [List.lookup_append, List.lookup_cons, hne]

theorem lookup_modify_self (h : contains k ms = true) :
    (modify k (fun _ => v) ms).lookup k = some v := by
  induction ms with
  | nil => cases h
  | cons m ms ih =>
    obtain ⟨key, value⟩ := m
    simp only [modify, List.map_cons] at ih ⊢
    by_cases hm : key = k
    · rw [if_pos hm, hm, List.lookup_cons_self]
    · have hne : (k == key) = false := beq_eq_false_iff_ne.mpr (Ne.symm hm)
      have hrest : contains k ms = true := by simpa [contains, hm] using h
      rw [if_neg hm, List.lookup_cons, hne, ih hrest]

theorem lookup_modify : (modify k f ms).lookup k = (ms.lookup k).map f := by
  induction ms with
  | nil => rfl
  | cons m ms ih =>
    obtain ⟨key, value⟩ := m
    simp only [modify, List.map_cons] at ih ⊢
    by_cases hm : key = k
    · rw [if_pos hm, hm, List.lookup_cons_self, List.lookup_cons_self, Option.map_some]
    · have hne : (k == key) = false := beq_eq_false_iff_ne.mpr (Ne.symm hm)
      rw [if_neg hm, List.lookup_cons, List.lookup_cons, hne, ih]

/-- What is written under a key is found there. -/
theorem lookup_insert_self : (insert k v ms).lookup k = some v := by
  unfold insert
  split
  case isTrue hk => exact lookup_modify_self hk
  case isFalse hk =>
    rw [List.lookup_append, lookup_of_not_contains (Bool.not_eq_true _ ▸ hk), Option.none_or,
      List.lookup_cons_self]

theorem mem_of_lookup (h : ms.lookup k = some v) : (k, v) ∈ ms := by
  obtain ⟨before, after, rfl, -⟩ := List.lookup_eq_some_iff.mp h
  exact List.mem_append_right _ List.mem_cons_self

/-! ## Distinct keys -/

/-- Where keys are distinct, a member is the one under its key. -/
theorem lookup_of_mem (h : (ms.map Prod.fst).Nodup) (hmem : (k, v) ∈ ms) :
    ms.lookup k = some v := by
  induction ms with
  | nil => cases hmem
  | cons m ms ih =>
    obtain ⟨key, w⟩ := m
    rw [List.map_cons, List.nodup_cons] at h
    cases List.mem_cons.mp hmem with
    | inl heq =>
      cases heq
      exact List.lookup_cons_self
    | inr htail =>
      have hkey : k ∈ ms.map Prod.fst := List.mem_map.mpr ⟨(k, v), htail, rfl⟩
      have hne : (k == key) = false := beq_eq_false_iff_ne.mpr fun heq => h.1 (heq ▸ hkey)
      rw [List.lookup_cons, hne]
      exact ih h.2 htail

theorem map_fst_modify : (modify k f ms).map Prod.fst = ms.map Prod.fst := by
  rw [modify, List.map_map]
  apply List.map_congr_left
  intro m _
  by_cases hm : m.1 = k <;> simp [hm]

theorem nodup_insert (h : (ms.map Prod.fst).Nodup) : ((insert k v ms).map Prod.fst).Nodup := by
  unfold insert
  split
  case isTrue => rwa [map_fst_modify]
  case isFalse hk =>
    have hnot : k ∉ ms.map Prod.fst := contains_eq_false_iff.mp (Bool.not_eq_true _ ▸ hk)
    rw [List.map_append, List.nodup_append]
    refine ⟨h, by simp, fun x hx y hy hxy => hnot ?_⟩
    rw [List.map_cons, List.map_nil, List.mem_singleton] at hy
    rwa [hxy, hy] at hx

theorem nodup_remove (h : (ms.map Prod.fst).Nodup) : ((remove k ms).map Prod.fst).Nodup :=
  (List.filter_sublist.map Prod.fst).nodup h

/-- After a write there is what was there and what was written. -/
theorem mem_insert {m : κ × α} (h : m ∈ insert k v ms) : m ∈ ms ∨ m = (k, v) := by
  unfold insert at h
  split at h
  case isTrue =>
    obtain ⟨m', hm', rfl⟩ := List.mem_map.mp h
    by_cases hm : m'.1 = k
    · rw [if_pos hm, hm]
      exact Or.inr rfl
    · rw [if_neg hm]
      exact Or.inl hm'
  case isFalse => exact (List.mem_append.mp h).imp_right List.mem_singleton.mp

theorem length_insert :
    (insert k v ms).length = if contains k ms then ms.length else ms.length + 1 := by
  unfold insert
  split
  · exact List.length_map _
  · simp

/-! ## Several keys at once -/

variable {ks : List κ}

theorem removeAll_eq_filter : removeAll ks ms = ms.filter fun m => m.1 ∉ ks := by
  induction ks generalizing ms with
  | nil => simp [removeAll]
  | cons k ks ih =>
    have hcons : removeAll (k :: ks) ms = removeAll ks (remove k ms) := rfl
    rw [hcons, ih, remove, List.filter_filter]
    apply List.filter_congr
    intro m _
    by_cases hm : m.1 = k <;> simp [hm]

theorem removeAll_modify : removeAll ks (modify k f ms) = modify k f (removeAll ks ms) := by
  induction ks generalizing ms with
  | nil => rfl
  | cons l ks ih =>
    have hcons : ∀ ms : List (κ × α), removeAll (l :: ks) ms = removeAll ks (remove l ms) :=
      fun _ => rfl
    rw [hcons, hcons, remove_modify, ih]

theorem removeAll_removeAll : removeAll ks (removeAll ks ms) = removeAll ks ms := by
  simp [removeAll_eq_filter, List.filter_filter]

/-- What is written under one of the keys is removed with them. -/
theorem removeAll_insert_of_mem (h : k ∈ ks) : removeAll ks (insert k v ms) = removeAll ks ms := by
  have hnot : contains k (removeAll ks ms) = false := by
    rw [removeAll_eq_filter, contains, List.any_eq_false]
    intro m hm hk
    simp only [List.mem_filter, decide_eq_true_eq] at hm hk
    exact hm.2 (hk ▸ h)
  unfold insert
  split
  case isTrue => rw [removeAll_modify, modify_of_not_contains hnot]
  case isFalse => simp [removeAll_eq_filter, List.filter_append, h]

end Members
