/-!
# Rows with a key

A table as a list of rows: the row with a key is read, is replaced or appended, or is changed in
place. Each of the two writes comes with the equation that says what is read after it.
-/

universe u v

namespace KeyedRows

variable {α : Type u} {κ : Type v} [DecidableEq κ] (key : α → κ)

/-- The row with the key `k`. -/
def get (k : κ) (rows : List α) : Option α := rows.find? (key · = k)

/-- Replaces the row with `row`'s key, or appends `row`. -/
def upsert (row : α) : List α → List α
  | [] => [row]
  | r :: rows => if key r = key row then row :: rows else r :: upsert row rows

/-- Changes the rows with the key `k`. -/
def modify (k : κ) (f : α → α) (rows : List α) : List α :=
  rows.map fun r => if key r = k then f r else r

variable {key}

@[simp] theorem get_cons (k : κ) (r : α) (rows : List α) :
    get key k (r :: rows) = if key r = k then some r else get key k rows := by
  by_cases h : key r = k
  · simp [get, h]
  · simp [get, h]

theorem key_of_get {k : κ} {r : α} {rows : List α} (h : get key k rows = some r) : key r = k := by
  simpa using List.find?_some h

/-- An upsert is seen under its key, and nowhere else. -/
theorem get_upsert (k : κ) (row : α) (rows : List α) :
    get key k (upsert key row rows) = if key row = k then some row else get key k rows := by
  induction rows with
  | nil => rw [upsert, get_cons]
  | cons r rows ih =>
    rw [upsert]
    by_cases hr : key r = key row
    · rw [if_pos hr, get_cons, get_cons, hr]
      by_cases hk : key row = k
      · rw [if_pos hk, if_pos hk]
      · rw [if_neg hk, if_neg hk, if_neg hk]
    · rw [if_neg hr, get_cons, ih, get_cons]
      by_cases hk : key r = k
      · have hne : key row ≠ k := fun h => hr (hk.trans h.symm)
        rw [if_pos hk, if_neg hne, if_pos hk]
      · rw [if_neg hk, if_neg hk]

/-- A change that keeps the keys is seen under its key, and nowhere else. -/
theorem get_modify {f : α → α} (hf : ∀ r, key (f r) = key r) (k k' : κ) (rows : List α) :
    get key k (modify key k' f rows) =
      if k' = k then (get key k rows).map f else get key k rows := by
  induction rows with
  | nil => simp [modify, get]
  | cons r rows ih =>
    have hcons : modify key k' f (r :: rows) =
        (if key r = k' then f r else r) :: modify key k' f rows := rfl
    rw [hcons, get_cons, ih, get_cons]
    by_cases hr : key r = k'
    · rw [if_pos hr, hf, hr]
      by_cases hk : k' = k
      · simp [hk]
      · simp [hk]
    · rw [if_neg hr]
      by_cases hk : k' = k
      · have hne : key r ≠ k := hk ▸ hr
        simp [hk, hne]
      · simp [hk]

/-- A change that keeps the keys of the rows keeps the keys of the table. -/
theorem map_key_modify {f : α → α} (hf : ∀ r, key (f r) = key r) (k : κ) (rows : List α) :
    (modify key k f rows).map key = rows.map key := by
  rw [modify, List.map_map]
  apply List.map_congr_left
  intro r _
  show key (if key r = k then f r else r) = key r
  split
  case isTrue => exact hf r
  case isFalse => rfl

/-- A change that no row of a kind survives takes the rows with the key out of that kind. -/
theorem filter_modify {p : α → Bool} {f : α → α} (hf : ∀ r, p (f r) = false) (k : κ)
    (rows : List α) :
    (modify key k f rows).filter p = (rows.filter p).filter (key · ≠ k) := by
  induction rows with
  | nil => rfl
  | cons r rows ih =>
    have hcons : modify key k f (r :: rows) =
        (if key r = k then f r else r) :: modify key k f rows := rfl
    rw [hcons]
    by_cases hr : key r = k
    · cases hp : p r with
      | true => simp [hr, hf, hp, ih]
      | false => simp [hr, hf, hp, ih]
    · cases hp : p r with
      | true => simp [hr, hp, ih]
      | false => simp [hr, hp, ih]

/-- An upsert keeps the keys, or adds one. -/
theorem map_key_upsert (row : α) (rows : List α) :
    (upsert key row rows).map key =
      if key row ∈ rows.map key then rows.map key else rows.map key ++ [key row] := by
  induction rows with
  | nil => simp [upsert]
  | cons r rows ih =>
    rw [upsert]
    by_cases hr : key r = key row
    · simp [hr]
    · rw [if_neg hr, List.map_cons, ih]
      by_cases hrow : key row ∈ rows.map key
      · simp only [List.map_cons, if_pos hrow, if_pos (List.mem_cons_of_mem _ hrow)]
      · have hcons : key row ∉ (r :: rows).map key := by
          rw [List.map_cons, List.mem_cons, not_or]
          exact ⟨Ne.symm hr, hrow⟩
        rw [if_neg hrow, if_neg hcons, List.map_cons, List.cons_append]

/-- A table keeps different keys. -/
theorem nodup_upsert {row : α} {rows : List α} (h : (rows.map key).Nodup) :
    ((upsert key row rows).map key).Nodup := by
  rw [map_key_upsert]
  split
  case isTrue => exact h
  case isFalse hrow =>
    refine List.nodup_append.mpr ⟨h, List.nodup_cons.mpr ⟨List.not_mem_nil, List.nodup_nil⟩, ?_⟩
    intro k hk k' hk' heq
    exact hrow (List.mem_singleton.mp hk' ▸ heq ▸ hk)

/-- An upsert adds its row at most, of whatever kind. -/
theorem length_filter_upsert_le (p : α → Bool) (row : α) (rows : List α) :
    ((upsert key row rows).filter p).length ≤
      (rows.filter p).length + if p row then 1 else 0 := by
  have hrow : ([row].filter p).length = if p row then 1 else 0 := by
    cases hp : p row with
    | true => simp [hp]
    | false => simp [hp]
  induction rows with
  | nil =>
    rw [upsert, hrow]
    exact Nat.le_add_left _ _
  | cons r rows ih =>
    rw [upsert]
    split
    · rw [← List.singleton_append, List.filter_append, List.length_append, hrow]
      rw [← List.singleton_append (l := rows), List.filter_append, List.length_append]
      omega
    · simp only [List.filter_cons]
      split
      · simp only [List.length_cons]
        omega
      · exact ih

/-- What an upsert puts in a table with different keys, and what it leaves there. -/
theorem mem_upsert {row r : α} {rows : List α} (h : (rows.map key).Nodup) :
    r ∈ upsert key row rows ↔ r = row ∨ r ∈ rows ∧ key r ≠ key row := by
  induction rows with
  | nil => simp [upsert]
  | cons r' rows ih =>
    rw [List.map_cons, List.nodup_cons] at h
    rw [upsert]
    by_cases hr : key r' = key row
    · have hrest : ∀ x ∈ rows, key x ≠ key row := by
        intro x hx heq
        exact h.1 (List.mem_map.mpr ⟨x, hx, heq.trans hr.symm⟩)
      rw [if_pos hr, List.mem_cons, List.mem_cons]
      constructor
      · intro hmem
        exact hmem.imp id fun hx => ⟨Or.inr hx, hrest r hx⟩
      · intro hmem
        cases hmem with
        | inl heq => exact Or.inl heq
        | inr hold =>
          cases hold.1 with
          | inl heq => exact absurd (heq ▸ hr) hold.2
          | inr hx => exact Or.inr hx
    · rw [if_neg hr, List.mem_cons, List.mem_cons, ih h.2]
      constructor
      · intro hmem
        obtain rfl | heq | hold := hmem
        · exact Or.inr ⟨Or.inl rfl, hr⟩
        · exact Or.inl heq
        · exact Or.inr ⟨Or.inr hold.1, hold.2⟩
      · intro hmem
        obtain heq | ⟨rfl | hx, hne⟩ := hmem
        · exact Or.inr (Or.inl heq)
        · exact Or.inl rfl
        · exact Or.inr (Or.inr ⟨hx, hne⟩)

end KeyedRows
