import Mathlib.Data.List.Dedup
import Mathlib.Data.List.Destutter
import Mathlib.Data.List.Flatten
import Mathlib.Data.List.Sort
import Mathlib.Order.Basic
import Mathlib.Tactic.Tauto

/-!
# Keys, groups and fallible maps

The keys of an ordered map that a list fills, the groups the keys make, a look-up by a key, and
`List.mapM` in `Option`: a run over a list that stops at the first element without a value.
-/

universe u v

namespace List

/-- `l'` is `l` with `a` at some place more. -/
def Inserted {α : Type u} (a : α) (l l' : List α) : Prop :=
  ∃ before after, l = before ++ after ∧ l' = before ++ a :: after

theorem Inserted.mem_iff {α : Type u} {a b : α} {l l' : List α} (h : Inserted a l l') :
    b ∈ l' ↔ b = a ∨ b ∈ l := by
  obtain ⟨before, after, rfl, rfl⟩ := h
  simp only [mem_append, mem_cons]
  tauto

section Keys

variable {κ : Type u} [LinearOrder κ] {k : κ} {l l' : List κ}

/-- The distinct elements in order: the members of a `BTreeSet`, the keys of a `BTreeMap`. -/
def sortedKeys (l : List κ) : List κ := l.dedup.insertionSort (· ≤ ·)

@[simp] theorem mem_sortedKeys : k ∈ l.sortedKeys ↔ k ∈ l := by simp [sortedKeys]

theorem nodup_sortedKeys (l : List κ) : l.sortedKeys.Nodup :=
  (perm_insertionSort _ _).nodup_iff.mpr (nodup_dedup l)

theorem pairwise_sortedKeys (l : List κ) : l.sortedKeys.Pairwise (· ≤ ·) := pairwise_insertionSort _ _

/-- The keys depend on what is in the list, not on where. -/
theorem sortedKeys_congr (h : ∀ k, k ∈ l ↔ k ∈ l') : l.sortedKeys = l'.sortedKeys := by
  refine Perm.eq_of_pairwise ?_ (pairwise_sortedKeys l) (pairwise_sortedKeys l') ?_
  · intro a b _ _ hab hba
    exact le_antisymm hab hba
  · exact (perm_ext_iff_of_nodup (nodup_sortedKeys l) (nodup_sortedKeys l')).mpr (by simp [h])

theorem sortedKeys_eq_insertionSort (h : l.Nodup) : l.sortedKeys = l.insertionSort (· ≤ ·) := by
  rw [sortedKeys, h.dedup]

/-- One key more takes its place. -/
theorem sortedKeys_inserted (hk : k ∉ l) (h : ∀ x, x ∈ l' ↔ x = k ∨ x ∈ l) :
    Inserted k l.sortedKeys l'.sortedKeys := by
  have hcons : l'.sortedKeys = (k :: l).sortedKeys :=
    sortedKeys_congr fun x => by rw [h, mem_cons]
  rw [hcons, sortedKeys, sortedKeys, dedup_cons_of_notMem hk, insertionSort_cons_eq_take_drop]
  exact ⟨_, _, (takeWhile_append_dropWhile).symm, rfl⟩

end Keys

section SortDedup

variable {α : Type u} {κ : Type v} [LinearOrder κ] {key : α → κ} {l : List α} {a : α}

/-- `sort_by` a key, and then `dedup_by` it. -/
def sortDedupBy (key : α → κ) (l : List α) : List α :=
  (l.insertionSort (key · ≤ key ·)).destutter (key · ≠ key ·)

/-- A `dedup_by` takes an element away next to one with the same key. -/
theorem exists_mem_destutter (key : α → κ) {l : List α} (h : a ∈ l) :
    ∃ b ∈ l.destutter (key · ≠ key ·), key b = key a := by
  suffices hfrom : ∀ (l : List α) (c a : α), a ∈ c :: l →
      ∃ b ∈ l.destutter' (key · ≠ key ·) c, key b = key a by
    cases l with
    | nil => cases h
    | cons c l => exact hfrom l c a h
  intro l
  induction l with
  | nil =>
    intro c a ha
    exact ⟨c, mem_destutter' _ _ c, by rw [mem_singleton.mp ha]⟩
  | cons x l ih =>
    intro c a ha
    by_cases hne : key c ≠ key x
    · rw [destutter'_cons_pos l hne]
      rcases mem_cons.mp ha with rfl | ha
      · exact ⟨a, mem_cons_self, rfl⟩
      · obtain ⟨b, hb, hkey⟩ := ih x a ha
        exact ⟨b, mem_cons_of_mem _ hb, hkey⟩
    · rw [destutter'_cons_neg l hne]
      -- `x` goes, and `c` has its key
      rcases mem_cons.mp ha with rfl | ha
      · exact ih a a mem_cons_self
      · rcases mem_cons.mp ha with rfl | ha
        · obtain ⟨b, hb, hkey⟩ := ih c c mem_cons_self
          exact ⟨b, hb, hkey.trans (not_not.mp hne)⟩
        · exact ih c a (mem_cons_of_mem _ ha)

theorem nodup_map_sortDedupBy (key : α → κ) (l : List α) :
    ((l.sortDedupBy key).map key).Nodup := by
  have hsorted : (l.sortDedupBy key).Pairwise (key · ≤ key ·) :=
    (pairwise_insertionSort (key · ≤ key ·) l).sublist (destutter_sublist _ _)
  have hlt : (l.sortDedupBy key).IsChain (key · < key ·) := by
    have hne : (l.sortDedupBy key).IsChain (key · ≠ key ·) := isChain_destutter _ _
    rw [isChain_iff_forall_rel_of_append_cons_cons] at hne ⊢
    intro a b before after hsplit
    rw [hsplit] at hsorted
    have hle := rel_of_pairwise_cons (pairwise_append.mp hsorted).2.1 mem_cons_self
    exact lt_of_le_of_ne hle (hne hsplit)
  have hpairwise : (l.sortDedupBy key).Pairwise (key · < key ·) := hlt.pairwise
  exact pairwise_map.mpr (hpairwise.imp fun hab => ne_of_lt hab)

theorem mem_sortDedupBy (hinj : ∀ a ∈ l, ∀ b ∈ l, key a = key b → a = b) :
    a ∈ l.sortDedupBy key ↔ a ∈ l := by
  have hsub : ∀ b ∈ l.sortDedupBy key, b ∈ l := fun b hb =>
    (mem_insertionSort _).mp ((destutter_sublist _ _).subset hb)
  constructor
  · exact hsub a
  · intro ha
    obtain ⟨b, hb, hkey⟩ := exists_mem_destutter key
      ((mem_insertionSort (key · ≤ key ·)).mpr ha)
    have heq := hinj b (hsub b hb) a ha hkey
    exact heq ▸ hb

end SortDedup

section Lookup

variable {α : Type u} {κ : Type v} [BEq κ] [LawfulBEq κ] {key : α → κ} {l l' : List α} {k : κ}

theorem find?_key_eq_some_iff {a : α} (h : (l.map key).Nodup) :
    l.find? (fun x => key x == k) = some a ↔ a ∈ l ∧ key a = k := by
  constructor
  · intro ha
    exact ⟨mem_of_find?_eq_some ha, by simpa using find?_some ha⟩
  · rintro ⟨ha, hk⟩
    have hsome : (l.find? fun x => key x == k).isSome = true :=
      find?_isSome.mpr ⟨a, ha, by simpa using hk⟩
    obtain ⟨b, hb⟩ := Option.isSome_iff_exists.mp hsome
    have hkb : key b = k := by simpa using find?_some hb
    rw [hb, inj_on_of_nodup_map h (mem_of_find?_eq_some hb) ha (hkb.trans hk.symm)]

/-- A look-up by a key that is unique does not depend on the order. -/
theorem Perm.find?_key (hperm : l.Perm l') (h : (l.map key).Nodup) :
    l.find? (fun x => key x == k) = l'.find? fun x => key x == k := by
  ext a
  rw [find?_key_eq_some_iff h, find?_key_eq_some_iff ((hperm.map key).nodup_iff.mp h),
    hperm.mem_iff]

/-- The groups of a list make up the list. -/
theorem flatMap_filter_perm {ks : List κ} (hnodup : ks.Nodup) (hmem : ∀ a ∈ l, key a ∈ ks) :
    (ks.flatMap fun k => l.filter fun a => key a == k).Perm l := by
  induction ks generalizing l with
  | nil =>
    cases l with
    | nil => exact .refl _
    | cons a l => exact absurd (hmem a mem_cons_self) not_mem_nil
  | cons k ks ih =>
    obtain ⟨hk, hnodup⟩ := nodup_cons.mp hnodup
    rw [flatMap_cons]
    -- the other groups are groups of the rest
    have hrest : (ks.flatMap fun k' => l.filter fun a => key a == k') =
        ks.flatMap fun k' => (l.filter fun a => !(key a == k)).filter fun a => key a == k' := by
      apply flatMap_congr
      intro k' hk'
      rw [filter_filter]
      apply filter_congr
      intro a _
      have hne : k' ≠ k := fun h => hk (h ▸ hk')
      by_cases ha : key a = k'
      · simp [ha, hne]
      · simp [ha]
    have hgroups := ih hnodup (l := l.filter fun a => !(key a == k)) (by
      intro a ha
      obtain ⟨hal, hne⟩ := mem_filter.mp ha
      have hin := hmem a hal
      simp only [Bool.not_eq_eq_eq_not, Bool.not_true, beq_eq_false_iff_ne] at hne
      exact (mem_cons.mp hin).resolve_left hne)
    rw [hrest]
    exact (hgroups.append_left _).trans (filter_append_perm _ l)

end Lookup

section Named

variable {κ : Type u} {β : Type v}

theorem flatMap_filter_nonempty (ks : List κ) (f : κ → List β) :
    (ks.filter fun k => !(f k).isEmpty).flatMap f = ks.flatMap f := by
  induction ks with
  | nil => rfl
  | cons k ks ih =>
    by_cases hk : f k = []
    · simp [hk, ih]
    · simp [hk, ih]

/-- Groups that may be named several times make up the list if those that hold something are named
    once. -/
theorem flatMap_perm_iff [DecidableEq κ] {ks ls : List κ} {f : κ → List β} (hks : ks.Nodup)
    (hnodup : (ks.flatMap f).Nodup) (hmem : ∀ k, k ∈ ls ↔ k ∈ ks) :
    (ls.flatMap f).Perm (ks.flatMap f) ↔ ∀ k, f k ≠ [] → ls.count k ≤ 1 := by
  constructor
  · intro hperm k hk
    by_contra htwice
    have hsub : replicate 2 k <+ ls := replicate_sublist_iff.mpr (by omega)
    have hdouble := (hperm.nodup_iff.mpr hnodup).sublist (hsub.flatMap f)
    simp only [replicate_succ, replicate_zero, flatMap_cons, flatMap_nil, append_nil] at hdouble
    obtain ⟨b, hb⟩ := exists_mem_of_ne_nil _ hk
    exact (nodup_append.mp hdouble).2.2 b hb b hb rfl
  · intro honce
    rw [← flatMap_filter_nonempty ls, ← flatMap_filter_nonempty ks]
    apply Perm.flatMap_right
    rw [perm_iff_count]
    intro k
    by_cases hk : f k = []
    · rw [count_eq_zero_of_not_mem (by simp [hk]), count_eq_zero_of_not_mem (by simp [hk])]
    · rw [count_filter (by simp [hk]), count_filter (by simp [hk])]
      by_cases hin : k ∈ ks
      · have hpos := one_le_count_iff.mpr ((hmem k).mpr hin)
        have hone := honce k hk
        rw [count_eq_one_of_mem hks hin]
        omega
      · rw [count_eq_zero_of_not_mem hin, count_eq_zero_of_not_mem (mt (hmem k).mp hin)]

end Named

section Order

variable {α : Type u} {l l' : List α}

theorem Perm.insertionSort_eq [LinearOrder α] (h : l.Perm l') :
    l.insertionSort (· ≤ ·) = l'.insertionSort (· ≤ ·) := by
  refine Perm.eq_of_pairwise ?_ (pairwise_insertionSort (· ≤ ·) l)
    (pairwise_insertionSort (· ≤ ·) l') ?_
  · intro a b _ _ hab hba
    exact le_antisymm hab hba
  · exact ((perm_insertionSort _ _).trans h).trans (perm_insertionSort _ _).symm

theorem Perm.min?_eq [Min α] [LE α] [Std.IsLinearOrder α] [Std.LawfulOrderMin α]
    (h : l.Perm l') : l.min? = l'.min? := by
  ext a
  rw [min?_eq_some_iff, min?_eq_some_iff, h.mem_iff]
  simp only [h.mem_iff]

theorem Perm.max?_eq [Max α] [LE α] [Std.IsLinearOrder α] [Std.LawfulOrderMax α]
    (h : l.Perm l') : l.max? = l'.max? := by
  ext a
  rw [max?_eq_some_iff, max?_eq_some_iff, h.mem_iff]
  simp only [h.mem_iff]

end Order

section MapM

variable {α : Type u} {β : Type v} {f : α → Option β} {l : List α} {vs : List β}

theorem mapM_eq_some_iff : l.mapM f = some vs ↔ l.map f = vs.map some := by
  induction l generalizing vs with
  | nil => cases vs <;> simp
  | cons a l ih => cases vs <;> simp [Option.bind_eq_some_iff, ih]

theorem isSome_mapM_iff : (l.mapM f).isSome = true ↔ ∀ a ∈ l, (f a).isSome = true := by
  induction l with
  | nil => simp
  | cons a l ih =>
    cases ha : f a with
    | none => simp [ha]
    | some b =>
      rw [forall_mem_cons, ← ih, mapM_cons, ha]
      cases l.mapM f <;> simp

theorem mapM_congr {g : α → Option β} (h : ∀ a ∈ l, f a = g a) : l.mapM f = l.mapM g := by
  have hmap : l.map f = l.map g := map_congr_left h
  ext vs
  rw [mapM_eq_some_iff, mapM_eq_some_iff, hmap]

/-- Where each value has a counterpart under the other map, the runs correspond. -/
theorem mapM_forall₂ {R : β → β → Prop} {g : α → Option β}
    (h : ∀ a ∈ l, ∀ b, f a = some b → ∃ b', g a = some b' ∧ R b b') (hvs : l.mapM f = some vs) :
    ∃ vs', l.mapM g = some vs' ∧ Forall₂ R vs vs' := by
  induction l generalizing vs with
  | nil =>
    cases hvs
    exact ⟨[], rfl, .nil⟩
  | cons a l ih =>
    simp only [mapM_cons, Option.bind_eq_bind, Option.bind_eq_some_iff] at hvs
    obtain ⟨b, hb, bs, hbs, hcons⟩ := hvs
    cases hcons
    obtain ⟨b', hb', hrel⟩ := h a mem_cons_self b hb
    obtain ⟨bs', hbs', hrels⟩ := ih (fun x hx => h x (mem_cons_of_mem _ hx)) hbs
    exact ⟨b' :: bs', by simp [hb', hbs'], .cons hrel hrels⟩

theorem mapM_inserted {a : α} {b : β} {l' : List α} (h : Inserted a l l') (hb : f a = some b)
    (hvs : l.mapM f = some vs) : ∃ vs', l'.mapM f = some vs' ∧ Inserted b vs vs' := by
  obtain ⟨before, after, rfl, rfl⟩ := h
  rw [mapM_append] at hvs
  simp only [Option.bind_eq_bind, Option.bind_eq_some_iff] at hvs
  obtain ⟨bs, hbs, as, has, happend⟩ := hvs
  cases happend
  exact ⟨bs ++ b :: as, by simp [mapM_append, hbs, hb, has], bs, as, rfl, rfl⟩

end MapM

section SortedMapM

variable {κ : Type u} {β : Type v} {f : κ → Option β} {key : β → κ}

/-- Values that know their key have the list's elements for keys. -/
theorem map_key_of_mapM (hkey : ∀ k v, f k = some v → key v = k) {l : List κ} {vs : List β}
    (h : l.mapM f = some vs) : vs.map key = l := by
  have hmap := mapM_eq_some_iff.mp h
  apply map_injective_iff.mpr (Option.some_injective κ)
  calc (vs.map key).map some = (vs.map some).map (Option.map key) := by rw [map_map, map_map]; rfl
    _ = (l.map f).map (Option.map key) := by rw [hmap]
    _ = l.map some := by
      rw [map_map]
      apply map_congr_left
      intro k hk
      have hin : f k ∈ vs.map some := hmap ▸ mem_map_of_mem hk
      obtain ⟨v, _, hv⟩ := mem_map.mp hin
      simp [← hv, hkey k v hv.symm]

/-- Each value is that of its key. -/
theorem eq_some_of_mem_mapM (hkey : ∀ k v, f k = some v → key v = k) {l : List κ} {vs : List β}
    (h : l.mapM f = some vs) {v : β} (hv : v ∈ vs) : f (key v) = some v := by
  have hmem : some v ∈ l.map f := mapM_eq_some_iff.mp h ▸ mem_map_of_mem hv
  obtain ⟨k, _, hk⟩ := mem_map.mp hmem
  rw [hkey k v hk, hk]

/-- Values that know their key are sorted by sorting the keys first. -/
theorem insertionSort_mapM [LinearOrder κ] (hkey : ∀ k v, f k = some v → key v = k)
    (l : List κ) : (l.mapM f).map (insertionSort fun v w => key v ≤ key w) =
      (l.insertionSort (· ≤ ·)).mapM f := by
  cases hvs : l.mapM f with
  | some vs =>
    rw [Option.map_some, eq_comm, mapM_eq_some_iff, ← map_key_of_mapM hkey hvs,
      ← map_insertionSort (fun v w => key v ≤ key w) (· ≤ ·) key vs (fun _ _ _ _ => Iff.rfl),
      map_map]
    apply map_congr_left
    intro v hv
    exact eq_some_of_mem_mapM hkey hvs ((mem_insertionSort _).mp hv)
  | none =>
    cases hsorted : (l.insertionSort (· ≤ ·)).mapM f with
    | none => rfl
    | some ws =>
      have hall := isSome_mapM_iff.mp (Option.isSome_of_eq_some hsorted)
      have hsome : (l.mapM f).isSome = true :=
        isSome_mapM_iff.mpr fun k hk => hall k ((mem_insertionSort _).mpr hk)
      simp [hvs] at hsome

end SortedMapM

end List
