import Mathlib.Data.List.Perm.Basic
import Mathlib.Data.List.ProdSigma

/-!
# Unordered pairs

The pairs of a list, each of two places of it, the earlier first. A function of a pair that does
not look at which comes first sees the same pairs in any order of the list.
-/

universe u v w

namespace List

variable {α : Type u} {β : Type v} {γ : Type w} {l l' : List α}

/-- The pairs of the list, in the order of two nested loops over its places. -/
def pairs : List α → List (α × α)
  | [] => []
  | a :: rest => rest.map (a, ·) ++ pairs rest

theorem pairs_map (f : α → β) (l : List α) :
    (l.map f).pairs = l.pairs.map fun p => (f p.1, f p.2) := by
  induction l with
  | nil => rfl
  | cons a l ih => simp [pairs, ih, Function.comp_def]

theorem mem_of_mem_pairs {p : α × α} (h : p ∈ l.pairs) : p.1 ∈ l ∧ p.2 ∈ l := by
  induction l with
  | nil => simp [pairs] at h
  | cons a l ih =>
    rw [pairs, mem_append, mem_map] at h
    cases h with
    | inl hhead =>
      obtain ⟨b, hb, rfl⟩ := hhead
      exact ⟨mem_cons_self, mem_cons_of_mem _ hb⟩
    | inr htail => exact ⟨mem_cons_of_mem _ (ih htail).1, mem_cons_of_mem _ (ih htail).2⟩

/-- Two different elements are a pair, one way round. -/
theorem mem_pairs_or {a b : α} (ha : a ∈ l) (hb : b ∈ l) (hne : a ≠ b) :
    (a, b) ∈ l.pairs ∨ (b, a) ∈ l.pairs := by
  induction l with
  | nil => cases ha
  | cons c l ih =>
    simp only [pairs, mem_append, mem_map, Prod.mk.injEq]
    rcases mem_cons.mp ha with rfl | hal
    · have hbl : b ∈ l := (mem_cons.mp hb).resolve_left (Ne.symm hne)
      exact .inl (.inl ⟨b, hbl, rfl, rfl⟩)
    · rcases mem_cons.mp hb with rfl | hbl
      · exact .inr (.inl ⟨a, hal, rfl, rfl⟩)
      · exact (ih hal hbl).imp .inr .inr

/-- The two of a pair differ wherever the elements do. -/
theorem ne_of_mem_pairs {f : α → β} (h : (l.map f).Nodup) {p : α × α} (hp : p ∈ l.pairs) :
    f p.1 ≠ f p.2 := by
  induction l with
  | nil => simp [pairs] at hp
  | cons a l ih =>
    rw [map_cons, nodup_cons] at h
    rw [pairs, mem_append, mem_map] at hp
    rcases hp with ⟨b, hb, rfl⟩ | hp
    · exact fun heq => h.1 (heq ▸ mem_map_of_mem hb)
    · exact ih h.2 hp

/-- The pairs of two lists in one: those of each, and those across. -/
theorem pairs_append (l l' : List α) :
    (l ++ l').pairs.Perm (l.pairs ++ l'.pairs ++ l ×ˢ l') := by
  induction l with
  | nil => simp [pairs]
  | cons a l ih =>
    rw [cons_append, pairs, pairs, map_append, product_cons]
    refine (ih.append_left _).trans ?_
    -- The head's pairs with `l'` go past the pairs of each.
    simp only [append_assoc]
    refine Perm.append_left _ ?_
    refine (perm_append_comm_assoc _ _ _).trans (Perm.append_left _ ?_)
    exact perm_append_comm_assoc _ _ _

/-- A symmetric function of a pair sees the same pairs in any order of the list. -/
theorem Perm.filterMap_pairs {f : α × α → Option β} (hf : ∀ a b, f (a, b) = f (b, a))
    (h : l.Perm l') : (l.pairs.filterMap f).Perm (l'.pairs.filterMap f) := by
  induction h with
  | nil => exact .nil
  | cons a h ih =>
    simp only [pairs, filterMap_append]
    exact ((h.map _).filterMap f).append ih
  | swap a b l =>
    have hcross := perm_append_comm_assoc ((l.map (b, ·)).filterMap f) ((l.map (a, ·)).filterMap f)
      (l.pairs.filterMap f)
    simp only [pairs, map_cons, cons_append, filterMap_append, filterMap_cons, hf b a]
    cases f (a, b) with
    | none => exact hcross
    | some r => exact hcross.cons r
  | trans _ _ ih ih' => exact ih.trans ih'

end List
