import Mathlib.Logic.Relation

/-!
# Walks along a partial function

A linked structure is a partial function `next : α → Option α`, from an element to the one after it.
`trail next n a` is what a loop sees that takes `n` steps at most, and `Reaches next a b` says that
some number of steps leads there. A walk that a further step does not lengthen has seen everything
(`mem_trail_of_reaches`).
-/

universe u

namespace Walk

variable {α : Type u} {next : α → Option α} {a b : α} {n : Nat}

/-- The elements after `a`, `n` of them at most. -/
def trail (next : α → Option α) : Nat → α → List α
  | 0, _ => []
  | n + 1, a =>
    match next a with
    | none => []
    | some b => b :: trail next n b

/-- Where a loop ends that takes `n` steps at most. -/
def last (next : α → Option α) : Nat → α → α
  | 0, a => a
  | n + 1, a =>
    match next a with
    | none => a
    | some b => last next n b

/-- The element that is `k` links on from a start, where there is one. -/
def nth (next : α → Option α) : Nat → Option α → Option α
  | 0, start => start
  | k + 1, start => nth next k (start.bind next)

@[simp] theorem nth_none (k : Nat) : nth next k none = none := by
  induction k with
  | zero => rfl
  | succ k ih => exact ih

/-- Elements that are linked among themselves only are never left. -/
theorem nth_mem {s : List α} (hclosed : ∀ a ∈ s, ∀ b, next a = some b → b ∈ s) (ha : a ∈ s)
    {k : Nat} (h : nth next k (some a) = some b) : b ∈ s := by
  induction k generalizing a with
  | zero => exact Option.some.inj h ▸ ha
  | succ k ih =>
    rw [nth, Option.bind_some] at h
    cases hnext : next a with
    | none =>
      rw [hnext, nth_none] at h
      cases h
    | some c =>
      rw [hnext] at h
      exact ih (hclosed a ha c hnext) h

/-- Some number of steps, or none, leads from `a` to `b`. -/
def Reaches (next : α → Option α) : α → α → Prop :=
  Relation.ReflTransGen fun a b => next a = some b

theorem trail_none (h : next a = none) : trail next n a = [] := by
  cases n with
  | zero => rfl
  | succ n => simp only [trail, h]

theorem trail_some (h : next a = some b) : trail next (n + 1) a = b :: trail next n b := by
  simp only [trail, h]

theorem last_none (h : next a = none) : last next n a = a := by
  cases n with
  | zero => rfl
  | succ n => simp only [last, h]

theorem last_some (h : next a = some b) : last next (n + 1) a = last next n b := by
  simp only [last, h]

/-- `xs` comes after `a`, link by link, and nothing comes after its end. -/
def Path (next : α → Option α) : α → List α → Prop
  | a, [] => next a = none
  | a, b :: xs => next a = some b ∧ Path next b xs

/-- A walk that may take enough steps sees the whole path. -/
theorem Path.trail_eq {xs : List α} (h : Path next a xs) (hn : xs.length ≤ n) :
    trail next n a = xs := by
  induction xs generalizing a n with
  | nil => exact trail_none h
  | cons b xs ih =>
    obtain ⟨k, rfl⟩ := Nat.exists_eq_add_of_lt hn
    rw [show xs.length + k + 1 = (xs.length + k) + 1 from rfl, trail_some h.1,
      ih h.2 (Nat.le_add_right _ _)]

/-- And ends at its end. -/
theorem Path.last_eq {xs : List α} (h : Path next a xs) (hn : xs.length ≤ n) :
    last next n a = xs.getLastD a := by
  induction xs generalizing a n with
  | nil => exact last_none h
  | cons b xs ih =>
    obtain ⟨k, rfl⟩ := Nat.exists_eq_add_of_lt hn
    rw [show xs.length + k + 1 = (xs.length + k) + 1 from rfl, last_some h.1,
      ih h.2 (Nat.le_add_right _ _), List.getLastD_cons]

/-- What every step keeps, a walk keeps. -/
theorem last_invariant {P : α → Prop} (hstep : ∀ a b, next a = some b → P b → P a)
    (h : P (last next n a)) : P a := by
  induction n generalizing a with
  | zero => exact h
  | succ n ih =>
    cases hnext : next a with
    | none => rwa [last_none hnext] at h
    | some b =>
      rw [last_some hnext] at h
      exact hstep a b hnext (ih h)

theorem Reaches.refl (a : α) : Reaches next a a := Relation.ReflTransGen.refl

theorem Reaches.cons {c : α} (h : next a = some b) (hbc : Reaches next b c) : Reaches next a c :=
  Relation.ReflTransGen.head h hbc

theorem reaches_iff {c : α} : Reaches next a c ↔ c = a ∨ ∃ b, next a = some b ∧ Reaches next b c := by
  constructor
  · intro h
    exact (Relation.ReflTransGen.cases_head h).imp Eq.symm id
  · rintro (rfl | ⟨b, hb, hbc⟩)
    · exact Reaches.refl _
    · exact hbc.cons hb

/-- What a walk sees is reached. -/
theorem reaches_of_mem_trail (h : b ∈ trail next n a) : Reaches next a b := by
  induction n generalizing a with
  | zero => cases h
  | succ n ih =>
    cases hnext : next a with
    | none =>
      rw [trail_none hnext] at h
      cases h
    | some c =>
      rw [trail_some hnext] at h
      rcases List.mem_cons.mp h with rfl | h
      · exact (Reaches.refl b).cons hnext
      · exact (ih h).cons hnext

/-- A walk that has come to an end has seen what is reached. -/
theorem mem_trail_of_reaches (hend : (trail next (n + 1) a).length ≤ n) (h : Reaches next a b) :
    b ∈ a :: trail next n a := by
  induction n generalizing a with
  | zero =>
    rcases reaches_iff.mp h with rfl | ⟨c, hnext, -⟩
    · exact List.mem_cons_self
    · rw [trail_some hnext, List.length_cons] at hend
      omega
  | succ n ih =>
    rcases reaches_iff.mp h with rfl | ⟨c, hnext, hcb⟩
    · exact List.mem_cons_self
    · rw [trail_some hnext, List.length_cons] at hend
      rw [trail_some hnext]
      exact List.mem_cons_of_mem _ (ih (by omega) hcb)

end Walk
