import Mathlib.Data.List.Induction
import Mathlib.Data.List.Nodup
import Mathlib.Order.Lattice

/-!
# A slot that keeps the newest entry

Entries come with a time, in any order. A slot takes an entry that is at least as new as the one
it holds, so among the newest entries it ends with the one that came last.

Key results:
- `Newest.slot_newest`: what the slot holds is one of the newest entries
- `Newest.slot_append_newest`: a newest entry that comes last is the one that is held
- `Newest.slot_map_eq`: what is shown of the held entry, in whatever order the entries came
- `Newest.Latest.unique`: the newest of the entries that meet a condition
-/

universe u v

namespace Newest

variable {τ : Type u} {β : Type v} [LinearOrder τ]

/-- `e` replaces an entry that is not newer. -/
def write (slot : Option (τ × β)) (e : τ × β) : Option (τ × β) :=
  if slot.all fun held => held.1 ≤ e.1 then some e else slot

/-- The slot after the entries, in the order they came. -/
def slot (es : List (τ × β)) : Option (τ × β) := es.foldl write none

/-- No entry is newer. -/
def IsNewest (e : τ × β) (es : List (τ × β)) : Prop := e ∈ es ∧ ∀ e' ∈ es, e'.1 ≤ e.1

variable {e held : τ × β} {es es' : List (τ × β)} {b : β}

theorem write_none : write none e = some e := if_pos rfl

theorem write_of_le (h : held.1 ≤ e.1) : write (some held) e = some e :=
  if_pos (decide_eq_true h)

theorem write_of_lt (h : e.1 < held.1) : write (some held) e = some held :=
  if_neg fun hle => absurd (of_decide_eq_true hle) (not_le_of_gt h)

theorem slot_append_singleton (es : List (τ × β)) (e : τ × β) :
    slot (es ++ [e]) = write (slot es) e := by
  rw [slot, List.foldl_append, List.foldl_cons, List.foldl_nil]
  rfl

/-- A slot is empty before the first entry only, and then it holds a newest one. -/
theorem slot_cases (es : List (τ × β)) :
    (es = [] ∧ slot es = none) ∨ ∃ e, slot es = some e ∧ IsNewest e es := by
  induction es using List.reverseRecOn with
  | nil => exact Or.inl ⟨rfl, rfl⟩
  | append_singleton es e ih =>
    right
    rw [slot_append_singleton]
    rcases ih with ⟨rfl, hslot⟩ | ⟨held, hslot, hmem, hnewest⟩
    · rw [hslot]
      refine ⟨e, write_none, List.mem_singleton.mpr rfl, fun e' he' => ?_⟩
      rw [List.mem_singleton.mp he']
    · rw [hslot]
      rcases le_or_gt held.1 e.1 with hle | hlt
      · refine ⟨e, write_of_le hle, List.mem_append_right _ (List.mem_singleton.mpr rfl), ?_⟩
        intro e' he'
        rcases List.mem_append.mp he' with hold | hnew
        · exact (hnewest e' hold).trans hle
        · rw [List.mem_singleton.mp hnew]
      · refine ⟨held, write_of_lt hlt, List.mem_append_left _ hmem, fun e' he' => ?_⟩
        rcases List.mem_append.mp he' with hold | hnew
        · exact hnewest e' hold
        · rw [List.mem_singleton.mp hnew]
          exact hlt.le

theorem slot_newest (h : slot es = some e) : IsNewest e es := by
  rcases slot_cases es with ⟨-, hnone⟩ | ⟨e', hslot, hnewest⟩
  · rw [hnone] at h
    cases h
  · rw [hslot] at h
    exact Option.some.inj h ▸ hnewest

theorem slot_append_newest (h : ∀ e' ∈ es, e'.1 ≤ e.1) : slot (es ++ [e]) = some e := by
  rw [slot_append_singleton]
  rcases slot_cases es with ⟨-, hnone⟩ | ⟨held, hslot, hmem, -⟩
  · rw [hnone, write_none]
  · rw [hslot, write_of_le (h held hmem)]

/-- What an entry that came before all the others changes. -/
theorem slot_cons (e : τ × β) (es : List (τ × β)) :
    slot (e :: es) = (slot es).elim (some e) fun held => some (if e.1 ≤ held.1 then held else e) := by
  induction es using List.reverseRecOn with
  | nil => exact write_none
  | append_singleton es x ih =>
    rw [← List.cons_append, slot_append_singleton, slot_append_singleton, ih]
    cases hslot : slot es with
    | none =>
      rw [Option.elim_none, write_none, Option.elim_some]
      rcases le_or_gt e.1 x.1 with hle | hlt
      · rw [write_of_le hle, if_pos hle]
      · rw [write_of_lt hlt, if_neg (not_le_of_gt hlt)]
    | some held =>
      rw [Option.elim_some]
      rcases le_or_gt held.1 x.1 with hle | hlt
      · -- the last entry replaces what is held, and then only it is compared with the first
        rw [write_of_le hle, Option.elim_some]
        by_cases hfirst : e.1 ≤ held.1
        · rw [if_pos hfirst, write_of_le hle, if_pos (hfirst.trans hle)]
        · rw [if_neg hfirst]
          rcases le_or_gt e.1 x.1 with hex | hex
          · rw [write_of_le hex, if_pos hex]
          · rw [write_of_lt hex, if_neg (not_le_of_gt hex)]
      · rw [write_of_lt hlt, Option.elim_some]
        by_cases hfirst : e.1 ≤ held.1
        · rw [if_pos hfirst, write_of_lt hlt]
        · rw [if_neg hfirst, write_of_lt (hlt.trans (lt_of_not_ge hfirst))]

/-- The entry that is held is one of those that came last, when one of them is a newest one. -/
theorem slot_mem_of_newest (h : IsNewest e (es ++ es')) (he : e ∈ es') :
    ∃ held ∈ es', slot (es ++ es') = some held := by
  induction es' using List.reverseRecOn with
  | nil => cases he
  | append_singleton es' x ih =>
    rw [← List.append_assoc, slot_append_singleton]
    have hlast : x ∈ es' ++ [x] := List.mem_append_right _ (List.mem_singleton.mpr rfl)
    rcases slot_cases (es ++ es') with ⟨-, hnone⟩ | ⟨held, hslot, hmem, -⟩
    · rw [hnone, write_none]
      exact ⟨x, hlast, rfl⟩
    · rcases le_or_gt held.1 x.1 with hle | hlt
      · rw [hslot, write_of_le hle]
        exact ⟨x, hlast, rfl⟩
      · -- `x` is older than what is held, so the newest entry came before it
        have hheld : held ∈ es ++ (es' ++ [x]) := by
          rw [← List.append_assoc]
          exact List.mem_append_left _ hmem
        have hne : e ≠ x := fun heq => absurd (heq ▸ h.2 held hheld) (not_le_of_gt hlt)
        have he' : e ∈ es' :=
          (List.mem_append.mp he).resolve_right fun hx => hne (List.mem_singleton.mp hx)
        have hnewest : IsNewest e (es ++ es') := by
          refine ⟨List.mem_append_right _ he', fun e' hmem' => h.2 e' ?_⟩
          rw [← List.append_assoc]
          exact List.mem_append_left _ hmem'
        obtain ⟨held', hmem', hslot'⟩ := ih hnewest he'
        rw [hslot'] at hslot
        obtain rfl := Option.some.inj hslot
        rw [hslot', write_of_lt hlt]
        exact ⟨held', List.mem_append_left _ hmem', rfl⟩

/-- Two slots that were given the same entries show the same, when the newest entries do. -/
theorem slot_map_eq {γ : Type*} {v : τ × β → γ} (hmem : ∀ e, e ∈ es ↔ e ∈ es')
    (hagree : ∀ e e', IsNewest e es → IsNewest e' es → v e = v e') :
    (slot es).map v = (slot es').map v := by
  rcases slot_cases es with ⟨rfl, hslot⟩ | ⟨e, hslot, hnewest⟩
  · have hempty : es' = [] := by
      apply List.eq_nil_iff_forall_not_mem.mpr
      intro e he
      exact List.not_mem_nil ((hmem e).mpr he)
    rw [hempty]
  · rcases slot_cases es' with ⟨rfl, -⟩ | ⟨e', hslot', hmem', hnewest'⟩
    · exact absurd ((hmem e).mp hnewest.1) List.not_mem_nil
    · have hsame : IsNewest e' es := by
        refine ⟨(hmem e').mpr hmem', ?_⟩
        intro x hx
        exact hnewest' x ((hmem x).mp hx)
      rw [hslot, hslot', Option.map_some, Option.map_some, hagree e e' hnewest hsame]

theorem IsNewest.perm (h : IsNewest e es) (hperm : es.Perm es') : IsNewest e es' :=
  ⟨hperm.mem_iff.mp h.1, fun e' he' => h.2 e' (hperm.mem_iff.mpr he')⟩

theorem exists_newest (h : e ∈ es) : ∃ e', IsNewest e' es ∧ e.1 ≤ e'.1 := by
  rcases slot_cases es with ⟨rfl, -⟩ | ⟨e', -, hnewest⟩
  · cases h
  · exact ⟨e', hnewest, hnewest.2 e h⟩

/-! ## The newest of some -/

section Some

variable {α : Type v} {time : α → τ} {P : α → Prop} {xs ys : List α} {held held' : Option α}
  {x : α}

/-- `held` is a newest one of those of `xs` that meet `P`, if there is one. -/
def Latest (time : α → τ) (P : α → Prop) (xs : List α) : Option α → Prop
  | none => ∀ x ∈ xs, ¬ P x
  | some x => x ∈ xs ∧ P x ∧ ∀ y ∈ xs, P y → time y ≤ time x

instance [DecidableEq α] [DecidablePred P] : (held : Option α) → Decidable (Latest time P xs held)
  | none => inferInstanceAs (Decidable (∀ x ∈ xs, ¬ P x))
  | some x => inferInstanceAs (Decidable (x ∈ xs ∧ P x ∧ ∀ y ∈ xs, P y → time y ≤ time x))

theorem Latest.nil : Latest time P [] none := fun _ hx => absurd hx List.not_mem_nil

theorem Latest.skip (h : Latest time P xs held) (hx : ¬ P x) : Latest time P (xs ++ [x]) held := by
  have hstill : ∀ y ∈ xs ++ [x], P y → y ∈ xs := by
    intro y hy hP
    rcases List.mem_append.mp hy with hy | hy
    · exact hy
    · exact absurd (List.mem_singleton.mp hy ▸ hP) hx
  cases held with
  | none => exact fun y hy hP => h y (hstill y hy hP) hP
  | some z =>
    exact ⟨List.mem_append_left _ h.1, h.2.1, fun y hy hP => h.2.2 y (hstill y hy hP) hP⟩

theorem Latest.take (h : Latest time P xs held) (hx : P x)
    (hnew : ∀ y ∈ held, time y ≤ time x) : Latest time P (xs ++ [x]) (some x) := by
  refine ⟨List.mem_append_right _ (List.mem_singleton.mpr rfl), hx, fun y hy hP => ?_⟩
  rcases List.mem_append.mp hy with hy | hy
  · cases held with
    | none => exact absurd hP (h y hy)
    | some z => exact (h.2.2 y hy hP).trans (hnew z rfl)
  · rw [List.mem_singleton.mp hy]

theorem Latest.keep {z : α} (h : Latest time P xs (some z)) (hold : time x ≤ time z) :
    Latest time P (xs ++ [x]) (some z) := by
  refine ⟨List.mem_append_left _ h.1, h.2.1, fun y hy hP => ?_⟩
  rcases List.mem_append.mp hy with hy | hy
  · exact h.2.2 y hy hP
  · exact List.mem_singleton.mp hy ▸ hold

/-- No two of those that meet `P` came at one time. -/
def Untied (time : α → τ) (P : α → Prop) (xs : List α) : Prop :=
  ∀ x ∈ xs, ∀ y ∈ xs, P x → P y → time x = time y → x = y

omit [LinearOrder τ] in
theorem Untied.of_nodup (h : (xs.map time).Nodup) : Untied time P xs := fun _ hx _ hy _ _ htime =>
  List.inj_on_of_nodup_map h hx hy htime

/-- Where there is only one newest, it does not matter in which order they came, nor what else did. -/
theorem Latest.unique (h : Latest time P xs held) (h' : Latest time P ys held')
    (hsame : ∀ x, P x → (x ∈ xs ↔ x ∈ ys)) (huntied : Untied time P xs) : held = held' := by
  cases held with
  | none =>
    cases held' with
    | none => rfl
    | some y => exact absurd h'.2.1 (h y ((hsame y h'.2.1).mpr h'.1))
  | some x =>
    cases held' with
    | none => exact absurd h.2.1 (h' x ((hsame x h.2.1).mp h.1))
    | some y =>
      have hy := (hsame y h'.2.1).mpr h'.1
      have hx := (hsame x h.2.1).mp h.1
      have htime := le_antisymm (h'.2.2 x hx h.2.1) (h.2.2 y hy h'.2.1)
      rw [huntied x h.1 y hy h.2.1 h'.2.1 htime]

end Some

end Newest
