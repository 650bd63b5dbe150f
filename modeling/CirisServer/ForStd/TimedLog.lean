import Mathlib.Data.Int.Notation
import Mathlib.Data.List.TakeWhile

/-!
# A log of the last while

Entries have an instant and are appended as they are recorded. What is older than the window leaves
from the front, and so do the oldest where more than `cap` are there; the instant of the latter is
noted. A clock that goes back puts an entry behind a younger one, where it stays for longer: the
rules below hold with any bound `d` on how far the instants go back, and are exact for `d = 0`.

- `Tracks`: what the log has to do with all that was recorded
- `Tracks.append`, `Tracks.prune`: the two operations keep it
- `Tracks.reading`: what a log that was just pruned holds of the window
-/

universe u

namespace TimedLog

variable {α : Type u} (time : α → Int)

/-- What is left of `held` at `now`, and when entries of the window last left it. -/
def prune (window : Int) (cap : Nat) (now : Int) (held : List α) (capped : Option Int) :
    List α × Option Int :=
  let recent := held.dropWhile (time · < now - window)
  if recent.length > cap then (recent.drop (recent.length - cap), some now) else (recent, capped)

/-- Of all that was recorded, with the instants in `seen`, the log holds the end: what is missing
    was too old at some instant, or left when the log was full. -/
structure Tracks (window : Int) (cap : Nat) (d : Int) (all : List α) (seen : List Int)
    (held : List α) (capped : Option Int) : Prop where
  split : ∃ gone, all = gone ++ held ∧ ∀ e ∈ gone,
    (∃ t ∈ seen, time e < t - window) ∨ ∃ t, capped = some t ∧ time e ≤ t + d
  crowded : ∀ t, capped = some t → cap < all.countP (t - window - d ≤ time ·)
  recorded : ∀ e ∈ all, time e ∈ seen
  steady : all.Pairwise fun a b => time a ≤ time b + d

variable {time} {window d now : Int} {cap : Nat} {all held : List α} {seen : List Int}
  {capped : Option Int}

theorem tracks_nil : Tracks time window cap d [] [] [] none where
  split := ⟨[], rfl, fun _ h => absurd h List.not_mem_nil⟩
  crowded := fun _ h => by cases h
  recorded := fun _ h => absurd h List.not_mem_nil
  steady := List.Pairwise.nil

/-- What is not expired is at most `d` older than the floor. -/
theorem le_of_mem_dropWhile (floor : Int) (hd : 0 ≤ d)
    (h : held.Pairwise fun a b => time a ≤ time b + d) :
    ∀ e ∈ held.dropWhile (time · < floor), floor - d ≤ time e := by
  induction held with
  | nil => exact fun e he => absurd he List.not_mem_nil
  | cons a held ih =>
    rw [List.pairwise_cons] at h
    intro e he
    by_cases ha : time a < floor
    · rw [List.dropWhile_cons_of_pos (by simpa using ha)] at he
      exact ih h.2 e he
    · -- the front is young enough, and nothing behind it is much older
      rw [List.dropWhile_cons_of_neg (by simpa using ha)] at he
      cases List.mem_cons.mp he with
      | inl heq =>
        subst heq
        omega
      | inr htail =>
        have hle := h.1 e htail
        omega

theorem Tracks.suffix (h : Tracks time window cap d all seen held capped) : held <:+ all := by
  obtain ⟨gone, hall, -⟩ := h.split
  exact ⟨gone, hall.symm⟩

/-- The instants are a set of instants. -/
theorem Tracks.of_subset (h : Tracks time window cap d all seen held capped) {seen' : List Int}
    (hsub : ∀ t ∈ seen, t ∈ seen') : Tracks time window cap d all seen' held capped := by
  obtain ⟨gone, hall, hgone⟩ := h.split
  refine ⟨⟨gone, hall, fun e he => ?_⟩, h.crowded, fun e he => hsub _ (h.recorded e he), h.steady⟩
  cases hgone e he with
  | inl hage =>
    obtain ⟨t, ht, hlt⟩ := hage
    exact Or.inl ⟨t, hsub t ht, hlt⟩
  | inr hcap => exact Or.inr hcap

/-- An entry joins, and no instant so far is more than `d` after it. -/
theorem Tracks.append (h : Tracks time window cap d all seen held capped) {e : α}
    (hnow : ∀ t ∈ seen, t ≤ time e + d) :
    Tracks time window cap d (all ++ [e]) (seen ++ [time e]) (held ++ [e]) capped := by
  obtain ⟨gone, hall, hgone⟩ := h.split
  refine ⟨⟨gone, by rw [hall, List.append_assoc], ?_⟩, ?_, ?_, ?_⟩
  · intro x hx
    cases hgone x hx with
    | inl hold =>
      obtain ⟨t, ht, hlt⟩ := hold
      exact Or.inl ⟨t, List.mem_append_left _ ht, hlt⟩
    | inr hcap => exact Or.inr hcap
  · intro t ht
    have hcount := h.crowded t ht
    rw [List.countP_append]
    omega
  · intro x hx
    cases List.mem_append.mp hx with
    | inl hold => exact List.mem_append_left _ (h.recorded x hold)
    | inr hnew =>
      rw [List.mem_singleton.mp hnew]
      exact List.mem_append_right _ List.mem_cons_self
  · rw [List.pairwise_append]
    refine ⟨h.steady, List.pairwise_singleton _ _, fun a ha b hb => ?_⟩
    rw [List.mem_singleton.mp hb]
    exact hnow _ (h.recorded a ha)

theorem length_prune_le : (prune time window cap now held capped).1.length ≤ cap := by
  unfold prune
  dsimp only
  split
  · rw [List.length_drop]
    omega
  next hfits => exact Nat.le_of_not_gt hfits

/-- The log is pruned at an instant that none so far is more than `d` after. -/
theorem Tracks.prune (h : Tracks time window cap d all seen held capped) (now : Int) (hd : 0 ≤ d)
    (hnow : ∀ t ∈ seen, t ≤ now + d) :
    Tracks time window cap d all (seen ++ [now]) (prune time window cap now held capped).1
      (prune time window cap now held capped).2 := by
  obtain ⟨gone, hall, hgone⟩ := h.split
  let recent := held.dropWhile (time · < now - window)
  let expired := held.takeWhile (time · < now - window)
  have hheld : expired ++ recent = held := List.takeWhile_append_dropWhile
  have hexpired : ∀ e ∈ expired, time e < now - window := fun e he => by
    simpa using List.mem_takeWhile_imp he
  have hrecorded : ∀ e ∈ all, time e ∈ seen ++ [now] := fun e he =>
    List.mem_append_left _ (h.recorded e he)
  -- no entry is later than `now` by more than `d`
  have hlate : ∀ e ∈ all, time e ≤ now + d := fun e he => hnow _ (h.recorded e he)
  have hold : ∀ e ∈ gone ++ expired,
      (∃ t ∈ seen ++ [now], time e < t - window) ∨ ∃ t, capped = some t ∧ time e ≤ t + d := by
    intro e he
    cases List.mem_append.mp he with
    | inl hg =>
      cases hgone e hg with
      | inl hage =>
        obtain ⟨t, ht, hlt⟩ := hage
        exact Or.inl ⟨t, List.mem_append_left _ ht, hlt⟩
      | inr hcap => exact Or.inr hcap
    | inr hx => exact Or.inl ⟨now, by simp, hexpired e hx⟩
  unfold TimedLog.prune
  dsimp only
  split
  next hfull =>
    let n := recent.length - cap
    have hsplit : all = (gone ++ expired ++ recent.take n) ++ recent.drop n := by
      rw [List.append_assoc, List.take_append_drop, List.append_assoc, hheld, hall]
    have hwindow := le_of_mem_dropWhile (now - window) hd
      (h.steady.sublist h.suffix.sublist)
    refine ⟨⟨_, hsplit, ?_⟩, ?_, hrecorded, h.steady⟩
    · intro e he
      have hmem : e ∈ all := by
        rw [hsplit]
        exact List.mem_append_left _ he
      exact Or.inr ⟨now, rfl, hlate e hmem⟩
    · intro t ht
      cases ht
      -- all that is left after the expiry is of the window
      have hcount : recent.countP (now - window - d ≤ time ·) = recent.length :=
        List.countP_eq_length.mpr fun e he => by simpa using hwindow e he
      have hsub : recent.Sublist all :=
        (List.dropWhile_sublist _).trans h.suffix.sublist
      have hle := hsub.countP_le (p := fun e => decide (now - window - d ≤ time e))
      have hgt : cap < recent.length := hfull
      omega
  next hfits =>
    exact ⟨⟨gone ++ expired, by rw [List.append_assoc, hheld, hall], hold⟩, h.crowded, hrecorded,
      h.steady⟩

/-- **A reading.** What the log holds once it is pruned is of the window, and what it does not hold
    is not, unless entries left within the window because it was full. -/
theorem Tracks.reading (h : Tracks time window cap d all seen held capped) (now : Int)
    (hd : 0 ≤ d)
    (hnow : ∀ t ∈ seen, t ≤ now + d) :
    (∀ e ∈ (TimedLog.prune time window cap now held capped).1, now - window - d ≤ time e) ∧
      ((∀ t, (TimedLog.prune time window cap now held capped).2 = some t → t < now - window) →
        ∃ gone, all = gone ++ (TimedLog.prune time window cap now held capped).1 ∧
          ∀ e ∈ gone, time e < now - window + d) := by
  have hwindow := le_of_mem_dropWhile (now - window) hd
    (h.steady.sublist h.suffix.sublist)
  constructor
  · intro e he
    unfold TimedLog.prune at he
    dsimp only at he
    split at he
    · exact hwindow e (List.mem_of_mem_drop he)
    · exact hwindow e he
  · intro hcapped
    obtain ⟨gone, hall, hgone⟩ := (h.prune now hd hnow).split
    refine ⟨gone, hall, fun e he => ?_⟩
    cases hgone e he with
    | inl hage =>
      obtain ⟨t, ht, hlt⟩ := hage
      cases List.mem_append.mp ht with
      | inl hseen =>
        have hle := hnow t hseen
        omega
      | inr heq =>
        rw [List.mem_singleton.mp heq] at hlt
        omega
    | inr hcap =>
      obtain ⟨t, ht, hle⟩ := hcap
      have hlt := hcapped t ht
      omega

end TimedLog
