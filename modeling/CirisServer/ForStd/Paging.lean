/-!
# A walk over groups, a page at a time

Groups of items are read one after the other. A page has a budget that all its groups share: a
group is asked for what is left of it, and answers with a part and a cursor, or with all that it
has left. The page ends inside a group that has more, or in front of the group for which nothing
is left, and the next page starts there.

Key results:
- `visit_items`: a page and what is left after it
- `exists_plan`: the walk comes to an end
- `plan_items`: its pages hold every item once, in order
-/

universe u v w

namespace Paging

variable {γ : Type u} {κ : Type v} {α : Type w}

/-- A part of a group, and where it goes on. -/
structure Page (κ : Type v) (α : Type w) where
  items : List α
  resume : Option κ

/-- The groups of one page with their parts, and where the next page starts. -/
def visit (get : γ → Nat → Option κ → Page κ α) (limit : Nat) :
    List γ → Option κ → Nat → List (γ × List α) × Option (List γ × Option κ)
  | [], _, _ => ([], none)
  | g :: gs, place, read =>
    if limit - read = 0 then ([], some (g :: gs, none))
    else
      let page := get g (limit - read) place
      match page.resume with
      | some c => ([(g, page.items)], some (g :: gs, some c))
      | none =>
        let rest := visit get limit gs none (read + page.items.length)
        ((g, page.items) :: rest.1, rest.2)

/-- The pages of a walk, `n` of them at most. -/
def plan (get : γ → Nat → Option κ → Page κ α) (limit : Nat) :
    Nat → List γ → Option κ → Option (List (List (γ × List α)))
  | 0, _, _ => none
  | n + 1, gs, place =>
    match visit get limit gs place 0 with
    | (vs, none) => some [vs]
    | (vs, some (gs, place)) => (plan get limit n gs place).map (vs :: ·)

/-- A group answers with at most what it is asked for, and its cursor goes on right behind the
    last item. `rest` is what is left from a place. -/
structure Resumes (get : γ → Nat → Option κ → Page κ α) (items : γ → List α)
    (rest : γ → Option κ → List α) : Prop where
  start : ∀ g, rest g none = items g
  bounded : ∀ g asked place, (get g asked place).items.length ≤ asked
  ended : ∀ g asked place, 0 < asked → (get g asked place).resume = none →
    rest g place = (get g asked place).items
  goes_on : ∀ g asked place c, 0 < asked → (get g asked place).resume = some c →
    (get g asked place).items ≠ [] ∧ rest g place = (get g asked place).items ++ rest g c

/-- The items of the parts, each with its group. -/
def flat (vs : List (γ × List α)) : List (γ × α) := vs.flatMap fun v => v.2.map (v.1, ·)

/-- What is left from a place in the first of the groups. -/
def remaining (items : γ → List α) (rest : γ → Option κ → List α) :
    List γ → Option κ → List (γ × α)
  | [], _ => []
  | g :: gs, place => (rest g place).map (g, ·) ++ gs.flatMap fun g => (items g).map (g, ·)

variable {get : γ → Nat → Option κ → Page κ α} {limit : Nat} {items : γ → List α}
variable {rest : γ → Option κ → List α} {gs : List γ} {place : Option κ} {read n : Nat}

@[simp] theorem flat_nil : flat ([] : List (γ × List α)) = [] := rfl

@[simp] theorem flat_cons (v : γ × List α) (vs : List (γ × List α)) :
    flat (v :: vs) = v.2.map (v.1, ·) ++ flat vs := rfl

theorem flat_append (vs vs' : List (γ × List α)) : flat (vs ++ vs') = flat vs ++ flat vs' :=
  List.flatMap_append

theorem remaining_start (h : Resumes get items rest) (gs : List γ) :
    remaining items rest gs none = gs.flatMap fun g => (items g).map (g, ·) := by
  cases gs with
  | nil => rfl
  | cons g gs => rw [remaining, h.start, List.flatMap_cons]

/-- What a group answers is part of what is left of it. -/
theorem Resumes.items_sublist (h : Resumes get items rest) {g : γ} {asked : Nat} (hasked : 0 < asked)
    (place : Option κ) : (get g asked place).items.Sublist (rest g place) := by
  cases hresume : (get g asked place).resume with
  | none =>
    exact (h.ended g asked place hasked hresume) ▸ List.Sublist.refl _
  | some c =>
    rw [(h.goes_on g asked place c hasked hresume).2]
    exact List.sublist_append_left _ _

/-- A group that answers from a list, with the number of items that are done for a cursor. -/
def byOffset (items : γ → List α) (g : γ) (asked : Nat) (place : Option Nat) : Page Nat α :=
  ⟨((items g).drop (place.getD 0)).take asked,
    if place.getD 0 + asked < (items g).length then some (place.getD 0 + asked) else none⟩

theorem resumes_byOffset (items : γ → List α) :
    Resumes (byOffset items) items fun g place => (items g).drop (place.getD 0) where
  start _ := rfl
  bounded _ asked _ := List.length_take_le asked _
  ended g asked place _ hresume := by
    have hlast : (items g).length ≤ place.getD 0 + asked := by
      simpa [byOffset] using hresume
    exact (List.take_of_length_le (by rw [List.length_drop]; omega)).symm
  goes_on g asked place c hasked hresume := by
    obtain ⟨hmore, rfl⟩ : place.getD 0 + asked < (items g).length ∧ place.getD 0 + asked = c := by
      simpa [byOffset] using hresume
    constructor
    · intro hnil
      have hlength := congrArg List.length hnil
      simp only [byOffset, List.length_take, List.length_drop, List.length_nil] at hlength
      omega
    · show _ = _ ++ (items g).drop (place.getD 0 + asked)
      rw [← List.drop_drop]
      exact (List.take_append_drop asked _).symm

/-! ## One page -/

/-- **Inversion.** The budget is spent, or the group has more, or it has answered with all. -/
theorem visit_cons (get : γ → Nat → Option κ → Page κ α) (limit : Nat) (g : γ) (gs : List γ)
    (place : Option κ) (read : Nat) :
    (limit ≤ read ∧ visit get limit (g :: gs) place read = ([], some (g :: gs, none))) ∨
    (read < limit ∧ ∃ c, (get g (limit - read) place).resume = some c ∧
      visit get limit (g :: gs) place read =
        ([(g, (get g (limit - read) place).items)], some (g :: gs, some c))) ∨
    (read < limit ∧ (get g (limit - read) place).resume = none ∧
      visit get limit (g :: gs) place read =
        ((g, (get g (limit - read) place).items) ::
            (visit get limit gs none (read + (get g (limit - read) place).items.length)).1,
          (visit get limit gs none (read + (get g (limit - read) place).items.length)).2)) := by
  by_cases hspent : limit ≤ read
  · exact Or.inl ⟨hspent, if_pos (Nat.sub_eq_zero_of_le hspent)⟩
  · have hopen : ¬ limit - read = 0 := by omega
    right
    rw [visit, if_neg hopen]
    cases hresume : (get g (limit - read) place).resume with
    | some c => exact Or.inl ⟨by omega, c, rfl, by simp only [hresume]⟩
    | none => exact Or.inr ⟨by omega, rfl, by simp only [hresume]⟩

/-- What is left when the page is read. -/
def left (items : γ → List α) (rest : γ → Option κ → List α) :
    Option (List γ × Option κ) → List (γ × α)
  | none => []
  | some (gs, place) => remaining items rest gs place

/-- A page holds what is next, and the next page starts right behind it. -/
theorem visit_items (h : Resumes get items rest) (limit : Nat) (gs : List γ)
    (place : Option κ) (read : Nat)
    (hplace : limit ≤ read → place = none) :
    flat (visit get limit gs place read).1 ++ left items rest (visit get limit gs place read).2 =
      remaining items rest gs place := by
  induction gs generalizing place read with
  | nil => rfl
  | cons g gs ih =>
    rcases visit_cons get limit g gs place read with ⟨hspent, heq⟩ | ⟨hopen, c, hresume, heq⟩ |
      ⟨hopen, hresume, heq⟩
    · rw [heq, hplace hspent]
      rfl
    · rw [heq]
      simp only [flat_cons, flat_nil, left, remaining]
      rw [(h.goes_on g _ place c (Nat.sub_pos_of_lt hopen) hresume).2, List.map_append]
      simp only [List.append_nil, List.append_assoc]
    · rw [heq]
      simp only [flat_cons, remaining]
      rw [List.append_assoc, ih none _ (fun _ => rfl),
        h.ended g _ place (Nat.sub_pos_of_lt hopen) hresume, remaining_start h]

/-- A page holds no more than its budget. -/
theorem length_visit (h : Resumes get items rest) (limit : Nat) (gs : List γ)
    (place : Option κ) (read : Nat) (hread : read ≤ limit) :
    read + (flat (visit get limit gs place read).1).length ≤ limit := by
  induction gs generalizing place read with
  | nil => exact hread
  | cons g gs ih =>
    have hbounded := h.bounded g (limit - read) place
    rcases visit_cons get limit g gs place read with ⟨-, heq⟩ | ⟨-, c, -, heq⟩ | ⟨hopen, -, heq⟩
    · rw [heq]
      exact hread
    · rw [heq]
      simp only [flat_cons, flat_nil, List.append_nil, List.length_map]
      omega
    · rw [heq]
      simp only [flat_cons, List.length_append, List.length_map]
      have hrest := ih none (read + (get g (limit - read) place).items.length) (by omega)
      omega

/-- A page after which another one comes has read something, or its budget was spent. -/
theorem visit_progress (h : Resumes get items rest) (limit : Nat) (gs : List γ)
    (place : Option κ) (read : Nat)
    (hnext : (visit get limit gs place read).2 ≠ none) :
    limit ≤ read ∨ flat (visit get limit gs place read).1 ≠ [] := by
  induction gs generalizing place read with
  | nil => exact absurd rfl hnext
  | cons g gs ih =>
    rcases visit_cons get limit g gs place read with ⟨hspent, -⟩ | ⟨hopen, c, hresume, heq⟩ |
      ⟨hopen, -, heq⟩
    · exact Or.inl hspent
    · have hsome := (h.goes_on g _ place c (Nat.sub_pos_of_lt hopen) hresume).1
      right
      rw [heq]
      simpa using hsome
    · rw [heq] at hnext ⊢
      right
      rcases ih none _ hnext with hspent | hflat
      · -- the group has filled the page
        have hsome : (get g (limit - read) place).items ≠ [] := by
          intro hnil
          rw [hnil, List.length_nil] at hspent
          omega
        simp [hsome]
      · simp [hflat]

/-- The groups of a page are the first ones, and the next page starts behind them, or with the last
    of them. -/
theorem visit_groups (get : γ → Nat → Option κ → Page κ α) (limit : Nat) (gs : List γ)
    (place : Option κ) (read : Nat) :
    (∃ g gs', (visit get limit gs place read).2 = some (g :: gs', none) ∧
      gs = (visit get limit gs place read).1.map Prod.fst ++ g :: gs') ∨
    (∃ done g gs' c, (visit get limit gs place read).2 = some (g :: gs', some c) ∧
      (visit get limit gs place read).1.map Prod.fst = done ++ [g] ∧ gs = done ++ g :: gs') ∨
    ((visit get limit gs place read).2 = none ∧
      gs = (visit get limit gs place read).1.map Prod.fst) := by
  induction gs generalizing place read with
  | nil => exact Or.inr (Or.inr ⟨rfl, rfl⟩)
  | cons g gs ih =>
    rcases visit_cons get limit g gs place read with ⟨-, heq⟩ | ⟨-, c, -, heq⟩ | ⟨-, -, heq⟩
    · rw [heq]
      exact Or.inl ⟨g, gs, rfl, rfl⟩
    · rw [heq]
      exact Or.inr (Or.inl ⟨[], g, gs, c, rfl, rfl, rfl⟩)
    · rw [heq]
      simp only [List.map_cons, List.cons_append, List.cons.injEq, true_and]
      rcases ih none (read + (get g (limit - read) place).items.length) with
        hnext | ⟨done, g', gs', c, hnext, hdone, hgs⟩ | hlast
      · exact Or.inl hnext
      · refine Or.inr (Or.inl ⟨g :: done, g', gs', c, hnext, ?_, ?_⟩)
        · rw [hdone, List.cons_append]
        · rw [List.cons_append, ← hgs]
      · exact Or.inr (Or.inr hlast)

/-- The groups of a page are some of the groups, in their order. -/
theorem sublist_visit (get : γ → Nat → Option κ → Page κ α) (limit : Nat) (gs : List γ)
    (place : Option κ) (read : Nat) :
    ((visit get limit gs place read).1.map Prod.fst).Sublist gs := by
  induction gs generalizing place read with
  | nil => exact List.Sublist.refl []
  | cons g gs ih =>
    rcases visit_cons get limit g gs place read with ⟨-, heq⟩ | ⟨-, c, -, heq⟩ | ⟨-, -, heq⟩
    · rw [heq]
      exact List.nil_sublist _
    · rw [heq]
      exact List.singleton_sublist.mpr List.mem_cons_self
    · rw [heq]
      exact (ih none _).cons_cons g

/-- The next page starts with one of the groups, and has those behind it. -/
theorem visit_next {gs' : List γ} {place' : Option κ}
    (hnext : (visit get limit gs place read).2 = some (gs', place')) : gs' ≠ [] ∧ gs' <:+ gs := by
  rcases visit_groups get limit gs place read with ⟨g, rest, hsome, hgs⟩ |
    ⟨done, g, rest, c, hsome, -, hgs⟩ | ⟨hnone, -⟩
  · cases hnext.symm.trans hsome
    exact ⟨List.cons_ne_nil _ _, _, hgs.symm⟩
  · cases hnext.symm.trans hsome
    exact ⟨List.cons_ne_nil _ _, done, hgs.symm⟩
  · cases hnext.symm.trans hnone

/-! ## The walk -/

/-- **Termination.** Every page but the last reads something. -/
theorem exists_plan (h : Resumes get items rest) (hlimit : 0 < limit) (gs : List γ)
    (place : Option κ) (hn : (remaining items rest gs place).length < n) :
    ∃ pages, plan get limit n gs place = some pages := by
  induction n generalizing gs place with
  | zero => exact absurd hn (Nat.not_lt_zero _)
  | succ n ih =>
    have hitems := visit_items h limit gs place 0
      (fun hzero => absurd hzero (Nat.not_le_of_lt hlimit))
    have hprogress := visit_progress h limit gs place 0
    rw [plan]
    cases hvisit : visit get limit gs place 0 with
    | mk vs next =>
      rw [hvisit] at hitems hprogress
      cases next with
      | none => exact ⟨[vs], rfl⟩
      | some next =>
        have hread : flat vs ≠ [] :=
          (hprogress (Option.some_ne_none _)).resolve_left (by omega)
        have hlen := congrArg List.length hitems
        rw [List.length_append] at hlen
        have hpos := List.length_pos_iff.mpr hread
        obtain ⟨pages, hpages⟩ := ih next.1 next.2
          (by simp only [left] at hlen; omega)
        exact ⟨vs :: pages, by simp only [hpages, Option.map_some]⟩

/-- One page of a walk, and the walk from the next one. -/
theorem plan_succ {pages : List (List (γ × List α))}
    (hplan : plan get limit (n + 1) gs place = some pages) :
    (visit get limit gs place 0).2 = none ∧ pages = [(visit get limit gs place 0).1] ∨
    ∃ gs' place' pages', (visit get limit gs place 0).2 = some (gs', place') ∧
      plan get limit n gs' place' = some pages' ∧
      pages = (visit get limit gs place 0).1 :: pages' := by
  rw [plan] at hplan
  cases hvisit : visit get limit gs place 0 with
  | mk vs next =>
    rw [hvisit] at hplan
    cases next with
    | none => exact Or.inl ⟨rfl, (Option.some.inj hplan).symm⟩
    | some next =>
      obtain ⟨pages', hpages', rfl⟩ := Option.map_eq_some_iff.mp hplan
      exact Or.inr ⟨next.1, next.2, pages', rfl, hpages', rfl⟩

/-- **Completeness.** The pages hold every item once, in order. -/
theorem plan_items (h : Resumes get items rest) (hlimit : 0 < limit)
    {pages : List (List (γ × List α))} (hplan : plan get limit n gs place = some pages) :
    flat pages.flatten = remaining items rest gs place := by
  induction n generalizing gs place pages with
  | zero => cases hplan
  | succ n ih =>
    have hitems := visit_items h limit gs place 0
      (fun hzero => absurd hzero (Nat.not_le_of_lt hlimit))
    rcases plan_succ hplan with ⟨hnone, rfl⟩ | ⟨gs', place', pages', hsome, hpages', rfl⟩
    · rw [hnone, left, List.append_nil] at hitems
      rw [List.flatten_singleton, hitems]
    · rw [hsome, left] at hitems
      rw [List.flatten_cons, flat_append, ih hpages', hitems]

/-- **Budget.** -/
theorem length_plan (h : Resumes get items rest) {pages : List (List (γ × List α))}
    (hplan : plan get limit n gs place = some pages) :
    ∀ vs ∈ pages, (flat vs).length ≤ limit := by
  induction n generalizing gs place pages with
  | zero => cases hplan
  | succ n ih =>
    have hlength := length_visit h limit gs place 0 (Nat.zero_le limit)
    rw [Nat.zero_add] at hlength
    intro vs hvs
    rcases plan_succ hplan with ⟨-, rfl⟩ | ⟨gs', place', pages', -, hpages', rfl⟩
    · rw [List.mem_singleton.mp hvs]
      exact hlength
    · rcases List.mem_cons.mp hvs with rfl | hvs
      · exact hlength
      · exact ih hpages' vs hvs

/-- Every group is read on some page. -/
theorem mem_plan {pages : List (List (γ × List α))} (hplan : plan get limit n gs place = some pages)
    {g : γ} (hg : g ∈ gs) : g ∈ pages.flatten.map Prod.fst := by
  induction n generalizing gs place pages with
  | zero => cases hplan
  | succ n ih =>
    have hgroups := visit_groups get limit gs place 0
    rcases plan_succ hplan with ⟨hnone, rfl⟩ | ⟨gs', place', pages', hsome, hpages', rfl⟩
    · rcases hgroups with ⟨_, _, hnext, -⟩ | ⟨_, _, _, _, hnext, -⟩ | ⟨-, hgs⟩
      · cases hnone.symm.trans hnext
      · cases hnone.symm.trans hnext
      · rw [List.flatten_singleton, ← hgs]
        exact hg
    · rw [List.flatten_cons, List.map_append, List.mem_append]
      rcases hgroups with ⟨g', rest', hnext, hgs⟩ | ⟨done, g', rest', c, hnext, hdone, hgs⟩ |
        ⟨hnone, -⟩
      · obtain ⟨rfl, -⟩ := Prod.mk.inj (Option.some.inj (hsome.symm.trans hnext))
        rw [hgs, List.mem_append] at hg
        exact hg.imp_right fun hg => ih hpages' hg
      · obtain ⟨rfl, -⟩ := Prod.mk.inj (Option.some.inj (hsome.symm.trans hnext))
        rw [hgs, List.mem_append] at hg
        rcases hg with hg | hg
        · left
          rw [hdone]
          exact List.mem_append_left _ hg
        · exact Or.inr (ih hpages' hg)
      · cases hsome.symm.trans hnone

/-- The groups of a page are some of the walk's, in their order. -/
theorem sublist_plan {pages : List (List (γ × List α))}
    (hplan : plan get limit n gs place = some pages) :
    ∀ vs ∈ pages, (vs.map Prod.fst).Sublist gs := by
  induction n generalizing gs place pages with
  | zero => cases hplan
  | succ n ih =>
    have hgroups := sublist_visit get limit gs place 0
    intro vs hvs
    rcases plan_succ hplan with ⟨-, rfl⟩ | ⟨gs', place', pages', hsome, hpages', rfl⟩
    · rw [List.mem_singleton.mp hvs]
      exact hgroups
    · rcases List.mem_cons.mp hvs with rfl | hvs
      · exact hgroups
      · exact (ih hpages' vs hvs).trans (visit_next hsome).2.sublist

end Paging
