/-!
# Fallible computations that succeed

The rules that take a successful `Except` computation apart, one `do` line at a time: as
implications, to `obtain` what a line handed on, and as equivalences, to rewrite a chain of
checks into what it checks.
-/

universe u v w x

/-- A `do` line that succeeds had something to hand on. -/
theorem except_bind_ok {ε : Type u} {α β : Type v} {x : Except ε α} {f : α → Except ε β} {b : β}
    (h : (x >>= f) = .ok b) : ∃ a, x = .ok a ∧ f a = .ok b := by
  cases x with
  | error e => cases h
  | ok a => exact ⟨a, rfl, h⟩

/-- A failure comes from the first line or from what follows it. -/
theorem except_bind_error {ε : Type u} {α β : Type v} {x : Except ε α} {f : α → Except ε β} {e : ε}
    (h : (x >>= f) = .error e) : x = .error e ∨ ∃ a, x = .ok a ∧ f a = .error e := by
  cases x with
  | error e' =>
    cases h
    exact Or.inl rfl
  | ok a => exact Or.inr ⟨a, rfl, h⟩

/-- Renaming the error does not touch a success. -/
theorem except_mapError_ok {ε : Type u} {ε' : Type w} {α : Type x} {x : Except ε α} {f : ε → ε'}
    {a : α} (h : x.mapError f = .ok a) : x = .ok a := by
  cases x with
  | error e => cases h
  | ok b => exact congrArg Except.ok (Except.ok.inj h)

theorem except_mapError_error {ε : Type u} {ε' : Type w} {α : Type x} {x : Except ε α} {f : ε → ε'}
    {e : ε'} (h : x.mapError f = .error e) : ∃ e', x = .error e' ∧ f e' = e := by
  cases x with
  | error e' => exact ⟨e', rfl, Except.error.inj h⟩
  | ok a => cases h

section Checks

variable {ε : Type u} {ε' : Type w} {α β : Type v}

theorem except_bind_eq_ok_iff {x : Except ε α} {f : α → Except ε β} {b : β} :
    (x >>= f) = .ok b ↔ ∃ a, x = .ok a ∧ f a = .ok b := by
  constructor
  · exact except_bind_ok
  · rintro ⟨a, rfl, h⟩
    exact h

theorem except_mapError_eq_ok_iff {x : Except ε α} {f : ε → ε'} {a : α} :
    x.mapError f = .ok a ↔ x = .ok a := by
  constructor
  · exact except_mapError_ok
  · rintro rfl
    rfl

/-- A check of a chain: go on if `c`, or fail with `e`. -/
def ensure (c : Bool) (e : ε) : Except ε PUnit.{v + 1} :=
  if c then .ok PUnit.unit else .error e

theorem ensure_eq_ok_iff {c : Bool} {e : ε} {u : PUnit} : ensure c e = .ok u ↔ c = true := by
  cases c <;> simp [ensure]

/-- A value that has to be there. -/
theorem except_elim_eq_ok_iff {x : Option α} {e : ε} {a : α} :
    x.elim (.error e) .ok = (.ok a : Except ε α) ↔ x = some a := by
  cases x <;> simp

/-- A loop of checks passes exactly if every check does. -/
theorem except_forM_eq_ok_iff {f : β → Except ε PUnit} {l : List β} {u : PUnit} :
    l.forM f = .ok u ↔ ∀ x ∈ l, f x = .ok PUnit.unit := by
  induction l with
  | nil => simp [pure, Except.pure]
  | cons x l ih =>
    show (f x >>= fun _ => l.forM f) = .ok u ↔ _
    rw [except_bind_eq_ok_iff, List.forall_mem_cons, ← ih]
    constructor
    · rintro ⟨_, hx, hl⟩
      exact ⟨hx, hl⟩
    · rintro ⟨hx, hl⟩
      exact ⟨_, hx, hl⟩

/-- What a loop that succeeds puts out, it puts out for one of the elements. -/
theorem exists_of_mem_mapM_ok {f : β → Except ε α} {l : List β} {out : List α} {a : α}
    (h : l.mapM f = .ok out) (ha : a ∈ out) : ∃ b ∈ l, f b = .ok a := by
  induction l generalizing out with
  | nil =>
    cases h
    cases ha
  | cons b l ih =>
    rw [List.mapM_cons] at h
    obtain ⟨first, hfirst, h⟩ := except_bind_ok h
    obtain ⟨rest, hrest, h⟩ := except_bind_ok h
    cases h
    rcases List.mem_cons.mp ha with rfl | ha
    · exact ⟨b, List.mem_cons_self, hfirst⟩
    · obtain ⟨b', hb', hout⟩ := ih hrest ha
      exact ⟨b', List.mem_cons_of_mem _ hb', hout⟩

/-- A loop whose rounds all succeed succeeds. -/
theorem exists_mapM_ok {f : β → Except ε α} {l : List β} (h : ∀ b ∈ l, ∃ a, f b = .ok a) :
    ∃ out, l.mapM f = .ok out := by
  induction l with
  | nil => exact ⟨[], rfl⟩
  | cons b l ih =>
    obtain ⟨⟨first, hfirst⟩, hl⟩ := List.forall_mem_cons.mp h
    obtain ⟨rest, hrest⟩ := ih hl
    rw [List.mapM_cons, hfirst, hrest]
    exact ⟨first :: rest, rfl⟩

/-- What it puts out for an element is there. -/
theorem mem_of_mapM_ok {f : β → Except ε α} {l : List β} {out : List α} {a : α} {b : β}
    (h : l.mapM f = .ok out) (hb : b ∈ l) (hf : f b = .ok a) : a ∈ out := by
  induction l generalizing out with
  | nil => cases hb
  | cons b' l ih =>
    rw [List.mapM_cons] at h
    obtain ⟨first, hfirst, h⟩ := except_bind_ok h
    obtain ⟨rest, hrest, h⟩ := except_bind_ok h
    cases h
    rcases List.mem_cons.mp hb with rfl | hb
    · rw [hf] at hfirst
      cases hfirst
      exact List.mem_cons_self
    · exact List.mem_cons_of_mem _ (ih hrest hb)

end Checks
