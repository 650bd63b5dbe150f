import Mathlib.Tactic.Tauto

/-!
# The degradation registry

`src/degradation.rs`: the process-wide list of operator-facing conditions. A condition is
raised under its code, and stays until the producer that raised it clears that code.
-/

namespace CirisServer

/-- One operator-facing condition. -/
structure Warning where
  code : String
  message : String
  severity : String
  actionUrl : Option String
deriving DecidableEq

/-- `Warning::error`: a condition that reduces what the node does. -/
def Warning.error (code message : String) : Warning :=
  { code, message, severity := "error", actionUrl := none }

/-- `Warning::advisory`: a condition that reduces nothing yet. -/
def Warning.advisory (code message : String) : Warning :=
  { code, message, severity := "warning", actionUrl := none }

/-- `raise`: the first warning under the code is replaced, and without one the new warning
    is pushed. -/
def raise (w : Warning) : List Warning → List Warning
  | [] => [w]
  | existing :: registry =>
    if existing.code = w.code then w :: registry else existing :: raise w registry

/-- `clear`, with whether a warning was present. -/
def clear (code : String) (registry : List Warning) : List Warning × Bool :=
  let kept := registry.filter fun w => w.code ≠ code
  (kept, kept.length ≠ registry.length)

/-- A warning stands under the code. -/
def Raised (code : String) (registry : List Warning) : Prop :=
  ∃ w ∈ registry, w.code = code

instance (code : String) (registry : List Warning) : Decidable (Raised code registry) :=
  inferInstanceAs (Decidable (∃ w ∈ registry, w.code = code))

@[simp] theorem raised_nil (code : String) : ¬ Raised code [] := by
  simp [Raised]

@[simp] theorem raised_cons (code : String) (w : Warning) (registry : List Warning) :
    Raised code (w :: registry) ↔ w.code = code ∨ Raised code registry := by
  simp [Raised]

/-- After `raise` the codes that stand are the ones before and the new one. -/
@[simp] theorem raised_raise (code : String) (w : Warning) (registry : List Warning) :
    Raised code (raise w registry) ↔ w.code = code ∨ Raised code registry := by
  induction registry with
  | nil => simp [raise]
  | cons existing registry ih =>
    simp only [raise]
    split
    · next hsame =>
      -- the replaced warning had the new one's code
      rw [raised_cons, raised_cons, hsame]
      tauto
    · rw [raised_cons, raised_cons, ih]
      tauto

/-- After `clear` the codes that stand are the ones before, less the cleared one. -/
@[simp] theorem raised_clear (code other : String) (registry : List Warning) :
    Raised other (clear code registry).1 ↔ other ≠ code ∧ Raised other registry := by
  simp only [Raised, clear, List.mem_filter, decide_not, Bool.not_eq_true', decide_eq_false_iff_not]
  constructor
  · rintro ⟨w, ⟨hw, hne⟩, rfl⟩
    exact ⟨hne, w, hw, rfl⟩
  · rintro ⟨hne, w, hw, rfl⟩
    exact ⟨w, ⟨hw, hne⟩, rfl⟩

end CirisServer
