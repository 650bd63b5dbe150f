import CirisServer.Native.TraceSeal

/-!
# What is signed is what is shipped

The wire JSON is the signed envelope with the signature fields written over it: without them, and
with every component's data stripped once more, it is the envelope again. Stripping twice is
stripping once, so the second strip does nothing; that, and what a stripped value looks like, is an
induction over JSON trees.
-/

namespace CirisServer

/-! ## Trees -/

/-- **Induction over JSON trees**: what holds of an array or an object when it holds of the values
    in it, and of the other values, holds of every value. -/
@[elab_as_elim]
theorem Json.tree {P : Json → Prop} (null : P .null) (bool : ∀ b, P (.bool b))
    (num : ∀ n, P (.num n)) (str : ∀ s, P (.str s))
    (arr : ∀ items, (∀ v ∈ items, P v) → P (.arr items))
    (obj : ∀ members, (∀ m ∈ members, P m.2) → P (.obj members)) (j : Json) : P j :=
  @Json.rec P (fun items => ∀ v ∈ items, P v) (fun members => ∀ m ∈ members, P m.2)
    (fun m => P m.2) null bool num str arr obj (by simp)
    (fun v items hv hitems => List.forall_mem_cons.mpr ⟨hv, hitems⟩) (by simp)
    (fun m members hm hmembers => List.forall_mem_cons.mpr ⟨hm, hmembers⟩)
    (fun _ _ hv => hv) j

/-- A value is within itself, and within an array or an object one of whose values it is within. -/
inductive Json.Within (w : Json) : Json → Prop
  | self : Within w w
  | item {v : Json} {items : List Json} (hv : v ∈ items) (h : Within w v) : Within w (.arr items)
  | member {m : String × Json} {members : List (String × Json)} (hm : m ∈ members)
      (h : Within w m.2) : Within w (.obj members)

namespace TraceSeal

open TraceCapture

/-! ## `strip_empty` -/

@[simp] theorem stripEmpty_eq_null_iff (j : Json) : stripEmpty j = .null ↔ j = .null := by
  cases j <;> simp [stripEmpty]

theorem isNull_eq_true_iff (j : Json) : j.isNull = true ↔ j = .null := by
  cases j <;> simp [Json.isNull]

/-- Stripping twice is stripping once. -/
theorem stripEmpty_stripEmpty (j : Json) : stripEmpty (stripEmpty j) = stripEmpty j := by
  induction j using Json.tree with
  | null | bool | num | str => rfl
  | arr items ih =>
    simp only [stripEmpty, Json.arr.injEq]
    induction items with
    | nil => rfl
    | cons v items ihItems =>
      have hitems := ihItems fun w hw => ih w (List.mem_cons_of_mem _ hw)
      by_cases hnull : v.isNull = true
      · simp only [stripItems, if_pos hnull, hitems]
      · have hstrip : ¬ (stripEmpty v).isNull = true := by
          rwa [isNull_eq_true_iff, stripEmpty_eq_null_iff, ← isNull_eq_true_iff]
        simp only [stripItems, if_neg hnull, if_neg hstrip, ih v List.mem_cons_self, hitems]
  | obj members ih =>
    simp only [stripEmpty, Json.obj.injEq]
    induction members with
    | nil => rfl
    | cons m members ihMembers =>
      have hmembers := ihMembers fun w hw => ih w (List.mem_cons_of_mem _ hw)
      have hvalue : stripEmpty (stripEmpty m.2) = stripEmpty m.2 := ih m List.mem_cons_self
      by_cases hempty : isEmpty (stripEmpty m.2) = true
      · simp only [stripMembers, if_pos hempty, hmembers]
      · simp only [stripMembers, if_neg hempty, hvalue, hmembers]

theorem mem_stripMembers {m : String × Json} {members : List (String × Json)}
    (h : m ∈ stripMembers members) :
    isEmpty m.2 = false ∧ ∃ v, (m.1, v) ∈ members ∧ m.2 = stripEmpty v := by
  induction members with
  | nil => simp [stripMembers] at h
  | cons m' members ih =>
    rw [stripMembers] at h
    by_cases hempty : isEmpty (stripEmpty m'.2) = true
    · rw [if_pos hempty] at h
      obtain ⟨hm, v, hv, heq⟩ := ih h
      exact ⟨hm, v, List.mem_cons_of_mem _ hv, heq⟩
    · rw [if_neg hempty] at h
      cases List.mem_cons.mp h with
      | inl heq => exact heq ▸ ⟨by simpa using hempty, m'.2, List.mem_cons_self, rfl⟩
      | inr htail =>
        obtain ⟨hm, v, hv, heq⟩ := ih htail
        exact ⟨hm, v, List.mem_cons_of_mem _ hv, heq⟩

theorem mem_stripItems {w : Json} {items : List Json} (h : w ∈ stripItems items) :
    w ≠ .null ∧ ∃ v ∈ items, w = stripEmpty v := by
  induction items with
  | nil => simp [stripItems] at h
  | cons v items ih =>
    rw [stripItems] at h
    by_cases hnull : v.isNull = true
    · rw [if_pos hnull] at h
      obtain ⟨hw, v', hv', heq⟩ := ih h
      exact ⟨hw, v', List.mem_cons_of_mem _ hv', heq⟩
    · rw [if_neg hnull] at h
      cases List.mem_cons.mp h with
      | inl heq =>
        refine ⟨?_, v, List.mem_cons_self, heq⟩
        rw [heq, ne_eq, stripEmpty_eq_null_iff, ← isNull_eq_true_iff]
        exact hnull
      | inr htail =>
        obtain ⟨hw, v', hv', heq⟩ := ih htail
        exact ⟨hw, v', List.mem_cons_of_mem _ hv', heq⟩

/-- What is within a stripped value is stripped itself. -/
theorem stripEmpty_of_within {w j : Json} (h : w.Within (stripEmpty j)) : stripEmpty w = w := by
  generalize hs : stripEmpty j = s at h
  induction h generalizing j with
  | self => rw [← hs, stripEmpty_stripEmpty]
  | item hv _ ih =>
    have hfix : stripEmpty (stripEmpty j) = stripEmpty j := stripEmpty_stripEmpty j
    rw [hs, stripEmpty, Json.arr.injEq] at hfix
    rw [← hfix] at hv
    obtain ⟨-, v, -, heq⟩ := mem_stripItems hv
    exact ih heq.symm
  | member hm _ ih =>
    have hfix : stripEmpty (stripEmpty j) = stripEmpty j := stripEmpty_stripEmpty j
    rw [hs, stripEmpty, Json.obj.injEq] at hfix
    rw [← hfix] at hm
    obtain ⟨-, v, -, heq⟩ := mem_stripMembers hm
    exact ih heq.symm

/-- No object within a stripped value has an empty value. -/
theorem not_isEmpty_of_within {members : List (String × Json)} {j : Json}
    (h : Json.Within (.obj members) (stripEmpty j)) {m : String × Json} (hm : m ∈ members) :
    isEmpty m.2 = false := by
  have hfix := stripEmpty_of_within h
  rw [stripEmpty, Json.obj.injEq] at hfix
  rw [← hfix] at hm
  exact (mem_stripMembers hm).1

/-- No array within a stripped value has a null in it. -/
theorem null_notMem_of_within {items : List Json} {j : Json}
    (h : Json.Within (.arr items) (stripEmpty j)) : .null ∉ items := by
  have hfix := stripEmpty_of_within h
  rw [stripEmpty, Json.arr.injEq] at hfix
  rw [← hfix]
  exact fun hnull => (mem_stripItems hnull).1 rfl

mutual

/-- The numbers and booleans within a value, in order, each with the keys that lead to it from the
    outside in; a step into an array is `none`. -/
def leaves : Json → List (List (Option String) × Json)
  | .bool b => [([], .bool b)]
  | .num n => [([], .num n)]
  | .arr items => leavesItems items
  | .obj members => leavesMembers members
  | .null | .str _ => []

/-- The numbers and booleans within the items of an array. -/
def leavesItems : List Json → List (List (Option String) × Json)
  | [] => []
  | v :: rest => (leaves v).map (fun leaf => (none :: leaf.1, leaf.2)) ++ leavesItems rest

/-- The numbers and booleans within the members of an object. -/
def leavesMembers : List (String × Json) → List (List (Option String) × Json)
  | [] => []
  | (k, v) :: rest =>
    (leaves v).map (fun leaf => (some k :: leaf.1, leaf.2)) ++ leavesMembers rest

end

/-- An empty value has no leaf. -/
theorem leaves_of_isEmpty {j : Json} (h : isEmpty j = true) : leaves j = [] := by
  cases j with
  | null | str => simp [leaves]
  | bool | num => simp [isEmpty] at h
  | arr items =>
    rw [isEmpty, List.isEmpty_iff] at h
    simp [leaves, h, leavesItems]
  | obj members =>
    rw [isEmpty, List.isEmpty_iff] at h
    simp [leaves, h, leavesMembers]

/-- Stripping keeps every number and every boolean, in order and under the same keys. -/
theorem leaves_stripEmpty (j : Json) : leaves (stripEmpty j) = leaves j := by
  induction j using Json.tree with
  | null | bool | num | str => rfl
  | arr items ih =>
    simp only [stripEmpty, leaves]
    induction items with
    | nil => rfl
    | cons v items ihItems =>
      have hitems := ihItems fun w hw => ih w (List.mem_cons_of_mem _ hw)
      by_cases hnull : v.isNull = true
      · have hv := (isNull_eq_true_iff v).mp hnull
        simp [stripItems, leavesItems, hv, Json.isNull, leaves, hitems]
      · simp only [stripItems, if_neg hnull, leavesItems, hitems, ih v List.mem_cons_self]
  | obj members ih =>
    simp only [stripEmpty, leaves]
    induction members with
    | nil => rfl
    | cons m members ihMembers =>
      have hmembers := ihMembers fun w hw => ih w (List.mem_cons_of_mem _ hw)
      have hvalue : leaves (stripEmpty m.2) = leaves m.2 := ih m List.mem_cons_self
      by_cases hempty : isEmpty (stripEmpty m.2) = true
      · -- An empty value had no leaf before it was stripped either.
        rw [leaves_of_isEmpty hempty] at hvalue
        simp only [stripMembers, if_pos hempty, leavesMembers, ← hvalue, hmembers]
        rfl
      · simp only [stripMembers, if_neg hempty, leavesMembers, hvalue, hmembers]

/-! ## The envelope and the wire JSON -/

/-- The fields a verifier takes off the wire JSON. -/
def signatureFields : List String :=
  ["signature", "signature_key_id", "signature_ml_dsa_65", "pubkey_ml_dsa_65", "pqc_key_id"]

/-- A component with its data stripped. -/
def restripComponent : Json → Json
  | .obj members => .obj (Members.modify "data" stripEmpty members)
  | other => other

/-- The array of components with their data stripped. -/
def restripComponents : Json → Json
  | .arr items => .arr (items.map restripComponent)
  | other => other

/-- The envelope as it is rebuilt from the wire JSON of a trace. -/
def rebuildEnvelope : Json → Json
  | .obj members =>
    .obj (Members.modify "components" restripComponents
      (Members.removeAll signatureFields members))
  | other => other

/-- A component of the envelope has nothing left to strip. -/
theorem restripComponent_canonicalComponent (trace : CompleteTrace) (c : TraceComponent) :
    restripComponent (canonicalComponent trace c) = canonicalComponent trace c := by
  simp only [canonicalComponent, stripEmpty, restripComponent, Json.obj.injEq, Members.modify]
  refine (List.map_congr_left ?_).trans (List.map_id' _)
  intro m hm
  obtain ⟨-, v, -, heq⟩ := mem_stripMembers hm
  split
  case isTrue => rw [heq, stripEmpty_stripEmpty, ← heq]
  case isFalse => rfl

theorem removeAll_insertSome (name : String) (v : Option String) (obj : List (String × Json))
    (h : name ∈ signatureFields) :
    Members.removeAll signatureFields (insertSome name v obj) =
      Members.removeAll signatureFields obj := by
  cases v with
  | none => rfl
  | some v => exact Members.removeAll_insert_of_mem h

theorem rebuildEnvelope_traceToWireJson (trace : CompleteTrace) :
    rebuildEnvelope (traceToWireJson trace) = buildCanonicalEnvelope trace := by
  have hcomponents : restripComponents (.arr (trace.components.map (canonicalComponent trace))) =
      .arr (trace.components.map (canonicalComponent trace)) := by
    simp only [restripComponents, List.map_map, Function.comp_def,
      restripComponent_canonicalComponent]
  simp only [traceToWireJson, buildCanonicalEnvelope, rebuildEnvelope, Json.obj.injEq]
  rw [removeAll_insertSome _ _ _ (by decide), removeAll_insertSome _ _ _ (by decide),
    removeAll_insertSome _ _ _ (by decide), Members.removeAll_insert_of_mem (by decide),
    Members.removeAll_insert_of_mem (by decide), Members.removeAll_eq_filter]
  cases trace.deploymentProfile with
  | none => simp [signatureFields, Members.modify, hcomponents]
  | some dp => simp [signatureFields, Members.modify, hcomponents]

/-- **What is signed is what is shipped.** The envelope rebuilt from a trace's wire JSON is the
    envelope that was signed; and stripping is idempotent, keeps every number and every boolean,
    and leaves no empty value in an object and no null in an array, at any depth. -/
theorem rebuildEnvelope_and_stripEmpty :
    (∀ trace, rebuildEnvelope (traceToWireJson trace) = buildCanonicalEnvelope trace) ∧
    ∀ j, stripEmpty (stripEmpty j) = stripEmpty j ∧
      leaves (stripEmpty j) = leaves j ∧
      ∀ w : Json, w.Within (stripEmpty j) →
        (∀ members, w = .obj members → ∀ m ∈ members,
          m.2 ≠ .null ∧ m.2 ≠ .str "" ∧ m.2 ≠ .arr [] ∧ m.2 ≠ .obj []) ∧
        ∀ items, w = .arr items → .null ∉ items := by
  refine ⟨rebuildEnvelope_traceToWireJson, fun j =>
    ⟨stripEmpty_stripEmpty j, leaves_stripEmpty j, ?_⟩⟩
  intro w hw
  constructor
  · intro members hmembers m hm
    subst hmembers
    have hne := not_isEmpty_of_within hw hm
    refine ⟨?_, ?_, ?_, ?_⟩ <;> intro heq <;> simp [heq, isEmpty] at hne
  · intro items hitems
    subst hitems
    exact null_notMem_of_within hw

end TraceSeal

end CirisServer
