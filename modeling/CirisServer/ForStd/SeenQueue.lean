import CirisServer.ForStd.List

/-!
# A bounded set of seen keys

A replay guard remembers keys in a set and forgets them in the order they came once it holds
more than `cap` of them. This file has the structure as such guards are written (a set and a
queue beside each other, `admitKey`), the invariant that ties the two together, and what an
admission does to it:

- `admitKey_new`: a new key joins at the end, and the queue keeps its last `cap` keys
- `mem_admitKey_or_head`: a key that is forgotten was at the front of a full queue
- `admitAll_order`: after a flood of new keys, the queue is the last `cap` of all
-/

universe u

/-- The set of remembered keys, and the queue of them, oldest first. -/
structure SeenQueue (κ : Type u) where
  seen : List κ
  order : List κ
deriving DecidableEq

namespace SeenQueue

variable {κ : Type u} [DecidableEq κ] (cap : Nat)

/-- Nothing seen. -/
def empty : SeenQueue κ := ⟨[], []⟩

/-- Forget from the front while more than `cap` keys are queued. -/
def trim (seen : List κ) : List κ → SeenQueue κ
  | [] => ⟨seen, []⟩
  | old :: order =>
    if cap < (old :: order).length then trim (seen.filter (· ≠ old)) order
    else ⟨seen, old :: order⟩

/-- Remember `k`; false if it is remembered already. -/
def admitKey (q : SeenQueue κ) (k : κ) : Bool × SeenQueue κ :=
  if q.seen.contains k then (false, q)
  else (true, trim cap (k :: q.seen) (q.order ++ [k]))

/-- The set and the queue hold the same keys, each once, and at most `cap`. -/
structure Wf (q : SeenQueue κ) : Prop where
  mem_iff : ∀ k, k ∈ q.seen ↔ k ∈ q.order
  nodup : q.order.Nodup
  bounded : q.order.length ≤ cap

variable {cap}

omit [DecidableEq κ] in
theorem wf_empty : Wf cap (empty : SeenQueue κ) :=
  ⟨fun _ => Iff.rfl, List.nodup_nil, Nat.zero_le _⟩

/-- Trimming keeps the last `cap` keys, in the queue and in the set. -/
theorem trim_spec {seen order : List κ} (hmem : ∀ k, k ∈ seen ↔ k ∈ order)
    (hnodup : order.Nodup) :
    (trim cap seen order).order = order.drop (order.length - cap) ∧ Wf cap (trim cap seen order) := by
  induction order generalizing seen with
  | nil => exact ⟨by simp [trim], hmem, hnodup, Nat.zero_le _⟩
  | cons old order ih =>
    by_cases hlong : cap < (old :: order).length
    · have hmem' : ∀ k, k ∈ seen.filter (· ≠ old) ↔ k ∈ order := by
        intro k
        have hk := hmem k
        have hold : old ∉ order := (List.nodup_cons.mp hnodup).1
        simp only [List.mem_cons] at hk
        simp only [List.mem_filter, decide_not, Bool.not_eq_true', decide_eq_false_iff_not, hk]
        constructor
        · rintro ⟨rfl | hin, hne⟩
          · exact absurd rfl hne
          · exact hin
        · intro hin
          exact ⟨Or.inr hin, fun heq => hold (heq ▸ hin)⟩
      obtain ⟨horder, hwf⟩ := ih hmem' (List.nodup_cons.mp hnodup).2
      simp only [trim, hlong, if_true]
      refine ⟨?_, hwf⟩
      rw [horder]
      simp only [List.length_cons] at hlong ⊢
      have hsub : order.length + 1 - cap = (order.length - cap) + 1 := by omega
      rw [hsub, List.drop_succ_cons]
    · have hzero : (old :: order).length - cap = 0 := by omega
      simp only [trim, hlong, if_false]
      rw [hzero]
      exact ⟨rfl, hmem, hnodup, Nat.le_of_not_lt hlong⟩

theorem admitKey_seen {q : SeenQueue κ} {k : κ} (h : k ∈ q.seen) :
    q.admitKey cap k = (false, q) := by
  simp [admitKey, h]

/-- A new key is admitted, and the queue keeps its last `cap` keys. -/
theorem admitKey_new {q : SeenQueue κ} (hq : Wf cap q) {k : κ} (h : k ∉ q.seen) :
    (q.admitKey cap k).1 = true ∧
      (q.admitKey cap k).2.order = (q.order ++ [k]).drop (q.order.length + 1 - cap) ∧
      Wf cap (q.admitKey cap k).2 := by
  have hmem : ∀ k', k' ∈ k :: q.seen ↔ k' ∈ q.order ++ [k] := by
    intro k'
    rw [List.mem_cons, List.mem_append, List.mem_singleton, hq.mem_iff k']
    exact or_comm
  have hnodup : (q.order ++ [k]).Nodup :=
    nodup_append_singleton hq.nodup fun hin => h ((hq.mem_iff k).mpr hin)
  obtain ⟨horder, hwf⟩ := @trim_spec κ _ cap _ _ hmem hnodup
  have hadmits : q.admitKey cap k = (true, trim cap (k :: q.seen) (q.order ++ [k])) := by
    simp [admitKey, h]
  rw [hadmits]
  refine ⟨rfl, ?_, hwf⟩
  rw [horder, List.length_append, List.length_singleton]

theorem admitKey_wf {q : SeenQueue κ} (hq : Wf cap q) (k : κ) : Wf cap (q.admitKey cap k).2 := by
  by_cases h : k ∈ q.seen
  · rw [admitKey_seen h]
    exact hq
  · exact (admitKey_new hq h).2.2

/-- An admitted key is remembered, if there is room for any. -/
theorem mem_admitKey_self {q : SeenQueue κ} (hq : Wf cap q) (hcap : 0 < cap) (k : κ) :
    k ∈ (q.admitKey cap k).2.seen := by
  by_cases h : k ∈ q.seen
  · rw [admitKey_seen h]
    exact h
  · obtain ⟨-, horder, hwf⟩ := admitKey_new hq h
    rw [hwf.mem_iff, horder]
    have hb := hq.bounded
    have hle : q.order.length + 1 - cap ≤ q.order.length := by omega
    rw [List.drop_append_of_le_length hle]
    exact List.mem_append_right _ List.mem_cons_self

/-- A remembered key is still remembered after an admission, unless the queue was full and
    the key at its front. -/
theorem mem_admitKey_or_head {q : SeenQueue κ} (hq : Wf cap q) (k : κ) {k' : κ}
    (hk' : k' ∈ q.seen) :
    k' ∈ (q.admitKey cap k).2.seen ∨
      (k ∉ q.seen ∧ q.order.length = cap ∧ q.order.head? = some k') := by
  by_cases h : k ∈ q.seen
  · rw [admitKey_seen h]
    exact Or.inl hk'
  · obtain ⟨-, horder, hwf⟩ := admitKey_new hq h
    have hb := hq.bounded
    have hin := (hq.mem_iff k').mp hk'
    rw [hwf.mem_iff, horder]
    cases hfront : q.order with
    | nil =>
      rw [hfront] at hin
      cases hin
    | cons front rest =>
      rw [hfront] at hin
      rw [hfront, List.length_cons] at hb
      rcases Nat.lt_or_ge (rest.length + 1) cap with hroom | hfull
      · have hzero : (front :: rest).length + 1 - cap = 0 := by
          rw [List.length_cons]
          omega
        rw [hzero, List.drop_zero]
        exact Or.inl (List.mem_append_left _ hin)
      · have hone : (front :: rest).length + 1 - cap = 1 := by
          rw [List.length_cons]
          omega
        rw [hone, List.cons_append, List.drop_succ_cons, List.drop_zero]
        rcases List.mem_cons.mp hin with rfl | hrest
        · refine Or.inr ⟨h, ?_, rfl⟩
          rw [List.length_cons]
          omega
        · exact Or.inl (List.mem_append_left _ hrest)

theorem admitAll_wf {q : SeenQueue κ} (hq : Wf cap q) (ks : List κ) :
    Wf cap (ks.foldl (fun q k => (q.admitKey cap k).2) q) := by
  induction ks generalizing q with
  | nil => exact hq
  | cons k ks ih => exact ih (admitKey_wf hq k)

/-- After a flood of new keys the queue holds the last `cap` of all that came. -/
theorem admitAll_order {q : SeenQueue κ} (hq : Wf cap q) (ks : List κ)
    (hnew : (q.order ++ ks).Nodup) :
    (ks.foldl (fun q k => (q.admitKey cap k).2) q).order =
      (q.order ++ ks).drop ((q.order ++ ks).length - cap) := by
  induction ks generalizing q with
  | nil =>
    have hzero : (q.order ++ []).length - cap = 0 := by
      have hb := hq.bounded
      rw [List.append_nil]
      omega
    rw [hzero, List.append_nil]
    rfl
  | cons k ks ih =>
    have hk : k ∉ q.seen := by
      intro hin
      have hin' := (hq.mem_iff k).mp hin
      rw [List.nodup_append] at hnew
      exact hnew.2.2 k hin' k List.mem_cons_self rfl
    obtain ⟨-, horder, hwf⟩ := admitKey_new hq hk
    have hb := hq.bounded
    have hle : q.order.length + 1 - cap ≤ (q.order ++ [k]).length := by
      rw [List.length_append, List.length_singleton]
      omega
    -- what the first admission drops, the flood as a whole drops too
    have hrest : (q.admitKey cap k).2.order ++ ks =
        (q.order ++ k :: ks).drop (q.order.length + 1 - cap) := by
      rw [horder, ← List.drop_append_of_le_length hle]
      simp
    have hnew' : ((q.admitKey cap k).2.order ++ ks).Nodup := by
      rw [hrest]
      exact hnew.sublist (List.drop_sublist _ _)
    rw [List.foldl_cons, ih hwf hnew', hrest, List.drop_drop]
    congr 1
    simp only [List.length_drop, List.length_append, List.length_cons]
    omega

end SeenQueue
