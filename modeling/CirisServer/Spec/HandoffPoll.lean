import Mathlib.Algebra.Order.BigOperators.Group.List
import Mathlib.Algebra.Order.Group.Nat
import Mathlib.Data.List.Nodup
import CirisServer.Spec.Handoff
import CirisServer.ForStd.List

/-!
# A poll beside its flow

A flow moves from its authorization to a callback, and from there to its outcome. A poll looks at
the three places one after the other: for the outcome, for the callback, for the authorization.
So a flow that moves while the poll looks is in none of them when its turn comes.

Key results:
- `System.budget`: a nonce is pending or in hand once at most
- `live_flow_not_expired`: every run whose steps meet the condition
- `live_flow_expired`: a callback that starts while a poll is on its way
-/

namespace CirisServer.Handoff

open Interleave Run

variable {ω : Type} {c : Config (Desk ω) (Task ω)} {d : Desk ω} {env : Env ω} {t : Task ω}
variable {n : String}

/-! ## Where a flow is -/

/-- A callback has consumed the authorization, and has not parked an outcome. -/
def Task.holds (n : String) : Task ω → Bool
  | .callback (.consumed state) | .callback (.exchanging state _) => state.appNonce = some n
  | _ => false

/-- It asks the provider, and the marker that it set is fresh. -/
def Task.marks (now : Nat) : Task ω → Bool
  | .callback (.exchanging _ started) => now < started + inFlightTtl
  | _ => false

/-- The flow is pending, or in hand, or its outcome waits. -/
def Alive (n : String) (c : Config (Desk ω) (Task ω)) : Prop :=
  (∃ p ∈ c.shared.csrf.pending, p.appNonce = some n ∧ c.shared.clock < p.deadline) ∨
  (∃ t ∈ c.tasks, t.holds n) ∨
  ∃ slot ∈ c.shared.handoff.ready n, c.shared.clock < slot.2

theorem of_marks {now : Nat} (h : t.marks now = true) :
    ∃ state b, t = .callback (.exchanging state b) ∧ now < b + inFlightTtl := by
  cases t with
  | login | redirected | poll | idle => cases h
  | callback phase =>
    cases phase with
    | called | consumed | refused | parked => cases h
    | exchanging state b => exact ⟨state, b, rfl, of_decide_eq_true h⟩

/-! ## What a step does -/

theorem clock_advance (env : Env ω) (t : Task ω) (d : Desk ω) :
    (t.advance env d).1.clock = d.clock ∧ (t.advance env d).1.started = d.started := by
  cases t with
  | login | redirected | idle => exact ⟨rfl, rfl⟩
  | callback phase =>
    cases phase with
    | called | refused | parked => exact ⟨rfl, rfl⟩
    | exchanging state started =>
      simp only [Task.advance, Callback.advance]
      split <;> exact ⟨rfl, rfl⟩
    | consumed state =>
      simp only [Task.advance, Callback.advance]
      split
      · exact ⟨rfl, rfl⟩
      · cases state.appNonce <;> exact ⟨rfl, rfl⟩
  | poll m phase =>
    cases phase with
    | called | checkingFlight | checkingPending | answered => exact ⟨rfl, rfl⟩

/-! ### The outcomes -/

namespace HandoffStore

variable {h : HandoffStore ω} {now now' : Nat} {m : String}

theorem ready_prune (hnone : h.ready n = none) : (h.prune now).ready n = none := by
  show live now (h.ready n) = none
  rw [hnone]
  rfl

theorem ready_collect_self : (h.collect now now' n).1.ready n = none := by
  rcases collect_cases h now now' n with ⟨o, d, -, -, -, heq⟩ | ⟨-, heq⟩
  · rw [heq]
    exact Function.update_self ..
  · rw [heq]
    exact Function.update_self ..

theorem ready_collect (hnone : h.ready n = none) : (h.collect now now' m).1.ready n = none := by
  have hupdate : Function.update (h.prune now).ready m none n = none := by
    by_cases hnm : n = m
    · rw [hnm, Function.update_self]
    · rw [Function.update_of_ne hnm]
      exact ready_prune hnone
  rcases collect_cases h now now' m with ⟨o, d, -, -, -, heq⟩ | ⟨-, heq⟩
  · rw [heq]
    exact hupdate
  · rw [heq]
    exact hupdate

theorem ready_collectRecent (hnone : h.ready n = none) :
    (h.collectRecent now now').1.ready n = none := by
  rcases collectRecent_cases h now now' with ⟨o, d, -, -, -, heq⟩ | ⟨-, heq⟩
  · rw [heq]
    exact ready_prune hnone
  · rw [heq]
    exact ready_prune hnone

theorem ready_park {nonce : Option String} {o : ω} (hnone : h.ready n = none)
    (hother : nonce ≠ some n) : (h.park now now' nonce o).ready n = none := by
  cases nonce with
  | none => exact ready_prune hnone
  | some m =>
    have hnm : n ≠ m := fun heq => hother (congrArg some heq.symm)
    show Function.update (h.prune now).ready m _ n = none
    rw [Function.update_of_ne hnm]
    exact ready_prune hnone

/-! ### The markers -/

theorem inFlight_prune {b : Nat} (hmark : h.inFlight n = some b) (hfresh : now < b + inFlightTtl) :
    (h.prune now).inFlight n = some b := by
  show (h.inFlight n).filter _ = some b
  have hpos : 0 < inFlightTtl := by decide
  have hlt : now - b < inFlightTtl := by omega
  rw [hmark, Option.filter_some, if_pos (decide_eq_true hlt)]

theorem inFlight_collect : (h.collect now now' m).1.inFlight = (h.prune now).inFlight := by
  rcases collect_cases h now now' m with ⟨o, d, -, -, -, heq⟩ | ⟨-, heq⟩
  · rw [heq]
  · rw [heq]

theorem inFlight_collectRecent :
    (h.collectRecent now now').1.inFlight = (h.prune now).inFlight := by
  rcases collectRecent_cases h now now' with ⟨o, d, -, -, -, heq⟩ | ⟨-, heq⟩
  · rw [heq]
  · rw [heq]

theorem inFlight_park {nonce : Option String} {o : ω} (hother : nonce ≠ some n) :
    (h.park now now' nonce o).inFlight n = (h.prune now).inFlight n := by
  cases nonce with
  | none => rfl
  | some m => exact Function.update_of_ne (fun heq => hother (congrArg some heq.symm)) ..

end HandoffStore

open HandoffStore

/-- No outcome lies under the nonce, until a callback that holds it parks one. -/
theorem ready_advance (hnone : d.handoff.ready n = none)
    (hpark : ∀ state b, t = .callback (.exchanging state b) → env.dropped = false →
      state.appNonce ≠ some n) :
    (t.advance env d).1.handoff.ready n = none := by
  cases t with
  | login | redirected | idle => exact hnone
  | callback phase =>
    cases phase with
    | called | refused | parked => exact hnone
    | consumed state =>
      simp only [Task.advance, Callback.advance]
      split
      · exact hnone
      · cases state.appNonce with
        | none => exact hnone
        | some m => exact ready_prune hnone
    | exchanging state b =>
      simp only [Task.advance, Callback.advance]
      split
      · exact hnone
      case isFalse hlives =>
        exact ready_park hnone (hpark state b rfl (Bool.eq_false_iff.mpr hlives))
  | poll m phase =>
    cases phase with
    | called allowUnbound =>
      simp only [Task.advance, Poll.advance, pollCollect]
      split
      · exact ready_collectRecent (ready_collect hnone)
      · exact ready_collect hnone
    | checkingFlight => exact ready_prune hnone
    | checkingPending | answered => exact hnone

/-- A marker stays while it is fresh, unless it is the marker of the callback that moves. -/
theorem inFlight_advance {b : Nat} (hmark : d.handoff.inFlight n = some b)
    (hfresh : d.clock < b + inFlightTtl) (hother : t.holds n = false) :
    (t.advance env d).1.handoff.inFlight n = some b := by
  have hprune := inFlight_prune hmark hfresh
  cases t with
  | login | redirected | idle => exact hmark
  | callback phase =>
    cases phase with
    | called | refused | parked => exact hmark
    | consumed state =>
      have hne : state.appNonce ≠ some n := of_decide_eq_false hother
      simp only [Task.advance, Callback.advance]
      split
      · exact hmark
      · cases hnonce : state.appNonce with
        | none => exact hmark
        | some m =>
          show Function.update (d.handoff.prune d.clock).inFlight m (some d.clock) n = some b
          rw [Function.update_of_ne (fun heq => hne (by rw [hnonce, heq]))]
          exact hprune
    | exchanging state b' =>
      have hne : state.appNonce ≠ some n := of_decide_eq_false hother
      simp only [Task.advance, Callback.advance]
      split
      · exact hmark
      · exact (inFlight_park hne).trans hprune
  | poll m phase =>
    cases phase with
    | called allowUnbound =>
      simp only [Task.advance, Poll.advance, pollCollect]
      split
      · rw [inFlight_collectRecent]
        apply inFlight_prune _ hfresh
        rw [inFlight_collect]
        exact hprune
      · rw [inFlight_collect]
        exact hprune
    | checkingFlight => exact hprune
    | checkingPending | answered => exact hmark

/-- A callback comes to hold a nonce by consuming an authorization that carries it. -/
theorem holds_advance (h : (t.advance env d).2.holds n = true) :
    t.holds n = true ∨ ∃ token, t = .callback (.called token) ∧
      ∃ p ∈ d.csrf.pending, p.token = token ∧ d.clock < p.deadline ∧ p.appNonce = some n := by
  cases t with
  | login | redirected | idle => cases h
  | callback phase =>
    cases phase with
    | refused | parked => cases h
    | called token =>
      refine Or.inr ⟨token, rfl, ?_⟩
      simp only [Task.advance, Callback.advance, CsrfStore.consume] at h
      cases hget : KeyedRows.get Pending.token token (d.csrf.prune d.clock).pending with
      | none =>
        rw [hget] at h
        cases h
      | some p =>
        rw [hget] at h
        obtain ⟨hmem, hlive⟩ := List.mem_filter.mp (List.mem_of_find?_eq_some hget)
        have hdeadline : d.clock < p.deadline := of_decide_eq_true hlive
        simp only [if_pos hdeadline] at h
        exact ⟨p, hmem, KeyedRows.key_of_get hget, hdeadline, of_decide_eq_true h⟩
    | consumed state =>
      simp only [Task.advance, Callback.advance] at h
      split at h
      · cases h
      · exact Or.inl h
    | exchanging state b =>
      simp only [Task.advance, Callback.advance] at h
      split at h <;> cases h
  | poll m phase => cases h

/-! ## A nonce is in one place -/

/-- The authorizations that carry the nonce. -/
def CsrfStore.carrying (n : String) (s : CsrfStore) : List Pending :=
  s.pending.filter fun p => p.appNonce = some n

/-- What a request still has to do with the nonce: it is to issue an authorization that carries it,
    or it has consumed one. -/
def Task.owes (n : String) (t : Task ω) : Nat :=
  match t with
  | .login appNonce _ => if appNonce = some n then 1 else 0
  | t => if t.holds n then 1 else 0

theorem owes_of_holds (h : t.holds n = true) : t.owes n = 1 := by
  cases t with
  | callback phase => exact if_pos h
  | login | redirected | poll | idle => cases h

theorem carrying_prune_le (now : Nat) (s : CsrfStore) :
    ((s.prune now).carrying n).length ≤ (s.carrying n).length := by
  apply List.Sublist.length_le
  exact List.Sublist.filter _ List.filter_sublist

/-- A step moves a nonce on, or drops it. -/
theorem budget_advance (n : String) (env : Env ω) (t : Task ω) (d : Desk ω) :
    ((t.advance env d).1.csrf.carrying n).length + (t.advance env d).2.owes n ≤
      (d.csrf.carrying n).length + t.owes n := by
  have hprune := carrying_prune_le (n := n) d.clock d.csrf
  cases t with
  | redirected | idle => exact le_refl _
  | login appNonce redirect =>
    let row : Pending := ⟨env.token, d.clock + pendingTtl, env.codeVerifier, appNonce, redirect⟩
    have hissue : ((KeyedRows.upsert Pending.token row (d.csrf.prune d.clock).pending).filter
        fun p => decide (p.appNonce = some n)).length ≤
        ((d.csrf.prune d.clock).pending.filter fun p => decide (p.appNonce = some n)).length +
          if decide (row.appNonce = some n) then 1 else 0 :=
      KeyedRows.length_filter_upsert_le _ row _
    simp only [decide_eq_true_eq] at hissue
    have howes : (Task.login appNonce redirect : Task ω).owes n =
        if appNonce = some n then 1 else 0 := rfl
    rw [howes]
    exact hissue.trans (Nat.add_le_add_right hprune _)
  | callback phase =>
    cases phase with
    | refused | parked => exact le_refl _
    | called token =>
      simp only [Task.advance, Callback.advance, CsrfStore.consume]
      cases hget : KeyedRows.get Pending.token token (d.csrf.prune d.clock).pending with
      | none => exact Nat.add_le_add_right hprune 0
      | some p =>
        obtain ⟨hmem, hlive⟩ := List.mem_filter.mp (List.mem_of_find?_eq_some hget)
        have hdeadline : d.clock < p.deadline := of_decide_eq_true hlive
        have hkey : p.token = token := KeyedRows.key_of_get hget
        simp only [if_pos hdeadline]
        show (((d.csrf.prune d.clock).pending.filter fun q => decide (q.token ≠ token)).filter
            fun q => decide (q.appNonce = some n)).length +
          (if decide (p.appNonce = some n) = true then 1 else 0) ≤ _ + 0
        have hcomm : ∀ p q : Pending → Bool, ∀ l : List Pending,
            (l.filter p).filter q = (l.filter q).filter p := by
          intro p q l
          simp only [List.filter_filter, Bool.and_comm]
        rw [hcomm]
        by_cases hnonce : p.appNonce = some n
        · -- the row that is consumed carries the nonce
          rw [if_pos (decide_eq_true hnonce)]
          have hrow : p ∈ (d.csrf.prune d.clock).carrying n :=
            List.mem_filter.mpr ⟨List.mem_of_find?_eq_some hget, decide_eq_true hnonce⟩
          have hlt : (((d.csrf.prune d.clock).carrying n).filter
              fun q => decide (q.token ≠ token)).length <
                ((d.csrf.prune d.clock).carrying n).length := by
            apply List.length_filter_lt_length_iff_exists.mpr
            exact ⟨p, hrow, by simp [hkey]⟩
          exact (Nat.succ_le_of_lt hlt).trans hprune
        · rw [if_neg fun h => hnonce (of_decide_eq_true h)]
          exact (List.length_filter_le _ _).trans hprune
    | consumed state =>
      simp only [Task.advance, Callback.advance]
      split
      · exact Nat.add_le_add_left (Nat.zero_le _) _
      · cases state.appNonce <;> exact le_refl _
    | exchanging state b =>
      simp only [Task.advance, Callback.advance]
      split
      · exact Nat.add_le_add_left (Nat.zero_le _) _
      · exact Nat.add_le_add_left (Nat.zero_le _) _
  | poll m phase =>
    cases phase with
    | called | checkingFlight | answered => exact le_refl _
    | checkingPending => exact Nat.add_le_add_right hprune 0

/-- The flows have different nonces. -/
def Distinct (c : Config (Desk ω) (Task ω)) : Move Happening (Env ω) → Prop
  | .arrive (.login (some n) _) => n ∉ c.shared.started
  | _ => True

/-- Every nonce was started once, and is pending or in hand once at most. -/
structure Single (c : Config (Desk ω) (Task ω)) : Prop where
  started : c.shared.started.Nodup
  budget : ∀ n, (c.shared.csrf.carrying n).length + (c.tasks.map (Task.owes n)).sum ≤
    c.shared.started.count n

theorem single_step {m : Move Happening (Env ω)} (h : Single c) (hm : Distinct c m) :
    Single (deskSystem.step c m) := by
  constructor
  · apply deskSystem.step_shared (J := fun d => d.started.Nodup) h.started
    · rintro a rfl
      cases a with
      | login appNonce redirect =>
        cases appNonce with
        | none => exact h.started
        | some n => exact List.nodup_cons.mpr ⟨hm, h.started⟩
      | callback | poll | elapse => exact h.started
    · intro i env t _ _
      show (t.advance env c.shared).1.started.Nodup
      rw [(clock_advance env t c.shared).2]
      exact h.started
  · intro n
    apply deskSystem.step_budget (w := fun d => (d.csrf.carrying n).length)
      (b := fun d => d.started.count n) (h.budget n)
    · rintro a -
      cases a with
      | login appNonce redirect =>
        show (c.shared.csrf.carrying n).length + (if appNonce = some n then 1 else 0) + _ ≤
          (c.shared.csrf.carrying n).length + (appNonce.toList ++ c.shared.started).count n
        cases appNonce with
        | none => exact le_refl _
        | some n' =>
          rw [Option.toList_some, List.singleton_append, List.count_cons]
          by_cases hn : n' = n
          · rw [if_pos (congrArg some hn), if_pos (beq_iff_eq.mpr hn)]
            omega
          · have hne : ¬ some n' = some n := fun h => hn (Option.some.inj h)
            rw [if_neg hne]
            exact Nat.add_le_add_left (Nat.le_add_right _ _) _
      | callback | poll | elapse => exact le_refl _
    · intro i env t _ _
      have hstep := budget_advance n env t c.shared
      have hstarted := (clock_advance env t c.shared).2
      show ((t.advance env c.shared).1.csrf.carrying n).length +
        (t.advance env c.shared).2.owes n + _ ≤ _ + (t.advance env c.shared).1.started.count n
      rw [hstarted]
      omega

/-- Two callbacks do not hold one nonce. -/
theorem Single.eq_of_holds (h : Single c) {i j : Nat} {u : Task ω} (ht : c.tasks[i]? = some t)
    (hu : c.tasks[j]? = some u) (htn : t.holds n = true) (hun : u.holds n = true) : i = j := by
  by_contra hne
  have hcount := List.nodup_iff_count_le_one.mp h.started n
  have hbudget := h.budget n
  -- without the first, the second still owes its nonce
  have hset := System.sum_map_set (f := Task.owes n) ht .idle
  have hmem : u ∈ c.tasks.set i .idle := by
    have hget : (c.tasks.set i .idle)[j]? = some u := by
      rw [List.getElem?_set_ne hne, hu]
    exact List.mem_of_getElem? hget
  have hle : u.owes n ≤ ((c.tasks.set i .idle).map (Task.owes n)).sum :=
    List.le_sum_of_mem (List.mem_map_of_mem hmem)
  have hidle : (Task.idle : Task ω).owes n = 0 := rfl
  rw [owes_of_holds htn, hidle] at hset
  rw [owes_of_holds hun] at hle
  omega

/-! ## What a poll has seen -/

/-- A request whose next region runs beside the other requests. A callback consumes no
    authorization while a poll for its nonce has found the flow not in flight, and parks no outcome
    while a poll for its nonce has found no outcome. A poll asks for the marker only when a callback
    that holds its nonce has set it, less than 300 s ago. -/
def ClearTask (c : Config (Desk ω) (Task ω)) (env : Env ω) : Task ω → Prop
  | .callback (.called token) => ∀ p ∈ c.shared.csrf.pending, p.token = token →
    c.shared.clock < p.deadline → ∀ n ∈ p.appNonce, .poll n .checkingPending ∉ c.tasks
  | .callback (.exchanging state _) => env.dropped = false →
    ∀ n ∈ state.appNonce, .poll n .checkingFlight ∉ c.tasks
  | .poll n .checkingFlight => ∀ t ∈ c.tasks, t.holds n → t.marks c.shared.clock
  | _ => True

def Clear (c : Config (Desk ω) (Task ω)) : Move Happening (Env ω) → Prop
  | .arrive _ => True
  | .advance k env => ∀ t ∈ c.tasks[k]?, ClearTask c env t

section Deciding

variable [DecidableEq ω]

instance (n : String) (c : Config (Desk ω) (Task ω)) : Decidable (Alive n c) :=
  inferInstanceAs (Decidable (_ ∨ _ ∨ _))

instance (c : Config (Desk ω) (Task ω)) : ∀ m, Decidable (Distinct c m)
  | .arrive (.login (some n) _) => inferInstanceAs (Decidable (n ∉ c.shared.started))
  | .arrive (.login none _) | .arrive (.callback _) | .arrive (.poll _ _)
  | .arrive (.elapse _) | .advance _ _ => inferInstanceAs (Decidable True)

instance (c : Config (Desk ω) (Task ω)) (env : Env ω) : ∀ t, Decidable (ClearTask c env t)
  | .callback (.called token) => inferInstanceAs (Decidable (∀ p ∈ c.shared.csrf.pending,
      p.token = token → c.shared.clock < p.deadline →
        ∀ n ∈ p.appNonce, .poll n .checkingPending ∉ c.tasks))
  | .callback (.exchanging state _) => inferInstanceAs (Decidable (env.dropped = false →
      ∀ n ∈ state.appNonce, .poll n .checkingFlight ∉ c.tasks))
  | .poll n .checkingFlight =>
    inferInstanceAs (Decidable (∀ t ∈ c.tasks, t.holds n → t.marks c.shared.clock))
  | .callback (.consumed _) | .callback .refused | .callback .parked | .poll _ (.called _)
  | .poll _ .checkingPending | .poll _ (.answered _) | .login _ _ | .redirected | .idle =>
    inferInstanceAs (Decidable True)

instance (c : Config (Desk ω) (Task ω)) : ∀ m, Decidable (Clear c m)
  | .arrive _ => inferInstanceAs (Decidable True)
  | .advance k env => inferInstanceAs (Decidable (∀ t ∈ c.tasks[k]?, ClearTask c env t))

end Deciding

/-- A callback that asks the provider has left its marker. -/
def Marked (d : Desk ω) : Task ω → Prop
  | .callback (.exchanging state b) => ∀ n ∈ state.appNonce,
    d.handoff.inFlight n = some b ∨ b + inFlightTtl ≤ d.clock
  | _ => True

/-- What the polls have seen is still so. -/
structure Watched (c : Config (Desk ω) (Task ω)) : Prop where
  marked : ∀ t ∈ c.tasks, Marked c.shared t
  noOutcome : ∀ n, .poll n .checkingFlight ∈ c.tasks → c.shared.handoff.ready n = none
  notHeld : ∀ n, .poll n .checkingPending ∈ c.tasks →
    c.shared.handoff.ready n = none ∧ ∀ t ∈ c.tasks, t.holds n = false

theorem Marked.advance {u : Task ω} (h : Marked d u)
    (hother : ∀ n, u.holds n = true → t.holds n = false) :
    Marked (t.advance env d).1 u := by
  cases u with
  | login | redirected | poll | idle => trivial
  | callback phase =>
    cases phase with
    | called | consumed | refused | parked => trivial
    | exchanging state b =>
      intro n hn
      rw [(clock_advance env t d).1]
      by_cases hfresh : d.clock < b + inFlightTtl
      · left
        have hmark := (h n hn).resolve_right (by omega)
        exact inFlight_advance hmark hfresh (hother n (decide_eq_true hn))
      · right
        omega

/-- The callback that moves sets its marker. -/
theorem marked_advance : Marked (t.advance env d).1 (t.advance env d).2 := by
  cases t with
  | login | redirected | poll | idle => trivial
  | callback phase =>
    cases phase with
    | refused | parked => trivial
    | called token =>
      simp only [Task.advance, Callback.advance]
      cases (d.csrf.consume d.clock token).2 <;> trivial
    | consumed state =>
      simp only [Task.advance, Callback.advance]
      split
      · trivial
      · intro n hn
        left
        rw [show state.appNonce = some n from hn]
        exact Function.update_self ..
    | exchanging state b =>
      simp only [Task.advance, Callback.advance]
      split <;> trivial

/-- A poll that has looked for the outcome answers with it, or asks for the marker next. -/
theorem pollCollect_phase (n : String) (allowUnbound : Bool) (d : Desk ω) :
    (pollCollect n allowUnbound d).2 = .checkingFlight ∨
      ∃ o, (pollCollect n allowUnbound d).2 = .answered (.outcome o) := by
  have hnext : ∀ out : Option ω,
      (out.elim Poll.checkingFlight fun o => .answered (.outcome o)) = .checkingFlight ∨
        ∃ o, (out.elim Poll.checkingFlight fun o => .answered (.outcome o)) =
          .answered (.outcome o) := by
    intro out
    cases out with
    | none => exact Or.inl rfl
    | some o => exact Or.inr ⟨o, rfl⟩
  exact hnext _

/-- What a poll becomes, a poll for the same nonce was. -/
theorem poll_of_advance {next : Poll ω} (h : (t.advance env d).2 = .poll n next) :
    ∃ phase, t = .poll n phase := by
  cases t with
  | login | redirected | callback | idle => cases h
  | poll m phase =>
    have hm : m = n := by
      cases phase <;> exact (Task.poll.inj h).1
    exact ⟨phase, by rw [hm]⟩

/-- A poll goes on to ask for the marker when there is no outcome. -/
theorem advance_checkingFlight (h : (t.advance env d).2 = .poll n .checkingFlight) :
    (t.advance env d).1.handoff.ready n = none := by
  obtain ⟨phase, rfl⟩ := poll_of_advance h
  cases phase with
  | called allowUnbound =>
    simp only [Task.advance, Poll.advance, pollCollect]
    split
    · exact ready_collectRecent ready_collect_self
    · exact ready_collect_self
  | checkingFlight =>
    simp only [Task.advance, Poll.advance] at h
    split at h <;> cases h
  | checkingPending => cases h
  | answered reply => cases h

/-- A poll goes on to ask for the authorization when there is no marker. -/
theorem advance_checkingPending (h : (t.advance env d).2 = .poll n .checkingPending) :
    t = .poll n .checkingFlight ∧ (d.handoff.prune d.clock).inFlight n = none := by
  obtain ⟨phase, rfl⟩ := poll_of_advance h
  cases phase with
  | called allowUnbound =>
    have hphase := (Task.poll.inj h).2
    rcases pollCollect_phase n allowUnbound d with hnext | ⟨o, hnext⟩
    · cases hnext.symm.trans hphase
    · cases hnext.symm.trans hphase
  | checkingFlight =>
    refine ⟨rfl, ?_⟩
    obtain ⟨-, hphase⟩ := Task.poll.inj h
    cases hmark : (d.handoff.prune d.clock).inFlight n with
    | none => rfl
    | some b =>
      simp only [hmark] at hphase
      cases hphase
  | checkingPending => cases h
  | answered reply => cases h

/-! ## Steps -/

theorem watched_arrive (a : Happening) (h : Watched c) :
    Watched (deskSystem.step c (.arrive a)) := by
  have hclock : c.shared.clock ≤ (a.spawn c.shared).1.clock := by
    cases a with
    | elapse nanos => exact Nat.le_add_right _ _
    | login | callback | poll => exact le_refl _
  have hhandoff : (a.spawn c.shared).1.handoff = c.shared.handoff := by
    cases a <;> rfl
  have hmark : ∀ u, Marked c.shared u → Marked (a.spawn c.shared).1 u := by
    intro u hu
    cases u with
    | login | redirected | poll | idle => trivial
    | callback phase =>
      cases phase with
      | called | consumed | refused | parked => trivial
      | exchanging state b =>
        intro n hn
        rw [hhandoff]
        exact (hu n hn).imp_right fun hle => hle.trans hclock
  rw [System.step_arrive]
  refine ⟨forall_mem_append_singleton (fun u hu => hmark u (h.marked u hu)) ?_, fun n hn => ?_,
    fun n hn => ?_⟩
  · cases a <;> trivial
  · show (a.spawn c.shared).1.handoff.ready n = none
    rw [hhandoff]
    rcases List.mem_append.mp hn with hold | hnew
    · exact h.noOutcome n hold
    · cases a <;> cases List.mem_singleton.mp hnew
  · show (a.spawn c.shared).1.handoff.ready n = none ∧ _
    rw [hhandoff]
    rcases List.mem_append.mp hn with hold | hnew
    · refine ⟨(h.notHeld n hold).1, forall_mem_append_singleton (h.notHeld n hold).2 ?_⟩
      cases a <;> rfl
    · cases a <;> cases List.mem_singleton.mp hnew

theorem watched_advance {k : Nat} (hsingle : Single c) (h : Watched c)
    (hclear : Clear c (.advance k env)) (ht : c.tasks[k]? = some t) :
    Watched ⟨(t.advance env c.shared).1, c.tasks.set k (t.advance env c.shared).2⟩ := by
  have htask := List.mem_of_getElem? ht
  have hlength : k < c.tasks.length := (List.getElem?_eq_some_iff.mp ht).1
  -- a task of the new state is the one that moved, or it stands where it stood
  have hsplit : ∀ u ∈ c.tasks.set k (t.advance env c.shared).2,
      u = (t.advance env c.shared).2 ∨ ∃ j, j ≠ k ∧ c.tasks[j]? = some u := by
    intro u hu
    obtain ⟨j, hj⟩ := List.mem_iff_getElem?.mp hu
    by_cases hjk : k = j
    · rw [← hjk, List.getElem?_set_self hlength] at hj
      exact Or.inl (Option.some.inj hj).symm
    · rw [List.getElem?_set_ne hjk] at hj
      exact Or.inr ⟨j, Ne.symm hjk, hj⟩
  have hclear := hclear t ht
  constructor
  · intro u hu
    rcases hsplit u hu with rfl | ⟨j, hjk, hj⟩
    · exact marked_advance
    · apply (h.marked u (List.mem_of_getElem? hj)).advance
      intro n hun
      by_contra htn
      exact hjk (hsingle.eq_of_holds hj ht hun (Bool.not_eq_false _ ▸ htn))
  · intro n hn
    rcases hsplit _ hn with hnew | ⟨j, -, hj⟩
    · exact advance_checkingFlight hnew.symm
    · have hpoll := List.mem_of_getElem? hj
      apply ready_advance (h.noOutcome n hpoll)
      rintro state b rfl hlives hnonce
      exact hclear hlives n hnonce hpoll
  · intro n hn
    rcases hsplit _ hn with hnew | ⟨j, -, hj⟩
    · -- it has just found no marker, so no callback holds the nonce
      obtain ⟨rfl, hmarker⟩ := advance_checkingPending hnew.symm
      have hready : ((Task.poll n .checkingFlight).advance env c.shared).1.handoff.ready n = none :=
        ready_advance (h.noOutcome n htask) (by rintro state b ⟨⟩)
      refine ⟨hready, fun u hu => ?_⟩
      rcases hsplit u hu with rfl | ⟨j, -, hj⟩
      · rw [← hnew]
        rfl
      · by_contra hun
        have hu' := List.mem_of_getElem? hj
        obtain ⟨state, b, rfl, hfresh⟩ := of_marks (hclear u hu' (Bool.not_eq_false _ ▸ hun))
        have hnonce : state.appNonce = some n := of_decide_eq_true (Bool.not_eq_false _ ▸ hun)
        have hmark := (h.marked _ hu' n hnonce).resolve_right (by omega)
        rw [inFlight_prune hmark hfresh] at hmarker
        cases hmarker
    · have hpoll := List.mem_of_getElem? hj
      obtain ⟨hready, hheld⟩ := h.notHeld n hpoll
      constructor
      · apply ready_advance hready
        rintro state b rfl - hnonce
        have hholds : (Task.callback (ω := ω) (.exchanging state b)).holds n = true :=
          decide_eq_true hnonce
        rw [hheld _ htask] at hholds
        cases hholds
      · intro u hu
        rcases hsplit u hu with rfl | ⟨j', -, hj'⟩
        · by_contra hun
          rcases holds_advance (Bool.not_eq_false _ ▸ hun) with hholds |
            ⟨token, rfl, p, hp, htoken, hlive, hnonce⟩
          · rw [hheld t htask] at hholds
            cases hholds
          · exact hclear p hp htoken hlive n hnonce hpoll
        · exact hheld u (List.mem_of_getElem? hj')

theorem watched_step {m : Move Happening (Env ω)} (hsingle : Single c) (h : Watched c)
    (hclear : Clear c m) : Watched (deskSystem.step c m) := by
  cases m with
  | arrive a => exact watched_arrive a h
  | advance k env =>
    cases ht : c.tasks[k]? with
    | none =>
      rw [deskSystem.step_advance_none env ht]
      exact h
    | some t =>
      rw [deskSystem.step_advance_some env ht]
      exact watched_advance hsingle h hclear ht

/-! ## Runs -/

/-- A poll is answered 410 only at a moment when the flow is not alive. -/
def GoneOnlyDead (c : Config (Desk ω) (Task ω)) : Move Happening (Env ω) → Prop
  | .arrive _ => True
  | .advance k env => ∀ n phase, c.tasks[k]? = some (.poll n phase) → phase ≠ .answered .gone →
    ((Task.poll n phase).advance env c.shared).2 = .poll n (.answered .gone) → ¬ Alive n c

theorem goneOnlyDead {m : Move Happening (Env ω)} (h : Watched c) : GoneOnlyDead c m := by
  cases m with
  | arrive a => trivial
  | advance k env =>
    intro n phase ht hbefore hgone
    obtain ⟨-, hphase⟩ := Task.poll.inj hgone
    cases phase with
    | called allowUnbound =>
      rcases pollCollect_phase n allowUnbound c.shared with hnext | ⟨o, hnext⟩
      · cases hnext.symm.trans hphase
      · cases hnext.symm.trans hphase
    | checkingFlight =>
      cases hfound : (c.shared.handoff.isInFlight c.shared.clock n).2 with
      | false =>
        simp only [hfound] at hphase
        cases hphase
      | true =>
        simp only [hfound] at hphase
        cases hphase
    | answered reply =>
      obtain rfl := Poll.answered.inj hphase
      exact absurd rfl hbefore
    | checkingPending =>
      have hfound : (c.shared.csrf.hasPendingNonce c.shared.clock n).2 = false := by
        cases hfound : (c.shared.csrf.hasPendingNonce c.shared.clock n).2 with
        | false => rfl
        | true =>
          simp only [hfound] at hphase
          cases hphase
      obtain ⟨hready, hheld⟩ := h.notHeld n (List.mem_of_getElem? ht)
      rintro (⟨p, hp, hnonce, hlive⟩ | ⟨t, ht', hholds⟩ | ⟨slot, hslot, -⟩)
      · have hpending : p ∈ (c.shared.csrf.prune c.shared.clock).pending :=
          List.mem_filter.mpr ⟨hp, decide_eq_true hlive⟩
        exact List.any_eq_false.mp hfound p hpending (decide_eq_true hnonce)
      · rw [hheld t ht'] at hholds
        cases hholds
      · rw [hready] at hslot
        cases hslot

theorem single_start (clock : Nat) : Single (start (ω := ω) clock) where
  started := List.nodup_nil
  budget _ := Nat.zero_le _

theorem watched_start (clock : Nat) : Watched (start (ω := ω) clock) where
  marked _ ht := by cases ht
  noOutcome _ ht := by cases ht
  notHeld _ ht := by cases ht

/-- **Run.** A poll that is answered 410 had, at the moment of its last look, nothing to look for:
    no authorization was pending, no callback had the flow in hand, and no outcome waited. -/
theorem live_flow_not_expired (clock : Nat) (moves : List (Move Happening (Env ω)))
    (h : Guarded deskSystem.step (fun c m => Distinct c m ∧ Clear c m) (start clock) moves) :
    Guarded deskSystem.step GoneOnlyDead (start clock) moves :=
  h.guarantee (I := fun c => Single c ∧ Watched c)
    (fun _ _ hinv hm => ⟨⟨single_step hinv.1 hm.1, watched_step hinv.1 hinv.2 hm.2⟩,
      goneOnlyDead hinv.2⟩)
    ⟨single_start clock, watched_start clock⟩

/-! ### A callback that starts while the poll is on its way -/

def exampleEnv : Env String := ⟨"state", "verifier", "signed in", false⟩

/-- The flow is started, and its authorization is pending. -/
def pendingRun : List (Move Happening (Env String)) :=
  [.arrive (.login (some "nonce") none), .advance 0 exampleEnv]

/-- The poll finds no outcome and no marker. Then the callback consumes the authorization and sets
    its marker, and then the poll asks for the authorization. -/
def overtakenRun : List (Move Happening (Env String)) :=
  [.arrive (.poll "nonce" false), .advance 1 exampleEnv, .advance 1 exampleEnv,
    .arrive (.callback "state"), .advance 2 exampleEnv, .advance 2 exampleEnv,
    .advance 1 exampleEnv]

/-- The flow is alive all the time, and the poll is answered 410. -/
theorem live_flow_expired :
    Guarded deskSystem.step Distinct (start 0) (pendingRun ++ overtakenRun) ∧
      Guarded deskSystem.step (fun c _ => Alive "nonce" c)
        (after deskSystem.step (start 0) pendingRun) overtakenRun ∧
      Alive "nonce" (after deskSystem.step (start 0) (pendingRun ++ overtakenRun)) ∧
      (after deskSystem.step (start 0) (pendingRun ++ overtakenRun)).tasks[1]? =
        some (.poll "nonce" (.answered .gone)) := by
  decide

/-- The poll is done before the callback starts. -/
def orderlyRun : List (Move Happening (Env String)) :=
  [.arrive (.poll "nonce" false), .advance 1 exampleEnv, .advance 1 exampleEnv,
    .advance 1 exampleEnv, .arrive (.callback "state"), .advance 2 exampleEnv,
    .advance 2 exampleEnv, .advance 2 exampleEnv]

theorem live_flow_not_expired_orderly :
    Guarded deskSystem.step (fun c m => Distinct c m ∧ Clear c m) (start 0)
        (pendingRun ++ orderlyRun) ∧
      Guarded deskSystem.step GoneOnlyDead (start 0) (pendingRun ++ orderlyRun) := by
  have h : Guarded deskSystem.step (fun c m => Distinct c m ∧ Clear c m) (start 0)
      (pendingRun ++ orderlyRun) := by decide
  exact ⟨h, live_flow_not_expired 0 _ h⟩

end CirisServer.Handoff
