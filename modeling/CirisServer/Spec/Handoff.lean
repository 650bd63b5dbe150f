import Mathlib.Tactic.Push
import CirisServer.ForStd.Run
import CirisServer.Native.Handoff

/-!
# A parked sign-in is handed out once

An outcome that was parked under a nonce lies in two places: under its nonce, and in the recent
slot. `collect` clears the recent slot, whoever's outcome lies there, and `collect_recent` leaves
the other place as it is. The parcels of this file carry the number of their park, so that two
equal outcomes are told apart; `run_map` says that the store does not see the numbers.

Key results:
- `run_map`: an operation does not look into the outcomes
- `handed_out_once`: every run whose calls meet the condition, and what a call does that does not
- `collected_twice`: the two runs
-/

namespace CirisServer.Handoff

open Run

variable {ω υ : Type}

/-! ## Operations -/

inductive Op (ω : Type) where
  | park (nonce : Option String) (outcome : ω)
  | collect (nonce : String)
  | collectRecent
  | beginFlight (nonce : String)
deriving DecidableEq

/-- The store after an operation, and what it returned. -/
def Op.run (op : Op ω) (now now' : Nat) (h : HandoffStore ω) : HandoffStore ω × Option ω :=
  match op with
  | .park nonce outcome => (h.park now now' nonce outcome, none)
  | .collect nonce => h.collect now now' nonce
  | .collectRecent => h.collectRecent now now'
  | .beginFlight nonce => (h.beginFlight now now' nonce, none)

def Op.map (f : ω → υ) : Op ω → Op υ
  | .park nonce outcome => .park nonce (f outcome)
  | .collect nonce => .collect nonce
  | .collectRecent => .collectRecent
  | .beginFlight nonce => .beginFlight nonce

namespace HandoffStore

@[simp] theorem live_eq_some {now : Nat} {slot : Option (ω × Nat)} {o : ω} {d : Nat} :
    live now slot = some (o, d) ↔ slot = some (o, d) ∧ now < d := by
  simp [live, Option.filter_eq_some_iff]

theorem live_some (now : Nat) (p : ω × Nat) :
    live now (some p) = if now < p.2 then some p else none := by
  rw [live, Option.filter_some]
  simp

def map (f : ω → υ) (h : HandoffStore ω) : HandoffStore υ where
  ready n := (h.ready n).map fun p => (f p.1, p.2)
  recent := h.recent.map fun p => (f p.1, p.2)
  inFlight := h.inFlight

theorem live_map (f : ω → υ) (now : Nat) (slot : Option (ω × Nat)) :
    live now (slot.map fun p => (f p.1, p.2)) = (live now slot).map fun p => (f p.1, p.2) := by
  cases slot with
  | none => rfl
  | some p =>
    rw [Option.map_some, live_some, live_some]
    by_cases h : now < p.2
    · rw [if_pos h, if_pos h, Option.map_some]
    · rw [if_neg h, if_neg h, Option.map_none]

theorem prune_map (f : ω → υ) (now : Nat) (h : HandoffStore ω) :
    (h.map f).prune now = (h.prune now).map f := by
  simp only [prune, map, live_map]

theorem update_map (f : ω → υ) (ready : String → Option (ω × Nat)) (n : String)
    (slot : Option (ω × Nat)) :
    Function.update (fun m => (ready m).map fun p => (f p.1, p.2)) n
        (slot.map fun p => (f p.1, p.2)) =
      fun m => (Function.update ready n slot m).map fun p => (f p.1, p.2) := by
  funext m
  by_cases h : m = n
  · rw [h, Function.update_self, Function.update_self]
  · rw [Function.update_of_ne h, Function.update_of_ne h]

/-! ### What each operation does -/

/-- **Collect.** It returns what is live under the nonce and clears the recent slot, or it returns
    nothing. -/
theorem collect_cases (h : HandoffStore ω) (now now' : Nat) (n : String) :
    (∃ o d, h.ready n = some (o, d) ∧ now < d ∧ now' < d ∧
      h.collect now now' n =
        ({ h.prune now with
            ready := Function.update (h.prune now).ready n none, recent := none }, some o)) ∨
    ((∀ o d, h.ready n = some (o, d) → d ≤ now ∨ d ≤ now') ∧
      h.collect now now' n =
        ({ h.prune now with ready := Function.update (h.prune now).ready n none }, none)) := by
  cases hslot : (h.prune now).ready n with
  | none =>
    refine Or.inr ⟨fun o d hready => Or.inl (not_lt.mp fun hlt => ?_), ?_⟩
    · have hlive : live now (h.ready n) = some (o, d) := live_eq_some.mpr ⟨hready, hlt⟩
      rw [show live now (h.ready n) = none from hslot] at hlive
      cases hlive
    · have hsame : Function.update (h.prune now).ready n none = (h.prune now).ready := by
        rw [← hslot, Function.update_eq_self]
      simp only [collect, hslot, hsame]
  | some p =>
    obtain ⟨o, d⟩ := p
    obtain ⟨hready, hlt⟩ := live_eq_some.mp (show live now (h.ready n) = some (o, d) from hslot)
    by_cases hlate : now' < d
    · exact Or.inl ⟨o, d, hready, hlt, hlate, by simp only [collect, hslot, if_pos hlate]⟩
    · refine Or.inr ⟨fun o' d' hready' => ?_, by simp only [collect, hslot, if_neg hlate]⟩
      rw [hready] at hready'
      cases hready'
      exact Or.inr (not_lt.mp hlate)

/-- **Collect recent.** It returns what is live in the slot, or nothing, and clears the slot. -/
theorem collectRecent_cases (h : HandoffStore ω) (now now' : Nat) :
    (∃ o d, h.recent = some (o, d) ∧ now < d ∧ now' < d ∧
      h.collectRecent now now' = ({ h.prune now with recent := none }, some o)) ∨
    ((∀ o d, h.recent = some (o, d) → d ≤ now ∨ d ≤ now') ∧
      h.collectRecent now now' = ({ h.prune now with recent := none }, none)) := by
  cases hslot : (h.prune now).recent with
  | none =>
    refine Or.inr ⟨fun o d hrecent => Or.inl (not_lt.mp fun hlt => ?_), ?_⟩
    · have hlive : live now h.recent = some (o, d) := live_eq_some.mpr ⟨hrecent, hlt⟩
      rw [show live now h.recent = none from hslot] at hlive
      cases hlive
    · have hsame : { h.prune now with recent := none } = h.prune now := by
        rw [← hslot]
      simp only [collectRecent, hslot, hsame]
  | some p =>
    obtain ⟨o, d⟩ := p
    obtain ⟨hrecent, hlt⟩ := live_eq_some.mp (show live now h.recent = some (o, d) from hslot)
    by_cases hlate : now' < d
    · exact Or.inl ⟨o, d, hrecent, hlt, hlate, by simp only [collectRecent, hslot, if_pos hlate]⟩
    · refine Or.inr ⟨fun o' d' hrecent' => ?_, by simp only [collectRecent, hslot, if_neg hlate]⟩
      rw [hrecent] at hrecent'
      cases hrecent'
      exact Or.inr (not_lt.mp hlate)

end HandoffStore

open HandoffStore

/-- **Erasure.** An operation does not look into the outcomes. -/
theorem run_map (f : ω → υ) (op : Op ω) (now now' : Nat) (h : HandoffStore ω) :
    (op.map f).run now now' (h.map f) =
      ((op.run now now' h).1.map f, (op.run now now' h).2.map f) := by
  cases op with
  | park nonce outcome =>
    simp only [Op.map, Op.run, Option.map_none, HandoffStore.park, prune_map]
    cases nonce with
    | none => rfl
    | some n =>
      have hready := update_map f (h.prune now).ready n (some (outcome, now' + outcomeTtl))
      simp only [Option.map_some] at hready
      simp only [Option.elim, putReady, HandoffStore.map, hready, Option.map_some]
  | collect n =>
    simp only [Op.map, Op.run, HandoffStore.collect, prune_map]
    have hready := update_map f (h.prune now).ready n none
    simp only [Option.map_none] at hready
    cases hslot : (h.prune now).ready n with
    | none => simp [HandoffStore.map, hslot]
    | some p =>
      by_cases hlate : now' < p.2
      · simp only [HandoffStore.map, hslot, Option.map_some, hlate, if_true, hready]
        rfl
      · simp only [HandoffStore.map, hslot, Option.map_some, hlate, if_false, hready]
        rfl
  | collectRecent =>
    simp only [Op.map, Op.run, HandoffStore.collectRecent, prune_map]
    cases hslot : (h.prune now).recent with
    | none => simp [HandoffStore.map, hslot]
    | some p => by_cases hlate : now' < p.2 <;> simp [HandoffStore.map, hslot, hlate]
  | beginFlight n =>
    simp only [Op.map, Op.run, HandoffStore.beginFlight, prune_map]
    rfl

/-! ## Runs -/

/-- A parked outcome, with the number of its call and the nonce it was parked under. -/
structure Parcel (ω : Type) where
  number : Nat
  nonce : Option String
  outcome : ω
deriving DecidableEq

def Op.tag (number : Nat) : Op ω → Op (Parcel ω)
  | .park nonce outcome => .park nonce ⟨number, nonce, outcome⟩
  | .collect nonce => .collect nonce
  | .collectRecent => .collectRecent
  | .beginFlight nonce => .beginFlight nonce

/-- An operation, with the time that goes by before it and in it. -/
structure Call (ω : Type) where
  op : Op ω
  wait : Nat := 0
  within : Nat := 0
deriving DecidableEq

/-- The store, how many calls it has had, and what it has handed out, the newest first. -/
structure Counter (ω : Type) where
  clock : Nat
  store : HandoffStore (Parcel ω)
  calls : Nat
  handed : List (Parcel ω)

namespace Counter

variable (c : Counter ω) (call : Call ω)

/-- The instants at which the call reads the clock. -/
def first : Nat := c.clock + call.wait

def last : Nat := c.first call + call.within

/-- What the call does. -/
def serve : HandoffStore (Parcel ω) × Option (Parcel ω) :=
  (call.op.tag c.calls).run (c.first call) (c.last call) c.store

def step : Counter ω where
  clock := c.last call
  store := (c.serve call).1
  calls := c.calls + 1
  handed := (c.serve call).2.toList ++ c.handed

/-- A new process. -/
def new (clock : Nat) : Counter ω := ⟨clock, {}, 0, []⟩

theorem clock_le_first : c.clock ≤ c.first call := Nat.le_add_right _ _

theorem first_le_last : c.first call ≤ c.last call := Nat.le_add_right _ _

/-- Without the numbers it is the call on the store. -/
theorem serve_map :
    ((c.serve call).1.map Parcel.outcome, (c.serve call).2.map Parcel.outcome) =
      call.op.run (c.first call) (c.last call) (c.store.map Parcel.outcome) := by
  have htag : (call.op.tag c.calls).map Parcel.outcome = call.op := by
    cases call.op <;> rfl
  have herase := run_map Parcel.outcome (call.op.tag c.calls) (c.first call) (c.last call) c.store
  rw [htag] at herase
  exact herase.symm

/-! ## What has to hold of a call -/

/-- `collect_recent` finds no outcome that was parked under a nonce, and a `collect` that finds
    its outcome finds none in the recent slot that was parked without. -/
def Orderly : Prop :=
  match call.op with
  | .collectRecent =>
    ∀ slot ∈ c.store.recent, c.last call < slot.2 → slot.1.nonce = none
  | .collect n =>
    ∀ own ∈ c.store.ready n, c.last call < own.2 →
      ∀ slot ∈ c.store.recent, c.last call < slot.2 → slot.1.nonce ≠ none
  | .park _ _ | .beginFlight _ => True

/-- An outcome that was parked without a nonce is left where it is, or returned, or it has
    expired, or another is parked. -/
def Keeps : Prop :=
  ∀ slot ∈ c.store.recent, slot.1.nonce = none →
    (c.step call).store.recent = some slot ∨ slot.1 ∈ (c.serve call).2 ∨ slot.2 ≤ c.last call ∨
      ∃ nonce outcome, call.op = .park nonce outcome

/-! ## The parcels -/

/-- A parcel that lies under a nonce was parked under it, and so was one in the recent slot, where
    it still lies unless it has expired. -/
structure Tagged (c : Counter ω) : Prop where
  ready : ∀ n, ∀ slot ∈ c.store.ready n, slot.1.nonce = some n ∧ slot.1.number < c.calls
  recent : ∀ slot ∈ c.store.recent, slot.1.number < c.calls ∧
    ∀ n, slot.1.nonce = some n → c.store.ready n = some slot ∨ slot.2 ≤ c.clock
  handed : ∀ p ∈ c.handed, p.number < c.calls

/-- What was handed out lies nowhere. -/
structure Once (c : Counter ω) : Prop where
  nodup : c.handed.Nodup
  ready : ∀ n, ∀ slot ∈ c.store.ready n, slot.1 ∉ c.handed
  recent : ∀ slot ∈ c.store.recent, slot.1 ∉ c.handed

/-- **Inversion.** What a call does, in its six ways. -/
inductive Effect (c : Counter ω) (call : Call ω) : Prop where
  | parked (nonce : Option String) (o : ω) (op : call.op = .park nonce o)
    (ready : ∀ m, (c.step call).store.ready m =
      if nonce = some m then some (⟨c.calls, nonce, o⟩, c.last call + outcomeTtl)
      else live (c.first call) (c.store.ready m))
    (recent : (c.step call).store.recent =
      some (⟨c.calls, nonce, o⟩, c.last call + outcomeTtl))
    (out : (c.serve call).2 = none)
  | collected (n : String) (p : Parcel ω) (d : Nat) (op : call.op = .collect n)
    (own : c.store.ready n = some (p, d)) (late : c.last call < d)
    (ready : ∀ m, (c.step call).store.ready m =
      if m = n then none else live (c.first call) (c.store.ready m))
    (recent : (c.step call).store.recent = none) (out : (c.serve call).2 = some p)
  | missed (n : String) (op : call.op = .collect n)
    (own : ∀ slot ∈ c.store.ready n, slot.2 ≤ c.last call)
    (ready : ∀ m, (c.step call).store.ready m =
      if m = n then none else live (c.first call) (c.store.ready m))
    (recent : (c.step call).store.recent = live (c.first call) c.store.recent)
    (out : (c.serve call).2 = none)
  | claimed (p : Parcel ω) (d : Nat) (op : call.op = .collectRecent)
    (own : c.store.recent = some (p, d)) (late : c.last call < d)
    (ready : ∀ m, (c.step call).store.ready m = live (c.first call) (c.store.ready m))
    (recent : (c.step call).store.recent = none) (out : (c.serve call).2 = some p)
  | unclaimed (op : call.op = .collectRecent)
    (own : ∀ slot ∈ c.store.recent, slot.2 ≤ c.last call)
    (ready : ∀ m, (c.step call).store.ready m = live (c.first call) (c.store.ready m))
    (recent : (c.step call).store.recent = none) (out : (c.serve call).2 = none)
  | began (n : String) (op : call.op = .beginFlight n)
    (ready : ∀ m, (c.step call).store.ready m = live (c.first call) (c.store.ready m))
    (recent : (c.step call).store.recent = live (c.first call) c.store.recent)
    (out : (c.serve call).2 = none)

theorem effect : Effect c call := by
  have hlast := c.first_le_last call
  cases hop : call.op with
  | park nonce o =>
    refine .parked nonce o hop (fun m => ?_) ?_ ?_
    · simp only [step, serve, hop, Op.tag, Op.run, HandoffStore.park]
      cases nonce with
      | none => rfl
      | some n =>
        by_cases hm : m = n
        · simp [putReady, hm]
        · have hne : ¬ some n = some m := fun h => hm (Option.some.inj h).symm
          simp only [Option.elim, putReady, Function.update_of_ne hm, if_neg hne]
          rfl
    · simp only [step, serve, hop, Op.tag, Op.run, HandoffStore.park]
    · simp only [serve, hop, Op.tag, Op.run]
  | collect n =>
    have hready : ∀ m, Function.update (c.store.prune (c.first call)).ready n none m =
        if m = n then none else live (c.first call) (c.store.ready m) := by
      intro m
      by_cases hm : m = n
      · rw [if_pos hm, hm, Function.update_self]
      · rw [if_neg hm, Function.update_of_ne hm]
        rfl
    rcases collect_cases c.store (c.first call) (c.last call) n with
      ⟨p, d, hown, -, hlate, heq⟩ | ⟨hgone, heq⟩
    · refine .collected n p d hop hown hlate (fun m => ?_) ?_ ?_
      · simp only [step, serve, hop, Op.tag, Op.run, heq, hready]
      · simp only [step, serve, hop, Op.tag, Op.run, heq]
      · simp only [serve, hop, Op.tag, Op.run, heq]
    · refine .missed n hop (fun slot hslot => ?_) (fun m => ?_) ?_ ?_
      · exact (hgone slot.1 slot.2 hslot).elim (Nat.le_trans · hlast) id
      · simp only [step, serve, hop, Op.tag, Op.run, heq, hready]
      · simp only [step, serve, hop, Op.tag, Op.run, heq]
        rfl
      · simp only [serve, hop, Op.tag, Op.run, heq]
  | collectRecent =>
    rcases collectRecent_cases c.store (c.first call) (c.last call) with
      ⟨p, d, hown, -, hlate, heq⟩ | ⟨hgone, heq⟩
    · refine .claimed p d hop hown hlate (fun m => ?_) ?_ ?_
      · simp only [step, serve, hop, Op.tag, Op.run, heq]
        rfl
      · simp only [step, serve, hop, Op.tag, Op.run, heq]
      · simp only [serve, hop, Op.tag, Op.run, heq]
    · refine .unclaimed hop (fun slot hslot => ?_) (fun m => ?_) ?_ ?_
      · exact (hgone slot.1 slot.2 hslot).elim (Nat.le_trans · hlast) id
      · simp only [step, serve, hop, Op.tag, Op.run, heq]
        rfl
      · simp only [step, serve, hop, Op.tag, Op.run, heq]
      · simp only [serve, hop, Op.tag, Op.run, heq]
  | beginFlight n =>
    refine .began n hop (fun m => ?_) ?_ ?_
    · simp only [step, serve, hop, Op.tag, Op.run, HandoffStore.beginFlight]
      rfl
    · simp only [step, serve, hop, Op.tag, Op.run, HandoffStore.beginFlight]
      rfl
    · simp only [serve, hop, Op.tag, Op.run]

/-- What lies under a nonce lay there before, or was parked just now. -/
theorem ready_step {m : String} {slot : Parcel ω × Nat}
    (h : slot ∈ (c.step call).store.ready m) :
    slot ∈ c.store.ready m ∨
      ∃ o, call.op = .park (some m) o ∧ slot.1 = ⟨c.calls, some m, o⟩ := by
  have hlive : ∀ now, slot ∈ live now (c.store.ready m) → slot ∈ c.store.ready m :=
    fun now hslot => (live_eq_some.mp hslot).1
  cases c.effect call with
  | parked nonce o op ready recent out =>
    rw [ready] at h
    split at h
    case isTrue hnonce =>
      cases h
      exact Or.inr ⟨o, by rw [op, hnonce], by rw [hnonce]⟩
    case isFalse => exact Or.inl (hlive _ h)
  | collected n p d op own late ready recent out =>
    rw [ready] at h
    split at h
    case isTrue => cases h
    case isFalse => exact Or.inl (hlive _ h)
  | missed n op own ready recent out =>
    rw [ready] at h
    split at h
    case isTrue => cases h
    case isFalse => exact Or.inl (hlive _ h)
  | claimed p d op own late ready recent out =>
    rw [ready] at h
    exact Or.inl (hlive _ h)
  | unclaimed op own ready recent out =>
    rw [ready] at h
    exact Or.inl (hlive _ h)
  | began n op ready recent out =>
    rw [ready] at h
    exact Or.inl (hlive _ h)

/-- What a call returns lay under its nonce, or in the recent slot. -/
theorem mem_of_out {p : Parcel ω} (h : (c.serve call).2 = some p) :
    (∃ n d, call.op = .collect n ∧ c.store.ready n = some (p, d) ∧ c.last call < d) ∨
    (∃ d, call.op = .collectRecent ∧ c.store.recent = some (p, d) ∧ c.last call < d) := by
  cases c.effect call with
  | parked nonce o op ready recent out =>
    rw [out] at h
    cases h
  | collected n p' d op own late ready recent out =>
    rw [out] at h
    cases h
    exact Or.inl ⟨n, d, op, own, late⟩
  | missed n op own ready recent out =>
    rw [out] at h
    cases h
  | claimed p' d op own late ready recent out =>
    rw [out] at h
    cases h
    exact Or.inr ⟨d, op, own, late⟩
  | unclaimed op own ready recent out =>
    rw [out] at h
    cases h
  | began n op ready recent out =>
    rw [out] at h
    cases h

variable {c call} in
theorem handed_step_none (h : (c.serve call).2 = none) : (c.step call).handed = c.handed := by
  rw [Counter.step, h]
  rfl

variable {c call} in
theorem handed_step_some {p : Parcel ω} (h : (c.serve call).2 = some p) :
    (c.step call).handed = p :: c.handed := by
  rw [Counter.step, h]
  rfl

theorem mem_handed_step {p : Parcel ω} :
    p ∈ (c.step call).handed ↔ (c.serve call).2 = some p ∨ p ∈ c.handed := by
  simp [step, eq_comm]

/-! ## Steps -/

theorem Tagged.step (h : Tagged c) : Tagged (c.step call) := by
  have hfirst := c.clock_le_first call
  constructor
  · intro n slot hslot
    rcases ready_step c call hslot with hold | ⟨o, -, hnew⟩
    · exact ⟨(h.ready n slot hold).1, Nat.lt_succ_of_lt (h.ready n slot hold).2⟩
    · rw [hnew]
      exact ⟨rfl, Nat.lt_succ_self _⟩
  · -- the recent slot after a call is a new parcel, or one that was there and is live
    intro slot hslot
    have hkept : ∀ n, slot.1.nonce = some n → slot ∈ c.store.recent → c.first call < slot.2 →
        c.store.ready n = some slot := by
      intro n hn hold hlive
      rcases (h.recent slot hold).2 n hn with hready | hle
      · exact hready
      · omega
    cases c.effect call with
    | parked nonce o op ready recent out =>
      rw [recent] at hslot
      cases hslot
      refine ⟨Nat.lt_succ_self _, fun n hn => Or.inl ?_⟩
      rw [ready, if_pos hn]
    | collected n p d op own late ready recent out =>
      rw [recent] at hslot
      cases hslot
    | missed n op own ready recent out =>
      rw [recent] at hslot
      obtain ⟨hold, hlive⟩ := live_eq_some.mp hslot
      refine ⟨Nat.lt_succ_of_lt (h.recent slot hold).1, fun m hm => ?_⟩
      have hready := hkept m hm hold hlive
      by_cases hmn : m = n
      · exact Or.inr (own slot (hmn ▸ hready))
      · left
        rw [ready, if_neg hmn]
        exact live_eq_some.mpr ⟨hready, hlive⟩
    | claimed p d op own late ready recent out =>
      rw [recent] at hslot
      cases hslot
    | unclaimed op own ready recent out =>
      rw [recent] at hslot
      cases hslot
    | began n op ready recent out =>
      rw [recent] at hslot
      obtain ⟨hold, hlive⟩ := live_eq_some.mp hslot
      refine ⟨Nat.lt_succ_of_lt (h.recent slot hold).1, fun m hm => Or.inl ?_⟩
      rw [ready]
      exact live_eq_some.mpr ⟨hkept m hm hold hlive, hlive⟩
  · intro p hp
    rcases (mem_handed_step c call).mp hp with hout | hold
    · rcases mem_of_out c call hout with ⟨n, d, -, hown, -⟩ | ⟨d, -, hown, -⟩
      · exact Nat.lt_succ_of_lt (h.ready n _ hown).2
      · exact Nat.lt_succ_of_lt (h.recent _ hown).1
    · exact Nat.lt_succ_of_lt (h.handed p hold)

/-- A call that meets the condition hands out nothing that lies anywhere after it. -/
theorem Once.step (htagged : Tagged c) (h : Once c) (hcall : c.Orderly call) :
    Once (c.step call) := by
  have hnew : ∀ p, (c.serve call).2 = some p → p ∉ c.handed := by
    intro p hp
    rcases mem_of_out c call hp with ⟨n, d, -, hown, -⟩ | ⟨d, -, hown, -⟩
    · exact h.ready n _ hown
    · exact h.recent _ hown
  have hfresh : ∀ p ∈ c.handed, p.number ≠ c.calls := fun p hp => Nat.ne_of_lt (htagged.handed p hp)
  cases c.effect call with
  | parked nonce o op ready recent out =>
    have hhanded := handed_step_none out
    refine ⟨hhanded ▸ h.nodup, fun m slot hslot => ?_, fun slot hslot => ?_⟩
    · rw [hhanded]
      rcases ready_step c call hslot with hold | ⟨o', -, heq⟩
      · exact h.ready m slot hold
      · rw [heq]
        exact fun hp => hfresh _ hp rfl
    · rw [hhanded]
      rw [recent] at hslot
      cases hslot
      exact fun hp => hfresh _ hp rfl
  | collected n p d op own late ready recent out =>
    have hhanded := handed_step_some out
    refine ⟨hhanded ▸ List.nodup_cons.mpr ⟨hnew p out, h.nodup⟩, fun m slot hslot => ?_,
      fun slot hslot => ?_⟩
    · rw [hhanded, List.mem_cons, not_or]
      rw [ready] at hslot
      split at hslot
      case isTrue => cases hslot
      case isFalse hmn =>
        have hold := (live_eq_some.mp hslot).1
        refine ⟨fun heq => hmn ?_, h.ready m slot hold⟩
        -- a parcel lies under its own nonce only
        have hnonce := (htagged.ready m slot hold).1
        rw [heq, (htagged.ready n _ own).1] at hnonce
        exact (Option.some.inj hnonce).symm
    · rw [recent] at hslot
      cases hslot
  | missed n op own ready recent out =>
    have hhanded := handed_step_none out
    refine ⟨hhanded ▸ h.nodup, fun m slot hslot => ?_, fun slot hslot => ?_⟩
    · rw [hhanded]
      rcases ready_step c call hslot with hold | ⟨o', hpark, -⟩
      · exact h.ready m slot hold
      · rw [op] at hpark
        cases hpark
    · rw [hhanded]
      rw [recent] at hslot
      exact h.recent slot (live_eq_some.mp hslot).1
  | claimed p d op own late ready recent out =>
    have hhanded := handed_step_some out
    have hunbound : p.nonce = none := by
      unfold Orderly at hcall
      rw [op] at hcall
      exact hcall (p, d) own late
    refine ⟨hhanded ▸ List.nodup_cons.mpr ⟨hnew p out, h.nodup⟩, fun m slot hslot => ?_,
      fun slot hslot => ?_⟩
    · rw [hhanded, List.mem_cons, not_or]
      rw [ready] at hslot
      have hold := (live_eq_some.mp hslot).1
      refine ⟨fun heq => ?_, h.ready m slot hold⟩
      have hnonce := (htagged.ready m slot hold).1
      rw [heq, hunbound] at hnonce
      cases hnonce
    · rw [recent] at hslot
      cases hslot
  | unclaimed op own ready recent out =>
    have hhanded := handed_step_none out
    refine ⟨hhanded ▸ h.nodup, fun m slot hslot => ?_, fun slot hslot => ?_⟩
    · rw [hhanded]
      rw [ready] at hslot
      exact h.ready m slot (live_eq_some.mp hslot).1
    · rw [recent] at hslot
      cases hslot
  | began n op ready recent out =>
    have hhanded := handed_step_none out
    refine ⟨hhanded ▸ h.nodup, fun m slot hslot => ?_, fun slot hslot => ?_⟩
    · rw [hhanded]
      rw [ready] at hslot
      exact h.ready m slot (live_eq_some.mp hslot).1
    · rw [hhanded]
      rw [recent] at hslot
      exact h.recent slot (live_eq_some.mp hslot).1

theorem Orderly.keeps (hcall : c.Orderly call) : c.Keeps call := by
  intro slot hslot hunbound
  have hfirst := c.first_le_last call
  have hlive : ∀ h : (c.step call).store.recent = live (c.first call) c.store.recent,
      (c.step call).store.recent = some slot ∨ slot.2 ≤ c.last call := by
    intro h
    rw [h, show c.store.recent = some slot from hslot, live_some]
    by_cases hlt : c.first call < slot.2
    · exact Or.inl (if_pos hlt)
    · exact Or.inr (by omega)
  unfold Orderly at hcall
  cases c.effect call with
  | parked nonce o op ready recent out => exact Or.inr (Or.inr (Or.inr ⟨nonce, o, op⟩))
  | collected n p d op own late ready recent out =>
    rw [op] at hcall
    refine Or.inr (Or.inr (Or.inl (Nat.not_lt.mp fun hlt => ?_)))
    exact hcall (p, d) own late slot hslot hlt hunbound
  | missed n op own ready recent out => exact (hlive recent).imp_right fun h => Or.inr (Or.inl h)
  | claimed p d op own late ready recent out =>
    rw [show c.store.recent = some slot from hslot] at own
    cases own
    exact Or.inr (Or.inl out)
  | unclaimed op own ready recent out => exact Or.inr (Or.inr (Or.inl (own slot hslot)))
  | began n op ready recent out => exact (hlive recent).imp_right fun h => Or.inr (Or.inl h)

variable {c call}

/-- Under its nonce, an outcome waits for the `collect`. -/
theorem ready_keep {n : String} {slot : Parcel ω × Nat} (h : c.store.ready n = some slot)
    (hcollect : call.op ≠ .collect n) (hpark : ∀ o, call.op ≠ .park (some n) o)
    (hlate : c.first call < slot.2) : (c.step call).store.ready n = some slot := by
  have hlive : live (c.first call) (c.store.ready n) = some slot := by
    rw [h, live_some, if_pos hlate]
  cases c.effect call with
  | parked nonce o op ready recent out =>
    have hother : nonce ≠ some n := by
      rintro rfl
      exact hpark o op
    rw [ready, if_neg hother, hlive]
  | collected m p d op own late ready recent out | missed m op own ready recent out =>
    have hother : n ≠ m := by
      rintro rfl
      exact hcollect op
    rw [ready, if_neg hother, hlive]
  | claimed p d op own late ready recent out | unclaimed op own ready recent out =>
    rw [ready, hlive]
  | began m op ready recent out => rw [ready, hlive]

/-- A `collect` before the deadline returns it. -/
theorem collect_ready {n : String} {slot : Parcel ω × Nat} (h : c.store.ready n = some slot)
    (hop : call.op = .collect n) (hlate : c.last call < slot.2) :
    (c.serve call).2 = some slot.1 := by
  have hop' : ∀ {m}, call.op = .collect m → m = n := fun hm => by
    rw [hop] at hm
    exact (Op.collect.inj hm).symm
  cases c.effect call with
  | collected m p d op own late ready recent out =>
    rw [hop' op, h] at own
    cases own
    exact out
  | missed m op own ready recent out =>
    rw [hop' op] at own
    exact absurd hlate (Nat.not_lt.mpr (own slot h))
  | parked nonce o op | claimed p d op | unclaimed op | began m op =>
    rw [hop] at op
    cases op

/-- What a call that does not meet the condition leads to. -/
theorem not_orderly (htagged : Tagged c) (h : ¬ c.Orderly call) :
    ¬ c.Keeps call ∨
      ∃ n, ¬ ((c.step call).step { op := .collect n }).handed.Nodup := by
  unfold Orderly at h
  cases hop : call.op with
  | park nonce o | beginFlight n =>
    rw [hop] at h
    exact absurd trivial h
  | collectRecent =>
    -- it hands out a parcel that still lies under its nonce
    right
    rw [hop] at h
    push Not at h
    obtain ⟨slot, hslot, hlate, hbound⟩ := h
    obtain ⟨n, hn⟩ := Option.ne_none_iff_exists'.mp hbound
    have hready : c.store.ready n = some slot := by
      rcases (htagged.recent slot hslot).2 n hn with hready | hle
      · exact hready
      · have hclock := c.clock_le_first call
        have hfirst := c.first_le_last call
        omega
    have hfirst : c.first call < slot.2 := Nat.lt_of_le_of_lt (c.first_le_last call) hlate
    have hout : (c.serve call).2 = some slot.1 := by
      cases c.effect call with
      | claimed p d op own late ready recent out =>
        rw [show c.store.recent = some slot from hslot] at own
        cases own
        exact out
      | unclaimed op own => exact absurd hlate (Nat.not_lt.mpr (own slot hslot))
      | parked nonce o op | collected m p d op | missed m op | began m op =>
        rw [hop] at op
        cases op
    have hstill : (c.step call).store.ready n = some slot :=
      ready_keep hready (by simp [hop]) (by simp [hop]) hfirst
    have hagain : ((c.step call).serve { op := .collect n }).2 = some slot.1 :=
      collect_ready hstill rfl hlate
    refine ⟨n, fun hnodup => ?_⟩
    have hhanded : ((c.step call).step { op := .collect n }).handed =
        slot.1 :: slot.1 :: c.handed := by
      rw [handed_step_some hagain, handed_step_some hout]
    rw [hhanded] at hnodup
    exact (List.nodup_cons.mp hnodup).1 List.mem_cons_self
  | collect n =>
    -- it clears an outcome that is not its own
    left
    rw [hop] at h
    push Not at h
    obtain ⟨own, hown, hlate, slot, hslot, hlive, hunbound⟩ := h
    have hout := collect_ready hown hop hlate
    intro hkeeps
    rcases hkeeps slot hslot hunbound with hkept | hret | hexpired | ⟨nonce, o, hpark⟩
    · cases c.effect call with
      | collected m p d op own' late ready recent out =>
        rw [recent] at hkept
        cases hkept
      | missed m op own' ready recent out =>
        rw [out] at hout
        cases hout
      | parked nonce o op | claimed p d op | unclaimed op | began m op =>
        rw [hop] at op
        cases op
    · rw [hout] at hret
      rw [← Option.some.inj hret, (htagged.ready n own hown).1] at hunbound
      cases hunbound
    · exact absurd hlive (Nat.not_lt.mpr hexpired)
    · rw [hop] at hpark
      cases hpark

/-! ## Runs -/

theorem tagged_new (clock : Nat) : Tagged (new (ω := ω) clock) where
  ready n slot hslot := by cases hslot
  recent slot hslot := by cases hslot
  handed p hp := by cases hp

theorem once_new (clock : Nat) : Once (new (ω := ω) clock) where
  nodup := List.nodup_nil
  ready n slot hslot := by cases hslot
  recent slot hslot := by cases hslot

theorem clock_le_after (calls : List (Call ω)) :
    c.clock ≤ (after step c calls).clock := by
  induction calls generalizing c with
  | nil => exact Nat.le_refl _
  | cons call calls ih =>
    have hclock : c.clock ≤ c.last call :=
      Nat.le_trans (c.clock_le_first call) (c.first_le_last call)
    exact Nat.le_trans hclock (ih (c := c.step call))

theorem ready_after {n : String} {slot : Parcel ω × Nat} {between : List (Call ω)}
    (h : c.store.ready n = some slot)
    (hbetween : ∀ call ∈ between, call.op ≠ .collect n ∧ ∀ o, call.op ≠ .park (some n) o)
    (hlate : (after step c between).clock < slot.2) :
    (after step c between).store.ready n = some slot := by
  induction between generalizing c with
  | nil => exact h
  | cons call between ih =>
    obtain ⟨hcollect, hpark⟩ := hbetween call List.mem_cons_self
    have hclock : c.last call ≤ (after step (c.step call) between).clock :=
      clock_le_after (c := c.step call) between
    have hfirst := c.first_le_last call
    rw [after_cons] at hlate
    refine ih (ready_keep h hcollect hpark (by omega)) (fun call' hcall' => ?_) hlate
    exact hbetween call' (List.mem_cons_of_mem _ hcall')

/-- **Run.** While every call meets the condition, each outcome is handed out once at most, and one
    without a nonce is kept. An outcome under a nonce is returned to the first `collect` in any
    case. And a call that does not meet the condition loses an outcome, or hands one out that the
    next `collect` hands out again. -/
theorem handed_out_once (clock : Nat) (calls : List (Call ω)) :
    (Guarded step Orderly (new clock) calls →
      (after step (new clock) calls).handed.Nodup ∧ Guarded step Keeps (new clock) calls) ∧
    (∀ (n : String) (o : ω) (park : Call ω) (between : List (Call ω)) (first : Call ω),
      park.op = .park (some n) o → first.op = .collect n →
      (∀ call ∈ between, call.op ≠ .collect n ∧ ∀ o', call.op ≠ .park (some n) o') →
      (after step (new clock) (calls ++ park :: between)).last first <
        (after step (new clock) calls).last park + outcomeTtl →
      ((after step (new clock) (calls ++ park :: between)).serve first).2 =
        some ⟨(after step (new clock) calls).calls, some n, o⟩) ∧
    (∀ call, ¬ (after step (new clock) calls).Orderly call →
      ¬ (after step (new clock) calls).Keeps call ∨
        ∃ n, ¬ (after step (new clock)
          (calls ++ [call, { op := .collect n }])).handed.Nodup) := by
  have htagged : Tagged (after step (new clock) calls) :=
    after_invariant (fun c call h => h.step c call) (tagged_new clock)
  refine ⟨fun hcalls => ⟨?_, ?_⟩, ?_, fun call hcall => ?_⟩
  · have hinv := hcalls.invariant (I := fun c => Tagged c ∧ Once c)
      (fun c call h hcall => ⟨h.1.step c call, h.2.step c call h.1 hcall⟩)
      ⟨tagged_new clock, once_new clock⟩
    exact hinv.2.nodup
  · exact hcalls.imp fun c call hcall => hcall.keeps c call
  · intro n o park between first hpark hfirst hbetween hlate
    rw [after_append, after_cons] at hlate ⊢
    have hready : ((after step (new clock) calls).step park).store.ready n =
        some (⟨(after step (new clock) calls).calls, some n, o⟩,
          (after step (new clock) calls).last park + outcomeTtl) := by
      cases (after step (new clock) calls).effect park with
      | parked nonce o' op ready recent out =>
        rw [hpark] at op
        cases op
        rw [ready, if_pos rfl]
      | collected m p d op | missed m op | claimed p d op | unclaimed op | began m op =>
        rw [hpark] at op
        cases op
    refine collect_ready (ready_after hready hbetween ?_) hfirst hlate
    exact Nat.lt_of_le_of_lt (Nat.le_trans (clock_le_first _ first) (first_le_last _ first)) hlate
  · rcases not_orderly htagged hcall with hlost | ⟨n, htwice⟩
    · exact Or.inl hlost
    · refine Or.inr ⟨n, ?_⟩
      rw [after_append]
      exact htwice

section Decidable

variable (c : Counter ω)

instance decidableOrderly : ∀ call, Decidable (c.Orderly call)
  | ⟨.collectRecent, wait, within⟩ => inferInstanceAs (Decidable (∀ slot ∈ c.store.recent,
      c.last ⟨.collectRecent, wait, within⟩ < slot.2 → slot.1.nonce = none))
  | ⟨.collect n, wait, within⟩ => inferInstanceAs (Decidable (∀ own ∈ c.store.ready n,
      c.last ⟨.collect n, wait, within⟩ < own.2 → ∀ slot ∈ c.store.recent,
        c.last ⟨.collect n, wait, within⟩ < slot.2 → slot.1.nonce ≠ none))
  | ⟨.park _ _, _, _⟩ | ⟨.beginFlight _, _, _⟩ => inferInstanceAs (Decidable True)

end Decidable

/-- An app starts a flow, and collects its outcome; then a stray tab signs in, and the app takes
    what is in the recent slot. -/
def orderly : List (Call String) :=
  [{ op := .beginFlight "a" }, { op := .park (some "a") "A", wait := secs 20 },
    { op := .collect "a", wait := secs 2 }, { op := .park none "B", wait := secs 60 },
    { op := .collectRecent, wait := secs 2 }]

theorem handed_out_once_orderly :
    (after step (new 0) orderly).handed.Nodup ∧ Guarded step Keeps (new 0) orderly ∧
    ((after step (new 0) [{ op := .park (some "a") "A" }]).serve { op := .collect "a" }).2 =
      some ⟨0, some "a", "A"⟩ ∧
    (¬ (after step (new 0) [{ op := .park (some "a") "A" }]).Keeps { op := .collectRecent } ∨
      ∃ n, ¬ (after step (new 0) ([{ op := .park (some "a") "A" }] ++
        [{ op := .collectRecent }, { op := .collect n }])).handed.Nodup) :=
  have hrun := (handed_out_once 0 orderly).1 (by decide)
  ⟨hrun.1, hrun.2,
    (handed_out_once 0 []).2.1 "a" "A" { op := .park (some "a") "A" } [] { op := .collect "a" }
      rfl rfl (fun _ h => absurd h List.not_mem_nil) (by decide),
    (handed_out_once 0 [{ op := .park (some "a") "A" }]).2.2 { op := .collectRecent } (by decide)⟩

/-- The outcome of `a` is claimed from the recent slot, and collected again. And while it waits, a
    stray tab signs in: what that parks is gone once `a` is collected. -/
theorem collected_twice :
    (after step (new 0) [({ op := .park (some "a") "A" } : Call String),
        { op := .collectRecent }, { op := .collect "a" }]).handed =
      [⟨0, some "a", "A"⟩, ⟨0, some "a", "A"⟩] ∧
    (after step (new 0) [({ op := .park (some "a") "A" } : Call String),
        { op := .park none "B" }]).store.recent = some (⟨1, none, "B"⟩, secs 300) ∧
    (after step (new 0) [({ op := .park (some "a") "A" } : Call String),
        { op := .park none "B" }, { op := .collect "a" }]).store.recent = none ∧
    (after step (new 0) [({ op := .park (some "a") "A" } : Call String),
        { op := .park none "B" }, { op := .collect "a" }]).handed = [⟨0, some "a", "A"⟩] := by
  decide

end Counter

end CirisServer.Handoff
