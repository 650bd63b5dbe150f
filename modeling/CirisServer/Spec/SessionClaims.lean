import CirisServer.ForStd.Run
import CirisServer.Native.SessionClaims

/-!
# The leases that a fleet writes

What a step of an operation does to the views, and the rule for an invariant of a fleet and of
the operations whose process still runs (`Holds.step`). With it, two things that hold of every
lease that is written: it keeps within the bound of the store, and it is written by a device
whose own view names nobody else.

Key results:
- `advance_effect`: what a step does to the fleet
- `due_of_read`: what an operation has read that is to write a lease
- `bounded_step`, `ownView_step`: the two invariants
-/

namespace CirisServer.SessionClaims

open Interleave Run

variable {ι : Type} [LinearOrder ι] {L : Fold ι} {f : Fleet ι} {i j : ι}

/-! ## Views, processes and time -/

namespace Fleet

/-- How often the device's process was started. -/
def boot (i : ι) (f : Fleet ι) : Nat := (f.devices i).boot

theorem devices_modify (g : Device ι → Device ι) :
    (f.modify i g).devices j = if j = i then g (f.devices i) else f.devices j := by
  unfold Fleet.modify
  exact Function.update_apply f.devices i (g (f.devices i)) j

@[simp] theorem view_attendance (g : Attendance → Attendance) :
    (f.attendance i g).view j = f.view j := by
  unfold Fleet.attendance Fleet.view
  rw [devices_modify]
  split
  case isTrue h => rw [h]
  case isFalse => rfl

@[simp] theorem boot_attendance (g : Attendance → Attendance) :
    (f.attendance i g).boot j = f.boot j := by
  unfold Fleet.attendance Fleet.boot
  rw [devices_modify]
  split
  case isTrue h => rw [h]
  case isFalse => rfl

@[simp] theorem clock_attendance (g : Attendance → Attendance) :
    (f.attendance i g).clock = f.clock := rfl

theorem attendance_id : f.attendance i id = f := by
  unfold Fleet.attendance Fleet.modify
  simp

theorem view_putRow (row : ClaimRow ι) :
    (f.putRow i row).view j = if j = i then (f.view i).insert row else f.view j := by
  unfold Fleet.putRow Fleet.view
  rw [devices_modify]
  split <;> rfl

theorem mem_view_putRow {row r : ClaimRow ι} :
    r ∈ (f.putRow i row).view j ↔ r ∈ f.view j ∨ j = i ∧ r = row := by
  rw [view_putRow]
  split
  case isTrue h =>
    rw [h, List.mem_insert_iff]
    exact ⟨fun hr => hr.symm.imp id fun heq => ⟨rfl, heq⟩, fun hr => (hr.imp id And.right).symm⟩
  case isFalse h => exact ⟨Or.inl, fun hr => hr.resolve_right fun heq => h heq.1⟩

@[simp] theorem boot_putRow (row : ClaimRow ι) : (f.putRow i row).boot j = f.boot j := by
  unfold Fleet.putRow Fleet.boot
  rw [devices_modify]
  split
  case isTrue h => rw [h]
  case isFalse => rfl

@[simp] theorem clock_putRow (row : ClaimRow ι) : (f.putRow i row).clock = f.clock := rfl

end Fleet

/-! ## What a step does -/

/-- Who claims or renews has found nobody, or itself. -/
theorem step_writes {attended : Bool} {handler : Option (SessionClaim ι)} {lease : Option Int}
    {now : Int} :
    (step attended handler i lease now = .claim → handler = none) ∧
      (step attended handler i lease now = .renew →
        ∃ claim, handler = some claim ∧ claim.occurrenceKeyId = i) := by
  unfold step
  cases attended with
  | false => simp
  | true =>
    cases handler with
    | none => simp
    | some claim =>
      by_cases hmine : claim.occurrenceKeyId = i
      · cases lease with
        | none => simp [hmine]
        | some lease =>
          simp only [Bool.not_true, Bool.false_eq_true, if_false, hmine, ne_eq, not_true_eq_false]
          constructor
          · split <;> simp
          · intro _
            exact ⟨claim, rfl, hmine⟩
      · simp [hmine]

/-- A lease that an operation is about to write. -/
structure Due where
  key : ExchangeKey
  now : Int
  original : Option Int

namespace Due

/-- The row that is written. -/
def row (i : ι) (due : Due) : ClaimRow ι where
  key := due.key
  claim := ⟨i, canonicalInstant (leaseFor due.original due.now).1⟩
  validUntil := canonicalInstant (leaseFor due.original due.now).2

end Due

/-- The lease that the operation writes next. -/
def Phase.due : Phase ι → Option Due
  | .claiming key now => some ⟨key, now, none⟩
  | .leasing now _ line original _ _ => some ⟨line.key, now, original⟩
  | _ => none

/-- **Inversion.** A step writes the lease that is due, or leaves the views alone. -/
theorem advance_effect (L : Fold ι) (env : Env) (i : ι) (phase : Phase ι) (f : Fleet ι) :
    (∃ due g, phase.due = some due ∧ env.writeFails = false ∧
      (phase.advance L env i f).1 = (f.putRow i (due.row i)).attendance i g) ∨
    ∃ g, (phase.advance L env i f).1 = f.attendance i g := by
  have hsame : ∃ g, f = f.attendance i g := ⟨id, Fleet.attendance_id.symm⟩
  cases phase with
  | gating key now =>
    right
    simp only [Phase.advance, gateRead]
    split
    · exact hsame
    · split <;> exact ⟨_, rfl⟩
  | claiming key now =>
    cases hfails : env.writeFails with
    | true =>
      right
      simp only [Phase.advance, hfails]
      exact hsame
    | false =>
      left
      simp only [Phase.advance, hfails]
      exact ⟨⟨key, now, none⟩, _, rfl, trivial, rfl⟩
  | rereading | answered | passed => exact Or.inr hsame
  | renewing now attended todo lines =>
    right
    cases todo with
    | nil => exact hsame
    | cons entry todo =>
      simp only [Phase.advance, renewRead]
      split
      · exact hsame
      · split
        · exact hsame
        · exact hsame
        · split
          · exact ⟨_, rfl⟩
          · exact hsame
        · exact hsame
        · exact hsame
  | leasing now attended line original todo lines =>
    cases hfails : env.writeFails with
    | true =>
      right
      simp only [Phase.advance, hfails]
      exact hsame
    | false =>
      left
      simp only [Phase.advance, hfails]
      exact ⟨⟨line.key, now, original⟩, _, rfl, trivial, rfl⟩

/-- What is in a view after a step. -/
theorem mem_view_advance {env : Env} {phase : Phase ι} {r : ClaimRow ι}
    (h : r ∈ (phase.advance L env i f).1.view j) :
    r ∈ f.view j ∨
      j = i ∧ ∃ due, phase.due = some due ∧ env.writeFails = false ∧ r = due.row i := by
  rcases advance_effect L env i phase f with ⟨due, g, hdue, hfails, heq⟩ | ⟨g, heq⟩
  · rw [heq, Fleet.view_attendance, Fleet.mem_view_putRow] at h
    exact h.imp id fun hnew => ⟨hnew.1, due, hdue, hfails, hnew.2⟩
  · rw [heq, Fleet.view_attendance] at h
    exact Or.inl h

/-- Nothing leaves a view. -/
theorem view_subset_advance (env : Env) (phase : Phase ι) :
    f.view j ⊆ (phase.advance L env i f).1.view j := by
  intro r hr
  rcases advance_effect L env i phase f with ⟨due, g, -, -, heq⟩ | ⟨g, heq⟩
  · rw [heq, Fleet.view_attendance, Fleet.mem_view_putRow]
    exact Or.inl hr
  · rw [heq, Fleet.view_attendance]
    exact hr

theorem clock_advance (env : Env) (phase : Phase ι) :
    (phase.advance L env i f).1.clock = f.clock := by
  rcases advance_effect L env i phase f with ⟨due, g, -, -, heq⟩ | ⟨g, heq⟩
  · rw [heq]
    rfl
  · rw [heq]
    rfl

theorem boot_advance (env : Env) (phase : Phase ι) :
    (phase.advance L env i f).1.boot j = f.boot j := by
  rcases advance_effect L env i phase f with ⟨due, g, -, -, heq⟩ | ⟨g, heq⟩
  · rw [heq, Fleet.boot_attendance, Fleet.boot_putRow]
  · rw [heq, Fleet.boot_attendance]

/-- The exchange whose fold decides what the operation does next, and the instant. -/
def Phase.reads : Phase ι → Option (ExchangeKey × Int)
  | .gating key now => some (key, now)
  | .renewing now _ ((key, _) :: _) _ => some (key, now)
  | _ => none

/-- The exchange that a renewal pass reads next, and the instant of the pass. -/
def Phase.renews : Phase ι → Option (ExchangeKey × Int)
  | .renewing now _ ((key, _) :: _) _ => some (key, now)
  | _ => none

/-- A lease is due once the fold named nobody, or the device itself. -/
theorem due_of_read {env : Env} {phase : Phase ι} {due : Due}
    (h : (phase.advance L env i f).2.due = some due) :
    phase.due = none ∧ phase.reads = some (due.key, due.now) ∧
      (L.handlerFor (f.view i) due.key due.now = none ∧ due.original = none ∨
        phase.renews = some (due.key, due.now) ∧
          ∃ claim, L.handlerFor (f.view i) due.key due.now = some claim ∧
            claim.occurrenceKeyId = i ∧ due.original = some claim.claimedAt) := by
  cases phase with
  | gating key now =>
    simp only [Phase.advance, gateRead] at h
    split at h
    · cases h
    · split at h
      case isTrue hclaims =>
        obtain rfl := Option.some.inj h
        exact ⟨rfl, rfl, Or.inl ⟨Option.isNone_iff_eq_none.mp hclaims.1, rfl⟩⟩
      case isFalse => cases h
  | claiming key now =>
    simp only [Phase.advance] at h
    split at h <;> cases h
  | rereading | answered | passed => cases h
  | leasing now attended line original todo lines => cases h
  | renewing now attended todo lines =>
    cases todo with
    | nil => cases h
    | cons entry todo =>
      simp only [Phase.advance, renewRead] at h
      split at h
      · cases h
      · split at h
        case h_1 hstep =>
          obtain rfl := Option.some.inj h
          exact ⟨rfl, rfl, Or.inl ⟨step_writes.1 hstep, rfl⟩⟩
        case h_2 hstep =>
          obtain rfl := Option.some.inj h
          obtain ⟨claim, hnamed, hmine⟩ := step_writes.2 hstep
          refine ⟨rfl, rfl, Or.inr ⟨rfl, claim, hnamed, hmine, ?_⟩⟩
          show (Option.map _ (L.handlerFor (f.view i) entry.1 now)).or _ = _
          rw [hnamed]
          rfl
        case h_3 hstep => cases h
        case h_4 hstep => cases h
        case h_5 hstep => cases h

/-! ## The rule -/

/-- The operation has the property, as long as its process runs. -/
def TaskHolds (Q : Fleet ι → ι → Phase ι → Prop) (f : Fleet ι) : Task ι → Prop
  | .idle => True
  | .op i boot phase => boot ≤ f.boot i ∧ (boot = f.boot i → Q f i phase)

/-- The fleet has the property `J`, and its operations have the property `Q`. -/
structure Holds (J : Fleet ι → Prop) (Q : Fleet ι → ι → Phase ι → Prop)
    (c : Config (Fleet ι) (Task ι)) : Prop where
  shared : J c.shared
  tasks : ∀ t ∈ c.tasks, TaskHolds Q c.shared t

theorem boot_le_spawn (hap : Happening ι) : f.boot j ≤ (hap.spawn f).1.boot j := by
  cases hap with
  | gate i key => exact le_refl _
  | renewOnce i => exact le_refl _
  | notePresence i => simp [Happening.spawn]
  | elapse nanos => exact le_refl _
  | replicate source target row =>
    simp only [Happening.spawn]
    split <;> simp
  | restart i =>
    show f.boot j ≤ (f.modify i fun d => { d with attendance := {}, boot := d.boot + 1 }).boot j
    unfold Fleet.boot
    rw [Fleet.devices_modify]
    split
    case isTrue h =>
      rw [h]
      exact Nat.le_succ _
    case isFalse => exact le_refl _

/-- **Rule.** What holds of the fleet and of its operations survives a move, if what happens
    keeps it, a new operation has it, and the step of an operation keeps it for all. -/
theorem Holds.step {J : Fleet ι → Prop} {Q : Fleet ι → ι → Phase ι → Prop}
    {c : Config (Fleet ι) (Task ι)} {m : Move (Happening ι) Env} (h : Holds J Q c)
    (hspawn : ∀ hap, m = .arrive hap → J (hap.spawn c.shared).1 ∧
      ∀ i phase, .op i (c.shared.boot i) phase ∈ c.tasks → Q c.shared i phase →
        Q (hap.spawn c.shared).1 i phase)
    (hgate : ∀ i key, m = .arrive (.gate i key) → Q c.shared i (.gating key c.shared.clock))
    (hrenew : ∀ i, m = .arrive (.renewOnce i) → Q c.shared i
      (.renewing c.shared.clock (c.shared.attended i) (c.shared.devices i).attendance.exchanges []))
    (hadvance : ∀ k env i phase, m = .advance k env →
      c.tasks[k]? = some (.op i (c.shared.boot i) phase) → Q c.shared i phase →
      J (phase.advance L env i c.shared).1 ∧
        Q (phase.advance L env i c.shared).1 i (phase.advance L env i c.shared).2 ∧
        ∀ j phase', .op j (c.shared.boot j) phase' ∈ c.tasks → Q c.shared j phase' →
          Q (phase.advance L env i c.shared).1 j phase') :
    Holds J Q ((fleetSystem L).step c m) := by
  have hframe : ∀ {f' : Fleet ι}, (∀ i, c.shared.boot i ≤ f'.boot i) →
      (∀ i phase, .op i (c.shared.boot i) phase ∈ c.tasks → Q c.shared i phase → Q f' i phase) →
      ∀ t ∈ c.tasks, TaskHolds Q f' t := by
    intro f' hboot hQ t ht
    cases t with
    | idle => trivial
    | op i boot phase =>
      obtain ⟨hle, hold⟩ := h.tasks _ ht
      refine ⟨hle.trans (hboot i), fun hnow => ?_⟩
      have hsame : boot = c.shared.boot i := le_antisymm hle (hnow ▸ hboot i)
      exact hQ i phase (hsame ▸ ht) (hold hsame)
  have hstep := (fleetSystem L).step_preserves (J := J) (P := TaskHolds Q) (m := m) h.shared h.tasks
  obtain ⟨hJ, htasks⟩ := hstep
    (fun hap hm => by
      obtain ⟨hJ, hQ⟩ := hspawn hap hm
      refine ⟨hJ, ?_, hframe (fun i => boot_le_spawn hap) hQ⟩
      cases hap with
      | gate i key => exact ⟨le_refl _, fun _ => hgate i key hm⟩
      | renewOnce i => exact ⟨le_refl _, fun _ => hrenew i hm⟩
      | notePresence | restart | elapse | replicate => trivial)
    (fun k env t hm ht => by
      cases t with
      | idle => exact ⟨h.shared, trivial, h.tasks⟩
      | op i boot phase =>
        simp only [fleetSystem, Task.advance]
        split
        case isFalse => exact ⟨h.shared, trivial, h.tasks⟩
        case isTrue halive =>
          have htask := h.tasks _ (List.mem_of_getElem? ht)
          obtain rfl : boot = c.shared.boot i := halive
          obtain ⟨hJ, hown, hothers⟩ := hadvance k env i phase hm ht (htask.2 rfl)
          refine ⟨hJ, ⟨?_, fun _ => hown⟩, hframe (fun j => ?_) hothers⟩
          · rw [boot_advance]
          · rw [boot_advance])
  exact ⟨hJ, htasks⟩

/-! ## The bound of a lease -/

/-- What the store admits: the lease ends after it begins, and within a day. -/
structure Bounded (row : ClaimRow ι) : Prop where
  canonical : canonicalInstant row.claim.claimedAt = row.claim.claimedAt
  begins : row.claim.claimedAt ≤ row.validUntil
  ends : row.validUntil ≤ row.claim.claimedAt + sessionLeaseMax

/-- What is renewed was signed, and not long after the renewal's own instant. -/
def Due.Sound (due : Due) : Prop :=
  ∀ c ∈ due.original, canonicalInstant c = c ∧ c ≤ due.now + ttl

omit [LinearOrder ι] in
theorem Due.row_bounded {due : Due} (h : due.Sound) : Bounded (due.row i) := by
  obtain ⟨key, now, original⟩ := due
  have hfresh : Bounded (⟨key, ⟨i, canonicalInstant now⟩, canonicalInstant (now + ttl)⟩ :
      ClaimRow ι) := by
    constructor
    · simp only [canonicalInstant]
      omega
    · simp only [canonicalInstant, ttl]
      omega
    · simp only [canonicalInstant, ttl, sessionLeaseMax]
      omega
  cases original with
  | none => exact hfresh
  | some c =>
    unfold Due.row leaseFor renewalLease
    by_cases hcap : now + ttl ≤ c + sessionLeaseMax
    · obtain ⟨hcanonical, hprompt⟩ := h c rfl
      simp only [Option.bind_some, if_pos hcap, Option.map_some]
      simp only [ttl, sessionLeaseMax, canonicalInstant] at *
      exact ⟨by simp only [canonicalInstant]; omega, by simp only; omega,
        by simp only [sessionLeaseMax]; omega⟩
    · simp only [Option.bind_some, if_neg hcap, Option.map_none]
      exact hfresh

/-! ## What the moves have to meet -/

/-- The operation, if its process still runs. -/
def Task.running (f : Fleet ι) : Task ι → Option (ι × Phase ι)
  | .idle => none
  | .op i boot phase => if boot = f.boot i then some (i, phase) else none

/-- The operation that takes its next step. -/
def running (c : Config (Fleet ι) (Task ι)) (k : Nat) : Option (ι × Phase ι) :=
  (c.tasks[k]?).bind (Task.running c.shared)

/-- A renewal pass that reads a claim of its own finds it dated before the pass, or less than a
    lease after it. -/
def Prompt (L : Fold ι) (c : Config (Fleet ι) (Task ι)) : Move (Happening ι) Env → Prop
  | .arrive _ => True
  | .advance k _ => ∀ p ∈ running c k, ∀ read ∈ p.2.renews,
    ∀ claim ∈ L.handlerFor (c.shared.view p.1) read.1 read.2,
      claim.occurrenceKeyId = p.1 → claim.claimedAt ≤ read.2 + ttl

/-- No row arrives between the read and the write of an operation that its view then names. -/
def Undisturbed (L : Fold ι) (c : Config (Fleet ι) (Task ι)) : Move (Happening ι) Env → Prop
  | .arrive (.replicate source target row) => row ∈ c.shared.view source →
    ∀ t ∈ c.tasks, ∀ p ∈ t.running c.shared, p.1 = target → ∀ due ∈ p.2.due,
      ∀ claim ∈ L.handlerFor ((c.shared.view target).insert row) due.key due.now,
        claim.occurrenceKeyId = target
  | _ => True

/-- A device that writes a lease has a view that names nobody, or the device. -/
def WritesOwn (L : Fold ι) (c : Config (Fleet ι) (Task ι)) : Move (Happening ι) Env → Prop
  | .arrive _ => True
  | .advance k env => ∀ p ∈ running c k, env.writeFails = false → ∀ due ∈ p.2.due,
    ∀ claim ∈ L.handlerFor (c.shared.view p.1) due.key due.now, claim.occurrenceKeyId = p.1

omit [LinearOrder ι] in
theorem running_of_getElem? {c : Config (Fleet ι) (Task ι)} {k : Nat} {phase : Phase ι}
    (h : c.tasks[k]? = some (.op i (c.shared.boot i) phase)) : running c k = some (i, phase) := by
  unfold running
  rw [h]
  exact if_pos rfl

omit [LinearOrder ι] in
theorem running_of_mem {c : Config (Fleet ι) (Task ι)} {phase : Phase ι} :
    Task.running c.shared (.op i (c.shared.boot i) phase) = some (i, phase) := if_pos rfl

omit [LinearOrder ι] in
theorem getElem?_of_running {c : Config (Fleet ι) (Task ι)} {k : Nat} {p : ι × Phase ι}
    (h : running c k = some p) : c.tasks[k]? = some (.op p.1 (c.shared.boot p.1) p.2) := by
  unfold running at h
  obtain ⟨t, ht, hrunning⟩ := Option.bind_eq_some_iff.mp h
  cases t with
  | idle => cases hrunning
  | op i boot phase =>
    simp only [Task.running] at hrunning
    split at hrunning
    case isTrue halive =>
      obtain rfl := Option.some.inj hrunning
      rw [ht, halive]
    case isFalse => cases hrunning

/-! ## What happens on its own -/

theorem clock_le_spawn (hap : Happening ι) : f.clock ≤ (hap.spawn f).1.clock := by
  cases hap with
  | gate | renewOnce | notePresence | restart => exact le_refl _
  | elapse nanos =>
    show f.clock ≤ f.clock + nanos
    omega
  | replicate source target row =>
    simp only [Happening.spawn]
    split
    · exact le_refl _
    · exact le_refl _

/-- **Inversion.** What happens leaves the views alone, but for a row that arrives. -/
theorem view_spawn (hap : Happening ι) (f : Fleet ι) (j : ι) :
    (hap.spawn f).1.view j = f.view j ∨
      ∃ source row, hap = .replicate source j row ∧ row ∈ f.view source ∧
        (hap.spawn f).1.view j = (f.view j).insert row := by
  cases hap with
  | gate | renewOnce | elapse => exact Or.inl rfl
  | notePresence i =>
    left
    rw [Happening.spawn, Fleet.view_attendance]
  | restart i =>
    left
    unfold Happening.spawn Fleet.view
    rw [Fleet.devices_modify]
    split
    case isTrue heq => rw [heq]
    case isFalse => rfl
  | replicate source target row =>
    simp only [Happening.spawn]
    split
    case isFalse => exact Or.inl rfl
    case isTrue hmem =>
      rw [Fleet.view_putRow]
      split
      case isTrue heq => exact Or.inr ⟨source, row, heq ▸ rfl, hmem, heq ▸ rfl⟩
      case isFalse => exact Or.inl rfl

/-- What is in a view after something happened was in a view before. -/
theorem mem_view_spawn {hap : Happening ι} {r : ClaimRow ι} (h : r ∈ (hap.spawn f).1.view j) :
    ∃ source, r ∈ f.view source := by
  rcases view_spawn hap f j with heq | ⟨source, row, -, hrow, heq⟩
  · exact ⟨j, heq ▸ h⟩
  · rw [heq, List.mem_insert_iff] at h
    rcases h with rfl | hold
    · exact ⟨source, hrow⟩
    · exact ⟨j, hold⟩

theorem view_subset_spawn (hap : Happening ι) : f.view j ⊆ (hap.spawn f).1.view j := by
  intro r hr
  rcases view_spawn hap f j with heq | ⟨source, row, -, -, heq⟩
  · rw [heq]
    exact hr
  · rw [heq, List.mem_insert_iff]
    exact Or.inr hr

/-! ## Every lease is bounded -/

/-- The rows are bounded. -/
def AllBounded (f : Fleet ι) : Prop := ∀ i, ∀ row ∈ f.view i, Bounded row

/-- A lease that is due is sound. -/
def DueSound (_ : Fleet ι) (_ : ι) (phase : Phase ι) : Prop := ∀ due ∈ phase.due, due.Sound

theorem bounded_step {c : Config (Fleet ι) (Task ι)} {m : Move (Happening ι) Env}
    (h : Holds AllBounded DueSound c) (hm : Prompt L c m) :
    Holds AllBounded DueSound ((fleetSystem L).step c m) := by
  apply h.step
  · intro hap _
    refine ⟨fun i row hrow => ?_, fun _ _ _ hdue => hdue⟩
    obtain ⟨source, hold⟩ := mem_view_spawn hrow
    exact h.shared source row hold
  · intro i key _ due hdue
    cases hdue
  · intro i _ due hdue
    cases hdue
  · rintro k env i phase rfl ht hphase
    refine ⟨fun j row hrow => ?_, fun due hdue => ?_, fun _ _ _ hdue => hdue⟩
    · rcases mem_view_advance hrow with hold | ⟨-, due, hdue, -, rfl⟩
      · exact h.shared j row hold
      · exact Due.row_bounded (hphase due hdue)
    · -- the claim that was read is a row of the view, and it is the device's own
      obtain ⟨-, -, hread⟩ := due_of_read hdue
      intro c hc
      rcases hread with ⟨-, hnone⟩ | ⟨hrenews, claim, hnamed, hmine, hsome⟩
      · rw [hnone] at hc
        cases hc
      · obtain rfl : claim.claimedAt = c := by
          rw [hsome] at hc
          exact Option.some.inj hc
        obtain ⟨row, hrow, -, -, hclaim⟩ := L.names hnamed
        refine ⟨hclaim ▸ (h.shared i row hrow).canonical, ?_⟩
        exact hm _ (running_of_getElem? ht) _ hrenews _ hnamed hmine

/-! ## A device writes what its view leaves to it -/

omit [LinearOrder ι] in
theorem SessionClaim.rank_injective {a b : SessionClaim ι} (h : a.rank = b.rank) : a = b := by
  obtain ⟨occurrence, claimedAt⟩ := a
  obtain ⟨occurrence', claimedAt'⟩ := b
  have hpair : (claimedAt, occurrence) = (claimedAt', occurrence') := toLex.injective h
  cases hpair
  rfl

/-- A fold that names nobody else still does when the view gains rows of the device's own. -/
theorem own_of_gain {view view' : List (ClaimRow ι)} {key : ExchangeKey} {now : Int}
    (hsub : view ⊆ view') (hgain : ∀ row ∈ view', row ∈ view ∨ row.claim.occurrenceKeyId = i)
    (h : ∀ claim ∈ L.handlerFor view key now, claim.occurrenceKeyId = i) :
    ∀ claim ∈ L.handlerFor view' key now, claim.occurrenceKeyId = i := by
  intro claim hclaim
  obtain ⟨row, hrow, hkey, hlive, rfl⟩ := L.names hclaim
  rcases hgain row hrow with hold | hmine
  · cases hread : L.handlerFor view key now with
    | none => exact absurd hlive (L.unclaimed hread row hold hkey)
    | some mine =>
      obtain ⟨row', hrow', hkey', hlive', hclaim'⟩ := L.names hread
      have hle := L.earliest hread row hold hkey hlive
      have hge := L.earliest hclaim row' (hsub hrow') hkey' hlive'
      rw [hclaim'] at hge
      rw [← SessionClaim.rank_injective (le_antisymm hle hge)]
      exact h mine hread
  · exact hmine

/-- The view of a device that is to write a lease names nobody, or the device. -/
def DueOwn (L : Fold ι) (f : Fleet ι) (i : ι) (phase : Phase ι) : Prop :=
  ∀ due ∈ phase.due, ∀ claim ∈ L.handlerFor (f.view i) due.key due.now,
    claim.occurrenceKeyId = i

theorem ownView_step {c : Config (Fleet ι) (Task ι)} {m : Move (Happening ι) Env}
    (h : Holds (fun _ => True) (DueOwn L) c) (hm : Undisturbed L c m) :
    Holds (fun _ => True) (DueOwn L) ((fleetSystem L).step c m) := by
  apply h.step
  · rintro hap rfl
    refine ⟨trivial, fun i phase ht hown due hdue => ?_⟩
    rcases view_spawn hap c.shared i with heq | ⟨source, row, rfl, hrow, heq⟩
    · rw [heq]
      exact hown due hdue
    · rw [heq]
      exact hm hrow _ ht _ running_of_mem rfl due hdue
  · intro i key _ due hdue
    cases hdue
  · intro i _ due hdue
    cases hdue
  · rintro k env i phase rfl ht hphase
    refine ⟨trivial, fun due hdue => ?_, fun j phase' _ hown due hdue => ?_⟩
    · -- a read writes nothing, and it found nobody else
      obtain ⟨hquiet, -, hread⟩ := due_of_read hdue
      rcases advance_effect L env i phase c.shared with ⟨due', g, hdue', -⟩ | ⟨g, heq⟩
      · rw [hquiet] at hdue'
        cases hdue'
      · rw [heq, Fleet.view_attendance]
        rcases hread with ⟨hnone, -⟩ | ⟨-, claim, hnamed, hmine, -⟩
        · rw [hnone]
          intro claim hclaim
          cases hclaim
        · rw [hnamed]
          intro claim' hclaim
          cases hclaim
          exact hmine
    · apply own_of_gain (view_subset_advance env phase) _ (hown due hdue)
      intro row hrow
      rcases mem_view_advance hrow with hold | ⟨rfl, due', -, -, rfl⟩
      · exact Or.inl hold
      · exact Or.inr rfl

/-! ## Every run from the start -/

omit [LinearOrder ι] in
theorem holds_start {J : Fleet ι → Prop} {Q : Fleet ι → ι → Phase ι → Prop} {clock : Int}
    (h : J ⟨clock, fun _ => {}⟩) : Holds J Q (start clock) where
  shared := h
  tasks _ ht := by cases ht

theorem allBounded_run {clock : Int} {moves : List (Move (Happening ι) Env)}
    (h : Guarded (fleetSystem L).step (Prompt L) (start clock) moves) :
    AllBounded (after (fleetSystem L).step (start clock) moves).shared :=
  (h.invariant (fun _ _ hinv hm => bounded_step hinv hm)
    (holds_start fun _ _ hrow => by cases hrow)).shared

theorem writesOwn_run {clock : Int} {moves : List (Move (Happening ι) Env)}
    (h : Guarded (fleetSystem L).step (Undisturbed L) (start clock) moves) :
    Guarded (fleetSystem L).step (WritesOwn L) (start clock) moves := by
  refine h.guarantee (fun c m hinv hm => ⟨ownView_step hinv hm, ?_⟩) (holds_start trivial)
  cases m with
  | arrive hap => trivial
  | advance k env =>
    intro p hp _ due hdue
    have htask := hinv.tasks _ (List.mem_of_getElem? (getElem?_of_running hp))
    exact htask.2 rfl due hdue

end CirisServer.SessionClaims
