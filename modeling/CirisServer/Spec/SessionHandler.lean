import CirisServer.ForStd.Lease
import CirisServer.Spec.SessionClaims

/-!
# One device handles an exchange

A holder that every view names stays the one that is named, while each of its leases reaches
every view before the one before it ends. A renewal keeps the rank of the claim. A lease that is
dated afresh does not: it takes over only where no claim of another device outlives the leases
that precede it.

Key results:
- `named_elapse`: the fold names the holder when the time goes on
- `handledBy_step`: what a move keeps, and what it answers
-/

namespace CirisServer.SessionClaims

open Interleave Run

variable {ι : Type} [LinearOrder ι] {L : Fold ι} {f f' : Fleet ι} {i h : ι} {key : ExchangeKey}
variable {t : Int} {r : ClaimRow ι}

/-! ## The holder and its rivals -/

def ClaimRow.rank (r : ClaimRow ι) : Int ×ₗ ι := r.claim.rank

/-- The leases of the holder. -/
def leases (h : ι) (key : ExchangeKey) (f : Fleet ι) : List (ClaimRow ι) :=
  (f.view h).filter fun r => r.key = key ∧ r.claim.occurrenceKeyId = h

/-- A claim of another device, in some view. -/
def Rival (h : ι) (key : ExchangeKey) (f : Fleet ι) (r : ClaimRow ι) : Prop :=
  r.key = key ∧ r.claim.occurrenceKeyId ≠ h ∧ ∃ i, r ∈ f.view i

theorem mem_leases :
    r ∈ leases h key f ↔ r ∈ f.view h ∧ r.key = key ∧ r.claim.occurrenceKeyId = h := by
  simp [leases]

/-- Every view has a lease of the holder that is in force at `t`, and one that precedes each
    rival in force. -/
def Named (h : ι) (key : ExchangeKey) (t : Int) (f : Fleet ι) : Prop :=
  ∀ i, (∃ r ∈ f.view i, r.key = key ∧ t < r.validUntil) ∧
    ∀ rival, Rival h key f rival → t < rival.validUntil →
      ∃ r ∈ f.view i, r.key = key ∧ t < r.validUntil ∧ r.rank < rival.rank

/-- The lease precedes every claim of another device that is in force, or it comes after a lease
    of the holder that does, and that outlasts the claim. -/
def TakesOver (h : ι) (key : ExchangeKey) (f : Fleet ι) (r : ClaimRow ι) : Prop :=
  ∀ i, ∀ rival ∈ f.view i, rival.key = key → rival.claim.occurrenceKeyId ≠ h →
    f.clock < rival.validUntil →
      Lease.TakesOver ClaimRow.rank ClaimRow.validUntil (leases h key f) r rival

theorem takesOver_iff :
    TakesOver h key f r ↔ ∀ rival, Rival h key f rival → f.clock < rival.validUntil →
      Lease.TakesOver ClaimRow.rank ClaimRow.validUntil (leases h key f) r rival :=
  ⟨fun htakes rival hrival => by
      obtain ⟨hkey, hother, i, hrow⟩ := hrival
      exact htakes i rival hrow hkey hother,
    fun htakes i rival hrow hkey hother => htakes rival ⟨hkey, hother, i, hrow⟩⟩

/-- Each lease of the holder takes over from the ones before it. -/
def AllTakeOver (h : ι) (key : ExchangeKey) (f : Fleet ι) : Prop :=
  ∀ r ∈ leases h key f, f.clock < r.validUntil → TakesOver h key f r

omit [LinearOrder ι] in
/-- A lease ends 120 s after the operation that writes it, whatever it is dated. So renewal passes
    that are at most 60 s apart keep one in force. -/
theorem validUntil_row (due : Due) :
    (due.row i).validUntil = canonicalInstant (due.now + ttl) := by
  show canonicalInstant (leaseFor due.original due.now).2 = _
  unfold leaseFor renewalLease
  cases due.original with
  | none => rfl
  | some c =>
    by_cases hcap : due.now + ttl ≤ c + sessionLeaseMax
    · rw [Option.bind_some, if_pos hcap]
      rfl
    · rw [Option.bind_some, if_neg hcap]
      rfl

/-- The premise at the time `t`: a lease of the holder is in force, and those that end first have
    reached every view. -/
def Sustained (h : ι) (key : ExchangeKey) (t : Int) (f : Fleet ι) : Prop :=
  (∃ r ∈ leases h key f, t < r.validUntil) ∧
    ∀ r ∈ leases h key f, t < r.validUntil →
      (∀ s ∈ leases h key f, t < s.validUntil → r.validUntil ≤ s.validUntil) →
      ∀ i, r ∈ f.view i

/-- The fold of every view names the holder. -/
theorem handlerFor_of_named (hnamed : Named h key t f) (i : ι) :
    ∃ claim, L.handlerFor (f.view i) key t = some claim ∧ claim.occurrenceKeyId = h := by
  obtain ⟨⟨r, hr, hkey, hlive⟩, hrivals⟩ := hnamed i
  cases hread : L.handlerFor (f.view i) key t with
  | none => exact absurd hlive (L.unclaimed hread r hr hkey)
  | some claim =>
    refine ⟨claim, rfl, ?_⟩
    by_contra hother
    obtain ⟨row, hrow, hkey', hlive', rfl⟩ := L.names hread
    obtain ⟨s, hs, hskey, hslive, hlt⟩ := hrivals row ⟨hkey', hother, i, hrow⟩ hlive'
    have hle := L.earliest hread s hs hskey hslive
    exact absurd hlt (not_lt_of_ge hle)

/-- A read at an earlier instant finds a claim that precedes the rivals in force. -/
theorem handlerFor_of_named_le (hnamed : Named h key t f) {now : Int} (hnow : now ≤ t) (i : ι) :
    ∃ claim, L.handlerFor (f.view i) key now = some claim ∧
      ∀ rival, Rival h key f rival → t < rival.validUntil → claim.rank < rival.rank := by
  obtain ⟨⟨r, hr, hkey, hlive⟩, hrivals⟩ := hnamed i
  cases hread : L.handlerFor (f.view i) key now with
  | none => exact absurd (hnow.trans_lt hlive) (L.unclaimed hread r hr hkey)
  | some claim =>
    refine ⟨claim, rfl, fun rival hrival hforce => ?_⟩
    obtain ⟨s, hs, hskey, hslive, hlt⟩ := hrivals rival hrival hforce
    exact (L.earliest hread s hs hskey (hnow.trans_lt hslive)).trans_lt hlt

/-! ## What changes the rows -/

/-- Views only gain rows, and none of them is a rival's. -/
structure Gains (h : ι) (key : ExchangeKey) (f f' : Fleet ι) : Prop where
  views : ∀ i, f.view i ⊆ f'.view i
  rivals : ∀ r, Rival h key f' r → Rival h key f r

theorem Gains.leases (hgains : Gains h key f f') {r : ClaimRow ι} (hr : r ∈ leases h key f) :
    r ∈ SessionClaims.leases h key f' := by
  obtain ⟨hmem, hown⟩ := mem_leases.mp hr
  exact mem_leases.mpr ⟨hgains.views h hmem, hown⟩

theorem Named.gains (hgains : Gains h key f f') (hnamed : Named h key t f) :
    Named h key t f' := by
  intro i
  obtain ⟨⟨r, hr, hlive⟩, hrivals⟩ := hnamed i
  refine ⟨⟨r, hgains.views i hr, hlive⟩, fun rival hrival hforce => ?_⟩
  obtain ⟨s, hs, hrest⟩ := hrivals rival (hgains.rivals rival hrival) hforce
  exact ⟨s, hgains.views i hs, hrest⟩

/-- The time goes on, and the holder is still named. -/
theorem named_elapse (htakes : AllTakeOver h key f) (ht : f.clock ≤ t)
    (hsustained : Sustained h key t f) : Named h key t f := by
  obtain ⟨hforce, hreached⟩ := hsustained
  have hview : ∀ i r, Lease.First ClaimRow.validUntil t (leases h key f) r → r ∈ f.view i :=
    fun i r hfirst => hreached r hfirst.mem hfirst.inForce hfirst.first i
  intro i
  constructor
  · obtain ⟨r, hfirst⟩ := Lease.exists_first hforce
    exact ⟨r, hview i r hfirst, (mem_leases.mp hfirst.mem).2.1, hfirst.inForce⟩
  · intro rival hrival hlive
    obtain ⟨r, hr, hmem, hlive', hlt⟩ := Lease.exists_rank_lt (hview i) hforce hlive
      fun r hr hrlive =>
        takesOver_iff.mp (htakes r hr (ht.trans_lt hrlive)) rival hrival (ht.trans_lt hlive)
    exact ⟨r, hr, (mem_leases.mp hmem).2.1, hlive', hlt⟩

/-! ## Where rows come from, and when operations were called -/

/-- A claim is a self-report: it is in the view of the device it names. -/
def SelfReported (f : Fleet ι) : Prop := ∀ i, ∀ r ∈ f.view i, r ∈ f.view r.claim.occurrenceKeyId

/-- The instant that an operation was called at, while it is to read the exchange. -/
def Phase.pending (key : ExchangeKey) : Phase ι → Option Int
  | .gating k now => if k = key then some now else none
  | .renewing now _ todo _ => if todo.any (·.1 = key) then some now else none
  | .leasing now _ _ _ todo _ => if todo.any (·.1 = key) then some now else none
  | _ => none

/-- `gate` has claimed the exchange, and is to read the fold again. -/
def Phase.rereads (key : ExchangeKey) : Phase ι → Bool
  | .rereading k _ => k = key
  | _ => false

/-- The operation was called before. -/
def Past (key : ExchangeKey) (f : Fleet ι) (_ : ι) (phase : Phase ι) : Prop :=
  ∀ now ∈ phase.pending key, now ≤ f.clock

omit [LinearOrder ι] in
theorem pending_of_reads {phase : Phase ι} {now : Int} (hreads : phase.reads = some (key, now)) :
    phase.pending key = some now := by
  cases phase with
  | gating k now' =>
    cases hreads
    exact if_pos rfl
  | renewing now' attended todo lines =>
    cases todo with
    | nil => cases hreads
    | cons entry todo =>
      cases hreads
      exact if_pos (by simp)
  | claiming | rereading | answered | leasing | passed => cases hreads

/-- What an operation is still to read, it was to read before. -/
theorem pending_advance {env : Env} {phase : Phase ι} {now : Int}
    (hnow : now ∈ (phase.advance L env i f).2.pending key) : now ∈ phase.pending key := by
  have htail : ∀ {entry : ExchangeKey × Exchange} {todo : List (ExchangeKey × Exchange)} {n : Int},
      now ∈ (if todo.any (·.1 = key) then some n else none) →
        now ∈ (if (entry :: todo).any (·.1 = key) then some n else none) := by
    intro entry todo n hmem
    by_cases htodo : todo.any (·.1 = key) = true
    · rw [if_pos htodo] at hmem
      rw [List.any_cons, htodo, Bool.or_true]
      exact hmem
    · rw [if_neg htodo] at hmem
      cases hmem
  cases phase with
  | gating k now' =>
    simp only [Phase.advance, gateRead] at hnow
    split at hnow
    · cases hnow
    · split at hnow <;> cases hnow
  | claiming k now' =>
    simp only [Phase.advance] at hnow
    split at hnow <;> cases hnow
  | rereading | answered | passed => cases hnow
  | leasing now' attended line original todo lines => exact hnow
  | renewing now' attended todo lines =>
    cases todo with
    | nil => cases hnow
    | cons entry todo =>
      simp only [Phase.advance, renewRead] at hnow
      split at hnow
      · exact htail hnow
      · split at hnow <;> exact htail hnow

/-- A row of a self-report reaches another view from its own. -/
theorem selfReported_step {c : Config (Fleet ι) (Task ι)} {m : Move (Happening ι) Env}
    (hinv : Holds SelfReported (Past key) c) :
    Holds SelfReported (Past key) ((fleetSystem L).step c m) := by
  apply hinv.step
  · intro hap _
    refine ⟨fun i r hr => ?_, fun i phase _ hpast now hnow => (hpast now hnow).trans ?_⟩
    · obtain ⟨source, hold⟩ := mem_view_spawn hr
      exact view_subset_spawn hap (hinv.shared source r hold)
    · exact clock_le_spawn hap
  · intro i k _ now hnow
    simp only [Phase.pending] at hnow
    split at hnow <;> cases hnow
    exact le_refl _
  · intro i _ now hnow
    simp only [Phase.pending] at hnow
    split at hnow <;> cases hnow
    exact le_refl _
  · rintro k env i phase rfl ht hpast
    rw [Past, clock_advance]
    refine ⟨fun j r hr => ?_, fun now hnow => hpast now (pending_advance hnow),
      fun j phase' _ hpast' => ?_⟩
    · rcases mem_view_advance hr with hold | ⟨rfl, due, hdue, hfails, rfl⟩
      · exact view_subset_advance env phase (hinv.shared j r hold)
      · exact hr
    · rw [Past, clock_advance]
      exact hpast'

/-! ## The invariant -/

/-- The fleet while the holder is named. -/
structure Handled (h : ι) (key : ExchangeKey) (f : Fleet ι) : Prop where
  named : Named h key f.clock f
  takesOver : AllTakeOver h key f

/-- An operation while the holder is named: another device reads an instant at which it is
    named, and the holder alone has a lease to write, which keeps its rank. -/
structure Calm (h : ι) (key : ExchangeKey) (f : Fleet ι) (i : ι) (phase : Phase ι) : Prop where
  pending : ∀ now ∈ phase.pending key, i ≠ h → Named h key now f
  due : ∀ due ∈ phase.due, due.key = key → i = h ∧ ∃ c, due.original = some c ∧
    ∀ rival, Rival h key f rival → f.clock < rival.validUntil → toLex (c, h) < rival.rank
  reread : phase.rereads key = false

/-- An operation that was called just now. -/
theorem Calm.of_new {phase : Phase ι} (hnamed : Named h key f.clock f)
    (hpending : ∀ now ∈ phase.pending key, now = f.clock) (hdue : phase.due = none)
    (hreread : phase.rereads key = false) : Calm h key f i phase where
  pending now hnow _ := by
    rw [hpending now hnow]
    exact hnamed
  due due hmem := by
    rw [hdue] at hmem
    cases hmem
  reread := hreread

theorem Calm.gains {phase : Phase ι} (hgains : Gains h key f f') (hclock : f.clock ≤ f'.clock)
    (hcalm : Calm h key f i phase) : Calm h key f' i phase where
  pending now hnow hother := (hcalm.pending now hnow hother).gains hgains
  due due hdue hkey := by
    obtain ⟨hholder, c, horiginal, hprecedes⟩ := hcalm.due due hdue hkey
    exact ⟨hholder, c, horiginal, fun rival hrival hforce =>
      hprecedes rival (hgains.rivals rival hrival) (hclock.trans_lt hforce)⟩
  reread := hcalm.reread

theorem TakesOver.gains (hgains : Gains h key f f') (hclock : f.clock ≤ f'.clock)
    (htakes : TakesOver h key f r) : TakesOver h key f' r := by
  refine takesOver_iff.mpr fun rival hrival hforce => ?_
  have hold := takesOver_iff.mp htakes rival (hgains.rivals rival hrival) (hclock.trans_lt hforce)
  exact hold.mono fun s hs => hgains.leases hs

/-- Leases that take over still do, when rows arrive that are none of the holder's. -/
theorem AllTakeOver.gains (hgains : Gains h key f f') (hclock : f.clock ≤ f'.clock)
    (hsame : ∀ r ∈ leases h key f', r ∈ leases h key f) (htakes : AllTakeOver h key f) :
    AllTakeOver h key f' := by
  intro r hr hlive
  exact (htakes r (hsame r hr) (hclock.trans_lt hlive)).gains hgains hclock

/-! ## The conditions on a move -/

/-- When the time goes on, the holder's leases have reached every view. -/
def Sustains (h : ι) (key : ExchangeKey) (c : Config (Fleet ι) (Task ι)) :
    Move (Happening ι) Env → Prop
  | .arrive (.elapse nanos) => Sustained h key (c.shared.clock + nanos) c.shared
  | _ => True

/-- A lease that the holder dates afresh takes over from the ones before it. -/
def FreshTakesOver (h : ι) (key : ExchangeKey) (c : Config (Fleet ι) (Task ι)) :
    Move (Happening ι) Env → Prop
  | .arrive _ => True
  | .advance k env => ∀ p ∈ running c k, p.1 = h → env.writeFails = false →
    ∀ due ∈ p.2.due, due.key = key → due.original.bind (renewalLease · due.now) = none →
      TakesOver h key c.shared (due.row h)

/-- A step does not answer another device that it is to act. -/
def NobodyElseActs (L : Fold ι) (h : ι) (key : ExchangeKey) (c : Config (Fleet ι) (Task ι)) :
    Move (Happening ι) Env → Prop
  | .arrive _ => True
  | .advance k env => ∀ p ∈ running c k, p.1 ≠ h → p.2 ≠ .answered key .act →
    (p.2.advance L env p.1 c.shared).2 ≠ .answered key .act

/-! ## One move -/

theorem gains_spawn (hap : Happening ι) : Gains h key f (hap.spawn f).1 where
  views _ := view_subset_spawn hap
  rivals r hrival := by
    obtain ⟨hkey, hother, i, hr⟩ := hrival
    exact ⟨hkey, hother, mem_view_spawn hr⟩

theorem leases_spawn (hself : SelfReported f) {hap : Happening ι}
    (hr : r ∈ leases h key (hap.spawn f).1) : r ∈ leases h key f := by
  obtain ⟨hmem, hkey, hown⟩ := mem_leases.mp hr
  obtain ⟨source, hold⟩ := mem_view_spawn hmem
  exact mem_leases.mpr ⟨hown ▸ hself source r hold, hkey, hown⟩

/-- What happens keeps the holder named. -/
theorem handled_spawn (hself : SelfReported f) (hhandled : Handled h key f) {hap : Happening ι}
    (hm : ∀ nanos, hap = .elapse nanos → Sustained h key (f.clock + nanos) f) :
    Handled h key (hap.spawn f).1 := by
  have hgains : Gains h key f (hap.spawn f).1 := gains_spawn hap
  have hclock := clock_le_spawn (f := f) hap
  refine ⟨?_, hhandled.takesOver.gains hgains hclock fun r hr => leases_spawn hself hr⟩
  cases hap with
  | elapse nanos => exact (named_elapse hhandled.takesOver hclock (hm nanos rfl)).gains hgains
  | gate | renewOnce | notePresence | restart => exact hhandled.named.gains hgains
  | replicate source target row =>
    have hsame : ((Happening.replicate source target row).spawn f).1.clock = f.clock := by
      simp only [Happening.spawn]
      split <;> rfl
    rw [hsame]
    exact hhandled.named.gains hgains

/-- A row that appears is one of the holder's. -/
theorem gains_advance {env : Env} {phase : Phase ι} (hcalm : Calm h key f i phase) :
    Gains h key f (phase.advance L env i f).1 where
  views _ := view_subset_advance env phase
  rivals r hrival := by
    obtain ⟨hkey, hother, j, hr⟩ := hrival
    rcases mem_view_advance hr with hold | ⟨rfl, due, hdue, -, rfl⟩
    · exact ⟨hkey, hother, j, hold⟩
    · exact absurd (hcalm.due due hdue hkey).1 hother

theorem leases_advance {env : Env} {phase : Phase ι}
    (hr : r ∈ leases h key (phase.advance L env i f).1) :
    r ∈ leases h key f ∨ ∃ due, phase.due = some due ∧ due.key = key ∧ i = h ∧
      env.writeFails = false ∧ r = due.row h := by
  obtain ⟨hmem, hkey, hown⟩ := mem_leases.mp hr
  rcases mem_view_advance hmem with hold | ⟨rfl, due, hdue, hfails, rfl⟩
  · exact Or.inl (mem_leases.mpr ⟨hold, hkey, hown⟩)
  · exact Or.inr ⟨due, hdue, hkey, rfl, hfails, rfl⟩

/-- A renewal keeps the rank of the claim. -/
theorem rank_row_le {due : Due} {c v : Int} (horiginal : due.original = some c)
    (hrenewal : renewalLease c due.now = some v) : (due.row h).rank ≤ toLex (c, h) := by
  have hlease : leaseFor due.original due.now = (c, v) := by
    rw [horiginal, leaseFor, Option.bind_some, hrenewal, Option.map_some]
  have hcut : canonicalInstant c ≤ c := by
    unfold canonicalInstant
    omega
  show toLex ((due.row h).claim.claimedAt, h) ≤ toLex (c, h)
  rw [Due.row, hlease, Prod.Lex.toLex_le_toLex]
  rcases hcut.lt_or_eq with hlt | heq
  · exact Or.inl hlt
  · exact Or.inr ⟨heq, le_refl _⟩

/-- A step keeps the holder named. -/
theorem handled_advance {env : Env} {phase : Phase ι} (hhandled : Handled h key f)
    (hcalm : Calm h key f i phase)
    (hfresh : i = h → env.writeFails = false → ∀ due ∈ phase.due, due.key = key →
      due.original.bind (renewalLease · due.now) = none → TakesOver h key f (due.row h)) :
    Handled h key (phase.advance L env i f).1 := by
  have hgains : Gains h key f (phase.advance L env i f).1 := gains_advance hcalm
  constructor
  · rw [clock_advance]
    exact hhandled.named.gains hgains
  · intro r hr hlive
    refine TakesOver.gains hgains (clock_advance env phase).ge ?_
    rw [clock_advance] at hlive
    rcases leases_advance hr with hmem | ⟨due, hdue, hkey, hholder, hfails, rfl⟩
    · exact hhandled.takesOver r hmem hlive
    · obtain ⟨-, c, horiginal, hprecedes⟩ := hcalm.due due hdue hkey
      cases hrenewal : renewalLease c due.now with
      | some v =>
        refine takesOver_iff.mpr fun rival hrival hforce => Or.inl ?_
        exact (rank_row_le horiginal hrenewal).trans_lt (hprecedes rival hrival hforce)
      | none =>
        refine hfresh hholder hfails due hdue hkey ?_
        rw [horiginal, Option.bind_some, hrenewal]

/-- Who reads again has claimed. -/
theorem due_of_reread {env : Env} {phase : Phase ι}
    (hreread : (phase.advance L env i f).2.rereads key = true) :
    ∃ now, phase.due = some ⟨key, now, none⟩ := by
  cases phase with
  | claiming k now =>
    simp only [Phase.advance] at hreread
    split at hreread
    · cases hreread
    · exact ⟨now, by rw [Phase.due, of_decide_eq_true hreread]⟩
  | gating k now' =>
    simp only [Phase.advance, gateRead] at hreread
    split at hreread
    · cases hreread
    · split at hreread <;> cases hreread
  | rereading | answered | leasing | passed => cases hreread
  | renewing now' attended todo lines =>
    cases todo with
    | nil => cases hreread
    | cons entry todo =>
      simp only [Phase.advance, renewRead] at hreread
      split at hreread
      · cases hreread
      · split at hreread <;> cases hreread

/-- Who is told to act has read its own name. -/
theorem read_of_act {env : Env} {phase : Phase ι}
    (hact : (phase.advance L env i f).2 = .answered key .act) :
    phase = .answered key .act ∨ phase.rereads key = true ∨
      ∃ now, phase.pending key = some now ∧
        ∃ claim, L.handlerFor (f.view i) key now = some claim ∧ claim.occurrenceKeyId = i := by
  cases phase with
  | answered k verdict => exact Or.inl hact
  | rereading k now =>
    obtain ⟨rfl, -⟩ := Phase.answered.inj hact
    exact Or.inr (Or.inl (decide_eq_true rfl))
  | claiming k now =>
    simp only [Phase.advance] at hact
    split at hact <;> cases hact
  | leasing | passed => cases hact
  | renewing now attended todo lines =>
    cases todo with
    | nil => cases hact
    | cons entry todo =>
      simp only [Phase.advance, renewRead] at hact
      split at hact
      · cases hact
      · split at hact <;> cases hact
  | gating k now =>
    simp only [Phase.advance, gateRead] at hact
    split at hact
    · cases hact
    · split at hact
      case isTrue => cases hact
      case isFalse =>
        obtain ⟨rfl, hverdict⟩ := Phase.answered.inj hact
        refine Or.inr (Or.inr ⟨now, if_pos rfl, ?_⟩)
        cases hread : L.handlerFor (f.view i) k now with
        | none =>
          rw [hread] at hverdict
          cases hverdict
        | some claim =>
          rw [hread, Verdict.of] at hverdict
          split at hverdict
          case isTrue hmine => exact ⟨claim, rfl, hmine⟩
          case isFalse => cases hverdict

/-- A read while the holder is named leaves the operation calm. -/
theorem calm_advance {env : Env} {phase : Phase ι} (hhandled : Handled h key f)
    (hpast : Past key f i phase) (hcalm : Calm h key f i phase) :
    Calm h key (phase.advance L env i f).1 i (phase.advance L env i f).2 := by
  have hgains : Gains h key f (phase.advance L env i f).1 := gains_advance hcalm
  constructor
  · intro now hnow hother
    exact (hcalm.pending now (pending_advance hnow) hother).gains hgains
  · intro due hdue hkey
    obtain ⟨-, hreads, hread⟩ := due_of_read hdue
    rw [hkey] at hreads hread
    have hpending := pending_of_reads hreads
    by_cases hholder : i = h
    · -- the holder reads a claim of its own that precedes every rival in force
      obtain ⟨claim, hclaim, hprecedes⟩ :=
        handlerFor_of_named_le (L := L) hhandled.named (hpast due.now hpending) i
      rcases hread with ⟨hnone, -⟩ | ⟨-, own, hown, hmine, horiginal⟩
      · rw [hclaim] at hnone
        cases hnone
      · rw [hclaim] at hown
        obtain rfl := Option.some.inj hown
        refine ⟨hholder, claim.claimedAt, horiginal, fun rival hrival hforce => ?_⟩
        rw [clock_advance] at hforce
        have hlt := hprecedes rival (hgains.rivals rival hrival) hforce
        rw [SessionClaim.rank, hmine, hholder] at hlt
        exact hlt
    · -- another device reads the holder's name
      obtain ⟨claim, hclaim, hname⟩ :=
        handlerFor_of_named (L := L) (hcalm.pending due.now hpending hholder) i
      rcases hread with ⟨hnone, -⟩ | ⟨-, own, hown, hmine, -⟩
      · rw [hclaim] at hnone
        cases hnone
      · rw [hclaim] at hown
        obtain rfl := Option.some.inj hown
        exact absurd (hmine.symm.trans hname) hholder
  · by_contra hreread
    obtain ⟨now, hdue⟩ := due_of_reread (Bool.not_eq_false _ ▸ hreread)
    obtain ⟨-, c, horiginal, -⟩ := hcalm.due _ hdue rfl
    cases horiginal

/-- No other device is told to act. -/
theorem nobodyElse_advance {env : Env} {phase : Phase ι} (hcalm : Calm h key f i phase)
    (hother : i ≠ h) (hbefore : phase ≠ .answered key .act) :
    (phase.advance L env i f).2 ≠ .answered key .act := by
  intro hact
  rcases read_of_act hact with hold | hreread | ⟨now, hpending, own, hown, hmine⟩
  · exact hbefore hold
  · rw [hcalm.reread] at hreread
    cases hreread
  · obtain ⟨claim, hclaim, hname⟩ :=
      handlerFor_of_named (L := L) (hcalm.pending now hpending hother) i
    rw [hclaim] at hown
    obtain rfl := Option.some.inj hown
    exact hother (hmine.symm.trans hname)

/-! ## Every move -/

/-- The fleet and its operations while the holder is named. -/
def HandledBy (h : ι) (key : ExchangeKey) (c : Config (Fleet ι) (Task ι)) : Prop :=
  Holds SelfReported (Past key) c ∧ Holds (Handled h key) (Calm h key) c

/-- **Step lemma.** -/
theorem handledBy_step {c : Config (Fleet ι) (Task ι)} {m : Move (Happening ι) Env}
    (hinv : HandledBy h key c) (hsustains : Sustains h key c m) (hfresh : FreshTakesOver h key c m) :
    HandledBy h key ((fleetSystem L).step c m) ∧ NobodyElseActs L h key c m := by
  obtain ⟨hself, hhandled⟩ := hinv
  refine ⟨⟨selfReported_step hself, ?_⟩, ?_⟩
  · apply hhandled.step
    · rintro hap rfl
      refine ⟨handled_spawn hself.shared hhandled.shared ?_, fun i phase _ hcalm =>
        hcalm.gains (gains_spawn hap) (clock_le_spawn hap)⟩
      rintro nanos rfl
      exact hsustains
    · intro i k _
      refine Calm.of_new hhandled.shared.named (fun now hnow => ?_) rfl rfl
      simp only [Phase.pending] at hnow
      split at hnow <;> cases hnow
      rfl
    · intro i _
      refine Calm.of_new hhandled.shared.named (fun now hnow => ?_) rfl rfl
      simp only [Phase.pending] at hnow
      split at hnow <;> cases hnow
      rfl
    · rintro k env i phase rfl ht hcalm
      have hpast := (hself.tasks _ (List.mem_of_getElem? ht)).2 rfl
      refine ⟨handled_advance hhandled.shared hcalm ?_,
        calm_advance hhandled.shared hpast hcalm, fun j phase' _ hcalm' =>
          hcalm'.gains (gains_advance hcalm) (clock_advance env phase).ge⟩
      intro hholder hfails due hdue hkey hdated
      exact hfresh _ (running_of_getElem? ht) hholder hfails due hdue hkey hdated
  · cases m with
    | arrive hap => trivial
    | advance k env =>
      intro p hp hother hbefore
      have htask := hhandled.tasks _ (List.mem_of_getElem? (getElem?_of_running hp))
      exact nobodyElse_advance (htask.2 rfl) hother hbefore

end CirisServer.SessionClaims
