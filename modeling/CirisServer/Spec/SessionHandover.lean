import Mathlib.Data.Fintype.Basic
import Mathlib.Data.List.MinMax
import CirisServer.Spec.SessionHandler

/-!
# Once every view has the holder's leases

The runs of a fleet, and a way in which another device comes to act: an operation that is between
its read and its write claims over the claim that has arrived meanwhile.

Key results:
- `one_device_handles`: every run whose moves meet the conditions
- `another_device_acts`: a run in which a device claims what its view says is handled
-/

namespace CirisServer.SessionClaims

open Interleave Run

variable {ι : Type} [LinearOrder ι] {L : Fold ι} {f : Fleet ι} {h : ι} {key : ExchangeKey}

/-- Every view contains the holder's leases, and names the holder. -/
structure Seen (L : Fold ι) (h : ι) (key : ExchangeKey) (f : Fleet ι) : Prop where
  names : ∀ i, ∃ claim ∈ L.handlerFor (f.view i) key f.clock, claim.occurrenceKeyId = h
  everywhere : ∀ r ∈ leases h key f, ∀ i, r ∈ f.view i

/-- No operation of another device on the exchange is under way, and none of the holder's is about
    to write. -/
def Quiet (h : ι) (key : ExchangeKey) (c : Config (Fleet ι) (Task ι)) : Prop :=
  ∀ t ∈ c.tasks, ∀ p ∈ t.running c.shared, (p.1 = h ∨ p.2.pending key = none) ∧
    (∀ due ∈ p.2.due, due.key ≠ key) ∧ p.2.rereads key = false

/-- What the fleet has to meet when every view contains the holder's leases. -/
structure Settled (h : ι) (key : ExchangeKey) (c : Config (Fleet ι) (Task ι)) : Prop where
  quiet : Quiet h key c
  takesOver : AllTakeOver h key c.shared

theorem named_of_seen (hself : SelfReported f) (hseen : Seen L h key f) :
    Named h key f.clock f := by
  intro i
  obtain ⟨claim, hclaim, hname⟩ := hseen.names i
  obtain ⟨row, hrow, hkey, hlive, rfl⟩ := L.names hclaim
  refine ⟨⟨row, hrow, hkey, hlive⟩, fun rival hrival hforce => ?_⟩
  -- the rival's view names the holder too, by a lease that is in this view as well
  obtain ⟨hkey', hother, j, hrow'⟩ := hrival
  obtain ⟨claim', hclaim', hname'⟩ := hseen.names j
  obtain ⟨s, hs, hskey, hslive, rfl⟩ := L.names hclaim'
  have hlease : s ∈ leases h key f :=
    mem_leases.mpr ⟨hname' ▸ hself j s hs, hskey, hname'⟩
  refine ⟨s, hseen.everywhere s hlease i, hskey, hslive, ?_⟩
  refine lt_of_le_of_ne (L.earliest hclaim' rival hrow' hkey' hforce) fun heq => hother ?_
  rw [← SessionClaim.rank_injective heq]
  exact hname'

theorem handledBy_of_settled {c : Config (Fleet ι) (Task ι)}
    (hself : Holds SelfReported (Past key) c) (hseen : Seen L h key c.shared)
    (hsettled : Settled h key c) : HandledBy h key c := by
  refine ⟨hself, ⟨named_of_seen hself.shared hseen, hsettled.takesOver⟩, fun t ht => ?_⟩
  cases t with
  | idle => trivial
  | op i boot phase =>
    refine ⟨(hself.tasks _ ht).1, ?_⟩
    rintro rfl
    obtain ⟨hpending, hdue, hreread⟩ := hsettled.quiet _ ht _ running_of_mem
    refine ⟨fun now hnow hother => ?_, fun due hmem hkey => ?_, hreread⟩
    · rw [hpending.resolve_left hother] at hnow
      cases hnow
    · exact absurd hkey (hdue due hmem)

/-- **Run.** A device writes a lease where its own view names nobody or itself, and every lease is
    bounded; and once every view has the holder's leases, no other device is told to act. -/
theorem one_device_handles (L : Fold ι) (h : ι) (key : ExchangeKey) (clock : Int)
    (moves later : List (Move (Happening ι) Env))
    (hmoves : Guarded (fleetSystem L).step (fun c m => Undisturbed L c m ∧ Prompt L c m)
      (start clock) (moves ++ later))
    (hseen : Seen L h key (after (fleetSystem L).step (start clock) moves).shared)
    (hsettled : Settled h key (after (fleetSystem L).step (start clock) moves))
    (hsustains : Guarded (fleetSystem L).step (Sustains h key)
      (after (fleetSystem L).step (start clock) moves) later)
    (hfresh : Guarded (fleetSystem L).step (FreshTakesOver h key)
      (after (fleetSystem L).step (start clock) moves) later) :
    Guarded (fleetSystem L).step (WritesOwn L) (start clock) (moves ++ later) ∧
    Guarded (fleetSystem L).step (NobodyElseActs L h key)
      (after (fleetSystem L).step (start clock) moves) later ∧
    AllBounded (after (fleetSystem L).step (start clock) (moves ++ later)).shared := by
  refine ⟨writesOwn_run (hmoves.imp fun _ _ hm => hm.1), ?_,
    allBounded_run (hmoves.imp fun _ _ hm => hm.2)⟩
  have hself : Holds SelfReported (Past key) (after (fleetSystem L).step (start clock) moves) :=
    after_invariant (fun _ _ hinv => selfReported_step hinv)
      (holds_start fun _ _ hrow => by cases hrow)
  exact (hsustains.and hfresh).guarantee (fun _ _ hinv hm => handledBy_step hinv hm.1 hm.2)
    (handledBy_of_settled hself hseen hsettled)

/-! ## Two devices -/

/-- The order of the ranks, from the order of the integers that can be evaluated. -/
@[reducible] def rankOrder : LinearOrder (Int ×ₗ ι) :=
  @Prod.Lex.instLinearOrder Int ι Int.instLinearOrder _

/-- The fold as it is documented: the least of the claims in force. -/
def leastClaim (view : List (ClaimRow ι)) (key : ExchangeKey) (now : Int) :
    Option (SessionClaim ι) :=
  (@List.argmin _ _ rankOrder.toPartialOrder.toPreorder rankOrder.toDecidableLT ClaimRow.rank
    (view.filter fun r => r.key = key ∧ now < r.validUntil)).map (·.claim)

def leastFold : Fold ι where
  handlerFor := leastClaim
  unclaimed := by
    intro view key now hnone row hrow hkey hlive
    rw [leastClaim, Option.map_eq_none_iff, List.argmin_eq_none, List.filter_eq_nil_iff] at hnone
    exact hnone row hrow (by simp [hkey, hlive])
  names := by
    intro view key now claim hclaim
    obtain ⟨row, hrow, rfl⟩ := Option.map_eq_some_iff.mp hclaim
    have hmem := List.mem_filter.mp (List.argmin_mem hrow)
    have hlive := of_decide_eq_true hmem.2
    exact ⟨row, hmem.1, hlive.1, hlive.2, rfl⟩
  earliest := by
    intro view key now claim hclaim row hrow hkey hlive
    obtain ⟨least, hleast, rfl⟩ := Option.map_eq_some_iff.mp hclaim
    have hmem : row ∈ view.filter fun r => r.key = key ∧ now < r.validUntil :=
      List.mem_filter.mpr ⟨hrow, by simp [hkey, hlive]⟩
    exact List.le_of_mem_argmin (f := ClaimRow.rank) hmem hleast

section Decidable

variable (L : Fold ι) (h : ι) (key : ExchangeKey) (c : Config (Fleet ι) (Task ι))

instance decidableUndisturbed : ∀ m, Decidable (Undisturbed L c m)
  | .advance _ _ => inferInstanceAs (Decidable True)
  | .arrive (.replicate source target row) => inferInstanceAs (Decidable
      (row ∈ c.shared.view source → ∀ t ∈ c.tasks, ∀ p ∈ t.running c.shared, p.1 = target →
        ∀ due ∈ p.2.due, ∀ claim ∈ L.handlerFor ((c.shared.view target).insert row) due.key due.now,
          claim.occurrenceKeyId = target))
  | .arrive (.gate _ _) | .arrive (.renewOnce _) | .arrive (.notePresence _)
  | .arrive (.restart _) | .arrive (.elapse _) => inferInstanceAs (Decidable True)

instance decidablePrompt : ∀ m, Decidable (Prompt L c m)
  | .arrive _ => inferInstanceAs (Decidable True)
  | .advance k _ => inferInstanceAs (Decidable (∀ p ∈ running c k, ∀ read ∈ p.2.renews,
      ∀ claim ∈ L.handlerFor (c.shared.view p.1) read.1 read.2,
        claim.occurrenceKeyId = p.1 → claim.claimedAt ≤ read.2 + ttl))

instance decidableWritesOwn : ∀ m, Decidable (WritesOwn L c m)
  | .arrive _ => inferInstanceAs (Decidable True)
  | .advance k env => inferInstanceAs (Decidable (∀ p ∈ running c k, env.writeFails = false →
      ∀ due ∈ p.2.due, ∀ claim ∈ L.handlerFor (c.shared.view p.1) due.key due.now,
        claim.occurrenceKeyId = p.1))

instance decidableNobodyElseActs : ∀ m, Decidable (NobodyElseActs L h key c m)
  | .arrive _ => inferInstanceAs (Decidable True)
  | .advance k env => inferInstanceAs (Decidable (∀ p ∈ running c k, p.1 ≠ h →
      p.2 ≠ .answered key .act → (p.2.advance L env p.1 c.shared).2 ≠ .answered key .act))

variable [Fintype ι] (f : Fleet ι)

instance decidableTakesOver (r : ClaimRow ι) : Decidable (TakesOver h key f r) :=
  inferInstanceAs (Decidable (∀ i, ∀ rival ∈ f.view i, rival.key = key →
    rival.claim.occurrenceKeyId ≠ h → f.clock < rival.validUntil →
      (r.rank < rival.rank ∨ ∃ s ∈ leases h key f,
        s.rank < rival.rank ∧ rival.validUntil ≤ s.validUntil ∧ s.validUntil ≤ r.validUntil)))

instance decidableSustained (t : Int) : Decidable (Sustained h key t f) :=
  inferInstanceAs (Decidable ((∃ r ∈ leases h key f, t < r.validUntil) ∧
    ∀ r ∈ leases h key f, t < r.validUntil →
      (∀ s ∈ leases h key f, t < s.validUntil → r.validUntil ≤ s.validUntil) →
      ∀ i, r ∈ f.view i))

instance decidableSustains : ∀ m, Decidable (Sustains h key c m)
  | .advance _ _ => inferInstanceAs (Decidable True)
  | .arrive (.elapse nanos) =>
    inferInstanceAs (Decidable (Sustained h key (c.shared.clock + nanos) c.shared))
  | .arrive (.gate _ _) | .arrive (.renewOnce _) | .arrive (.notePresence _)
  | .arrive (.restart _) | .arrive (.replicate _ _ _) => inferInstanceAs (Decidable True)

instance decidableFreshTakesOver : ∀ m, Decidable (FreshTakesOver h key c m)
  | .arrive _ => inferInstanceAs (Decidable True)
  | .advance k env => inferInstanceAs (Decidable (∀ p ∈ running c k, p.1 = h →
      env.writeFails = false → ∀ due ∈ p.2.due, due.key = key →
        due.original.bind (renewalLease · due.now) = none → TakesOver h key c.shared (due.row h)))

instance decidableAllTakeOver : Decidable (AllTakeOver h key f) :=
  inferInstanceAs (Decidable (∀ r ∈ leases h key f, f.clock < r.validUntil → TakesOver h key f r))

instance decidableSeen : Decidable (Seen L h key f) :=
  decidable_of_iff ((∀ i, ∃ claim ∈ L.handlerFor (f.view i) key f.clock,
      claim.occurrenceKeyId = h) ∧ ∀ r ∈ leases h key f, ∀ i, ∃ s ∈ f.view i, s = r) <| by
    constructor
    · intro hseen
      refine ⟨hseen.1, fun r hr i => ?_⟩
      obtain ⟨s, hs, rfl⟩ := hseen.2 r hr i
      exact hs
    · intro hseen
      exact ⟨hseen.names, fun r hr i => ⟨r, hseen.everywhere r hr i, rfl⟩⟩

instance decidableSettled : Decidable (Settled h key c) :=
  decidable_of_iff ((∀ t ∈ c.tasks, ∀ p ∈ t.running c.shared,
      (p.1 = h ∨ p.2.pending key = none) ∧ (∀ due ∈ p.2.due, due.key ≠ key) ∧
        p.2.rereads key = false) ∧ AllTakeOver h key c.shared)
    ⟨fun hsettled => ⟨hsettled.1, hsettled.2⟩, fun hsettled => ⟨hsettled.quiet, hsettled.takesOver⟩⟩

end Decidable

abbrev dm : ExchangeKey := ("dm", "1")

/-- A claim row over `dm`, in seconds. -/
def dmRow (i : Fin 2) (claimedAt validUntil : Int) : ClaimRow (Fin 2) :=
  ⟨dm, ⟨i, claimedAt * 1000000000⟩, validUntil * 1000000000⟩

/-- The person is on device 0, which claims, and its row reaches device 1. -/
def claimed : List (Move (Happening (Fin 2)) Env) :=
  [.arrive (.notePresence 0), .arrive (.gate 0 dm), .advance 1 {}, .advance 1 {}, .advance 1 {},
    .arrive (.replicate 0 1 (dmRow 0 0 120))]

/-- A minute later device 0 renews, the lease reaches device 1, and past the end of the first one
    device 1 asks who handles the exchange. -/
def renewed : List (Move (Happening (Fin 2)) Env) :=
  [.arrive (.elapse 60000000000), .arrive (.notePresence 1), .arrive (.renewOnce 0), .advance 5 {},
    .advance 5 {}, .advance 5 {}, .arrive (.replicate 0 1 (dmRow 0 0 180)),
    .arrive (.elapse 60000000000), .arrive (.gate 1 dm), .advance 8 {}]

theorem one_device_handles_renewed :
    Guarded (fleetSystem leastFold).step (NobodyElseActs leastFold 0 dm)
      (after (fleetSystem leastFold).step (start 0) claimed) renewed ∧
    (after (fleetSystem leastFold).step (start 0) (claimed ++ renewed)).tasks[8]? =
      some (.op 1 0 (.answered dm (.handledElsewhere 0))) :=
  ⟨(one_device_handles leastFold 0 dm 0 claimed renewed (by decide) (by decide) (by decide)
      (by decide) (by decide)).2.1, by decide⟩

/-- Device 0 reads that nobody holds the exchange. A second later device 1 claims it, and its row
    reaches device 0. -/
def raced : List (Move (Happening (Fin 2)) Env) :=
  [.arrive (.notePresence 0), .arrive (.notePresence 1), .arrive (.gate 0 dm), .advance 2 {},
    .arrive (.elapse 1000000000), .arrive (.gate 1 dm), .advance 4 {}, .advance 4 {},
    .arrive (.replicate 1 0 (dmRow 1 1 121))]

/-- Device 0 goes on: it claims, and reads its own name. -/
def wentOn : List (Move (Happening (Fin 2)) Env) := [.advance 2 {}, .advance 2 {}]

/-- Every view contains the rows of device 1 and names it, and still device 0 writes a claim of its
    own and is told to act. -/
theorem another_device_acts :
    Seen leastFold 1 dm (after (fleetSystem leastFold).step (start 0) raced).shared ∧
    Guarded (fleetSystem leastFold).step (Sustains 1 dm)
      (after (fleetSystem leastFold).step (start 0) raced) wentOn ∧
    ¬ Guarded (fleetSystem leastFold).step (WritesOwn leastFold) (start 0) (raced ++ wentOn) ∧
    ¬ Guarded (fleetSystem leastFold).step (NobodyElseActs leastFold 1 dm)
      (after (fleetSystem leastFold).step (start 0) raced) wentOn ∧
    (after (fleetSystem leastFold).step (start 0) (raced ++ wentOn)).tasks[2]? =
      some (.op 0 0 (.answered dm .act)) := by
  decide

end CirisServer.SessionClaims
