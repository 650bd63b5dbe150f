import CirisServer.ForStd.Run
import CirisServer.ForStd.TimedLog
import CirisServer.Native.IngestRefusals
import Mathlib.Data.List.Induction

/-!
# A reading of the ledger

The ledger is a log of the last hour that holds 4096 refusals at most. A reading is the counts of
what it holds, and what it holds is the end of all that was refused: nothing older than the window,
and nothing of the window missing, unless the reading says that it is truncated. The instants come
in the order the lock was taken, which is not the order of the clock; a reading is exact but for as
far as they went back.

## Key results

- `bundleOf_counts`: the fields of a reading count what the ledger holds
- `tracks_after`: in every run, the ledger holds what a log of the last hour holds
- `snapshot_spec`: a reading, against all that was posted
-/

namespace CirisServer.IngestRefusals

open Run

/-! ## Counting what is held -/

/-- The fields of a reading count the refusals in `held`. -/
structure Counts (b : IngestRefusalBundle) (held : List Refusal) : Prop where
  readable : b.readable = true
  inWindow : b.refusalsInWindow = held.length
  unattributed : b.unattributedInWindow = held.countP (·.signer.isNone)
  distinct : b.distinctSignersInWindow = (held.filterMap (·.signer)).dedup.length
  byKind : ∀ kind, Tally.count kind b.byKindInWindow = held.countP (·.kind = kind)
  /-- Who is named was refused as often as it says. -/
  named : ∀ s n, (s, n) ∈ b.topSigners → n = held.countP (·.signer = some s) ∧ 0 < n
  /-- Who is not named was refused no more often than any that is, and the list is full. -/
  unnamed : ∀ r ∈ held, ∀ s, r.signer = some s → s ∉ b.topSigners.map Prod.fst →
    b.topSigners.length = refusalTopN ∧
      ∀ top ∈ b.topSigners, worseFirst top (s, held.countP (·.signer = some s)) = true

theorem count_map_kind (held : List Refusal) (kind : String) :
    (held.map (·.kind)).count kind = held.countP (·.kind = kind) := by
  rw [List.count, List.countP_map]
  rfl

theorem count_signers (held : List Refusal) (s : String) :
    (held.filterMap (·.signer)).count s = held.countP (·.signer = some s) := by
  induction held with
  | nil => rfl
  | cons r held ih =>
    cases hr : r.signer with
    | none => simp [hr, ih]
    | some x => simp [hr, ih, List.count_cons, List.countP_cons]

theorem worseFirst_total (a b : String × Nat) :
    (worseFirst a b || worseFirst b a) = true := by
  unfold worseFirst
  by_cases hn : a.2 = b.2
  · have hs := String.le_total a.1 b.1
    simpa [hn] using hs
  · have hlt : a.2 > b.2 ∨ b.2 > a.2 := by omega
    cases hlt with
    | inl h => simp [h]
    | inr h => simp [h]

theorem worseFirst_trans (a b c : String × Nat) (hab : worseFirst a b = true)
    (hbc : worseFirst b c = true) : worseFirst a c = true := by
  simp only [worseFirst, gt_iff_lt, Bool.or_eq_true, decide_eq_true_eq, Bool.and_eq_true] at *
  cases hab with
  | inl h =>
    cases hbc with
    | inl h' => exact Or.inl (Nat.lt_trans h' h)
    | inr h' => exact Or.inl (h'.1 ▸ h)
  | inr h =>
    cases hbc with
    | inl h' => exact Or.inl (h.1 ▸ h')
    | inr h' => exact Or.inr ⟨h.1.trans h'.1, String.le_trans h.2 h'.2⟩

/-- The first of a sorted list come before all that are not among them. -/
theorem worseFirst_of_take {t : List (String × Nat)} {top rest : String × Nat} {n : Nat}
    (htop : top ∈ (t.mergeSort worseFirst).take n) (hrest : rest ∈ t)
    (hnot : rest ∉ (t.mergeSort worseFirst).take n) : worseFirst top rest = true := by
  have hsorted := List.pairwise_mergeSort worseFirst_trans worseFirst_total t
  rw [← List.take_append_drop n (t.mergeSort worseFirst), List.pairwise_append] at hsorted
  apply hsorted.2.2 top htop rest
  have hmem : rest ∈ t.mergeSort worseFirst := List.mem_mergeSort.mpr hrest
  rw [← List.take_append_drop n (t.mergeSort worseFirst), List.mem_append] at hmem
  exact hmem.resolve_left hnot

/-- **The fields of a reading.** -/
theorem bundleOf_counts (l : Ledger) (now floor : Int) :
    Counts (bundleOf l now floor) l.events := by
  let bySigner := Tally.ofList (l.events.filterMap (·.signer))
  have hentry : ∀ {s n}, (s, n) ∈ bySigner →
      n = l.events.countP (·.signer = some s) ∧ 0 < n := by
    intro s n h
    have hmem := Tally.mem_ofList h
    refine ⟨by rw [hmem.2, count_signers], ?_⟩
    rw [hmem.2]
    exact List.count_pos_iff.mpr hmem.1
  constructor
  case readable => rfl
  case inWindow => rfl
  case unattributed => rfl
  case distinct => exact Tally.length_ofList _
  case byKind =>
    intro kind
    rw [← count_map_kind]
    exact Tally.count_ofList _
  case named =>
    intro s n h
    exact hentry (List.mem_mergeSort.mp (List.mem_of_mem_take h))
  case unnamed =>
    intro r hr s hs hnot
    have hkey : s ∈ bySigner.map Prod.fst :=
      (Tally.mem_ofList_iff _).mpr (List.mem_filterMap.mpr ⟨r, hr, hs⟩)
    obtain ⟨⟨s', n⟩, hmem, hfst⟩ := List.mem_map.mp hkey
    rw [show s' = s from hfst] at hmem
    have hout : (s, n) ∉ (bySigner.mergeSort worseFirst).take refusalTopN := fun h =>
      hnot (List.mem_map_of_mem (f := Prod.fst) h)
    constructor
    · show ((bySigner.mergeSort worseFirst).take refusalTopN).length = refusalTopN
      rw [List.length_take]
      apply Nat.min_eq_left
      -- were the list not full, everyone would be on it
      by_contra hshort
      apply hout
      rw [List.take_of_length_le (by omega)]
      exact List.mem_mergeSort.mpr hmem
    · intro top htop
      rw [← (hentry hmem).1]
      exact worseFirst_of_take htop hmem hout

/-! ## Runs -/

variable (cr : Crates)

/-- What an event has the ledger record. -/
def refused : Event → Option Refusal
  | .post p =>
    if p.paused then none
    else if IngestGuard.batchHasMockLlmCall cr.fromSlice p.body then
      some { at' := p.now, kind := refusalMockLlm, signer := none }
    else
      match p.persisted with
      | .ok () => none
      | .error e =>
        some { at' := p.now, kind := cr.kind e, signer := (refusedSigner e).map truncateId }
  | _ => none

/-- A batch that is persisted. -/
def accepted : Event → Bool
  | .post p =>
    !p.paused && !IngestGuard.batchHasMockLlmCall cr.fromSlice p.body && p.persisted.isOk
  | _ => false

/-- The instant an event takes the lock with. -/
def instant : Event → Option Int
  | .read now => some now
  | e => (refused cr e).map (·.at')

/-- The ledger after a run: its totals, and its log of the last hour. -/
structure Follows (d start : Int) (es : List Event) (r : IngestRefusals) : Prop where
  alive : r.poisoned = false
  startedAt : r.ledger.startedAt = start
  refusedTotal : r.ledger.refusedTotal = min (es.filterMap (refused cr)).length u64Max
  acceptedTotal : r.ledger.acceptedTotal = min (es.countP (accepted cr)) u64Max
  tracks : TimedLog.Tracks (·.at') window refusalEventCap d (es.filterMap (refused cr))
    (es.filterMap (instant cr)) r.ledger.events r.ledger.lastCappedAt

variable {cr}

theorem prune_eq (l : Ledger) (now : Int) :
    prune l now =
      ({ l with
          events := (TimedLog.prune (·.at') window refusalEventCap now l.events l.lastCappedAt).1
          lastCappedAt :=
            (TimedLog.prune (·.at') window refusalEventCap now l.events l.lastCappedAt).2 },
        now - window) := by
  unfold prune TimedLog.prune
  dsimp only
  by_cases hfull :
      (l.events.dropWhile (fun x => decide (x.at' < now - window))).length > refusalEventCap
  · simp only [if_pos hfull]
  · simp only [if_neg hfull]

theorem saturatingSucc_min (n : Nat) : saturatingSucc (min n u64Max) = min (n + 1) u64Max := by
  unfold saturatingSucc
  generalize u64Max = limit
  omega

/-- A batch does to the ledger what its outcome says. -/
theorem ingest_ledger (r : IngestRefusals) (p : Post) :
    (r.ingest cr p).1 =
      match refused cr (.post p) with
      | some x => r.record x.at' x.kind x.signer
      | none => if accepted cr (.post p) then r.observeAccept else r := by
  unfold ingest refused accepted
  cases hp : p.paused with
  | true => simp [hp]
  | false =>
    cases hmock : IngestGuard.batchHasMockLlmCall cr.fromSlice p.body with
    | true => simp [hp, hmock, observeHandlerRefusal]
    | false =>
      cases hres : p.persisted with
      | ok u => simp [hp, hmock, hres, Except.isOk, Except.toBool]
      | error e => simp [hp, hmock, hres, observeRefusal]

/-- No batch is both refused and persisted. -/
theorem accepted_of_refused {e : Event} {x : Refusal} (hx : refused cr e = some x) :
    accepted cr e = false := by
  cases e with
  | read now => rfl
  | poison => rfl
  | post p =>
    cases hp : p.paused with
    | true => simp [accepted, hp]
    | false =>
      cases hmock : IngestGuard.batchHasMockLlmCall cr.fromSlice p.body with
      | true => simp [accepted, hmock]
      | false =>
        cases hres : p.persisted with
        | ok u => simp [refused, hp, hmock, hres] at hx
        | error e => simp [accepted, hres, Except.isOk, Except.toBool]

theorem instant_post (p : Post) : instant cr (.post p) = (refused cr (.post p)).map (·.at') := rfl

variable {d start : Int} {es : List Event} {r : IngestRefusals}

/-- A refusal is recorded. -/
theorem Follows.record (h : Follows cr d start es r) (hd : 0 ≤ d) {e : Event} {x : Refusal}
    (hx : refused cr e = some x) (hacc : accepted cr e = false)
    (hinst : instant cr e = some x.at')
    (hnow : ∀ t ∈ es.filterMap (instant cr), t ≤ x.at' + d) :
    Follows cr d start (es ++ [e]) (r.record x.at' x.kind x.signer) := by
  have htracks := (h.tracks.append (e := x) hnow).prune x.at' hd (by
    intro t ht
    cases List.mem_append.mp ht with
    | inl hold => exact hnow t hold
    | inr hnew =>
      rw [List.mem_singleton.mp hnew]
      omega)
  unfold IngestRefusals.record
  rw [h.alive, if_neg Bool.false_ne_true]
  dsimp only
  rw [prune_eq]
  constructor
  case alive => rfl
  case startedAt => exact h.startedAt
  case refusedTotal =>
    rw [List.filterMap_append, List.length_append]
    simp only [h.refusedTotal, saturatingSucc_min, List.filterMap_cons, hx, List.filterMap_nil,
      List.length_cons, List.length_nil]
  case acceptedTotal =>
    simp only [h.acceptedTotal, List.countP_append, List.countP_singleton, hacc,
      Bool.false_eq_true, if_false, Nat.add_zero]
  case tracks =>
    rw [List.filterMap_append, List.filterMap_append]
    simp only [List.filterMap_cons, hx, hinst, List.filterMap_nil]
    apply htracks.of_subset
    intro t ht
    rw [List.append_assoc, List.mem_append] at ht
    simpa using ht

/-- A batch that is persisted is counted. -/
theorem Follows.observeAccept (h : Follows cr d start es r) {e : Event}
    (hx : refused cr e = none) (hacc : accepted cr e = true) (hinst : instant cr e = none) :
    Follows cr d start (es ++ [e]) r.observeAccept := by
  unfold IngestRefusals.observeAccept
  rw [h.alive, if_neg Bool.false_ne_true]
  constructor
  case alive => rfl
  case startedAt => exact h.startedAt
  case refusedTotal => simp [h.refusedTotal, hx]
  case acceptedTotal =>
    simp only [h.acceptedTotal, saturatingSucc_min, List.countP_append, List.countP_singleton, hacc,
      if_true]
  case tracks => simpa [hx, hinst] using h.tracks

/-- What is neither refused nor persisted leaves the ledger. -/
theorem Follows.skip (h : Follows cr d start es r) {e : Event} (hx : refused cr e = none)
    (hacc : accepted cr e = false) (hinst : instant cr e = none) :
    Follows cr d start (es ++ [e]) r := by
  constructor
  case alive => exact h.alive
  case startedAt => exact h.startedAt
  case refusedTotal => simp [h.refusedTotal, hx]
  case acceptedTotal => simp [h.acceptedTotal, hacc]
  case tracks => simpa [hx, hinst] using h.tracks

/-- A reading prunes the log. -/
theorem Follows.read (h : Follows cr d start es r) (hd : 0 ≤ d) {now : Int}
    (hnow : ∀ t ∈ es.filterMap (instant cr), t ≤ now + d) :
    Follows cr d start (es ++ [.read now]) (r.snapshotAt now).1 := by
  have htracks := h.tracks.prune now hd hnow
  have hx : refused cr (.read now) = none := rfl
  have hinst : instant cr (.read now) = some now := rfl
  unfold snapshotAt
  rw [h.alive, if_neg Bool.false_ne_true, prune_eq]
  constructor
  case alive => rfl
  case startedAt => exact h.startedAt
  case refusedTotal => simp [h.refusedTotal, hx]
  case acceptedTotal => simp [h.acceptedTotal, accepted]
  case tracks => simpa [hx, hinst] using htracks

/-- No instant is more than `d` before one that was read earlier. -/
def Steady (cr : Crates) (d : Int) (es : List Event) : Prop :=
  (es.filterMap (instant cr)).Pairwise fun a b => a ≤ b + d

theorem Steady.le_of_append {e : Event} {t : Int} (h : Steady cr d (es ++ [e]))
    (he : instant cr e = some t) : ∀ t' ∈ es.filterMap (instant cr), t' ≤ t + d := by
  unfold Steady at h
  rw [List.filterMap_append, List.pairwise_append] at h
  intro t' ht'
  exact h.2.2 t' ht' t (by simp [he])

/-- **Run lemma.** While no thread dies with the lock, the ledger follows what is posted. -/
theorem tracks_after (hd : 0 ≤ d) (hlock : Event.poison ∉ es) (hclock : Steady cr d es) :
    Follows cr d start es (after (step cr) (startedAt start) es) := by
  induction es using List.reverseRecOn with
  | nil => exact ⟨rfl, rfl, rfl, rfl, TimedLog.tracks_nil⟩
  | append_singleton es e ih =>
    have hprefix : Steady cr d es := by
      unfold Steady at hclock
      rw [List.filterMap_append] at hclock
      exact (List.pairwise_append.mp hclock).1
    have hfollows := ih (fun h => hlock (List.mem_append_left _ h)) hprefix
    rw [after_concat]
    cases e with
    | poison => exact absurd (List.mem_append_right _ List.mem_cons_self) hlock
    | read now => exact hfollows.read hd (hclock.le_of_append rfl)
    | post p =>
      show Follows cr d start (es ++ [.post p]) (IngestRefusals.ingest cr _ p).1
      rw [ingest_ledger]
      cases hx : refused cr (.post p) with
      | some x =>
        have hinst : instant cr (.post p) = some x.at' := by rw [instant_post, hx]; rfl
        have hacc := accepted_of_refused hx
        exact hfollows.record hd hx hacc hinst (hclock.le_of_append hinst)
      | none =>
        have hinst : instant cr (.post p) = none := by rw [instant_post, hx]; rfl
        cases hacc : accepted cr (.post p) with
        | true => exact hfollows.observeAccept hx hacc hinst
        | false => exact hfollows.skip hx hacc hinst

/-! ## A reading -/

/-- What a reading at `now` says of `all` that was refused, `gone` and then `held`. -/
structure Reads (d now : Int) (b : IngestRefusalBundle) (all gone held : List Refusal) : Prop where
  split : all = gone ++ held
  counts : Counts b held
  bounded : held.length ≤ refusalEventCap
  /-- What is counted is of the window. -/
  recent : ∀ x ∈ held, now - window - d ≤ x.at'
  /-- What is not counted is not, if the reading is not truncated. -/
  complete : b.windowTruncated = false → ∀ x ∈ gone, x.at' < now - window + d
  /-- A reading is truncated when more was refused than the ledger holds. -/
  truncated : b.windowTruncated = true →
    refusalEventCap < all.countP (now - 2 * window - d ≤ ·.at')

/-- **A reading.** In every run whose instants go back by `d` at most, a reading counts the end of
    what was refused: all of the last hour and nothing else, up to `d` at the hour's beginning. -/
theorem snapshot_spec (hd : 0 ≤ d) (hlock : Event.poison ∉ es) {now : Int}
    (hclock : Steady cr d (es ++ [.read now])) :
    ∃ gone held,
      Reads d now ((after (step cr) (startedAt start) es).snapshotAt now).2
        (es.filterMap (refused cr)) gone held ∧
      ((after (step cr) (startedAt start) es).snapshotAt now).2.refusedTotal =
        min (es.filterMap (refused cr)).length u64Max ∧
      ((after (step cr) (startedAt start) es).snapshotAt now).2.acceptedTotal =
        min (es.countP (accepted cr)) u64Max := by
  have hprefix : Steady cr d es := by
    unfold Steady at hclock
    rw [List.filterMap_append] at hclock
    exact (List.pairwise_append.mp hclock).1
  have hnow : ∀ t ∈ es.filterMap (instant cr), t ≤ now + d := hclock.le_of_append rfl
  have hfollows : Follows cr d start es (after (step cr) (startedAt start) es) :=
    tracks_after hd hlock hprefix
  generalize after (step cr) (startedAt start) es = r at hfollows
  have htracks := hfollows.tracks.prune now hd hnow
  have hreading := hfollows.tracks.reading now hd hnow
  obtain ⟨gone, hall, -⟩ := htracks.split
  let held := (TimedLog.prune (·.at') window refusalEventCap now r.ledger.events
    r.ledger.lastCappedAt).1
  have hsnap : (r.snapshotAt now).2 = bundleOf (prune r.ledger now).1 now (now - window) := by
    unfold snapshotAt
    rw [hfollows.alive, if_neg Bool.false_ne_true, prune_eq]
  have hevents : (prune r.ledger now).1.events = held := by rw [prune_eq]
  rw [hsnap]
  refine ⟨gone, held, ⟨hall, ?_, TimedLog.length_prune_le, hreading.1, ?_, ?_⟩, ?_, ?_⟩
  · have hcounts := bundleOf_counts (prune r.ledger now).1 now (now - window)
    rw [hevents] at hcounts
    exact hcounts
  · -- the entries that are gone are the same list, whatever made them go
    intro hflag
    rw [prune_eq] at hflag
    have hcapped : ∀ t, (TimedLog.prune (·.at') window refusalEventCap now r.ledger.events
        r.ledger.lastCappedAt).2 = some t → t < now - window := by
      intro t ht
      simp [bundleOf, ht] at hflag
      omega
    obtain ⟨gone', hall', hold⟩ := hreading.2 hcapped
    have heq : gone' = gone := List.append_cancel_right (hall'.symm.trans hall)
    exact heq ▸ hold
  · intro hflag
    rw [prune_eq] at hflag
    cases hcap : (TimedLog.prune (·.at') window refusalEventCap now r.ledger.events
        r.ledger.lastCappedAt).2 with
    | none => simp [bundleOf, hcap] at hflag
    | some t =>
      have hge : now - window ≤ t := by simpa [bundleOf, hcap] using hflag
      have hcrowded := htracks.crowded t hcap
      refine Nat.lt_of_lt_of_le hcrowded (List.countP_mono_left fun x _ hx => ?_)
      simp only [decide_eq_true_eq] at hx ⊢
      omega
  · rw [prune_eq]
    exact hfollows.refusedTotal
  · rw [prune_eq]
    exact hfollows.acceptedTotal

/-- One producer is refused, the clock goes back a second, and a batch is persisted. -/
theorem snapshot_spec_backwards :
    ∃ gone held,
      Reads nanosPerSec (10 * nanosPerSec)
        ((after (step ⟨fun _ => none, fun _ => "verify_unknown_key"⟩) (startedAt 0)
          [.post ⟨[], false, .error (.verify (.unknownKey "agent-55fe8d181727")), 5 * nanosPerSec⟩,
            .post ⟨[], false, .error (.verify .signatureMismatch), 4 * nanosPerSec⟩,
            .post ⟨[], false, .ok (), 0⟩]).snapshotAt (10 * nanosPerSec)).2
        [⟨5 * nanosPerSec, "verify_unknown_key", some "agent-55fe8d181727"⟩,
          ⟨4 * nanosPerSec, "verify_unknown_key", none⟩] gone held := by
  obtain ⟨gone, held, hreads, -⟩ := 
    @snapshot_spec ⟨fun _ => none, fun _ => "verify_unknown_key"⟩ nanosPerSec 0
      [.post ⟨[], false, .error (.verify (.unknownKey "agent-55fe8d181727")), 5 * nanosPerSec⟩,
        .post ⟨[], false, .error (.verify .signatureMismatch), 4 * nanosPerSec⟩,
        .post ⟨[], false, .ok (), 0⟩]
      (by decide) (by simp) (10 * nanosPerSec) (by unfold Steady; decide)
  exact ⟨gone, held, hreads⟩

end CirisServer.IngestRefusals
