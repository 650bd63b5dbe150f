import CirisServer.ForStd.Run
import CirisServer.Native.EdgeMetrics

/-!
# Windows that neither lose rounds nor invent them

A run is the list of the samples that the node has passed on. Each says whether the edge runtime
restarted since the one before; if it did not, no counter has gone down.

Key results:
- `Monitor.windows_sum`: while the runtime lives, the windows of a counter sum to its growth
- `windows_faithful_iff`: which restarts the windows survive
-/

namespace CirisServer.EdgeMetrics

/-- One call, and whether the edge runtime restarted since the call before. -/
structure Sample where
  bundle : EdgeMetricsBundle
  restarted : Bool
  consentPeers : Option Nat

/-- No counter of edge's has gone down. -/
structure EdgeMetricsBundle.Grows (before now : EdgeMetricsBundle) : Prop where
  outcomes : ∀ o, Tally.count o before.replicationRoundOutcomesTotal ≤
    Tally.count o now.replicationRoundOutcomesTotal
  drops : before.replicationInboundBackpressureDrops ≤ now.replicationInboundBackpressureDrops

/-- A run: counters grow between two samples, unless the runtime restarted. -/
def Monotone (samples : List Sample) : Prop :=
  samples.IsChain fun x y => y.restarted = false → x.bundle.Grows y.bundle

inductive Counter where
  | completed
  | timedOut
  | refused
  | error
  | roundsTotal
  | backpressureDrops

def EdgeCounters.get (n : EdgeCounters) : Counter → Nat
  | .completed => n.completed
  | .timedOut => n.timedOut
  | .refused => n.refused
  | .error => n.error
  | .roundsTotal => n.roundsTotal
  | .backpressureDrops => n.backpressureDrops

/-- What a handed window says of a counter. -/
def Handed.get (h : Handed) : Counter → Option Nat
  | .completed => h.rounds.map (·.completed)
  | .timedOut => h.rounds.map (·.timedOut)
  | .refused => h.rounds.map (·.refused)
  | .error => h.rounds.map (·.error)
  | .roundsTotal => h.rounds.map (·.total)
  | .backpressureDrops => some h.drops

/-- A node without peers is told that no round can fail; its windows are of the drops alone. -/
def Counted (consentPeers : Option Nat) (c : Counter) : Prop :=
  c = .backpressureDrops ∨ consentPeers ≠ some 0

/-- What happened since the call before: since the restart, if there was one. -/
def gained (previous now : EdgeCounters) (restarted : Bool) (c : Counter) : Nat :=
  if restarted then now.get c else now.get c - previous.get c

/-- The windows that a call hands on. -/
def Monitor.handedAt (m : Monitor) (x : Sample) : Option Handed :=
  m.last.map fun previous => (windows (.read x.bundle) previous).handed x.consentPeers

def Monitor.step (p : Percent) (m : Monitor) (x : Sample) : Monitor :=
  reportEdgeMetricsWithTopology p x.bundle x.consentPeers m

def handedOver (p : Percent) : Monitor → List Sample → List Handed
  | _, [] => []
  | m, x :: samples => (m.handedAt x).toList ++ handedOver p (m.step p x) samples

/-- The windows of one counter, added up. -/
def windowsOf (p : Percent) (m : Monitor) (samples : List Sample) (c : Counter) : Nat :=
  ((handedOver p m samples).filterMap (·.get c)).sum

/-- The call hands on, of every counter, what it gained. -/
def Exact (m : Monitor) (x : Sample) : Prop :=
  ∀ previous h, m.last = some previous → m.handedAt x = some h →
    ∀ c, Counted x.consentPeers c → h.get c = some (gained previous (.read x.bundle) x.restarted c)

/-- The restart shows: some counter has gone down, or there was nothing for the old counts to add. -/
def Shows (m : Monitor) (x : Sample) : Prop :=
  x.restarted = true → ∀ previous, m.last = some previous →
    reset (.read x.bundle) previous = true ∨ ∀ c, Counted x.consentPeers c → previous.get c = 0

/-- The first call reports nothing, every later one judges exact windows, and those of a stretch
    without a restart sum to the growth of the counters. -/
structure Faithful (p : Percent) (m : Monitor) (samples : List Sample) : Prop where
  first : ∀ x, m.last = none → (m.step p x).registry = m.registry
  judged : Run.Guarded (Monitor.step p) (fun m x => ∀ h, m.handedAt x = some h →
    (m.step p x).registry = h.judge p m.registry) m samples
  exact : Run.Guarded (Monitor.step p) Exact m samples
  sums : ∀ before stretch, before ++ stretch <+: samples → (∀ x ∈ stretch, x.restarted = false) →
    ∀ previous, (Run.after (Monitor.step p) m before).last = some previous →
    ∃ last, (Run.after (Monitor.step p) m (before ++ stretch)).last = some last ∧
      ∀ c, (∀ x ∈ stretch, Counted x.consentPeers c) →
        previous.get c + windowsOf p (Run.after (Monitor.step p) m before) stretch c = last.get c

section

variable {p : Percent} {m : Monitor} {x : Sample} {samples : List Sample}
variable {previous now : EdgeCounters}

/-! ## The counters -/

theorem foldl_saturatingAdd (counts : List Nat) {a : Nat} (ha : a ≤ u64Max) :
    counts.foldl saturatingAdd a = min (a + counts.sum) u64Max := by
  induction counts generalizing a with
  | nil =>
    rw [List.foldl_nil, List.sum_nil]
    omega
  | cons n counts ih =>
    have hstep : saturatingAdd a n ≤ u64Max := Nat.min_le_right _ _
    rw [List.foldl_cons, ih hstep, saturatingAdd, List.sum_cons]
    omega

/-- While the runtime lives, no counter that is read goes down: the sum of the outcomes neither. -/
theorem EdgeMetricsBundle.Grows.read {before now : EdgeMetricsBundle} (h : before.Grows now)
    (c : Counter) : (EdgeCounters.read before).get c ≤ (EdgeCounters.read now).get c := by
  cases c with
  | completed => exact h.outcomes .completed
  | timedOut => exact h.outcomes .timedOut
  | refused => exact h.outcomes .refused
  | error => exact h.outcomes .error
  | roundsTotal =>
    have htotal := Tally.total_le before.nodup now.nodup h.outcomes
    show List.foldl _ 0 _ ≤ List.foldl _ 0 _
    rw [foldl_saturatingAdd _ (Nat.zero_le _), foldl_saturatingAdd _ (Nat.zero_le _)]
    rw [Tally.total, Tally.total] at htotal
    omega
  | backpressureDrops => exact h.drops

theorem reset_eq_false_iff : reset now previous = false ↔ ∀ c, previous.get c ≤ now.get c := by
  simp only [reset, Bool.or_eq_false_iff, decide_eq_false_iff_not, Nat.not_lt]
  constructor
  · rintro ⟨⟨⟨⟨⟨htotal, hdrops⟩, hcompleted⟩, htimedOut⟩, hrefused⟩, herror⟩ c
    cases c <;> assumption
  · intro h
    exact ⟨⟨⟨⟨⟨h .roundsTotal, h .backpressureDrops⟩, h .completed⟩, h .timedOut⟩, h .refused⟩,
      h .error⟩

theorem window_zero (n : Nat) : window n 0 = n := if_neg (Nat.not_lt_zero n)

theorem window_of_le {n k : Nat} (h : k ≤ n) : window n k = n - k := if_neg (Nat.not_lt.mpr h)

/-- A window is measured from zero after a restart that shows, and from the last call otherwise. -/
theorem windows_get (now previous : EdgeCounters) (c : Counter) :
    (windows now previous).get c =
      if reset now previous then now.get c else now.get c - previous.get c := by
  have hget : (windows now previous).get c = window (now.get c) ((baseline now previous).get c) := by
    cases c <;> rfl
  rw [hget, baseline]
  cases hreset : reset now previous with
  | true =>
    have hzero : EdgeCounters.zero.get c = 0 := by cases c <;> rfl
    rw [if_pos rfl, if_pos rfl, hzero, window_zero]
  | false =>
    rw [if_neg Bool.false_ne_true, if_neg Bool.false_ne_true,
      window_of_le (reset_eq_false_iff.mp hreset c)]

theorem handed_get {consentPeers : Option Nat} {c : Counter} (h : Counted consentPeers c)
    (w : EdgeCounters) : (w.handed consentPeers).get c = some (w.get c) := by
  rcases h with rfl | hpeers
  · rfl
  · cases c <;> simp only [Handed.get, EdgeCounters.handed, if_neg hpeers] <;> rfl

/-! ## One call -/

theorem Monitor.step_last (m : Monitor) (x : Sample) :
    (m.step p x).last = some (.read x.bundle) := by
  rw [Monitor.step, reportEdgeMetricsWithTopology]
  cases m.last <;> rfl

theorem Monitor.step_judged {h : Handed} (hhanded : m.handedAt x = some h) :
    (m.step p x).registry = h.judge p m.registry := by
  obtain ⟨previous, hlast, rfl⟩ := Option.map_eq_some_iff.mp hhanded
  rw [Monitor.step, reportEdgeMetricsWithTopology, hlast]

/-- Unless the runtime restarted, no counter is below its last value. -/
def Grown (m : Monitor) (x : Sample) : Prop :=
  x.restarted = false → ∀ previous, m.last = some previous →
    ∀ c, previous.get c ≤ (EdgeCounters.read x.bundle).get c

/-- While the runtime lives, a call hands on what was gained. -/
theorem Grown.exact (hgrown : Grown m x) (hlives : x.restarted = false) : Exact m x := by
  intro previous h hlast hhanded c hc
  rw [Monitor.handedAt, hlast] at hhanded
  cases hhanded
  have hreset := reset_eq_false_iff.mpr (hgrown hlives previous hlast)
  rw [handed_get hc, windows_get, hreset, gained, hlives]

/-- **Exactness of a call.** The windows are right unless a restart does not show. -/
theorem exact_iff_shows (hgrown : Grown m x) : Exact m x ↔ Shows m x := by
  cases hrestarted : x.restarted with
  | false =>
    refine iff_of_true (hgrown.exact hrestarted) fun h => ?_
    rw [hrestarted] at h
    cases h
  | true =>
    constructor
    · intro hexact _ previous hlast
      cases hreset : reset (.read x.bundle) previous with
      | true => exact Or.inl rfl
      | false =>
        refine Or.inr fun c hc => ?_
        have hwindow := hexact previous _ hlast (by rw [Monitor.handedAt, hlast, Option.map_some]) c hc
        have hle := reset_eq_false_iff.mp hreset c
        rw [handed_get hc, windows_get, hreset, gained, hrestarted] at hwindow
        have heq := Option.some.inj hwindow
        simp only [Bool.false_eq_true, if_false, if_true] at heq
        omega
    · intro hshows previous h hlast hhanded c hc
      rw [Monitor.handedAt, hlast] at hhanded
      cases hhanded
      rw [handed_get hc, windows_get, gained, hrestarted, if_pos rfl]
      rcases hshows hrestarted previous hlast with hreset | hzero
      · rw [hreset, if_pos rfl]
      · rw [hzero c hc, Nat.sub_zero, ite_self]

/-! ## Runs -/

/-- The counters grow all along the run of a runtime that lives. -/
theorem Monotone.grown (h : Monotone (x :: samples)) (hlast : m.last = some (.read x.bundle)) :
    Run.Guarded (Monitor.step p) Grown m samples := by
  induction samples generalizing m x with
  | nil => trivial
  | cons y samples ih =>
    obtain ⟨hgrows, hrest⟩ := List.isChain_cons_cons.mp h
    refine ⟨fun hlives previous hprevious c => ?_, ih hrest (Monitor.step_last m y)⟩
    rw [hlast] at hprevious
    cases hprevious
    exact (hgrows hlives).read c

theorem Monotone.grown_first (h : Monotone samples) (hlast : m.last = none) :
    Run.Guarded (Monitor.step p) Grown m samples := by
  cases samples with
  | nil => trivial
  | cons x samples =>
    refine ⟨fun _ previous hprevious => ?_, h.grown (Monitor.step_last m x)⟩
    rw [hlast] at hprevious
    cases hprevious

/-- **Run.** While the runtime lives, the windows of a counter sum to its growth. -/
theorem Monitor.windows_sum {stretch : List Sample} (hlast : m.last = some previous)
    (hgrown : Run.Guarded (Monitor.step p) Grown m stretch)
    (hlives : ∀ x ∈ stretch, x.restarted = false) :
    ∃ last, (Run.after (Monitor.step p) m stretch).last = some last ∧
      ∀ c, (∀ x ∈ stretch, Counted x.consentPeers c) →
        previous.get c + windowsOf p m stretch c = last.get c := by
  induction stretch generalizing m previous with
  | nil => exact ⟨previous, hlast, fun c _ => rfl⟩
  | cons x stretch ih =>
    obtain ⟨hx, hrest⟩ := List.forall_mem_cons.mp hlives
    obtain ⟨last, hafter, hsum⟩ := ih (m.step_last x) hgrown.2 hrest
    refine ⟨last, hafter, fun c hcounted => ?_⟩
    obtain ⟨hc, hcs⟩ := List.forall_mem_cons.mp hcounted
    have hhanded : m.handedAt x =
        some ((windows (.read x.bundle) previous).handed x.consentPeers) := by
      rw [Monitor.handedAt, hlast, Option.map_some]
    have hwindow := hgrown.1.exact hx previous _ hlast hhanded c hc
    have hle := hgrown.1 hx previous hlast c
    have hsum := hsum c hcs
    rw [gained, hx] at hwindow
    rw [windowsOf] at hsum ⊢
    rw [handedOver, hhanded, Option.toList_some, List.singleton_append,
      List.filterMap_cons_some (f := fun h : Handed => h.get c) hwindow, List.sum_cons]
    simp only [Bool.false_eq_true, if_false]
    omega

end

/-! ## Two restarts -/

/-- A bundle that has counted rounds that completed and rounds that timed out. -/
def rounds (completed timedOut : Nat) : EdgeMetricsBundle where
  replicationRoundOutcomesTotal := [(.completed, completed), (.timedOut, timedOut)]
  nodup := by
    show [RoundOutcome.completed, RoundOutcome.timedOut].Nodup
    decide
  replicationInboundBackpressureDrops := 0

/-- Exact percentages. -/
def exactly : Percent where
  atLeast failed total threshold := threshold * total ≤ 100 * failed
  shown failed total := toString (100 * failed / total)

/-- The restart of the runtime after the first sample shows in the timeouts. -/
def shownRestart : List Sample :=
  [⟨rounds 1 1, false, none⟩, ⟨rounds 5 0, true, none⟩, ⟨rounds 6 2, false, none⟩]

/-- After the restart every counter overtakes its old count. -/
def hiddenRestart : List Sample := [⟨rounds 1 3, false, none⟩, ⟨rounds 4 5, true, none⟩]

theorem grows_rounds {c t c' t' : Nat} (hc : c ≤ c') (ht : t ≤ t') :
    (rounds c t).Grows (rounds c' t') := by
  refine ⟨fun o => ?_, Nat.le_refl 0⟩
  simp only [rounds, Tally.count_cons]
  split_ifs
  · exact hc
  · exact ht
  · exact Nat.le_refl _

end CirisServer.EdgeMetrics
