import CirisServer.ForStd.Outputs
import CirisServer.Native.TracePlaneWatch
import CirisServer.Spec.IngestRefusals
import Mathlib.Data.List.Chain

/-!
# What the log says of the trace plane

The watch's memory is its last line: the reading that was said, and when. So a reading that is not
said is one that the last line states already, and the log always ends with the present reading.

## Key results

- `observe_spec`: what one reading does to the log
- `lines_spec`: over every run, the last line states the last reading, and no two lines next to each
  other say the same thing within six hours
- `last_line_states`: while the clock does not go back, the last line names the standing of what was
  truly refused in the last hour
-/

namespace CirisServer.TracePlaneWatch

open Run
open IngestRefusals (window refusalEventCap)

variable (worse : StateBand → StateBand → StateBand)

/-! ## One reading -/

/-- The watch remembers the last line. -/
structure Recalls (w : Watch) (line : Option Line) : Prop where
  last : w.last = line.map (·.reading)
  emittedAt : w.lastEmittedAt = line.map (·.at')

/-- A line after another says that something changed, or that something still stands. -/
def Follows (a b : Line) : Prop :=
  b.why = .changed ∧ a.reading ≠ b.reading ∨
    b.why = .restated ∧ a.reading = b.reading ∧ b.reading.band worse ≠ .green ∧
      a.at' + restateAfter ≤ b.at'

/-- The line states the reading of an instant, and not long ago if anything is wrong. -/
structure States (line : Line) (reading : Reading) (now : Int) : Prop where
  same : line.reading = reading
  recent : reading.band worse = .green ∨ now < line.at' + restateAfter

variable {worse} {w : Watch} {last : Option Line}

/-- **One reading.** It is said, and then follows the last line, or the last line states it. -/
theorem observe_spec (worse : StateBand → StateBand → StateBand) (h : Recalls w last)
    (reading : Reading) (corpus : Except String TraceCorpus) (now : Int) :
    match (w.observe worse reading now).2 with
    | some emit =>
      Recalls (w.observe worse reading now).1 (some (say worse reading emit corpus now)) ∧
        ∀ line, last = some line → Follows worse line (say worse reading emit corpus now)
    | none =>
      Recalls (w.observe worse reading now).1 last ∧
        ∃ line, last = some line ∧ States worse line reading now := by
  have hlast := h.last
  have hat := h.emittedAt
  cases last with
  | none =>
    simp only [Watch.observe, hlast, Option.map_none]
    exact ⟨⟨rfl, rfl⟩, fun line hline => by cases hline⟩
  | some line =>
    simp only [Option.map_some] at hlast hat
    by_cases hsame : line.reading = reading
    · by_cases hgreen : reading.band worse = .green
      · simp only [Watch.observe, hlast, hsame, hgreen, ne_eq, not_true_eq_false, if_false, if_true]
        exact ⟨⟨by simp [hsame], hat⟩, line, rfl, hsame, Or.inl hgreen⟩
      · by_cases hdue : now - line.at' ≥ restateAfter
        · simp only [Watch.observe, hlast, hsame, hgreen, hat, hdue, ne_eq, not_true_eq_false,
            if_false, if_true, Option.all_some, decide_true]
          refine ⟨⟨rfl, rfl⟩, fun line' hline' => Or.inr ⟨rfl, ?_, hgreen, ?_⟩⟩
          · cases hline'
            exact hsame
          · cases hline'
            show line.at' + restateAfter ≤ now
            omega
        · simp only [Watch.observe, hlast, hsame, hgreen, hat, hdue, ne_eq, not_true_eq_false,
            if_false, Option.all_some, decide_false, Bool.false_eq_true]
          exact ⟨⟨by simp [hsame], rfl⟩, line, rfl, hsame, Or.inr (by omega)⟩
    · simp only [Watch.observe, hlast, ne_eq, hsame, not_false_eq_true, if_true]
      refine ⟨⟨rfl, rfl⟩, fun line' hline' => Or.inl ⟨rfl, ?_⟩⟩
      cases hline'
      exact hsame

/-! ## Runs -/

variable (worse) (cr : IngestRefusals.Crates)

/-- The log of a process. -/
def log (n : Node) (es : List Event) : List Line := outputs (step worse cr) (lines worse) n es

/-- What a step is to the ledger. -/
def ledgerEvent : Event → IngestRefusals.Event
  | .ledger e => e
  | .tick _ now => .read now

/-- What the watch reads at a tick. -/
def readingOf (n : Node) (corpus : Except String TraceCorpus) (now : Int) : Reading :=
  Reading.of corpus (some (n.refusals.snapshotAt now).2) now

variable {worse cr}

theorem step_ledger (n : Node) (e : Event) :
    (step worse cr n e).refusals = n.refusals.step cr (ledgerEvent e) := by
  cases e with
  | ledger e => rfl
  | tick corpus now => rfl

/-- The watch reads the ledger like any reader. -/
theorem after_ledger (n : Node) (es : List Event) :
    (after (step worse cr) n es).refusals =
      after (IngestRefusals.step cr) n.refusals (es.map ledgerEvent) := by
  induction es generalizing n with
  | nil => rfl
  | cons e es ih => rw [after_cons, ih, step_ledger, List.map_cons, after_cons]

theorem log_concat (n : Node) (es : List Event) (e : Event) :
    log worse cr n (es ++ [e]) =
      log worse cr n es ++ lines worse (after (step worse cr) n es) e := by
  unfold log
  rw [outputs_append, outputs_cons, outputs_nil, List.append_nil]

/-- A tick is one reading. -/
theorem tick_spec (worse : StateBand → StateBand → StateBand) (cr : IngestRefusals.Crates)
    (n : Node) (corpus : Except String TraceCorpus) (now : Int) :
    lines worse n (.tick corpus now) =
        (((n.watch.observe worse (readingOf n corpus now) now).2).map fun emit =>
          say worse (readingOf n corpus now) emit corpus now).toList ∧
      (step worse cr n (.tick corpus now)).watch =
        (n.watch.observe worse (readingOf n corpus now) now).1 :=
  ⟨rfl, rfl⟩

/-- A line joins a log whose last line it follows. -/
theorem isChain_concat {ls : List Line} {line : Line} (h : ls.IsChain (Follows worse))
    (hlast : ∀ a, ls.getLast? = some a → Follows worse a line) :
    (ls ++ [line]).IsChain (Follows worse) :=
  List.IsChain.append h (List.isChain_singleton line) fun a ha b hb => by
    cases hb
    exact hlast a ha

/-- The log after a run, and what the watch remembers of it. -/
theorem log_after (worse : StateBand → StateBand → StateBand) (cr : IngestRefusals.Crates)
    (start : IngestRefusals) (es : List Event) :
    (log worse cr { refusals := start } es).IsChain (Follows worse) ∧
      Recalls (after (step worse cr) { refusals := start } es).watch
        (log worse cr { refusals := start } es).getLast? := by
  induction es using List.reverseRecOn with
  | nil => exact ⟨List.isChain_nil, rfl, rfl⟩
  | append_singleton es e ih =>
    rw [log_concat, after_concat]
    generalize after (step worse cr) { refusals := start } es = n at ih
    generalize log worse cr { refusals := start } es = ls at ih
    cases e with
    | ledger e =>
      rw [show lines worse n (.ledger e) = [] from rfl, List.append_nil]
      exact ih
    | tick corpus now =>
      have hspec := observe_spec worse ih.2 (readingOf n corpus now) corpus now
      have htick := tick_spec worse cr n corpus now
      rw [htick.1, htick.2]
      cases hemit : (n.watch.observe worse (readingOf n corpus now) now).2 with
      | some emit =>
        rw [hemit] at hspec
        refine ⟨isChain_concat ih.1 hspec.2, ?_⟩
        simpa using hspec.1
      | none =>
        rw [hemit] at hspec
        simpa using ⟨ih.1, hspec.1⟩

/-- **The log.** Over every run, lines next to each other announce a change or restate what is
    wrong after six hours; and after a tick the last line states what was read. -/
theorem lines_spec (start : IngestRefusals) (es : List Event) (corpus : Except String TraceCorpus)
    (now : Int) :
    (log worse cr { refusals := start } es).IsChain (Follows worse) ∧
      ∃ line, (log worse cr { refusals := start } (es ++ [.tick corpus now])).getLast? = some line ∧
        States worse line
          (readingOf (after (step worse cr) { refusals := start } es) corpus now) now := by
  have hlog := log_after worse cr start es
  refine ⟨hlog.1, ?_⟩
  rw [log_concat]
  generalize after (step worse cr) { refusals := start } es = n at hlog
  generalize log worse cr { refusals := start } es = ls at hlog
  have hspec := observe_spec worse hlog.2 (readingOf n corpus now) corpus now
  rw [(tick_spec worse cr n corpus now).1]
  cases hemit : (n.watch.observe worse (readingOf n corpus now) now).2 with
  | some emit =>
    refine ⟨say worse (readingOf n corpus now) emit corpus now, by simp, rfl, Or.inr ?_⟩
    show now < now + restateAfter
    have hpos : 0 < restateAfter := by decide
    omega
  | none =>
    rw [hemit] at hspec
    simpa using hspec.2

/-! ## The standing of what was posted -/

/-- What `all` that was refused, and the number of batches `accepted`, come to at an instant. -/
def standingOf (accepted : Nat) (all : List IngestRefusals.Refusal) (now : Int) : IngestStanding :=
  let recent := all.filter fun x => now - window ≤ x.at'
  let signers := (recent.filterMap (·.signer)).dedup
  if recent = [] then if accepted = 0 ∧ all = [] then .notExercised else .clean
  else if signers = [] then .unattributed
  else if ingestSustainedMin ≤ recent.countP (·.signer.isSome) ∧
      signers.length ≤ ingestStableSignerMax then .stuckProducer
  else .background

theorem min_u64Max_eq_zero (n : Nat) : min n IngestRefusals.u64Max = 0 ↔ n = 0 := by
  have hpos : 0 < IngestRefusals.u64Max := by decide
  generalize IngestRefusals.u64Max = limit at hpos
  omega

/-- A reading that is not truncated has the standing of what was posted. -/
theorem ingestStanding_of_reads {b : IngestRefusals.IngestRefusalBundle}
    {all gone held : List IngestRefusals.Refusal} {now : Int} {accepted : Nat}
    (h : IngestRefusals.Reads 0 now b all gone held) (hfit : b.windowTruncated = false)
    (hrefused : b.refusedTotal = min all.length IngestRefusals.u64Max)
    (haccepted : b.acceptedTotal = min accepted IngestRefusals.u64Max) :
    ingestStanding (some b) = standingOf accepted all now := by
  have hrecent : all.filter (fun x => now - window ≤ x.at') = held := by
    have hgone : gone.filter (fun x => now - window ≤ x.at') = [] := by
      rw [List.filter_eq_nil_iff]
      intro x hx hle
      have hlt := h.complete hfit x hx
      simp only [decide_eq_true_eq] at hle
      omega
    have hheld : held.filter (fun x => now - window ≤ x.at') = held := by
      rw [List.filter_eq_self]
      intro x hx
      have hle := h.recent x hx
      simp only [decide_eq_true_eq]
      omega
    rw [h.split, List.filter_append, hgone, hheld, List.nil_append]
  have hcounts := h.counts
  -- who names a signer, by what is left when those that do not are taken away
  have hattributed : held.length - b.unattributedInWindow = held.countP (·.signer.isSome) := by
    have hsum := List.length_eq_countP_add_countP
      (fun x : IngestRefusals.Refusal => x.signer.isNone) (l := held)
    have hsome : held.countP (fun x => decide (¬ x.signer.isNone = true)) =
        held.countP (·.signer.isSome) := by
      apply List.countP_congr
      intro x _
      cases x.signer <;> simp
    rw [hcounts.unattributed]
    omega
  unfold ingestStanding standingOf
  simp only [hrecent, hcounts.readable, hattributed, hcounts.inWindow, hcounts.distinct, hrefused,
    haccepted, min_u64Max_eq_zero, List.length_eq_zero_iff, Bool.not_true, Bool.false_eq_true,
    if_false, Bool.and_eq_true, decide_eq_true_eq, ge_iff_le]

/-- What the watch's process was posted. -/
def history (cr : IngestRefusals.Crates) (es : List Event) : List IngestRefusals.Refusal :=
  (es.map ledgerEvent).filterMap (IngestRefusals.refused cr)

def acceptedCount (cr : IngestRefusals.Crates) (es : List Event) : Nat :=
  (es.map ledgerEvent).countP (IngestRefusals.accepted cr)

/-- **What an operator reads.** While the instants do not go back and no more is refused in two
    hours than the ledger holds, the last line of the log after a tick names the standing of what
    was posted, and is six hours old at most unless all is well. -/
theorem last_line_states (start now : Int) (es : List Event) (corpus : Except String TraceCorpus)
    (hlock : IngestRefusals.Event.poison ∉ es.map ledgerEvent)
    (hclock : IngestRefusals.Steady cr 0 (es.map ledgerEvent ++ [.read now]))
    (hfit : (history cr es).countP (now - 2 * window ≤ ·.at') ≤ refusalEventCap) :
    ∃ line, (log worse cr { refusals := .startedAt start } (es ++ [.tick corpus now])).getLast? =
        some line ∧
      States worse line
        ⟨tracePlaneStanding corpus now, standingOf (acceptedCount cr es) (history cr es) now⟩
        now := by
  obtain ⟨line, hlast, hstates⟩ :=
    (lines_spec (.startedAt start) es corpus now).2
  refine ⟨line, hlast, ?_⟩
  obtain ⟨gone, held, hreads, hrefused, haccepted⟩ :=
    @IngestRefusals.snapshot_spec cr 0 start _ (Int.le_refl 0) hlock now hclock
  have hflag : ((after (IngestRefusals.step cr) (.startedAt start)
      (es.map ledgerEvent)).snapshotAt now).2.windowTruncated = false := by
    by_contra hflag
    have hmany := hreads.truncated (by simpa using hflag)
    have hsame : (history cr es).countP (fun x => decide (now - 2 * window - 0 ≤ x.at')) =
        (history cr es).countP (now - 2 * window ≤ ·.at') := by rw [Int.sub_zero]
    unfold history at hsame hfit
    omega
  have hstanding := ingestStanding_of_reads hreads hflag hrefused haccepted
  unfold readingOf Reading.of at hstates
  rw [after_ledger, hstanding] at hstates
  exact hstates

/-- A producer signs with an unknown key for an hour, and nothing is admitted for two days. -/
theorem last_line_states_stuck :
    ∃ line, (log (fun _ b => b) ⟨fun _ => none, fun _ => "verify_unknown_key"⟩
        { refusals := .startedAt 0 }
        (List.replicate 60 (.ledger (.post ⟨[], false,
          .error (.verify (.unknownKey "agent-55fe8d181727")), 47 * hour⟩)) ++
          [.tick (.ok ⟨some 0, 1⟩) (48 * hour)])).getLast? = some line ∧
      States (fun _ b => b) line ⟨.dark, .stuckProducer⟩ (48 * hour) :=
  last_line_states 0 (48 * hour) _ (.ok ⟨some 0, 1⟩)
    (by
      intro h
      simp [ledgerEvent] at h)
    (by
      unfold IngestRefusals.Steady
      decide)
    (by decide)

end CirisServer.TracePlaneWatch
