import CirisServer.Native.SessionGrant
import CirisServer.Spec.SessionHandover

/-!
# What the surface reports of a lease

The surface reports a lease as live until one TTL from its `claimed_at`. A renewal keeps the
`claimed_at` and moves the lease's own end, so a session that was renewed is listed with an instant
that is past. The result holds for runs in which a device writes a lease only where none of its own
for the exchange runs, under the date of the write.

Key results:
- `mem_sessionLines`: what is listed
- `unrenewed_step`: of the leases of one device for one exchange, the one that runs ends last
- `surface_reports_live`: every run
-/

namespace CirisServer.SessionClaims

open Interleave Run

variable {ι : Type} [LinearOrder ι] {L : Fold ι} {f : Fleet ι} {i j : ι}

/-! ## What is listed -/

/-- A line is that of the handler that the view names for its exchange. -/
theorem mem_sessionLines {reads : SurfaceReads ι} {view : List (ClaimRow ι)} {now : Int}
    {keys : List ExchangeKey} {lines : List (SessionLine ι)} {line : SessionLine ι}
    (h : sessionLines L reads i view now keys = .ok lines) (hline : line ∈ lines) :
    ∃ key claim, L.handlerFor view key now = some claim ∧
      line = sessionLine reads i key claim := by
  induction keys generalizing lines with
  | nil =>
    cases h
    cases hline
  | cons key keys ih =>
    simp only [sessionLines] at h
    cases hfails : reads.foldFails key with
    | some e =>
      rw [hfails] at h
      cases h
    | none =>
      rw [hfails] at h
      cases hrest : sessionLines L reads i view now keys with
      | error e =>
        rw [hrest] at h
        cases h
      | ok rest =>
        rw [hrest] at h
        cases hread : L.handlerFor view key now with
        | none =>
          simp only [hread, bind, Except.bind, Except.ok.injEq] at h
          exact ih hrest (h ▸ hline)
        | some claim =>
          simp only [hread, bind, Except.bind, Except.ok.injEq] at h
          rw [← h] at hline
          rcases List.mem_cons.mp hline with rfl | hline
          · exact ⟨key, claim, hread, rfl⟩
          · exact ih hrest hline

theorem lines_of_sessionsView {reads : SurfaceReads ι} {owner : String} {view : SessionsView ι}
    (h : sessionsView L reads owner i f = .ok view) :
    sessionLines L reads i (f.view i) f.clock (claimedExchanges (f.view i)) =
      .ok view.sessions := by
  simp only [sessionsView] at h
  cases hfails : reads.exchangesFail with
  | some e =>
    rw [hfails] at h
    cases h
  | none =>
    rw [hfails] at h
    cases hlines : sessionLines L reads i (f.view i) f.clock (claimedExchanges (f.view i)) with
    | error e =>
      rw [hlines] at h
      cases h
    | ok lines =>
      rw [hlines] at h
      cases h
      rfl

/-! ## The property -/

/-- What is listed is live, and until the end of the newest lease that its handler wrote. -/
def ReportsLive (f : Fleet ι) (sessions : List (SessionLine ι)) : Prop :=
  ∀ line ∈ sessions, f.clock < line.liveUntil ∧
    ∀ i, ∀ r ∈ f.view i, r.key = line.key → r.claim.occurrenceKeyId = line.handler →
      r.validUntil ≤ line.liveUntil

/-- A device writes a lease where none of its own for the exchange runs, and dates it then. -/
def WritesFresh (c : Config (Fleet ι) (Task ι)) : Move (Happening ι) Env → Prop
  | .arrive _ => True
  | .advance k env => ∀ p ∈ running c k, env.writeFails = false → ∀ due ∈ p.2.due,
    canonicalInstant (leaseFor due.original due.now).1 = canonicalInstant due.now ∧
      ∀ r ∈ leases p.1 due.key c.shared, r.validUntil ≤ c.shared.clock

/-! ## Leases that are not renewed -/

/-- A lease ends one TTL after its date. -/
def ClaimRow.Dated (r : ClaimRow ι) : Prop :=
  r.validUntil = canonicalInstant (r.claim.claimedAt + ttl)

/-- Each lease ends one TTL after its date, and of the leases of one device for one exchange the
    one that runs ends last. -/
structure Unrenewed (f : Fleet ι) : Prop where
  dated : ∀ i, ∀ r ∈ f.view i, r.Dated
  last : ∀ i j, ∀ r ∈ f.view i, ∀ s ∈ f.view j, s.key = r.key →
    s.claim.occurrenceKeyId = r.claim.occurrenceKeyId → f.clock < r.validUntil →
      s.validUntil ≤ r.validUntil

omit [LinearOrder ι] in
theorem Due.row_dated {due : Due}
    (h : canonicalInstant (leaseFor due.original due.now).1 = canonicalInstant due.now) :
    (due.row i).Dated := by
  unfold ClaimRow.Dated
  rw [validUntil_row]
  show _ = canonicalInstant (canonicalInstant (leaseFor due.original due.now).1 + ttl)
  rw [h]
  simp only [canonicalInstant, ttl]
  omega

/-- Rows that arrive, and time that goes by. -/
theorem Unrenewed.spawn (h : Unrenewed f) (hap : Happening ι) : Unrenewed (hap.spawn f).1 where
  dated i r hr := by
    obtain ⟨source, hold⟩ := mem_view_spawn hr
    exact h.dated source r hold
  last i j r hr s hs hkey hholder hlive := by
    obtain ⟨source, hr⟩ := mem_view_spawn hr
    obtain ⟨source', hs⟩ := mem_view_spawn hs
    exact h.last source source' r hr s hs hkey hholder ((clock_le_spawn hap).trans_lt hlive)

/-- A lease that is written where none of the device's own runs. -/
theorem Unrenewed.advance {env : Env} {phase : Phase ι} (hself : SelfReported f) (h : Unrenewed f)
    (hfresh : env.writeFails = false → ∀ due ∈ phase.due,
      canonicalInstant (leaseFor due.original due.now).1 = canonicalInstant due.now ∧
        ∀ r ∈ leases i due.key f, r.validUntil ≤ f.clock) :
    Unrenewed (phase.advance L env i f).1 where
  dated j r hr := by
    rcases mem_view_advance hr with hold | ⟨-, due, hdue, hfails, rfl⟩
    · exact h.dated j r hold
    · exact Due.row_dated (hfresh hfails due hdue).1
  last j j' r hr s hs hkey hholder hlive := by
    rw [clock_advance] at hlive
    rcases mem_view_advance hr with hr | ⟨-, due, hdue, hfails, rfl⟩
    · rcases mem_view_advance hs with hs | ⟨-, due, hdue, hfails, rfl⟩
      · exact h.last j j' r hr s hs hkey hholder hlive
      · -- the row that runs is the device's own, so it does not run
        have hmine : r.claim.occurrenceKeyId = i := hholder.symm
        have hown : r ∈ leases i due.key f :=
          mem_leases.mpr ⟨hmine ▸ hself j r hr, hkey.symm, hmine⟩
        exact absurd hlive (not_lt_of_ge ((hfresh hfails due hdue).2 r hown))
    · rcases mem_view_advance hs with hs | ⟨-, due', hdue', -, rfl⟩
      · have hmine : s.claim.occurrenceKeyId = i := hholder
        have hown : s ∈ leases i due.key f := mem_leases.mpr ⟨hmine ▸ hself j' s hs, hkey, hmine⟩
        exact ((hfresh hfails due hdue).2 s hown).trans hlive.le
      · obtain rfl : due = due' := Option.some.inj (hdue.symm.trans hdue')
        exact le_refl _

/-- **Step.** -/
theorem unrenewed_step {c : Config (Fleet ι) (Task ι)} {m : Move (Happening ι) Env}
    {key : ExchangeKey} (hself : Holds SelfReported (Past key) c)
    (h : Holds Unrenewed (fun _ _ _ => True) c) (hm : WritesFresh c m) :
    Holds Unrenewed (fun _ _ _ => True) ((fleetSystem L).step c m) := by
  apply h.step
  · intro hap _
    exact ⟨h.shared.spawn hap, fun _ _ _ _ => trivial⟩
  · exact fun _ _ _ => trivial
  · exact fun _ _ => trivial
  · rintro k env i phase rfl ht -
    refine ⟨h.shared.advance hself.shared fun hfails due hdue => ?_, trivial,
      fun _ _ _ _ => trivial⟩
    exact hm _ (running_of_getElem? ht) hfails due hdue

/-- What runs ends when the surface says. -/
theorem reportsLive_of_unrenewed {reads : SurfaceReads ι} {owner : String} {view : SessionsView ι}
    (h : Unrenewed f) (hview : sessionsView L reads owner i f = .ok view) :
    ReportsLive f view.sessions := by
  intro line hline
  obtain ⟨key, claim, hread, rfl⟩ := mem_sessionLines (lines_of_sessionsView hview) hline
  obtain ⟨row, hrow, rfl, hlive, rfl⟩ := L.names hread
  have hends : (sessionLine reads i row.key row.claim).liveUntil = row.validUntil :=
    (h.dated i row hrow).symm
  rw [hends]
  exact ⟨hlive, fun j r hr hkey hholder => h.last i j row hrow r hr hkey hholder hlive⟩

/-- **Run.** If leases are written where none of the device's own runs, and dated then, every
    session that a device lists is live, and until the end of the newest lease of its handler. -/
theorem surface_reports_live (L : Fold ι) (clock : Int) (moves : List (Move (Happening ι) Env))
    (hfresh : Guarded (fleetSystem L).step WritesFresh (start clock) moves) :
    let f := (after (fleetSystem L).step (start clock) moves).shared
    ∀ reads owner i view, sessionsView L reads owner i f = .ok view →
      ReportsLive f view.sessions := by
  intro f reads owner i view hview
  let key : ExchangeKey := ("", "")
  have hinv : Holds SelfReported (Past key) (after (fleetSystem L).step (start clock) moves) ∧
      Holds Unrenewed (fun _ _ _ => True) (after (fleetSystem L).step (start clock) moves) := by
    refine hfresh.invariant (I := fun c => Holds SelfReported (Past key) c ∧
      Holds Unrenewed (fun _ _ _ => True) c) (fun _ _ h hm =>
        ⟨selfReported_step h.1, unrenewed_step h.1 h.2 hm⟩) ?_
    exact ⟨holds_start fun _ _ hrow => (by cases hrow),
      holds_start ⟨fun _ _ hrow => (by cases hrow), fun _ _ _ hrow => (by cases hrow)⟩⟩
  exact reportsLive_of_unrenewed hinv.2.shared hview

/-! ### Two devices -/

/-- The device that claims. -/
def claimant : Fin 2 := ⟨0, Nat.zero_lt_two⟩

/-- The device whose surface is asked. -/
def onlooker : Fin 2 := ⟨1, Nat.one_lt_two⟩

/-- The claim of `claimed` is listed, or its lease is renewed first. -/
def listed (later : List (Move (Happening (Fin 2)) Env)) : Except String (SessionsView (Fin 2)) :=
  sessionsView leastFold {} "owner" onlooker
    (after (fleetSystem leastFold).step (start 0) (claimed ++ later)).shared

/-- Device 0 renews after a minute, the lease reaches device 1, and a minute and a second go by. -/
def renewedLater : List (Move (Happening (Fin 2)) Env) :=
  [.arrive (.elapse 60000000000), .arrive (.renewOnce claimant), .advance 4 {},
    .advance 4 {}, .advance 4 {}, .arrive (.replicate claimant onlooker (dmRow claimant 0 180)),
    .arrive (.elapse 61000000000)]

instance decidableWritesFresh (c : Config (Fleet ι) (Task ι)) : ∀ m, Decidable (WritesFresh c m)
  | .arrive _ => inferInstanceAs (Decidable True)
  | .advance k env => inferInstanceAs (Decidable (∀ p ∈ running c k, env.writeFails = false →
      ∀ due ∈ p.2.due,
        canonicalInstant (leaseFor due.original due.now).1 = canonicalInstant due.now ∧
          ∀ r ∈ leases p.1 due.key c.shared, r.validUntil ≤ c.shared.clock))

/-- What device 1 lists of a claim by device 0. -/
def dmLine (liveUntil : Int) : SessionLine (Fin 2) :=
  ⟨dm, claimant, none, 0, liveUntil, false, "session.state.handled_elsewhere",
    "Another of your devices is answering for you in this exchange."⟩

/-- The theorem half a minute after a claim. -/
theorem surface_reports_live_claimed :
    listed [.arrive (.elapse 30000000000)] =
        .ok ⟨"owner", 1, false, 120, [dmLine 120000000000]⟩ ∧
      ReportsLive (after (fleetSystem leastFold).step (start 0)
        (claimed ++ [.arrive (.elapse 30000000000)])).shared [dmLine 120000000000] := by
  have hlisted : listed [.arrive (.elapse 30000000000)] =
      .ok ⟨"owner", 1, false, 120, [dmLine 120000000000]⟩ := by decide
  exact ⟨hlisted, surface_reports_live leastFold 0 _ (by decide) {} "owner" 1 _ hlisted⟩

/-- Of a lease that was renewed, the surface reports an instant that is past. -/
theorem surface_reports_lapsed :
    listed renewedLater = .ok ⟨"owner", 1, false, 120, [dmLine 120000000000]⟩ ∧
      (after (fleetSystem leastFold).step (start 0) (claimed ++ renewedLater)).shared.clock =
        121000000000 ∧
      dmRow 0 0 180 ∈
        (after (fleetSystem leastFold).step (start 0) (claimed ++ renewedLater)).shared.view 0 ∧
      ¬ ReportsLive (after (fleetSystem leastFold).step (start 0)
        (claimed ++ renewedLater)).shared [dmLine 120000000000] := by
  refine ⟨by decide, by decide, by decide, fun hlive => ?_⟩
  have hlater := (hlive (dmLine 120000000000) List.mem_cons_self).1
  exact absurd hlater (by decide)

end CirisServer.SessionClaims
