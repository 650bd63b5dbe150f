import CirisServer.ForStd.Run
import CirisServer.Native.NodeControl

/-!
# A request to stop is answered

The broker sets the latch and then loads `SERVE_ACTIVE`; the serve stores `SERVE_ACTIVE` and then
loads the latch. Whoever comes second sees the other's store, so a SIGTERM is never left between
the two: once it is delivered, a process that does not end still has a step to take, and takes
eleven at most.

## Key results

- `Inv`: the cells say where the threads are, and a signal that was passed on to a serve has one
- `moves_rank`: every step but a new serve comes closer to the end
- `stopped_of_still`: a process in which nothing moves has answered
- `stop_answered`: over every interleaving, a SIGTERM or a request to stop ends the serve, and a
  SIGTERM the process
-/

namespace CirisServer.NodeControl

open Run

/-- A process with the broker installed and no serve. -/
def install (hostOwns : Bool) : Process := { hostOwns }

/-! ## The invariant -/

/-- What holds in every state a process reaches. -/
structure Inv (p : Process) : Prop where
  active : p.serveActive = true ↔ p.serve ≠ .idle ∧ p.serve ≠ .ended
  latch : p.terminated = true ↔ p.broker ≠ .reading ∧ p.broker ≠ .counted
  /-- A signal the handler has seen is in the socket, or with the broker. -/
  signalled : 0 < p.handlerHits → 0 < p.unread ∨ p.broker ≠ .reading
  /-- What the broker has left to a serve is not left without one. -/
  answered : p.exit = none → p.broker = .waiting → p.hostOwns = false → p.serve ≠ .idle

theorem inv_install (hostOwns : Bool) : Inv (install hostOwns) := by
  constructor
  case active => simp [install]
  case latch => simp [install]
  case signalled => intro h; simp [install] at h
  case answered => intro _ h; simp [install] at h

variable {p : Process}

@[simp] theorem propagateTerminate_serve : (propagateTerminate p).serve = p.serve := by
  unfold propagateTerminate
  split <;> rfl

@[simp] theorem propagateTerminate_broker : (propagateTerminate p).broker = p.broker := by
  unfold propagateTerminate
  split <;> rfl

@[simp] theorem propagateTerminate_hostOwns : (propagateTerminate p).hostOwns = p.hostOwns := by
  unfold propagateTerminate
  split <;> rfl

/-- A process that goes on after it was told to end has a host that owns the signal. -/
theorem hostOwns_of_propagateTerminate (h : (propagateTerminate p).exit = none) :
    p.hostOwns = true := by
  unfold propagateTerminate at h
  split at h
  next hhost => exact hhost
  next => cases h

/-- Ending a process changes nothing else. -/
theorem Inv.propagateTerminate (h : Inv p) : Inv (propagateTerminate p) := by
  unfold NodeControl.propagateTerminate
  split
  next => exact h
  next => exact ⟨h.active, h.latch, h.signalled, fun hexit => by cases hexit⟩

theorem Inv.handler (h : Inv p) (dropped : Bool) : Inv (handler p dropped) := by
  refine ⟨h.active, h.latch, fun _ => Or.inl ?_, h.answered⟩
  unfold NodeControl.handler
  dsimp only
  split
  next hfull => simp at hfull; exact hfull.2
  next => exact Nat.succ_pos _

theorem Inv.brokerStep (h : Inv p) : Inv (brokerStep p) := by
  unfold NodeControl.brokerStep
  cases hb : p.broker with
  | reading =>
    dsimp only
    split
    next => exact h
    next =>
      constructor
      case active => exact h.active
      case latch => have := h.latch; simp_all
      case signalled => simp
      case answered => simp
  | counted =>
    constructor
    case active => exact h.active
    case latch => simp
    case signalled => simp
    case answered => simp
  | latched =>
    have hlatch := h.latch
    rw [hb] at hlatch
    constructor
    case active => exact h.active
    case latch => dsimp only; split <;> simp_all
    case signalled => dsimp only; split <;> simp
    case answered =>
      -- the serve that is active is the one the signal is left to
      intro _ hwait _
      dsimp only at hwait ⊢
      split at hwait
      next hactive => exact (h.active.mp hactive).1
      next => cases hwait
  | propagating =>
    have hlatch := h.latch
    rw [hb] at hlatch
    have hprop := h.propagateTerminate
    constructor
    case active => exact hprop.active
    case latch =>
      have hterm := hprop.latch
      simp_all
    case signalled => simp
    case answered =>
      intro hexit _ hhost
      have howns := hostOwns_of_propagateTerminate hexit
      simp_all
  | waiting =>
    have hlatch := h.latch
    rw [hb] at hlatch
    dsimp only
    split
    next => exact h
    next => exact ⟨h.active, hlatch, fun _ => Or.inr (by simp), fun hexit => by cases hexit⟩

/-- A serve that was not idle may go anywhere else. -/
theorem Inv.move (h : Inv p) (target : Serve) (hactive : p.serveActive = true)
    (hidle : target ≠ .idle) (hended : target ≠ .ended) : Inv { p with serve := target } :=
  ⟨by simp [hactive, hidle, hended], h.latch, h.signalled, fun _ _ _ => hidle⟩

theorem Inv.serveStep (h : Inv p) (s : ServeStep) : Inv (serveStep p s) := by
  have hactive : p.serve ≠ .idle → p.serve ≠ .ended → p.serveActive = true := fun hi he =>
    h.active.mpr ⟨hi, he⟩
  cases s with
  | began =>
    unfold NodeControl.serveStep
    cases hs : p.serve with
    | idle => exact ⟨by simp, h.latch, h.signalled, by simp⟩
    | _ => exact h
  | bootFailed =>
    unfold NodeControl.serveStep
    cases hs : p.serve with
    | booting => exact h.move .returned (hactive (by simp [hs]) (by simp [hs])) (by simp) (by simp)
    | _ => exact h
  | bound addr =>
    unfold NodeControl.serveStep
    cases hs : p.serve with
    | booting =>
      have hmove := h.move .serving (hactive (by simp [hs]) (by simp [hs])) (by simp) (by simp)
      exact ⟨hmove.active, hmove.latch, hmove.signalled, hmove.answered⟩
    | _ => exact h
  | select arm =>
    unfold NodeControl.serveStep
    cases hs : p.serve with
    | serving =>
      dsimp only
      split
      next =>
        exact h.move _ (hactive (by simp [hs]) (by simp [hs])) (by simp) (by simp)
      next => exact h
    | _ => exact h
  | drained =>
    unfold NodeControl.serveStep
    cases hs : p.serve with
    | stopping bySigterm =>
      have hmove := h.move (.tornDown bySigterm) (hactive (by simp [hs]) (by simp [hs]))
        (by simp) (by simp)
      exact ⟨hmove.active, hmove.latch, hmove.signalled, hmove.answered⟩
    | _ => exact h
  | drainFailed =>
    unfold NodeControl.serveStep
    cases hs : p.serve with
    | stopping bySigterm =>
      exact h.move .returned (hactive (by simp [hs]) (by simp [hs])) (by simp) (by simp)
    | _ => exact h
  | finish =>
    unfold NodeControl.serveStep
    cases hs : p.serve with
    | tornDown bySigterm =>
      have hmove := h.move .returned (hactive (by simp [hs]) (by simp [hs])) (by simp) (by simp)
      dsimp only
      split
      next => exact hmove.propagateTerminate
      next => exact hmove
    | _ => exact h
  | guardDropped =>
    unfold NodeControl.serveStep
    cases hs : p.serve with
    | returned => exact ⟨by simp, h.latch, h.signalled, by simp⟩
    | _ => exact h
  | checked =>
    unfold NodeControl.serveStep
    cases hs : p.serve with
    | ended =>
      have hinactive : p.serveActive = false := by
        rw [← Bool.not_eq_true, h.active, hs]
        simp
      dsimp only
      split
      next hterm =>
        -- the latch is set: the process ends, or its host decides
        have hactive' : ({ p with serve := .idle } : Process).serveActive = true ↔
            Serve.idle ≠ .idle ∧ Serve.idle ≠ .ended := by simp [hinactive]
        unfold NodeControl.propagateTerminate
        split
        next hhost =>
          refine ⟨hactive', h.latch, h.signalled, fun _ _ hfalse => ?_⟩
          simp_all
        next => exact ⟨hactive', h.latch, h.signalled, fun hexit => by cases hexit⟩
      next hterm =>
        -- it is not, so the broker has not come to its load yet
        refine ⟨by simp [hinactive], h.latch, h.signalled, fun _ hwait _ => ?_⟩
        have hlatched := h.latch.mpr (by simp_all)
        exact absurd hlatched hterm
    | _ => exact h

/-- **Step lemma.** -/
theorem Inv.step (h : Inv p) (e : Event) : Inv (step p e) := by
  unfold NodeControl.step
  split
  next => exact h
  next =>
    cases e with
    | sigterm dropped => exact h.handler dropped
    | requestShutdown => exact ⟨h.active, h.latch, h.signalled, h.answered⟩
    | broker => exact h.brokerStep
    | serve s => exact h.serveStep s

/-! ## Going on without a new serve -/

/-- The steps of the broker, and of a serve that has begun. -/
def Internal (e : Event) : Prop := e = .broker ∨ ∃ s, e = .serve s ∧ s ≠ .began

/-- The steps the broker has before it. -/
def Broker.left : Broker → Nat
  | .reading => 4
  | .counted => 3
  | .latched => 2
  | .propagating => 1
  | .waiting => 0

/-- The steps a serve has before it, at most. -/
def Serve.left : Serve → Nat
  | .booting => 6
  | .serving => 5
  | .stopping _ => 4
  | .tornDown _ => 3
  | .returned => 2
  | .ended => 1
  | .idle => 0

/-- How far a process is from its end, at most. -/
def rank (p : Process) : Nat := p.broker.left + p.serve.left

theorem rank_le : rank p ≤ 10 := by
  have hbroker : p.broker.left ≤ 4 := by cases p.broker <;> decide
  have hserve : p.serve.left ≤ 6 := by cases p.serve <;> simp [Serve.left]
  unfold rank
  omega

theorem rank_propagateTerminate : rank (propagateTerminate p) = rank p := by
  simp only [rank, propagateTerminate_broker, propagateTerminate_serve]

/-- **Every step comes closer.** A step that changes anything ends the process or lowers its
    rank. -/
theorem moves_rank {e : Event} (hinternal : Internal e) (hmoves : step p e ≠ p) :
    (step p e).exit ≠ none ∨ rank (step p e) < rank p := by
  unfold step at hmoves ⊢
  split at hmoves
  next hexit => exact absurd rfl hmoves
  next hexit =>
    rw [if_neg hexit]
    cases hinternal with
    | inl hbroker =>
      subst hbroker
      unfold brokerStep at hmoves ⊢
      dsimp only at hmoves ⊢
      cases hb : p.broker with
      | reading =>
        by_cases hunread : p.unread = 0
        · simp [hb, hunread] at hmoves
        · right
          simp [rank, Broker.left, hb, hunread]
      | counted => right; simp [rank, Broker.left, hb]
      | latched => right; cases ha : p.serveActive <;> simp [rank, Broker.left, hb]
      | propagating => right; simp [rank, Broker.left, hb]
      | waiting =>
        by_cases hunread : p.unread = 0
        · simp [hb, hunread] at hmoves
        · left
          simp [hunread]
    | inr hserve =>
      obtain ⟨s, rfl, hbegan⟩ := hserve
      unfold serveStep at hmoves ⊢
      cases s with
      | began => exact absurd rfl hbegan
      | bootFailed => cases hs : p.serve <;> simp_all [rank, Serve.left]
      | bound addr => cases hs : p.serve <;> simp_all [rank, Serve.left]
      | select arm =>
        cases hs : p.serve <;> simp_all [rank, Serve.left]
      | drained => cases hs : p.serve <;> simp_all [rank, Serve.left]
      | drainFailed => cases hs : p.serve <;> simp_all [rank, Serve.left]
      | finish =>
        right
        cases hs : p.serve with
        | tornDown bySigterm =>
          dsimp only
          split
          next => rw [rank_propagateTerminate]; simp [rank, Serve.left, hs]
          next => simp [rank, Serve.left, hs]
        | _ => simp [hs] at hmoves
      | guardDropped => cases hs : p.serve <;> simp_all [rank, Serve.left]
      | checked =>
        right
        cases hs : p.serve with
        | ended =>
          dsimp only
          split
          next => rw [rank_propagateTerminate]; simp [rank, Serve.left, hs]
          next => simp [rank, Serve.left, hs]
        | _ => simp [hs] at hmoves

/-- Nothing moves any more. -/
def Still (p : Process) : Prop := ∀ e, Internal e → step p e = p

/-- The serve was asked to stop, when it was not still booting. -/
def Asked (p : Process) : Prop :=
  0 < p.handlerHits ∨ p.stopRequested = true ∧ p.serve ≠ .booting

/-- The process has ended, or its serve has; the latter only where its host owns SIGTERM, if that
    was the signal. -/
def Stopped (p : Process) : Prop :=
  p.exit ≠ none ∨ p.serve = .idle ∧ (0 < p.handlerHits → p.hostOwns = true)

/-- In a process that has not ended, what does not move is through. -/
theorem idle_of_still (h : Inv p) (hasked : Asked p) (hstill : Still p) (hexit : p.exit = none) :
    p.serve = .idle ∧ (0 < p.handlerHits → p.hostOwns = true) := by
  have hbroker := hstill .broker (Or.inl rfl)
  have hserve : ∀ s, s ≠ .began → serveStep p s = p := by
    intro s hs
    have hstep := hstill (.serve s) (Or.inr ⟨s, rfl, hs⟩)
    simpa [step, hexit] using hstep
  have hwait : 0 < p.handlerHits → p.broker = .waiting := by
    intro hhits
    have hsignalled := h.signalled hhits
    simp only [step, hexit, Option.isSome_none, Bool.false_eq_true, if_false, brokerStep] at hbroker
    cases hb : p.broker with
    | reading =>
      -- there is a byte to read
      have hunread : p.unread ≠ 0 := by
        rw [hb] at hsignalled
        simp at hsignalled
        omega
      rw [hb] at hbroker
      simp only [hunread, if_false] at hbroker
      have hcontra := congrArg Process.broker hbroker
      simp [hb] at hcontra
    | counted =>
      rw [hb] at hbroker
      have hcontra := congrArg Process.broker hbroker
      simp [hb] at hcontra
    | latched =>
      rw [hb] at hbroker
      have hcontra := congrArg Process.broker hbroker
      cases ha : p.serveActive <;> simp [hb, ha] at hcontra
    | propagating =>
      rw [hb] at hbroker
      have hcontra := congrArg Process.broker hbroker
      simp [hb] at hcontra
    | waiting => rfl
  have hidle : p.serve = .idle := by
    cases hs : p.serve with
    | idle => rfl
    | booting =>
      have hcontra := congrArg Process.serve (hserve .bootFailed (by simp))
      simp [serveStep, hs] at hcontra
    | serving =>
      -- one of the arms is ready
      cases hasked with
      | inl hhits =>
        have hterm : p.terminated = true := h.latch.mpr (by simp [hwait hhits])
        have hcontra := congrArg Process.serve (hserve (.select .terminated) (by simp))
        simp [serveStep, hs, Arm.ready, hterm] at hcontra
      | inr hreq =>
        have hcontra := congrArg Process.serve (hserve (.select .shutdownRequested) (by simp))
        simp [serveStep, hs, Arm.ready, hreq.1] at hcontra
    | stopping bySigterm =>
      have hcontra := congrArg Process.serve (hserve .drainFailed (by simp))
      simp [serveStep, hs] at hcontra
    | tornDown bySigterm =>
      have hcontra := congrArg Process.serve (hserve .finish (by simp))
      simp only [serveStep, hs] at hcontra
      split at hcontra <;> simp at hcontra
    | returned =>
      have hcontra := congrArg Process.serve (hserve .guardDropped (by simp))
      simp [serveStep, hs] at hcontra
    | ended =>
      have hcontra := congrArg Process.serve (hserve .checked (by simp))
      simp only [serveStep, hs] at hcontra
      split at hcontra <;> simp at hcontra
  refine ⟨hidle, fun hhits => ?_⟩
  cases hhost : p.hostOwns with
  | true => rfl
  | false => exact absurd hidle (h.answered hexit (hwait hhits) hhost)

/-- **A process in which nothing moves has answered.** -/
theorem stopped_of_still (h : Inv p) (hasked : Asked p) (hstill : Still p) : Stopped p := by
  cases hexit : p.exit with
  | none => exact Or.inr (idle_of_still h hasked hstill hexit)
  | some how => exact Or.inl (by simp [hexit])

theorem propagateTerminate_asked :
    (propagateTerminate p).handlerHits = p.handlerHits ∧
      (propagateTerminate p).stopRequested = p.stopRequested := by
  unfold propagateTerminate
  split <;> exact ⟨rfl, rfl⟩

/-- The handler's count is the handler's. -/
theorem handlerHits_step {e : Event} (hinternal : Internal e) :
    (step p e).handlerHits = p.handlerHits := by
  unfold step
  split
  next => rfl
  next =>
    cases hinternal with
    | inl hbroker =>
      subst hbroker
      unfold brokerStep
      dsimp only
      cases p.broker with
      | reading => dsimp only; split <;> rfl
      | counted => rfl
      | latched => rfl
      | propagating => exact propagateTerminate_asked.1
      | waiting => dsimp only; split <;> rfl
    | inr hserve =>
      obtain ⟨s, rfl, -⟩ := hserve
      unfold serveStep
      cases s with
      | select arm => cases p.serve <;> dsimp only <;> split <;> rfl
      | finish =>
        cases p.serve <;> dsimp only
        split
        · exact propagateTerminate_asked.1
        · rfl
      | checked =>
        cases p.serve <;> dsimp only
        split
        · exact propagateTerminate_asked.1
        · rfl
      | _ => cases p.serve <;> rfl

/-- Only a serve that is booting forgets a request, and no serve goes back to booting. -/
theorem stopRequested_step {e : Event} (hinternal : Internal e) (hreq : p.stopRequested = true)
    (hserve : p.serve ≠ .booting) :
    (step p e).stopRequested = true ∧ (step p e).serve ≠ .booting := by
  unfold step
  split
  next => exact ⟨hreq, hserve⟩
  next =>
    cases hinternal with
    | inl hbroker =>
      subst hbroker
      unfold brokerStep
      dsimp only
      cases p.broker with
      | reading => dsimp only; split <;> exact ⟨hreq, hserve⟩
      | counted => exact ⟨hreq, hserve⟩
      | latched => exact ⟨hreq, hserve⟩
      | propagating => exact ⟨propagateTerminate_asked.2.trans hreq, by simpa using hserve⟩
      | waiting => dsimp only; split <;> exact ⟨hreq, hserve⟩
    | inr hs =>
      obtain ⟨s, rfl, hbegan⟩ := hs
      unfold serveStep
      cases s with
      | began => exact absurd rfl hbegan
      | bound addr =>
        cases hs : p.serve with
        | booting => exact absurd hs hserve
        | _ => exact ⟨hreq, hserve⟩
      | select arm =>
        cases hs : p.serve with
        | serving =>
          dsimp only
          split
          · exact ⟨hreq, by simp⟩
          · exact ⟨hreq, hserve⟩
        | _ => exact ⟨hreq, hserve⟩
      | finish =>
        cases hs : p.serve with
        | tornDown bySigterm =>
          dsimp only
          split
          · exact ⟨propagateTerminate_asked.2.trans hreq, by simp⟩
          · exact ⟨hreq, by simp⟩
        | _ => exact ⟨hreq, hserve⟩
      | checked =>
        cases hs : p.serve with
        | ended =>
          dsimp only
          split
          · exact ⟨propagateTerminate_asked.2.trans hreq, by simp⟩
          · exact ⟨hreq, by simp⟩
        | _ => exact ⟨hreq, hserve⟩
      | bootFailed =>
        cases hs : p.serve with
        | booting => exact ⟨hreq, by simp⟩
        | _ => exact ⟨hreq, hserve⟩
      | drained =>
        cases hs : p.serve with
        | stopping bySigterm => exact ⟨hreq, by simp⟩
        | _ => exact ⟨hreq, hserve⟩
      | drainFailed =>
        cases hs : p.serve with
        | stopping bySigterm => exact ⟨hreq, by simp⟩
        | _ => exact ⟨hreq, hserve⟩
      | guardDropped =>
        cases hs : p.serve with
        | returned => exact ⟨hreq, by simp⟩
        | _ => exact ⟨hreq, hserve⟩

/-- What was asked stays asked. -/
theorem Asked.step (h : Asked p) {e : Event} (hinternal : Internal e) : Asked (step p e) := by
  cases h with
  | inl hhits => exact Or.inl (by rw [handlerHits_step hinternal]; exact hhits)
  | inr hreq => exact Or.inr (stopRequested_step hinternal hreq.1 hreq.2)

/-! ## Runs -/

/-- An event of the broker, or of a serve that has begun, that changes something. -/
def Moves (p : Process) (e : Event) : Prop := Internal e ∧ NodeControl.step p e ≠ p

/-- A process that has ended does not move. -/
theorem exit_eq_none_of_moves {e : Event} (h : Moves p e) : p.exit = none := by
  cases hexit : p.exit with
  | none => rfl
  | some how =>
    have hstuck : NodeControl.step p e = p := by
      unfold NodeControl.step
      rw [hexit]
      rfl
    exact absurd hstuck h.2

/-- There are as many moves as the rank allows, and the one that ends the process. -/
theorem length_le_of_moves {fs : List Event} (h : Guarded NodeControl.step Moves p fs) :
    fs.length ≤ rank p + 1 := by
  induction fs generalizing p with
  | nil => exact Nat.zero_le _
  | cons e fs ih =>
    obtain ⟨hmove, hrest⟩ := h
    cases moves_rank hmove.1 hmove.2 with
    | inl hexit =>
      cases fs with
      | nil => simp
      | cons e' fs => exact absurd (exit_eq_none_of_moves hrest.1) hexit
    | inr hlt =>
      have hle := ih hrest
      rw [List.length_cons]
      omega

/-- **A request to stop is answered.** In every interleaving of signals, requests, the broker and
    any number of serves: once SIGTERM is delivered, or a stop is requested of a node that is not
    booting, broker and serve have eleven steps before them at most until a new serve begins, and
    when they have none, the process has ended, or the serve has and no SIGTERM is unanswered. -/
theorem stop_answered (hostOwns : Bool) (es fs : List Event)
    (hasked : Asked (after NodeControl.step (install hostOwns) es))
    (hmoves : Guarded NodeControl.step Moves (after NodeControl.step (install hostOwns) es) fs) :
    fs.length ≤ 11 ∧
      (Still (after NodeControl.step (install hostOwns) (es ++ fs)) →
        Stopped (after NodeControl.step (install hostOwns) (es ++ fs))) := by
  rw [after_append]
  have hinv : Inv (after NodeControl.step (install hostOwns) es) :=
    after_invariant (fun p e h => h.step e) (inv_install hostOwns)
  generalize after NodeControl.step (install hostOwns) es = p at hasked hmoves hinv
  constructor
  · have hlength := length_le_of_moves hmoves
    have hrank := rank_le (p := p)
    omega
  · intro hstill
    have hend := hmoves.invariant (I := fun p => Inv p ∧ Asked p)
      (fun p e h hmove => ⟨h.1.step e, h.2.step hmove.1⟩) ⟨hinv, hasked⟩
    exact stopped_of_still hend.1 hend.2 hstill

/-- SIGTERM comes while the node serves: it unwinds, and the process ends. -/
theorem stop_answered_serving :
    Stopped (after NodeControl.step (install false)
      ([.serve .began, .serve (.bound "127.0.0.1:4243"), .sigterm false] ++
        [.broker, .broker, .serve (.select .terminated), .broker, .serve .drained,
          .serve .finish])) :=
  (stop_answered false [.serve .began, .serve (.bound "127.0.0.1:4243"), .sigterm false]
    [.broker, .broker, .serve (.select .terminated), .broker, .serve .drained, .serve .finish]
    (Or.inl (by decide))
    ⟨⟨Or.inl rfl, by decide⟩, ⟨Or.inl rfl, by decide⟩, ⟨Or.inr ⟨_, rfl, by decide⟩, by decide⟩,
      ⟨Or.inl rfl, by decide⟩, ⟨Or.inr ⟨_, rfl, by decide⟩, by decide⟩,
      ⟨Or.inr ⟨_, rfl, by decide⟩, by decide⟩, True.intro⟩).2 fun _ _ => rfl

end CirisServer.NodeControl
