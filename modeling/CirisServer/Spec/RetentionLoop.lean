import CirisServer.Native.RetentionLoop
import CirisServer.Spec.RetentionVerdict

/-!
# The retention alarm

A pass has three summaries of the store and five arms that decide on the alarm. Whatever
the store answers and whichever read fails, a pass that ends with an outcome has the alarm
raised exactly if the outcome is a fault, and that is so exactly if the bytes it last
measured are at or above the trigger of a configured cap. A pass that stops without an
outcome leaves the registry as it found it, less an alarm for which there is no cap.

Key results:
- `executePlan_returns`: a sweep ends within one statement for each trace and one more
- `executePlan_swept`: what a sweep that came through did
- `alarm_agrees`: outcome, alarm and measured bytes agree after every pass
-/

namespace CirisServer

/-! ## The sweep -/

/-- A delete statement removes as many rows as it counts. -/
theorem deleteTracesOlderThan_length (cutoff : Int) (limit : Nat) (traces : List Int) :
    (deleteTracesOlderThan cutoff limit traces).1.length +
      (deleteTracesOlderThan cutoff limit traces).2 = traces.length := by
  induction traces generalizing limit with
  | nil => cases limit <;> simp [deleteTracesOlderThan]
  | cons ts traces ih =>
    cases limit with
    | zero => simp [deleteTracesOlderThan]
    | succ limit =>
      simp only [deleteTracesOlderThan]
      split
      · have hrest := ih limit
        simp only [List.length_cons]
        omega
      · have hrest := ih (limit + 1)
        simp only [List.length_cons]
        omega

/-- The delete loop counts the rows it removes. -/
theorem drainTraces_length (env : ExecutorEnv) (cutoff : Int) (batch : Nat) {fuel nth : Nat}
    {traces rest : List Int} {evicted n : Nat}
    (h : drainTraces env cutoff batch fuel nth traces evicted = some (.ok n, rest)) :
    n + rest.length = evicted + traces.length := by
  induction fuel generalizing nth traces evicted with
  | zero => simp [drainTraces] at h
  | succ fuel ih =>
    have hstep := deleteTracesOlderThan_length cutoff batch traces
    simp only [drainTraces] at h
    cases hfail : env.deleteFails nth with
    | some e =>
      rw [hfail] at h
      simp at h
    | none =>
      rw [hfail] at h
      dsimp only at h
      split at h
      · simp only [Option.some.injEq, Prod.mk.injEq, Except.ok.injEq] at h
        obtain ⟨rfl, rfl⟩ := h
        omega
      · have hrest := ih h
        omega

/-- The delete loop ends, with or without a failing statement: a full batch takes a row. -/
theorem drainTraces_returns (env : ExecutorEnv) (cutoff : Int) {batch fuel : Nat} (nth : Nat)
    (traces : List Int) (evicted : Nat) (hbatch : 0 < batch) (hfuel : traces.length < fuel) :
    ∃ result, drainTraces env cutoff batch fuel nth traces evicted = some result := by
  induction fuel generalizing nth traces evicted with
  | zero => omega
  | succ fuel ih =>
    have hstep := deleteTracesOlderThan_length cutoff batch traces
    simp only [drainTraces]
    cases env.deleteFails nth with
    | some e => exact ⟨_, rfl⟩
    | none =>
      dsimp only
      split
      · exact ⟨_, rfl⟩
      · exact ih _ _ _ (by omega)

/-- A sweep ends within one statement for each trace and one more. -/
theorem executePlan_returns (env : ExecutorEnv) {fuel : Nat} {plan : EvictionPlan}
    {traces : List Int} (hbatch : 0 < plan.traceBatchSize) (hfuel : traces.length < fuel) :
    ∃ result, executePlan env fuel plan traces = some result := by
  simp only [executePlan]
  cases env.bytesBefore with
  | error e => exact ⟨_, rfl⟩
  | ok before =>
    cases plan.deleteTracesOlderThan with
    | none => exact ⟨_, rfl⟩
    | some cutoff =>
      obtain ⟨drained, hdrained⟩ := drainTraces_returns env cutoff 0 traces 0 hbatch hfuel
      dsimp only
      rw [hdrained]
      exact ⟨_, rfl⟩

/-- What a sweep that came through did. -/
structure Swept (plan : EvictionPlan) (traces : List Int) (done : EvictionSummary)
    (rest : List Int) : Prop where
  pressure : done.diskPressure = plan.diskPressure
  archived : done.archivedAuditEntries = 0
  evicted : done.evictedTraces + rest.length = traces.length
  idle : plan.deleteTracesOlderThan = none → done.evictedTraces = 0

theorem executePlan_swept {env : ExecutorEnv} {fuel : Nat} {plan : EvictionPlan}
    {traces rest : List Int} {done : EvictionSummary}
    (h : executePlan env fuel plan traces = some (.ok done, rest)) :
    Swept plan traces done rest := by
  simp only [executePlan] at h
  cases hbefore : env.bytesBefore with
  | error e =>
    rw [hbefore] at h
    simp at h
  | ok before =>
    rw [hbefore] at h
    simp only [Option.map_eq_some_iff] at h
    obtain ⟨⟨drained, left⟩, hdrain, hdone⟩ := h
    cases drained with
    | error e => simp at hdone
    | ok n =>
      have hcount : n + left.length = traces.length ∧
          (plan.deleteTracesOlderThan = none → n = 0) := by
        cases hcutoff : plan.deleteTracesOlderThan with
        | none =>
          rw [hcutoff] at hdrain
          simp only [Option.some.injEq, Prod.mk.injEq, Except.ok.injEq] at hdrain
          obtain ⟨rfl, rfl⟩ := hdrain
          exact ⟨Nat.zero_add _, fun _ => rfl⟩
        | some cutoff =>
          rw [hcutoff] at hdrain
          have hlength := drainTraces_length env cutoff _ hdrain
          refine ⟨by omega, fun hnone => ?_⟩
          cases hnone
      cases hafter : env.bytesAfter with
      | error e =>
        rw [hafter] at hdone
        simp at hdone
      | ok after =>
        rw [hafter] at hdone
        simp only [Prod.mk.injEq, Except.ok.injEq] at hdone
        obtain ⟨rfl, rfl⟩ := hdone
        exact ⟨rfl, rfl, hcount.1, hcount.2⟩

/-- Without a failure of the planner's read or of its dates, the sweep is the executor's. -/
theorem evictPerRetentionPolicy_returns (env : PassEnv) {fuel : Nat} (policy : RetentionPolicy)
    {traces : List Int} (hfuel : traces.length < fuel) :
    ∃ result, evictPerRetentionPolicy env fuel policy traces = some result := by
  simp only [evictPerRetentionPolicy]
  cases env.planned with
  | error e => exact ⟨_, rfl⟩
  | ok planned =>
    dsimp only
    cases hplan : planEvictionOrPanic planned policy env.now with
    | none => exact ⟨_, rfl⟩
    | some plan =>
      have hbatch : 0 < plan.traceBatchSize := by
        simp only [planEvictionOrPanic, Option.ite_none_right_eq_some, Option.some.injEq] at hplan
        rw [← hplan.2]
        exact Nat.zero_lt_succ _
      obtain ⟨done, hdone⟩ := executePlan_returns env.executor hbatch hfuel
      dsimp only
      rw [hdone]
      exact ⟨_, rfl⟩

theorem evictPerRetentionPolicy_swept {env : PassEnv} {fuel : Nat} {policy : RetentionPolicy}
    {traces rest : List Int} {done : EvictionSummary}
    (h : evictPerRetentionPolicy env fuel policy traces = some (.ok done, rest)) :
    ∃ planned, env.planned = .ok planned ∧
      Swept (planEviction planned policy env.now) traces done rest := by
  simp only [evictPerRetentionPolicy] at h
  cases hplanned : env.planned with
  | error e =>
    rw [hplanned] at h
    simp at h
  | ok planned =>
    rw [hplanned] at h
    dsimp only at h
    cases hplan : planEvictionOrPanic planned policy env.now with
    | none =>
      rw [hplan] at h
      simp at h
    | some plan =>
      rw [hplan] at h
      simp only [Option.map_eq_some_iff] at h
      obtain ⟨⟨result, left⟩, hexec, hdone⟩ := h
      simp only [planEvictionOrPanic, Option.ite_none_right_eq_some, Option.some.injEq] at hplan
      cases result with
      | error e => simp [Except.mapError] at hdone
      | ok summary =>
        simp only [Except.mapError, Prod.mk.injEq, Except.ok.injEq] at hdone
        obtain ⟨rfl, rfl⟩ := hdone
        exact ⟨planned, rfl, hplan.2 ▸ executePlan_swept hexec⟩

/-! ## The alarm -/

/-- The verdict of a plan, on the summary it was planned from. -/
theorem planEviction_verdict (summary : StorageSummary) (policy : RetentionPolicy) (now : Int) :
    match (planEviction summary policy now).diskPressure with
    | .unbounded => policy.maxDiskGb = none
    | .within _ cap => ¬ Exceeded summary policy ∧
        ∃ gb, policy.maxDiskGb = some gb ∧ cap = capBytes gb
    | .relieving _ cap => Exceeded summary policy ∧
        ∃ gb, policy.maxDiskGb = some gb ∧ cap = capBytes gb
    | .unreachable .. => Exceeded summary policy ∧
        (planEviction summary policy now).deleteTracesOlderThan = none := by
  cases hgb : policy.maxDiskGb with
  | none =>
    cases haudit : planAudit summary policy now <;> simp [planEviction, planTraces, hgb, haudit]
  | some gb =>
    cases hover : overTrigger summary.totalDiskBytes (capBytes gb) with
    | false =>
      have hunder : ¬ Exceeded summary policy := by simp [Exceeded, hgb, hover]
      cases haudit : planAudit summary policy now <;>
        simp [planEviction, planTraces, hgb, hover, haudit, hunder]
    | true =>
      have hexceeded : Exceeded summary policy := ⟨gb, hgb, hover⟩
      -- a cutoff or an audit range makes it `Relieving`
      cases hcutoff : diskCutoff summary (ageCutoff policy now) <;>
        cases haudit : planAudit summary policy now <;>
          simp [planEviction, planTraces, hgb, hover, haudit, hexceeded, hcutoff, diskVerdict]

/-- The outcome and the registry a pass ends with agree on whether the store is over its
    trigger. A pass without an outcome leaves the registry. -/
structure AlarmAgrees (pressured : Prop) (registry : List Warning)
    (r : Except Stop RetentionOutcome × List Warning) : Prop where
  raised_iff : ∀ outcome, r.1 = .ok outcome →
    (Raised retentionBoundCode r.2 ↔ outcome.isFault = true)
  fault_iff : ∀ outcome, r.1 = .ok outcome → (outcome.isFault = true ↔ pressured)
  stopped : ∀ stop, r.1 = .error stop → r.2 = registry

section Settled

variable {pressured : Prop} (registry : List Warning)

/-- The arms that raise the alarm return the fault. -/
theorem alarmAgrees_fault (hp : pressured) (message : String) (used cap rows : Nat) :
    AlarmAgrees pressured registry
      (.ok (.boundUnenforceable used cap rows),
        raise (.error retentionBoundCode message) registry) := by
  refine ⟨fun outcome heq => ?_, fun outcome heq => ?_, fun stop heq => ?_⟩
  · cases heq
    simp [RetentionOutcome.isFault, Warning.error]
  · cases heq
    simp [RetentionOutcome.isFault, hp]
  · cases heq

theorem alarmAgrees_stop (stop : Stop) :
    AlarmAgrees pressured registry (.error stop, registry) :=
  ⟨fun _ heq => (by cases heq), fun _ heq => (by cases heq), fun _ _ => rfl⟩

/-- The arms that take the alarm down go on to a report, and no report is a fault. A pass
    that acted has the summary its report needs. -/
theorem alarmAgrees_report (hp : ¬ pressured) (before : StorageSummary)
    {summary : EvictionSummary} {after : Option StorageSummary}
    (hafter : summary.acted = true → after.isSome = true) :
    AlarmAgrees pressured registry
      (report before summary after, (clear retentionBoundCode registry).1) := by
  have hreport : ∃ outcome, report before summary after = .ok outcome ∧
      outcome.isFault = false := by
    simp only [report]
    split
    · exact ⟨_, rfl, rfl⟩
    · next hmoved =>
      have hacted : summary.acted = true := by
        simp only [EvictionSummary.acted, Bool.or_eq_true, decide_eq_true_eq]
        omega
      obtain ⟨a, ha⟩ := Option.isSome_iff_exists.mp (hafter hacted)
      rw [ha]
      exact ⟨_, rfl, rfl⟩
  obtain ⟨reported, heq, hfault⟩ := hreport
  rw [heq]
  refine ⟨fun outcome hout => ?_, fun outcome hout => ?_, fun stop hout => ?_⟩
  · cases hout
    simp [hfault]
  · cases hout
    simp [hfault, hp]
  · cases hout

end Settled

/-- The last summary on which a pass can judge the bytes: the one after the sweep if rows
    left the store, and the planner's otherwise. -/
def lastJudged (env : PassEnv) (traces rest : List Int) : Except String StorageSummary :=
  if rest.length < traces.length then env.after else env.planned

/-- The bytes last judged are at or above the trigger of a configured cap. -/
def Pressured (env : PassEnv) (policy : RetentionPolicy) (traces rest : List Int) : Prop :=
  ∃ summary, lastJudged env traces rest = .ok summary ∧ Exceeded summary policy

section Judge

variable {env : PassEnv} {policy : RetentionPolicy} {traces rest : List Int}
  {planned : StorageSummary} {done : EvictionSummary}

/-- Archival is planned and never executed, so a pass that acted has removed rows. -/
theorem Swept.acted_iff (hswept : Swept (planEviction planned policy env.now) traces done rest) :
    done.acted = true ↔ rest.length < traces.length := by
  have hcount := hswept.evicted
  simp only [EvictionSummary.acted, hswept.archived, Bool.or_eq_true, decide_eq_true_eq]
  omega

/-- The reading a pass holds at the verdict: none if it did not act. It is the one that
    `Pressured` is about. -/
structure Reading (env : PassEnv) (policy : RetentionPolicy) (traces rest : List Int)
    (planned : StorageSummary) (done : EvictionSummary) (after : Option StorageSummary) : Prop where
  idle : after = none → done.acted = false ∧
    (Pressured env policy traces rest ↔ Exceeded planned policy)
  acted : ∀ a, after = some a → done.acted = true ∧
    (Pressured env policy traces rest ↔ Exceeded a policy)

/-- The read after the sweep either fails, or leaves the pass with the reading to judge. -/
theorem Swept.reading (hplanned : env.planned = .ok planned)
    (hswept : Swept (planEviction planned policy env.now) traces done rest)
    {after : Option StorageSummary}
    (h : readAfter env done = .ok after) : Reading env policy traces rest planned done after := by
  have hacted := hswept.acted_iff
  cases hd : done.acted with
  | false =>
    have hsame : ¬ rest.length < traces.length := by
      rw [← hacted, hd]
      exact Bool.false_ne_true
    simp only [readAfter, hd, Bool.false_eq_true, if_false, Except.ok.injEq] at h
    subst h
    refine ⟨fun _ => ⟨hd, ?_⟩, fun a ha => by cases ha⟩
    simp [Pressured, lastJudged, hsame, hplanned]
  | true =>
    have hfewer : rest.length < traces.length := hacted.mp hd
    simp only [readAfter, hd, if_true] at h
    cases hafter : env.after with
    | error e =>
      rw [hafter] at h
      cases h
    | ok a =>
      rw [hafter] at h
      cases h
      refine ⟨fun hnone => (by cases hnone), fun b hb => ?_⟩
      cases hb
      exact ⟨hd, by simp [Pressured, lastJudged, hfewer, hafter]⟩

/-- A cap is exceeded exactly at or above its trigger. -/
theorem exceeded_iff {gb : UInt64} (hgb : policy.maxDiskGb = some gb) (summary : StorageSummary) :
    Exceeded summary policy ↔ overTrigger summary.totalDiskBytes (capBytes gb) = true := by
  simp [Exceeded, hgb]

variable (human : Nat → String)

/-- An arm that raises the alarm agrees with a store over its trigger. -/
theorem concludePass_alarm (hp : Pressured env policy traces rest) {before : StorageSummary}
    {after : Option StorageSummary} {registry : List Warning} {message : String}
    {used cap rows : Nat}
    (hsettle : settleAlarm human before done after registry =
      alarm message used cap rows registry) :
    AlarmAgrees (Pressured env policy traces rest) registry
      (concludePass human before done after registry) := by
  rw [concludePass, hsettle]
  exact alarmAgrees_fault registry hp _ _ _ _

/-- An arm that takes the alarm down agrees with a store under its trigger, or without one. -/
theorem concludePass_standDown (hp : ¬ Pressured env policy traces rest) {before : StorageSummary}
    {after : Option StorageSummary} {registry : List Warning}
    (hafter : done.acted = true → after.isSome = true)
    (hsettle : settleAlarm human before done after registry = standDown registry) :
    AlarmAgrees (Pressured env policy traces rest) registry
      (concludePass human before done after registry) := by
  rw [concludePass, hsettle]
  exact alarmAgrees_report registry hp before hafter

/-- The arm of a store under its trigger at planning time. -/
theorem settleAlarm_within {before : StorageSummary} {after : Option StorageSummary}
    {registry : List Warning} {used cap : Nat} (h : done.diskPressure = .within used cap) :
    settleAlarm human before done after registry =
      if after.any (fun a => overTrigger a.totalDiskBytes cap) then
        alarm (crossedMessage (human (after.elim 0 fun a => a.totalDiskBytes)) (human cap))
          (after.elim 0 fun a => a.totalDiskBytes) cap done.reached registry
      else standDown registry := by
  rw [settleAlarm, h]

/-- Every arm of the verdict that the pass reaches with a reading agrees with it. -/
theorem concludePass_agrees
    (hswept : Swept (planEviction planned policy env.now) traces done rest)
    {after : Option StorageSummary} (hreading : Reading env policy traces rest planned done after)
    (hreach : ∀ used cap rows, done.diskPressure ≠ .unreachable used cap rows)
    (before : StorageSummary) (registry : List Warning) :
    AlarmAgrees (Pressured env policy traces rest) registry
      (concludePass human before done after registry) := by
  have hverdict := planEviction_verdict planned policy env.now
  rw [← hswept.pressure] at hverdict
  have hafter : done.acted = true → after.isSome = true := by
    intro hacted
    cases hread : after with
    | none =>
      have hidle := (hreading.idle hread).1
      rw [hacted] at hidle
      cases hidle
    | some a => rfl
  cases hpressure : done.diskPressure with
  | unbounded =>
    -- no cap: nothing can be over its trigger
    rw [hpressure] at hverdict
    have hp : ¬ Pressured env policy traces rest := by
      rintro ⟨summary, -, gb, hgb, -⟩
      rw [hverdict] at hgb
      cases hgb
    exact concludePass_standDown human hp hafter (by simp only [settleAlarm, hpressure])
  | within used cap =>
    rw [hpressure] at hverdict
    obtain ⟨hunder, gb, hgb, rfl⟩ := hverdict
    cases hread : after with
    | none =>
      -- nothing was removed: the planner's reading stands
      have hp : ¬ Pressured env policy traces rest := by
        rw [(hreading.idle hread).2]
        exact hunder
      exact concludePass_standDown human hp (hread ▸ hafter) (by simp [settleAlarm, hpressure])
    | some a =>
      have hp := (hreading.acted a hread).2
      rw [exceeded_iff hgb] at hp
      cases hover : overTrigger a.totalDiskBytes (capBytes gb) with
      | true =>
        have hsettle : settleAlarm human before done (some a) registry =
            alarm (crossedMessage (human a.totalDiskBytes) (human (capBytes gb)))
              a.totalDiskBytes (capBytes gb) done.reached registry := by
          rw [settleAlarm_within human hpressure, Option.any_some, hover, if_pos rfl,
            Option.elim_some]
        exact concludePass_alarm human (hp.mpr hover) hsettle
      | false =>
        rw [hover] at hp
        have hsettle : settleAlarm human before done (some a) registry = standDown registry := by
          rw [settleAlarm_within human hpressure, Option.any_some, hover]
          exact if_neg Bool.false_ne_true
        exact concludePass_standDown human (by simpa using hp) (hread ▸ hafter) hsettle
  | relieving used cap =>
    rw [hpressure] at hverdict
    obtain ⟨hexceeded, gb, hgb, rfl⟩ := hverdict
    cases hread : after with
    | none =>
      -- the plan named a lever, and the lever moved nothing
      obtain ⟨hidle, hp⟩ := hreading.idle hread
      have hsettle : settleAlarm human before done none registry =
          alarm (inertMessage (human used) (human (capBytes gb))) used (capBytes gb)
            ((before.traceEvents.rows + before.auditLog.rows) % 2 ^ 64) registry := by
        simp only [settleAlarm, hpressure, hidle, Bool.not_false, if_true]
      exact concludePass_alarm human (hp.mpr hexceeded) hsettle
    | some a =>
      obtain ⟨hacted, hp⟩ := hreading.acted a hread
      rw [exceeded_iff hgb] at hp
      cases hover : overTrigger a.totalDiskBytes (capBytes gb) with
      | true =>
        have hsettle : settleAlarm human before done (some a) registry =
            alarm (stillPressuredMessage (human a.totalDiskBytes) (human (capBytes gb)))
              a.totalDiskBytes (capBytes gb) done.reached registry := by
          simp only [settleAlarm, hpressure, hacted, Bool.not_true, Bool.false_eq_true, if_false,
            Option.elim_some, hover, if_true]
        exact concludePass_alarm human (hp.mpr hover) hsettle
      | false =>
        rw [hover] at hp
        exact concludePass_standDown human (by simpa using hp) (hread ▸ hafter)
          (by simp [settleAlarm, hpressure, hacted, hover])
  | unreachable used cap rows => exact absurd hpressure (hreach used cap rows)

/-- After a sweep that came through, the rest of the pass settles the alarm. -/
theorem judgePass_agrees (hplanned : env.planned = .ok planned)
    (hswept : Swept (planEviction planned policy env.now) traces done rest)
    (before : StorageSummary) (registry : List Warning) :
    AlarmAgrees (Pressured env policy traces rest) registry
      (judgePass human env before done registry) := by
  simp only [judgePass]
  split
  · -- nothing was planned, so nothing was removed
    next used cap rows hpressure =>
    have hverdict := planEviction_verdict planned policy env.now
    rw [← hswept.pressure, hpressure] at hverdict
    have hidle := hswept.idle hverdict.2
    have hcount := hswept.evicted
    have hsame : ¬ rest.length < traces.length := by omega
    have hp : Pressured env policy traces rest :=
      ⟨planned, by rw [lastJudged, if_neg hsame, hplanned], hverdict.1⟩
    exact alarmAgrees_fault registry hp _ _ _ _
  · next hnot =>
    cases hread : readAfter env done with
    | error e => exact alarmAgrees_stop registry _
    | ok after =>
      exact concludePass_agrees human hswept (hswept.reading hplanned hread) hnot before registry

end Judge

/-- The registry a pass that stops leaves behind: an alarm without a cap is down. -/
def stoppedRegistry (policy : RetentionPolicy) (registry : List Warning) : List Warning :=
  if policy.maxDiskGb = none then (clear retentionBoundCode registry).1 else registry

/-- **Alarm, outcome and store agree.** A pass comes to an end whatever the store answers.
    If it ends with an outcome, the alarm stands exactly if the outcome is a fault, and the
    outcome is a fault exactly if the bytes last judged are at or above the trigger of a
    configured cap. If it stops without one, the registry is as before, less an alarm about
    a cap that is not configured. -/
theorem alarm_agrees (human : Nat → String) (env : PassEnv) (cfg : RetentionConfig)
    (s : PassState) (fuel : Nat) (hfuel : s.traces.length < fuel) :
    ∃ result s', runPass human env fuel cfg s = some (result, s') ∧
      AlarmAgrees (Pressured env cfg.policy s.traces s'.traces)
        (stoppedRegistry cfg.policy s.warnings) (result, s'.warnings) := by
  simp only [runPass]
  split
  · -- nothing is bounded, so no cap is
    next hfree =>
    have hcap : cfg.policy.maxDiskGb = none := by
      simp only [RetentionPolicy.isBounded, Bool.not_eq_true', Bool.or_eq_false_iff] at hfree
      simpa using hfree.1.1
    have hp : ¬ Pressured env cfg.policy s.traces s.traces := by
      simp [Pressured, Exceeded, hcap]
    refine ⟨_, _, rfl, fun outcome heq => ?_, fun outcome heq => ?_, fun stop heq => ?_⟩
    · cases heq
      simp [RetentionOutcome.isFault]
    · cases heq
      simp [RetentionOutcome.isFault, hp]
    · cases heq
  · have hregistry : (if cfg.policy.maxDiskGb.isNone = true then
        (clear retentionBoundCode s.warnings).1 else s.warnings) =
          stoppedRegistry cfg.policy s.warnings := by
      simp only [stoppedRegistry, Option.isNone_iff_eq_none]
    rw [hregistry]
    cases hbefore : env.before with
    | error e => exact ⟨_, _, rfl, alarmAgrees_stop _ _⟩
    | ok before =>
      obtain ⟨⟨swept, rest⟩, hevict⟩ := evictPerRetentionPolicy_returns env cfg.policy hfuel
      dsimp only
      rw [hevict]
      cases swept with
      | error stop => exact ⟨_, _, rfl, alarmAgrees_stop _ _⟩
      | ok done =>
        obtain ⟨planned, hplanned, hswept⟩ := evictPerRetentionPolicy_swept hevict
        exact ⟨_, _, rfl, judgePass_agrees human hplanned hswept before _⟩

/-- A store of two traces at the trigger of its cap, before the sweep and after it: the
    sweep takes the older trace, and ingestion outruns it. -/
def outrunEnv : PassEnv :=
  let summary : StorageSummary := ⟨⟨2, some 0, some 10⟩, ⟨0, none, none⟩, 900000000⟩
  { now := 20
    before := .ok summary
    planned := .ok summary
    after := .ok ⟨⟨1, some 10, some 10⟩, ⟨0, none, none⟩, 950000000⟩
    executor := ⟨.ok 900000000, .ok 950000000, fun _ => none⟩ }

theorem alarm_agrees_outrun :
    ∃ result s', runPass (fun n => toString n ++ " B") outrunEnv 3 ⟨3600, ⟨some 1, none, none⟩⟩
        ⟨[], [0, 10]⟩ = some (result, s') ∧
      AlarmAgrees (Pressured outrunEnv ⟨some 1, none, none⟩ [0, 10] s'.traces)
        (stoppedRegistry ⟨some 1, none, none⟩ []) (result, s'.warnings) :=
  alarm_agrees _ outrunEnv ⟨3600, ⟨some 1, none, none⟩⟩ ⟨[], [0, 10]⟩ 3 (by decide)

example : (runPass (fun _ => "") outrunEnv 3 ⟨3600, ⟨some 1, none, none⟩⟩ ⟨[], [0, 10]⟩).map
    (fun (result, s) => (result.toOption, s.traces, s.warnings.map Warning.code)) =
      some (some (.boundUnenforceable 950000000 1000000000 1), [10], [retentionBoundCode]) := by
  decide +kernel

end CirisServer
