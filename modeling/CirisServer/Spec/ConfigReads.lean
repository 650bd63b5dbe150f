import CirisServer.Native.GraphConfig

/-!
# Config reads after config writes

A write invalidates the cache after its row is stored, so a read that starts later
finds either no snapshot or one inserted since. Nothing stops a scan that was in flight
from being inserted then, with rows older than the write. The result holds for
interleavings in which a scan is cached only if it saw every write that has returned,
and a row is stored only if its version was computed from every row of its key.

Key results:
- `Honest.notOlder`: a snapshot whose scan saw a write does not hand out older values
- `step_coherent`: what one move preserves
- `reads_see_writes`: reads that start after a write returned see it, or a later one
-/

namespace CirisServer

open Interleave Run

section Standing

/-! ## The property -/

/-- The snapshot's value of `w`'s key is the one `w` stored, or one stored later. -/
def NotOlder (store : List Attestation) (w : Landed) (snap : ConfigSnapshot) : Prop :=
  ∃ a ∈ store.drop w.position, ∃ e ∈ a.configEntry, e.key = w.key ∧
    snap.get w.key = if e.value = .null then none else some e

/-- The read hands out the value of `key`. -/
def ReadGoal.reads (key : String) : ReadGoal → Prop
  | .snapshot => True
  | .getConfig key' => key' = key

/-- Every read that has been answered is not older than any write that had returned when
    the read began. -/
def ReadsSeeWrites (c : Config ConfigPlane ConfigTask) : Prop :=
  ∀ t ∈ c.tasks, match t with
    | .answered goal since scan => ∀ w ∈ c.shared.returned.take since,
        goal.reads w.key → NotOlder c.shared.store w scan.snapshot
    | _ => True

instance (store : List Attestation) (w : Landed) (snap : ConfigSnapshot) :
    Decidable (NotOlder store w snap) :=
  inferInstanceAs (Decidable (∃ a ∈ store.drop w.position, _))

instance (key : String) (goal : ReadGoal) : Decidable (goal.reads key) := by
  cases goal <;> unfold ReadGoal.reads <;> infer_instance

instance (c : Config ConfigPlane ConfigTask) : Decidable (ReadsSeeWrites c) := by
  unfold ReadsSeeWrites
  refine @List.decidableBAll _ _ (fun t => ?_) _
  cases t <;> infer_instance

variable (live : Attestation → Bool)

/-- The move meets no defect: a scan finds live what `live` says, a scan is cached only if
    it saw every write that has returned, and a row is stored live and with a version
    computed from every row of its key. -/
def Orderly (c : Config ConfigPlane ConfigTask) : Move ConfigCall ConfigEnv → Prop
  | .arrive _ => True
  | .advance i env =>
    match c.tasks[i]? with
    | some (.scanning _) => ∀ suspect ∈ env.scan.suspect.toOption, ∀ a ∈ c.shared.store,
        env.scan.finds suspect c.shared.store a = live a
    | some (.inserting _ scan) => ∀ w ∈ c.shared.returned, w.position < scan.seen
    | some (.writing req scan) =>
      (∀ a ∈ c.shared.store.drop scan.seen, ∀ e ∈ a.configEntry, e.key ≠ req.key) ∧
      ∀ node ∈ env.identity.toOption, ∀ stamp ∈ env.emit.toOption,
        live (req.row scan.snapshot node stamp.1 stamp.2) = true
    | _ => True

instance (c : Config ConfigPlane ConfigTask) (m : Move ConfigCall ConfigEnv) :
    Decidable (Orderly live c m) := by
  unfold Orderly
  cases m with
  | arrive call => infer_instance
  | advance i env =>
    dsimp only
    split <;> infer_instance

/-! ## Snapshots and landed writes -/

/-- The snapshot holds the live rows among the first `seen` of the store. -/
structure Honest (store : List Attestation) (scan : Scan) : Prop where
  seen_le : scan.seen ≤ store.length
  rows : ∀ r, r ∈ scan.snapshot.rows ↔
    ∃ a ∈ store.take scan.seen, live a = true ∧ a.storedRow = some r

/-- The write's row is live, and newer than every live row of its key before it. -/
structure Sound (store : List Attestation) (w : Landed) (a : Attestation) (e : ConfigEntry) :
    Prop where
  stored : store[w.position]? = some a
  entry : a.configEntry = some e
  key : e.key = w.key
  isLive : live a = true
  newest : ∀ b ∈ store.take w.position, ∀ e' ∈ b.configEntry, e'.key = w.key → live b = true →
    e'.version < e.version

variable {live}

/-- Rows stored later change nothing for a scan. -/
theorem Honest.mono {store store' : List Attestation} {scan : Scan} (h : Honest live store scan)
    (hstore : store <+: store') : Honest live store' scan := by
  obtain ⟨rest, rfl⟩ := hstore
  have htake : (store ++ rest).take scan.seen = store.take scan.seen :=
    List.take_append_of_le_length h.seen_le
  refine ⟨?_, fun r => ?_⟩
  · rw [List.length_append]
    exact Nat.le_trans h.seen_le (Nat.le_add_right _ _)
  · rw [htake]
    exact h.rows r

theorem Sound.position_lt {store : List Attestation} {w : Landed} {a : Attestation}
    {e : ConfigEntry} (h : Sound live store w a e) : w.position < store.length :=
  (List.getElem?_eq_some_iff.mp h.stored).1

/-- Rows stored later change nothing for a landed write. -/
theorem Sound.mono {store store' : List Attestation} {w : Landed} {a : Attestation}
    {e : ConfigEntry} (h : Sound live store w a e) (hstore : store <+: store') :
    Sound live store' w a e := by
  have hlt := h.position_lt
  obtain ⟨rest, rfl⟩ := hstore
  refine ⟨?_, h.entry, h.key, h.isLive, ?_⟩
  · rw [List.getElem?_append_left hlt]
    exact h.stored
  · rw [List.take_append_of_le_length (Nat.le_of_lt hlt)]
    exact h.newest

/-- A snapshot whose scan saw a write does not hand out older values of its key. -/
theorem Honest.notOlder {store : List Attestation} {scan : Scan} (h : Honest live store scan)
    {w : Landed} {a : Attestation} {e : ConfigEntry} (hw : Sound live store w a e)
    (hseen : w.position < scan.seen) : NotOlder store w scan.snapshot := by
  -- the write's row is in the snapshot, so its key has a newest row there
  have ha : a ∈ store.take scan.seen := by
    refine List.mem_of_getElem? (i := w.position) ?_
    rw [List.getElem?_take_of_lt hseen]
    exact hw.stored
  have hrow : a.storedRow = some ⟨a.attestationId, a.assertedAt, e⟩ := by
    simp [Attestation.storedRow, hw.entry]
  have hmem := (h.rows _).mpr ⟨a, ha, hw.isLive, hrow⟩
  obtain ⟨r, hlatest⟩ := latestForKey_isSome hmem hw.key
  obtain ⟨hr, hkey, hmax⟩ := latestForKey_spec hlatest
  obtain ⟨b, hb, hlive, hbrow⟩ := (h.rows r).mp hr
  obtain ⟨e', he', rfl⟩ := Option.map_eq_some_iff.mp hbrow
  have hle := hmax _ hmem hw.key
  -- rows before the write have lower versions, so the newest one is not among them
  have hb' : b ∈ store.drop w.position := by
    have hstore : b ∈ store.take w.position ++ store.drop w.position := by
      rw [List.take_append_drop]
      exact List.mem_of_mem_take hb
    rcases List.mem_append.mp hstore with hbefore | hafter
    · have hlt := hw.newest b hbefore e' he' hkey hlive
      dsimp only at hle
      omega
    · exact hafter
  refine ⟨b, hb', e', he', hkey, ?_⟩
  unfold ConfigSnapshot.get
  rw [hlatest]
  by_cases hnull : e'.value = .null <;> simp [hnull]

/-- A scan that finds live what `live` says is honest. -/
theorem scan_honest {env : ScanEnv} {scan now : Nat} {store : List Attestation}
    {snap : ConfigSnapshot} (h : liveConfigRows env scan now store = .ok snap)
    (hlive : ∀ suspect ∈ env.suspect.toOption, ∀ a ∈ store, env.finds suspect store a = live a) :
    Honest live store ⟨snap, store.length⟩ := by
  obtain ⟨suspect, hsuspect, hrows⟩ := liveConfigRows_ok h
  have hfinds := hlive suspect (by rw [hsuspect]; rfl)
  refine ⟨Nat.le_refl _, fun r => ?_⟩
  rw [List.take_length, hrows]
  constructor
  · rintro ⟨a, ha, hfound, hrow⟩
    exact ⟨a, ha, hfinds a ha ▸ hfound, hrow⟩
  · rintro ⟨a, ha, hfound, hrow⟩
    exact ⟨a, ha, (hfinds a ha).trans hfound, hrow⟩

/-- A row whose version was computed from every row of its key is newest. -/
theorem Honest.write_sound {store : List Attestation} {scan : Scan} (h : Honest live store scan)
    {req : WriteRequest} {node id : String} {stamp : Int}
    (hnone : ∀ a ∈ store.drop scan.seen, ∀ e ∈ a.configEntry, e.key ≠ req.key)
    (hlive : live (req.row scan.snapshot node id stamp) = true) :
    Sound live (store ++ [req.row scan.snapshot node id stamp]) ⟨req.key, store.length⟩
      (req.row scan.snapshot node id stamp) (req.entry scan.snapshot) := by
  refine ⟨by simp, req.row_configEntry .., rfl, hlive, fun b hb e' he' hkey hblive => ?_⟩
  rw [List.take_left] at hb
  have hstore : b ∈ store.take scan.seen ++ store.drop scan.seen := by
    rw [List.take_append_drop]
    exact hb
  rcases List.mem_append.mp hstore with hseen | hunseen
  · -- seen by the scan, so below the version computed from it
    have hrow : b.storedRow = some ⟨b.attestationId, b.assertedAt, e'⟩ := by
      simp [Attestation.storedRow, Option.mem_def.mp he']
    exact req.version_lt scan.snapshot ((h.rows _).mpr ⟨b, hseen, hblive, hrow⟩) hkey
  · exact absurd hkey (hnone b hunseen e' he')

/-! ## The invariant -/

variable (live) in
/-- What holds of the plane: landed writes are sound, and the cached snapshot is honest and
    has seen every write that has returned. -/
structure Coherent (me : Nat) (p : ConfigPlane) : Prop where
  returned : ∀ w ∈ p.returned, ∃ a e, Sound live p.store w a e
  cache : ∀ scan, (me, scan) ∈ p.cache →
    Honest live p.store scan ∧ ∀ w ∈ p.returned, w.position < scan.seen

/-- A read knows how many writes had returned when it began. -/
def Goal.InTime (p : ConfigPlane) : Goal → Prop
  | .read _ since => since ≤ p.returned.length
  | _ => True

/-- The scan saw every write that had returned when the read began. -/
def Goal.Served (p : ConfigPlane) (scan : Scan) : Goal → Prop
  | .read _ since => since ≤ p.returned.length ∧ ∀ w ∈ p.returned.take since, w.position < scan.seen
  | _ => True

variable (live) in
/-- What holds of a call. -/
def TaskCoherent (p : ConfigPlane) : ConfigTask → Prop
  | .lookup goal => goal.InTime p
  | .scanning goal => goal.InTime p
  | .inserting goal scan => Honest live p.store scan ∧ goal.Served p scan
  | .writing _ scan => Honest live p.store scan
  | .settling w _ => ∃ a e, Sound live p.store w a e
  | .answered goal since scan => Honest live p.store scan ∧ (Goal.read goal since).Served p scan
  | _ => True

/-- A snapshot that saw every write that has returned serves any read. -/
theorem Goal.InTime.served {p : ConfigPlane} {goal : Goal} {scan : Scan} (h : goal.InTime p)
    (hseen : ∀ w ∈ p.returned, w.position < scan.seen) : goal.Served p scan := by
  cases goal with
  | read goal since => exact ⟨h, fun w hw => hseen w (List.mem_of_mem_take hw)⟩
  | write req => trivial
  | delete key updatedBy => trivial

/-- A call that goes on with an honest snapshot. -/
theorem TaskCoherent.resume {p : ConfigPlane} {goal : Goal} {scan : Scan}
    (h : Honest live p.store scan) (hserved : goal.Served p scan) :
    TaskCoherent live p (goal.resume scan) := by
  cases goal with
  | read goal since => exact ⟨h, hserved⟩
  | write req => exact h
  | delete key updatedBy =>
    simp only [Goal.resume, ConfigTask.startWrite]
    split <;> trivial

theorem Goal.InTime.mono {p p' : ConfigPlane} {goal : Goal} (h : goal.InTime p)
    (hreturned : p.returned <+: p'.returned) : goal.InTime p' := by
  cases goal with
  | read goal since => exact Nat.le_trans h hreturned.length_le
  | write req => trivial
  | delete key updatedBy => trivial

theorem Goal.Served.mono {p p' : ConfigPlane} {goal : Goal} {scan : Scan} (h : goal.Served p scan)
    (hreturned : p.returned <+: p'.returned) : goal.Served p' scan := by
  cases goal with
  | read goal since =>
    refine ⟨Nat.le_trans h.1 hreturned.length_le, ?_⟩
    obtain ⟨rest, hrest⟩ := hreturned
    rw [← hrest, List.take_append_of_le_length h.1]
    exact h.2
  | write req => trivial
  | delete key updatedBy => trivial

/-- Other calls' writes do not spoil a call. -/
theorem TaskCoherent.mono {p p' : ConfigPlane} {t : ConfigTask} (h : TaskCoherent live p t)
    (hstore : p.store <+: p'.store) (hreturned : p.returned <+: p'.returned) :
    TaskCoherent live p' t := by
  cases t with
  | invalidating req => trivial
  | lookup goal => exact Goal.InTime.mono h hreturned
  | scanning goal => exact Goal.InTime.mono h hreturned
  | inserting goal scan => exact ⟨h.1.mono hstore, h.2.mono hreturned⟩
  | writing req scan => exact Honest.mono h hstore
  | settling w entry =>
    obtain ⟨a, e, hw⟩ := h
    exact ⟨a, e, hw.mono hstore⟩
  | answered goal since scan => exact ⟨h.1.mono hstore, h.2.mono hreturned⟩
  | wrote entry => trivial
  | failed e => trivial

/-! ## The cache -/

theorem not_mem_invalidateEngine {α : Type} {me : Nat} {slots : List (Nat × α)} {a : α} :
    (me, a) ∉ invalidateEngine me slots := by
  simp [invalidateEngine]

/-- After an insert the engine's only slot is what was inserted. -/
theorem mem_insertSlot {α : Type} {me : Nat} {slots : List (Nat × α)} {a b : α}
    (h : (me, b) ∈ insertSlot me slots a) : b = a := by
  unfold insertSlot at h
  rcases List.mem_append.mp h with h | h
  · have hkept : (me, b) ∈ invalidateEngine me slots := by
      split at h
      · exact List.mem_of_mem_tail h
      · exact h
    exact absurd hkept not_mem_invalidateEngine
  · exact (Prod.mk.inj (List.mem_singleton.mp h)).2

theorem mem_of_cachedFor {α : Type} {me : Nat} {slots : List (Nat × α)} {a : α}
    (h : cachedFor me slots = some a) : (me, a) ∈ slots := by
  obtain ⟨slot, hfind, rfl⟩ := Option.map_eq_some_iff.mp h
  have hme : slot.1 = me := by simpa using List.find?_some hfind
  exact hme ▸ List.mem_of_find?_eq_some hfind

/-! ## Steps -/

section Steps

variable {me : Nat} {env : ConfigEnv} {p : ConfigPlane}

/-- An emptied slot is as good as any. -/
theorem Coherent.invalidate (h : Coherent live me p) :
    Coherent live me { p with cache := invalidateEngine me p.cache } :=
  ⟨h.returned, fun _ hscan => absurd hscan not_mem_invalidateEngine⟩

theorem lookupStep_coherent (h : Coherent live me p) {goal : Goal} (hgoal : goal.InTime p) :
    TaskCoherent live p (p.lookupStep me goal) := by
  unfold ConfigPlane.lookupStep
  cases hcached : cachedFor me p.cache with
  | none => exact hgoal
  | some scan =>
    obtain ⟨hhonest, hseen⟩ := h.cache scan (mem_of_cachedFor hcached)
    dsimp only
    split
    · exact TaskCoherent.resume hhonest (hgoal.served hseen)
    · exact hgoal

theorem scanStep_coherent (h : Coherent live me p) {goal : Goal} (hgoal : goal.InTime p)
    (hlive : ∀ suspect ∈ env.scan.suspect.toOption, ∀ a ∈ p.store,
      env.scan.finds suspect p.store a = live a) :
    TaskCoherent live (p.scanStep env goal).1 (p.scanStep env goal).2 := by
  unfold ConfigPlane.scanStep
  dsimp only
  split
  · trivial
  · rename_i snap hscan
    -- every returned write is in the store, so a scan of the whole store saw it
    refine ⟨scan_honest hscan hlive, Goal.InTime.served (p := { p with scans := p.scans + 1 }) hgoal
      fun w hw => ?_⟩
    obtain ⟨a, e, hsound⟩ := h.returned w hw
    exact hsound.position_lt

theorem writeStep_coherent (env : ConfigEnv) (h : Coherent live me p) {req : WriteRequest} {scan : Scan}
    (hscan : Honest live p.store scan)
    (hnone : ∀ a ∈ p.store.drop scan.seen, ∀ e ∈ a.configEntry, e.key ≠ req.key)
    (hlive : ∀ node ∈ env.identity.toOption, ∀ stamp ∈ env.emit.toOption,
      live (req.row scan.snapshot node stamp.1 stamp.2) = true) :
    Coherent live me (p.writeStep env req scan).1 ∧
      TaskCoherent live (p.writeStep env req scan).1 (p.writeStep env req scan).2 ∧
      p.store <+: (p.writeStep env req scan).1.store ∧
      p.returned = (p.writeStep env req scan).1.returned := by
  unfold ConfigPlane.writeStep
  split
  · exact ⟨h, trivial, List.prefix_rfl, rfl⟩
  · rename_i node hnode
    split
    · exact ⟨h, trivial, List.prefix_rfl, rfl⟩
    · rename_i id stamp hemit
      have hlive' := hlive node (by rw [hnode]; rfl) (id, stamp) (by rw [hemit]; rfl)
      have hprefix : p.store <+: p.store ++ [req.row scan.snapshot node id stamp] :=
        List.prefix_append _ _
      -- the store grows at its end: nothing that was landed or cached is touched
      refine ⟨⟨fun w hw => ?_, fun cached hcached => ?_⟩, ?_, hprefix, rfl⟩
      · obtain ⟨a, e, hsound⟩ := h.returned w hw
        exact ⟨a, e, hsound.mono hprefix⟩
      · obtain ⟨hhonest, hseen⟩ := h.cache cached hcached
        exact ⟨hhonest.mono hprefix, hseen⟩
      · exact ⟨_, _, hscan.write_sound hnone hlive'⟩

/-- **Step.** An orderly move keeps the plane and every call coherent. -/
theorem step_coherent {c : Config ConfigPlane ConfigTask} {m : Move ConfigCall ConfigEnv}
    (h : Coherent live me c.shared) (hc : ∀ t ∈ c.tasks, TaskCoherent live c.shared t)
    (hok : Orderly live c m) :
    Coherent live me ((configServer me).step c m).shared ∧
      ∀ t ∈ ((configServer me).step c m).tasks,
        TaskCoherent live ((configServer me).step c m).shared t := by
  refine (configServer me).step_preserves h hc ?_ ?_
  · rintro call rfl
    refine ⟨h, ?_, hc⟩
    cases call with
    | snapshot => exact Nat.le_refl _
    | getConfig key => exact Nat.le_refl _
    | setConfig req =>
      simp only [configServer, ConfigCall.spawn, ConfigTask.startWrite]
      split <;> trivial
    | deleteConfig key updatedBy => trivial
  · rintro i env t rfl ht
    have htask := hc t (List.mem_of_getElem? ht)
    simp only [Orderly, ht] at hok
    -- it is enough to say what the call itself does, and that the store and the log grow
    suffices hstep : Coherent live me (t.advance me env (c.shared.tick env)).1 ∧
        TaskCoherent live (t.advance me env (c.shared.tick env)).1
          (t.advance me env (c.shared.tick env)).2 ∧
        c.shared.store <+: (t.advance me env (c.shared.tick env)).1.store ∧
        c.shared.returned <+: (t.advance me env (c.shared.tick env)).1.returned by
      exact ⟨hstep.1, hstep.2.1, fun u hu => (hc u hu).mono hstep.2.2.1 hstep.2.2.2⟩
    have h' : Coherent live me (c.shared.tick env) := ⟨h.returned, h.cache⟩
    have htask' : TaskCoherent live (c.shared.tick env) t :=
      htask.mono List.prefix_rfl List.prefix_rfl
    cases t with
    | invalidating req => exact ⟨h'.invalidate, trivial, List.prefix_rfl, List.prefix_rfl⟩
    | lookup goal =>
      exact ⟨h', lookupStep_coherent h' htask', List.prefix_rfl, List.prefix_rfl⟩
    | scanning goal =>
      exact ⟨⟨h.returned, h.cache⟩, scanStep_coherent h' htask' hok, List.prefix_rfl,
        List.prefix_rfl⟩
    | inserting goal scan =>
      -- here the condition is needed: the scan must not be overtaken
      refine ⟨⟨h.returned, fun cached hcached => ?_⟩, ?_, List.prefix_rfl, List.prefix_rfl⟩
      · obtain rfl := mem_insertSlot hcached
        exact ⟨htask.1, hok⟩
      · exact TaskCoherent.resume htask.1 (htask.2.mono List.prefix_rfl)
    | writing req scan =>
      obtain ⟨h₁, h₂, h₃, h₄⟩ := writeStep_coherent env h' htask' hok.1 hok.2
      exact ⟨h₁, h₂, h₃, h₄ ▸ List.prefix_rfl⟩
    | settling w entry =>
      -- the write returns with the engine's slot emptied
      refine ⟨⟨fun w' hw' => ?_, fun _ hcached => absurd hcached not_mem_invalidateEngine⟩, trivial,
        List.prefix_rfl, List.prefix_append _ _⟩
      rcases List.mem_append.mp hw' with hw' | hw'
      · exact h.returned w' hw'
      · rw [List.mem_singleton.mp hw']
        exact htask
    | answered goal since scan => exact ⟨h', htask', List.prefix_rfl, List.prefix_rfl⟩
    | wrote entry => exact ⟨h', trivial, List.prefix_rfl, List.prefix_rfl⟩
    | failed e => exact ⟨h', trivial, List.prefix_rfl, List.prefix_rfl⟩

end Steps

/-! ## Runs -/

/-- A coherent state's answers are not older than the writes before them. -/
theorem readsSeeWrites_of_coherent {me : Nat} {c : Config ConfigPlane ConfigTask}
    (h : Coherent live me c.shared) (hc : ∀ t ∈ c.tasks, TaskCoherent live c.shared t) :
    ReadsSeeWrites c := by
  intro t ht
  cases t with
  | answered goal since scan =>
    intro w hw _
    obtain ⟨hhonest, -, hseen⟩ := hc _ ht
    obtain ⟨a, e, hsound⟩ := h.returned w (List.mem_of_mem_take hw)
    exact hhonest.notOlder hsound (hseen w hw)
  | _ => trivial

end Standing

/-- **Run.** In an orderly run from a server that has cached nothing for the engine, a read
    that starts after a write has returned never hands out an older value of its key. -/
theorem reads_see_writes (live : Attestation → Bool) (me : Nat) (p : ConfigPlane)
    (moves : List (Move ConfigCall ConfigEnv)) (hcache : cachedFor me p.cache = none)
    (hreturned : p.returned = [])
    (hok : Guarded (configServer me).step (Orderly live) ⟨p, []⟩ moves) :
    ReadsSeeWrites (after (configServer me).step ⟨p, []⟩ moves) := by
  have hstart : Coherent live me p := by
    refine ⟨by simp [hreturned], fun scan hscan => ?_⟩
    have hfind := List.find?_eq_none.mp (Option.map_eq_none_iff.mp hcache) _ hscan
    simp at hfind
  have hinv := Guarded.invariant
    (I := fun c => Coherent live me c.shared ∧ ∀ t ∈ c.tasks, TaskCoherent live c.shared t)
    (fun c m h hm => step_coherent h.1 h.2 hm) hok ⟨hstart, by simp⟩
  exact readsSeeWrites_of_coherent hinv.1 hinv.2

/-- A store that answers every read and takes every write. -/
def Fixture.configEnv (attestationId : String) : ConfigEnv where
  wait := 1
  scan :=
    { identity := .ok "node"
      admission := .ok ()
      listing := .ok ()
      order := id
      order_perm := fun rows => List.Perm.refl rows
      retractionAdmission := true
      withdrawsReadable := true
      recantsReadable := true
      revokedExternally := fun _ => false
      suspect := .ok fun _ => false }
  identity := .ok "node"
  emit := .ok (attestationId, 0)

/-- An empty store and an empty cache. -/
def Fixture.emptyPlane : ConfigPlane where
  store := []
  cache := []
  scans := 0
  clock := 0
  returned := []

/-- A write of `mode`, all of it, by task `i`. -/
def Fixture.writeMode (i : Nat) (mode attestationId : String) : List (Move ConfigCall ConfigEnv) :=
  .arrive (.setConfig ⟨"mode", .str mode, "owner", .localScope⟩) ::
    List.replicate 6 (.advance i (Fixture.configEnv attestationId))

/-- `steps` steps of task `i`. -/
def Fixture.steps (i steps : Nat) : List (Move ConfigCall ConfigEnv) :=
  List.replicate steps (.advance i (Fixture.configEnv ""))

/-- A write; a reader that runs for `early` steps before a second write and for `late` steps
    after it; and a second reader, which starts when the second write has returned. -/
def Fixture.twoReaders (early late : Nat) : List (Move ConfigCall ConfigEnv) :=
  Fixture.writeMode 0 "server" "row-1" ++
    .arrive (.getConfig "mode") :: Fixture.steps 1 early ++
    Fixture.writeMode 2 "client" "row-2" ++ Fixture.steps 1 late ++
    .arrive (.getConfig "mode") :: Fixture.steps 3 3

/-- The first reader caches its scan before the second write invalidates the cache. -/
theorem reads_see_writes_cached_early :
    (after (configServer 0).step ⟨Fixture.emptyPlane, []⟩
      (Fixture.twoReaders 3 0)).shared.returned.length = 2 ∧
    ReadsSeeWrites (after (configServer 0).step ⟨Fixture.emptyPlane, []⟩
      (Fixture.twoReaders 3 0)) :=
  ⟨by decide +kernel, reads_see_writes (fun _ => true) 0 Fixture.emptyPlane _ rfl rfl
    (by decide +kernel)⟩

/-- The first reader scans before the second write and caches its scan after it: the second
    reader is handed the value from before the write. -/
theorem scan_in_flight_serves_stale :
    ¬ ReadsSeeWrites (after (configServer 0).step ⟨Fixture.emptyPlane, []⟩
      (Fixture.twoReaders 2 1)) := by
  decide +kernel

end CirisServer
