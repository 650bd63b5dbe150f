import CirisServer.Spec.ConfigReads
import CirisServer.Spec.ConfigScan

/-!
# The version chain of a config key

A write reads the plane in one step and stores its row in a later one, so two writers may go by
the same scan and store the same version. The result holds for runs in which no row of a key is
stored between a write's scan and its own, writes of a key return in the order they were stored,
and the rows of other leaves are below the chain.

Key results:
- `step_chained`: what one move preserves
- `config_chain_linear`: versions increase, rows name their predecessors, and a key resolves to
  its last write, in every such run
-/

namespace CirisServer

open Interleave Run

/-! ## The property -/

/-- The row of a landed write. -/
structure LandedAs (store : List Attestation) (w : Landed) (a : Attestation) (e : ConfigEntry) :
    Prop where
  stored : store[w.position]? = some a
  entry : a.configEntry = some e
  key : e.key = w.key

/-- No row of the key was stored after the write's. -/
def LastOf (store : List Attestation) (w : Landed) : Prop :=
  ∀ b ∈ store.drop (w.position + 1), ∀ e ∈ b.configEntry, e.key ≠ w.key

/-- Every scan of the store, and the engine's cached snapshot, resolve the key to this row. -/
def ResolvesTo (me : Nat) (p : ConfigPlane) (key : String) (r : StoredRow) : Prop :=
  (∀ env n now snap, liveConfigRows env n now p.store = .ok snap → env.Trusts p.store →
    latestForKey snap.rows key = some r) ∧
  ∀ scan, (me, scan) ∈ p.cache → latestForKey scan.snapshot.rows key = some r

/-- The writes that have returned form one chain for each key. -/
structure LinearChain (me : Nat) (p : ConfigPlane) : Prop where
  landed : ∀ w ∈ p.returned, ∃ a e, LandedAs p.store w a e
  increasing : p.returned.Pairwise fun w w' => w.key = w'.key → ∀ a e a' e',
    LandedAs p.store w a e → LandedAs p.store w' a' e' → e.version < e'.version
  previous : ∀ w ∈ p.returned, ∀ a e, LandedAs p.store w a e → PreviousNamed p.store e
  resolves : ∀ w ∈ p.returned, ∀ a e, LandedAs p.store w a e → LastOf p.store w →
    Unretracted p.store a.attestationId →
      ResolvesTo me p w.key ⟨a.attestationId, a.assertedAt, e⟩

/-- The move meets no defect: a scan doubts no row, a scan is cached only if it saw every write
    that has returned, a row is stored only if its scan was not overtaken and no row of another
    leaf is above the chain, and a write returns after those of its key stored before it. -/
def Serial (c : Config ConfigPlane PlaneTask) : Move PlaneCall PlaneEnv → Prop
  | .arrive _ => True
  | .advance i env =>
    match c.tasks[i]? with
    | some (.config (.scanning _)) => env.config.scan.Trusts c.shared.store
    | some (.config (.inserting _ scan)) => ∀ w ∈ c.shared.returned, w.position < scan.seen
    | some (.config (.writing req scan)) =>
      Unovertaken c.shared.store scan req.key ∧ LegacyBelow c.shared.store scan req.key
    | some (.config (.settling w _)) =>
      ∀ w' ∈ c.shared.returned, w'.key = w.key → w'.position < w.position
    | _ => True

instance (env : ScanEnv) (store : List Attestation) : Decidable (env.Trusts store) :=
  match hsuspect : env.suspect with
  | .error _ => .isTrue fun _ h => nomatch hsuspect.symm.trans h
  | .ok suspect =>
    decidable_of_iff
      (∀ a ∈ store, suspect a = false ∧ env.revokedExternally a.attestationId = false)
      ⟨fun h _ hok => Except.ok.inj (hsuspect.symm.trans hok) ▸ h, fun h => h suspect hsuspect⟩

instance (store : List Attestation) (scan : Scan) (key : String) :
    Decidable (Unovertaken store scan key) :=
  inferInstanceAs (Decidable (∀ a ∈ store.drop scan.seen, ∀ e ∈ a.configEntry, e.key ≠ key))

instance (store : List Attestation) (scan : Scan) (key : String) :
    Decidable (LegacyBelow store scan key) :=
  inferInstanceAs (Decidable (∀ b ∈ store, ∀ e ∈ b.configEntry, e.key = key → ¬ b.OnLeaf e →
    (∃ a ∈ store, ∃ e' ∈ a.configEntry, e'.key = key ∧ a.OnLeaf e' ∧ e.version ≤ e'.version) ∨
      (LeafClosed store key ∧
        ∃ r ∈ scan.snapshot.rows, r.entry.key = key ∧ e.version ≤ r.entry.version)))

instance (c : Config ConfigPlane PlaneTask) (m : Move PlaneCall PlaneEnv) :
    Decidable (Serial c m) := by
  unfold Serial
  cases m with
  | arrive call => infer_instance
  | advance i env =>
    dsimp only
    split <;> infer_instance

/-! ## The invariant -/

/-- From `base` on, each row is newer than all rows of its key before it, and names the newest
    of them. -/
def Ordered (base : Nat) (store : List Attestation) : Prop :=
  ∀ i a e, base ≤ i → store[i]? = some a → a.configEntry = some e →
    (∀ b ∈ store.take i, ∀ e' ∈ b.configEntry, e'.key = e.key → e'.version < e.version) ∧
      PreviousNamed (store.take i) e

/-- What holds of the plane; `base` rows were there at the start. -/
structure Chained (base me : Nat) (p : ConfigPlane) : Prop where
  base_le : base ≤ p.store.length
  ordered : Ordered base p.store
  returned : ∀ w ∈ p.returned, base ≤ w.position ∧ ∃ a e, LandedAs p.store w a e
  inOrder : p.returned.Pairwise fun w w' => w.key = w'.key → w.position < w'.position
  cache : ∀ scan, (me, scan) ∈ p.cache →
    Faithful p.store scan ∧ ∀ w ∈ p.returned, w.position < scan.seen

/-- What holds of a call. -/
def TaskChained (base : Nat) (p : ConfigPlane) : PlaneTask → Prop
  | .config (.inserting _ scan) => Faithful p.store scan
  | .config (.writing _ scan) => Faithful p.store scan
  | .config (.settling w _) => base ≤ w.position ∧ ∃ a e, LandedAs p.store w a e
  | .put (.storing row) => row.retracts = true
  | _ => True

section Stores

variable {store store' : List Attestation}

theorem LandedAs.position_lt {w : Landed} {a : Attestation} {e : ConfigEntry}
    (h : LandedAs store w a e) : w.position < store.length :=
  (List.getElem?_eq_some_iff.mp h.stored).1

theorem LandedAs.mono {w : Landed} {a : Attestation} {e : ConfigEntry}
    (h : LandedAs store w a e) (hstore : store <+: store') : LandedAs store' w a e := by
  have hlt := h.position_lt
  obtain ⟨rest, rfl⟩ := hstore
  refine ⟨?_, h.entry, h.key⟩
  rw [List.getElem?_append_left hlt]
  exact h.stored

/-- Rows stored later change nothing for a scan. -/
theorem Faithful.mono {scan : Scan} (h : Faithful store scan) (hstore : store <+: store') :
    Faithful store' scan := by
  obtain ⟨rest, rfl⟩ := hstore
  have htake : (store ++ rest).take scan.seen = store.take scan.seen :=
    List.take_append_of_le_length h.seen_le
  refine ⟨?_, htake ▸ h.sound, htake ▸ h.complete, htake ▸ h.heads⟩
  rw [List.length_append]
  exact Nat.le_trans h.seen_le (Nat.le_add_right _ _)

theorem TaskChained.mono {base : Nat} {p p' : ConfigPlane} {t : PlaneTask}
    (h : TaskChained base p t) (hstore : p.store <+: p'.store) : TaskChained base p' t := by
  cases t with
  | put task => cases task <;> exact h
  | config task =>
    cases task with
    | inserting goal scan => exact Faithful.mono h hstore
    | writing req scan => exact Faithful.mono h hstore
    | settling w entry =>
      obtain ⟨hbase, a, e, hw⟩ := h
      exact ⟨hbase, a, e, hw.mono hstore⟩
    | _ => trivial

/-- A new row at the end. -/
theorem Ordered.snoc {base : Nat} (h : Ordered base store) {a : Attestation}
    (ha : ∀ e, a.configEntry = some e →
      (∀ b ∈ store, ∀ e' ∈ b.configEntry, e'.key = e.key → e'.version < e.version) ∧
        PreviousNamed store e) : Ordered base (store ++ [a]) := by
  intro i b e hbase hb he
  rcases Nat.lt_trichotomy i store.length with hlt | heq | hgt
  · rw [List.getElem?_append_left hlt] at hb
    rw [List.take_append_of_le_length (Nat.le_of_lt hlt)]
    exact h i b e hbase hb he
  · have hab : a = b := by simpa [heq] using hb
    rw [heq, List.take_left]
    exact ha e (hab ▸ he)
  · rw [List.getElem?_eq_none (by simp; omega)] at hb
    cases hb

/-- A row's predecessor stays its predecessor while no older version is added. -/
theorem PreviousNamed.extend {rows rest : List Attestation} {e : ConfigEntry}
    (h : PreviousNamed rows e)
    (hrest : ∀ c ∈ rest, ∀ e' ∈ c.configEntry, e'.key = e.key → e.version ≤ e'.version) :
    PreviousNamed (rows ++ rest) e := by
  unfold PreviousNamed at h ⊢
  cases hprevious : e.previousVersion with
  | none =>
    rw [hprevious] at h
    intro c hc e' he' hkey
    rcases List.mem_append.mp hc with hc | hc
    · exact h c hc e' he' hkey
    · exact Nat.not_lt.mpr (hrest c hc e' he' hkey)
  | some id =>
    rw [hprevious] at h
    obtain ⟨b, hb, e', he', hkey, hid, hlt, hnext⟩ := h
    refine ⟨b, List.mem_append_left _ hb, e', he', hkey, hid, hlt, ?_⟩
    intro c hc e'' he'' hkey' hlt'
    rcases List.mem_append.mp hc with hc | hc
    · exact hnext c hc e'' he'' hkey' hlt'
    · have hle := hrest c hc e'' he'' hkey'
      omega

/-- Rows of the key at a later place are newer. -/
theorem Ordered.version_lt {base : Nat} (h : Ordered base store) {w w' : Landed}
    {a a' : Attestation} {e e' : ConfigEntry} (hw : LandedAs store w a e)
    (hw' : LandedAs store w' a' e') (hbase : base ≤ w'.position) (hkey : w.key = w'.key)
    (hlt : w.position < w'.position) : e.version < e'.version := by
  have hearlier : a ∈ store.take w'.position := by
    apply List.mem_of_getElem? (i := w.position)
    rw [List.getElem?_take_of_lt hlt]
    exact hw.stored
  have hnewer := (h w'.position a' e' hbase hw'.stored hw'.entry).1
  exact hnewer a hearlier e hw.entry (by rw [hw.key, hw'.key, hkey])

/-- A landed write's row names its predecessor among all rows. -/
theorem Ordered.previous {base : Nat} (h : Ordered base store) {w : Landed} {a : Attestation}
    {e : ConfigEntry} (hw : LandedAs store w a e) (hbase : base ≤ w.position) :
    PreviousNamed store e := by
  have hbefore := (h w.position a e hbase hw.stored hw.entry).2
  rw [← List.take_append_drop w.position store]
  apply hbefore.extend
  intro c hc e' he' hkey
  obtain ⟨j, hj⟩ := List.mem_iff_getElem?.mp hc
  rw [List.getElem?_drop] at hj
  cases j with
  | zero =>
    -- the write's own row
    rw [Nat.add_zero, hw.stored, Option.some.injEq] at hj
    rw [← hj, Option.mem_def, hw.entry, Option.some.injEq] at he'
    rw [he']
  | succ j =>
    have hlanded : LandedAs store ⟨w.key, w.position + (j + 1)⟩ c e' :=
      ⟨hj, he', hkey.trans hw.key⟩
    exact Nat.le_of_lt (h.version_lt hw hlanded (by dsimp only; omega) rfl (by dsimp only; omega))

end Stores

/-! ## Steps -/

section Steps

variable {base me : Nat} {p : ConfigPlane}

/-- A call that goes on with a snapshot. -/
theorem TaskChained.resume {goal : Goal} {scan : Scan} (h : Faithful p.store scan) :
    TaskChained base p (.config (goal.resume scan)) := by
  cases goal with
  | read goal since => trivial
  | write req => exact h
  | delete key updatedBy =>
    simp only [Goal.resume, ConfigTask.startWrite]
    split <;> trivial

/-- An emptied slot is as good as any. -/
theorem Chained.invalidate (h : Chained base me p) :
    Chained base me { p with cache := invalidateEngine me p.cache } :=
  { h with cache := fun _ hscan => absurd hscan not_mem_invalidateEngine }

/-- A row is stored at the end. -/
theorem Chained.store (h : Chained base me p) {a : Attestation}
    (ha : ∀ e, a.configEntry = some e →
      (∀ b ∈ p.store, ∀ e' ∈ b.configEntry, e'.key = e.key → e'.version < e.version) ∧
        PreviousNamed p.store e) : Chained base me { p with store := p.store ++ [a] } := by
  have hprefix : p.store <+: p.store ++ [a] := List.prefix_append _ _
  refine ⟨?_, h.ordered.snoc ha, ?_, h.inOrder, ?_⟩
  · show base ≤ (p.store ++ [a]).length
    rw [List.length_append]
    exact Nat.le_trans h.base_le (Nat.le_add_right _ _)
  · intro w hw
    obtain ⟨hbase, b, e, hlanded⟩ := h.returned w hw
    exact ⟨hbase, b, e, hlanded.mono hprefix⟩
  · intro scan hscan
    obtain ⟨hfaithful, hseen⟩ := h.cache scan hscan
    exact ⟨hfaithful.mono hprefix, hseen⟩

theorem configEntry_of_retracts {a : Attestation} (h : a.retracts = true) :
    a.configEntry = none := by
  unfold Attestation.configEntry
  rw [if_neg]
  rintro ⟨-, hkind⟩
  simp only [Attestation.retracts, decide_eq_true_eq] at h
  rcases hkind with hkind | hkind <;> rcases h with h | h <;> rw [hkind] at h <;> cases h

/-- What one region of a call keeps, as far as the plane and the call go. -/
def PlaneKeeps (base me : Nat) (p p' : ConfigPlane) (t : PlaneTask) : Prop :=
  Chained base me p' ∧ TaskChained base p' t ∧ p.store <+: p'.store

theorem PlaneKeeps.idle (h : Chained base me p) {t : PlaneTask} (ht : TaskChained base p t) :
    PlaneKeeps base me p p t :=
  ⟨h, ht, List.prefix_rfl⟩

theorem lookupStep_chained (h : Chained base me p) (goal : Goal) :
    TaskChained base p (.config (p.lookupStep me goal)) := by
  unfold ConfigPlane.lookupStep
  cases hcached : cachedFor me p.cache with
  | none => trivial
  | some scan =>
    dsimp only
    split
    · exact TaskChained.resume (h.cache scan (mem_of_cachedFor hcached)).1
    · trivial

theorem scanStep_chained (h : Chained base me p) {env : ConfigEnv} (goal : Goal)
    (htrusts : env.scan.Trusts p.store) :
    PlaneKeeps base me p (p.scanStep env goal).1 (.config (p.scanStep env goal).2) := by
  unfold ConfigPlane.scanStep
  refine ⟨⟨h.base_le, h.ordered, h.returned, h.inOrder, h.cache⟩, ?_, List.prefix_rfl⟩
  dsimp only
  split
  · trivial
  · rename_i snap hscan
    exact scan_faithful hscan htrusts

/-- The row of a write that was not overtaken is newer than all rows of its key. -/
theorem writeStep_chained (h : Chained base me p) (env : ConfigEnv) {req : WriteRequest}
    {scan : Scan} (hscan : Faithful p.store scan) (hlast : Unovertaken p.store scan req.key)
    (hlegacy : LegacyBelow p.store scan req.key) :
    PlaneKeeps base me p (p.writeStep env req scan).1 (.config (p.writeStep env req scan).2) := by
  unfold ConfigPlane.writeStep
  split
  · exact .idle h trivial
  · rename_i node hnode
    split
    · exact .idle h trivial
    · rename_i id stamp hemit
      have hentry := req.row_configEntry scan.snapshot node id stamp
      refine ⟨h.store ?_, ⟨h.base_le, _, _, ?_, hentry, rfl⟩, List.prefix_append _ _⟩
      · intro e he
        rw [hentry, Option.some.injEq] at he
        rw [← he]
        refine ⟨?_, hscan.entry_previous hlast hlegacy⟩
        intro b hb e' he' hkey
        exact hscan.entry_newest hlast hlegacy hb he' hkey
      · simp

/-- A write returns, after those of its key stored before it. -/
theorem Chained.settle (h : Chained base me p) {w : Landed} (hbase : base ≤ w.position)
    (hw : ∃ a e, LandedAs p.store w a e)
    (hlast : ∀ w' ∈ p.returned, w'.key = w.key → w'.position < w.position) :
    Chained base me
      { p with cache := invalidateEngine me p.cache, returned := p.returned ++ [w] } := by
  refine ⟨h.base_le, h.ordered, ?_, ?_, fun _ hscan => absurd hscan not_mem_invalidateEngine⟩
  · exact forall_mem_append_singleton h.returned ⟨hbase, hw⟩
  · rw [List.pairwise_append]
    refine ⟨h.inOrder, List.pairwise_singleton _ _, ?_⟩
    intro w' hw' w'' hw'' hkey
    rw [List.mem_singleton.mp hw''] at hkey ⊢
    exact hlast w' hw' hkey

/-- **Step.** A serial move keeps the plane and every call chained. -/
theorem step_chained {c : Config ConfigPlane PlaneTask} {m : Move PlaneCall PlaneEnv}
    (hserial : Serial c m)
    (h : Chained base me c.shared ∧ ∀ t ∈ c.tasks, TaskChained base c.shared t) :
    Chained base me ((planeServer me).step c m).shared ∧
      ∀ t ∈ ((planeServer me).step c m).tasks,
        TaskChained base ((planeServer me).step c m).shared t := by
  obtain ⟨hplane, htasks⟩ := h
  apply (planeServer me).step_preserves hplane htasks
  · rintro call rfl
    cases call with
    | retract retraction => exact ⟨hplane, retraction.retracts, htasks⟩
    | config call =>
      refine ⟨hplane, ?_, htasks⟩
      cases call with
      | setConfig req =>
        simp only [planeServer, ConfigCall.spawn, ConfigTask.startWrite]
        split <;> trivial
      | _ => trivial
  · rintro i env t rfl ht
    have htask := htasks t (List.mem_of_getElem? ht)
    simp only [Serial, ht] at hserial
    -- it is enough to say what the call itself keeps
    suffices hstep : PlaneKeeps base me c.shared ((planeServer me).advance env t c.shared).1
        ((planeServer me).advance env t c.shared).2 by
      exact ⟨hstep.1, hstep.2.1, fun u hu => (htasks u hu).mono hstep.2.2⟩
    have h' : Chained base me (c.shared.tick env.config) :=
      ⟨hplane.base_le, hplane.ordered, hplane.returned, hplane.inOrder, hplane.cache⟩
    cases t with
    | put task =>
      cases task with
      | storing row =>
        have hrow : row.retracts = true := htask
        cases hadmitted : env.admitted with
        | error e =>
          simp only [planeServer, PutTask.advance, hadmitted]
          exact ⟨h', trivial, List.prefix_rfl⟩
        | ok _ =>
          simp only [planeServer, PutTask.advance, hadmitted, hrow, or_true, if_true]
          refine ⟨h'.store ?_, trivial, List.prefix_append _ _⟩
          intro e he
          rw [configEntry_of_retracts hrow] at he
          cases he
      | invalidating attestationId => exact ⟨h'.invalidate, trivial, List.prefix_rfl⟩
      | stored attestationId => exact ⟨h', trivial, List.prefix_rfl⟩
      | refused e => exact ⟨h', trivial, List.prefix_rfl⟩
    | config task =>
      cases task with
      | invalidating req => exact ⟨h'.invalidate, trivial, List.prefix_rfl⟩
      | lookup goal => exact ⟨h', lookupStep_chained h' goal, List.prefix_rfl⟩
      | scanning goal => exact scanStep_chained h' goal hserial
      | inserting goal scan =>
        have hscan : Faithful c.shared.store scan := htask
        refine ⟨{ h' with cache := ?_ }, TaskChained.resume hscan, List.prefix_rfl⟩
        intro cached hcached
        rw [mem_insertSlot hcached]
        exact ⟨hscan, hserial⟩
      | writing req scan => exact writeStep_chained h' env.config htask hserial.1 hserial.2
      | settling w entry =>
        obtain ⟨hbase, hlanded⟩ := htask
        exact ⟨h'.settle hbase hlanded hserial, trivial, List.prefix_rfl⟩
      | answered goal since scan => exact ⟨h', trivial, List.prefix_rfl⟩
      | wrote entry => exact ⟨h', trivial, List.prefix_rfl⟩
      | failed e => exact ⟨h', trivial, List.prefix_rfl⟩

end Steps

/-! ## Runs -/

/-- A chained plane's writes form one chain for each key. -/
theorem Chained.linearChain {base me : Nat} {p : ConfigPlane} (h : Chained base me p) :
    LinearChain me p := by
  refine ⟨fun w hw => (h.returned w hw).2, ?_, ?_, ?_⟩
  · -- writes return in the order of their rows
    apply h.inOrder.imp_of_mem
    intro w w' _ hw' horder hkey a e a' e' hlanded hlanded'
    exact h.ordered.version_lt hlanded hlanded' (h.returned w' hw').1 hkey (horder hkey)
  · intro w hw a e hlanded
    exact h.ordered.previous hlanded (h.returned w hw).1
  · intro w hw a e hlanded hlast hun
    obtain ⟨hbase, -⟩ := h.returned w hw
    have hbefore := (h.ordered w.position a e hbase hlanded.stored hlanded.entry).1
    have hresolves {scan : Scan} (hscan : Faithful p.store scan) (hseen : w.position < scan.seen) :
        latestForKey scan.snapshot.rows w.key = some ⟨a.attestationId, a.assertedAt, e⟩ := by
      rw [← hlanded.key]
      rw [LastOf, ← hlanded.key] at hlast
      exact hscan.resolves hlanded.stored hlanded.entry hseen hun hbefore hlast
    constructor
    · intro env n now snap hscan htrusts
      exact hresolves (scan_faithful hscan htrusts) hlanded.position_lt
    · intro scan hcached
      obtain ⟨hfaithful, hseen⟩ := h.cache scan hcached
      exact hresolves hfaithful (hseen w hw)

/-- **Run.** In a serial run from a server that has cached nothing for the engine, whatever rows
    are in the store, the writes of a key form one chain, and the key resolves to its last. -/
theorem config_chain_linear (me : Nat) (p : ConfigPlane) (moves : List (Move PlaneCall PlaneEnv))
    (hcache : cachedFor me p.cache = none) (hreturned : p.returned = [])
    (hserial : Guarded (planeServer me).step Serial ⟨p, []⟩ moves) :
    LinearChain me (after (planeServer me).step ⟨p, []⟩ moves).shared := by
  have hstart : Chained p.store.length me p := by
    refine ⟨Nat.le_refl _, ?_, by simp [hreturned], by simp [hreturned], ?_⟩
    · intro i a e hbase ha
      rw [List.getElem?_eq_none hbase] at ha
      cases ha
    · intro scan hscan
      have hfind := List.find?_eq_none.mp (Option.map_eq_none_iff.mp hcache) _ hscan
      simp at hfind
  have hchained := Guarded.invariant
    (I := fun c => Chained p.store.length me c.shared ∧
      ∀ t ∈ c.tasks, TaskChained p.store.length c.shared t)
    (fun _ _ h hm => step_chained hm h) hserial ⟨hstart, by simp⟩
  exact hchained.1.linearChain

namespace Fixture

/-- A step at which the store answers and takes what it is asked to. -/
def planeEnv (attestationId : String) : PlaneEnv := ⟨configEnv attestationId, .ok ()⟩

/-- A `set_config` of `mode`. -/
def setMode (mode : String) : Move PlaneCall PlaneEnv :=
  .arrive (.config (.setConfig ⟨"mode", .str mode, "owner", .localScope⟩))

/-- The recant of one row. -/
def recant (attestationId target : String) : Retraction where
  row :=
    { attestationId
      attestationType := .recants
      attestedKeyId := "node"
      subjectKeyIds := [target]
      assertedAt := 0
      attestationEnvelope := .obj [] }
  retracts := rfl

/-- Two writes, and the recant of the first between them. -/
def recanted : List (Move PlaneCall PlaneEnv) :=
  setMode "server" :: List.replicate 6 (.advance 0 (planeEnv "row-1")) ++
    .arrive (.retract (recant "recant-1" "row-1")) ::
      List.replicate 2 (.advance 1 (planeEnv "")) ++
    setMode "client" :: List.replicate 6 (.advance 2 (planeEnv "row-2"))

/-- A write, and then two that both read the plane before either stores its row. -/
def overlapping : List (Move PlaneCall PlaneEnv) :=
  setMode "server" :: List.replicate 6 (.advance 0 (planeEnv "row-1")) ++
    setMode "client" :: List.replicate 4 (.advance 1 (planeEnv "")) ++
    setMode "proxy" :: List.replicate 4 (.advance 2 (planeEnv "")) ++
    List.replicate 2 (.advance 1 (planeEnv "row-2")) ++
    List.replicate 2 (.advance 2 (planeEnv "row-3"))

end Fixture

/-- The theorem at a run whose first row is recanted: the second write is the second version
    all the same. -/
theorem config_chain_linear_recanted :
    (after (planeServer 0).step ⟨Fixture.emptyPlane, []⟩ Fixture.recanted).shared.store.filterMap
        (fun a => a.configEntry.map (·.version)) = [1, 2] ∧
      LinearChain 0 (after (planeServer 0).step ⟨Fixture.emptyPlane, []⟩ Fixture.recanted).shared :=
  ⟨by decide +kernel, config_chain_linear 0 Fixture.emptyPlane _ rfl rfl (by decide +kernel)⟩

/-- Two writers that went by the same scan store the same version. -/
theorem overlapping_writes_same_version :
    ¬ LinearChain 0
      (after (planeServer 0).step ⟨Fixture.emptyPlane, []⟩ Fixture.overlapping).shared := by
  intro h
  have hreturned : (after (planeServer 0).step ⟨Fixture.emptyPlane, []⟩
      Fixture.overlapping).shared.returned = [⟨"mode", 0⟩, ⟨"mode", 1⟩, ⟨"mode", 2⟩] := by
    decide +kernel
  have hversions : ∀ i ∈ [1, 2], ((after (planeServer 0).step ⟨Fixture.emptyPlane, []⟩
      Fixture.overlapping).shared.store[i]?.bind Attestation.configEntry).map (·.version) =
        some 2 := by
    decide +kernel
  have hversion {w : Landed} {a : Attestation} {e : ConfigEntry} (hw : w.position ∈ [1, 2])
      (hlanded : LandedAs (after (planeServer 0).step ⟨Fixture.emptyPlane, []⟩
        Fixture.overlapping).shared.store w a e) : e.version = 2 := by
    have hrow := hversions w.position hw
    rw [hlanded.stored, Option.bind_some, hlanded.entry] at hrow
    exact Option.some.inj hrow
  have hincreasing := h.increasing
  have hlanded := h.landed
  rw [hreturned] at hincreasing hlanded
  obtain ⟨a, e, hrow⟩ := hlanded ⟨"mode", 1⟩ (by simp)
  obtain ⟨a', e', hrow'⟩ := hlanded ⟨"mode", 2⟩ (by simp)
  have hlt := List.rel_of_pairwise_cons (List.pairwise_cons.mp hincreasing).2
    (List.mem_singleton.mpr rfl) rfl a e a' e' hrow hrow'
  rw [hversion (by simp) hrow, hversion (by simp) hrow'] at hlt
  omega

end CirisServer
