import CirisServer.ForStd.List
import CirisServer.Native.GraphConfig

/-!
# What a scan of the config plane finds

A scan holds every row that is not retracted, and for each key the newest row of the key's own
leaf, retracted or not. From these two a write computes its version and the row it follows.

Key results:
- `scan_faithful`: what a successful scan holds
- `Faithful.entry_newest`, `Faithful.entry_previous`: the version and the predecessor a write
  computes from it
- `Faithful.resolves`: the row a key resolves to in it
-/

namespace CirisServer

/-! ## Rows of a key -/

/-- The row carries this entry, on the key's own leaf. -/
def Attestation.OnLeaf (a : Attestation) (e : ConfigEntry) : Prop :=
  a.dimension = some (configDimension e.key)

instance (a : Attestation) (e : ConfigEntry) : Decidable (a.OnLeaf e) :=
  inferInstanceAs (Decidable (a.dimension = some (configDimension e.key)))

/-- No retraction among the rows names this row. -/
def Unretracted (rows : List Attestation) (attestationId : String) : Prop :=
  ∀ r ∈ rows, r.retracts = true →
    r.attestedKeyId ≠ attestationId ∧ attestationId ∉ r.subjectKeyIds

/-- `h` is a newest row of the key's leaf. -/
structure IsHead (rows : List Attestation) (key : String) (h : ChainHead) : Prop where
  row : ∃ a ∈ rows, ∃ e, a.configEntry = some e ∧ e.key = key ∧ a.OnLeaf e ∧
    a.attestationId = h.attestationId ∧ e.version = h.version
  newest : ∀ a ∈ rows, ∀ e, a.configEntry = some e → e.key = key → a.OnLeaf e →
    e.version ≤ h.version

/-- The key's leaf has no row yet. -/
def LeafClosed (rows : List Attestation) (key : String) : Prop :=
  ∀ a ∈ rows, ∀ e ∈ a.configEntry, e.key = key → ¬ a.OnLeaf e

instance (rows : List Attestation) (key : String) : Decidable (LeafClosed rows key) :=
  inferInstanceAs (Decidable (∀ a ∈ rows, ∀ e ∈ a.configEntry, e.key = key → ¬ a.OnLeaf e))

/-- The heads are those of the rows. -/
structure HeadsOf (rows : List Attestation) (heads : ChainHeads) : Prop where
  isHead : ∀ key h, heads.lookup key = some h → IsHead rows key h
  leafClosed : ∀ key, heads.lookup key = none → LeafClosed rows key

/-! ## The heads fold -/

theorem headsOf_nil : HeadsOf [] ∅ where
  isHead key h hlookup := by simp at hlookup
  leafClosed key _ := fun _ ha => nomatch ha

/-- A row that is no newer than the head, or on no leaf of its own, changes no head. -/
theorem HeadsOf.skip {rows : List Attestation} {heads : ChainHeads} (h : HeadsOf rows heads)
    {a : Attestation}
    (ha : ∀ e, a.configEntry = some e → a.OnLeaf e →
      ∃ head, heads.lookup e.key = some head ∧ e.version ≤ head.version) :
    HeadsOf (rows ++ [a]) heads := by
  constructor
  · intro key head hlookup
    obtain ⟨hrow, hnewest⟩ := h.isHead key head hlookup
    refine ⟨?_, forall_mem_append_singleton hnewest ?_⟩
    · obtain ⟨b, hb, hrest⟩ := hrow
      exact ⟨b, List.mem_append_left _ hb, hrest⟩
    · rintro e he rfl hleaf
      obtain ⟨head', hlookup', hle⟩ := ha e he hleaf
      rw [hlookup] at hlookup'
      rw [Option.some.inj hlookup']
      exact hle
  · intro key hlookup
    apply forall_mem_append_singleton (h.leafClosed key hlookup)
    rintro e he rfl hleaf
    obtain ⟨head, hlookup', -⟩ := ha e he hleaf
    rw [hlookup] at hlookup'
    cases hlookup'

/-- A row newer than its leaf's head is the new head. -/
theorem HeadsOf.insert {rows : List Attestation} {heads : ChainHeads} (h : HeadsOf rows heads)
    {a : Attestation} {e : ConfigEntry} (he : a.configEntry = some e) (hleaf : a.OnLeaf e)
    (hnewer : ∀ head, heads.lookup e.key = some head → head.version ≤ e.version) :
    HeadsOf (rows ++ [a]) (heads.insert e.key ⟨a.attestationId, e.version, a.assertedAt⟩) := by
  constructor
  · intro key head hlookup
    by_cases hkey : key = e.key
    · subst hkey
      rw [AList.lookup_insert, Option.some.injEq] at hlookup
      subst hlookup
      refine ⟨⟨a, by simp, e, he, rfl, hleaf, rfl, rfl⟩, forall_mem_append_singleton ?_ ?_⟩
      · intro b hb e' he' hkey hleaf'
        show e'.version ≤ e.version
        cases hold : heads.lookup e.key with
        | none => exact absurd hleaf' (h.leafClosed _ hold b hb e' he' hkey)
        | some head =>
          exact Nat.le_trans ((h.isHead _ head hold).newest b hb e' he' hkey hleaf')
            (hnewer head hold)
      · intro e' he' _ _
        rw [he, Option.some.injEq] at he'
        rw [he']
    · rw [AList.lookup_insert_ne hkey] at hlookup
      obtain ⟨hrow, hnewest⟩ := h.isHead key head hlookup
      refine ⟨?_, forall_mem_append_singleton hnewest ?_⟩
      · obtain ⟨b, hb, hrest⟩ := hrow
        exact ⟨b, List.mem_append_left _ hb, hrest⟩
      · intro e' he' hkey' _
        rw [he, Option.some.injEq] at he'
        exact absurd (he' ▸ hkey').symm hkey
  · intro key hlookup
    by_cases hkey : key = e.key
    · rw [hkey, AList.lookup_insert] at hlookup
      cases hlookup
    · rw [AList.lookup_insert_ne hkey] at hlookup
      apply forall_mem_append_singleton (h.leafClosed key hlookup)
      intro e' he' hkey' _
      rw [he, Option.mem_some_iff] at he'
      exact hkey (he' ▸ hkey').symm

/-- One row of the fold. -/
theorem HeadsOf.foldHead {rows : List Attestation} {heads : ChainHeads} (h : HeadsOf rows heads)
    {a : Attestation} {e : ConfigEntry} (he : a.configEntry = some e) :
    HeadsOf (rows ++ [a]) (foldHead heads a e) := by
  have hentry {e' : ConfigEntry} (he' : a.configEntry = some e') : e' = e :=
    Option.some.inj (he'.symm.trans he)
  unfold CirisServer.foldHead
  by_cases hleaf : a.dimension = some (configDimension e.key)
  · by_cases hnewer : isNewer heads e a.assertedAt = true
    · rw [if_pos ⟨hleaf, hnewer⟩]
      apply h.insert he hleaf
      intro head hlookup
      simp only [isNewer, hlookup, decide_eq_true_eq] at hnewer
      exact le_of_toLex_le (Std.le_of_lt hnewer)
    · rw [if_neg fun hboth => hnewer hboth.2]
      apply h.skip
      intro e' he' _
      rw [hentry he']
      cases hlookup : heads.lookup e.key with
      | none => simp [isNewer, hlookup] at hnewer
      | some head =>
        simp only [isNewer, hlookup, decide_eq_true_eq, not_lt] at hnewer
        exact ⟨head, rfl, le_of_toLex_le hnewer⟩
  · rw [if_neg fun hboth => hleaf hboth.1]
    apply h.skip
    intro e' he' hleaf'
    rw [hentry he'] at hleaf'
    exact absurd hleaf' hleaf

theorem HeadsOf.foldRow (live : Attestation → Bool) {rows : List Attestation}
    {acc : List StoredRow × ChainHeads} (h : HeadsOf rows acc.2) (a : Attestation) :
    HeadsOf (rows ++ [a]) (foldRow live acc a).2 := by
  unfold CirisServer.foldRow
  cases he : a.configEntry with
  | none =>
    apply h.skip
    intro e he'
    rw [he] at he'
    cases he'
  | some e =>
    dsimp only
    split
    · exact h.foldHead he
    · exact h.foldHead he

/-- The fold over all rows. -/
theorem HeadsOf.foldl (live : Attestation → Bool) (items : List Attestation)
    {rows : List Attestation} {acc : List StoredRow × ChainHeads} (h : HeadsOf rows acc.2) :
    HeadsOf (rows ++ items) (items.foldl (CirisServer.foldRow live) acc).2 := by
  induction items generalizing rows acc with
  | nil => simpa using h
  | cons a items ih =>
    have hrest := ih (h.foldRow live a)
    rw [List.append_assoc] at hrest
    exact hrest

/-- Only the rows with an entry count. -/
theorem HeadsOf.congr {rows rows' : List Attestation} {heads : ChainHeads} (h : HeadsOf rows heads)
    (hmem : ∀ a, a.configEntry.isSome = true → (a ∈ rows ↔ a ∈ rows')) : HeadsOf rows' heads := by
  have hiff {a : Attestation} {e : ConfigEntry} (he : a.configEntry = some e) :
      a ∈ rows ↔ a ∈ rows' := hmem a (by rw [he]; rfl)
  constructor
  · intro key head hlookup
    obtain ⟨⟨a, ha, e, he, hrest⟩, hnewest⟩ := h.isHead key head hlookup
    refine ⟨⟨a, (hiff he).mp ha, e, he, hrest⟩, ?_⟩
    intro b hb e' he'
    exact hnewest b ((hiff he').mpr hb) e' he'
  · intro key hlookup b hb e he
    exact h.leafClosed key hlookup b ((hiff he).mpr hb) e he

/-- A scan's heads are those of the store. -/
theorem liveConfigRows_heads {env : ScanEnv} {n now : Nat} {store : List Attestation}
    {snap : ConfigSnapshot} (h : liveConfigRows env n now store = .ok snap) :
    HeadsOf store snap.heads := by
  unfold liveConfigRows at h
  obtain ⟨nodeKeyId, -, h⟩ := except_bind_ok h
  obtain ⟨_, -, h⟩ := except_bind_ok h
  obtain ⟨_, -, h⟩ := except_bind_ok h
  obtain ⟨suspect, -, h⟩ := except_bind_ok h
  obtain rfl := Except.ok.inj h
  have hstart : HeadsOf [] (([], ∅) : List StoredRow × ChainHeads).2 := headsOf_nil
  have hfold := hstart.foldl (env.finds suspect store)
    (env.order (store.filter fun a => isConfigDimension a.dimension))
  apply hfold.congr
  intro a ha
  -- a row with an entry is of the `config:` family
  have hconfig : isConfigDimension a.dimension = true := by
    unfold Attestation.configEntry at ha
    split at ha
    · rename_i hconfig
      exact hconfig.1
    · cases ha
  rw [List.nil_append, (env.order_perm _).mem_iff, List.mem_filter]
  simp [hconfig]

/-! ## The scan -/

/-- The scan doubts no row beyond what the retractions say. -/
def ScanEnv.Trusts (env : ScanEnv) (store : List Attestation) : Prop :=
  ∀ suspect, env.suspect = .ok suspect → ∀ a ∈ store,
    suspect a = false ∧ env.revokedExternally a.attestationId = false

/-- The snapshot holds the entries of its rows, every one that is not retracted, and the
    heads of the leaves. -/
structure Faithful (store : List Attestation) (scan : Scan) : Prop where
  seen_le : scan.seen ≤ store.length
  sound : ∀ r ∈ scan.snapshot.rows, ∃ a ∈ store.take scan.seen, a.storedRow = some r
  complete : ∀ a ∈ store.take scan.seen, ∀ r, a.storedRow = some r →
    Unretracted (store.take scan.seen) a.attestationId → r ∈ scan.snapshot.rows
  heads : HeadsOf (store.take scan.seen) scan.snapshot.heads

/-- What a scan takes for retracted, a row of the store retracts. -/
theorem not_mem_revokedConfigRows {env : ScanEnv} {store : List Attestation} {id : String}
    (h : Unretracted store id) : id ∉ revokedConfigRows env store := by
  have hread {readable : Bool} {kind : AttestationType} {r : Attestation}
      (hr : r ∈ env.retractions readable kind store) :
      r ∈ store ∧ r.attestationType = kind := by
    unfold ScanEnv.retractions at hr
    split at hr
    · have hmem := (env.order_perm _).mem_iff.mp (List.mem_of_mem_take hr)
      simpa using List.mem_filter.mp hmem
    · cases hr
  unfold revokedConfigRows
  split
  · intro hid
    obtain ⟨r, hr, hnames⟩ := List.mem_flatMap.mp hid
    have hstored : r ∈ store ∧ r.retracts = true := by
      rcases List.mem_append.mp hr with hr | hr
      · obtain ⟨hmem, hkind⟩ := hread hr
        exact ⟨hmem, by simp [Attestation.retracts, hkind]⟩
      · obtain ⟨hmem, hkind⟩ := hread hr
        exact ⟨hmem, by simp [Attestation.retracts, hkind]⟩
    obtain ⟨hkey, hsubjects⟩ := h r hstored.1 hstored.2
    rcases List.mem_cons.mp hnames with hnames | hnames
    · exact hkey hnames.symm
    · exact hsubjects hnames
  · exact List.not_mem_nil

/-- What a successful scan holds. -/
theorem scan_faithful {env : ScanEnv} {n now : Nat} {store : List Attestation}
    {snap : ConfigSnapshot} (h : liveConfigRows env n now store = .ok snap)
    (htrusts : env.Trusts store) : Faithful store ⟨snap, store.length⟩ := by
  obtain ⟨suspect, hsuspect, hrows⟩ := liveConfigRows_ok h
  refine ⟨Nat.le_refl _, ?_, ?_, ?_⟩
  · intro r hr
    obtain ⟨a, ha, -, hrow⟩ := (hrows r).mp hr
    exact ⟨a, by rwa [List.take_length], hrow⟩
  · intro a ha r hrow hun
    rw [List.take_length] at ha hun
    obtain ⟨hnot, hrevoked⟩ := htrusts suspect hsuspect a ha
    apply (hrows r).mpr
    refine ⟨a, ha, ?_, hrow⟩
    simp [ScanEnv.finds, hnot, hrevoked, not_mem_revokedConfigRows hun]
  · rw [List.take_length]
    exact liveConfigRows_heads h

/-! ## What a write computes -/

/-- The entry names the row of its key with the next lower version, or there is none lower. -/
def PreviousNamed (store : List Attestation) (e : ConfigEntry) : Prop :=
  match e.previousVersion with
  | some id => ∃ b ∈ store, ∃ e', b.configEntry = some e' ∧ e'.key = e.key ∧
      b.attestationId = id ∧ e'.version < e.version ∧
        ∀ c ∈ store, ∀ e'' ∈ c.configEntry, e''.key = e.key → e''.version < e.version →
          e''.version ≤ e'.version
  | none => ∀ c ∈ store, ∀ e'' ∈ c.configEntry, e''.key = e.key → ¬ e''.version < e.version

/-- No row of the key was stored since the scan. -/
def Unovertaken (store : List Attestation) (scan : Scan) (key : String) : Prop :=
  ∀ a ∈ store.drop scan.seen, ∀ e ∈ a.configEntry, e.key ≠ key

/-- A row of the key on another leaf is no newer than a row of the key's own leaf; or that leaf
    has no row yet, and it is no newer than a row the scan found live. -/
def LegacyBelow (store : List Attestation) (scan : Scan) (key : String) : Prop :=
  ∀ b ∈ store, ∀ e ∈ b.configEntry, e.key = key → ¬ b.OnLeaf e →
    (∃ a ∈ store, ∃ e' ∈ a.configEntry, e'.key = key ∧ a.OnLeaf e' ∧ e.version ≤ e'.version) ∨
      (LeafClosed store key ∧
        ∃ r ∈ scan.snapshot.rows, r.entry.key = key ∧ e.version ≤ r.entry.version)

/-- A write's version is beyond the head of its leaf. -/
theorem WriteRequest.head_lt (req : WriteRequest) (snap : ConfigSnapshot) {head : ChainHead}
    (h : snap.heads.lookup req.key = some head) : head.version < (req.entry snap).version := by
  simp only [entry, h, Option.map_some, Option.toList_some]
  rw [Nat.lt_succ_iff]
  cases latestForKey snap.rows req.key with
  | none => simp
  | some r => simp [List.max?_cons]

section Write

variable {store : List Attestation} {scan : Scan} {key : String}

theorem mem_take_of_unovertaken (hlast : Unovertaken store scan key) {a : Attestation}
    {e : ConfigEntry} (ha : a ∈ store) (he : a.configEntry = some e) (hkey : e.key = key) :
    a ∈ store.take scan.seen := by
  rw [← List.take_append_drop scan.seen store] at ha
  rcases List.mem_append.mp ha with ha | ha
  · exact ha
  · exact absurd hkey (hlast a ha e he)

/-- With the leaf open, no row of the key is newer than the head. -/
theorem Faithful.le_head (h : Faithful store scan) (hlast : Unovertaken store scan key)
    (hlegacy : LegacyBelow store scan key) {head : ChainHead}
    (hhead : scan.snapshot.heads.lookup key = some head) {b : Attestation} {e : ConfigEntry}
    (hb : b ∈ store) (he : b.configEntry = some e) (hkey : e.key = key) :
    e.version ≤ head.version := by
  have hnewest := h.heads.isHead key head hhead
  have hleafRow {a : Attestation} {e' : ConfigEntry} (ha : a ∈ store)
      (he' : a.configEntry = some e') (hkey' : e'.key = key) (hleaf : a.OnLeaf e') :
      e'.version ≤ head.version :=
    hnewest.newest a (mem_take_of_unovertaken hlast ha he' hkey') e' he' hkey' hleaf
  by_cases hleaf : b.OnLeaf e
  · exact hleafRow hb he hkey hleaf
  · rcases hlegacy b hb e he hkey hleaf with ⟨a, ha, e', he', hkey', hleaf', hle⟩ | ⟨hclosed, -⟩
    · exact Nat.le_trans hle (hleafRow ha he' hkey' hleaf')
    · obtain ⟨a, ha, e', he', hkey', hleaf', -⟩ := hnewest.row
      exact absurd hleaf' (hclosed a (List.mem_of_mem_take ha) e' he' hkey')

/-- With no row on the leaf, no row of the key is newer than all live ones. -/
theorem Faithful.le_live (h : Faithful store scan) (hlast : Unovertaken store scan key)
    (hlegacy : LegacyBelow store scan key) (hhead : scan.snapshot.heads.lookup key = none)
    {b : Attestation} {e : ConfigEntry} (hb : b ∈ store) (he : b.configEntry = some e)
    (hkey : e.key = key) : ∃ r ∈ scan.snapshot.rows, r.entry.key = key ∧
      e.version ≤ r.entry.version := by
  have hclosed := h.heads.leafClosed key hhead
  have hnot {a : Attestation} {e' : ConfigEntry} (ha : a ∈ store) (he' : a.configEntry = some e')
      (hkey' : e'.key = key) : ¬ a.OnLeaf e' :=
    hclosed a (mem_take_of_unovertaken hlast ha he' hkey') e' he' hkey'
  rcases hlegacy b hb e he hkey (hnot hb he hkey) with ⟨a, ha, e', he', hkey', hleaf', -⟩ | ⟨-, hrow⟩
  · exact absurd hleaf' (hnot ha he' hkey')
  · exact hrow

variable {req : WriteRequest}

/-- The version a write computes is beyond every row of its key. -/
theorem Faithful.entry_newest (h : Faithful store scan) (hlast : Unovertaken store scan req.key)
    (hlegacy : LegacyBelow store scan req.key) {b : Attestation} {e : ConfigEntry} (hb : b ∈ store)
    (he : b.configEntry = some e) (hkey : e.key = req.key) :
    e.version < (req.entry scan.snapshot).version := by
  cases hhead : scan.snapshot.heads.lookup req.key with
  | some head =>
    exact Nat.lt_of_le_of_lt (h.le_head hlast hlegacy hhead hb he hkey)
      (req.head_lt scan.snapshot hhead)
  | none =>
    obtain ⟨r, hr, hrkey, hle⟩ := h.le_live hlast hlegacy hhead hb he hkey
    exact Nat.lt_of_le_of_lt hle (req.version_lt scan.snapshot hr hrkey)

/-- The row a write says it follows is the newest of its key. -/
theorem Faithful.entry_previous (h : Faithful store scan) (hlast : Unovertaken store scan req.key)
    (hlegacy : LegacyBelow store scan req.key) :
    PreviousNamed store (req.entry scan.snapshot) := by
  have hnewest {b : Attestation} {e : ConfigEntry} (hb : b ∈ store) (he : b.configEntry = some e)
      (hkey : e.key = req.key) : e.version < (req.entry scan.snapshot).version :=
    h.entry_newest hlast hlegacy hb he hkey
  cases hhead : scan.snapshot.heads.lookup req.key with
  | some head =>
    obtain ⟨a, ha, e, he, hkey, hleaf, hid, hversion⟩ := (h.heads.isHead _ _ hhead).row
    have hprevious : (req.entry scan.snapshot).previousVersion = some head.attestationId := by
      simp [WriteRequest.entry, hhead]
    simp only [PreviousNamed, hprevious]
    have ha := List.mem_of_mem_take ha
    refine ⟨a, ha, e, he, hkey, hid, hnewest ha he hkey, ?_⟩
    intro c hc e' he' hkey' _
    rw [hversion]
    exact h.le_head hlast hlegacy hhead hc he' hkey'
  | none =>
    cases hlatest : latestForKey scan.snapshot.rows req.key with
    | some r =>
      obtain ⟨hr, hrkey, hmax⟩ := latestForKey_spec hlatest
      obtain ⟨a, ha, hrow⟩ := h.sound r hr
      obtain ⟨e, he, rfl⟩ := Option.map_eq_some_iff.mp hrow
      have hprevious : (req.entry scan.snapshot).previousVersion = some a.attestationId := by
        simp [WriteRequest.entry, hhead, hlatest]
      simp only [PreviousNamed, hprevious]
      have ha := List.mem_of_mem_take ha
      refine ⟨a, ha, e, he, hrkey, rfl, hnewest ha he hrkey, ?_⟩
      intro c hc e' he' hkey' _
      obtain ⟨r', hr', hrkey', hle⟩ := h.le_live hlast hlegacy hhead hc he' hkey'
      exact Nat.le_trans hle (hmax r' hr' hrkey')
    | none =>
      have hprevious : (req.entry scan.snapshot).previousVersion = none := by
        simp [WriteRequest.entry, hhead, hlatest]
      simp only [PreviousNamed, hprevious]
      intro c hc e' he' hkey' _
      obtain ⟨r, hr, hrkey, -⟩ := h.le_live hlast hlegacy hhead hc he' hkey'
      obtain ⟨r', hsome⟩ := latestForKey_isSome hr hrkey
      rw [hlatest] at hsome
      cases hsome

end Write

/-- A key resolves to its last row, if that is newer than the ones before it and not retracted. -/
theorem Faithful.resolves {store : List Attestation} {scan : Scan} (h : Faithful store scan)
    {position : Nat} {a : Attestation} {e : ConfigEntry} (hstored : store[position]? = some a)
    (he : a.configEntry = some e) (hseen : position < scan.seen)
    (hun : Unretracted store a.attestationId)
    (hbefore : ∀ b ∈ store.take position, ∀ e' ∈ b.configEntry, e'.key = e.key →
      e'.version < e.version)
    (hafter : ∀ b ∈ store.drop (position + 1), ∀ e' ∈ b.configEntry, e'.key ≠ e.key) :
    latestForKey scan.snapshot.rows e.key = some ⟨a.attestationId, a.assertedAt, e⟩ := by
  have ha : a ∈ store.take scan.seen := by
    apply List.mem_of_getElem? (i := position)
    rw [List.getElem?_take_of_lt hseen]
    exact hstored
  have hrow : a.storedRow = some ⟨a.attestationId, a.assertedAt, e⟩ := by
    simp [Attestation.storedRow, he]
  have hmem := h.complete a ha _ hrow fun r hr => hun r (List.mem_of_mem_take hr)
  obtain ⟨r, hlatest⟩ := latestForKey_isSome hmem rfl
  obtain ⟨hr, hrkey, hmax⟩ := latestForKey_spec hlatest
  obtain ⟨b, hb, hbrow⟩ := h.sound r hr
  obtain ⟨e', he', rfl⟩ := Option.map_eq_some_iff.mp hbrow
  have hle : e.version ≤ e'.version := hmax _ hmem rfl
  -- the newest row is at the write's own place: older rows are below it, later ones not of the key
  obtain ⟨j, hj⟩ := List.mem_iff_getElem?.mp (List.mem_of_mem_take hb)
  rcases Nat.lt_trichotomy j position with hlt | heq | hgt
  · have hearlier : b ∈ store.take position := by
      apply List.mem_of_getElem? (i := j)
      rw [List.getElem?_take_of_lt hlt]
      exact hj
    have hlow := hbefore b hearlier e' he' hrkey
    omega
  · rw [heq, hstored, Option.some.injEq] at hj
    subst hj
    rw [he, Option.some.injEq] at he'
    rw [hlatest, he']
  · have hlater : b ∈ store.drop (position + 1) := by
      apply List.mem_of_getElem? (i := j - (position + 1))
      rw [List.getElem?_drop]
      rwa [Nat.add_sub_cancel' (by omega)]
    exact absurd hrkey (hafter b hlater e' he')

end CirisServer
