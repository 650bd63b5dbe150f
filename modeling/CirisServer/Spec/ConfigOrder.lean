import CirisServer.ForStd.Newest
import CirisServer.Spec.ConfigChain

/-!
# A scan whatever order the rows come in

Retractions are read one page for each kind, and a page that cannot be read counts as
empty; among rows of a key with equal version and instant the last one read wins, and
among those of a leaf the first one read is the head. So there are stores for which a
retracted row stays live, or a value depends on the order of the rows. This module says
which.

Key results:
- `latestForKey_eq_slot`, `foldl_heads`: both folds as slots that keep the newest entry
- `sees_iff`: the retractions a scan learns of in every order of the rows
- `resolution_settled_iff`: the scans that hold no retracted row and resolve every key the
  same in every order
-/

namespace CirisServer

open Newest

/-! ## The two folds, and the listing -/

/-- How new a row is. -/
def rank (version : Nat) (assertedAt : Int) : ℕ ×ₗ ℤ := toLex (version, assertedAt)

def StoredRow.ranked (r : StoredRow) : (ℕ ×ₗ ℤ) × StoredRow := (rank r.entry.version r.assertedAt, r)

/-- The rows of one key, by rank. -/
def rankedRows (rows : List StoredRow) (key : String) : List ((ℕ ×ₗ ℤ) × StoredRow) :=
  (rows.filter fun r => r.entry.key = key).map StoredRow.ranked

/-- A slot that is offered the rows in their order holds the newest row of the key. -/
theorem latestForKey_eq_slot (rows : List StoredRow) (key : String) :
    latestForKey rows key = (Newest.slot (rankedRows rows key)).map Prod.snd := by
  unfold latestForKey rankedRows
  generalize rows.filter (fun r => r.entry.key = key) = rows
  induction rows using List.reverseRecOn with
  | nil => rfl
  | append_singleton rows r ih =>
    rw [List.reverse_append, List.reverse_singleton, List.singleton_append, List.maxOn?_cons, ih,
      List.map_append, List.map_singleton, slot_append_singleton]
    cases hslot : Newest.slot (rows.map StoredRow.ranked) with
    | none => rfl
    | some held =>
      obtain ⟨held, hmem, rfl⟩ := List.mem_map.mp (slot_newest hslot).1
      rw [Option.map_some, Option.elim_some]
      by_cases hle : held.ranked.1 ≤ r.ranked.1
      · rw [write_of_le hle]
        exact congrArg some (maxOn_eq_left hle)
      · rw [write_of_lt (lt_of_not_ge hle)]
        exact congrArg some (maxOn_eq_right hle)

/-- What an own-leaf row of the key offers as its head. -/
def leafEntry (key : String) (a : Attestation) : Option ((ℕ ×ₗ ℤ) × ChainHead) :=
  a.configEntry.bind fun e =>
    if e.key = key ∧ a.OnLeaf e then
      some (rank e.version a.assertedAt, ⟨a.attestationId, e.version, a.assertedAt⟩)
    else none

theorem leafEntry_some {key : String} {a : Attestation} {x : (ℕ ×ₗ ℤ) × ChainHead}
    (h : leafEntry key a = some x) :
    ∃ e, a.configEntry = some e ∧ e.key = key ∧ a.OnLeaf e ∧
      x = (rank e.version a.assertedAt, ⟨a.attestationId, e.version, a.assertedAt⟩) := by
  obtain ⟨e, he, hx⟩ := Option.bind_eq_some_iff.mp h
  split at hx
  · rename_i hleaf
    exact ⟨e, he, hleaf.1, hleaf.2, (Option.some.inj hx).symm⟩
  · cases hx

theorem leafEntry_of_onLeaf {key : String} {a : Attestation} {e : ConfigEntry}
    (he : a.configEntry = some e) (hkey : e.key = key) (hleaf : a.OnLeaf e) :
    leafEntry key a =
      some (rank e.version a.assertedAt, ⟨a.attestationId, e.version, a.assertedAt⟩) := by
  rw [leafEntry, he, Option.bind_some, if_pos ⟨hkey, hleaf⟩]

/-- The heads after one more row, live or not. -/
theorem foldRow_heads (live : Attestation → Bool) (acc : List StoredRow × ChainHeads)
    (a : Attestation) :
    (foldRow live acc a).2 = a.configEntry.elim acc.2 fun e => foldHead acc.2 a e := by
  unfold foldRow
  cases a.configEntry with
  | none => rfl
  | some e =>
    dsimp only [Option.elim_some]
    split <;> rfl

/-- A row that is none of the key's own leaf leaves its head alone. -/
theorem lookup_foldHead_of_none {heads : ChainHeads} {a : Attestation} {e : ConfigEntry}
    {key : String} (he : a.configEntry = some e) (h : leafEntry key a = none) :
    (foldHead heads a e).lookup key = heads.lookup key := by
  unfold foldHead
  split
  · rename_i hleaf
    apply AList.lookup_insert_ne
    intro hkey
    rw [leafEntry_of_onLeaf he hkey.symm hleaf.1] at h
    cases h
  · rfl

/-- The heads are what slots hold that are offered the own-leaf rows last first. -/
theorem foldl_heads (live : Attestation → Bool) (items : List Attestation) (key : String) :
    (items.foldl (foldRow live) ([], ∅)).2.lookup key =
      (Newest.slot (items.filterMap (leafEntry key)).reverse).map Prod.snd := by
  induction items using List.reverseRecOn with
  | nil => rfl
  | append_singleton items a ih =>
    rw [List.foldl_append, List.foldl_cons, List.foldl_nil, foldRow_heads, List.filterMap_append,
      List.reverse_append]
    generalize (items.foldl (foldRow live) ([], ∅)).2 = heads at ih
    cases hleaf : leafEntry key a with
    | none =>
      have hsame : (a.configEntry.elim heads fun e => foldHead heads a e).lookup key =
          heads.lookup key := by
        cases he : a.configEntry with
        | none => rfl
        | some e => exact lookup_foldHead_of_none he hleaf
      rw [hsame, ih]
      simp [hleaf]
    | some x =>
      obtain ⟨e, he, rfl, honleaf, rfl⟩ := leafEntry_some hleaf
      rw [he, Option.elim_some, List.filterMap_cons_some hleaf, List.filterMap_nil,
        List.reverse_singleton, List.singleton_append, slot_cons]
      unfold foldHead isNewer
      rw [ih]
      cases hslot : Newest.slot (items.filterMap (leafEntry e.key)).reverse with
      | none =>
        -- the leaf's first row
        rw [if_pos ⟨honleaf, rfl⟩, AList.lookup_insert]
        rfl
      | some held =>
        have hmem := List.mem_reverse.mp (slot_newest hslot).1
        obtain ⟨b, -, hb⟩ := List.mem_filterMap.mp hmem
        obtain ⟨e', -, -, -, rfl⟩ := leafEntry_some hb
        rw [hslot] at ih
        rw [Option.map_some, Option.elim_some]
        by_cases hle : rank e.version a.assertedAt ≤ rank e'.version b.assertedAt
        · have hnot : ¬ toLex (e'.version, b.assertedAt) < toLex (e.version, a.assertedAt) :=
            not_lt_of_ge hle
          rw [if_neg (by simpa using fun _ => hnot), if_pos hle]
          exact ih
        · have hnewer : toLex (e'.version, b.assertedAt) < toLex (e.version, a.assertedAt) :=
            lt_of_not_ge hle
          rw [if_pos ⟨honleaf, decide_eq_true hnewer⟩, if_neg hle, AList.lookup_insert]
          rfl

/-- The key has the prefix the listing is under. -/
def Under (under : Option String) (key : String) : Prop :=
  (under.all fun p => p.toList.isPrefixOf key.toList) = true

instance (under : Option String) (key : String) : Decidable (Under under key) :=
  inferInstanceAs (Decidable (_ = true))

/-- What `get` answers is the newest row of the key. -/
theorem ConfigSnapshot.get_of_latest {snap : ConfigSnapshot} {key : String} {r : StoredRow}
    (h : latestForKey snap.rows key = some r) :
    snap.get key = if r.entry.value = .null then none else some r.entry := by
  rw [get, h, Option.filter_some]
  by_cases hnull : r.entry.value = .null <;> simp [hnull]

theorem ConfigSnapshot.get_of_none {snap : ConfigSnapshot} {key : String}
    (h : latestForKey snap.rows key = none) : snap.get key = none := by
  rw [get, h]
  rfl

/-- One row fills in its own key, and no other. -/
theorem ConfigSnapshot.lookup_listRow {snap : ConfigSnapshot} {under : Option String}
    {out : AList fun _ : String => ConfigEntry} {r : StoredRow}
    (hout : ∀ key ∈ out, Under under key ∧ out.lookup key = snap.get key) (key : String) :
    (snap.listRow under out r).lookup key =
      if key = r.entry.key ∧ Under under key then snap.get key else out.lookup key := by
  unfold listRow
  by_cases hunder : Under under r.entry.key
  · have hgo : (!under.all fun p => p.toList.isPrefixOf r.entry.key.toList) = false := by
      rw [show (under.all fun p => p.toList.isPrefixOf r.entry.key.toList) = true from hunder]
      rfl
    rw [hgo, if_neg Bool.false_ne_true]
    by_cases hmem : r.entry.key ∈ out
    · rw [if_pos hmem]
      split
      · rename_i hkey
        rw [hkey.1]
        exact (hout _ hmem).2
      · rfl
    · rw [if_neg hmem]
      have hnone : out.lookup r.entry.key = none := AList.lookup_eq_none.mpr hmem
      cases hlatest : latestForKey snap.rows r.entry.key with
      | none =>
        have hget := ConfigSnapshot.get_of_none hlatest
        by_cases hkey : key = r.entry.key
        · rw [hkey, hnone, hget, ite_self]
        · rw [if_neg fun h => hkey h.1]
      | some latest =>
        have hget := ConfigSnapshot.get_of_latest hlatest
        have hown : latest.entry.key = r.entry.key := (latestForKey_spec hlatest).2.1
        by_cases hnull : latest.entry.value = .null
        · -- a tombstone is left out, and `get` answers nothing for it
          rw [if_pos hnull] at hget
          simp only [if_pos hnull]
          by_cases hkey : key = r.entry.key
          · rw [hkey, hnone, hget, ite_self]
          · rw [if_neg fun h => hkey h.1]
        · rw [if_neg hnull] at hget
          simp only [if_neg hnull]
          by_cases hkey : key = r.entry.key
          · rw [hkey, if_pos ⟨rfl, hunder⟩, hget, ← hown, AList.lookup_insert]
          · rw [if_neg fun h => hkey h.1, AList.lookup_insert_ne (hown ▸ hkey)]
  · have hskip : (!under.all fun p => p.toList.isPrefixOf r.entry.key.toList) = true := by
      simpa [Under] using hunder
    rw [hskip, if_pos rfl, if_neg]
    intro h
    exact hunder (h.1 ▸ h.2)

/-- What `list` holds under a key is what `get` answers, if the key has the prefix. -/
theorem ConfigSnapshot.lookup_list (snap : ConfigSnapshot) (under : Option String)
    (key : String) :
    (snap.list under).lookup key = if Under under key then snap.get key else none := by
  -- after some of the rows, the keys of these rows are filled in
  have hloop : ∀ rows : List StoredRow, ∀ key,
      (rows.foldl (snap.listRow under) ∅).lookup key =
        if (∃ r ∈ rows, r.entry.key = key) ∧ Under under key then snap.get key else none := by
    intro rows
    induction rows using List.reverseRecOn with
    | nil =>
      intro key
      simp
    | append_singleton rows r ih =>
      intro key
      rw [List.foldl_append, List.foldl_cons, List.foldl_nil, lookup_listRow, ih]
      · by_cases hkey : r.entry.key = key
        · by_cases hunder : Under under key <;> simp [hkey, hunder]
        · have hkey' : ¬ key = r.entry.key := fun h => hkey h.symm
          simp [hkey, hkey']
      · intro key hmem
        obtain ⟨e, he⟩ := Option.isSome_iff_exists.mp (AList.lookup_isSome.mpr hmem)
        rw [ih] at he
        split at he
        · rename_i h
          exact ⟨h.2, (ih key).trans (if_pos h)⟩
        · cases he
  unfold list
  rw [hloop]
  cases hlatest : latestForKey snap.rows key with
  | none =>
    rw [snap.get_of_none hlatest, ite_self, ite_self]
  | some r =>
    obtain ⟨hr, hkey, -⟩ := latestForKey_spec hlatest
    have hex : ∃ r ∈ snap.rows, r.entry.key = key := ⟨r, hr, hkey⟩
    simp only [hex, true_and]

/-! ## The scan in another order -/

/-- The same answers, with the rows in another order. -/
def ScanEnv.reordered (env : ScanEnv) (order : List Attestation → List Attestation)
    (h : ∀ rows, (order rows).Perm rows) : ScanEnv :=
  { env with order, order_perm := h }

/-- Nothing but a retraction keeps the row from being live. -/
def ScanEnv.Stands (env : ScanEnv) (suspect : Attestation → Bool) (a : Attestation) : Prop :=
  env.revokedExternally a.attestationId = false ∧ suspect a = false

theorem ScanEnv.finds_iff {env : ScanEnv} {suspect : Attestation → Bool}
    {store : List Attestation} {a : Attestation} :
    env.finds suspect store a = true ↔
      a.attestationId ∉ revokedConfigRows env store ∧ env.Stands suspect a := by
  simp [ScanEnv.finds, ScanEnv.Stands, and_assoc]

/-- The reads a scan cannot do without have succeeded. -/
structure ScanEnv.Answers (env : ScanEnv) (nodeKeyId : String) (suspect : Attestation → Bool) :
    Prop where
  identity : env.identity = .ok nodeKeyId
  admission : env.admission = .ok ()
  listing : env.listing = .ok ()
  suspect : env.suspect = .ok suspect

/-- The rows of the plane, in the order they come in. -/
def ScanEnv.items (env : ScanEnv) (store : List Attestation) : List Attestation :=
  env.order (store.filter fun a => isConfigDimension a.dimension)

/-- What a scan makes of the rows. -/
def scanned (env : ScanEnv) (nodeKeyId : String) (suspect : Attestation → Bool)
    (scan now : Nat) (store : List Attestation) : ConfigSnapshot where
  nodeKeyId := nodeKeyId
  rows := ((env.items store).filter (env.finds suspect store)).filterMap Attestation.storedRow
  heads := ((env.items store).foldl (foldRow (env.finds suspect store)) ([], ∅)).2
  loadedAt := now
  scan := scan

/-- **Spec of the scan.** -/
theorem liveConfigRows_iff {env : ScanEnv} {scan now : Nat} {store : List Attestation}
    {snap : ConfigSnapshot} :
    liveConfigRows env scan now store = .ok snap ↔
      ∃ nodeKeyId suspect, env.Answers nodeKeyId suspect ∧
        snap = scanned env nodeKeyId suspect scan now store := by
  have hrows : ∀ suspect, ((env.items store).foldl (foldRow (env.finds suspect store)) ([], ∅)).1 =
      ((env.items store).filter (env.finds suspect store)).filterMap Attestation.storedRow := by
    intro suspect
    rw [foldRow_rows, List.nil_append]
  constructor
  · intro h
    unfold liveConfigRows at h
    obtain ⟨nodeKeyId, hidentity, h⟩ := except_bind_ok h
    obtain ⟨_, hadmission, h⟩ := except_bind_ok h
    obtain ⟨_, hlisting, h⟩ := except_bind_ok h
    obtain ⟨suspect, hsuspect, h⟩ := except_bind_ok h
    refine ⟨nodeKeyId, suspect, ⟨except_mapError_ok hidentity, except_mapError_ok hadmission,
      except_mapError_ok hlisting, except_mapError_ok hsuspect⟩, ?_⟩
    rw [← Except.ok.inj h, scanned, ← hrows]
    rfl
  · rintro ⟨nodeKeyId, suspect, ⟨hidentity, hadmission, hlisting, hsuspect⟩, rfl⟩
    unfold liveConfigRows
    rw [hidentity, hadmission, hlisting, hsuspect, scanned, ← hrows]
    rfl

/-! ## Retractions and their page -/

/-- The row names `id` as what it retracts. -/
def Attestation.names (a : Attestation) (id : String) : Bool :=
  a.attestedKeyId = id || a.subjectKeyIds.contains id

/-- The first page of `kind` has a row that names `id`, in whatever order the rows come. -/
def PageNames (readable : Bool) (kind : AttestationType) (store : List Attestation) (id : String) :
    Prop :=
  readable = true ∧ (∃ r ∈ store, r.attestationType = kind ∧ r.names id = true) ∧
    (store.filter fun r => !r.names id && r.attestationType = kind).length < configReadLimit

/-- The scan learns that `id` is retracted, in whatever order the rows come. -/
def ScanEnv.SeesRetraction (env : ScanEnv) (store : List Attestation) (id : String) : Prop :=
  env.retractionAdmission = true ∧
    (PageNames env.withdrawsReadable .withdraws store id ∨
      PageNames env.recantsReadable .recants store id)

theorem mem_revokedConfigRows_iff {env : ScanEnv} {store : List Attestation} {id : String} :
    id ∈ revokedConfigRows env store ↔ env.retractionAdmission = true ∧
      ((∃ r ∈ env.retractions env.withdrawsReadable .withdraws store, r.names id = true) ∨
        ∃ r ∈ env.retractions env.recantsReadable .recants store, r.names id = true) := by
  have hnames : ∀ r : Attestation, id ∈ r.attestedKeyId :: r.subjectKeyIds ↔ r.names id = true := by
    intro r
    simp only [Attestation.names, List.mem_cons, Bool.or_eq_true, decide_eq_true_eq,
      List.contains_iff_mem]
    exact or_congr_left eq_comm
  unfold revokedConfigRows
  split
  · rename_i hadmitted
    simp only [List.mem_flatMap, List.mem_append, hnames, hadmitted, true_and, or_and_right,
      exists_or]
  · rename_i hrefused
    simp [hrefused]

/-- A row on every page is on this one. -/
theorem PageNames.on_page {env : ScanEnv} {readable : Bool} {kind : AttestationType}
    {store : List Attestation} {id : String} (h : PageNames readable kind store id) :
    ∃ r ∈ env.retractions readable kind store, r.names id = true := by
  obtain ⟨hread, ⟨r, hr, hkind, hname⟩, hfew⟩ := h
  unfold ScanEnv.retractions
  rw [if_pos hread]
  apply List.exists_mem_take_of_perm (env.order_perm _)
  · exact ⟨r, List.mem_filter.mpr ⟨hr, by simpa using hkind⟩, hname⟩
  · rwa [List.filter_filter]

/-- With the rows that name `id` last, it is only on a page that always has it. -/
theorem PageNames.of_last {env : ScanEnv} {readable : Bool} {kind : AttestationType}
    {store : List Attestation} {id : String}
    (horder : env.order = List.putLast fun r => r.names id)
    (h : ∃ r ∈ env.retractions readable kind store, r.names id = true) :
    PageNames readable kind store id := by
  obtain ⟨r, hr, hname⟩ := h
  unfold ScanEnv.retractions at hr
  split at hr
  · rename_i hread
    rw [horder] at hr
    have hmem := ((List.putLast_perm _ _).mem_iff.mp (List.mem_of_mem_take hr))
    refine ⟨hread, ⟨r, (List.mem_filter.mp hmem).1, by simpa using (List.mem_filter.mp hmem).2,
      hname⟩, ?_⟩
    by_contra hmany
    have hnone := List.forall_mem_take_putLast (p := fun r : Attestation => r.names id)
      (l := store.filter fun a => a.attestationType = kind) (n := configReadLimit)
      (Or.inr (by rw [List.filter_filter]; exact Nat.le_of_not_lt hmany)) r hr
    rw [hname] at hnone
    cases hnone
  · cases hr

/-- A scan learns of a retraction in every order exactly when the pages always have it. -/
theorem sees_iff (env : ScanEnv) (store : List Attestation) (id : String) :
    (∀ order h, id ∈ revokedConfigRows (env.reordered order h) store) ↔
      env.SeesRetraction store id := by
  constructor
  · intro h
    obtain ⟨hadmitted, hpage⟩ := mem_revokedConfigRows_iff.mp
      (h (List.putLast fun r => r.names id) (List.putLast_perm _))
    refine ⟨hadmitted, ?_⟩
    rcases hpage with hpage | hpage
    · exact Or.inl (PageNames.of_last rfl hpage)
    · exact Or.inr (PageNames.of_last rfl hpage)
  · rintro ⟨hadmitted, hpage⟩ order h
    refine mem_revokedConfigRows_iff.mpr ⟨hadmitted, ?_⟩
    rcases hpage with hpage | hpage
    · exact Or.inl hpage.on_page
    · exact Or.inr hpage.on_page

/-! ## The rows a key resolves among -/

section Rows

variable (env : ScanEnv) (suspect : Attestation → Bool) (store : List Attestation) (key : String)

/-- A row of the key that nothing takes out of the plane. -/
structure LiveRow (a : Attestation) (e : ConfigEntry) : Prop where
  stored : a ∈ store
  entry : a.configEntry = some e
  key_eq : e.key = key
  unretracted : Unretracted store a.attestationId
  stands : env.Stands suspect a

/-- No live row of the key is newer. -/
def NewestLive (a : Attestation) (e : ConfigEntry) : Prop :=
  LiveRow env suspect store key a e ∧ ∀ b e', LiveRow env suspect store key b e' →
    rank e'.version b.assertedAt ≤ rank e.version a.assertedAt

/-- A row of the key's own leaf, retracted or not. -/
structure LeafRow (a : Attestation) (e : ConfigEntry) : Prop where
  stored : a ∈ store
  entry : a.configEntry = some e
  key_eq : e.key = key
  onLeaf : a.OnLeaf e

/-- No row of the leaf is newer. -/
def NewestLeaf (a : Attestation) (e : ConfigEntry) : Prop :=
  LeafRow store key a e ∧ ∀ b e', LeafRow store key b e' →
    rank e'.version b.assertedAt ≤ rank e.version a.assertedAt

end Rows

/-- What a read of the key shows of an entry: nothing of a tombstone. -/
def ConfigEntry.shown (e : ConfigEntry) : Option ConfigEntry :=
  if e.value = .null then none else some e

/-- Every retraction of a row that would be live is on a page of its kind in whatever
    order the rows come; the newest live rows of a key show the same; and the newest rows
    of a leaf are one row. -/
structure Settled (env : ScanEnv) (suspect : Attestation → Bool) (store : List Attestation) :
    Prop where
  seen : ∀ a ∈ store, a.configEntry.isSome = true → env.Stands suspect a →
    ¬ Unretracted store a.attestationId → env.SeesRetraction store a.attestationId
  values : ∀ key a e b e', NewestLive env suspect store key a e →
    NewestLive env suspect store key b e' → e.shown = e'.shown
  heads : ∀ key a e b e', NewestLeaf store key a e → NewestLeaf store key b e' →
    a.attestationId = b.attestationId

theorem configEntry_isConfigDimension {a : Attestation} {e : ConfigEntry}
    (h : a.configEntry = some e) : isConfigDimension a.dimension = true :=
  a.isConfigDimension_of_storedRow
    (show a.storedRow = some ⟨a.attestationId, a.assertedAt, e⟩ by simp [Attestation.storedRow, h])

theorem ScanEnv.mem_items (env : ScanEnv) {store : List Attestation} {a : Attestation}
    {e : ConfigEntry} (he : a.configEntry = some e) : a ∈ env.items store ↔ a ∈ store := by
  unfold ScanEnv.items
  rw [(env.order_perm _).mem_iff, List.mem_filter]
  simp [configEntry_isConfigDimension he]

/-- Where every retraction is seen, a row is found live exactly when it is. -/
theorem finds_iff_of_seen {env : ScanEnv} {suspect : Attestation → Bool}
    {store : List Attestation} {a : Attestation}
    (hseen : env.Stands suspect a → ¬ Unretracted store a.attestationId →
      a.attestationId ∈ revokedConfigRows env store) :
    env.finds suspect store a = true ↔
      Unretracted store a.attestationId ∧ env.Stands suspect a := by
  rw [ScanEnv.finds_iff]
  constructor
  · rintro ⟨hnot, hstands⟩
    refine ⟨?_, hstands⟩
    by_contra hretracted
    exact hnot (hseen hstands hretracted)
  · rintro ⟨hun, hstands⟩
    exact ⟨not_mem_revokedConfigRows hun, hstands⟩

section Scan

variable {env env' : ScanEnv} {nodeKeyId : String} {suspect : Attestation → Bool}
  {scan now : Nat} {store : List Attestation} {key : String}

/-- The rows of a snapshot are offered to the slot of their key. -/
theorem mem_rankedRows_iff {x : (ℕ ×ₗ ℤ) × StoredRow}
    (hfinds : ∀ a ∈ store, ∀ e, a.configEntry = some e → (env'.finds suspect store a = true ↔
      Unretracted store a.attestationId ∧ env.Stands suspect a)) :
    x ∈ rankedRows (scanned env' nodeKeyId suspect scan now store).rows key ↔
      ∃ a e, LiveRow env suspect store key a e ∧
        x = (rank e.version a.assertedAt, ⟨a.attestationId, a.assertedAt, e⟩) := by
  unfold rankedRows
  constructor
  · intro hx
    obtain ⟨r, hr, rfl⟩ := List.mem_map.mp hx
    obtain ⟨hrows, hkey⟩ := List.mem_filter.mp hr
    obtain ⟨a, ha, hrow⟩ := List.mem_filterMap.mp hrows
    obtain ⟨hitem, hlive⟩ := List.mem_filter.mp ha
    obtain ⟨e, he, rfl⟩ := Option.map_eq_some_iff.mp hrow
    have hstored := (env'.mem_items he).mp hitem
    obtain ⟨hun, hstands⟩ := (hfinds a hstored e he).mp hlive
    exact ⟨a, e, ⟨hstored, he, by simpa using hkey, hun, hstands⟩, rfl⟩
  · rintro ⟨a, e, ha, rfl⟩
    refine List.mem_map.mpr ⟨⟨a.attestationId, a.assertedAt, e⟩, List.mem_filter.mpr ⟨?_, ?_⟩, rfl⟩
    · refine List.mem_filterMap.mpr ⟨a, List.mem_filter.mpr ⟨?_, ?_⟩, ?_⟩
      · exact (env'.mem_items ha.entry).mpr ha.stored
      · exact (hfinds a ha.stored e ha.entry).mpr ⟨ha.unretracted, ha.stands⟩
      · simp [Attestation.storedRow, ha.entry]
    · simpa using ha.key_eq

/-- A read of the key shows what the slot of its rows holds. -/
theorem get_eq_slot (snap : ConfigSnapshot) (key : String) :
    snap.get key = ((Newest.slot (rankedRows snap.rows key)).map fun x => x.2.entry.shown).join := by
  have hlatest := latestForKey_eq_slot snap.rows key
  cases hslot : Newest.slot (rankedRows snap.rows key) with
  | none =>
    rw [hslot] at hlatest
    rw [snap.get_of_none hlatest]
    rfl
  | some x =>
    rw [hslot] at hlatest
    rw [snap.get_of_latest hlatest]
    rfl

/-- The rows of the leaf are offered to the slot of its head. -/
theorem mem_leafEntries_iff {x : (ℕ ×ₗ ℤ) × ChainHead} :
    x ∈ ((env.items store).filterMap (leafEntry key)).reverse ↔
      ∃ a e, LeafRow store key a e ∧
        x = (rank e.version a.assertedAt, ⟨a.attestationId, e.version, a.assertedAt⟩) := by
  rw [List.mem_reverse, List.mem_filterMap]
  constructor
  · rintro ⟨a, ha, hx⟩
    obtain ⟨e, he, hkey, hleaf, rfl⟩ := leafEntry_some hx
    exact ⟨a, e, ⟨(env.mem_items he).mp ha, he, hkey, hleaf⟩, rfl⟩
  · rintro ⟨a, e, ha, rfl⟩
    exact ⟨a, (env.mem_items ha.entry).mpr ha.stored,
      leafEntry_of_onLeaf ha.entry ha.key_eq ha.onLeaf⟩

end Scan

/-! ## Retracted rows -/

/-- In every order, the snapshot of a scan that succeeds holds no row that a retraction of
    the store names. -/
def KeepsRetracted (env : ScanEnv) (store : List Attestation) : Prop :=
  ∀ order h scan now snap, liveConfigRows (env.reordered order h) scan now store = .ok snap →
    ∀ r ∈ snap.rows, Unretracted store r.attestationId

/-- Two scans of one store, in two orders, resolve every key the same and hold the same heads. -/
def OrderFree (env : ScanEnv) (store : List Attestation) : Prop :=
  ∀ order h order' h' scan scan' now now' snap snap',
    liveConfigRows (env.reordered order h) scan now store = .ok snap →
    liveConfigRows (env.reordered order' h') scan' now' store = .ok snap' →
      (∀ key, snap.get key = snap'.get key) ∧
      (∀ under key, (snap.list under).lookup key = (snap'.list under).lookup key) ∧
      ∀ key, snap.heads.lookup key = snap'.heads.lookup key

section Orders

variable {env : ScanEnv} {nodeKeyId : String} {suspect : Attestation → Bool}
  {store : List Attestation}

theorem ScanEnv.Answers.reordered (hans : env.Answers nodeKeyId suspect)
    (order : List Attestation → List Attestation) (h : ∀ rows, (order rows).Perm rows) :
    (env.reordered order h).Answers nodeKeyId suspect :=
  ⟨hans.identity, hans.admission, hans.listing, hans.suspect⟩

/-- The only snapshot of a scan whose reads succeed. -/
theorem liveConfigRows_eq (hans : env.Answers nodeKeyId suspect) (scan now : Nat) :
    liveConfigRows env scan now store = .ok (scanned env nodeKeyId suspect scan now store) :=
  liveConfigRows_iff.mpr ⟨nodeKeyId, suspect, hans, rfl⟩

theorem eq_scanned (hans : env.Answers nodeKeyId suspect) {scan now : Nat} {snap : ConfigSnapshot}
    (h : liveConfigRows env scan now store = .ok snap) :
    snap = scanned env nodeKeyId suspect scan now store :=
  Except.ok.inj (h.symm.trans (liveConfigRows_eq hans scan now))

/-- A row named by a retraction stays out in every order exactly when its retractions are
    always seen. -/
theorem keepsRetracted_iff (hans : env.Answers nodeKeyId suspect) :
    KeepsRetracted env store ↔
      ∀ a ∈ store, a.configEntry.isSome = true → env.Stands suspect a →
        ¬ Unretracted store a.attestationId → env.SeesRetraction store a.attestationId := by
  constructor
  · intro hkeeps a ha hentry hstands hretracted
    apply (sees_iff env store a.attestationId).mp
    intro order h
    by_contra hunseen
    -- unseen in this order, the row is live
    obtain ⟨e, he⟩ := Option.isSome_iff_exists.mp hentry
    have hfound : (env.reordered order h).finds suspect store a = true :=
      ScanEnv.finds_iff.mpr ⟨hunseen, hstands⟩
    have hitem := ((env.reordered order h).mem_items he).mpr ha
    have hrow : (⟨a.attestationId, a.assertedAt, e⟩ : StoredRow) ∈
        (scanned (env.reordered order h) nodeKeyId suspect 0 0 store).rows := by
      refine List.mem_filterMap.mpr ⟨a, List.mem_filter.mpr ⟨hitem, hfound⟩, ?_⟩
      simp [Attestation.storedRow, he]
    exact hretracted (hkeeps order h 0 0 _ (liveConfigRows_eq (hans.reordered order h) 0 0) _ hrow)
  · intro hseen order h scan now snap hsnap r hr
    rw [eq_scanned (hans.reordered order h) hsnap] at hr
    obtain ⟨a, ha, hrow⟩ := List.mem_filterMap.mp hr
    obtain ⟨hitem, hfound⟩ := List.mem_filter.mp ha
    obtain ⟨e, he, rfl⟩ := Option.map_eq_some_iff.mp hrow
    obtain ⟨hunseen, hstands⟩ := ScanEnv.finds_iff.mp hfound
    by_contra hretracted
    have hsees := hseen a (((env.reordered order h).mem_items he).mp hitem) (by rw [he]; rfl)
      hstands hretracted
    exact hunseen ((sees_iff env store a.attestationId).mpr hsees order h)

variable (hseen : ∀ a ∈ store, a.configEntry.isSome = true → env.Stands suspect a →
  ¬ Unretracted store a.attestationId → env.SeesRetraction store a.attestationId)

include hseen

/-- Where every retraction is seen, every order finds the same rows live. -/
theorem finds_iff_live (order : List Attestation → List Attestation)
    (h : ∀ rows, (order rows).Perm rows) :
    ∀ a ∈ store, ∀ e, a.configEntry = some e →
      ((env.reordered order h).finds suspect store a = true ↔
        Unretracted store a.attestationId ∧ env.Stands suspect a) := by
  intro a ha e he
  refine finds_iff_of_seen fun hstands hretracted => ?_
  exact (sees_iff env store a.attestationId).mpr
    (hseen a ha (by rw [he]; rfl) hstands hretracted) order h

/-- With a newest live row of the key last, the key resolves to it. -/
theorem get_of_last {key : String} {a : Attestation} {e : ConfigEntry}
    (ha : NewestLive env suspect store key a e) :
    (scanned (env.reordered (List.putLast fun b => decide (b = a)) (List.putLast_perm _))
      nodeKeyId suspect 0 0 store).get key = e.shown := by
  have hfinds := finds_iff_live hseen (List.putLast fun b => decide (b = a)) (List.putLast_perm _)
  obtain ⟨hlive, hnewest⟩ := ha
  have hconfig : a ∈ store.filter fun b => isConfigDimension b.dimension :=
    List.mem_filter.mpr ⟨hlive.stored, configEntry_isConfigDimension hlive.entry⟩
  obtain ⟨pre, hitems⟩ := List.exists_putLast_eq hconfig
  have hfound := (hfinds a hlive.stored e hlive.entry).mpr ⟨hlive.unretracted, hlive.stands⟩
  generalize henv : env.reordered (List.putLast fun b => decide (b = a)) (List.putLast_perm _) =
    env' at hfinds hfound
  have hitems' : env'.items store = pre ++ [a] := by
    rw [← henv]
    exact hitems
  have hrow : a.storedRow = some ⟨a.attestationId, a.assertedAt, e⟩ := by
    simp [Attestation.storedRow, hlive.entry]
  -- the row is the last that its key's slot is offered
  obtain ⟨xs, hxs⟩ : ∃ xs, rankedRows (scanned env' nodeKeyId suspect 0 0 store).rows key =
      xs ++ [(rank e.version a.assertedAt, ⟨a.attestationId, a.assertedAt, e⟩)] := by
    refine ⟨rankedRows ((pre.filter (env'.finds suspect store)).filterMap Attestation.storedRow)
      key, ?_⟩
    unfold rankedRows
    rw [scanned, hitems', List.filter_append, List.filterMap_append, List.filter_append,
      List.map_append]
    simp [hfound, hrow, hlive.key_eq, StoredRow.ranked]
  rw [get_eq_slot, hxs, slot_append_newest]
  · rfl
  · intro x hx
    have hmem : x ∈ rankedRows (scanned env' nodeKeyId suspect 0 0 store).rows key := by
      rw [hxs]
      exact List.mem_append_left _ hx
    obtain ⟨b, e', hb, rfl⟩ := (mem_rankedRows_iff hfinds).mp hmem
    exact hnewest b e' hb

/-- Where the newest live rows of a key show the same, the key resolves the same in every
    order. -/
theorem get_eq_of_values
    (hvalues : ∀ key a e b e', NewestLive env suspect store key a e →
      NewestLive env suspect store key b e' → e.shown = e'.shown)
    {order order' : List Attestation → List Attestation} (h : ∀ rows, (order rows).Perm rows)
    (h' : ∀ rows, (order' rows).Perm rows) (scan scan' now now' : Nat) (key : String) :
    (scanned (env.reordered order h) nodeKeyId suspect scan now store).get key =
      (scanned (env.reordered order' h') nodeKeyId suspect scan' now' store).get key := by
  rw [get_eq_slot, get_eq_slot]
  have hmem : ∀ x, x ∈ rankedRows
      (scanned (env.reordered order h) nodeKeyId suspect scan now store).rows key ↔
        ∃ a e, LiveRow env suspect store key a e ∧
          x = (rank e.version a.assertedAt, ⟨a.attestationId, a.assertedAt, e⟩) :=
    fun x => mem_rankedRows_iff (finds_iff_live hseen order h)
  have hmem' : ∀ x, x ∈ rankedRows
      (scanned (env.reordered order' h') nodeKeyId suspect scan' now' store).rows key ↔
        ∃ a e, LiveRow env suspect store key a e ∧
          x = (rank e.version a.assertedAt, ⟨a.attestationId, a.assertedAt, e⟩) :=
    fun x => mem_rankedRows_iff (finds_iff_live hseen order' h')
  congr 1
  apply slot_map_eq
  · intro x
    exact (hmem x).trans (hmem' x).symm
  · -- a newest entry of the slot is a newest live row
    have hnewest : ∀ x, IsNewest x (rankedRows
        (scanned (env.reordered order h) nodeKeyId suspect scan now store).rows key) →
        ∃ a, NewestLive env suspect store key a x.2.entry := by
      rintro x ⟨hx, hmax⟩
      obtain ⟨a, e, ha, rfl⟩ := (hmem x).mp hx
      refine ⟨a, ha, ?_⟩
      intro b e' hb
      exact hmax _ ((hmem _).mpr ⟨b, e', hb, rfl⟩)
    intro x y hx hy
    obtain ⟨a, ha⟩ := hnewest x hx
    obtain ⟨b, hb⟩ := hnewest y hy
    exact hvalues key a _ b _ ha hb

omit hseen

/-- With a newest row of the leaf first, it is the head. -/
theorem head_of_first {key : String} {a : Attestation} {e : ConfigEntry}
    (ha : NewestLeaf store key a e) :
    ∃ order, ∃ h : ∀ rows, (order rows).Perm rows,
      (scanned (env.reordered order h) nodeKeyId suspect 0 0 store).heads.lookup key =
        some ⟨a.attestationId, e.version, a.assertedAt⟩ := by
  let order := fun rows : List Attestation => (rows.putLast fun b => decide (b = a)).reverse
  have hperm : ∀ rows, (order rows).Perm rows := fun rows =>
    (List.reverse_perm _).trans (List.putLast_perm _ rows)
  refine ⟨order, hperm, ?_⟩
  obtain ⟨hleaf, hnewest⟩ := ha
  have hconfig : a ∈ store.filter fun b => isConfigDimension b.dimension :=
    List.mem_filter.mpr ⟨hleaf.stored, configEntry_isConfigDimension hleaf.entry⟩
  obtain ⟨pre, hlast⟩ := List.exists_putLast_eq hconfig
  have hitems : ((env.reordered order hperm).items store).reverse = pre ++ [a] := by
    rw [← hlast]
    exact List.reverse_reverse _
  have hentries : (((env.reordered order hperm).items store).filterMap (leafEntry key)).reverse =
      pre.filterMap (leafEntry key) ++
        [(rank e.version a.assertedAt, ⟨a.attestationId, e.version, a.assertedAt⟩)] := by
    rw [← List.filterMap_reverse, hitems, List.filterMap_append, List.filterMap_cons_some
      (leafEntry_of_onLeaf hleaf.entry hleaf.key_eq hleaf.onLeaf), List.filterMap_nil]
  rw [scanned, foldl_heads, hentries, slot_append_newest]
  · rfl
  · intro x hx
    have hmem : x ∈ (((env.reordered order hperm).items store).filterMap
        (leafEntry key)).reverse := by
      rw [hentries]
      exact List.mem_append_left _ hx
    obtain ⟨b, e', hb, rfl⟩ := mem_leafEntries_iff.mp hmem
    exact hnewest b e' hb

/-- Where the newest rows of a leaf are one row, its head is the same in every order. -/
theorem head_eq_of_heads
    (hheads : ∀ key a e b e', NewestLeaf store key a e → NewestLeaf store key b e' →
      a.attestationId = b.attestationId)
    {order order' : List Attestation → List Attestation} (h : ∀ rows, (order rows).Perm rows)
    (h' : ∀ rows, (order' rows).Perm rows) (scan scan' now now' : Nat) (key : String) :
    (scanned (env.reordered order h) nodeKeyId suspect scan now store).heads.lookup key =
      (scanned (env.reordered order' h') nodeKeyId suspect scan' now' store).heads.lookup key := by
  rw [scanned, scanned, foldl_heads, foldl_heads]
  apply slot_map_eq
  · intro x
    rw [mem_leafEntries_iff, mem_leafEntries_iff]
  · rintro x y ⟨hx, hxmax⟩ ⟨hy, hymax⟩
    obtain ⟨a, e, ha, rfl⟩ := mem_leafEntries_iff.mp hx
    obtain ⟨b, e', hb, rfl⟩ := mem_leafEntries_iff.mp hy
    have hnewest : ∀ c e'', LeafRow store key c e'' →
        rank e''.version c.assertedAt ≤ rank e.version a.assertedAt :=
      fun c e'' hc => hxmax _ (mem_leafEntries_iff.mpr ⟨c, e'', hc, rfl⟩)
    have hnewest' : ∀ c e'', LeafRow store key c e'' →
        rank e''.version c.assertedAt ≤ rank e'.version b.assertedAt :=
      fun c e'' hc => hymax _ (mem_leafEntries_iff.mpr ⟨c, e'', hc, rfl⟩)
    have hid := hheads key a e b e' ⟨ha, hnewest⟩ ⟨hb, hnewest'⟩
    have hrank : rank e.version a.assertedAt = rank e'.version b.assertedAt :=
      le_antisymm (hnewest' a e ha) (hnewest b e' hb)
    obtain ⟨hversion, hinstant⟩ := Prod.mk.inj (toLex.injective hrank)
    show (⟨a.attestationId, e.version, a.assertedAt⟩ : ChainHead) =
      ⟨b.attestationId, e'.version, b.assertedAt⟩
    rw [hid, hversion, hinstant]

/-- A scan whose reads succeed holds no retracted row and resolves every key the same, in
    whatever order the rows come, exactly when the store is settled. -/
theorem resolves_iff_settled (hans : env.Answers nodeKeyId suspect) :
    KeepsRetracted env store ∧ OrderFree env store ↔ Settled env suspect store := by
  rw [keepsRetracted_iff hans]
  constructor
  · rintro ⟨hseen, hfree⟩
    refine ⟨hseen, ?_, ?_⟩
    · intro key a e b e' ha hb
      obtain ⟨hget, -, -⟩ := hfree _ (List.putLast_perm _) _ (List.putLast_perm _) 0 0 0 0 _ _
        (liveConfigRows_eq (hans.reordered (List.putLast fun b => decide (b = a)) _) 0 0)
        (liveConfigRows_eq (hans.reordered (List.putLast fun c => decide (c = b)) _) 0 0)
      exact (get_of_last hseen ha).symm.trans ((hget key).trans (get_of_last hseen hb))
    · intro key a e b e' ha hb
      have hfirst : ∃ order, ∃ h : ∀ rows, (order rows).Perm rows,
          (scanned (env.reordered order h) nodeKeyId suspect 0 0 store).heads.lookup key =
            some ⟨a.attestationId, e.version, a.assertedAt⟩ := head_of_first ha
      obtain ⟨order, h, hhead⟩ := hfirst
      have hfirst' : ∃ order, ∃ h : ∀ rows, (order rows).Perm rows,
          (scanned (env.reordered order h) nodeKeyId suspect 0 0 store).heads.lookup key =
            some ⟨b.attestationId, e'.version, b.assertedAt⟩ := head_of_first hb
      obtain ⟨order', h', hhead'⟩ := hfirst'
      obtain ⟨-, -, hheads⟩ := hfree order h order' h' 0 0 0 0 _ _
        (liveConfigRows_eq (hans.reordered order h) 0 0)
        (liveConfigRows_eq (hans.reordered order' h') 0 0)
      have hsame := hheads key
      rw [hhead, hhead', Option.some.injEq] at hsame
      exact congrArg ChainHead.attestationId hsame
  · rintro ⟨hseen, hvalues, hheads⟩
    refine ⟨hseen, ?_⟩
    intro order h order' h' scan scan' now now' snap snap' hsnap hsnap'
    rw [eq_scanned (hans.reordered order h) hsnap, eq_scanned (hans.reordered order' h') hsnap']
    have hget : ∀ key,
        (scanned (env.reordered order h) nodeKeyId suspect scan now store).get key =
          (scanned (env.reordered order' h') nodeKeyId suspect scan' now' store).get key :=
      get_eq_of_values hseen hvalues h h' scan scan' now now'
    refine ⟨hget, ?_, head_eq_of_heads hheads h h' scan scan' now now'⟩
    intro under key
    rw [ConfigSnapshot.lookup_list, ConfigSnapshot.lookup_list, hget]

end Orders

/-- Retracted config stays retracted and resolution depends on the rows alone, in whatever
    order they come, exactly when some read the scan cannot do without fails, or the store
    is settled. -/
theorem config_resolution_iff (env : ScanEnv) (store : List Attestation) :
    KeepsRetracted env store ∧ OrderFree env store ↔
      ∀ nodeKeyId suspect, env.Answers nodeKeyId suspect → Settled env suspect store := by
  constructor
  · intro h nodeKeyId suspect hans
    exact (resolves_iff_settled hans).mp h
  · intro hsettled
    by_cases hans : ∃ nodeKeyId suspect, env.Answers nodeKeyId suspect
    · obtain ⟨nodeKeyId, suspect, hans⟩ := hans
      exact (resolves_iff_settled hans).mpr (hsettled nodeKeyId suspect hans)
    · -- no scan succeeds
      have hnone : ∀ order h scan now snap,
          liveConfigRows (env.reordered order h) scan now store ≠ .ok snap := by
        intro order h scan now snap hsnap
        obtain ⟨nodeKeyId, suspect, hans', -⟩ := liveConfigRows_iff.mp hsnap
        exact hans ⟨nodeKeyId, suspect, hans'.identity, hans'.admission, hans'.listing,
          hans'.suspect⟩
      constructor
      · intro order h scan now snap hsnap
        exact absurd hsnap (hnone order h scan now snap)
      · intro order h order' h' scan scan' now now' snap snap' hsnap
        exact absurd hsnap (hnone order h scan now snap)

namespace Fixture

/-- A row of the key `mode`. -/
def modeRow (id value : String) (assertedAt : Int) : Attestation where
  attestationId := id
  attestationType := .scores
  attestedKeyId := "node"
  subjectKeyIds := ["node"]
  assertedAt := assertedAt
  attestationEnvelope := configEnvelope "node" ⟨"mode", .str value, 1, "owner", .localScope, none⟩
    none

/-- A scan that cannot read the recants. -/
def recantsLost : ScanEnv := { (configEnv "").scan with recantsReadable := false }

/-- A row of `mode`, and its recant. -/
def recantedMode : List Attestation := [modeRow "row-1" "server" 0, (recant "recant-1" "row-1").row]

/-- Two rows of `mode` with one version and one instant. -/
def tiedModes : List Attestation := [modeRow "row-1" "server" 0, modeRow "row-2" "client" 0]

end Fixture

/-- A recanted row stays live when the read of the recants fails; and of two rows with one
    version and instant the one that comes last wins. -/
theorem recanted_row_resolves :
    ((liveConfigRows Fixture.recantsLost 1 0 Fixture.recantedMode).toOption.bind
        (·.get "mode")).map (·.value) = some (.str "server") ∧
      ¬ KeepsRetracted Fixture.recantsLost Fixture.recantedMode ∧
      ¬ OrderFree (Fixture.configEnv "").scan Fixture.tiedModes := by
  refine ⟨by decide +kernel, ?_, ?_⟩
  · intro hkeeps
    have hans : Fixture.recantsLost.Answers "node" fun _ => false := ⟨rfl, rfl, rfl, rfl⟩
    have hrow : ∃ r ∈ (scanned (Fixture.recantsLost.reordered List.reverse List.reverse_perm)
        "node" (fun _ => false) 0 0 Fixture.recantedMode).rows, r.attestationId = "row-1" := by
      decide +kernel
    obtain ⟨r, hr, hid⟩ := hrow
    have hun := hkeeps List.reverse List.reverse_perm 0 0 _
      (liveConfigRows_eq (hans.reordered _ _) 0 0) r hr
    rw [hid] at hun
    obtain ⟨-, hnot⟩ := hun (Fixture.recant "recant-1" "row-1").row (by decide +kernel) rfl
    exact hnot (by decide +kernel)
  · intro hfree
    have hans : (Fixture.configEnv "").scan.Answers "node" fun _ => false := ⟨rfl, rfl, rfl, rfl⟩
    obtain ⟨hget, -, -⟩ := hfree (List.putLast fun _ => true) (List.putLast_perm _) List.reverse
      List.reverse_perm 0 0 0 0 _ _ (liveConfigRows_eq (hans.reordered _ _) 0 0)
      (liveConfigRows_eq (hans.reordered _ _) 0 0)
    have hne : (scanned ((Fixture.configEnv "").scan.reordered (List.putLast fun _ => true)
          (List.putLast_perm _)) "node" (fun _ => false) 0 0 Fixture.tiedModes).get "mode" ≠
        (scanned ((Fixture.configEnv "").scan.reordered List.reverse List.reverse_perm) "node"
          (fun _ => false) 0 0 Fixture.tiedModes).get "mode" := by
      decide +kernel
    exact hne (hget "mode")

end CirisServer
