import CirisServer.ForStd.Outputs
import CirisServer.ForStd.Threads
import CirisServer.Native.ContactsChat

/-!
# A chat message and its author

A message is a thread: its first version, the author's edits of it, each naming the one before, and
the retraction that ended it. The rows of the threads lie in the directory with everybody else's, in
no order, and a reader finds the thread again from the id of any of its versions.

The author revises at one node. What edge and persist document of a revision (`Documented`), of the
row that they build (`Built`), and that the ids of rows are their own, is assumed.

Key results:
- `history_spec`: on every node that holds the author's rows, the history of a message is what its
  author did to it, in order
- `history_grows`: a history only grows, and a retraction is its end
- `revise_spec`: a revision names the last version, whichever version the request names
-/

namespace CirisServer.ContactsChat

open Run

/-- What edge and persist say of the rows that they read. -/
structure Documented (cr : Crates) : Prop where
  composes : cr.isStructuralComposer "supersedes" = true ∧
    cr.isStructuralComposer "withdraws" = true ∧ cr.isStructuralComposer "recants" = true
  /-- Who revises a row is its attester, and names it. -/
  authors : ∀ r t, cr.composerIsAuthors r t = true →
    r.attestingKeyId = t.attestingKeyId ∧ target cr r = some t.attestationId
  /-- A retraction is not a message. -/
  message : ∀ r room, (cr.fromRow r room).isSome = true →
    r.attestationType ≠ "withdraws" ∧ r.attestationType ≠ "recants"
  winner : ∀ r, cr.precedenceWinner [r] = some r
  hashOrder : ∀ keys, (cr.hashOrder keys).Perm keys

/-- A message: its first version, its edits, and the retraction that ended it. -/
structure Thread where
  root : Attestation
  edits : List Attestation := []
  retraction : Option Attestation := none
deriving DecidableEq

namespace Thread

def versions (t : Thread) : List Attestation := t.root :: t.edits

def rows (t : Thread) : List Attestation := t.versions ++ t.retraction.toList

/-- The last version. -/
def head (t : Thread) : Attestation := t.edits.getLastD t.root

def status (t : Thread) : String :=
  (t.retraction.map fun r => statusToken r.attestationType).getD "live"

/-- What the author did, in order. -/
def history (cr : Crates) (communityId : String) (projected : List ChatMessage) (t : Thread) :
    History where
  communityId := communityId
  headAttestationId := t.head.attestationId
  status := t.status
  chain := versionEntry cr projected "post" t.root ::
    t.edits.map (versionEntry cr projected "supersede") ++
    t.retraction.toList.map (retractionEntry cr)

/-- What the rows of a thread are. -/
structure Wf (cr : Crates) (t : Thread) : Prop where
  root : isRevision cr t.root = false
  edits : ∀ e ∈ t.edits, e.attestationType = "supersedes" ∧ e.cohortScope = "community" ∧
    t.root.cohortScope = "community" ∧
    ∀ room, (cr.fromRow e room).isSome = (cr.fromRow t.root room).isSome
  retraction : ∀ r ∈ t.retraction, r.attestationType = "withdraws" ∨ r.attestationType = "recants"

theorem head_mem (t : Thread) : t.head ∈ t.versions := List.getLastD_mem_cons

theorem getLast?_versions (t : Thread) : t.versions.getLast? = some t.head := by
  rw [versions, List.getLast?_cons, head, List.getLastD_eq_getLast?]

theorem rows_eq_cons (t : Thread) : t.rows = t.root :: (t.edits ++ t.retraction.toList) := rfl

end Thread

/-- `r` is the author's revision of `p`. -/
def Revises (cr : Crates) (p r : Attestation) : Prop :=
  isRevision cr r = true ∧ cr.composerIsAuthors r p = true

/-- The rows that are held of the author `a` are those of the threads. -/
structure Shows (cr : Crates) (a : String) (book : List Thread) (rows : List Attestation) :
    Prop where
  ids : (rows.map (·.attestationId)).Nodup
  mem : ∀ r, r ∈ (book.map Thread.rows).flatten ↔ r ∈ rows ∧ r.attestingKeyId = a
  threaded : Threaded (·.attestationId) (Revises cr) (book.map Thread.rows)
  wf : ∀ t ∈ book, t.Wf cr

section Walks

variable {cr : Crates} {a : String} {book : List Thread} {rows : List Attestation} {t : Thread}
  {v : Attestation} {pre post es : List Attestation}

theorem revises_key (hd : Documented cr) (p q r : Attestation) (hp : Revises cr p r)
    (hq : Revises cr q r) : p.attestationId = q.attestationId := by
  have htarget := (hd.authors r p hp.2).2.symm.trans (hd.authors r q hq.2).2
  exact Option.some.inj htarget

theorem Shows.mem_rows (h : Shows cr a book rows) (ht : t ∈ book) (hv : v ∈ t.rows) :
    v ∈ rows ∧ v.attestingKeyId = a :=
  (h.mem v).mp (List.mem_flatten_of_mem (List.mem_map_of_mem ht) hv)

theorem Shows.rowOf_eq (h : Shows cr a book rows) (hv : v ∈ rows) :
    rowOf rows v.attestationId = some v := (List.find?_key_eq_some_iff h.ids).mpr ⟨hv, rfl⟩

/-- **The author's revisions.** There is one at most: the next row of the thread. -/
theorem Shows.authorsRevisions_eq (h : Shows cr a book rows) (hd : Documented cr) (ht : t ∈ book)
    (hsplit : t.rows = pre ++ v :: post) :
    authorsRevisions cr rows v = post.head?.toList := by
  have hv : v ∈ t.rows := by simp [hsplit]
  have hmem : ∀ r, r ∈ authorsRevisions cr rows v ↔ r ∈ post.head?.toList := by
    intro r
    have hlink := h.threaded.link_iff (revises_key hd) (List.mem_map_of_mem ht) hsplit (r := r)
    simp only [authorsRevisions, List.mem_filter, Bool.and_eq_true, Option.mem_toList]
    constructor
    · intro ⟨hr, hrevises⟩
      have hkey := (hd.authors r v hrevises.2).1.trans (h.mem_rows ht hv).2
      exact (hlink ((h.mem r).mpr ⟨hr, hkey⟩)).mp hrevises
    · intro hhead
      have hr : r ∈ t.rows := by
        rw [hsplit]
        exact List.mem_append_right _ (List.mem_cons_of_mem _ (List.mem_of_head? hhead))
      have hflat := List.mem_flatten_of_mem (List.mem_map_of_mem ht) hr
      exact ⟨(h.mem_rows ht hr).1, (hlink hflat).mpr hhead⟩
  have hnodup : (authorsRevisions cr rows v).Nodup := (List.Nodup.of_map _ h.ids).filter _
  cases hpost : post.head? with
  | none =>
    rw [hpost] at hmem
    exact List.eq_nil_iff_forall_not_mem.mpr fun r hr => by simpa using (hmem r).mp hr
  | some r =>
    rw [hpost] at hmem
    exact List.perm_singleton.mp ((List.perm_ext_iff_of_nodup hnodup (by simp)).mpr hmem)

theorem latest_singleton (r : Attestation) : latest [r] = some r := rfl

/-- The walk over the edits from a version on. -/
theorem Shows.path_nextEdit (h : Shows cr a book rows) (hd : Documented cr) (ht : t ∈ book)
    (hsplit : t.versions = pre ++ v :: es) : Walk.Path (nextEdit cr rows) v es := by
  have hrows : t.rows = pre ++ v :: (es ++ t.retraction.toList) := by
    rw [Thread.rows, hsplit, List.append_assoc, List.cons_append]
  have hnext := h.authorsRevisions_eq hd ht hrows
  induction es generalizing pre v with
  | nil =>
    show nextEdit cr rows v = none
    unfold nextEdit
    rw [hnext]
    cases hretraction : t.retraction with
    | none => rfl
    | some r =>
      have htype := (h.wf t ht).retraction r hretraction
      have hne : r.attestationType ≠ "supersedes" := by
        rcases htype with htype | htype <;> simp [htype]
      simp [hne, latest]
  | cons e es ih =>
    have he : e ∈ t.edits := by
      cases pre with
      | nil =>
        have htail := (List.cons.inj hsplit).2
        simp [htail]
      | cons x pre =>
        have htail := (List.cons.inj hsplit).2
        simp [htail]
    have htype := ((h.wf t ht).edits e he).1
    have hedit : nextEdit cr rows v = some e := by
      unfold nextEdit
      rw [hnext]
      simp [htype, latest_singleton]
    have hsplit' : t.versions = (pre ++ [v]) ++ e :: es := by simp [hsplit]
    have hrows' : t.rows = (pre ++ [v]) ++ e :: (es ++ t.retraction.toList) := by
      rw [Thread.rows, hsplit', List.append_assoc, List.cons_append]
    exact ⟨hedit, ih hsplit' hrows' (h.authorsRevisions_eq hd ht hrows')⟩

theorem Shows.retractionOf_head (h : Shows cr a book rows) (hd : Documented cr) (ht : t ∈ book) :
    retractionOf cr rows t.head = t.retraction := by
  obtain ⟨pre, hpre⟩ := List.getLast?_eq_some_iff.mp t.getLast?_versions
  have hrows : t.rows = pre ++ t.head :: t.retraction.toList := by
    rw [Thread.rows, hpre, List.append_assoc, List.singleton_append]
  unfold retractionOf
  rw [h.authorsRevisions_eq hd ht hrows]
  cases hretraction : t.retraction with
  | none => rfl
  | some r =>
    cases (h.wf t ht).retraction r hretraction with
    | inl htype => simp [htype]
    | inr htype => simp [htype]

theorem revises_of_previous {p : Attestation} (h : previous cr rows v = some p) :
    Revises cr p v := by
  unfold previous at h
  split at h
  · cases h
  next hrevision =>
    split at h
    · split at h
      next hauthors =>
        cases h
        simp only [Bool.not_eq_true', Bool.not_eq_false, Bool.and_eq_true] at hrevision
        exact ⟨hrevision.1, hauthors⟩
      · cases h
    · cases h

/-- The walk back from a version. -/
theorem Shows.path_previous (h : Shows cr a book rows) (hd : Documented cr) (ht : t ∈ book)
    (hsplit : t.versions = pre ++ v :: es) : Walk.Path (previous cr rows) v pre.reverse := by
  induction pre using List.reverseRecOn generalizing v es with
  | nil =>
    have hroot : v = t.root := (List.cons.inj hsplit).1.symm
    have hfirst := h.threaded.first t.rows (List.mem_map_of_mem ht) t.root rfl
    show previous cr rows v = none
    rw [hroot]
    exact Option.eq_none_iff_forall_not_mem.mpr fun p hp => hfirst p (revises_of_previous hp)
  | append_singleton pre p ih =>
    have hsplit' : t.versions = pre ++ p :: v :: es := by simp [hsplit]
    have hrows : t.rows = pre ++ p :: v :: (es ++ t.retraction.toList) := by
      rw [Thread.rows, hsplit']
      simp
    have hchain := h.threaded.chain t.rows (List.mem_map_of_mem ht)
    rw [hrows, List.isChain_append_cons_cons] at hchain
    obtain ⟨hrevision, hauthors⟩ := hchain.2.1
    have hv : v ∈ t.edits := by
      cases pre with
      | nil => simp [(List.cons.inj hsplit').2]
      | cons x pre => simp [(List.cons.inj hsplit').2]
    have htype := ((h.wf t ht).edits v hv).1
    have hp : p ∈ t.rows := by simp [hrows]
    have hprevious : previous cr rows v = some p := by
      unfold previous
      simp only [hrevision, htype, decide_true, Bool.and_self, Bool.not_true,
        Bool.false_eq_true, if_false, (hd.authors v p hauthors).2, Option.bind_some,
        h.rowOf_eq (h.mem_rows ht hp).1, hauthors, if_true]
    rw [List.reverse_append]
    exact ⟨hprevious, ih hsplit'⟩

theorem Shows.length_le (h : Shows cr a book rows) (ht : t ∈ book) :
    t.rows.length ≤ rows.length := by
  have hnodup := h.threaded.nodup_of_mem (List.mem_map_of_mem ht)
  exact (List.subperm_of_subset hnodup fun v hv => (h.mem_rows ht hv).1).length_le

/-- From any version, the head is found. -/
theorem Shows.resolveHead_eq (h : Shows cr a book rows) (hd : Documented cr) (ht : t ∈ book)
    (hv : v ∈ t.versions) : resolveHead cr rows v.attestationId = some t.head := by
  obtain ⟨pre, es, hsplit⟩ := List.append_of_mem hv
  have hmem := (h.mem_rows ht (List.mem_append_left _ hv)).1
  have hlength := h.length_le ht
  have hlast : t.head = es.getLastD v := by
    have hgetLast := t.getLast?_versions
    rw [hsplit, List.getLast?_append, List.getLast?_cons, Option.some_or] at hgetLast
    rw [List.getLastD_eq_getLast?]
    exact (Option.some.inj hgetLast).symm
  have hle : es.length ≤ rows.length := by
    have hcount := congrArg List.length hsplit
    simp only [Thread.rows, List.length_append, List.length_cons] at hlength hcount
    omega
  rw [resolveHead, h.rowOf_eq hmem, Option.map_some,
    (h.path_nextEdit hd ht hsplit).last_eq hle, hlast]

/-- From any version, the root is found. -/
theorem Shows.chainRoot_eq (h : Shows cr a book rows) (hd : Documented cr) (ht : t ∈ book)
    (hv : v ∈ t.versions) : chainRoot cr rows v.attestationId = some t.root := by
  obtain ⟨pre, es, hsplit⟩ := List.append_of_mem hv
  have hmem := (h.mem_rows ht (List.mem_append_left _ hv)).1
  have hlength := h.length_le ht
  have hroot : pre.reverse.getLastD v = t.root := by
    cases pre with
    | nil => exact (List.cons.inj hsplit).1.symm
    | cons x pre =>
      rw [List.reverse_cons, List.getLastD_concat]
      exact (List.cons.inj hsplit).1.symm
  have hle : pre.reverse.length ≤ rows.length := by
    have hcount := congrArg List.length hsplit
    simp only [Thread.rows, List.length_append, List.length_cons, List.length_reverse]
      at hlength hcount ⊢
    omega
  rw [chainRoot, h.rowOf_eq hmem, Option.map_some,
    (h.path_previous hd ht hsplit).last_eq hle, hroot]

theorem Shows.historyOf_eq (h : Shows cr a book rows) (hd : Documented cr) (ht : t ∈ book)
    (communityId : String) (projected : List ChatMessage) :
    historyOf cr communityId rows projected t.root = t.history cr communityId projected := by
  have hlength := h.length_le ht
  have hle : t.edits.length ≤ rows.length := by
    simp only [Thread.rows, Thread.versions, List.length_append, List.length_cons] at hlength
    omega
  have hsplit : t.versions = [] ++ t.root :: t.edits := rfl
  have hpath := h.path_nextEdit hd ht hsplit
  have hretraction : retractionOf cr rows (t.edits.getLastD t.root) = t.retraction :=
    h.retractionOf_head hd ht
  simp only [historyOf, hpath.trail_eq hle, hretraction]
  rfl

end Walks

/-! ## The rows of a room -/

section Rows

variable {cr : Crates} {a : String} {book : List Thread} {store held rows read : List Attestation}
  {readError : String → Option String} {members : List String} {r : Attestation}

theorem mem_readBy (h : readBy (attestationsBy store readError) members = .ok read) :
    r ∈ read ↔ r ∈ store ∧ r.attestingKeyId ∈ members := by
  induction members generalizing read with
  | nil =>
    cases h
    simp
  | cons member members ih =>
    obtain ⟨first, hfirst, h⟩ := except_bind_ok h
    obtain ⟨rest, hrest, h⟩ := except_bind_ok h
    cases h
    have hby := except_mapError_ok hfirst
    unfold attestationsBy at hby
    split at hby
    · cases hby
    · cases hby
      rw [List.mem_append, ih hrest, List.mem_filter, List.mem_cons, decide_eq_true_eq]
      tauto

/-- Each row of the members is read once. -/
theorem mem_rowsBy (hids : (store.map (·.attestationId)).Nodup)
    (h : rowsBy (attestationsBy store readError) members = .ok rows) :
    (rows.map (·.attestationId)).Nodup ∧
      ∀ r, r ∈ rows ↔ r ∈ store ∧ r.attestingKeyId ∈ members := by
  unfold rowsBy at h
  cases hread : readBy (attestationsBy store readError) members with
  | error e =>
    rw [hread] at h
    cases h
  | ok read =>
    rw [hread] at h
    cases h
    refine ⟨List.nodup_map_sortDedupBy _ _, fun r => ?_⟩
    rw [List.mem_sortDedupBy, mem_readBy hread]
    intro p hp q hq hkey
    exact List.inj_on_of_nodup_map hids ((mem_readBy hread).mp hp).1 ((mem_readBy hread).mp hq).1
      hkey

/-- The threads are seen where the author's rows are held. -/
theorem Shows.congr (h : Shows cr a book store) (hids : (rows.map (·.attestationId)).Nodup)
    (hsame : ∀ r, r.attestingKeyId = a → (r ∈ rows ↔ r ∈ store)) : Shows cr a book rows := by
  refine ⟨hids, fun r => ?_, h.threaded, h.wf⟩
  rw [h.mem]
  constructor
  · intro ⟨hr, hkey⟩
    exact ⟨(hsame r hkey).mpr hr, hkey⟩
  · intro ⟨hr, hkey⟩
    exact ⟨(hsame r hkey).mp hr, hkey⟩

theorem Shows.rowsBy (h : Shows cr a book store) (ha : a ∈ members)
    (hrows : rowsBy (attestationsBy store readError) members = .ok rows) :
    Shows cr a book rows := by
  obtain ⟨hids, hmem⟩ := mem_rowsBy h.ids hrows
  apply h.congr hids
  intro r hkey
  rw [hmem, hkey]
  exact and_iff_left ha

end Rows

/-! ## Runs -/

/-- The rows of a node, and the messages of one author, as the author made them. -/
structure State where
  store : List Attestation := []
  book : List Thread := []

/-- A version of the message has the id. -/
def Thread.has (t : Thread) (id : String) : Bool := t.versions.any (·.attestationId = id)

/-- The author edits the message, or takes it back. -/
def Thread.revise (t : Thread) (row : Attestation) : Thread :=
  if row.attestationType = "supersedes" then { t with edits := t.edits ++ [row] }
  else { t with retraction := some row }

/-- What the author `a` does: a row of theirs that comes begins a message, and a revision that the
    node puts for them goes to the message that the request names. -/
def nextBook (cr : Crates) (a : String) (s : State) (e : Event) : List Thread :=
  match e, (step cr s.store e).drop s.store.length with
  | .arrives row, _ => if row.attestingKeyId = a then s.book ++ [{ root := row }] else s.book
  | .revise _ id _ _, row :: _ =>
    if row.attestingKeyId = a then
      s.book.map fun t => if t.has id then t.revise row else t
    else s.book
  | .revise _ _ _ _, [] => s.book

def next (cr : Crates) (a : String) (s : State) (e : Event) : State where
  store := step cr s.store e
  book := nextBook cr a s e

/-- The row that edge builds. -/
structure Built (cr : Crates) (op : String) (head row : Attestation) : Prop where
  type : row.attestationType = op
  cohortScope : row.cohortScope = "community"
  placed : isPlacementWidening cr row = false
  authors : cr.composerIsAuthors row head = true
  /-- An edit is a message where the row that it edits is one. -/
  edit : op = "supersedes" → ∀ room, (cr.fromRow row room).isSome = (cr.fromRow head room).isSome

/-- The id of a new row is its own, edge builds the rows, and the author's revisions are made here. -/
def Ok (cr : Crates) (a : String) (s : State) : Event → Prop
  | .arrives row => (∀ r ∈ s.store, r.attestationId ≠ row.attestationId) ∧
      (row.attestingKeyId = a → isRevision cr row = false)
  | .revise communityId _ action answers => ∀ op head row, opOf action = .ok op →
      (cr.fromRow head communityId).isSome = true → answers.build head = .ok row →
        (∀ r ∈ s.store, r.attestationId ≠ row.attestationId) ∧ Built cr op head row

section Steps

variable {cr : Crates} {a : String} {s : State} {store rows : List Attestation} {t : Thread}
  {communityId id action op : String} {answers : ReviseAnswers} {owner : Owner}
  {head row v : Attestation}

theorem build_of_builtRow {req : ReviseRequest} {readable : Option (Bool × List String)}
    (h : builtRow cr answers op req head = .ok (row, readable)) :
    answers.build head = .ok row := by
  unfold builtRow at h
  split at h
  · obtain ⟨-, -, h⟩ := except_bind_ok h
    obtain ⟨row', hbuild, h⟩ := except_bind_ok h
    cases h
    exact except_mapError_ok hbuild
  · split at h
    · cases h
    · obtain ⟨row', hbuild, h⟩ := except_bind_ok h
      cases h
      exact except_mapError_ok hbuild

/-- What the head of a revision is. -/
structure Heads (cr : Crates) (rows : List Attestation) (owner : Owner) (communityId id : String)
    (head : Attestation) : Prop where
  resolved : resolveHead cr rows id = some head
  cohortScope : head.cohortScope = "community"
  message : (cr.fromRow head communityId).isSome = true
  author : head.attestingKeyId = owner.keyId
  live : retractionOf cr rows head = none

theorem heads_of_revisedHead (h : revisedHead cr rows owner communityId id = .ok head) :
    Heads cr rows owner communityId id head := by
  unfold revisedHead at h
  split at h
  · cases h
  next found hfound =>
    split at h
    · cases h
    next hauthor =>
      split at h
      · cases h
      next hlive =>
        cases h
        obtain ⟨hresolved, hmessage⟩ := Option.filter_eq_some_iff.mp hfound
        simp only [Bool.and_eq_true, decide_eq_true_eq] at hmessage
        exact ⟨hresolved, hmessage.1, hmessage.2, not_not.mp hauthor, by simpa using hlive⟩

/-- A revision is refused, or its row is put. -/
theorem step_revise (cr : Crates) (store : List Attestation)
    (communityId id action : String) (answers : ReviseAnswers) :
    step cr store (.revise communityId id action answers) = store ∨
      ∃ op owner members rows head row,
        step cr store (.revise communityId id action answers) = store ++ [row] ∧
        opOf action = .ok op ∧
        rowsBy (attestationsBy store answers.readError) members = .ok rows ∧
        Heads cr rows owner communityId id head ∧ answers.build head = .ok row := by
  simp only [step, reviseMessage]
  split
  · exact Or.inl rfl
  next row revised h =>
    right
    obtain ⟨op, hop, h⟩ := except_bind_ok h
    obtain ⟨owner, -, h⟩ := except_bind_ok h
    obtain ⟨-, -, h⟩ := except_bind_ok h
    obtain ⟨-, -, h⟩ := except_bind_ok h
    obtain ⟨-, -, h⟩ := except_bind_ok h
    obtain ⟨req, -, h⟩ := except_bind_ok h
    obtain ⟨members, -, h⟩ := except_bind_ok h
    obtain ⟨rows, hrows, h⟩ := except_bind_ok h
    obtain ⟨head, hhead, h⟩ := except_bind_ok h
    obtain ⟨-, -, h⟩ := except_bind_ok h
    obtain ⟨⟨row', readable⟩, hbuilt, h⟩ := except_bind_ok h
    obtain ⟨-, -, h⟩ := except_bind_ok h
    cases h
    exact ⟨op, owner, members.map (·.keyId), rows, head, row', rfl, hop,
      except_mapError_ok hrows, heads_of_revisedHead hhead, build_of_builtRow hbuilt⟩

theorem nextEdit_key (hd : Documented cr) {p q : Attestation} (h : nextEdit cr rows p = some q) :
    q.attestingKeyId = p.attestingKeyId := by
  have hmem : ∀ (l : List Attestation) (best : Option Attestation) q,
      l.foldl (fun best row =>
        if best.all fun b => b.assertedAt < row.assertedAt ∨
            (b.assertedAt = row.assertedAt ∧ b.attestationId ≤ row.attestationId)
        then some row else best) best = some q → q ∈ l ∨ best = some q := by
    intro l
    induction l with
    | nil => exact fun best q hq => Or.inr hq
    | cons x l ih =>
      intro best q hq
      rw [List.foldl_cons] at hq
      cases ih _ q hq with
      | inl hl => exact Or.inl (List.mem_cons_of_mem _ hl)
      | inr hx =>
        split at hx
        · cases hx
          exact Or.inl List.mem_cons_self
        · exact Or.inr hx
  have hq := (hmem _ _ q h).resolve_right (by simp)
  simp only [authorsRevisions, List.mem_filter, Bool.and_eq_true] at hq
  exact (hd.authors q p hq.1.2.2).1

/-- The walk to the head stays with one author. -/
theorem author_of_walk (hd : Documented cr) {n : Nat}
    (hlast : Walk.last (nextEdit cr rows) n v = head) :
    v.attestingKeyId = head.attestingKeyId := by
  have hstep : ∀ p q, nextEdit cr rows p = some q → q.attestingKeyId = head.attestingKeyId →
      p.attestingKeyId = head.attestingKeyId := fun p q hnext hq =>
    (nextEdit_key hd hnext).symm.trans hq
  apply Walk.last_invariant hstep
  rw [hlast]

/-- **The head of a revision.** It is the last version of a message that stands, whichever of its
    versions the request names. -/
theorem Shows.heads (h : Shows cr a s.book rows) (hd : Documented cr)
    (hhead : Heads cr rows owner communityId id head) (hkey : head.attestingKeyId = a) :
    ∃ t ∈ s.book, ∃ v ∈ t.versions, v.attestationId = id ∧ t.head = head ∧
      t.retraction = none := by
  obtain ⟨v, hv, hlast⟩ := Option.map_eq_some_iff.mp hhead.resolved
  obtain ⟨hrows, hid⟩ := (List.find?_key_eq_some_iff h.ids).mp hv
  have hauthor : v.attestingKeyId = a := (author_of_walk hd hlast).trans hkey
  obtain ⟨l, hl, hvl⟩ := List.mem_flatten.mp ((h.mem v).mpr ⟨hrows, hauthor⟩)
  obtain ⟨t, ht, rfl⟩ := List.mem_map.mp hl
  cases List.mem_append.mp hvl with
  | inl hversion =>
    have hthread := h.resolveHead_eq hd ht hversion
    rw [hid, hhead.resolved] at hthread
    have heq : t.head = head := (Option.some.inj hthread).symm
    have hlive := h.retractionOf_head hd ht
    rw [heq, hhead.live] at hlive
    exact ⟨t, ht, v, hversion, hid, heq, hlive.symm⟩
  | inr hretraction =>
    -- a retraction is not a message, and nothing comes after it
    have hretraction' := Option.mem_toList.mp hretraction
    have hsplit : t.rows = t.versions ++ v :: [] := by
      rw [Thread.rows, Option.mem_def.mp hretraction', Option.toList_some]
    have hnone : nextEdit cr rows v = none := by
      unfold nextEdit
      rw [h.authorsRevisions_eq hd ht hsplit]
      rfl
    rw [Walk.last_none hnone] at hlast
    subst hlast
    have hmessage := hd.message v communityId hhead.message
    cases (h.wf t ht).retraction v hretraction' with
    | inl htype => exact absurd htype hmessage.1
    | inr htype => exact absurd htype hmessage.2

theorem Thread.rows_revise (row : Attestation) (ht : t.retraction = none) : (t.revise row).rows = t.rows ++ [row] := by
  unfold Thread.revise Thread.rows Thread.versions
  split <;> simp [ht]

/-- Only the message that has the version is revised. -/
theorem map_revise {before after : List Thread} (row : Attestation)
    (hkeys : ((((before ++ t :: after).map Thread.rows).flatten).map (·.attestationId)).Nodup)
    (hv : v ∈ t.versions) :
    (before ++ t :: after).map (fun t => if t.has v.attestationId then t.revise row else t) =
      before ++ t.revise row :: after := by
  have hother : ∀ t' : Thread, (∀ r ∈ t'.rows, r.attestationId ≠ v.attestationId) →
      (if t'.has v.attestationId then t'.revise row else t') = t' := by
    intro t' hne
    have hhas : t'.has v.attestationId = false := by
      simp only [Thread.has, List.any_eq_false, decide_eq_true_eq]
      exact fun r hr => hne r (List.mem_append_left _ hr)
    rw [hhas, if_neg Bool.false_ne_true]
  have hself : t.has v.attestationId = true := by
    simp only [Thread.has, List.any_eq_true, decide_eq_true_eq]
    exact ⟨v, hv, rfl⟩
  have hvt : v.attestationId ∈ t.rows.map (·.attestationId) :=
    List.mem_map_of_mem (List.mem_append_left _ hv)
  simp only [List.map_append, List.map_cons, List.flatten_append, List.flatten_cons] at hkeys
  obtain ⟨-, htail, hbefore⟩ := List.nodup_append.mp hkeys
  obtain ⟨-, -, hafter⟩ := List.nodup_append.mp htail
  rw [List.map_append, List.map_cons, hself, if_pos rfl]
  congr 1
  · apply (List.map_congr_left fun t' ht' => hother t' fun r hr => ?_).trans (List.map_id' _)
    refine hbefore _ (List.mem_map_of_mem ?_) _ (List.mem_append_left _ hvt)
    exact List.mem_flatten_of_mem (List.mem_map_of_mem ht') hr
  · congr 1
    apply (List.map_congr_left fun t' ht' => hother t' fun r hr => ?_).trans (List.map_id' _)
    refine Ne.symm (hafter _ hvt _ (List.mem_map_of_mem ?_))
    exact List.mem_flatten_of_mem (List.mem_map_of_mem ht') hr

/-- A row of somebody else changes nothing. -/
theorem Shows.other (h : Shows cr a s.book store)
    (hfresh : ∀ r ∈ store, r.attestationId ≠ row.attestationId) (hkey : row.attestingKeyId ≠ a) :
    Shows cr a s.book (store ++ [row]) := by
  apply h.congr
  · rw [List.map_append, List.map_singleton, List.nodup_append]
    refine ⟨h.ids, by simp, ?_⟩
    intro k hk k' hk'
    obtain ⟨r, hr, rfl⟩ := List.mem_map.mp hk
    rw [List.mem_singleton.mp hk']
    exact hfresh r hr
  · intro r hr
    have hne : r ≠ row := fun heq => hkey (heq ▸ hr)
    simp [hne]

/-- A row of the author, in a book that has it. -/
theorem Shows.mine {book' : List Thread} (h : Shows cr a s.book store)
    (hfresh : ∀ r ∈ store, r.attestationId ≠ row.attestationId) (hkey : row.attestingKeyId = a)
    (hmem : ∀ r, r ∈ (book'.map Thread.rows).flatten ↔
      r ∈ (s.book.map Thread.rows).flatten ∨ r = row)
    (hthreaded : Threaded (·.attestationId) (Revises cr) (book'.map Thread.rows))
    (hwf : ∀ t ∈ book', t.Wf cr) : Shows cr a book' (store ++ [row]) := by
  refine ⟨?_, fun r => ?_, hthreaded, hwf⟩
  · rw [List.map_append, List.map_singleton, List.nodup_append]
    refine ⟨h.ids, by simp, ?_⟩
    intro k hk k' hk'
    obtain ⟨r, hr, rfl⟩ := List.mem_map.mp hk
    rw [List.mem_singleton.mp hk']
    exact hfresh r hr
  · rw [hmem, h.mem, List.mem_append, List.mem_singleton]
    constructor
    · rintro (⟨hr, hra⟩ | rfl)
      · exact ⟨Or.inl hr, hra⟩
      · exact ⟨Or.inr rfl, hkey⟩
    · rintro ⟨hr | rfl, hra⟩
      · exact Or.inl ⟨hr, hra⟩
      · exact Or.inr rfl

theorem Shows.fresh (h : Shows cr a s.book store)
    (hfresh : ∀ r ∈ store, r.attestationId ≠ row.attestationId) :
    ∀ p ∈ (s.book.map Thread.rows).flatten, p.attestationId ≠ row.attestationId := fun p hp =>
  hfresh p ((h.mem p).mp hp).1

/-- The author's row that comes begins a message. -/
theorem Shows.arrives (h : Shows cr a s.book store)
    (hfresh : ∀ r ∈ store, r.attestationId ≠ row.attestationId)
    (hrevision : isRevision cr row = false) (hkey : row.attestingKeyId = a) :
    Shows cr a (s.book ++ [{ root := row }]) (store ++ [row]) := by
  apply h.mine hfresh hkey
  · intro r
    simp [Thread.rows, Thread.versions]
  · have hfirst : ∀ p, ¬ Revises cr p row := fun p hp =>
      Bool.false_ne_true (hrevision.symm.trans hp.1)
    rw [List.map_append]
    exact h.threaded.start (h.fresh hfresh) hfirst
  · intro t ht
    cases List.mem_append.mp ht with
    | inl ht => exact h.wf t ht
    | inr ht =>
      rw [List.mem_singleton.mp ht]
      refine ⟨hrevision, fun e he => ?_, fun r hr => ?_⟩
      · cases he
      · cases hr

theorem Thread.Wf.revise (h : t.Wf cr) (hop : opOf action = .ok op)
    (hbuilt : Built cr op t.head row) (hcohort : t.head.cohortScope = "community") :
    (t.revise row).Wf cr := by
  have htype := hbuilt.type
  by_cases hedit : op = "supersedes"
  · have hrow : t.revise row = { t with edits := t.edits ++ [row] } := if_pos (htype.trans hedit)
    -- the head is a message of the room, and so is the root
    have hhead : t.root.cohortScope = "community" ∧
        ∀ room, (cr.fromRow t.head room).isSome = (cr.fromRow t.root room).isSome := by
      cases List.mem_cons.mp t.head_mem with
      | inl hroot =>
        rw [hroot] at hcohort ⊢
        exact ⟨hcohort, fun _ => rfl⟩
      | inr he => exact ⟨(h.edits _ he).2.2.1, (h.edits _ he).2.2.2⟩
    rw [hrow]
    refine ⟨h.root, fun e he => ?_, h.retraction⟩
    cases List.mem_append.mp he with
    | inl he => exact h.edits e he
    | inr he =>
      rw [List.mem_singleton.mp he]
      refine ⟨htype.trans hedit, hbuilt.cohortScope, hhead.1, fun room => ?_⟩
      exact (hbuilt.edit hedit room).trans (hhead.2 room)
  · have hrow : t.revise row = { t with retraction := some row } :=
      if_neg (by rw [htype]; exact hedit)
    rw [hrow]
    refine ⟨h.root, h.edits, fun r hr => ?_⟩
    cases hr
    rw [htype]
    unfold opOf at hop
    split at hop
    · cases hop
      exact absurd rfl hedit
    · cases hop
      exact Or.inl rfl
    · cases hop
      exact Or.inr rfl
    · cases hop

/-- The author's revision goes on with its message. -/
theorem Shows.revise (h : Shows cr a s.book store) (hd : Documented cr)
    (hfresh : ∀ r ∈ store, r.attestationId ≠ row.attestationId) (ht : t ∈ s.book)
    (hv : v ∈ t.versions) (hlive : t.retraction = none) (hop : opOf action = .ok op)
    (hbuilt : Built cr op t.head row) (hcohort : t.head.cohortScope = "community") :
    Shows cr a (s.book.map fun t => if t.has v.attestationId then t.revise row else t)
      (store ++ [row]) := by
  have hkey : row.attestingKeyId = a :=
    (hd.authors row t.head hbuilt.authors).1.trans
      (h.mem_rows ht (List.mem_append_left _ t.head_mem)).2
  have hrevises : Revises cr t.head row := by
    refine ⟨?_, hbuilt.authors⟩
    have htype : cr.isStructuralComposer row.attestationType = true := by
      rw [hbuilt.type]
      unfold opOf at hop
      split at hop
      · cases hop
        exact hd.composes.1
      · cases hop
        exact hd.composes.2.1
      · cases hop
        exact hd.composes.2.2
      · cases hop
    simp [isRevision, htype, hbuilt.placed]
  obtain ⟨before, after, hbook⟩ := List.append_of_mem ht
  have hkeys := h.threaded.keys
  rw [hbook] at hkeys
  have hmap := map_revise row hkeys hv
  rw [← hbook] at hmap
  have hrows := t.rows_revise row hlive
  rw [hmap]
  apply h.mine hfresh hkey
  · intro r
    simp only [hbook, List.map_append, List.map_cons, List.flatten_append, List.flatten_cons,
      hrows, List.mem_append, List.mem_singleton]
    tauto
  · have hthreaded := h.threaded
    have hfresh' := h.fresh hfresh
    rw [hbook, List.map_append, List.map_cons] at hthreaded hfresh'
    rw [List.map_append, List.map_cons, hrows]
    apply hthreaded.extend hfresh'
    have hversions : t.rows = t.versions := by rw [Thread.rows, hlive]; simp
    rw [hversions, t.getLast?_versions]
    intro p hp
    cases hp
    exact hrevises
  · intro t' ht'
    have hcases : t' = t.revise row ∨ t' ∈ s.book := by
      rw [hbook]
      simp only [List.mem_append, List.mem_cons] at ht' ⊢
      tauto
    cases hcases with
    | inl heq => exact heq ▸ (h.wf t ht).revise hop hbuilt hcohort
    | inr hold => exact h.wf t' hold

/-- The message that a revision of the author's goes to. -/
theorem Shows.put {members : List String} (h : Shows cr a s.book s.store) (hd : Documented cr)
    (hrows : ContactsChat.rowsBy (attestationsBy s.store answers.readError) members = .ok rows)
    (hhead : Heads cr rows owner communityId id head) (hbuilt : Built cr op head row)
    (hkey : row.attestingKeyId = a) :
    ∃ t ∈ s.book, ∃ v ∈ t.versions, v.attestationId = id ∧ t.head = head ∧
      t.retraction = none := by
  have hauthor : head.attestingKeyId = a :=
    (hd.authors row head hbuilt.authors).1.symm.trans hkey
  -- the author is a member: the head is one of the members' rows
  have hmember : a ∈ members := by
    obtain ⟨v, hv, hlast⟩ := Option.map_eq_some_iff.mp hhead.resolved
    have hv' := ((mem_rowsBy h.ids hrows).2 v).mp (List.mem_of_find?_eq_some hv)
    rw [(author_of_walk hd hlast).trans hauthor] at hv'
    exact hv'.2
  exact (h.rowsBy hmember hrows).heads hd hhead hauthor

/-- **Every step** keeps the book. -/
theorem Shows.step (h : Shows cr a s.book s.store) (hd : Documented cr) (e : Event)
    (hok : Ok cr a s e) : Shows cr a (next cr a s e).book (next cr a s e).store := by
  cases e with
  | arrives row =>
    have hbook : nextBook cr a s (.arrives row) =
        if row.attestingKeyId = a then s.book ++ [{ root := row }] else s.book := rfl
    show Shows cr a (nextBook cr a s (.arrives row)) (s.store ++ [row])
    rw [hbook]
    split
    next hkey => exact h.arrives hok.1 (hok.2 hkey) hkey
    next hkey => exact h.other hok.1 hkey
  | revise communityId id action answers =>
    show Shows cr a (nextBook cr a s (.revise communityId id action answers))
      (ContactsChat.step cr s.store (.revise communityId id action answers))
    cases step_revise cr s.store communityId id action answers with
    | inl hsame =>
      simp only [nextBook, hsame, List.drop_length]
      exact h
    | inr hput =>
      obtain ⟨op, owner, members, rows, head, row, hstep, hop, hrows, hhead, hbuild⟩ := hput
      obtain ⟨hfresh, hbuilt⟩ := hok op head row hop hhead.message hbuild
      simp only [nextBook, hstep, List.drop_left]
      split
      next hkey =>
        obtain ⟨t, ht, v, hv, rfl, rfl, hlive⟩ := h.put hd hrows hhead hbuilt hkey
        exact h.revise hd hfresh ht hv hlive hop hbuilt hhead.cohortScope
      next hkey => exact h.other hfresh hkey

/-- What becomes of a message: its edits go on, and a retraction is its end. -/
structure Thread.Grows (t t' : Thread) : Prop where
  root : t'.root = t.root
  edits : t.edits <+: t'.edits
  ended : t.retraction ≠ none → t' = t

theorem Thread.Grows.refl (t : Thread) : t.Grows t := ⟨rfl, List.prefix_refl _, fun _ => rfl⟩

theorem Thread.Grows.trans {t' t'' : Thread} (h : t.Grows t') (h' : t'.Grows t'') :
    t.Grows t'' := by
  refine ⟨h'.root.trans h.root, h.edits.trans h'.edits, fun hended => ?_⟩
  have heq := h.ended hended
  rw [heq] at h'
  exact h'.ended hended

theorem Thread.grows_revise (h : t.retraction = none) : t.Grows (t.revise row) := by
  unfold Thread.revise
  split
  · exact ⟨rfl, List.prefix_append _ _, fun hended => absurd h hended⟩
  · exact ⟨rfl, List.prefix_refl _, fun hended => absurd h hended⟩

theorem Shows.grows (h : Shows cr a s.book s.store) (hd : Documented cr) (e : Event)
    (hok : Ok cr a s e) (ht : t ∈ s.book) : ∃ t' ∈ (next cr a s e).book, t.Grows t' := by
  cases e with
  | arrives row =>
    refine ⟨t, ?_, Thread.Grows.refl t⟩
    show t ∈ if row.attestingKeyId = a then s.book ++ [{ root := row }] else s.book
    split
    · exact List.mem_append_left _ ht
    · exact ht
  | revise communityId id action answers =>
    show ∃ t' ∈ nextBook cr a s (.revise communityId id action answers), t.Grows t'
    cases step_revise cr s.store communityId id action answers with
    | inl hsame =>
      simp only [nextBook, hsame, List.drop_length]
      exact ⟨t, ht, Thread.Grows.refl t⟩
    | inr hput =>
      obtain ⟨op, owner, members, rows, head, row, hstep, hop, hrows, hhead, hbuild⟩ := hput
      obtain ⟨-, hbuilt⟩ := hok op head row hop hhead.message hbuild
      simp only [nextBook, hstep, List.drop_left]
      split
      next hkey =>
        obtain ⟨u, hu, v, hv, rfl, -, hlive⟩ := h.put hd hrows hhead hbuilt hkey
        obtain ⟨before, after, hbook⟩ := List.append_of_mem hu
        have hkeys := h.threaded.keys
        rw [hbook] at hkeys ht ⊢
        rw [map_revise row hkeys hv]
        simp only [List.mem_append, List.mem_cons] at ht ⊢
        rcases ht with ht | rfl | ht
        · exact ⟨t, Or.inl ht, Thread.Grows.refl t⟩
        · exact ⟨_, Or.inr (Or.inl rfl), Thread.grows_revise hlive⟩
        · exact ⟨t, Or.inr (Or.inr ht), Thread.Grows.refl t⟩
      next => exact ⟨t, ht, Thread.Grows.refl t⟩

end Steps

/-! ## A room -/

/-- Rows that say in their envelope what they are about. -/
def sampleCrates : Crates where
  isStructuralComposer type := type ∈ ["supersedes", "withdraws", "recants"]
  references envelope := (envelope.get? "references_attestation_id").bind Json.asStr
  precedenceWinner group := group.head?
  composerRank type :=
    if type = "recants" then 3 else if type = "withdraws" then 2 else 1
  composerIsAuthors r t := r.attestingKeyId = t.attestingKeyId &&
    r.references = some t.attestationId && r.str "community_id" = t.str "community_id"
  fromRow row room :=
    if row.str "community_id" = some room ∧ row.attestationType ≠ "withdraws" ∧
        row.attestationType ≠ "recants" then
      some ⟨row.attestingKeyId, row.assertedAt, none, none, .pointer⟩
    else none
  reasonAllowedOn _ _ := true
  toRfc3339 _ := ""
  debug text := text
  hashOrder keys := keys
  widenedAt := "widened_at"
  reasonCode := "reason_code"

def sampleRow (id who type : String) (assertedAt : Int) (members : List (String × Json)) :
    Attestation :=
  ⟨id, who, who, type, [who], "community", assertedAt, none,
    .obj (("community_id", .str "room") :: members)⟩

/-- A message of Alice's, as it was placed in the room. -/
def samplePost : Attestation :=
  sampleRow "m1" "alice" "supersedes" 1 [("widened_at", .str "2026-01-01T00:00:00Z")]

/-- The revision that names a head. -/
def sampleRevision (id type : String) (assertedAt : Int) (head : Attestation) : Attestation :=
  sampleRow id head.attestingKeyId type assertedAt
    [("references_attestation_id", .str head.attestationId)]

def sampleOwner : Owner := ⟨"alice", ⟨⟨"wa", .observer, [], none⟩, none⟩⟩

def sampleRoom (store : List Attestation) : Room where
  communityId := "room"
  members := .ok [⟨"alice", none⟩, ⟨"bob", none⟩]
  directory := attestationsBy store fun _ => none

def sampleReader : Reader where
  owner := sampleOwner
  viewerOccurrence := none
  resolveContent _ opened := opened.body
  authorFacts _ := ("person", "self")
  dutiesOf _ := []
  viewOf _ _ := .ok none

/-- Alice asks for a revision, and all goes well. -/
def sampleRevise (id action row type : String) (assertedAt : Int) : Event :=
  .revise "room" id action
    { requireOwner := .ok sampleOwner
      requireOp := .ok ()
      requireMember := .ok ()
      request := some (.ok { body := some "second" })
      members := .ok [⟨"alice", none⟩, ⟨"bob", none⟩]
      readError := fun _ => none
      acquire := .ok ()
      build := fun head => .ok (sampleRevision row type assertedAt head)
      excluded := []
      put := .ok () }

/-- A message, an edit of it by somebody else, and one by its author. -/
def sampleEdits : List Event :=
  [.arrives samplePost,
    .arrives (sampleRow "b1" "bob" "supersedes" 2 [("references_attestation_id", .str "m1")]),
    sampleRevise "m1" "supersede" "a1" "supersedes" 3]

/-- The author takes it back, and names the first version again. -/
def sampleRecant : Event := sampleRevise "m1" "recant" "z1" "recants" 4

theorem documented_sample : Documented sampleCrates where
  composes := by decide
  authors r t h := by
    simp only [sampleCrates, Bool.and_eq_true, decide_eq_true_eq] at h
    exact ⟨h.1.1, h.1.2⟩
  message r room h := by
    simp only [sampleCrates] at h
    split at h
    next hr => exact hr.2
    next => cases h
  winner _ := rfl
  hashOrder keys := List.Perm.refl keys

/-- What the sample builds is what edge builds. -/
theorem built_sample {id type op : String} {assertedAt : Int} {head : Attestation}
    (htype : type = op) (h : (sampleCrates.fromRow head "room").isSome = true) :
    Built sampleCrates op head (sampleRevision id type assertedAt head) := by
  have hhead : head.str "community_id" = some "room" ∧ head.attestationType ≠ "withdraws" ∧
      head.attestationType ≠ "recants" := by
    simp only [sampleCrates] at h
    split at h
    next hr => exact hr
    next => cases h
  have hreferences : (sampleRevision id type assertedAt head).references =
      some head.attestationId := rfl
  have hroom : (sampleRevision id type assertedAt head).str "community_id" = some "room" := rfl
  refine ⟨htype, rfl, rfl, ?_, fun hop room => ?_⟩
  · simp only [sampleCrates, hreferences, hroom, hhead.1]
    simp [sampleRevision, sampleRow]
  · have hedit : (sampleRevision id type assertedAt head).attestationType = "supersedes" :=
      htype.trans hop
    simp only [sampleCrates, hroom, hedit, hhead]
    by_cases hname : "room" = room
    · simp [hname, hhead.2]
    · simp [hname]

theorem ok_sampleRevise {s : State} {id action row type op : String} {assertedAt : Int}
    (hop : opOf action = .ok op) (htype : type = op)
    (hfresh : ∀ r ∈ s.store, r.attestationId ≠ row) :
    Ok sampleCrates "alice" s (sampleRevise id action row type assertedAt) := by
  intro op' head row' hop' hmessage hbuild
  cases hop.symm.trans hop'
  cases hbuild
  exact ⟨hfresh, built_sample htype hmessage⟩

theorem ok_sampleEdits :
    Guarded (next sampleCrates "alice") (Ok sampleCrates "alice") {} sampleEdits :=
  ⟨⟨by decide, by decide⟩, ⟨by decide, by decide⟩, ok_sampleRevise rfl rfl (by decide),
    True.intro⟩

theorem ok_sampleRecant : Guarded (next sampleCrates "alice") (Ok sampleCrates "alice") {}
    (sampleEdits ++ [sampleRecant]) :=
  guarded_append_iff.mpr
    ⟨ok_sampleEdits, ok_sampleRevise rfl rfl (by decide), True.intro⟩

/-- The rows of the room before and after that, and Alice's message. -/
def sampleStore (es : List Event) : List Attestation :=
  (after (next sampleCrates "alice") {} es).store

def sampleThread : Thread := ⟨samplePost, [sampleRevision "a1" "supersedes" 3 samplePost], none⟩

def recantedThread : Thread :=
  { sampleThread with retraction := some (sampleRevision "z1" "recants" 4 sampleThread.head) }

def sampleRows (store : List Attestation) : List Attestation :=
  match (sampleRoom store).read with
  | .ok (_, rows) => rows
  | .error _ => []

def sampleTranscript (store : List Attestation) : List ChatMessage :=
  match collectMessages sampleCrates sampleReader (sampleRoom store) none with
  | .ok out => out
  | .error _ => []

/-! ## What readers see -/

/-- The author is a member of a room at a node that holds the author's rows. -/
structure Replica (a : String) (store held : List Attestation) (room : Room) : Prop where
  ids : (held.map (·.attestationId)).Nodup
  same : ∀ r, r.attestingKeyId = a → (r ∈ held ↔ r ∈ store)
  directory : ∃ readError, room.directory = attestationsBy held readError
  member : ∀ members, room.members = .ok members → a ∈ members.map (·.keyId)

section Readers

variable {cr : Crates} {a : String} {s : State} {held rows : List Attestation} {room : Room}
  {members : List Member} {t : Thread} {v row : Attestation} {reader : Reader} {owner : Owner}
  {projected : List ChatMessage}

/-- The book is right after every run. -/
theorem shows_after (hd : Documented cr) {es : List Event}
    (hok : Guarded (next cr a) (Ok cr a) {} es) :
    Shows cr a (after (next cr a) {} es).book (after (next cr a) {} es).store := by
  apply hok.invariant (I := fun s => Shows cr a s.book s.store)
    (fun s e h hok => h.step hd e hok)
  refine ⟨by simp, fun r => by simp, ⟨by simp, ?_, ?_, ?_⟩, ?_⟩ <;>
    exact fun t ht => absurd ht List.not_mem_nil

/-- And at every replica. -/
theorem Shows.read (h : Shows cr a s.book s.store) (hrep : Replica a s.store held room)
    (hread : room.read = .ok (members, rows)) : Shows cr a s.book rows := by
  obtain ⟨readError, hdirectory⟩ := hrep.directory
  obtain ⟨members', hmembers, hread⟩ := except_bind_ok hread
  obtain ⟨rows', hrows, hread⟩ := except_bind_ok hread
  cases hread
  rw [hdirectory] at hrows
  exact (h.congr hrep.ids hrep.same).rowsBy
    (hrep.member members (except_mapError_ok hmembers)) hrows

/-- **The history of a message.** The author `a` revises at one node, where rows come in any order
    and anybody else's rows may be about the message. On every node that holds the rows of `a`,
    whatever else it holds, and from the id of any version, the history is the first version, the
    edits in the order in which they were made, and the retraction. -/
theorem history_spec (hd : Documented cr) (es : List Event)
    (hok : Guarded (next cr a) (Ok cr a) {} es)
    (hrep : Replica a (after (next cr a) {} es).store held room)
    (ht : t ∈ (after (next cr a) {} es).book) (hv : v ∈ t.versions)
    (hmessage : (cr.fromRow t.root room.communityId).isSome = true)
    (hverb : requireVerb reader.owner .chatRead "chat.delegation_denied" = .ok ())
    (hread : room.read = .ok (members, rows))
    (hprojected : collectMessages cr reader room none = .ok projected) :
    messageHistory cr (.ok reader) (.ok ()) room v.attestationId "history" =
      .ok (t.history cr room.communityId projected) := by
  have h := (shows_after hd hok).read hrep hread
  have hroot : (chainRoot cr rows v.attestationId).filter
      (fun r => (cr.fromRow r room.communityId).isSome) = some t.root := by
    rw [h.chainRoot_eq hd ht hv, Option.filter_some, if_pos hmessage]
  unfold messageHistory
  rw [if_neg (by simp)]
  simp only [hverb, hread, hprojected, Except.mapError, bind, Except.bind, pure, Except.pure, hroot,
    h.historyOf_eq hd ht]

theorem replica_sample {store : List Attestation} (h : (store.map (·.attestationId)).Nodup) :
    Replica "alice" store store (sampleRoom store) :=
  ⟨h, fun _ _ => Iff.rfl, ⟨fun _ => none, rfl⟩, fun members hmembers => by cases hmembers; decide⟩

/-- Alice's message, from the id of its first version. -/
theorem history_spec_alice :
    messageHistory sampleCrates (.ok sampleReader) (.ok ())
        (sampleRoom (sampleStore (sampleEdits ++ [sampleRecant]))) "m1" "history" =
      .ok (recantedThread.history sampleCrates "room"
        (sampleTranscript (sampleStore (sampleEdits ++ [sampleRecant])))) :=
  have hread : (sampleRoom (sampleStore (sampleEdits ++ [sampleRecant]))).read =
      .ok ([⟨"alice", none⟩, ⟨"bob", none⟩],
        sampleRows (sampleStore (sampleEdits ++ [sampleRecant]))) := rfl
  history_spec (v := samplePost) documented_sample _ ok_sampleRecant
    (replica_sample (by decide)) (by decide) (by decide) rfl rfl hread rfl

/-- What an entry of a history says was done. -/
def Entry.act : Entry → String × String
  | .version attestationId op _ _ _ _ _ => (attestationId, op)
  | .retraction attestationId op _ _ _ => (attestationId, op)

/-- What was done to a message. -/
def Thread.acts (t : Thread) : List (String × String) :=
  (t.root.attestationId, "post") :: t.edits.map (fun e => (e.attestationId, "supersede")) ++
    t.retraction.toList.map fun r =>
      (r.attestationId, if r.attestationType = "recants" then "recant" else "withdraw")

theorem Thread.acts_history (t : Thread) (communityId : String) :
    (t.history cr communityId projected).chain.map Entry.act = t.acts := by
  simp only [history, acts, List.map_cons, List.map_append, List.map_map]
  rfl

theorem Thread.Grows.acts {t' : Thread} (h : t.Grows t') :
    t.acts <+: t'.acts ∧ (t.retraction ≠ none → t'.acts = t.acts) := by
  refine ⟨?_, fun hended => by rw [h.ended hended]⟩
  cases hretraction : t.retraction with
  | some r =>
    have hended := h.ended (by simp [hretraction])
    exact hended ▸ List.prefix_refl t.acts
  | none =>
    obtain ⟨more, hmore⟩ := h.edits
    simp only [Thread.acts, hretraction, h.root, ← hmore, Option.toList_none, List.map_nil,
      List.append_nil, List.map_append, List.cons_append, List.append_assoc]
    exact List.cons_prefix_cons.mpr ⟨rfl, List.prefix_append _ _⟩

/-- What one run makes of the messages, a longer one goes on with. -/
theorem exists_grows (hd : Documented cr) {es es' : List Event}
    (hok : Guarded (next cr a) (Ok cr a) {} (es ++ es')) (ht : t ∈ (after (next cr a) {} es).book) :
    ∃ t' ∈ (after (next cr a) {} (es ++ es')).book, t.Grows t' := by
  obtain ⟨hbefore, hafter⟩ := guarded_append_iff.mp hok
  rw [after_append]
  have hshows := shows_after hd hbefore
  have hboth := hafter.invariant
    (I := fun s => Shows cr a s.book s.store ∧ ∃ t' ∈ s.book, t.Grows t')
    (fun s e h hok => by
      obtain ⟨h, t', ht', hgrows⟩ := h
      obtain ⟨t'', ht'', hgrows'⟩ := h.grows hd e hok ht'
      exact ⟨h.step hd e hok, t'', ht'', hgrows.trans hgrows'⟩)
    ⟨hshows, t, ht, Thread.Grows.refl t⟩
  exact hboth.2

theorem Thread.Grows.mem {t' : Thread} (h : t.Grows t') (hv : v ∈ t.versions) :
    v ∈ t'.versions := by
  unfold Thread.versions at hv ⊢
  rw [h.root]
  cases List.mem_cons.mp hv with
  | inl hroot => exact hroot ▸ List.mem_cons_self
  | inr he => exact List.mem_cons_of_mem _ (h.edits.subset he)

/-- What is answered of a version is the history of its message. -/
theorem Shows.eq_history {h : History} (hs : Shows cr a s.book s.store) (hd : Documented cr)
    (hrep : Replica a s.store held room) (ht : t ∈ s.book) (hv : v ∈ t.versions)
    (hanswer : messageHistory cr (.ok reader) (.ok ()) room v.attestationId "history" = .ok h) :
    ∃ projected, h = t.history cr room.communityId projected := by
  unfold messageHistory at hanswer
  rw [if_neg (by simp)] at hanswer
  obtain ⟨reader', hreader, hanswer⟩ := except_bind_ok hanswer
  cases hreader
  obtain ⟨-, -, hanswer⟩ := except_bind_ok hanswer
  obtain ⟨-, -, hanswer⟩ := except_bind_ok hanswer
  obtain ⟨⟨members, rows⟩, hread, hanswer⟩ := except_bind_ok hanswer
  have hshows := hs.read hrep (except_mapError_ok hread)
  dsimp only at hanswer
  split at hanswer
  · cases hanswer
  next root hroot =>
    obtain ⟨projected, -, hanswer⟩ := except_bind_ok hanswer
    cases hanswer
    have heq := (Option.filter_eq_some_iff.mp hroot).1
    rw [hshows.chainRoot_eq hd ht hv] at heq
    cases heq
    exact ⟨projected, hshows.historyOf_eq hd ht _ _⟩

/-- **A history only grows.** What a node answers of a message at some time, any node answers at any
    later time, with what was done since; and after a retraction nothing is. -/
theorem history_grows {reader' : Reader} {room' : Room} {held' : List Attestation}
    {h h' : History} (hd : Documented cr) (es es' : List Event)
    (hok : Guarded (next cr a) (Ok cr a) {} (es ++ es'))
    (hrep : Replica a (after (next cr a) {} es).store held room)
    (hrep' : Replica a (after (next cr a) {} (es ++ es')).store held' room')
    (ht : t ∈ (after (next cr a) {} es).book) (hv : v ∈ t.versions)
    (hbefore : messageHistory cr (.ok reader) (.ok ()) room v.attestationId "history" = .ok h)
    (hafter : messageHistory cr (.ok reader') (.ok ()) room' v.attestationId "history" = .ok h') :
    h.chain.map Entry.act <+: h'.chain.map Entry.act ∧
      (h.status ≠ "live" → h'.chain.map Entry.act = h.chain.map Entry.act) := by
  obtain ⟨t', ht', hgrows⟩ := exists_grows hd hok ht
  obtain ⟨projected, rfl⟩ :=
    (shows_after hd (guarded_append_iff.mp hok).1).eq_history hd hrep ht hv hbefore
  obtain ⟨projected', rfl⟩ :=
    (shows_after hd hok).eq_history hd hrep' ht' (hgrows.mem hv) hafter
  rw [t.acts_history, t'.acts_history]
  refine ⟨hgrows.acts.1, fun hstatus => hgrows.acts.2 fun hnone => hstatus ?_⟩
  show (t.retraction.map _).getD "live" = "live"
  rw [hnone]
  rfl

def sampleHistory (store : List Attestation) : History :=
  match messageHistory sampleCrates (.ok sampleReader) (.ok ()) (sampleRoom store) "m1" "history"
  with
  | .ok h => h
  | .error _ => ⟨"", "", "", []⟩

/-- A reader of the edited message, and one who comes after it was taken back. -/
theorem history_grows_alice :
    (sampleHistory (sampleStore sampleEdits)).chain.map Entry.act <+:
      (sampleHistory (sampleStore (sampleEdits ++ [sampleRecant]))).chain.map Entry.act :=
  have hbefore : messageHistory sampleCrates (.ok sampleReader) (.ok ())
      (sampleRoom (sampleStore sampleEdits)) "m1" "history" =
        .ok (sampleHistory (sampleStore sampleEdits)) := rfl
  have hafter : messageHistory sampleCrates (.ok sampleReader) (.ok ())
      (sampleRoom (sampleStore (sampleEdits ++ [sampleRecant]))) "m1" "history" =
        .ok (sampleHistory (sampleStore (sampleEdits ++ [sampleRecant]))) := rfl
  (history_grows (t := sampleThread) (v := samplePost) documented_sample sampleEdits [sampleRecant]
    ok_sampleRecant (replica_sample (by decide)) (replica_sample (by decide)) (by decide)
    (by decide) hbefore hafter).1

/-- Which revision of a message is taken. -/
def Thread.revisable (cr : Crates) (communityId : String) (owner : Owner) (t : Thread) :
    Except Refusal Attestation :=
  if t.root.cohortScope ≠ "community" ∨ (cr.fromRow t.root communityId).isNone then
    .error ⟨404, "chat.message_not_found", "no message with that id in this room"⟩
  else if t.root.attestingKeyId ≠ owner.keyId then
    .error ⟨403, "chat.not_author",
      "only the person who wrote a message may supersede, withdraw or recant it"⟩
  else if t.retraction.isSome then
    .error ⟨409, "chat.message_not_live", "this message was already withdrawn or recanted"⟩
  else .ok t.head

/-- **A revision names the head.** Whichever version of a message a request names, it is the last
    one that is revised, by its author, in a room that it is in, and only while the message
    stands. -/
theorem revise_spec (hd : Documented cr) (es : List Event)
    (hok : Guarded (next cr a) (Ok cr a) {} es)
    (hrep : Replica a (after (next cr a) {} es).store held room)
    (hread : room.read = .ok (members, rows))
    (ht : t ∈ (after (next cr a) {} es).book) (hv : v ∈ t.versions) :
    revisedHead cr rows owner room.communityId v.attestationId =
      t.revisable cr room.communityId owner := by
  have h := (shows_after hd hok).read hrep hread
  have hhead : t.head.attestingKeyId = t.root.attestingKeyId :=
    (h.mem_rows ht (List.mem_append_left _ t.head_mem)).2.trans
      (h.mem_rows ht (List.mem_append_left _ List.mem_cons_self)).2.symm
  have hplaced : (t.head.cohortScope = "community" ∧ (cr.fromRow t.head room.communityId).isSome) ↔
      ¬(t.root.cohortScope ≠ "community" ∨ (cr.fromRow t.root room.communityId).isNone) := by
    rw [not_or, not_not, Bool.not_eq_true, Option.isNone_eq_false_iff]
    cases List.mem_cons.mp t.head_mem with
    | inl hroot => rw [hroot]
    | inr he =>
      obtain ⟨-, hcohort, hroot, hmessage⟩ := (h.wf t ht).edits _ he
      rw [hcohort, hroot, hmessage]
  unfold revisedHead Thread.revisable
  rw [h.resolveHead_eq hd ht hv, Option.filter_some]
  by_cases hin : t.root.cohortScope ≠ "community" ∨
      (cr.fromRow t.root room.communityId).isNone = true
  · have hnot : ¬(t.head.cohortScope = "community" ∧
        (cr.fromRow t.head room.communityId).isSome) := fun hp => hplaced.mp hp hin
    rw [if_pos hin, if_neg (by simpa using hnot)]
  · have hyes := hplaced.mpr hin
    rw [if_neg hin, if_pos (by simpa using hyes)]
    simp only [hhead, h.retractionOf_head hd ht]

/-- Alice may go on with what she edited. -/
theorem revise_spec_alice :
    revisedHead sampleCrates (sampleRows (sampleStore sampleEdits)) sampleOwner "room" "m1" =
      .ok sampleThread.head :=
  have hread : (sampleRoom (sampleStore sampleEdits)).read =
      .ok ([⟨"alice", none⟩, ⟨"bob", none⟩], sampleRows (sampleStore sampleEdits)) := rfl
  revise_spec (t := sampleThread) (v := samplePost) documented_sample sampleEdits ok_sampleEdits
    (replica_sample (by decide)) hread (by decide) (by decide)

end Readers

end CirisServer.ContactsChat
