import CirisServer.Spec.ContactsChat
import Mathlib.Data.List.ReduceOption

/-!
# The transcript of a room

What a transcript shows of the messages of an author: one entry for each that is in the room, the
last version, with its standing. Nobody else's rows about a message are seen in it.

A moderator's flag on a version stays with the versions after it.

Key results:
- `transcript_spec`: a transcript shows each message once, as its last version
- `moderation_iff`: which decision of the room a message shows
-/

namespace CirisServer.ContactsChat

open Run

section Readers

variable {cr : Crates} {a : String} {s : State} {held rows : List Attestation} {room : Room}
  {members : List Member} {t : Thread} {v row : Attestation} {reader : Reader}

/-- What the transcript shows of a message. -/
structure Shown where
  attestationId : String
  attestingKeyId : String
  status : String
  statusAttestationId : Option String
  viewerOps : List String
deriving DecidableEq

def ChatMessage.shown (m : ChatMessage) : Shown :=
  ⟨m.attestationId, m.attestingKeyId, m.status, m.statusAttestationId, m.viewerOps⟩

/-- The reader may revise what they wrote, while it stands. -/
def viewerOpsOf (reader : Reader) (status author : String) : List String :=
  if (authorizeDelegated reader.owner.caller .chatAuthor).isOk ∧ status = "live" ∧
    author = reader.owner.keyId then revisionOps else []

/-- A message at its last version. -/
def Thread.shown (reader : Reader) (t : Thread) : Shown where
  attestationId := t.head.attestationId
  attestingKeyId := t.root.attestingKeyId
  status := t.status
  statusAttestationId := t.retraction.map (·.attestationId)
  viewerOps := viewerOpsOf reader t.status t.root.attestingKeyId

/-- The message is in the room. -/
def Thread.placed (cr : Crates) (communityId : String) (t : Thread) : Bool :=
  t.root.cohortScope = "community" && (cr.fromRow t.root communityId).isSome

/-- A row that is a message of the transcript. -/
def Listed (cr : Crates) (communityId : String) (rows : List Attestation) (row : Attestation) :
    Prop :=
  row.cohortScope = "community" ∧ isForeign cr rows row = false ∧
    row.attestationType ≠ "withdraws" ∧ row.attestationType ≠ "recants" ∧
    (cr.fromRow row communityId).isSome = true

instance (communityId : String) : Decidable (Listed cr communityId rows row) :=
  inferInstanceAs (Decidable (_ ∧ _))

/-- What `project` shows of a row. -/
def rowShown (cr : Crates) (reader : Reader) (communityId : String) (rows : List Attestation)
    (row : Attestation) : Option Shown :=
  if Listed cr communityId rows row then
    let standing := foldStatus cr (composersOf cr rows row.attestationId)
    some ⟨row.attestationId, row.attestingKeyId, standing.1, standing.2,
      viewerOpsOf reader standing.1 row.attestingKeyId⟩
  else none

theorem shown_of_project {resolveOnly : Option String} {m : Option ChatMessage}
    (h : project cr reader room.communityId members rows resolveOnly row = .ok m) :
    m.map ChatMessage.shown = rowShown cr reader room.communityId rows row := by
  unfold project at h
  split at h
  next hcohort =>
    cases h
    exact (if_neg fun hall => hcohort hall.1).symm
  next hcohort =>
    split at h
    next hskip =>
      cases h
      refine (if_neg fun hall => ?_).symm
      simp [hall.2.1, hall.2.2.1, hall.2.2.2.1] at hskip
    next hskip =>
      simp only [Bool.or_eq_true, decide_eq_true_eq, not_or, Bool.not_eq_true] at hskip
      split at h
      next hopened =>
        cases h
        refine (if_neg fun hall => ?_).symm
        simp [Listed, hopened] at hall
      next opened hopened =>
        obtain ⟨moderation, -, h⟩ := except_bind_ok h
        have hlisted : Listed cr room.communityId rows row :=
          ⟨not_not.mp hcohort, hskip.1.1, hskip.1.2, hskip.2, by simp [hopened]⟩
        rw [rowShown, if_pos hlisted, ← Except.ok.inj h]
        rfl

/-- The revisions that count are the author's. -/
theorem Shows.composersOf_eq {book : List Thread} (h : Shows cr a book rows) (hd : Documented cr)
    (hv : v ∈ rows) :
    rows.filter (fun row => isRevision cr row && target cr row = some v.attestationId &&
      !isForeign cr rows row) = authorsRevisions cr rows v := by
  apply List.filter_congr
  intro row _
  rw [Bool.eq_iff_iff]
  simp only [Bool.and_eq_true, Bool.not_eq_true', decide_eq_true_eq]
  constructor
  · intro ⟨⟨hrevision, htarget⟩, hforeign⟩
    refine ⟨hrevision, ?_⟩
    simpa [isForeign, hrevision, htarget, h.rowOf_eq hv] using hforeign
  · intro ⟨hrevision, hauthors⟩
    have htarget := (hd.authors row v hauthors).2
    refine ⟨⟨hrevision, htarget⟩, ?_⟩
    simp [isForeign, htarget, h.rowOf_eq hv, hauthors]

theorem foldStatus_singleton (hd : Documented cr) (r : Attestation) :
    foldStatus cr (some [r]) = (statusToken r.attestationType, some r.attestationId) := by
  have horder : cr.hashOrder [r.attestingKeyId] = [r.attestingKeyId] :=
    List.perm_singleton.mp (hd.hashOrder _)
  simp [foldStatus, horder, better, hd.winner]

/-- The status of a row of a thread is what comes next. -/
theorem Shows.foldStatus_eq {book : List Thread} {pre post : List Attestation}
    (h : Shows cr a book rows) (hd : Documented cr) (ht : t ∈ book)
    (hsplit : t.rows = pre ++ v :: post) :
    foldStatus cr (composersOf cr rows v.attestationId) =
      (post.head?.elim "live" fun r => statusToken r.attestationType,
        post.head?.map (·.attestationId)) := by
  have hv : v ∈ t.rows := by simp [hsplit]
  have hcomposers := h.composersOf_eq hd (h.mem_rows ht hv).1
  rw [h.authorsRevisions_eq hd ht hsplit] at hcomposers
  unfold composersOf
  rw [hcomposers]
  cases post with
  | nil => rfl
  | cons r post => exact foldStatus_singleton hd r

theorem Shows.isForeign_eq {book : List Thread} (h : Shows cr a book rows) (hd : Documented cr)
    (ht : t ∈ book) (hv : v ∈ t.rows) : isForeign cr rows v = false := by
  obtain ⟨pre, post, hsplit⟩ := List.append_of_mem hv
  cases pre using List.reverseRecOn with
  | nil =>
    have hroot : t.root = v := (List.cons.inj (t.rows_eq_cons ▸ hsplit)).1
    simp [isForeign, ← hroot, (h.wf t ht).root]
  | append_singleton pre p =>
    have hsplit' : t.rows = pre ++ p :: v :: post := by simp [hsplit]
    have hchain := h.threaded.chain t.rows (List.mem_map_of_mem ht)
    rw [hsplit', List.isChain_append_cons_cons] at hchain
    have hauthors := hchain.2.1.2
    have hp : p ∈ t.rows := by simp [hsplit']
    simp [isForeign, (hd.authors v p hauthors).2, h.rowOf_eq (h.mem_rows ht hp).1, hauthors]

/-- What is left of a row when the superseded ones are taken out. -/
def headShown (cr : Crates) (reader : Reader) (communityId : String) (rows : List Attestation)
    (row : Attestation) : Option Shown :=
  (rowShown cr reader communityId rows row).filter (·.status ≠ "superseded")

theorem headShown_of_retraction (h : row.attestationType = "withdraws" ∨
    row.attestationType = "recants") (communityId : String) :
    headShown cr reader communityId rows row = none := by
  have hnot : ¬ Listed cr communityId rows row := fun hl =>
    h.elim (fun htype => hl.2.2.1 htype) fun htype => hl.2.2.2.1 htype
  rw [headShown, rowShown, if_neg hnot]
  rfl

theorem Thread.Wf.status_ne (h : t.Wf cr) : t.status ≠ "superseded" := by
  unfold Thread.status
  cases hr : t.retraction with
  | none => simp
  | some r =>
    cases h.retraction r hr with
    | inl htype => simp [htype, statusToken]
    | inr htype => simp [htype, statusToken]

/-- A version is listed exactly if the message is in the room. -/
theorem Shows.listed_iff {book : List Thread} (h : Shows cr a book rows) (hd : Documented cr)
    (ht : t ∈ book) (hv : v ∈ t.versions) (communityId : String) :
    Listed cr communityId rows v ↔ t.placed cr communityId = true := by
  have hforeign := h.isForeign_eq hd ht (List.mem_append_left _ hv)
  have hsame : (v.cohortScope = "community" ∧ (cr.fromRow v communityId).isSome) ↔
      t.placed cr communityId = true := by
    unfold Thread.placed
    cases List.mem_cons.mp hv with
    | inl hroot => simp [hroot]
    | inr he =>
      obtain ⟨-, hcohort, hroot, hmessage⟩ := (h.wf t ht).edits v he
      simp [hcohort, hroot, hmessage]
  rw [← hsame]
  constructor
  · exact fun hl => ⟨hl.1, hl.2.2.2.2⟩
  · intro ⟨hcohort, hmessage⟩
    have htype := hd.message v communityId hmessage
    exact ⟨hcohort, hforeign, htype.1, htype.2, hmessage⟩

/-- A version that is not the last one is superseded. -/
theorem Shows.headShown_earlier {book : List Thread} {pre : List Attestation}
    (h : Shows cr a book rows) (hd : Documented cr) (ht : t ∈ book)
    (hpre : t.versions = pre ++ [t.head]) (hv : v ∈ pre) (communityId : String) :
    headShown cr reader communityId rows v = none := by
  obtain ⟨before, after, rfl⟩ := List.append_of_mem hv
  obtain ⟨e, more, hmore⟩ : ∃ e more, after ++ [t.head] = e :: more := by
    cases after with
    | nil => exact ⟨_, _, rfl⟩
    | cons e after => exact ⟨_, _, rfl⟩
  have hversions : t.versions = before ++ v :: e :: more := by
    rw [hpre, List.append_assoc, List.cons_append, hmore]
  have he : e ∈ t.edits := by
    cases before with
    | nil => simp [(List.cons.inj hversions).2]
    | cons x before => simp [(List.cons.inj hversions).2]
  have hrows : t.rows = before ++ v :: (e :: more ++ t.retraction.toList) := by
    rw [Thread.rows, hversions, List.append_assoc, List.cons_append]
  unfold headShown rowShown
  split
  · rw [h.foldStatus_eq hd ht hrows]
    simp [((h.wf t ht).edits e he).1, statusToken]
  · rfl

theorem Shows.headShown_head {book : List Thread} {pre : List Attestation}
    (h : Shows cr a book rows) (hd : Documented cr) (ht : t ∈ book)
    (hpre : t.versions = pre ++ [t.head]) (communityId : String) :
    headShown cr reader communityId rows t.head =
      if t.placed cr communityId then some (t.shown reader) else none := by
  have hrows : t.rows = pre ++ t.head :: t.retraction.toList := by
    rw [Thread.rows, hpre, List.append_assoc, List.singleton_append]
  have hauthor : t.head.attestingKeyId = t.root.attestingKeyId :=
    (h.mem_rows ht (List.mem_append_left _ t.head_mem)).2.trans
      (h.mem_rows ht (List.mem_append_left _ List.mem_cons_self)).2.symm
  -- what comes after the head is the retraction
  have hstanding : (t.retraction.toList.head?.elim "live" fun r =>
      statusToken r.attestationType) = t.status := by
    unfold Thread.status
    cases t.retraction <;> rfl
  have hid : t.retraction.toList.head? = t.retraction := by cases t.retraction <;> rfl
  have hlisted := h.listed_iff hd ht t.head_mem communityId
  unfold headShown rowShown
  by_cases hplaced : t.placed cr communityId = true
  · rw [if_pos (hlisted.mpr hplaced), if_pos hplaced, h.foldStatus_eq hd ht hrows, hstanding, hid,
      hauthor]
    simp [(h.wf t ht).status_ne, Thread.shown]
  · rw [if_neg fun hl => hplaced (hlisted.mp hl), if_neg hplaced]
    rfl

/-- **One entry for a message**: at its last version, if it is in the room. -/
theorem Shows.headShown_rows {book : List Thread} (h : Shows cr a book rows)
    (hd : Documented cr) (ht : t ∈ book) (communityId : String) :
    t.rows.filterMap (headShown cr reader communityId rows) =
      if t.placed cr communityId then [t.shown reader] else [] := by
  obtain ⟨pre, hpre⟩ := List.getLast?_eq_some_iff.mp t.getLast?_versions
  have hretraction : t.retraction.toList.filterMap (headShown cr reader communityId rows) = [] := by
    apply List.filterMap_eq_nil_iff.mpr
    intro r hr
    have htype := (h.wf t ht).retraction r (Option.mem_toList.mp hr)
    exact headShown_of_retraction htype communityId
  have hearlier : pre.filterMap (headShown cr reader communityId rows) = [] :=
    List.filterMap_eq_nil_iff.mpr fun v hv => h.headShown_earlier hd ht hpre hv communityId
  rw [Thread.rows, hpre, List.filterMap_append, List.filterMap_append, hearlier, hretraction,
    List.nil_append, List.append_nil, List.filterMap_cons, h.headShown_head hd ht hpre]
  cases t.placed cr communityId <;> rfl

theorem shown_of_mapM {resolveOnly : Option String} {rows' : List Attestation}
    {out : List (Option ChatMessage)}
    (h : rows'.mapM (project cr reader room.communityId members rows resolveOnly) = .ok out) :
    out.reduceOption.map ChatMessage.shown =
      rows'.filterMap (rowShown cr reader room.communityId rows) := by
  induction rows' generalizing out with
  | nil =>
    cases h
    rfl
  | cons row rows' ih =>
    rw [List.mapM_cons] at h
    obtain ⟨first, hfirst, h⟩ := except_bind_ok h
    obtain ⟨rest, hrest, h⟩ := except_bind_ok h
    cases h
    have hshown := shown_of_project hfirst
    have htail := ih hrest
    cases first with
    | none =>
      rw [List.reduceOption_cons_of_none, htail, List.filterMap_cons_none hshown.symm]
    | some m =>
      rw [List.reduceOption_cons_of_some, List.map_cons, htail,
        List.filterMap_cons_some hshown.symm]

/-- Who wrote what is shown. -/
theorem author_of_rowShown {communityId : String} {m : Shown}
    (h : rowShown cr reader communityId rows row = some m) :
    m.attestingKeyId = row.attestingKeyId := by
  unfold rowShown at h
  split at h
  · cases h
    rfl
  · cases h

/-- The author's rows, and the last versions among them. -/
theorem filter_rowShown (a communityId : String) (rows' : List Attestation) :
    (((rows'.filterMap (rowShown cr reader communityId rows)).filter
        (·.status ≠ "superseded")).filter (·.attestingKeyId = a)) =
      (rows'.filter (·.attestingKeyId = a)).filterMap
        (headShown cr reader communityId rows) := by
  induction rows' with
  | nil => rfl
  | cons row rows' ih =>
    cases hshown : rowShown cr reader communityId rows row with
    | none =>
      have hhead : headShown cr reader communityId rows row = none := by rw [headShown, hshown]; rfl
      rw [List.filterMap_cons_none hshown, ih, List.filter_cons]
      split
      · rw [List.filterMap_cons_none hhead]
      · rfl
    | some m =>
      have hauthor := author_of_rowShown hshown
      rw [List.filterMap_cons_some hshown, List.filter_cons, List.filter_cons, ← hauthor]
      by_cases hstatus : m.status = "superseded"
      · have hhead : headShown cr reader communityId rows row = none := by
          simp [headShown, hshown, hstatus]
        rw [if_neg (by simp [hstatus]), ih]
        split
        · rw [List.filterMap_cons_none hhead]
        · rfl
      · have hhead : headShown cr reader communityId rows row = some m := by
          simp [headShown, hshown, hstatus]
        rw [if_pos (by simp [hstatus]), List.filter_cons, ih]
        split
        · rw [List.filterMap_cons_some hhead]
        · rfl

/-- **The transcript.** On every node that holds the rows of `a`, it shows the messages of `a` that
    are in the room and no other rows of theirs: each once, as its last version, as live, withdrawn
    or recanted, with what the reader may do to it. -/
theorem transcript_spec {resolveOnly : Option String} {out : List ChatMessage}
    (hd : Documented cr) (es : List Event) (hok : Guarded (next cr a) (Ok cr a) {} es)
    (hrep : Replica a (after (next cr a) {} es).store held room)
    (hout : collectMessages cr reader room resolveOnly = .ok out) :
    (((headsOnly out).filter (·.attestingKeyId = a)).map ChatMessage.shown).Perm
      (((after (next cr a) {} es).book.filter (Thread.placed cr room.communityId)).map
        (Thread.shown reader)) := by
  obtain ⟨⟨members, rows⟩, hread, hout⟩ := except_bind_ok hout
  obtain ⟨messages, hmessages, hout⟩ := except_bind_ok hout
  cases hout
  have h := (shows_after hd hok).read hrep hread
  generalize (after (next cr a) {} es).book = book at h
  -- the filters are of what is shown, and the order is that of the transcript
  have hfilter : ∀ l : List ChatMessage,
      ((headsOnly l).filter (·.attestingKeyId = a)).map ChatMessage.shown =
        ((l.map ChatMessage.shown).filter (·.status ≠ "superseded")).filter
          (·.attestingKeyId = a) := by
    intro l
    simp only [headsOnly, List.filter_map]
    rfl
  have hsorted := (List.perm_insertionSort ChatMessage.before messages.reduceOption)
  have hrows : (rows.filter (·.attestingKeyId = a)).Perm (book.map Thread.rows).flatten := by
    apply (List.perm_ext_iff_of_nodup ((List.Nodup.of_map _ h.ids).filter _)
      (List.Nodup.of_map _ h.threaded.keys)).mpr
    intro r
    rw [h.mem, List.mem_filter, decide_eq_true_eq]
  rw [hfilter]
  refine (((hsorted.map ChatMessage.shown).filter _).filter _).trans ?_
  rw [shown_of_mapM hmessages, filter_rowShown]
  refine (hrows.filterMap _).trans ?_
  have hthreads : ∀ ts : List Thread, (∀ t ∈ ts, t ∈ book) →
      (ts.map Thread.rows).flatten.filterMap (headShown cr reader room.communityId rows) =
        (ts.filter (Thread.placed cr room.communityId)).map (Thread.shown reader) := by
    intro ts
    induction ts with
    | nil => exact fun _ => rfl
    | cons t ts ih =>
      intro hts
      obtain ⟨ht, hts⟩ := List.forall_mem_cons.mp hts
      rw [List.map_cons, List.flatten_cons, List.filterMap_append, ih hts,
        h.headShown_rows hd ht, List.filter_cons]
      split <;> rfl
  rw [hthreads book fun t ht => ht]

/-- Bob's row is not an edit, and Alice's message is shown once. -/
theorem transcript_spec_alice :
    (((headsOnly (sampleTranscript (sampleStore sampleEdits))).filter
      (·.attestingKeyId = "alice")).map ChatMessage.shown).Perm
      [⟨"a1", "alice", "live", none, revisionOps⟩] :=
  have hout : collectMessages sampleCrates sampleReader (sampleRoom (sampleStore sampleEdits)) none =
      .ok (sampleTranscript (sampleStore sampleEdits)) := rfl
  transcript_spec documented_sample sampleEdits ok_sampleEdits (replica_sample (by decide)) hout

end Readers

/-! ## An edit does not shed a flag -/

section Moderation

open RoomModeration (ModerationView)

variable {cr : Crates} {reader : Reader} {room : Room} {members : List Member}
  {rows : List Attestation} {row : Attestation} {m : ChatMessage} {view : ModerationView}
  {f : String → Except String (Option ModerationView)} {editsOf : String → Option String}
  {chain more : List String} {prior : Option String} {found : Option ModerationView} {n : Nat}

/-- `d` is the first decision about the ids from `start` on, `n` of them at most. -/
def FirstDecision (f : String → Except String (Option ModerationView))
    (next : String → Option String) (n : Nat) (start : Option String) (d : ModerationView) : Prop :=
  ∃ k < n, ∃ id, Walk.nth next k start = some id ∧ f id = .ok (some d) ∧
    ∀ j < k, ∀ id', Walk.nth next j start = some id' → f id' = .ok none

theorem firstDecision_succ {next : String → Option String} {id : String} (hid : f id = .ok none) :
    FirstDecision f next (n + 1) (some id) view ↔ FirstDecision f next n (next id) view := by
  constructor
  · rintro ⟨k, hk, id', hnth, hview, hbefore⟩
    cases k with
    | zero =>
      cases hnth
      rw [hid] at hview
      cases hview
    | succ k =>
      exact ⟨k, Nat.lt_of_succ_lt_succ hk, id', hnth, hview,
        fun j hj => hbefore (j + 1) (Nat.succ_lt_succ hj)⟩
  · rintro ⟨k, hk, id', hnth, hview, hbefore⟩
    refine ⟨k + 1, Nat.succ_lt_succ hk, id', hnth, hview, fun j hj id'' hnth' => ?_⟩
    cases j with
    | zero =>
      cases hnth'
      exact hid
    | succ j => exact hbefore j (Nat.lt_of_succ_lt_succ hj) id'' hnth'

theorem firstView_append (hnone : ∀ id ∈ chain, f id = .ok none) :
    firstView f (chain ++ more) = firstView f more := by
  induction chain with
  | nil => rfl
  | cons id chain ih =>
    obtain ⟨hid, hnone⟩ := List.forall_mem_cons.mp hnone
    rw [List.cons_append, firstView, hid]
    exact ih hnone

theorem firstView_of_none (hnone : ∀ id ∈ chain, f id = .ok none) :
    firstView f chain = .ok none := by
  rw [← List.append_nil chain, firstView_append hnone]
  rfl

theorem editChain_eq_append (n : Nat) (chain : List String) (prior : Option String) :
    ∃ more, editChain editsOf n chain prior = chain ++ more := by
  induction n generalizing chain prior with
  | zero => exact ⟨[], (List.append_nil chain).symm⟩
  | succ n ih =>
    cases prior with
    | none => exact ⟨[], (List.append_nil chain).symm⟩
    | some id =>
      unfold editChain
      split
      · exact ⟨[], (List.append_nil chain).symm⟩
      · obtain ⟨more, hmore⟩ := ih (chain ++ [id]) (editsOf id)
        exact ⟨id :: more, by rw [hmore, List.append_assoc, List.singleton_append]⟩

/-- A version that was seen is not asked again. -/
theorem editChain_congr {next : String → Option String}
    (hnext : ∀ id ∉ chain, next id = editsOf id) :
    editChain editsOf n chain prior = editChain next n chain prior := by
  induction n generalizing chain prior with
  | zero => rfl
  | succ n ih =>
    cases prior with
    | none => rfl
    | some id =>
      unfold editChain
      split
      · rfl
      next hmem =>
        rw [hnext id hmem]
        exact ih fun id' hid' => hnext id' fun hmem' => hid' (List.mem_append_left _ hmem')

/-- The walk along the versions stops where one comes again, and then has seen them all: what it
    finds is the first decision. -/
theorem firstView_editChain
    (hclosed : ∀ a ∈ chain, ∀ b, editsOf a = some b → b ∈ chain ∨ prior = some b)
    (hnone : ∀ id ∈ chain, f id = .ok none)
    (h : firstView f (editChain editsOf n chain prior) = .ok found) :
    found = some view ↔ FirstDecision f editsOf n prior view := by
  induction n generalizing chain prior with
  | zero =>
    rw [editChain, firstView_of_none hnone] at h
    cases h
    simp [FirstDecision]
  | succ n ih =>
    cases prior with
    | none =>
      have hend : editChain editsOf (n + 1) chain none = chain := rfl
      rw [hend, firstView_of_none hnone] at h
      cases h
      simp only [reduceCtorEq, false_iff]
      rintro ⟨k, -, id, hnth, -⟩
      rw [Walk.nth_none] at hnth
      cases hnth
    | some id =>
      unfold editChain at h
      split at h
      next hmem =>
        rw [firstView_of_none hnone] at h
        cases h
        have hstays : ∀ a ∈ chain, ∀ b, editsOf a = some b → b ∈ chain := by
          intro a ha b hb
          obtain hb | hb := hclosed a ha b hb
          · exact hb
          · exact Option.some.inj hb ▸ hmem
        simp only [reduceCtorEq, false_iff]
        rintro ⟨k, -, id', hnth, hview, -⟩
        rw [hnone id' (Walk.nth_mem hstays hmem hnth)] at hview
        cases hview
      next hmem =>
        cases hid : f id with
        | error e =>
          obtain ⟨more, hmore⟩ := editChain_eq_append n (chain ++ [id]) (editsOf id)
          rw [hmore, List.append_assoc, firstView_append hnone, List.singleton_append, firstView,
            hid] at h
          cases h
        | ok decision =>
          cases decision with
          | some d =>
            obtain ⟨more, hmore⟩ := editChain_eq_append n (chain ++ [id]) (editsOf id)
            rw [hmore, List.append_assoc, firstView_append hnone, List.singleton_append, firstView,
              hid] at h
            cases h
            constructor
            · intro heq
              cases heq
              exact ⟨0, Nat.succ_pos n, id, rfl, hid, fun j hj => absurd hj (Nat.not_lt_zero j)⟩
            · rintro ⟨k, -, id', hnth, hview, hbefore⟩
              cases k with
              | zero =>
                cases hnth
                rw [hid] at hview
                cases hview
                rfl
              | succ k =>
                have hfirst := hbefore 0 (Nat.succ_pos k) id rfl
                rw [hid] at hfirst
                cases hfirst
          | none =>
            rw [firstDecision_succ hid]
            apply ih _ _ h
            · intro a ha b hb
              cases List.mem_append.mp ha with
              | inl ha =>
                obtain hb | hb := hclosed a ha b hb
                · exact Or.inl (List.mem_append_left _ hb)
                · cases hb
                  exact Or.inl (List.mem_append_right _ (List.mem_singleton.mpr rfl))
              | inr ha =>
                cases List.mem_singleton.mp ha
                exact Or.inr hb
            · intro a ha
              cases List.mem_append.mp ha with
              | inl ha => exact hnone a ha
              | inr ha => exact List.mem_singleton.mp ha ▸ hid

/-- What a version edits: the message itself by its own row, and a row that is held by what its
    member reads. -/
def editedBy (cr : Crates) (communityId : String) (rows : List Attestation) (m : ChatMessage)
    (id : String) : Option String :=
  if id = m.attestationId then m.edits
  else ((rowOf rows id).bind (cr.fromRow · communityId)).bind (·.edits)

/-- What a message takes over from the row and its decision. -/
theorem project_cases {resolveOnly : Option String}
    (h : project cr reader room.communityId members rows resolveOnly row = .ok (some m)) :
    ∃ opened, cr.fromRow row room.communityId = some opened ∧ m.edits = opened.edits ∧
      m.attestationId = row.attestationId ∧ m.author = opened.authorKeyId ∧
      firstView (reader.viewOf · opened.authorKeyId)
        (editChain (fun id => ((rowOf rows id).bind (cr.fromRow · room.communityId)).bind (·.edits))
          (maxEditChain - 1) [row.attestationId] opened.edits) = .ok m.moderation ∧
      (m.moderation.any (·.withheld) = true → m.body = none ∧ m.attachment = none) := by
  unfold project at h
  split at h
  · cases h
  · split at h
    · cases h
    · split at h
      · cases h
      next opened hopened =>
        obtain ⟨moderation, hmoderation, h⟩ := except_bind_ok h
        have hm := Option.some.inj (Except.ok.inj h)
        have hview : m.moderation = moderation := by
          rw [← hm]
        refine ⟨opened, hopened, ?_, ?_, ?_, hview ▸ hmoderation, ?_⟩
        · rw [← hm]
        · rw [← hm]
        · rw [← hm]
        · rw [hview]
          intro hwithheld
          rw [← hm]
          exact ⟨congrArg Prod.fst (if_pos hwithheld), if_pos hwithheld⟩
/-- **An edit does not shed a flag.** The decision that a message shows is that about its own row,
    or else about the nearest version before it that the room decided about, up to 31 edits back.
    Where it withholds, neither the text nor the attachment is shown. -/
theorem moderation_iff {resolveOnly : Option String} {out : List ChatMessage}
    (hread : room.read = .ok (members, rows))
    (hout : collectMessages cr reader room resolveOnly = .ok out) (hm : m ∈ out)
    (view : ModerationView) :
    (m.moderation = some view ↔
      FirstDecision (reader.viewOf · m.author) (editedBy cr room.communityId rows m) 32
        (some m.attestationId) view) ∧
      (m.moderation.any (·.withheld) = true → m.body = none ∧ m.attachment = none) := by
  obtain ⟨⟨members', rows'⟩, hread', hout⟩ := except_bind_ok hout
  obtain ⟨messages, hmessages, hout⟩ := except_bind_ok hout
  cases hout
  rw [hread] at hread'
  cases hread'
  have hmem : some m ∈ messages :=
    List.reduceOption_mem_iff.mp ((List.perm_insertionSort _ _).mem_iff.mp hm)
  obtain ⟨row, -, hrow⟩ := exists_of_mem_mapM_ok hmessages hmem
  obtain ⟨opened, hopened, hedits, hid, hauthor, hview, hwithheld⟩ := project_cases hrow
  refine ⟨?_, hwithheld⟩
  -- the walk starts at the message itself
  have hself : editedBy cr room.communityId rows m m.attestationId = opened.edits := by
    rw [editedBy, if_pos rfl, hedits]
  have hothers : ∀ id ∉ [m.attestationId], editedBy cr room.communityId rows m id =
      ((rowOf rows id).bind (cr.fromRow · room.communityId)).bind (·.edits) := by
    intro id hne
    rw [editedBy, if_neg fun heq => hne (List.mem_singleton.mpr heq)]
  rw [← hid, editChain_congr hothers, ← hself, ← hauthor] at hview
  have hstart : editChain (editedBy cr room.communityId rows m) 32 [] (some m.attestationId) =
      editChain (editedBy cr room.communityId rows m) (maxEditChain - 1) [m.attestationId]
        (editedBy cr room.communityId rows m m.attestationId) := rfl
  rw [← hstart] at hview
  exact firstView_editChain (fun _ ha => absurd ha List.not_mem_nil)
    (fun _ ha => absurd ha List.not_mem_nil) hview

/-- A text that edits what its row refers to. -/
def editingCrates : Crates :=
  { sampleCrates with
    fromRow := fun row room => (sampleCrates.fromRow row room).map fun opened =>
      { opened with edits := row.references, body := .text "second" } }

/-- The room flagged the first version. -/
def flaggedView : ModerationView where
  flag := some "reported"
  itemAttestationId := "m1"
  flagAttestationId := "f1"
  flaggedBy := "mod"
  withheld := true
  revealed := false
  reconsideration := none
  reconsiderationAttestationId := none

def flaggedReader : Reader :=
  { sampleReader with viewOf := fun id _ => .ok (if id = "m1" then some flaggedView else none) }

def flaggedTranscript : List ChatMessage :=
  match collectMessages editingCrates flaggedReader (sampleRoom (sampleStore sampleEdits)) none with
  | .ok out => out
  | .error _ => []

/-- Alice's edit of the message. -/
def flaggedEdit : ChatMessage := flaggedTranscript.get ⟨0, by decide⟩

/-- It is withheld with the message. -/
theorem moderation_iff_alice :
    flaggedEdit.moderation = some flaggedView ∧ flaggedEdit.body = none := by
  have hread : (sampleRoom (sampleStore sampleEdits)).read =
      .ok ([⟨"alice", none⟩, ⟨"bob", none⟩], sampleRows (sampleStore sampleEdits)) := rfl
  have hout : collectMessages editingCrates flaggedReader (sampleRoom (sampleStore sampleEdits))
      none = .ok flaggedTranscript := rfl
  have hmem : flaggedEdit ∈ flaggedTranscript := List.get_mem _ _
  have hiff := moderation_iff hread hout hmem flaggedView
  have hshown : flaggedEdit.moderation = some flaggedView := by
    apply hiff.1.mpr
    refine ⟨1, by decide, "m1", rfl, rfl, fun j hj id hid => ?_⟩
    obtain rfl : j = 0 := Nat.lt_one_iff.mp hj
    cases hid
    rfl
  exact ⟨hshown, (hiff.2 (by rw [hshown]; rfl)).1⟩

end Moderation

end CirisServer.ContactsChat
