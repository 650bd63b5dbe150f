import Mathlib.Tactic.SplitIfs
import CirisServer.Native.Drive

/-!
# A change that keeps the file

After any number of the writes of a change, the owner can list the old row or the new one.

Key results:
- `withdrawRows_writes`: what a withdrawal writes, and when it reaches the listed row
- `keeps_file_iff`: the file is kept at every moment, unless a row that has not crossed replaces it
-/

namespace CirisServer.Drive

/-- A row that a room lists. -/
def Listed (s : FileStore) (room : ScopeRoom) (attestationId : String) : Prop :=
  (room, attestationId) ∈ s.placed ∧ s.withdrawnBy attestationId = none

/-- The old row or the new one is listed in a room that the owner reads. -/
def Kept (a : Answers) (old : String) (s : FileStore) : Prop :=
  ∃ room, requireCohortMember a room = .ok () ∧
    (Listed s room old ∨ ∃ published, a.publish room = .ok published ∧
      Listed s room (readableId published))

/-- A published row is a new one: nothing in the store has its id, or refers to it. -/
structure NewRow (s : FileStore) (published : PublishedFile) : Prop where
  notPlaced : ∀ room, (room, readableId published) ∉ s.placed
  notWithdrawn : s.withdrawnBy (readableId published) = none
  newId : ∀ row ∈ s.rows, row.attestationId ≠ readableId published
  unreferenced : ∀ row ∈ s.rows, ∀ new ∈ published.row :: published.widening.toList,
    row.references ≠ some new.attestationId

/-- The withdrawal of the listed row goes through: the rows behind it can be read, its signer is
    there, and the `withdraws` is built and admitted. -/
structure Withdraws (a : Answers) (s : FileStore) (owner : String) (listed : Attestation) :
    Prop where
  chain : ∃ behind, supersededBy a s owner 7 listed = .ok behind ∧
    ((listed :: behind).any (·.attestingKeyId = owner) = true → a.pen = .ok ())
  composers : a.composers listed.attestationId = .ok ()
  build : ∃ withdrawsId, a.build listed.attestationId = .ok withdrawsId
  admitRow : a.admitRow listed.attestationId = .ok ()

/-- The calls that withdraw one row go through. -/
structure Goes (a : Answers) (attestationId : String) : Prop where
  composers : a.composers attestationId = .ok ()
  build : ∃ withdrawsId, a.build attestationId = .ok withdrawsId
  admitRow : a.admitRow attestationId = .ok ()

section

variable {a : Answers} {s : FileStore} {owner old : String} {room : ScopeRoom}
variable {published : PublishedFile} {listed row : Attestation} {rows : List Attestation}

/-! ## The store -/

@[simp] theorem after_nil : s.after [] = s := rfl

@[simp] theorem after_cons (write : Write) (writes : List Write) :
    s.after (write :: writes) = (s.apply write).after writes := rfl

theorem withdrawnBy_withdraw (id id' w : String) :
    (s.apply (.withdraw id w)).withdrawnBy id' =
      if id' = id then some w else s.withdrawnBy id' := by
  show List.lookup id' ((id, w) :: s.withdraws) = _
  rw [List.lookup_cons]
  by_cases h : id' = id
  · rw [h, beq_self_eq_true, if_pos rfl]
  · rw [beq_false_of_ne h, if_neg h]
    rfl

/-- What is withdrawn stays withdrawn. -/
theorem withdrawn_after {id : String} (h : s.withdrawnBy id ≠ none) (writes : List Write) :
    (s.after writes).withdrawnBy id ≠ none := by
  induction writes generalizing s with
  | nil => exact h
  | cons write writes ih =>
    apply ih
    cases write with
    | publish room published => exact h
    | withdraw id' w =>
      rw [withdrawnBy_withdraw]
      split_ifs
      · exact Option.some_ne_none w
      · exact h

/-- Withdrawals of other rows leave a row listed. -/
theorem Listed.after_withdraws {id : String} (h : Listed s room id) (writes : List Write)
    (hothers : ∀ write ∈ writes, ∃ id' w, write = .withdraw id' w ∧ id' ≠ id) :
    Listed (s.after writes) room id := by
  induction writes generalizing s with
  | nil => exact h
  | cons write writes ih =>
    obtain ⟨id', w, rfl, hne⟩ := hothers _ List.mem_cons_self
    apply ih
    · refine ⟨h.1, ?_⟩
      rw [withdrawnBy_withdraw, if_neg (Ne.symm hne)]
      exact h.2
    · exact fun write hwrite => hothers write (List.mem_cons_of_mem _ hwrite)

/-! ## A withdrawal -/

/-- **Inversion.** The loop passes over a row that is withdrawn, withdraws it, or stops there. -/
theorem withdrawEach_cases (a : Answers) (s : FileStore) (row : Attestation)
    (rows : List Attestation) :
    ((s.withdrawnBy row.attestationId).isSome = true ∧
      withdrawEach a s (row :: rows) = withdrawEach a s rows) ∨
    (∃ w, Goes a row.attestationId ∧
      withdrawEach a s (row :: rows) =
        (.withdraw row.attestationId w ::
          (withdrawEach a (s.apply (.withdraw row.attestationId w)) rows).1,
        (withdrawEach a (s.apply (.withdraw row.attestationId w)) rows).2.map
          (row.attestationId :: ·))) ∨
    (¬ Goes a row.attestationId ∧ ∃ e, withdrawEach a s (row :: rows) = ([], .error e)) := by
  rw [withdrawEach]
  cases hcomposers : a.composers row.attestationId with
  | error e =>
    refine Or.inr (Or.inr ⟨fun h => ?_, _, rfl⟩)
    have hread := h.composers
    rw [hcomposers] at hread
    cases hread
  | ok u =>
    by_cases hwithdrawn : (s.withdrawnBy row.attestationId).isSome = true
    · exact Or.inl ⟨hwithdrawn, if_pos hwithdrawn⟩
    · simp only [if_neg hwithdrawn]
      cases hbuild : a.build row.attestationId with
      | error e =>
        refine Or.inr (Or.inr ⟨fun h => ?_, _, rfl⟩)
        obtain ⟨w, hw⟩ := h.build
        rw [hbuild] at hw
        cases hw
      | ok w =>
        cases hput : a.admitRow row.attestationId with
        | error e =>
          refine Or.inr (Or.inr ⟨fun h => ?_, _, rfl⟩)
          have hputOk := h.admitRow
          rw [hput] at hputOk
          cases hputOk
        | ok u' => exact Or.inr (Or.inl ⟨w, ⟨hcomposers, ⟨w, hbuild⟩, hput⟩, rfl⟩)

/-- Only rows of the chain are withdrawn, and only if the calls for them go through. -/
theorem withdrawEach_writes (s : FileStore) (rows : List Attestation) :
    ∀ write ∈ (withdrawEach a s rows).1,
      ∃ row ∈ rows, Goes a row.attestationId ∧ ∃ w, write = .withdraw row.attestationId w := by
  induction rows generalizing s with
  | nil =>
    intro write hwrite
    cases hwrite
  | cons row rows ih =>
    have hrest : ∀ s, ∀ write ∈ (withdrawEach a s rows).1, ∃ other ∈ row :: rows,
        Goes a other.attestationId ∧ ∃ w, write = .withdraw other.attestationId w := by
      intro s write hwrite
      obtain ⟨other, hother, hgoes, w, heq⟩ := ih s write hwrite
      exact ⟨other, List.mem_cons_of_mem _ hother, hgoes, w, heq⟩
    intro write hwrite
    rcases withdrawEach_cases a s row rows with ⟨-, heq⟩ | ⟨w, hgoes, heq⟩ | ⟨-, e, heq⟩
    · rw [heq] at hwrite
      exact hrest s write hwrite
    · rw [heq] at hwrite
      rcases List.mem_cons.mp hwrite with rfl | hwrite
      · exact ⟨row, List.mem_cons_self, hgoes, w, rfl⟩
      · exact hrest _ write hwrite
    · rw [heq] at hwrite
      cases hwrite

/-- The rows behind a row are rows that the directory already had. -/
theorem supersededBy_mem (hfresh : NewRow s published) {n : Nat} {cur : Attestation}
    (hcur : cur ∈ s.rows) {behind : List Attestation}
    (h : supersededBy a (s.apply (.publish room published)) owner n cur = .ok behind) :
    ∀ row ∈ behind, row ∈ s.rows := by
  induction n generalizing cur behind with
  | zero =>
    cases h
    exact fun row hrow => absurd hrow List.not_mem_nil
  | succ n ih =>
    rw [supersededBy] at h
    split_ifs at h
    · cases hreferences : cur.references with
      | none =>
        rw [hreferences] at h
        cases h
        exact fun row hrow => absurd hrow List.not_mem_nil
      | some priorId =>
        rw [hreferences] at h
        obtain ⟨-, -, h⟩ := except_bind_ok h
        cases hprior : (s.apply (.publish room published)).getAttestation priorId with
        | none =>
          rw [hprior] at h
          cases h
          exact fun row hrow => absurd hrow List.not_mem_nil
        | some prior =>
          -- an older row refers to an older row
          have hold : prior ∈ s.rows := by
            rcases List.mem_append.mp (List.mem_of_find?_eq_some hprior) with hold | hnew
            · exact hold
            · have hid : prior.attestationId = priorId := by
                simpa using List.find?_some hprior
              exact absurd (hid ▸ hreferences) (hfresh.unreferenced cur hcur prior hnew)
          rw [hprior] at h
          simp only at h
          split_ifs at h
          · cases h
            exact fun row hrow => absurd hrow List.not_mem_nil
          · obtain ⟨rest, hrest, h⟩ := except_bind_ok h
            cases h
            intro row hrow
            rcases List.mem_cons.mp hrow with rfl | hrow
            · exact hold
            · exact ih hold hrest row hrow
    · cases h
      exact fun row hrow => absurd hrow List.not_mem_nil

/-- A withdrawal writes for rows of the chain only. -/
theorem withdrawRows_writes (hfresh : NewRow s published) (hlisted : listed ∈ s.rows) :
    ∀ write ∈ (withdrawRows a (s.apply (.publish room published)) owner listed).1,
      ∃ id w, write = .withdraw id w ∧ id ≠ readableId published := by
  intro write hwrite
  rw [withdrawRows] at hwrite
  cases hchain : supersededBy a (s.apply (.publish room published)) owner 7 listed with
  | error e =>
    rw [hchain] at hwrite
    cases hwrite
  | ok behind =>
    simp only [hchain] at hwrite
    split at hwrite
    · cases hwrite
    · obtain ⟨row, hrow, -, w, rfl⟩ := withdrawEach_writes _ _ write hwrite
      refine ⟨row.attestationId, w, rfl, hfresh.newId row ?_⟩
      rcases List.mem_cons.mp hrow with rfl | hrow
      · exact hlisted
      · exact supersededBy_mem hfresh hlisted hchain row hrow

/-- A withdrawal of a row that is not withdrawn yet begins with that row, or writes nothing. -/
theorem withdrawRows_first (s : FileStore) (owner : String)
    (hlive : s.withdrawnBy listed.attestationId = none) :
    (Withdraws a s owner listed ∧ ∃ w writes,
      (withdrawRows a s owner listed).1 = .withdraw listed.attestationId w :: writes) ∨
    (¬ Withdraws a s owner listed ∧ (withdrawRows a s owner listed).1 = []) := by
  rw [withdrawRows]
  cases hchain : supersededBy a s owner 7 listed with
  | error e =>
    refine Or.inr ⟨fun h => ?_, rfl⟩
    obtain ⟨behind, hbehind, -⟩ := h.chain
    rw [hchain] at hbehind
    cases hbehind
  | ok behind =>
    simp only
    split
    · next hpen =>
      refine Or.inr ⟨fun h => ?_, rfl⟩
      obtain ⟨behind', hbehind, hopen⟩ := h.chain
      rw [hchain] at hbehind
      cases hbehind
      split_ifs at hpen with hown
      rw [hopen hown] at hpen
      cases hpen
    · next hpen =>
      rcases withdrawEach_cases a s listed behind with ⟨hsome, -⟩ | ⟨w, hgoes, heq⟩ |
        ⟨hstops, e, heq⟩
      · rw [hlive] at hsome
        cases hsome
      · refine Or.inl ⟨⟨⟨behind, hchain, fun hown => ?_⟩, hgoes.composers, hgoes.build,
          hgoes.admitRow⟩, w, _, congrArg Prod.fst heq⟩
        rw [if_pos hown] at hpen
        exact hpen
      · exact Or.inr ⟨fun h => hstops ⟨h.composers, h.build, h.admitRow⟩, congrArg Prod.fst heq⟩

/-! ## The checks -/

/-- What is found is the row that the directory has under the id, with its withdrawal. -/
theorem findFile_found {id : String} {found : Found} (h : findFile a s room id = .ok found) :
    s.getAttestation id = some found.row ∧ found.withdrawnBy = s.withdrawnBy id := by
  obtain ⟨-, -, h⟩ := except_bind_ok h
  split_ifs at h
  cases hrow : s.getAttestation id with
  | none =>
    rw [hrow] at h
    cases hwithdrawn : s.withdrawnBy id <;> rw [hwithdrawn] at h <;> cases h
  | some row =>
    rw [hrow] at h
    cases h
    exact ⟨rfl, rfl⟩

/-- A file that is found is a row of the directory, with the id that was asked for. -/
theorem findFile_ok {id : String} {found : Found} (h : findFile a s room id = .ok found) :
    found.row ∈ s.rows ∧ found.row.attestationId = id := by
  have hrow := (findFile_found h).1
  exact ⟨List.mem_of_find?_eq_some hrow, by simpa using List.find?_some hrow⟩

theorem roomFromQuery_ok {q : FileQuery} (h : roomFromQuery a owner q = .ok room) :
    requireCohortMember a room = .ok () := by
  obtain ⟨cohort, -, h⟩ := except_bind_ok h
  obtain ⟨named, -, h⟩ := except_bind_ok h
  obtain ⟨u, hmember, h⟩ := except_bind_ok h
  cases h
  exact hmember

/-- A request that may go on names a row of the directory and a room of the owner's. -/
theorem checks_ok {request : FileRequest} {admitted : Admitted}
    (h : request.checks a s = .ok admitted) :
    admitted.found.row ∈ s.rows ∧ admitted.found.row.attestationId = request.attestationId ∧
      requireCohortMember a admitted.target = .ok () := by
  cases request with
  | replace id q =>
    obtain ⟨owner, -, h⟩ := except_bind_ok h
    obtain ⟨-, -, h⟩ := except_bind_ok h
    obtain ⟨room, hroom, h⟩ := except_bind_ok h
    obtain ⟨found, hfound, h⟩ := except_bind_ok h
    obtain ⟨-, -, h⟩ := except_bind_ok h
    obtain ⟨-, -, h⟩ := except_bind_ok h
    obtain ⟨-, -, h⟩ := except_bind_ok h
    cases h
    exact ⟨(findFile_ok hfound).1, (findFile_ok hfound).2, roomFromQuery_ok hroom⟩
  | move id q move =>
    obtain ⟨owner, -, h⟩ := except_bind_ok h
    obtain ⟨-, -, h⟩ := except_bind_ok h
    obtain ⟨cohort, -, h⟩ := except_bind_ok h
    obtain ⟨-, -, h⟩ := except_bind_ok h
    obtain ⟨source, -, h⟩ := except_bind_ok h
    obtain ⟨target, -, h⟩ := except_bind_ok h
    obtain ⟨-, -, h⟩ := except_bind_ok h
    obtain ⟨u, hmember, h⟩ := except_bind_ok h
    obtain ⟨found, hfound, h⟩ := except_bind_ok h
    obtain ⟨held, -, h⟩ := except_bind_ok h
    obtain ⟨-, -, h⟩ := except_bind_ok h
    obtain ⟨-, -, h⟩ := except_bind_ok h
    obtain ⟨-, -, h⟩ := except_bind_ok h
    obtain ⟨-, -, h⟩ := except_bind_ok h
    obtain ⟨-, -, h⟩ := except_bind_ok h
    cases h
    exact ⟨(findFile_ok hfound).1, (findFile_ok hfound).2, hmember⟩

/-! ## A change -/

/-- The request gets as far as publishing, the new row parks, and the withdrawal of the old row goes
    through. -/
def Loses (a : Answers) (s : FileStore) (request : FileRequest) : Prop :=
  ∃ admitted published, request.checks a s = .ok admitted ∧
    a.publish admitted.target = .ok published ∧ published.crossed = false ∧
    request.keepSource = false ∧
    Withdraws a (s.apply (.publish admitted.target published)) admitted.owner admitted.found.row

theorem Listed.publish {id : String} (h : Listed s room id) (target : ScopeRoom)
    (published : PublishedFile) : Listed (s.apply (.publish target published)) room id := by
  refine ⟨?_, h.2⟩
  show _ ∈ (if published.crossed then s.placed ++ [(target, readableId published)] else s.placed)
  split_ifs
  · exact List.mem_append_left _ h.1
  · exact h.1

/-- A row that has crossed is listed in its room, and stays so. -/
theorem NewRow.stays_listed (hnew : NewRow s published) (hcrossed : published.crossed = true)
    (target : ScopeRoom) (hlisted : listed ∈ s.rows) (k : Nat) :
    Listed ((s.apply (.publish target published)).after
      ((withdrawRows a (s.apply (.publish target published)) owner listed).1.take k))
      target (readableId published) := by
  apply Listed.after_withdraws
  · refine ⟨?_, hnew.notWithdrawn⟩
    show _ ∈ (if published.crossed then s.placed ++ [(target, readableId published)] else s.placed)
    rw [if_pos hcrossed]
    exact List.mem_append_right _ List.mem_cons_self
  · intro write hwrite
    exact withdrawRows_writes hnew hlisted write (List.mem_of_mem_take hwrite)

/-- A row that has parked is in no room, and a `withdraws` retires the old one. -/
theorem NewRow.not_kept (hnew : ∀ target published, a.publish target = .ok published →
    NewRow s published) (hparked : published.crossed = false) (target : ScopeRoom) (w : String) :
    ¬ Kept a old ((s.apply (.publish target published)).apply (.withdraw old w)) := by
  have hplaced : ((s.apply (.publish target published)).apply (.withdraw old w)).placed =
      s.placed := by
    show (if published.crossed then s.placed ++ [(target, readableId published)] else s.placed) = _
    rw [if_neg (by simp [hparked])]
  rintro ⟨room, -, hold | ⟨published', hpublished', hin⟩⟩
  · have hwithdrawn := hold.2
    rw [withdrawnBy_withdraw, if_pos rfl] at hwithdrawn
    cases hwithdrawn
  · have hin' := hin.1
    rw [hplaced] at hin'
    exact (hnew room published' hpublished').notPlaced room hin'

/-- **Inversion.** What a request writes. -/
theorem handle_cases (a : Answers) (s : FileStore) (request : FileRequest) :
    (request.handle a s).writes = [] ∨
    ∃ admitted published, request.checks a s = .ok admitted ∧
      a.publish admitted.target = .ok published ∧
      (request.handle a s).writes = .publish admitted.target published ::
        if request.keepSource then []
        else (withdrawRows a (s.apply (.publish admitted.target published)) admitted.owner
          admitted.found.row).1 := by
  rw [FileRequest.handle]
  cases hchecks : request.checks a s with
  | error refusal => exact Or.inl rfl
  | ok admitted =>
    simp only [publishThenWithdraw]
    cases hpublish : a.publish admitted.target with
    | error refusal => exact Or.inl rfl
    | ok published =>
      refine Or.inr ⟨admitted, published, rfl, hpublish, ?_⟩
      split_ifs
      · rfl
      · rfl

/-- **Exactness.** Stopped after any number of its writes, a change has kept the file, unless the
    new row parks and the old one is withdrawn for it. -/
theorem keeps_file_iff (a : Answers) (s : FileStore) (request : FileRequest) (room : ScopeRoom)
    (hmember : requireCohortMember a room = .ok ())
    (hlisted : Listed s room request.attestationId)
    (hnew : ∀ target published, a.publish target = .ok published → NewRow s published) :
    (∀ k, Kept a request.attestationId (s.after ((request.handle a s).writes.take k))) ↔
      ¬ Loses a s request := by
  constructor
  · rintro hkept ⟨admitted, published, hchecks, hpublish, hparked, hmove, hwithdraws⟩
    obtain ⟨-, hid, -⟩ := checks_ok hchecks
    have hlive : (s.apply (.publish admitted.target published)).withdrawnBy
        admitted.found.row.attestationId = none := by
      rw [hid]
      exact hlisted.2
    rcases withdrawRows_first (a := a) _ admitted.owner hlive with ⟨-, w, writes, hfirst⟩ |
      ⟨hnot, -⟩
    · have htwo := hkept 2
      rw [FileRequest.handle, hchecks] at htwo
      simp only [publishThenWithdraw, hpublish, hmove, hfirst, hid] at htwo
      exact NewRow.not_kept hnew hparked admitted.target w htwo
    · exact hnot hwithdraws
  · intro hloses k
    have hold : Kept a request.attestationId s := ⟨room, hmember, Or.inl hlisted⟩
    rcases handle_cases a s request with hnone | ⟨admitted, published, hchecks, hpublish, heq⟩
    · rw [hnone, List.take_nil]
      exact hold
    · obtain ⟨hrow, hid, htarget⟩ := checks_ok hchecks
      have hpublished : Kept a request.attestationId
          (s.apply (.publish admitted.target published)) :=
        ⟨room, hmember, Or.inl (hlisted.publish _ _)⟩
      rw [heq]
      cases k with
      | zero => exact hold
      | succ k =>
        rw [List.take_succ_cons, after_cons]
        by_cases hkeep : request.keepSource = true
        · rw [if_pos hkeep, List.take_nil]
          exact hpublished
        · rw [if_neg hkeep]
          cases hcrossed : published.crossed with
          | true =>
            exact ⟨admitted.target, htarget, Or.inr ⟨published, hpublish,
              (hnew _ _ hpublish).stays_listed hcrossed admitted.target hrow k⟩⟩
          | false =>
            -- the old row is still there: its withdrawal has not gone through
            have hlive : (s.apply (.publish admitted.target published)).withdrawnBy
                admitted.found.row.attestationId = none := by
              rw [hid]
              exact hlisted.2
            rcases withdrawRows_first (a := a) _ admitted.owner hlive with ⟨hwithdraws, -⟩ |
              ⟨-, hnone⟩
            · exact absurd ⟨admitted, published, hchecks, hpublish, hcrossed,
                Bool.not_eq_true _ ▸ hkeep, hwithdraws⟩ hloses
            · rw [hnone, List.take_nil]
              exact hpublished

end

/-! ## A file of one's own -/

/-- The owner's room, with one file. -/
def oneFile : FileStore :=
  ⟨[⟨"a", "me", "file", none⟩], [(⟨.selfCollective, "me"⟩, "a")], []⟩

def newFile (crossed : Bool) : PublishedFile :=
  ⟨⟨"b", "me", "file", none⟩, none, if crossed then .placed "b" else .awaitingActor, crossed⟩

/-- Every call goes through, and the new row crosses or parks. -/
def willing (crossed : Bool) : Answers where
  nodeKeyId := "node"
  author := .ok "me"
  requireOp := .ok ()
  admits _ := .ok ()
  listing := .ok ()
  upload := .ok ()
  flagged := .ok false
  viewerKey := .ok ()
  bytes := .ok ()
  publish _ := .ok (newFile crossed)
  readRow _ := .ok ()
  composers _ := .ok ()
  pen := .ok ()
  build _ := .ok "w"
  admitRow _ := .ok ()
  shown room := room.contentGroupId
  debug := id

theorem newFile_new (crossed : Bool) {target : ScopeRoom} {published : PublishedFile}
    (h : (willing crossed).publish target = .ok published) : NewRow oneFile published := by
  cases Except.ok.inj h
  have hplaced : ∀ room, (room, "b") ∉ oneFile.placed := by simp [oneFile]
  cases crossed with
  | false => exact ⟨hplaced, by decide, by decide, by decide⟩
  | true => exact ⟨hplaced, by decide, by decide, by decide⟩

/-- A replacement that crosses is written, the old row is withdrawn, and the file is kept. -/
theorem crossed_replace_keeps :
    ((FileRequest.replace "a" ⟨none, none⟩).handle (willing true) oneFile).writes =
        [.publish ⟨.selfCollective, "me"⟩ (newFile true), .withdraw "a" "w"] ∧
    ∀ k, Kept (willing true) "a" (oneFile.after
      (((FileRequest.replace "a" ⟨none, none⟩).handle (willing true) oneFile).writes.take k)) := by
  refine ⟨by rfl, (keeps_file_iff (willing true) oneFile (.replace "a" ⟨none, none⟩)
    ⟨.selfCollective, "me"⟩ rfl ⟨List.mem_singleton_self _, rfl⟩
    fun target published => newFile_new true).mpr ?_⟩
  rintro ⟨admitted, published, -, hpublish, hparked, -⟩
  cases Except.ok.inj hpublish
  cases hparked

/-- A replacement that parks is written, the old row is withdrawn, and no room lists either. -/
theorem parked_replace_loses :
    ((FileRequest.replace "a" ⟨none, none⟩).handle (willing false) oneFile).writes =
        [.publish ⟨.selfCollective, "me"⟩ (newFile false), .withdraw "a" "w"] ∧
    ¬ ∀ k, Kept (willing false) "a" (oneFile.after
      (((FileRequest.replace "a" ⟨none, none⟩).handle (willing false) oneFile).writes.take k)) := by
  have hwrites : ((FileRequest.replace "a" ⟨none, none⟩).handle (willing false) oneFile).writes =
      [.publish ⟨.selfCollective, "me"⟩ (newFile false), .withdraw "a" "w"] := by rfl
  refine ⟨hwrites, fun hkept => ?_⟩
  have htwo := hkept 2
  rw [hwrites] at htwo
  exact NewRow.not_kept (fun target published => newFile_new false) rfl _ "w" htwo

end CirisServer.Drive
