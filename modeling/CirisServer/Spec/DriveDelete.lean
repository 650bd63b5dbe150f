import CirisServer.ForStd.Run
import CirisServer.ForStd.Walk
import CirisServer.Native.Drive
import CirisServer.Spec.DriveChange

/-!
# A deletion that finishes

The owner deletes a file by attempts, each of which may meet failures of its own.

Key results:
- `withdrawEach_ok`: a withdrawal that succeeds has withdrawn every row that it went through
- `Attempt.handle_cases`: what one attempt does
- `deletes_finish_iff`: which runs of attempts delete the file once they say so
-/

namespace CirisServer.Drive

open Walk

/-- The row that a row supersedes. -/
def FileStore.prior (s : FileStore) (row : Attestation) : Option Attestation :=
  if row.attestationType = "supersedes" then row.references.bind s.getAttestation else none

/-- The rows of a file: the listed one and those behind it, back to the authored row. -/
def InChain (s : FileStore) (listed row : Attestation) : Prop := Reaches s.prior listed row

/-- A row that a room of the owner's lists, with none of its rows withdrawn, and none a stranger's. -/
structure LiveFile (s : FileStore) (node owner : String) (room : ScopeRoom)
    (listed : Attestation) : Prop where
  ofOwner : room.cohort = .selfCollective → room.contentGroupId = owner
  placed : (room, listed.attestationId) ∈ s.placed
  row : s.getAttestation listed.attestationId = some listed
  live : ∀ row, InChain s listed row → s.withdrawnBy row.attestationId = none
  own : ∀ row, InChain s listed row → row.attestingKeyId = owner ∨ row.attestingKeyId = node

/-- An attempt: what its calls answer, and the room that it names. -/
structure Attempt (node owner attestationId : String) where
  answers : DeleteAnswers
  query : FileQuery
  node_eq : answers.nodeKeyId = node
  owner_eq : ∀ key, answers.author = .ok key → key = owner
  /-- No other row supersedes the listed one or recants it. -/
  notRetired : ∀ other, answers.retiredBy attestationId ≠ .ok (some other)
  /-- Who may not delete at all is not told that the file is gone. -/
  gates : ∀ refusal, answers.author = .error refusal ∨ answers.requireOp = .error refusal ∨
    (∃ room, answers.admits room = .error refusal) → refusal.code ≠ 410

namespace Attempt

variable {node owner attestationId : String}

def handle (b : Attempt node owner attestationId) (s : FileStore) : Deletion :=
  withdrawFile b.answers s attestationId b.query

def step (s : FileStore) (b : Attempt node owner attestationId) : FileStore :=
  s.after (b.handle s).writes

end Attempt

/-- Answered 200 or 410. -/
def Settled (answer : Except Refusal DeleteResponse) : Prop :=
  (∃ response, answer = .ok response) ∨ ∃ refusal, answer = .error refusal ∧ refusal.code = 410

/-- Every row that the file had in `s₀` is withdrawn. -/
def Deleted (s₀ : FileStore) (listed : Attestation) (s : FileStore) : Prop :=
  ∀ row, InChain s₀ listed row → s.withdrawnBy row.attestationId ≠ none

/-- Nothing fails in this attempt, and it names a room that lists the file. -/
structure Attempt.Willing {node owner attestationId : String}
    (b : Attempt node owner attestationId) (s : FileStore) : Prop where
  author : b.answers.author = .ok owner
  requireOp : b.answers.requireOp = .ok ()
  room : ∃ room, roomFromQuery b.answers.toAnswers owner b.query = .ok room ∧
    (room, attestationId) ∈ s.placed
  listing : b.answers.listing = .ok ()
  retiredBy : b.answers.retiredBy attestationId = .ok none
  readRow : ∀ id, b.answers.readRow id = .ok ()
  pen : b.answers.pen = .ok ()
  goes : ∀ id, Goes b.answers.toAnswers id

/-- The attempts delete the file: an attempt that is answered 200 or 410 finds every row of it
    withdrawn, one that meets no failure finishes at any time, and no other row is touched. -/
structure Finishes {node owner : String} (s : FileStore) (listed : Attestation)
    (attempts : List (Attempt node owner listed.attestationId)) : Prop where
  answered : ∀ before b, before ++ [b] <+: attempts →
    Settled (b.handle (Run.after Attempt.step s before)).answer →
    Deleted s listed (Run.after Attempt.step s (before ++ [b]))
  completed : ∀ before, before <+: attempts →
    ∀ b : Attempt node owner listed.attestationId, b.Willing s →
    Settled (b.handle (Run.after Attempt.step s before)).answer ∧
      Deleted s listed (Run.after Attempt.step s (before ++ [b]))
  others : ∀ id, (Run.after Attempt.step s attempts).withdrawnBy id ≠ none →
    s.withdrawnBy id ≠ none ∨ ∃ row, InChain s listed row ∧ row.attestationId = id

/-- The loop over the chain gets to the end of it: eight rows at most. -/
def Short (s : FileStore) (listed : Attestation) : Prop :=
  ∀ row, InChain s listed row → row ∈ listed :: trail s.prior 7 listed

/-- The attempt gets to withdraw the listed row. -/
def Attempt.Starts {node owner attestationId : String} (listed : Attestation) (s : FileStore)
    (b : Attempt node owner attestationId) : Prop :=
  (∃ request, withdrawChecks b.answers s attestationId b.query = .ok request) ∧
    Withdraws b.answers.toAnswers s owner listed

/-- The attempt then gets to withdraw the rows behind it. -/
def Attempt.Whole {node owner attestationId : String} (listed : Attestation) (s : FileStore)
    (b : Attempt node owner attestationId) : Prop :=
  ∀ row ∈ trail s.prior 7 listed, Goes b.answers.toAnswers row.attestationId

section

variable {a : Answers} {s s' : FileStore} {node owner : String} {room : ScopeRoom}
variable {listed row cur : Attestation} {rows behind : List Attestation} {n : Nat}

/-! ## The chain -/

theorem LiveFile.listed_live (hfile : LiveFile s node owner room listed) :
    s.withdrawnBy listed.attestationId = none := hfile.live listed (Reaches.refl listed)

/-- Where every row is the owner's or the node's, the rows that a withdrawal reads are the chain. -/
theorem supersededBy_ok (hnode : a.nodeKeyId = node)
    (hown : ∀ row, Reaches s.prior cur row → row.attestingKeyId = owner ∨ row.attestingKeyId = node)
    (h : supersededBy a s owner n cur = .ok behind) : behind = trail s.prior n cur := by
  induction n generalizing cur behind with
  | zero =>
    cases h
    rfl
  | succ n ih =>
    rw [supersededBy] at h
    by_cases hsupersedes : cur.attestationType = "supersedes"
    · rw [if_pos hsupersedes] at h
      cases hreferences : cur.references with
      | none =>
        have hprior : s.prior cur = none := by
          rw [FileStore.prior, if_pos hsupersedes, hreferences, Option.bind_none]
        rw [hreferences] at h
        cases h
        exact (trail_none hprior).symm
      | some priorId =>
        have hprior : s.prior cur = s.getAttestation priorId := by
          rw [FileStore.prior, if_pos hsupersedes, hreferences, Option.bind_some]
        rw [hreferences] at h
        obtain ⟨-, -, h⟩ := except_bind_ok h
        cases hget : s.getAttestation priorId with
        | none =>
          rw [hget] at h
          cases h
          exact (trail_none (hprior.trans hget)).symm
        | some prior =>
          have hnext : s.prior cur = some prior := hprior.trans hget
          have hours := hown prior ((Reaches.refl prior).cons hnext)
          rw [hget] at h
          simp only at h
          rw [if_neg fun hforeign => hours.elim hforeign.2 (hnode ▸ hforeign.1)] at h
          obtain ⟨rest, hrest, h⟩ := except_bind_ok h
          cases h
          rw [trail_some hnext, ih (fun row hrow => hown row (hrow.cons hnext)) hrest]
    · have hprior : s.prior cur = none := if_neg hsupersedes
      rw [if_neg hsupersedes] at h
      cases h
      exact (trail_none hprior).symm

/-- Where every row can be read, so can the chain. -/
theorem supersededBy_total (hread : ∀ id, a.readRow id = .ok ()) (s : FileStore) (owner : String)
    (n : Nat) (cur : Attestation) : ∃ behind, supersededBy a s owner n cur = .ok behind := by
  induction n generalizing cur with
  | zero => exact ⟨[], rfl⟩
  | succ n ih =>
    rw [supersededBy]
    split_ifs
    · cases cur.references with
      | none => exact ⟨[], rfl⟩
      | some priorId =>
        simp only [hread priorId]
        cases s.getAttestation priorId with
        | none => exact ⟨[], rfl⟩
        | some prior =>
          simp only
          obtain ⟨rest, hrest⟩ := ih prior
          split_ifs
          · exact ⟨[], rfl⟩
          · rw [hrest]
            exact ⟨prior :: rest, rfl⟩
    · exact ⟨[], rfl⟩

/-- A row of the chain is the one that the directory has under its id. -/
theorem LiveFile.getAttestation (hfile : LiveFile s node owner room listed)
    (hrow : InChain s listed row) : s.getAttestation row.attestationId = some row := by
  induction hrow with
  | refl => exact hfile.row
  | tail hbefore hnext ih =>
    rw [FileStore.prior] at hnext
    split_ifs at hnext
    obtain ⟨priorId, -, hprior⟩ := Option.bind_eq_some_iff.mp hnext
    have hid := List.find?_some hprior
    rw [decide_eq_true_eq] at hid
    rw [hid]
    exact hprior

/-! ## A withdrawal -/

/-- What withdrawals of these rows leave alone. -/
theorem withdrawnBy_after {writes : List Write} {id : String}
    (hwrites : ∀ write ∈ writes, ∃ id' w, write = .withdraw id' w ∧ id' ≠ id) :
    (s.after writes).withdrawnBy id = s.withdrawnBy id := by
  induction writes generalizing s with
  | nil => rfl
  | cons write writes ih =>
    obtain ⟨id', w, rfl, hne⟩ := hwrites _ List.mem_cons_self
    rw [after_cons, ih fun write hwrite => hwrites write (List.mem_cons_of_mem _ hwrite),
      withdrawnBy_withdraw, if_neg (Ne.symm hne)]

/-- The rows themselves stay as they are. -/
theorem after_withdraws {writes : List Write}
    (hwrites : ∀ write ∈ writes, ∃ id w, write = .withdraw id w) :
    (s.after writes).rows = s.rows ∧ (s.after writes).placed = s.placed := by
  induction writes generalizing s with
  | nil => exact ⟨rfl, rfl⟩
  | cons write writes ih =>
    obtain ⟨id, w, rfl⟩ := hwrites _ List.mem_cons_self
    exact ih fun write hwrite => hwrites write (List.mem_cons_of_mem _ hwrite)

/-- A loop that succeeds has withdrawn every row that it went through. -/
theorem withdrawEach_ok {ids : List String} (h : (withdrawEach a s rows).2 = .ok ids) :
    ∀ row ∈ rows, (s.after (withdrawEach a s rows).1).withdrawnBy row.attestationId ≠ none := by
  induction rows generalizing s ids with
  | nil => exact fun row hrow => absurd hrow List.not_mem_nil
  | cons first rows ih =>
    rcases withdrawEach_cases a s first rows with ⟨hsome, heq⟩ | ⟨w, -, heq⟩ | ⟨-, e, heq⟩
    · rw [heq] at h ⊢
      exact List.forall_mem_cons.mpr
        ⟨withdrawn_after (Option.isSome_iff_ne_none.mp hsome) _, ih h⟩
    · rw [heq] at h ⊢
      cases hrest : (withdrawEach a (s.apply (.withdraw first.attestationId w)) rows).2 with
      | error e =>
        rw [hrest] at h
        cases h
      | ok rest =>
        have hfirst : (s.apply (.withdraw first.attestationId w)).withdrawnBy
            first.attestationId ≠ none := by
          rw [withdrawnBy_withdraw, if_pos rfl]
          exact Option.some_ne_none w
        exact List.forall_mem_cons.mpr ⟨withdrawn_after hfirst _, ih hrest⟩
    · rw [heq] at h
      cases h

/-- A loop whose calls all go through succeeds. -/
theorem withdrawEach_total (s : FileStore)
    (hgoes : ∀ row ∈ rows, Goes a row.attestationId) :
    ∃ ids, (withdrawEach a s rows).2 = .ok ids := by
  induction rows generalizing s with
  | nil => exact ⟨[], rfl⟩
  | cons first rows ih =>
    obtain ⟨hfirst, hrest⟩ := List.forall_mem_cons.mp hgoes
    rcases withdrawEach_cases a s first rows with ⟨-, heq⟩ | ⟨w, -, heq⟩ | ⟨hstops, -⟩
    · rw [heq]
      exact ih s hrest
    · obtain ⟨ids, hids⟩ := ih (s.apply (.withdraw first.attestationId w)) hrest
      rw [heq]
      simp only [hids]
      exact ⟨first.attestationId :: ids, rfl⟩
    · exact absurd hfirst hstops

/-- A loop whose first row can be withdrawn leaves it withdrawn. -/
theorem withdrawEach_first (hgoes : Goes a row.attestationId) :
    (s.after (withdrawEach a s (row :: rows)).1).withdrawnBy row.attestationId ≠ none := by
  rcases withdrawEach_cases a s row rows with ⟨hsome, -⟩ | ⟨w, -, heq⟩ | ⟨hstops, -⟩
  · exact withdrawn_after (Option.isSome_iff_ne_none.mp hsome) _
  · have hfirst : (s.apply (.withdraw row.attestationId w)).withdrawnBy row.attestationId ≠ none := by
      rw [withdrawnBy_withdraw, if_pos rfl]
      exact Option.some_ne_none w
    rw [heq]
    exact withdrawn_after hfirst _
  · exact absurd hgoes hstops

/-- What a loop has withdrawn is a row of its own, for which the calls went through. -/
theorem withdrawEach_new {id : String}
    (hnew : (s.after (withdrawEach a s rows).1).withdrawnBy id ≠ none) :
    s.withdrawnBy id ≠ none ∨ Goes a id ∧ ∃ row ∈ rows, row.attestationId = id := by
  by_cases hwrite : ∃ row ∈ rows, Goes a row.attestationId ∧ row.attestationId = id
  · obtain ⟨row, hrow, hgoes, rfl⟩ := hwrite
    exact Or.inr ⟨hgoes, row, hrow, rfl⟩
  · rw [withdrawnBy_after] at hnew
    · exact Or.inl hnew
    · intro write hmem
      obtain ⟨row, hrow, hgoes, w, rfl⟩ := withdrawEach_writes _ _ write hmem
      exact ⟨_, w, rfl, fun heq => hwrite ⟨row, hrow, hgoes, heq⟩⟩

/-- **Inversion.** The withdrawal of a row that is not withdrawn yet fails before it writes, or goes
    through that row and those behind. -/
theorem withdrawRows_cases (hnode : a.nodeKeyId = node)
    (hown : ∀ row, InChain s listed row → row.attestingKeyId = owner ∨ row.attestingKeyId = node)
    (hlive : s.withdrawnBy listed.attestationId = none) :
    (¬ Withdraws a s owner listed ∧ ∃ e, withdrawRows a s owner listed = ([], .error e)) ∨
    (Withdraws a s owner listed ∧
      withdrawRows a s owner listed = withdrawEach a s (listed :: trail s.prior 7 listed)) := by
  rw [withdrawRows]
  cases hchain : supersededBy a s owner 7 listed with
  | error e =>
    refine Or.inl ⟨fun h => ?_, e, rfl⟩
    obtain ⟨behind, hbehind, -⟩ := h.chain
    rw [hchain] at hbehind
    cases hbehind
  | ok behind =>
    obtain rfl := supersededBy_ok hnode hown hchain
    simp only
    split
    · next hpen =>
      refine Or.inl ⟨fun h => ?_, _, rfl⟩
      obtain ⟨behind', hbehind', hopen⟩ := h.chain
      rw [hchain] at hbehind'
      cases hbehind'
      split_ifs at hpen with hours
      rw [hopen hours] at hpen
      cases hpen
    · next hpen =>
      rcases withdrawEach_cases a s listed (trail s.prior 7 listed) with ⟨hsome, -⟩ |
        ⟨w, hgoes, -⟩ | ⟨hstops, e, heq⟩
      · rw [hlive] at hsome
        cases hsome
      · refine Or.inr ⟨⟨⟨_, hchain, fun hours => ?_⟩, hgoes.composers, hgoes.build,
          hgoes.admitRow⟩, rfl⟩
        rw [if_pos hours] at hpen
        exact hpen
      · exact Or.inl ⟨fun h => hstops ⟨h.composers, h.build, h.admitRow⟩, e, heq⟩

/-! ## The checks -/

theorem findRow_ok {b : DeleteAnswers} {id : String} {found : Found}
    (h : findRow b s room id = .ok found) :
    s.getAttestation id = some found.row ∧ (s.withdrawnBy id ≠ none → found.withdrawnBy ≠ none) ∧
      (found.withdrawnBy ≠ s.withdrawnBy id → ∃ other, b.retiredBy id = .ok (some other)) := by
  obtain ⟨found', hfound', h⟩ := except_bind_ok h
  obtain ⟨hrow, hwithdrawn⟩ := findFile_found hfound'
  cases hother : found'.withdrawnBy with
  | some w =>
    rw [hother] at h
    cases h
    refine ⟨hrow, fun _ => ?_, fun hne => absurd hwithdrawn hne⟩
    rw [hother]
    exact Option.some_ne_none w
  | none =>
    rw [hother] at h
    obtain ⟨retired, hretired, h⟩ := except_bind_ok h
    cases h
    refine ⟨hrow, fun hne => absurd (hwithdrawn ▸ hother) hne, fun hne => ?_⟩
    rw [← hwithdrawn, hother] at hne
    obtain ⟨other, rfl⟩ := Option.ne_none_iff_exists'.mp hne
    exact ⟨other, except_mapError_ok hretired⟩

/-- A request that goes on has found the row, and nothing has retired it. -/
theorem withdrawChecks_ok {b : Attempt node owner listed.attestationId} {request : String × Found}
    (hrow : s.getAttestation listed.attestationId = some listed)
    (h : withdrawChecks b.answers s listed.attestationId b.query = .ok request) :
    request = (owner, ⟨listed, none⟩) ∧ s.withdrawnBy listed.attestationId = none := by
  obtain ⟨key, hauthor, h⟩ := except_bind_ok h
  obtain ⟨-, -, h⟩ := except_bind_ok h
  obtain ⟨room, -, h⟩ := except_bind_ok h
  obtain ⟨found, hfound, h⟩ := except_bind_ok h
  obtain ⟨-, -, h⟩ := except_bind_ok h
  obtain ⟨u, hlive, h⟩ := except_bind_ok h
  cases h
  obtain ⟨row, withdrawnBy⟩ := found
  obtain ⟨hfoundRow, hkeeps, -⟩ := findRow_ok hfound
  have hsame : listed = row := Option.some.inj (hrow.symm.trans hfoundRow)
  cases withdrawnBy with
  | some w => cases hlive
  | none =>
    refine ⟨by rw [b.owner_eq key hauthor, hsame], ?_⟩
    exact Decidable.byContradiction fun hwithdrawn => hkeeps hwithdrawn rfl

theorem roomFromQuery_error {q : FileQuery} {refusal : Refusal}
    (h : roomFromQuery a owner q = .error refusal) :
    refusal.code = 400 ∨ ∃ room, a.admits room = .error refusal := by
  rcases except_bind_error h with h | ⟨cohort, -, h⟩
  · obtain ⟨text, -, rfl⟩ := except_mapError_error h
    exact Or.inl rfl
  rcases except_bind_error h with h | ⟨room, -, h⟩
  · left
    rw [roomFor.eq_def] at h
    split at h <;> cases h <;> rfl
  rcases except_bind_error h with h | ⟨u, -, h⟩
  · right
    refine ⟨room, ?_⟩
    rw [requireCohortMember] at h
    split at h
    · cases h
    · exact h
    · exact h
  · cases h

theorem findRow_error {b : DeleteAnswers} {id : String} {refusal : Refusal}
    (h : findRow b s room id = .error refusal) : refusal.code = 503 ∨ refusal.code = 404 := by
  rcases except_bind_error h with h | ⟨found, -, h⟩
  · rcases except_bind_error h with h | ⟨u, -, h⟩
    · obtain ⟨text, -, rfl⟩ := except_mapError_error h
      exact Or.inl rfl
    · split_ifs at h
      · split at h <;> cases h
        · exact Or.inl rfl
        · exact Or.inr rfl
      · cases h
        exact Or.inr rfl
  · split at h
    · cases h
    · rcases except_bind_error h with h | ⟨retired, -, h⟩
      · obtain ⟨text, -, rfl⟩ := except_mapError_error h
        exact Or.inl rfl
      · cases h

/-- A 410 before the withdrawal is about a row that is withdrawn. -/
theorem withdrawChecks_gone {b : Attempt node owner listed.attestationId} {refusal : Refusal}
    (h : withdrawChecks b.answers s listed.attestationId b.query = .error refusal)
    (hgone : refusal.code = 410) : s.withdrawnBy listed.attestationId ≠ none := by
  rcases except_bind_error h with h | ⟨key, -, h⟩
  · exact absurd hgone (b.gates refusal (Or.inl h))
  rcases except_bind_error h with h | ⟨u, -, h⟩
  · exact absurd hgone (b.gates refusal (Or.inr (Or.inl h)))
  rcases except_bind_error h with h | ⟨room, -, h⟩
  · rcases roomFromQuery_error h with hcode | hadmits
    · omega
    · exact absurd hgone (b.gates refusal (Or.inr (Or.inr hadmits)))
  rcases except_bind_error h with h | ⟨found, hfound, h⟩
  · rcases findRow_error h with hcode | hcode <;> omega
  rcases except_bind_error h with h | ⟨u, -, h⟩
  · rw [requireAuthor] at h
    split_ifs at h
    cases h
    cases hgone
  rcases except_bind_error h with h | ⟨u, -, h⟩
  · intro hlive
    have hnone : found.withdrawnBy = none := Decidable.byContradiction fun hne => by
      obtain ⟨other, hother⟩ := (findRow_ok hfound).2.2 fun heq => hne (heq.trans hlive)
      exact b.notRetired other hother
    rw [notWithdrawn, hnone] at h
    cases h
  · cases h

/-- An attempt that meets no failure asks for the row, or is told that it is withdrawn. -/
theorem Attempt.Willing.checks {b : Attempt node owner listed.attestationId}
    (hb : b.Willing s) (hfile : LiveFile s node owner room listed) {t : FileStore}
    (hrows : t.rows = s.rows) (hplaced : t.placed = s.placed) :
    withdrawChecks b.answers t listed.attestationId b.query =
      match t.withdrawnBy listed.attestationId with
      | none => .ok (owner, ⟨listed, none⟩)
      | some w => .error (rowWithdrawnRefusal w) := by
  obtain ⟨room', hroom, hin⟩ := hb.room
  have hrow : t.getAttestation listed.attestationId = some listed := by
    rw [FileStore.getAttestation, hrows]
    exact hfile.row
  have hauthor : requireAuthor b.answers.toAnswers owner listed = .ok () :=
    if_pos ((hfile.own listed (Reaches.refl listed)).imp_right fun h => h.trans b.node_eq.symm)
  have hfound : findFile b.answers.toAnswers t room' listed.attestationId =
      .ok ⟨listed, t.withdrawnBy listed.attestationId⟩ := by
    rw [findFile, hb.listing, hplaced, if_pos hin, hrow]
    rfl
  rw [withdrawChecks, hb.author, hb.requireOp]
  show (roomFromQuery b.answers.toAnswers owner b.query >>= _) = _
  rw [hroom]
  show (findRow b.answers t room' listed.attestationId >>= _) = _
  rw [findRow, hfound]
  cases t.withdrawnBy listed.attestationId with
  | none =>
    show ((b.answers.retiredBy listed.attestationId).mapError _ >>= _ >>= _) = _
    rw [hb.retiredBy]
    show (requireAuthor b.answers.toAnswers owner listed >>= _) = _
    rw [hauthor]
    rfl
  | some w =>
    show (requireAuthor b.answers.toAnswers owner listed >>= _) = _
    rw [hauthor]
    rfl

/-! ## One attempt -/

/-- An attempt that meets no failure gets to withdraw the listed row. -/
theorem Attempt.Willing.starts {b : Attempt node owner listed.attestationId}
    (hb : b.Willing s) (hfile : LiveFile s node owner room listed) : b.Starts listed s := by
  have hchecks := hb.checks hfile rfl rfl
  rw [hfile.listed_live] at hchecks
  obtain ⟨behind, hbehind⟩ := supersededBy_total hb.readRow s owner 7 listed
  have hgoes := hb.goes listed.attestationId
  exact ⟨⟨_, hchecks⟩, ⟨behind, hbehind, fun _ => hb.pen⟩, hgoes.composers, hgoes.build,
    hgoes.admitRow⟩

/-- The loop of an attempt that gets as far as withdrawing. -/
def Attempt.loop (listed : Attestation) (s : FileStore)
    (b : Attempt node owner listed.attestationId) : List Write × Except String (List String) :=
  withdrawEach b.answers.toAnswers s (listed :: trail s.prior 7 listed)

/-- **Inversion.** At a live file an attempt is refused, or it goes through the rows of the chain. -/
theorem Attempt.handle_cases (hfile : LiveFile s node owner room listed)
    (b : Attempt node owner listed.attestationId) :
    (¬ b.Starts listed s ∧ (b.handle s).writes = [] ∧ ¬ Settled (b.handle s).answer) ∨
    (b.Starts listed s ∧ (b.handle s).writes = (b.loop listed s).1 ∧
      (b.handle s).answer = ((b.loop listed s).2.mapError withdrawFailed).map
        fun withdrawn => ⟨listed.attestationId, withdrawn, b.answers.evicted⟩) := by
  rw [Attempt.handle, withdrawFile]
  cases hchecks : withdrawChecks b.answers s listed.attestationId b.query with
  | error refusal =>
    refine Or.inl ⟨?_, rfl, ?_⟩
    · rintro ⟨⟨request, hrequest⟩, -⟩
      rw [hchecks] at hrequest
      cases hrequest
    · rintro (⟨response, h⟩ | ⟨refusal', h, hgone⟩)
      · cases h
      · cases h
        exact withdrawChecks_gone hchecks hgone hfile.listed_live
  | ok request =>
    obtain ⟨rfl, -⟩ := withdrawChecks_ok hfile.row hchecks
    rcases withdrawRows_cases b.node_eq hfile.own hfile.listed_live with ⟨hnot, e, heq⟩ |
      ⟨hwithdraws, heq⟩
    · refine Or.inl ⟨fun hstarts => hnot hstarts.2, ?_, ?_⟩
      · simp only [heq]
      · simp only [heq]
        rintro (⟨response, h⟩ | ⟨refusal, h, hgone⟩)
        · cases h
        · cases h
          cases hgone
    · refine Or.inr ⟨⟨⟨_, hchecks⟩, hwithdraws⟩, ?_, ?_⟩
      · simp only [heq]
        rfl
      · simp only [heq]
        rfl

/-- An attempt that starts leaves the listed row withdrawn. -/
theorem Attempt.Starts.withdrawn {b : Attempt node owner listed.attestationId}
    (hstarts : b.Starts listed s) (hfile : LiveFile s node owner room listed) :
    (b.step s).withdrawnBy listed.attestationId ≠ none := by
  rcases Attempt.handle_cases hfile b with ⟨hnot, -⟩ | ⟨-, hwrites, -⟩
  · exact absurd hstarts hnot
  · rw [Attempt.step, hwrites]
    exact withdrawEach_first ⟨hstarts.2.composers, hstarts.2.build, hstarts.2.admitRow⟩

/-- An attempt at a row that is withdrawn changes nothing, and is not answered 200. -/
theorem Attempt.handle_withdrawn {b : Attempt node owner listed.attestationId}
    (hrow : s.getAttestation listed.attestationId = some listed)
    (hwithdrawn : s.withdrawnBy listed.attestationId ≠ none) :
    ¬ b.Starts listed s ∧ b.step s = s ∧ ∀ response, (b.handle s).answer ≠ .ok response := by
  cases hchecks : withdrawChecks b.answers s listed.attestationId b.query with
  | error refusal =>
    have hhandle : b.handle s = ⟨[], .error refusal⟩ := by
      rw [Attempt.handle, withdrawFile, hchecks]
    refine ⟨?_, by rw [Attempt.step, hhandle, after_nil], fun response => by simp [hhandle]⟩
    rintro ⟨⟨request, hrequest⟩, -⟩
    rw [hchecks] at hrequest
    cases hrequest
  | ok request => exact absurd (withdrawChecks_ok hrow hchecks).2 hwithdrawn

/-! ## A run of attempts -/

/-- What the attempts keep: until the listed row is withdrawn, nothing has changed. -/
structure Tracks (s : FileStore) (listed : Attestation) (t : FileStore) : Prop where
  rows : t.rows = s.rows
  placed : t.placed = s.placed
  untouched : t.withdrawnBy listed.attestationId = none → t = s
  others : ∀ id, t.withdrawnBy id ≠ none →
    s.withdrawnBy id ≠ none ∨ ∃ row, InChain s listed row ∧ row.attestationId = id

/-- The file is deleted as soon as its listed row is withdrawn. -/
def AllOrNone (s : FileStore) (listed : Attestation) (t : FileStore) : Prop :=
  t.withdrawnBy listed.attestationId ≠ none → Deleted s listed t

theorem Tracks.refl (s : FileStore) (listed : Attestation) : Tracks s listed s :=
  ⟨rfl, rfl, fun _ => rfl, fun _ h => Or.inl h⟩

theorem mem_chain (hrow : row ∈ listed :: trail s.prior n listed) : InChain s listed row := by
  rcases List.mem_cons.mp hrow with rfl | hrow
  · exact Reaches.refl row
  · exact reaches_of_mem_trail hrow

section

variable {t : FileStore}

theorem Tracks.getAttestation (htracks : Tracks s listed t)
    (hfile : LiveFile s node owner room listed) :
    t.getAttestation listed.attestationId = some listed := by
  rw [FileStore.getAttestation, htracks.rows]
  exact hfile.row

/-- **Step.** -/
theorem Tracks.step (hfile : LiveFile s node owner room listed) (htracks : Tracks s listed t)
    (b : Attempt node owner listed.attestationId) : Tracks s listed (b.step t) := by
  by_cases hlive : t.withdrawnBy listed.attestationId = none
  · obtain rfl := htracks.untouched hlive
    rcases Attempt.handle_cases hfile b with ⟨-, hnone, -⟩ | ⟨hstarts, hwrites, -⟩
    · rw [Attempt.step, hnone]
      exact htracks
    · have hkeeps : ((b.step t).rows = t.rows ∧ (b.step t).placed = t.placed) := by
        rw [Attempt.step, hwrites]
        apply after_withdraws
        intro write hwrite
        obtain ⟨row, -, -, w, rfl⟩ := withdrawEach_writes _ _ write hwrite
        exact ⟨_, w, rfl⟩
      refine ⟨hkeeps.1, hkeeps.2, fun hnot => absurd hnot (hstarts.withdrawn hfile), ?_⟩
      intro id hid
      rw [Attempt.step, hwrites] at hid
      rcases withdrawEach_new hid with hold | ⟨-, row, hrow, hsame⟩
      · exact Or.inl hold
      · exact Or.inr ⟨row, mem_chain hrow, hsame⟩
  · rw [(Attempt.handle_withdrawn (htracks.getAttestation hfile) hlive).2.1]
    exact htracks

/-- **Exactness of a step.** In a short chain, an attempt that starts is whole or leaves the file
    half deleted. -/
theorem Attempt.Starts.whole_iff {b : Attempt node owner listed.attestationId}
    (hstarts : b.Starts listed s) (hfile : LiveFile s node owner room listed)
    (hshort : Short s listed) : b.Whole listed s ↔ Deleted s listed (b.step s) := by
  rcases Attempt.handle_cases hfile b with ⟨hnot, -⟩ | ⟨-, hwrites, -⟩
  · exact absurd hstarts hnot
  · rw [Attempt.step, hwrites]
    constructor
    · intro hwhole row hrow
      have hgoes : ∀ row ∈ listed :: trail s.prior 7 listed,
          Goes b.answers.toAnswers row.attestationId :=
        List.forall_mem_cons.mpr
          ⟨⟨hstarts.2.composers, hstarts.2.build, hstarts.2.admitRow⟩, hwhole⟩
      obtain ⟨ids, hids⟩ := withdrawEach_total s hgoes
      exact withdrawEach_ok hids row (hshort row hrow)
    · intro hdeleted row hrow
      have hin : InChain s listed row := mem_chain (List.mem_cons_of_mem _ hrow)
      rcases withdrawEach_new (hdeleted row hin) with hold | ⟨hgoes, -⟩
      · exact absurd (hfile.live row hin) hold
      · exact hgoes

/-- A chain that an attempt has deleted is short. -/
theorem Attempt.Starts.short {b : Attempt node owner listed.attestationId}
    (hstarts : b.Starts listed s) (hfile : LiveFile s node owner room listed)
    (hdeleted : Deleted s listed (b.step s)) : Short s listed := by
  intro row hrow
  rcases Attempt.handle_cases hfile b with ⟨hnot, -⟩ | ⟨-, hwrites, -⟩
  · exact absurd hstarts hnot
  · have hwithdrawn := hdeleted row hrow
    rw [Attempt.step, hwrites] at hwithdrawn
    rcases withdrawEach_new hwithdrawn with hold | ⟨-, other, hother, hsame⟩
    · exact absurd (hfile.live row hrow) hold
    · -- the directory has one row under an id
      have heq : some other = some row := by
        rw [← hfile.getAttestation (mem_chain hother), ← hfile.getAttestation hrow, hsame]
      rwa [← Option.some.inj heq]

/-- **Step.** No attempt repairs a file that is half deleted, and one that starts is whole exactly
    if it does not leave one. -/
theorem Attempt.allOrNone_iff (hfile : LiveFile s node owner room listed)
    (hshort : Short s listed) (htracks : Tracks s listed t) (hall : AllOrNone s listed t)
    (b : Attempt node owner listed.attestationId) :
    (b.Starts listed t → b.Whole listed t) ↔ AllOrNone s listed (b.step t) := by
  by_cases hlive : t.withdrawnBy listed.attestationId = none
  · obtain rfl := htracks.untouched hlive
    by_cases hstarts : b.Starts listed t
    · rw [imp_iff_right hstarts, hstarts.whole_iff hfile hshort]
      exact (imp_iff_right (hstarts.withdrawn hfile)).symm
    · refine iff_of_true (fun h => absurd h hstarts) ?_
      rcases Attempt.handle_cases hfile b with ⟨-, hnone, -⟩ | ⟨hstarts', -⟩
      · rw [Attempt.step, hnone]
        exact hall
      · exact absurd hstarts' hstarts
  · obtain ⟨hnot, hstep, -⟩ := Attempt.handle_withdrawn (b := b) (htracks.getAttestation hfile) hlive
    rw [hstep]
    exact iff_of_true (fun h => absurd h hnot) hall

/-- An attempt that is answered 200 or 410 leaves the file deleted. -/
theorem Attempt.settled_deleted (hfile : LiveFile s node owner room listed)
    (hshort : Short s listed) (htracks : Tracks s listed t) (hall : AllOrNone s listed t)
    {b : Attempt node owner listed.attestationId} (hsettled : Settled (b.handle t).answer) :
    Deleted s listed (b.step t) := by
  by_cases hlive : t.withdrawnBy listed.attestationId = none
  · obtain rfl := htracks.untouched hlive
    rcases Attempt.handle_cases hfile b with ⟨-, -, hnot⟩ | ⟨-, hwrites, hanswer⟩
    · exact absurd hsettled hnot
    · rw [Attempt.step, hwrites]
      rw [hanswer] at hsettled
      cases hloop : (b.loop listed t).2 with
      | ok ids => exact fun row hrow => withdrawEach_ok hloop row (hshort row hrow)
      | error e =>
        rw [hloop] at hsettled
        rcases hsettled with ⟨response, h⟩ | ⟨refusal, h, hgone⟩
        · cases h
        · cases h
          cases hgone
  · rw [(Attempt.handle_withdrawn (htracks.getAttestation hfile) hlive).2.1]
    exact hall hlive

/-- An attempt that meets no failure is answered 200 or 410. -/
theorem Attempt.Willing.settled {b : Attempt node owner listed.attestationId} (hb : b.Willing s)
    (hfile : LiveFile s node owner room listed) (htracks : Tracks s listed t) :
    Settled (b.handle t).answer := by
  have hchecks := hb.checks hfile htracks.rows htracks.placed
  cases hwithdrawn : t.withdrawnBy listed.attestationId with
  | some w =>
    rw [hwithdrawn] at hchecks
    rw [Attempt.handle, withdrawFile, hchecks]
    exact Or.inr ⟨rowWithdrawnRefusal w, rfl, rfl⟩
  | none =>
    obtain rfl := htracks.untouched hwithdrawn
    rcases Attempt.handle_cases hfile b with ⟨hnot, -⟩ | ⟨-, -, hanswer⟩
    · exact absurd (hb.starts hfile) hnot
    · have hgoes : ∀ row ∈ listed :: trail t.prior 7 listed,
          Goes b.answers.toAnswers row.attestationId := fun row _ => hb.goes row.attestationId
      obtain ⟨ids, hids⟩ := withdrawEach_total t hgoes
      rw [hanswer, Attempt.loop, hids]
      exact Or.inl ⟨_, rfl⟩

/-- The query that names a room. -/
def ScopeRoom.query (room : ScopeRoom) : FileQuery :=
  match room.cohort with
  | .selfCollective => ⟨none, none⟩
  | .family => ⟨some "family", some room.contentGroupId⟩
  | .community => ⟨some "community", some room.contentGroupId⟩

/-- Some attempt meets no failure. -/
theorem LiveFile.exists_willing (hfile : LiveFile s node owner room listed) :
    ∃ b : Attempt node owner listed.attestationId, b.Willing s := by
  let answers : DeleteAnswers :=
    ⟨{ willing true with nodeKeyId := node, author := .ok owner }, fun _ => .ok none, false⟩
  have hroom : roomFromQuery answers.toAnswers owner room.query = .ok room := by
    have hself := hfile.ofOwner
    obtain ⟨cohort, groupId⟩ := room
    cases cohort with
    | selfCollective =>
      obtain rfl : groupId = owner := hself rfl
      rfl
    | family => rfl
    | community => rfl
  have hgates : ∀ refusal, answers.author = .error refusal ∨ answers.requireOp = .error refusal ∨
      (∃ room, answers.admits room = .error refusal) → refusal.code ≠ 410 := by
    rintro refusal (h | h | ⟨room, h⟩) <;> cases h
  exact ⟨⟨answers, room.query, rfl, fun key h => (Except.ok.inj h).symm, fun _ => nofun,
    hgates⟩, rfl, rfl, ⟨room, hroom, hfile.placed⟩, rfl, rfl, fun _ => rfl, rfl,
    fun _ => ⟨rfl, ⟨"w", rfl⟩, rfl⟩⟩

/-- **Run.** -/
theorem Tracks.after (hfile : LiveFile s node owner room listed)
    (attempts : List (Attempt node owner listed.attestationId)) :
    Tracks s listed (Run.after Attempt.step s attempts) :=
  Run.after_invariant (fun _ b htracks => htracks.step hfile b) (Tracks.refl s listed)

/-- **Exactness over runs.** -/
theorem guarded_iff_allOrNone (hfile : LiveFile s node owner room listed)
    (hshort : Short s listed) (attempts : List (Attempt node owner listed.attestationId)) :
    Run.Guarded Attempt.step (fun t b => b.Starts listed t → b.Whole listed t) s attempts ↔
      AllOrNone s listed (Run.after Attempt.step s attempts) := by
  refine Run.guarded_iff_after (J := Tracks s listed) (fun t b h => h.step hfile b) ?_ ?_
    (Tracks.refl s listed) (fun h => absurd hfile.listed_live h)
  · intro t b htracks hall hwithdrawn
    have hstep := (Attempt.handle_withdrawn (b := b) (htracks.getAttestation hfile) hwithdrawn).2.1
    rw [hstep] at hall
    exact hall hwithdrawn
  · exact fun t b htracks hall => Attempt.allOrNone_iff hfile hshort htracks hall b

/-- **Exactness.** Attempts delete the file exactly if its chain has eight rows at most and the
    attempt that withdraws the listed row goes on to the end of the chain. -/
theorem deletes_finish_iff (hfile : LiveFile s node owner room listed)
    (attempts : List (Attempt node owner listed.attestationId)) :
    Finishes s listed attempts ↔ Short s listed ∧
      Run.Guarded Attempt.step (fun t b => b.Starts listed t → b.Whole listed t) s attempts := by
  obtain ⟨willing, hwilling⟩ := hfile.exists_willing
  constructor
  · intro h
    have hshort : Short s listed :=
      (hwilling.starts hfile).short hfile (h.completed [] List.nil_prefix willing hwilling).2
    refine ⟨hshort, (guarded_iff_allOrNone hfile hshort attempts).mpr fun hwithdrawn => ?_⟩
    -- one more attempt changes nothing, so the file is deleted already
    have hdeleted := (h.completed attempts List.prefix_rfl willing hwilling).2
    have htracks := Tracks.after hfile attempts
    rw [Run.after_concat,
      (Attempt.handle_withdrawn (htracks.getAttestation hfile) hwithdrawn).2.1] at hdeleted
    exact hdeleted
  · rintro ⟨hshort, hguarded⟩
    have hall : ∀ before, before <+: attempts →
        AllOrNone s listed (Run.after Attempt.step s before) := by
      rintro before ⟨later, rfl⟩
      exact (guarded_iff_allOrNone hfile hshort before).mp (Run.guarded_append_iff.mp hguarded).1
    refine ⟨fun before b hbefore hsettled => ?_, fun before hbefore b hb => ?_,
      (Tracks.after hfile attempts).others⟩
    · rw [Run.after_concat]
      exact Attempt.settled_deleted hfile hshort (Tracks.after hfile before)
        (hall before ((List.prefix_append before [b]).trans hbefore)) hsettled
    · have hsettled := hb.settled hfile (Tracks.after hfile before)
      rw [Run.after_concat]
      exact ⟨hsettled, Attempt.settled_deleted hfile hshort (Tracks.after hfile before)
        (hall before hbefore) hsettled⟩

end

end

/-! ## A file that was shared once -/

/-- A room's row, and the authored row that it superseded. -/
def sharedFile : FileStore :=
  ⟨[⟨"b", "me", "supersedes", some "a"⟩, ⟨"a", "me", "file", none⟩],
    [(⟨.family, "home"⟩, "b")], []⟩

def sharedRow : Attestation := ⟨"b", "me", "supersedes", some "a"⟩

/-- An attempt at it in which `admitRow` answers as given. -/
def attemptAt (admitRow : String → Except String Unit) : Attempt "node" "me" "b" where
  answers := ⟨{ willing true with admitRow := admitRow }, fun _ => .ok none, false⟩
  query := ⟨some "family", some "home"⟩
  node_eq := rfl
  owner_eq key h := (Except.ok.inj h).symm
  notRetired other h := by cases h
  gates := by rintro refusal (h | h | ⟨room, h⟩) <;> cases h

/-- The store is down for the row `attestationId`. -/
def downFor (attestationId id : String) : Except String Unit :=
  if id = attestationId then .error "store down" else .ok ()

theorem sharedFile_short : Short sharedFile sharedRow :=
  fun _ h => mem_trail_of_reaches (by decide) h

theorem sharedFile_live : LiveFile sharedFile "node" "me" ⟨.family, "home"⟩ sharedRow := by
  have hown : ∀ row ∈ sharedRow :: trail sharedFile.prior 7 sharedRow, row.attestingKeyId = "me" := by
    decide
  exact ⟨nofun, by decide, rfl, fun row _ => rfl,
    fun row h => Or.inl (hown row (sharedFile_short row h))⟩

/-- A failure before the first write is made good by the next attempt. -/
theorem sharedFile_deleted :
    (Run.after Attempt.step sharedFile [attemptAt (downFor "b"), attemptAt fun _ => .ok ()]).withdraws
        = [("a", "w"), ("b", "w")] ∧
      Finishes sharedFile sharedRow [attemptAt (downFor "b"), attemptAt fun _ => .ok ()] := by
  refine ⟨by rfl, (deletes_finish_iff sharedFile_live _).mpr ⟨sharedFile_short, ?_, ?_, trivial⟩⟩
  · intro hstarts
    have hput := hstarts.2.admitRow
    cases hput
  · exact fun _ row _ => ⟨rfl, ⟨"w", rfl⟩, rfl⟩

/-- The room's row, and eight rows behind it. -/
def longFile : FileStore :=
  ⟨[⟨"b", "me", "supersedes", some "a8"⟩, ⟨"a8", "me", "supersedes", some "a7"⟩,
    ⟨"a7", "me", "supersedes", some "a6"⟩, ⟨"a6", "me", "supersedes", some "a5"⟩,
    ⟨"a5", "me", "supersedes", some "a4"⟩, ⟨"a4", "me", "supersedes", some "a3"⟩,
    ⟨"a3", "me", "supersedes", some "a2"⟩, ⟨"a2", "me", "supersedes", some "a1"⟩,
    ⟨"a1", "me", "file", none⟩], [(⟨.family, "home"⟩, "b")], []⟩

/-- A failure between the two rows of a file is for good: a repeat is answered 410, and the row
    behind stays. So does the ninth row of a file, with no failure at all and the answer 200. -/
theorem deletes_unfinished :
    (∃ detail, ((attemptAt (downFor "a")).handle sharedFile).answer =
      .error (withdrawFailed detail)) ∧
    ((attemptAt fun _ => .ok ()).handle ((attemptAt (downFor "a")).step sharedFile)).answer =
      .error (rowWithdrawnRefusal "w") ∧
    ((attemptAt (downFor "a")).step sharedFile).withdraws = [("b", "w")] ∧
    ¬ Finishes sharedFile sharedRow [attemptAt (downFor "a")] ∧
    (∃ response, ((attemptAt fun _ => .ok ()).handle longFile).answer = .ok response) ∧
    ((attemptAt fun _ => .ok ()).step longFile).withdrawnBy "a1" = none := by
  refine ⟨⟨_, rfl⟩, by rfl, by rfl, fun h => ?_, ⟨_, rfl⟩, by rfl⟩
  have hbehind : InChain sharedFile sharedRow ⟨"a", "me", "file", none⟩ :=
    (Reaches.refl _).cons rfl
  have hwilling : (attemptAt fun _ => .ok ()).Willing sharedFile :=
    ⟨rfl, rfl, ⟨⟨.family, "home"⟩, rfl, List.mem_singleton_self _⟩, rfl, rfl, fun _ => rfl, rfl,
      fun _ => ⟨rfl, ⟨"w", rfl⟩, rfl⟩⟩
  exact (h.completed _ List.prefix_rfl _ hwilling).2 _ hbehind rfl

end CirisServer.Drive
