import Mathlib.Data.List.Perm.Basic
import CirisServer.ForStd.Except
import CirisServer.ForStd.Group
import CirisServer.Native.Drive

/-!
# A walk over the drive

Over an unchanged store, a client passes each page's `resume` back until there is none.

Key results:
- `readRooms_eq`: a page is a page of the walk over the live rows, with the withdrawn rows of its
  rooms
- `walk_eq`: so is every page of the walk
- `drive_complete_iff`: the walk lists every row once, in pages of the asked size, exactly when
  withdrawn rows are not asked for or happen to fit
-/

namespace CirisServer.Drive

open Paging (Page Resumes visit plan flat remaining)

section Store

variable {κ : Type} {store : DriveStore κ} {rooms gs : List ScopeRoom} {room : ScopeRoom}
variable {get : ScopeRoom → Nat → Option κ → Page κ FileRow}
variable {live withdrawn : ScopeRoom → List FileRow}
variable {rest : ScopeRoom → Option κ → List FileRow}
variable {place : Option κ} {limit read : Nat} {rows : Rows} {includeWithdrawn : Bool}

/-- A store that answers, with these live and withdrawn rows. Edge's live listing carries no
    withdrawn row, and goes on right behind the last row that it has given. -/
structure Holds (store : DriveStore κ) (rooms : List ScopeRoom)
    (get : ScopeRoom → Nat → Option κ → Page κ FileRow) (live withdrawn : ScopeRoom → List FileRow)
    (rest : ScopeRoom → Option κ → List FileRow) : Prop where
  inRoom : ∀ room ∈ rooms, ∀ asked place, store.inRoom room asked place = .ok (get room asked place)
  resumes : Resumes get live rest
  history : ∀ room ∈ rooms, withdrawnInRoom store room = .ok (withdrawn room)
  liveRows : ∀ room ∈ rooms, ∀ row ∈ live room, store.withdrawnBy row.attestationId = .ok none
  ids : (rooms.flatMap fun room => (live room ++ withdrawn room).map (·.attestationId)).Nodup

/-- The withdrawn rows that a page shows of a room. -/
def shownOf (includeWithdrawn : Bool) (withdrawn : ScopeRoom → List FileRow) (room : ScopeRoom) :
    List FileRow :=
  if includeWithdrawn then withdrawn room else []

/-- What a walk has to list. -/
def visible (includeWithdrawn : Bool) (live withdrawn : ScopeRoom → List FileRow)
    (rooms : List ScopeRoom) : List DriveEntry :=
  rooms.flatMap fun room => (live room).map (entryOf room false) ++
    (shownOf includeWithdrawn withdrawn room).map (entryOf room true)

theorem ScopeRoom.key_injective : Function.Injective ScopeRoom.key := by
  rintro ⟨cohort, id⟩ ⟨cohort', id'⟩ h
  have hlist : (cohort.scopeToken ++ ":" ++ id).toList =
      (cohort'.scopeToken ++ ":" ++ id').toList :=
    congrArg String.toList h
  simp only [String.toList_append] at hlist
  cases cohort <;> cases cohort' <;>
    simp [Cohort.scopeToken, String.toList_inj] at hlist ⊢ <;> exact hlist

/-- The rooms of the whole drive, where the admission names no cohort twice. -/
theorem nodup_everythingReachable (owner : String) {admission : CallerAdmission}
    (hfamilies : admission.familyKeyIds.Nodup) (hcommunities : admission.communityKeyIds.Nodup) :
    (everythingReachable owner admission).Nodup := by
  have hfam : (admission.familyKeyIds.map (ScopeRoom.mk .family)).Nodup :=
    hfamilies.map fun id id' h => congrArg ScopeRoom.contentGroupId h
  have hcom : (admission.communityKeyIds.map (ScopeRoom.mk .community)).Nodup :=
    hcommunities.map fun id id' h => congrArg ScopeRoom.contentGroupId h
  rw [everythingReachable, List.nodup_cons, List.nodup_append]
  refine ⟨by simp, hfam, hcom, ?_⟩
  intro room hroom room' hroom' hsame
  obtain ⟨id, -, rfl⟩ := List.mem_map.mp hroom
  obtain ⟨id', -, rfl⟩ := List.mem_map.mp hroom'
  cases congrArg ScopeRoom.cohort hsame

theorem clampLimit_pos (limit : Nat) : 0 < clampLimit limit := Nat.le_max_left 1 _

/-! ## Withdrawn rows -/

/-- What is kept of the lifecycle listing is retired. -/
theorem mem_keepWithdrawn {withdrawnBy : String → Except String (Option String)}
    {listing : List (FileRow × FileLifecycle)} {kept : List FileRow}
    (h : keepWithdrawn withdrawnBy listing = .ok kept) {row : FileRow} (hrow : row ∈ kept) :
    ∃ id, withdrawnBy row.attestationId = .ok (some id) := by
  induction listing generalizing kept with
  | nil =>
    cases h
    cases hrow
  | cons entry listing ih =>
    rw [keepWithdrawn] at h
    split_ifs at h with hlifecycle
    · obtain ⟨retired, hretired, h⟩ := except_bind_ok h
      obtain ⟨others, hothers, h⟩ := except_bind_ok h
      cases h
      cases retired with
      | none => exact ih hothers hrow
      | some id =>
        rcases List.mem_cons.mp hrow with rfl | hrow
        · exact ⟨id, hretired⟩
        · exact ih hothers hrow
    · exact ih h hrow

theorem Holds.withdrawnRows (h : Holds store rooms get live withdrawn rest) (hroom : room ∈ rooms)
    {row : FileRow} (hrow : row ∈ withdrawn room) :
    ∃ id, store.withdrawnBy row.attestationId = .ok (some id) := by
  obtain ⟨pages, -, hkept⟩ := except_bind_ok (h.history room hroom)
  exact mem_keepWithdrawn hkept hrow

theorem Holds.historyOf_eq (h : Holds store rooms get live withdrawn rest) (hroom : room ∈ rooms)
    (includeWithdrawn : Bool) :
    historyOf store includeWithdrawn room = .ok (shownOf includeWithdrawn withdrawn room) := by
  cases includeWithdrawn with
  | false => rfl
  | true =>
    show (withdrawnInRoom store room).mapError _ = _
    rw [h.history room hroom]
    rfl

/-- Rows whose ids are new all go on the page. -/
theorem addWithdrawn_eq (room : ScopeRoom) (rows : Rows) (extra : List FileRow)
    (hnew : (rows.map (·.2.attestationId) ++ extra.map (·.attestationId)).Nodup) :
    addWithdrawn room rows extra = rows ++ extra.map (room, ·) := by
  induction extra generalizing rows with
  | nil => simp [addWithdrawn]
  | cons row extra ih =>
    have hrow : ¬ rows.any (·.2.attestationId = row.attestationId) := by
      intro hany
      obtain ⟨other, hother, hsame⟩ := List.any_eq_true.mp hany
      have hmem : row.attestationId ∈ rows.map (·.2.attestationId) :=
        List.mem_map.mpr ⟨other, hother, of_decide_eq_true hsame⟩
      exact (List.nodup_append.mp hnew).2.2 _ hmem _ List.mem_cons_self rfl
    rw [addWithdrawn, List.foldl_cons, if_neg hrow]
    have hrest := ih (rows ++ [(room, row)]) (by simpa using hnew)
    rw [addWithdrawn] at hrest
    rw [hrest]
    simp

/-! ## One page -/

/-- The rows of a page: of each of its rooms a part of the live rows, and the withdrawn ones. -/
def pageRows (shown : ScopeRoom → List FileRow) (vs : List (ScopeRoom × List FileRow)) : Rows :=
  vs.flatMap fun v => (v.2 ++ shown v.1).map (v.1, ·)

/-- Where the next page starts, as the cursor says it. -/
def cursorOf : List ScopeRoom × Option κ → Option (DriveCursor κ)
  | ([], _) => none
  | (room :: _, place) => some ⟨room.key, place⟩

/-- The ids of the rows that a page has, and of those that are still to come, are all different. -/
def Fresh (live shown : ScopeRoom → List FileRow) (rest : ScopeRoom → Option κ → List FileRow)
    (rows : Rows) (gs : List ScopeRoom) (place : Option κ) : Prop :=
  (rows.map (·.2.attestationId) ++ (remaining live rest gs place).map (·.2.attestationId) ++
    (gs.flatMap shown).map (·.attestationId)).Nodup

/-- A part of the next room's live rows and its withdrawn rows are new to the page. -/
theorem Fresh.addWithdrawn_eq {shown : ScopeRoom → List FileRow}
    (hfresh : Fresh live shown rest rows (room :: gs) place) {items : List FileRow}
    (hitems : items.Sublist (rest room place)) :
    addWithdrawn room (rows ++ items.map (room, ·)) (shown room) =
      rows ++ (items ++ shown room).map (room, ·) := by
  rw [Drive.addWithdrawn_eq]
  · rw [List.map_append, List.append_assoc]
  · refine hfresh.sublist ?_
    rw [List.map_append, remaining, List.map_append, List.flatMap_cons, List.map_append]
    refine List.Sublist.append (List.Sublist.append_left ?_ _) (List.sublist_append_left _ _)
    exact ((hitems.map _).map _).trans (List.sublist_append_left _ _)

/-- A room that has been read is no longer to come. -/
theorem Fresh.next {shown : ScopeRoom → List FileRow} (hresumes : Resumes get live rest)
    (hfresh : Fresh live shown rest rows (room :: gs) place) :
    Fresh live shown rest (rows ++ (rest room place ++ shown room).map (room, ·)) gs none := by
  have hperm (a i r s t : List String) :
      (a ++ (i ++ r) ++ (s ++ t)).Perm (a ++ (i ++ s) ++ r ++ t) := by
    simp only [List.append_assoc]
    exact ((List.perm_append_comm_assoc r s t).append_left i).append_left a
  unfold Fresh at hfresh ⊢
  rw [remaining, List.flatMap_cons] at hfresh
  simp only [List.map_append] at hfresh ⊢
  rw [Paging.remaining_start hresumes]
  rw [(hperm _ _ _ _ _).nodup_iff] at hfresh
  simpa only [List.map_map, Function.comp_def] using hfresh

/-- **A page.** The loop over the rooms reads a page of the walk over the live rows, and adds the
    withdrawn rows of its rooms. -/
theorem readRooms_eq (h : Holds store rooms get live withdrawn rest) (limit : Nat)
    (gs : List ScopeRoom) (hgs : ∀ room ∈ gs, room ∈ rooms) (place : Option κ) (read : Nat)
    (rows : Rows)
    (hfresh : Fresh live (shownOf includeWithdrawn withdrawn) rest rows gs place) :
    readRooms store limit includeWithdrawn gs place read rows =
      .ok (rows ++ pageRows (shownOf includeWithdrawn withdrawn) (visit get limit gs place read).1,
        (visit get limit gs place read).2.bind cursorOf) := by
  induction gs generalizing place read rows with
  | nil => simp [readRooms, visit, pageRows]
  | cons room gs ih =>
    have hroom := hgs room List.mem_cons_self
    rcases Paging.visit_cons get limit room gs place read with ⟨hspent, heq⟩ |
      ⟨hopen, c, hresume, heq⟩ | ⟨hopen, hresume, heq⟩
    · rw [readRooms, if_pos (Nat.sub_eq_zero_of_le hspent), heq]
      simp [pageRows, cursorOf]
    · have hasked := Nat.sub_pos_of_lt hopen
      have hadd := hfresh.addWithdrawn_eq (h.resumes.items_sublist hasked place)
      rw [readRooms, if_neg (Nat.ne_of_gt hasked), h.inRoom room hroom, h.historyOf_eq hroom, heq]
      simp only [Except.mapError, bind, Except.bind, hadd, hresume]
      simp [pageRows, cursorOf]
    · have hasked := Nat.sub_pos_of_lt hopen
      have hadd := hfresh.addWithdrawn_eq (h.resumes.items_sublist hasked place)
      have hnext := hfresh.next h.resumes
      rw [h.resumes.ended room _ place hasked hresume] at hnext
      have hrest := ih (fun room hroom => hgs room (List.mem_cons_of_mem _ hroom)) none
        (read + (get room (limit - read) place).items.length) _ hnext
      rw [readRooms, if_neg (Nat.ne_of_gt hasked), h.inRoom room hroom, h.historyOf_eq hroom, heq]
      simp only [Except.mapError, bind, Except.bind, hadd, hresume, hrest]
      simp [pageRows]

/-! ## Entries -/

theorem entriesOf_append {rows' : Rows} {shown shown' : List DriveEntry}
    (h : entriesOf store includeWithdrawn rows = .ok shown)
    (h' : entriesOf store includeWithdrawn rows' = .ok shown') :
    entriesOf store includeWithdrawn (rows ++ rows') = .ok (shown ++ shown') := by
  induction rows generalizing shown with
  | nil =>
    cases h
    exact h'
  | cons row rows ih =>
    rw [entriesOf] at h
    obtain ⟨answer, hanswer, h⟩ := except_bind_ok h
    obtain ⟨others, hothers, h⟩ := except_bind_ok h
    rw [List.cons_append, entriesOf, hanswer, ih hothers]
    simp only [bind, Except.bind]
    split_ifs at h ⊢
    · cases h
      rfl
    · cases h
      rfl

/-- Rows of a room that are all withdrawn, or all not. -/
theorem entriesOf_map {withdrawn : Bool} {part : List FileRow}
    (hanswer : ∀ row ∈ part, ∃ answer, store.withdrawnBy row.attestationId = .ok answer ∧
      answer.isSome = withdrawn)
    (hshown : withdrawn = true → includeWithdrawn = true) :
    entriesOf store includeWithdrawn (part.map (room, ·)) =
      .ok (part.map (entryOf room withdrawn)) := by
  induction part with
  | nil => rfl
  | cons row part ih =>
    obtain ⟨answer, heq, hsome⟩ := hanswer row List.mem_cons_self
    have hkept : ¬ (withdrawn && !includeWithdrawn) = true := by
      cases withdrawn with
      | false => simp
      | true => simp [hshown rfl]
    rw [List.map_cons, entriesOf, ih fun row hrow => hanswer row (List.mem_cons_of_mem _ hrow), heq]
    simp only [Except.mapError, bind, Except.bind, hsome, if_neg hkept, List.map_cons]

/-- The entries of a page. -/
def pageEntries (includeWithdrawn : Bool) (withdrawn : ScopeRoom → List FileRow)
    (vs : List (ScopeRoom × List FileRow)) : List DriveEntry :=
  vs.flatMap fun v => v.2.map (entryOf v.1 false) ++
    (shownOf includeWithdrawn withdrawn v.1).map (entryOf v.1 true)

theorem entriesOf_pageRows (h : Holds store rooms get live withdrawn rest)
    (includeWithdrawn : Bool) {vs : List (ScopeRoom × List FileRow)}
    (hvs : ∀ v ∈ vs, v.1 ∈ rooms ∧ ∀ row ∈ v.2, row ∈ live v.1) :
    entriesOf store includeWithdrawn (pageRows (shownOf includeWithdrawn withdrawn) vs) =
      .ok (pageEntries includeWithdrawn withdrawn vs) := by
  induction vs with
  | nil => rfl
  | cons v vs ih =>
    obtain ⟨hroom, hlive⟩ := hvs v List.mem_cons_self
    have hparts : entriesOf store includeWithdrawn (v.2.map (v.1, ·)) =
        .ok (v.2.map (entryOf v.1 false)) :=
      entriesOf_map (fun row hrow => ⟨none, h.liveRows v.1 hroom row (hlive row hrow), rfl⟩)
        (fun hfalse => absurd hfalse Bool.false_ne_true)
    have hhistory : entriesOf store includeWithdrawn
        ((shownOf includeWithdrawn withdrawn v.1).map (v.1, ·)) =
        .ok ((shownOf includeWithdrawn withdrawn v.1).map (entryOf v.1 true)) := by
      cases includeWithdrawn with
      | false => rfl
      | true =>
        apply entriesOf_map
        · intro row hrow
          obtain ⟨id, hid⟩ := h.withdrawnRows hroom hrow
          exact ⟨some id, hid, rfl⟩
        · exact fun _ => rfl
    have hrest := ih fun v hv => hvs v (List.mem_cons_of_mem _ hv)
    rw [pageRows, List.flatMap_cons, List.map_append]
    exact entriesOf_append (entriesOf_append hparts hhistory) hrest

/-! ## The walk -/

/-- A cursor that names a room leads to that room. -/
theorem startOf_encode {codec : CursorCodec κ}
    (hcodec : ∀ cursor, codec.decode (codec.encode cursor) = some cursor) (hrooms : rooms.Nodup)
    (hgs : room :: gs <:+ rooms) (place : Option κ) :
    ∃ start, startOf codec rooms (some (codec.encode ⟨room.key, place⟩)) = .ok (start, place) ∧
      rooms.drop start = room :: gs := by
  obtain ⟨before, rfl⟩ := hgs
  have hbefore : before.findIdx? (·.key = room.key) = none := by
    rw [List.findIdx?_eq_none_iff]
    intro other hother
    apply decide_eq_false
    intro hkey
    have hsame := ScopeRoom.key_injective hkey
    exact (List.nodup_append.mp hrooms).2.2 other hother room List.mem_cons_self hsame
  refine ⟨before.length, ?_, List.drop_left⟩
  rw [startOf, hcodec]
  simp [List.findIdx?_append, hbefore, List.findIdx?_cons]

theorem Holds.fresh (h : Holds store rooms get live withdrawn rest) (includeWithdrawn : Bool)
    (hgs : gs <:+ rooms)
    (hrest : remaining live rest gs place <:+ rooms.flatMap fun room => (live room).map (room, ·)) :
    Fresh live (shownOf includeWithdrawn withdrawn) rest [] gs place := by
  have hids := h.ids
  simp only [List.map_append] at hids
  replace hids := (List.flatMap_append_perm rooms _ _).nodup_iff.mpr hids
  unfold Fresh
  rw [List.map_nil, List.nil_append]
  refine hids.sublist (List.Sublist.append ?_ ?_)
  · have hlive := hrest.sublist.map (·.2.attestationId)
    rw [List.map_flatMap] at hlive
    simpa only [List.map_map, Function.comp_def] using hlive
  · rw [← List.map_flatMap]
    apply List.Sublist.map
    refine (hgs.sublist.flatMap _).trans (List.Sublist.flatMap_right rooms ?_)
    intro room _
    cases includeWithdrawn with
    | false => exact List.nil_sublist _
    | true => exact List.Sublist.refl _

/-- **The request.** A page of the drive is a page of the walk over the live rows. -/
theorem readDrive_eq {codec : CursorCodec κ} {after : Option String} {start : Nat}
    (h : Holds store rooms get live withdrawn rest) (hgs : gs <:+ rooms)
    (hrest : remaining live rest gs place <:+ rooms.flatMap fun room => (live room).map (room, ·))
    (hstart : startOf codec rooms after = .ok (start, place)) (hdrop : rooms.drop start = gs) :
    readDrive store codec rooms ⟨limit, after, includeWithdrawn⟩ =
      .ok ⟨rooms,
        pageEntries includeWithdrawn withdrawn (visit get (clampLimit limit) gs place 0).1,
        clampLimit limit,
        ((visit get (clampLimit limit) gs place 0).2.bind cursorOf).map codec.encode⟩ := by
  have hin : ∀ room ∈ gs, room ∈ rooms := fun room hroom => hgs.subset hroom
  have hpos := clampLimit_pos limit
  have hitems := Paging.visit_items h.resumes (clampLimit limit) gs place 0
    (fun hzero => absurd hpos (Nat.not_lt.mpr hzero))
  have hrooms := Paging.sublist_visit get (clampLimit limit) gs place 0
  have hvs : ∀ v ∈ (visit get (clampLimit limit) gs place 0).1,
      v.1 ∈ rooms ∧ ∀ row ∈ v.2, row ∈ live v.1 := by
    intro v hv
    refine ⟨hin v.1 (hrooms.subset (List.mem_map_of_mem hv)), fun row hrow => ?_⟩
    have hflat : (v.1, row) ∈ flat (visit get (clampLimit limit) gs place 0).1 :=
      List.mem_flatMap.mpr ⟨v, hv, List.mem_map_of_mem hrow⟩
    have hleft : (v.1, row) ∈ remaining live rest gs place := by
      rw [← hitems]
      exact List.mem_append_left _ hflat
    obtain ⟨room, -, hlive⟩ := List.mem_flatMap.mp (hrest.subset hleft)
    obtain ⟨row', hrow', heq⟩ := List.mem_map.mp hlive
    cases heq
    exact hrow'
  have hpage := readRooms_eq h (clampLimit limit) gs hin place 0 []
    (h.fresh includeWithdrawn hgs hrest)
  have hentries := entriesOf_pageRows h includeWithdrawn hvs
  rw [List.nil_append] at hpage
  simp only [readDrive, hstart, hdrop, bind, Except.bind, hpage, hentries]

/-- **The walk.** Its pages are those of the walk over the live rows, each with the withdrawn rows
    of its rooms. -/
theorem walk_eq {codec : CursorCodec κ} {after : Option String} {start : Nat}
    (hcodec : ∀ cursor, codec.decode (codec.encode cursor) = some cursor) (hrooms : rooms.Nodup)
    (h : Holds store rooms get live withdrawn rest) (limit : Nat) (includeWithdrawn : Bool)
    (n : Nat) (hgs : gs <:+ rooms)
    (hrest : remaining live rest gs place <:+ rooms.flatMap fun room => (live room).map (room, ·))
    (hstart : startOf codec rooms after = .ok (start, place)) (hdrop : rooms.drop start = gs) :
    (walk store codec rooms limit includeWithdrawn n after).map (·.map DrivePage.entries) =
      (plan get (clampLimit limit) n gs place).map
        (·.map (pageEntries includeWithdrawn withdrawn)) := by
  induction n generalizing after start place gs with
  | zero => rfl
  | succ n ih =>
    have hpos := clampLimit_pos limit
    have hitems := Paging.visit_items h.resumes (clampLimit limit) gs place 0
      (fun hzero => absurd hpos (Nat.not_lt.mpr hzero))
    rw [walk, readDrive_eq h hgs hrest hstart hdrop, plan]
    cases hvisit : visit get (clampLimit limit) gs place 0 with
    | mk vs next =>
      rw [hvisit] at hitems
      cases next with
      | none => rfl
      | some next =>
        obtain ⟨gs', place'⟩ := next
        obtain ⟨hsome, hsuffix⟩ := Paging.visit_next (congrArg Prod.snd hvisit)
        obtain ⟨room, gs', rfl⟩ := List.exists_cons_of_ne_nil hsome
        have hgs' := hsuffix.trans hgs
        have hrest' : remaining live rest (room :: gs') place' <:+
            rooms.flatMap fun room => (live room).map (room, ·) :=
          List.IsSuffix.trans ⟨flat vs, hitems⟩ hrest
        obtain ⟨start', hstart', hdrop'⟩ := startOf_encode hcodec hrooms hgs' place'
        have hnext := ih hgs' hrest' hstart' hdrop'
        simp only [Option.bind_some, cursorOf, Option.map_some]
        cases hpages : plan get (clampLimit limit) n (room :: gs') place' with
        | none =>
          rw [hpages, Option.map_none, Option.map_eq_none_iff] at hnext
          rw [hnext]
          rfl
        | some pages =>
          rw [hpages, Option.map_some] at hnext
          obtain ⟨drives, hdrives, heq⟩ := Option.map_eq_some_iff.mp hnext
          rw [hdrives]
          simp only [Option.map_some, List.map_cons, heq]

/-- A walk begins with the page that the request without a cursor gets. -/
theorem first_page {codec : CursorCodec κ} {after : Option String} {n : Nat}
    {pages : List DrivePage}
    (hwalk : walk store codec rooms limit includeWithdrawn n after = some pages) :
    ∃ page ∈ pages, readDrive store codec rooms ⟨limit, after, includeWithdrawn⟩ = .ok page := by
  cases n with
  | zero => cases hwalk
  | succ n =>
    rw [walk] at hwalk
    cases hpage : readDrive store codec rooms ⟨limit, after, includeWithdrawn⟩ with
    | error e =>
      rw [hpage] at hwalk
      cases hwalk
    | ok page =>
      rw [hpage] at hwalk
      cases hresume : page.resume with
      | none =>
        simp only [hresume, Option.some.injEq] at hwalk
        rw [← hwalk]
        exact ⟨page, List.mem_cons_self, rfl⟩
      | some next =>
        simp only [hresume] at hwalk
        obtain ⟨pages', -, rfl⟩ := Option.map_eq_some_iff.mp hwalk
        exact ⟨page, List.mem_cons_self, rfl⟩

/-! ## What a walk lists -/

/-- A walk that ends, lists every row once, and keeps its pages to the limit. -/
def Complete (store : DriveStore κ) (codec : CursorCodec κ) (rooms : List ScopeRoom) (limit : Nat)
    (includeWithdrawn : Bool) (wanted : List DriveEntry) : Prop :=
  ∃ n pages, walk store codec rooms limit includeWithdrawn n none = some pages ∧
    (pages.flatMap DrivePage.entries).Perm wanted ∧
    ∀ page ∈ pages, page.entries.length ≤ clampLimit limit

/-- Each room that has withdrawn rows is read on one page, and each page has space for the withdrawn
    rows of its rooms. -/
def Fits (limit : Nat) (withdrawn : ScopeRoom → List FileRow)
    (pages : List (List (ScopeRoom × List FileRow))) : Prop :=
  (∀ room, withdrawn room ≠ [] → (pages.flatten.map Prod.fst).count room ≤ 1) ∧
  ∀ vs ∈ pages, (flat vs).length + ((vs.map Prod.fst).flatMap withdrawn).length ≤ limit

/-- A page's entries, the live rows first. -/
theorem pageEntries_perm (includeWithdrawn : Bool) (withdrawn : ScopeRoom → List FileRow)
    (vs : List (ScopeRoom × List FileRow)) :
    (pageEntries includeWithdrawn withdrawn vs).Perm
      ((flat vs).map (fun entry => entryOf entry.1 false entry.2) ++
        (vs.map Prod.fst).flatMap fun room =>
          (shownOf includeWithdrawn withdrawn room).map (entryOf room true)) := by
  have hperm := List.flatMap_append_perm vs (fun v => v.2.map (entryOf v.1 false))
    (fun v => (shownOf includeWithdrawn withdrawn v.1).map (entryOf v.1 true))
  rw [flat, List.map_flatMap, List.flatMap_map]
  simp only [List.map_map, Function.comp_def]
  exact hperm.symm

theorem length_pageEntries (includeWithdrawn : Bool) (withdrawn : ScopeRoom → List FileRow)
    (vs : List (ScopeRoom × List FileRow)) :
    (pageEntries includeWithdrawn withdrawn vs).length = (flat vs).length +
      ((vs.map Prod.fst).flatMap (shownOf includeWithdrawn withdrawn)).length := by
  rw [(pageEntries_perm includeWithdrawn withdrawn vs).length_eq, List.length_append,
    List.length_map]
  simp only [List.length_flatMap, List.length_map]

/-- The pages of a walk, as one. -/
theorem flatMap_pageEntries (includeWithdrawn : Bool) (withdrawn : ScopeRoom → List FileRow)
    (pages : List (List (ScopeRoom × List FileRow))) :
    pages.flatMap (pageEntries includeWithdrawn withdrawn) =
      pageEntries includeWithdrawn withdrawn pages.flatten := by
  induction pages with
  | nil => rfl
  | cons vs pages ih => rw [List.flatMap_cons, ih, List.flatten_cons, pageEntries, pageEntries,
      pageEntries, List.flatMap_append]

theorem Holds.nodup_history (h : Holds store rooms get live withdrawn rest)
    (includeWithdrawn : Bool) :
    (rooms.flatMap fun room =>
      (shownOf includeWithdrawn withdrawn room).map (entryOf room true)).Nodup := by
  refine List.Nodup.of_map DriveEntry.attestationId (h.ids.sublist ?_)
  rw [List.map_flatMap]
  apply List.Sublist.flatMap_right
  intro room _
  rw [List.map_map, List.map_append]
  cases includeWithdrawn with
  | false => exact List.nil_sublist _
  | true => exact List.sublist_append_right _ _

/-- The entries of a walk are the wanted ones exactly when each room that has withdrawn rows is read
    on one page. -/
theorem flatMap_pageEntries_perm_iff {n : Nat} {pages : List (List (ScopeRoom × List FileRow))}
    (h : Holds store rooms get live withdrawn rest) (hrooms : rooms.Nodup)
    (includeWithdrawn : Bool) (hlimit : 0 < limit)
    (hplan : plan get limit n rooms none = some pages) :
    (pages.flatMap (pageEntries includeWithdrawn withdrawn)).Perm
        (visible includeWithdrawn live withdrawn rooms) ↔
      ∀ room, shownOf includeWithdrawn withdrawn room ≠ [] →
        (pages.flatten.map Prod.fst).count room ≤ 1 := by
  have hread := pageEntries_perm includeWithdrawn withdrawn pages.flatten
  have hwanted := (List.flatMap_append_perm rooms (fun room => (live room).map (entryOf room false))
    (fun room => (shownOf includeWithdrawn withdrawn room).map (entryOf room true))).symm
  have hlive : (flat pages.flatten).map (fun entry => entryOf entry.1 false entry.2) =
      rooms.flatMap fun room => (live room).map (entryOf room false) := by
    rw [Paging.plan_items h.resumes hlimit hplan, Paging.remaining_start h.resumes,
      List.map_flatMap]
    simp only [List.map_map, Function.comp_def]
  have hmem : ∀ room, room ∈ pages.flatten.map Prod.fst ↔ room ∈ rooms := by
    intro room
    constructor
    · intro hroom
      obtain ⟨v, hv, rfl⟩ := List.mem_map.mp hroom
      obtain ⟨vs, hvs, hv⟩ := List.mem_flatten.mp hv
      exact (Paging.sublist_plan hplan vs hvs).subset (List.mem_map_of_mem hv)
    · exact Paging.mem_plan hplan
  have hgroups := List.flatMap_perm_iff hrooms (h.nodup_history includeWithdrawn) hmem
  rw [flatMap_pageEntries, hread.congr_left, visible, hwanted.congr_right, hlive,
    List.perm_append_left_iff, hgroups]
  simp only [ne_eq, List.map_eq_nil_iff]

/-- What the pages of a walk have to be, as what the pages of the live rows have to be. -/
theorem Holds.entries_iff {n : Nat} {drives : List DrivePage}
    {pages : List (List (ScopeRoom × List FileRow))}
    (h : Holds store rooms get live withdrawn rest) (hrooms : rooms.Nodup)
    (hpages : plan get (clampLimit limit) n rooms none = some pages)
    (hentries : drives.map DrivePage.entries =
      pages.map (pageEntries includeWithdrawn withdrawn)) :
    (drives.flatMap DrivePage.entries).Perm (visible includeWithdrawn live withdrawn rooms) ∧
        (∀ page ∈ drives, page.entries.length ≤ clampLimit limit) ↔
      Fits (clampLimit limit) (shownOf includeWithdrawn withdrawn) pages := by
  have hflat : drives.flatMap DrivePage.entries =
      pages.flatMap (pageEntries includeWithdrawn withdrawn) := by
    rw [List.flatMap_def, List.flatMap_def, hentries]
  have hlength : (∀ page ∈ drives, page.entries.length ≤ clampLimit limit) ↔
      ∀ vs ∈ pages, (pageEntries includeWithdrawn withdrawn vs).length ≤ clampLimit limit := by
    have hdrives : (∀ page ∈ drives, page.entries.length ≤ clampLimit limit) ↔
        ∀ entries ∈ drives.map DrivePage.entries, entries.length ≤ clampLimit limit := by
      simp
    rw [hdrives, hentries]
    simp
  rw [hflat, hlength, flatMap_pageEntries_perm_iff h hrooms includeWithdrawn
    (clampLimit_pos limit) hpages]
  simp only [length_pageEntries, Fits]

/-- A walk and the walk over the live rows of the same length. -/
theorem complete_iff_fits {codec : CursorCodec κ}
    (hcodec : ∀ cursor, codec.decode (codec.encode cursor) = some cursor) (hrooms : rooms.Nodup)
    (h : Holds store rooms get live withdrawn rest) (limit : Nat) (includeWithdrawn : Bool) :
    Complete store codec rooms limit includeWithdrawn
        (visible includeWithdrawn live withdrawn rooms) ↔
      ∃ n pages, plan get (clampLimit limit) n rooms none = some pages ∧
        Fits (clampLimit limit) (shownOf includeWithdrawn withdrawn) pages := by
  have hstart : remaining live rest rooms none <:+
      rooms.flatMap fun room => (live room).map (room, ·) :=
    (Paging.remaining_start h.resumes rooms) ▸ List.suffix_refl _
  have hfirst : startOf codec rooms none = .ok (0, none) := rfl
  have hwalk (n : Nat) := walk_eq hcodec hrooms h limit includeWithdrawn n (List.suffix_refl rooms)
    hstart hfirst List.drop_zero
  constructor
  · rintro ⟨n, drives, hdrives, hcomplete⟩
    have hn := hwalk n
    rw [hdrives, Option.map_some] at hn
    obtain ⟨pages, hpages, hentries⟩ := Option.map_eq_some_iff.mp hn.symm
    exact ⟨n, pages, hpages, (h.entries_iff hrooms hpages hentries.symm).mp hcomplete⟩
  · rintro ⟨n, pages, hpages, hfits⟩
    have hn := hwalk n
    rw [hpages, Option.map_some] at hn
    obtain ⟨drives, hdrives, hentries⟩ := Option.map_eq_some_iff.mp hn
    exact ⟨n, drives, hdrives, (h.entries_iff hrooms hpages hentries).mpr hfits⟩

/-- The live rows alone always fit. -/
theorem fits_live {n : Nat} {pages : List (List (ScopeRoom × List FileRow))}
    (hresumes : Resumes get live rest) (hplan : plan get limit n gs place = some pages) :
    Fits limit (shownOf false withdrawn) pages := by
  constructor
  · intro room hsome
    exact absurd rfl hsome
  · intro vs hvs
    have hnone : (vs.map Prod.fst).flatMap (shownOf false withdrawn) = [] :=
      List.flatMap_eq_nil_iff.mpr fun _ _ => rfl
    rw [hnone]
    exact Paging.length_plan hresumes hplan vs hvs

/-- **Exactness.** A walk lists every row once, in pages of the asked size, exactly when withdrawn
    rows are not asked for, or fit on the pages of the live rows. -/
theorem drive_complete_iff {codec : CursorCodec κ}
    (hcodec : ∀ cursor, codec.decode (codec.encode cursor) = some cursor) (hrooms : rooms.Nodup)
    (h : Holds store rooms get live withdrawn rest) (limit : Nat) (includeWithdrawn : Bool) :
    Complete store codec rooms limit includeWithdrawn
        (visible includeWithdrawn live withdrawn rooms) ↔
      includeWithdrawn = false ∨
      ∃ n pages, plan get (clampLimit limit) n rooms none = some pages ∧
        Fits (clampLimit limit) withdrawn pages := by
  rw [complete_iff_fits hcodec hrooms h]
  cases includeWithdrawn with
  | false =>
    obtain ⟨pages, hpages⟩ := Paging.exists_plan h.resumes (clampLimit_pos limit) rooms none
      (Nat.lt_succ_self _)
    simp only [true_or, iff_true]
    exact ⟨_, pages, hpages, fits_live h.resumes hpages⟩
  | true =>
    simp only [Bool.true_eq_false, false_or]
    exact Iff.rfl

end Store

/-! ## A room with one withdrawn row -/

/-- A spelling of cursors: a mark for each row that is done, and the room. -/
def markCodec : CursorCodec Nat where
  encode cursor := String.ofList
    (cursor.place.elim ['-'] (List.replicate · '+') ++ ' ' :: cursor.room.toList)
  decode s :=
    let marks := s.toList.takeWhile (· ≠ ' ')
    some ⟨String.ofList (s.toList.drop (marks.length + 1)),
      if marks = ['-'] then none else some marks.length⟩

theorem markCodec_roundTrip (cursor : DriveCursor Nat) :
    markCodec.decode (markCodec.encode cursor) = some cursor := by
  obtain ⟨room, place⟩ := cursor
  cases place with
  | none => simp [markCodec]
  | some n =>
    have hmarks : (List.replicate n '+' ++ ' ' :: room.toList).takeWhile (· ≠ ' ') =
        List.replicate n '+' := by
      rw [List.takeWhile_append_of_pos]
      · simp
      · intro c hc
        rw [List.eq_of_mem_replicate hc]
        decide
    have hplus : List.replicate n '+' ≠ ['-'] := by
      intro hminus
      have hmem : '-' ∈ List.replicate n '+' := by rw [hminus]; exact List.mem_cons_self
      exact absurd (List.eq_of_mem_replicate hmem) (by decide)
    simp only [markCodec, Option.elim_some, String.toList_ofList, hmarks, List.length_replicate,
      if_neg hplus]
    have hroom : (List.replicate n '+' ++ ' ' :: room.toList).drop (n + 1) = room.toList := by
      rw [List.drop_append]
      simp
    rw [hroom, String.ofList_toList]

def ownRoom : ScopeRoom := ⟨.selfCollective, "me"⟩

def liveIn (room : ScopeRoom) : List FileRow :=
  if room = ownRoom then [⟨"a", "me", "t1"⟩, ⟨"b", "me", "t2"⟩] else []

def withdrawnIn (room : ScopeRoom) : List FileRow :=
  if room = ownRoom then [⟨"c", "me", "t3"⟩] else []

/-- A drive with two live files and a withdrawn one. -/
def smallDrive : DriveStore Nat where
  inRoom room asked place := .ok (Paging.byOffset liveIn room asked place)
  lifecyclePages room :=
    .ok [(liveIn room).map (·, .live) ++ (withdrawnIn room).map (·, .withdrawn)]
  withdrawnBy id := .ok (if id = "c" then some "w" else none)
  shown room := room.key

theorem smallDrive_holds :
    Holds smallDrive [ownRoom] (Paging.byOffset liveIn) liveIn withdrawnIn
      (fun room place => (liveIn room).drop (place.getD 0)) where
  inRoom _ _ _ _ := rfl
  resumes := Paging.resumes_byOffset liveIn
  history := by decide +kernel
  liveRows := by decide +kernel
  ids := by decide +kernel

/-- One row a page: the withdrawn row is on both pages, beside the live one. -/
theorem smallDrive_incomplete :
    (walk smallDrive markCodec [ownRoom] 1 true 2 none).map
        (·.map fun page => page.entries.map (·.attestationId)) = some [["a", "c"], ["b", "c"]] ∧
      ¬ Complete smallDrive markCodec [ownRoom] 1 true
        (visible true liveIn withdrawnIn [ownRoom]) := by
  refine ⟨by decide +kernel, ?_⟩
  rintro ⟨n, pages, hpages, -, hlength⟩
  obtain ⟨page, hmem, hpage⟩ := first_page hpages
  have htwo : (readDrive smallDrive markCodec [ownRoom] ⟨1, none, true⟩).toOption.map
      (·.entries.length) = some 2 := by decide +kernel
  rw [hpage] at htwo
  have hentries : page.entries.length = 2 := Option.some.inj htwo
  have hover := hlength page hmem
  rw [hentries] at hover
  exact absurd hover (by decide)

/-- A larger page holds the withdrawn row as well. -/
theorem smallDrive_complete :
    Complete smallDrive markCodec [ownRoom] 3 true (visible true liveIn withdrawnIn [ownRoom]) := by
  refine (drive_complete_iff markCodec_roundTrip (List.nodup_singleton _) smallDrive_holds 3
    true).mpr
    (Or.inr ⟨1, [[(ownRoom, liveIn ownRoom)]], by decide +kernel, ?_, by decide +kernel⟩)
  intro room _
  exact List.count_le_length

end CirisServer.Drive
