import Mathlib.Data.List.Induction
import CirisServer.ForStd.List
import CirisServer.ForStd.Run
import CirisServer.Native.Watchlist

/-!
# Which watchlists the rows of a group enable

The reader keeps the last enable it reads of a watchlist, and drops the watchlist if any
row withdraws it. It looks at neither the times nor the signers of the rows. So a disable
lasts for ever, an older enable may be read after a newer one, and the row of a stranger
counts as much as any other.

Key results:
- `mem_watchlistEnablesForGroup`: what is listed, as a fact about the rows
- `latest_in_force_iff`: the runs after which the latest requests are the ones listed
- `rows_ignored_iff`: the added rows that change nothing
-/

namespace CirisServer.Watchlist

open Infohazard Run

/-! ## What a row is to the reader -/

namespace WatchlistRow

/-- What the row enables. -/
def enable (row : WatchlistRow) : Option WatchlistEnable :=
  if row.isEnableType ∧ row.inFamily ∧ row.enabled then
    WatchlistEnable.ofJson row.attestationEnvelope
  else none

/-- What the row enables, if it is this watchlist. -/
def enableOf (id : String) (row : WatchlistRow) : Option WatchlistEnable :=
  row.enable.filter fun e => e.watchlistId = id

def Withdraws (row : WatchlistRow) (id : String) : Prop :=
  row.attestationType = "withdraws" ∧ row.watchlistId = some id

instance (row : WatchlistRow) (id : String) : Decidable (row.Withdraws id) :=
  inferInstanceAs (Decidable (_ ∧ _))

theorem enableOf_eq_some {id : String} {row : WatchlistRow} {e : WatchlistEnable} :
    row.enableOf id = some e ↔ row.enable = some e ∧ e.watchlistId = id := by
  simp [enableOf, Option.filter_eq_some_iff]

theorem watchlistId_of_enable {row : WatchlistRow} {e : WatchlistEnable}
    (h : row.enable = some e) : row.watchlistId = some e.watchlistId := by
  unfold enable at h
  split at h
  · simp only [WatchlistEnable.ofJson, Option.bind_eq_bind, Option.bind_eq_some_iff] at h
    obtain ⟨_, -, _, -, j, hj, _, hid, hrest⟩ := h
    obtain ⟨_, -, _, -, _, -, _, -, _, -, _, -, _, -, _, -, _, -, he⟩ := hrest
    cases he
    rw [watchlistId, hj, Option.bind_some, hid]
  · cases h

theorem not_withdraws_of_enable {row : WatchlistRow} {e : WatchlistEnable}
    (h : row.enable = some e) (id : String) : ¬ row.Withdraws id := by
  intro hw
  unfold enable at h
  split at h
  · rename_i hrow
    have htype := hrow.1
    rw [isEnableType, hw.1] at htype
    exact absurd htype (by decide +kernel)
  · cases h

end WatchlistRow

/-- **Inversion.** A row withdraws a watchlist, or enables one, or is nothing to the
    reader. -/
theorem enables_step_cases (s : Enables) (row : WatchlistRow) :
    (∃ id, row.Withdraws id ∧ s.step row = { s with withdrawn := id :: s.withdrawn }) ∨
    (∃ e, row.enable = some e ∧
      s.step row = { s with enables := s.enables.insert e.watchlistId e }) ∨
    ((∀ id, ¬ row.Withdraws id) ∧ row.enable = none ∧ s.step row = s) := by
  have hstep : s.step row = s.step row := rfl
  conv_rhs at hstep => unfold Enables.step
  cases hid : row.watchlistId with
  | none =>
    have henable : row.enable = none := by
      cases he : row.enable with
      | none => rfl
      | some e =>
        rw [WatchlistRow.watchlistId_of_enable he] at hid
        cases hid
    refine Or.inr (Or.inr ⟨fun id hw => ?_, henable, by rw [hstep, hid]⟩)
    rw [hw.2] at hid
    cases hid
  | some id =>
    simp only [hid] at hstep
    by_cases hw : row.attestationType = "withdraws"
    · exact Or.inl ⟨id, ⟨hw, hid⟩, by rw [hstep, if_pos hw]⟩
    · rw [if_neg hw] at hstep
      by_cases hrow : row.isEnableType ∧ row.inFamily ∧ row.enabled
      · rw [if_neg (by simp [hrow]), if_neg (by simp [hrow])] at hstep
        have henable : row.enable = WatchlistEnable.ofJson row.attestationEnvelope := if_pos hrow
        rw [← henable] at hstep
        cases he : row.enable with
        | none =>
          rw [he] at hstep
          exact Or.inr (Or.inr ⟨fun id' hw' => hw hw'.1, rfl, hstep⟩)
        | some e =>
          have heq := WatchlistRow.watchlistId_of_enable he
          rw [hid, Option.some.injEq] at heq
          rw [he, heq] at hstep
          exact Or.inr (Or.inl ⟨e, rfl, hstep⟩)
      · have hsame : s.step row = s := by
          rw [hstep]
          split
          · rfl
          · split
            · rfl
            · simp_all
        exact Or.inr (Or.inr ⟨fun id' hw' => hw hw'.1, if_neg hrow, hsame⟩)

/-- The last enable of the watchlist. -/
def lastEnable (rows : List WatchlistRow) (id : String) : Option WatchlistEnable :=
  (rows.filterMap (WatchlistRow.enableOf id)).getLast?

/-- What the loop holds after these rows. -/
structure Reads (rows : List WatchlistRow) (s : Enables) : Prop where
  withdrawn : ∀ id, id ∈ s.withdrawn ↔ ∃ row ∈ rows, row.Withdraws id
  enables : ∀ id, s.enables.lookup id = lastEnable rows id

theorem reads_append_singleton {rows : List WatchlistRow} {s : Enables} (row : WatchlistRow)
    (h : Reads rows s) : Reads (rows ++ [row]) (s.step row) := by
  have hlast : ∀ id, lastEnable (rows ++ [row]) id =
      (row.enableOf id).or (lastEnable rows id) := by
    intro id
    rw [lastEnable, List.filterMap_append, List.getLast?_append]
    cases he : row.enableOf id <;> simp [he, lastEnable]
  have hwithdrawn : ∀ id, (∃ r ∈ rows ++ [row], r.Withdraws id) ↔
      (∃ r ∈ rows, r.Withdraws id) ∨ row.Withdraws id := by
    intro id
    simp [or_and_right, exists_or]
  rcases enables_step_cases s row with ⟨id, hw, hs⟩ | ⟨e, he, hs⟩ | ⟨hw, he, hs⟩
  · have hnone : row.enable = none := by
      cases he : row.enable with
      | none => rfl
      | some e => exact absurd hw (WatchlistRow.not_withdraws_of_enable he id)
    have hid : ∀ id', row.Withdraws id' ↔ id' = id := by
      intro id'
      rw [WatchlistRow.Withdraws, hw.2, Option.some.injEq]
      exact ⟨fun h => h.2.symm, fun h => ⟨hw.1, h.symm⟩⟩
    constructor
    · intro id'
      rw [hs, hwithdrawn, hid, List.mem_cons, h.withdrawn, or_comm]
    · intro id'
      rw [hs, hlast, WatchlistRow.enableOf, hnone, h.enables]
      rfl
  · constructor
    · intro id'
      rw [hs, hwithdrawn, h.withdrawn,
        or_iff_left (WatchlistRow.not_withdraws_of_enable he id')]
    · intro id'
      rw [hs, hlast]
      by_cases hid : id' = e.watchlistId
      · have hrow : row.enableOf id' = some e :=
          WatchlistRow.enableOf_eq_some.mpr ⟨he, hid.symm⟩
        rw [hrow, hid, AList.lookup_insert, Option.some_or]
      · have hrow : row.enableOf id' = none := by
          apply Option.eq_none_iff_forall_ne_some.mpr
          intro e' he'
          obtain ⟨henable, heq⟩ := WatchlistRow.enableOf_eq_some.mp he'
          rw [he, Option.some.injEq] at henable
          exact hid (henable ▸ heq.symm)
        rw [hrow, AList.lookup_insert_ne hid, h.enables, Option.none_or]
  · constructor
    · intro id'
      rw [hs, hwithdrawn, h.withdrawn, or_iff_left (hw id')]
    · intro id'
      rw [hs, hlast, WatchlistRow.enableOf, he, h.enables]
      rfl

theorem reads_foldl (rows : List WatchlistRow) :
    Reads rows (rows.foldl Enables.step ⟨∅, []⟩) := by
  induction rows using List.reverseRecOn with
  | nil => exact ⟨fun id => by simp, fun id => rfl⟩
  | append_singleton rows row ih =>
    rw [List.foldl_append]
    exact reads_append_singleton row ih

theorem watchlistId_of_lastEnable {rows : List WatchlistRow} {id : String} {e : WatchlistEnable}
    (h : lastEnable rows id = some e) : e.watchlistId = id := by
  obtain ⟨row, -, hrow⟩ := List.mem_filterMap.mp (List.mem_of_getLast? h)
  exact (WatchlistRow.enableOf_eq_some.mp hrow).2

/-- An enable is listed if it is the last of its watchlist and no row withdraws that. -/
theorem mem_watchlistEnablesForGroup {rows : List WatchlistRow} {e : WatchlistEnable} :
    e ∈ watchlistEnablesForGroup (.ok rows) ↔
      lastEnable rows e.watchlistId = some e ∧ ∀ row ∈ rows, ¬ row.Withdraws e.watchlistId := by
  have hreads := reads_foldl rows
  simp only [watchlistEnablesForGroup, List.mem_map, List.mem_filter]
  constructor
  · rintro ⟨⟨id, e'⟩, ⟨hentry, hwithdrawn⟩, rfl⟩
    have hlast := (hreads.enables id).symm.trans (AList.mem_lookup_iff.mpr hentry)
    have hid := watchlistId_of_lastEnable hlast
    rw [hid]
    refine ⟨hlast, fun row hrow hw => ?_⟩
    have hmem := (hreads.withdrawn id).mpr ⟨row, hrow, hw⟩
    simp [hmem] at hwithdrawn
  · intro ⟨hlast, hnone⟩
    refine ⟨⟨e.watchlistId, e⟩, ⟨?_, ?_⟩, rfl⟩
    · exact AList.mem_lookup_iff.mp ((hreads.enables _).trans hlast)
    · have hout : e.watchlistId ∉ (rows.foldl Enables.step ⟨∅, []⟩).withdrawn := by
        rw [hreads.withdrawn]
        rintro ⟨row, hrow, hw⟩
        exact hnone row hrow hw
      simpa using hout

/-! ## Runs of the route -/

/-- One request to the route. -/
structure WatchlistCall where
  caller : Except Infohazard.VerifyError String
  body : Except String WatchlistRequest
  env : SafetyEnv

/-- The stored rows, and the requests that left them, oldest first. -/
structure WatchlistWorld where
  rows : GroupRows
  acts : List WatchlistRequest

/-- The request, if it is admitted and its row is stored. -/
def WatchlistCall.act (call : WatchlistCall) : Option WatchlistRequest :=
  match watchlistGate call.env call.caller call.body, call.env.emit with
  | .ok req, .ok _ => some req
  | _, _ => none

def WatchlistWorld.step (w : WatchlistWorld) (call : WatchlistCall) : WatchlistWorld where
  rows := (watchlist call.env call.caller call.body w.rows).1
  acts := w.acts ++ call.act.toList

def WatchlistWorld.empty : WatchlistWorld := ⟨fun _ => [], []⟩

/-- **Inversion.** A call leaves everything as it was, or adds its request and the row. -/
theorem step_cases (w : WatchlistWorld) (call : WatchlistCall) :
    w.step call = w ∨
    ∃ req, w.step call =
      ⟨Function.update w.rows req.enable.groupKeyId (w.rows req.enable.groupKeyId ++ [req.row]),
        w.acts ++ [req]⟩ := by
  unfold WatchlistWorld.step WatchlistCall.act watchlist
  cases hgate : watchlistGate call.env call.caller call.body with
  | error answer => exact Or.inl (by simp)
  | ok req =>
    cases hemit : call.env.emit with
    | error e => exact Or.inl (by simp)
    | ok attestationId =>
      refine Or.inr ⟨req, ?_⟩
      cases call.env.promote <;> rfl

/-- The requests about one group. -/
def actsOf (acts : List WatchlistRequest) (group : String) : List WatchlistRequest :=
  acts.filter fun a => a.enable.groupKeyId = group

/-- A group's rows are those of its requests. -/
def RowsOfActs (w : WatchlistWorld) : Prop :=
  ∀ group, w.rows group = (actsOf w.acts group).map WatchlistRequest.row

theorem step_rowsOfActs (w : WatchlistWorld) (call : WatchlistCall) (h : RowsOfActs w) :
    RowsOfActs (w.step call) := by
  rcases step_cases w call with hsame | ⟨req, hstep⟩
  · rwa [hsame]
  intro group
  rw [hstep]
  by_cases hgroup : req.enable.groupKeyId = group
  · subst hgroup
    simp [actsOf, h _]
  · have hother : group ≠ req.enable.groupKeyId := fun heq => hgroup heq.symm
    simp [actsOf, h _, hgroup, Function.update_of_ne hother]

theorem run_rowsOfActs (calls : List WatchlistCall) :
    RowsOfActs (after WatchlistWorld.step WatchlistWorld.empty calls) :=
  after_invariant step_rowsOfActs fun _ => rfl

/-! ## The latest request -/

/-- The latest request about a watchlist of the group. -/
def latest (acts : List WatchlistRequest) (group id : String) : Option WatchlistRequest :=
  ((actsOf acts group).filter fun a => a.enable.watchlistId = id).getLast?

/-- The latest request about the watchlist is an enable, and this is what it enables. -/
def InForce (acts : List WatchlistRequest) (group : String) (e : WatchlistEnable) : Prop :=
  ∃ a, latest acts group e.watchlistId = some a ∧ a.enable = e ∧ e.enabled = true

/-- A watchlist whose latest request is an enable has had no request but that one, made
    once or more. -/
def NeverChanged (acts : List WatchlistRequest) (group : String) : Prop :=
  ∀ id a, latest acts group id = some a → a.enable.enabled = true →
    ∀ b ∈ actsOf acts group, b.enable.watchlistId = id → b.enable = a.enable

theorem enable_row (req : WatchlistRequest) :
    req.row.enable = if req.enable.enabled then some req.enable else none := by
  by_cases henabled : req.enable.enabled = true
  · have hfamily : (enableRow req.signerKeyId req.enable).inFamily = true := by
      show "watchlist:".toList.isPrefixOf req.enable.dimension.toList = true
      rw [WatchlistEnable.dimension, String.toList_append, String.toList_append,
        List.append_assoc, List.isPrefixOf_iff_prefix]
      exact List.prefix_append _ _
    have hrow : (enableRow req.signerKeyId req.enable).enabled = true := henabled
    rw [WatchlistRequest.row, if_pos henabled, if_pos henabled, WatchlistRow.enable,
      if_pos ⟨rfl, hfamily, hrow⟩]
    exact req.enable.ofJson_envelope
  · rw [WatchlistRequest.row, if_neg henabled, if_neg henabled, WatchlistRow.enable, if_neg]
    intro hrow
    have htype : false = true := hrow.1
    cases htype

theorem withdraws_row (req : WatchlistRequest) (id : String) :
    req.row.Withdraws id ↔ req.enable.enabled = false ∧ req.enable.watchlistId = id := by
  by_cases henabled : req.enable.enabled = true
  · have hnot : ¬ req.row.Withdraws id := by
      apply WatchlistRow.not_withdraws_of_enable (e := req.enable)
      rw [enable_row, if_pos henabled]
    simp [hnot, henabled]
  · rw [WatchlistRow.Withdraws, WatchlistRequest.row, if_neg henabled]
    show "withdraws" = "withdraws" ∧ some req.enable.watchlistId = some id ↔ _
    simp [henabled]

theorem mem_actsOf_of_latest {acts : List WatchlistRequest} {group id : String}
    {a : WatchlistRequest} (h : latest acts group id = some a) :
    a ∈ actsOf acts group ∧ a.enable.watchlistId = id := by
  have hmem := List.mem_filter.mp (List.mem_of_getLast? h)
  exact ⟨hmem.1, by simpa using hmem.2⟩

theorem exists_latest {acts : List WatchlistRequest} {group : String} {a : WatchlistRequest}
    (h : a ∈ actsOf acts group) : ∃ b, latest acts group a.enable.watchlistId = some b := by
  have hmem : a ∈ (actsOf acts group).filter
      fun b => b.enable.watchlistId = a.enable.watchlistId :=
    List.mem_filter.mpr ⟨h, by simp⟩
  exact Option.isSome_iff_exists.mp (List.getLast?_isSome.mpr (List.ne_nil_of_mem hmem))

/-- The enables that the rows of a group hold, in any order. -/
theorem exists_of_lastEnable {acts : List WatchlistRequest} {group id : String}
    {rows : List WatchlistRow} {e : WatchlistEnable}
    (hrows : rows.Perm ((actsOf acts group).map WatchlistRequest.row))
    (h : lastEnable rows id = some e) :
    ∃ a ∈ actsOf acts group, a.enable = e ∧ e.enabled = true ∧ e.watchlistId = id := by
  obtain ⟨row, hrow, henable⟩ := List.mem_filterMap.mp (List.mem_of_getLast? h)
  obtain ⟨henable, hid⟩ := WatchlistRow.enableOf_eq_some.mp henable
  obtain ⟨a, ha, rfl⟩ := List.mem_map.mp (hrows.mem_iff.mp hrow)
  rw [enable_row] at henable
  split at henable
  · rename_i henabled
    cases henable
    exact ⟨a, ha, rfl, henabled, hid⟩
  · cases henable

/-- Where nothing changed, what is listed is what is in force. -/
theorem NeverChanged.mem_iff {acts : List WatchlistRequest} {group : String}
    (h : NeverChanged acts group) {rows : List WatchlistRow}
    (hrows : rows.Perm ((actsOf acts group).map WatchlistRequest.row)) (e : WatchlistEnable) :
    e ∈ watchlistEnablesForGroup (.ok rows) ↔ InForce acts group e := by
  have hrow : ∀ a ∈ actsOf acts group, a.row ∈ rows := fun a ha =>
    hrows.mem_iff.mpr (List.mem_map_of_mem ha)
  rw [mem_watchlistEnablesForGroup]
  constructor
  · intro ⟨hlast, hnone⟩
    obtain ⟨a, ha, rfl, henabled, -⟩ := exists_of_lastEnable hrows hlast
    obtain ⟨b, hb⟩ := exists_latest ha
    obtain ⟨hbmem, hbid⟩ := mem_actsOf_of_latest hb
    have hbenabled : b.enable.enabled = true := by
      by_contra hdisable
      exact hnone b.row (hrow b hbmem) ((withdraws_row b _).mpr ⟨by simpa using hdisable, hbid⟩)
    exact ⟨b, hb, (h _ b hb hbenabled a ha rfl).symm, henabled⟩
  · intro ⟨a, ha, hae, henabled⟩
    subst hae
    have hsame := h _ a ha henabled
    have hamem := (mem_actsOf_of_latest ha).1
    constructor
    · -- every enable of the watchlist is this one, and there is one
      have hmem : a.enable ∈ rows.filterMap (WatchlistRow.enableOf a.enable.watchlistId) :=
        List.mem_filterMap.mpr ⟨a.row, hrow a hamem,
          WatchlistRow.enableOf_eq_some.mpr ⟨by rw [enable_row, if_pos henabled], rfl⟩⟩
      obtain ⟨e, he⟩ : ∃ e, lastEnable rows a.enable.watchlistId = some e :=
        Option.isSome_iff_exists.mp (List.getLast?_isSome.mpr (List.ne_nil_of_mem hmem))
      obtain ⟨b, hb, rfl, -, hid⟩ := exists_of_lastEnable hrows he
      rw [he, hsame b hb hid]
    · intro row hrow' hw
      obtain ⟨b, hb, rfl⟩ := List.mem_map.mp (hrows.mem_iff.mp hrow')
      obtain ⟨hdisable, hid⟩ := (withdraws_row b _).mp hw
      rw [hsame b hb hid, henabled] at hdisable
      cases hdisable

/-- What is in force whatever the order of the rows has never changed. -/
theorem neverChanged_of_mem_iff {acts : List WatchlistRequest} {group : String}
    (h : ∀ rows : List WatchlistRow, rows.Perm ((actsOf acts group).map WatchlistRequest.row) →
      ∀ e, e ∈ watchlistEnablesForGroup (.ok rows) ↔ InForce acts group e) :
    NeverChanged acts group := by
  intro id a ha henabled b hb hid
  obtain ⟨hamem, haid⟩ := mem_actsOf_of_latest ha
  have hforce : InForce acts group a.enable := ⟨a, by rw [haid, ha], rfl, henabled⟩
  have hbrow : b.row ∈ (actsOf acts group).map WatchlistRequest.row := List.mem_map_of_mem hb
  -- the row of `b` may be the last one read
  obtain ⟨front, hlast⟩ := List.exists_putLast_eq hbrow
  have hperm := List.putLast_perm (fun row => decide (row = b.row))
    ((actsOf acts group).map WatchlistRequest.row)
  rw [hlast] at hperm
  obtain ⟨hlisted, hnone⟩ := mem_watchlistEnablesForGroup.mp ((h _ hperm _).mpr hforce)
  have hbenabled : b.enable.enabled = true := by
    by_contra hdisable
    exact hnone b.row (List.mem_append_right _ (List.mem_singleton_self _))
      ((withdraws_row b _).mpr ⟨by simpa using hdisable, by rw [hid, haid]⟩)
  have hb' : b.row.enableOf a.enable.watchlistId = some b.enable :=
    WatchlistRow.enableOf_eq_some.mpr
      ⟨by rw [enable_row, if_pos hbenabled], by rw [hid, haid]⟩
  rw [lastEnable, List.filterMap_append, List.filterMap_cons_some hb', List.filterMap_nil,
    List.getLast?_concat, Option.some.injEq] at hlisted
  exact hlisted

/-- After any calls, the latest requests about a group are what the reader lists, in
    whatever order the rows come, exactly if no watchlist that was last enabled has been
    disabled or changed before. -/
theorem latest_in_force_iff (calls : List WatchlistCall) (group : String) :
    let w := after WatchlistWorld.step WatchlistWorld.empty calls
    (∀ rows : List WatchlistRow, rows.Perm (w.rows group) →
        ∀ e, e ∈ watchlistEnablesForGroup (.ok rows) ↔ InForce w.acts group e) ↔
      NeverChanged w.acts group := by
  intro w
  rw [run_rowsOfActs calls group]
  exact ⟨neverChanged_of_mem_iff, fun h rows hrows => h.mem_iff hrows⟩

/-! ### Enabled again -/

def exampleEnable (enabled : Bool) : WatchlistEnable :=
  ⟨"A", "tos:v3", .otherContent, enabled, .enforce, some "mod-a"⟩

def exampleWatchlistCall (enabled : Bool) : WatchlistCall where
  caller := .ok "mod-a"
  body := .ok ⟨"mod-a", exampleEnable enabled⟩
  env :=
    { actsFor := fun caller identity => caller == identity
      admits := fun signer community _ => .ok (signer == "mod-a" && community == "A")
      now := 0
      emit := .ok "row"
      promote := .ok () }

/-- The moderator enables a watchlist, disables it, and enables it again. -/
theorem enabled_again_not_listed :
    let w := after WatchlistWorld.step WatchlistWorld.empty
      [exampleWatchlistCall true, exampleWatchlistCall false, exampleWatchlistCall true]
    InForce w.acts "A" (exampleEnable true) ∧
      exampleEnable true ∉ watchlistEnablesForGroup (.ok (w.rows "A")) := by
  intro w
  have hlatest : latest w.acts "A" "tos:v3" = some ⟨"mod-a", exampleEnable true⟩ := by
    decide +kernel
  have hlisted : exampleEnable true ∉ watchlistEnablesForGroup (.ok (w.rows "A")) := by
    decide +kernel
  exact ⟨⟨_, hlatest, rfl, rfl⟩, hlisted⟩

/-! ## Rows added to those of a group -/

theorem onPublish_congr {read read' : Except String (List WatchlistRow)}
    (h : ∀ e, e ∈ watchlistEnablesForGroup read ↔ e ∈ watchlistEnablesForGroup read') :
    onPublish read = onPublish read' := by
  have hempty : (watchlistEnablesForGroup read).isEmpty =
      (watchlistEnablesForGroup read').isEmpty := by
    rw [Bool.eq_iff_iff, List.isEmpty_iff, List.isEmpty_iff, List.eq_nil_iff_forall_not_mem,
      List.eq_nil_iff_forall_not_mem]
    exact forall_congr' fun e => not_congr (h e)
  rw [onPublish, onPublish, hempty]

/-- The rows added to those read, anywhere among them, change neither the listing nor the
    answer of the seam; and where nothing is read, the seam does not admit. -/
def Unmoved (read : Except String (List WatchlistRow)) (added : List WatchlistRow) : Prop :=
  match read with
  | .error e => onPublish (.error e) ≠ .admitted
  | .ok base => ∀ rows : List WatchlistRow, base.Sublist rows → rows.Perm (base ++ added) →
      (∀ e, e ∈ watchlistEnablesForGroup (.ok rows) ↔ e ∈ watchlistEnablesForGroup (.ok base)) ∧
        onPublish (.ok rows) = onPublish (.ok base)

/-- Of each watchlist that no row withdraws already, the added rows withdraw it only if no
    row enables it, and enable it only as the last enable does, withdrawing it nowhere. -/
def Redundant (base added : List WatchlistRow) : Prop :=
  ∀ id, (∃ row ∈ base, row.Withdraws id) ∨
    ((∃ row ∈ added, row.Withdraws id) ∧ lastEnable base id = none) ∨
    ((∀ row ∈ added, ¬ row.Withdraws id) ∧
      ∀ row ∈ added, ∀ e, row.enableOf id = some e → lastEnable base id = some e)

theorem Redundant.mem_iff {base added rows : List WatchlistRow} (h : Redundant base added)
    (hsub : base.Sublist rows) (hperm : rows.Perm (base ++ added)) (e : WatchlistEnable) :
    e ∈ watchlistEnablesForGroup (.ok rows) ↔ e ∈ watchlistEnablesForGroup (.ok base) := by
  have hmem : ∀ row, row ∈ rows ↔ row ∈ base ∨ row ∈ added := by
    intro row
    rw [hperm.mem_iff, List.mem_append]
  rw [mem_watchlistEnablesForGroup, mem_watchlistEnablesForGroup]
  rcases h e.watchlistId with ⟨row, hrow, hw⟩ | ⟨⟨row, hrow, hw⟩, hnone⟩ | ⟨hkept, hsame⟩
  · constructor
    · intro ⟨_, hnot⟩
      exact absurd hw (hnot row ((hmem row).mpr (Or.inl hrow)))
    · intro ⟨_, hnot⟩
      exact absurd hw (hnot row hrow)
  · constructor
    · intro ⟨_, hnot⟩
      exact absurd hw (hnot row ((hmem row).mpr (Or.inr hrow)))
    · intro ⟨hlast, _⟩
      rw [hnone] at hlast
      cases hlast
  · have hlast : lastEnable rows e.watchlistId = lastEnable base e.watchlistId := by
      have hperm' := hperm.filterMap (WatchlistRow.enableOf e.watchlistId)
      rw [List.filterMap_append] at hperm'
      rcases List.getLast?_of_sublist_perm (hsub.filterMap _) hperm' with hold | ⟨e', he', hnew⟩
      · exact hold
      · obtain ⟨row, hrow, henable⟩ := List.mem_filterMap.mp he'
        rw [hsame row hrow e' henable]
        exact hnew
    have hnot : (∀ row ∈ rows, ¬ row.Withdraws e.watchlistId) ↔
        ∀ row ∈ base, ¬ row.Withdraws e.watchlistId := by
      constructor
      · intro hnot row hrow
        exact hnot row ((hmem row).mpr (Or.inl hrow))
      · intro hnot row hrow
        rcases (hmem row).mp hrow with hbase | hadded
        · exact hnot row hbase
        · exact hkept row hadded
    rw [hlast, hnot]

theorem redundant_of_mem_iff {base added : List WatchlistRow}
    (h : ∀ rows : List WatchlistRow, base.Sublist rows → rows.Perm (base ++ added) →
      ∀ e, e ∈ watchlistEnablesForGroup (.ok rows) ↔ e ∈ watchlistEnablesForGroup (.ok base)) :
    Redundant base added := by
  intro id
  by_cases hbase : ∃ row ∈ base, row.Withdraws id
  · exact Or.inl hbase
  have hbase' : ∀ row ∈ base, ¬ row.Withdraws id := fun row hrow hw => hbase ⟨row, hrow, hw⟩
  by_cases hadded : ∃ row ∈ added, row.Withdraws id
  · refine Or.inr (Or.inl ⟨hadded, ?_⟩)
    cases hlast : lastEnable base id with
    | none => rfl
    | some e =>
      -- it was listed, and the added row withdraws it
      have hid := watchlistId_of_lastEnable hlast
      have hlisted : e ∈ watchlistEnablesForGroup (.ok base) :=
        mem_watchlistEnablesForGroup.mpr (by rw [hid]; exact ⟨hlast, hbase'⟩)
      have hafter := (h _ (List.sublist_append_left _ _) (List.Perm.refl _) e).mpr hlisted
      obtain ⟨row, hrow, hw⟩ := hadded
      rw [← hid] at hw
      exact absurd hw
        ((mem_watchlistEnablesForGroup.mp hafter).2 row (List.mem_append_right _ hrow))
  · have hadded' : ∀ row ∈ added, ¬ row.Withdraws id := fun row hrow hw => hadded ⟨row, hrow, hw⟩
    refine Or.inr (Or.inr ⟨hadded', fun row hrow e henable => ?_⟩)
    -- the added row may be the last one read
    have hid := (WatchlistRow.enableOf_eq_some.mp henable).2
    obtain ⟨front, hlast⟩ := List.exists_putLast_eq hrow
    have hperm := List.putLast_perm (fun r => decide (r = row)) added
    rw [hlast] at hperm
    have hlisted : e ∈ watchlistEnablesForGroup (.ok (base ++ (front ++ [row]))) := by
      rw [mem_watchlistEnablesForGroup, hid]
      constructor
      · rw [lastEnable, ← List.append_assoc, List.filterMap_append,
          List.filterMap_cons_some henable, List.filterMap_nil, List.getLast?_concat]
      · intro r hr
        rcases List.mem_append.mp hr with hr | hr
        · exact hbase' r hr
        · exact hadded' r (hperm.mem_iff.mp hr)
    have hbefore := (h _ (List.sublist_append_left _ _) (hperm.append_left base) e).mp hlisted
    rw [← hid]
    exact (mem_watchlistEnablesForGroup.mp hbefore).1

/-- Rows that are added to a group, whoever attests them, change nothing, and a failed read
    admits nothing, exactly if there is no failed read and the rows are redundant. -/
theorem rows_ignored_iff (read : Except String (List WatchlistRow)) (added : List WatchlistRow) :
    Unmoved read added ↔ ∃ base, read = .ok base ∧ Redundant base added := by
  cases read with
  | error e =>
    have hadmitted : onPublish (.error e) = .admitted := rfl
    simp [Unmoved, hadmitted]
  | ok base =>
    constructor
    · intro h
      exact ⟨base, rfl, redundant_of_mem_iff fun rows hsub hperm => (h rows hsub hperm).1⟩
    · intro ⟨base', hread, h⟩
      cases hread
      intro rows hsub hperm
      have hmem := h.mem_iff hsub hperm
      exact ⟨hmem, onPublish_congr hmem⟩

/-- A stranger to the group withdraws the watchlist that its moderator enabled, and where
    the directory cannot be read, content is admitted as if there were none. -/
theorem switched_off_by_stranger :
    let env := (exampleWatchlistCall true).env
    let base := [enableRow "mod-a" (exampleEnable true)]
    let added := [disableRow "stranger" "A" "tos:v3"]
    authorityAdmitsEnable env "stranger" (exampleEnable true) = .ok false ∧
      onPublish (.ok base) = .deferredNoMatcher ∧
      onPublish (.ok (base ++ added)) = .admitted ∧
      onPublish (.error "storage unavailable") = .admitted ∧ ¬ Unmoved (.ok base) added := by
  intro env base added
  have hbefore : onPublish (.ok base) = .deferredNoMatcher := by decide +kernel
  have hafter : onPublish (.ok (base ++ added)) = .admitted := by decide +kernel
  refine ⟨by decide +kernel, hbefore, hafter, rfl, fun h => ?_⟩
  have hsame := (h (base ++ added) (List.sublist_append_left _ _) (List.Perm.refl _)).2
  rw [hbefore, hafter] at hsame
  cases hsame

end CirisServer.Watchlist
