import CirisServer.Native.AuthStore

/-!
# A login identifier and its certs

A lookup refuses when it sees two certs that answer to one identifier, but it sees the newest
certs of each role only: a second holder behind the page is not seen, and the one in front of it
is taken for the only one.

Key results:
- `length_scan_le`: a scan sees no more than there is
- `resolution_never_chooses_iff`: when each lookup is right
- `hidden_holder_is_not_seen`: a store in which one is not
-/

namespace CirisServer.AuthStore.WaStore

variable {s : WaStore} {p : WaCert → Bool} {c : WaCert}

/-- The active certs that answer, however many there are. -/
def holders (s : WaStore) (p : WaCert → Bool) : List WaCert :=
  s.rows.filter fun c => c.active && p c

/-! ## What a scan sees -/

theorem mem_listByRole {role : WaRole} {limit : Nat} (h : c ∈ s.listByRole role limit) :
    c ∈ s.rows ∧ c.active = true ∧ c.role = role := by
  have hsorted := List.mem_of_mem_take h
  rw [List.mem_insertionSort, List.mem_filter] at hsorted
  simpa using hsorted

/-- A page holds no more of them than the role does. -/
theorem length_filter_listByRole_le (role : WaRole) (limit : Nat) :
    ((s.listByRole role limit).filter p).length ≤
      s.rows.countP fun c => c.active && p c && decide (c.role = role) := by
  calc ((s.listByRole role limit).filter p).length
      ≤ (((s.rows.filter fun c => c.active ∧ c.role = role).insertionSort
          fun a b => b.created ≤ a.created).filter p).length :=
        ((List.take_sublist limit _).filter p).length_le
    _ = ((s.rows.filter fun c => c.active ∧ c.role = role).filter p).length :=
        ((List.perm_insertionSort _ _).filter p).length_eq
    _ = s.rows.countP fun c => c.active && p c && decide (c.role = role) := by
        rw [List.filter_filter, ← List.countP_eq_length_filter]
        congr 1
        funext c
        cases c.active
        · simp
        · simp

/-- Every cert is of one of the roles. -/
theorem countP_roles (rows : Rows) (q : WaCert → Bool) :
    rows.countP (fun c => q c && decide (c.role = .root)) +
        rows.countP (fun c => q c && decide (c.role = .authority)) +
        rows.countP (fun c => q c && decide (c.role = .observer)) =
      rows.countP q := by
  induction rows with
  | nil => rfl
  | cons c rows ih =>
    simp only [List.countP_cons]
    cases q c with
    | false => simpa using ih
    | true =>
      cases c.role with
      | root => simp; omega
      | authority => simp; omega
      | observer => simp; omega

/-- A scan sees no more certs than there are. -/
theorem length_scan_le (limit : Nat) : (s.scan limit p).length ≤ (s.holders p).length := by
  have hroot := length_filter_listByRole_le (s := s) (p := p) .root limit
  have hauthority := length_filter_listByRole_le (s := s) (p := p) .authority limit
  have hobserver := length_filter_listByRole_le (s := s) (p := p) .observer limit
  have hroles := countP_roles s.rows fun c => c.active && p c
  rw [holders, ← List.countP_eq_length_filter]
  simp only [scan, scanned, List.flatMap_cons, List.flatMap_nil, List.length_append,
    List.length_nil]
  omega

theorem mem_holders : c ∈ s.holders p ↔ c ∈ s.rows ∧ c.active = true ∧ p c = true := by
  simp [holders]

/-- What a scan sees is there. -/
theorem mem_holders_of_scan {limit : Nat} (h : c ∈ s.scan limit p) : c ∈ s.holders p := by
  simp only [scan, List.mem_flatMap, List.mem_filter] at h
  obtain ⟨role, -, hlist, hp⟩ := h
  obtain ⟨hrow, hactive, -⟩ := mem_listByRole hlist
  exact mem_holders.mpr ⟨hrow, hactive, hp⟩

/-- A holder is the only one if there is at most one. -/
theorem holders_eq_singleton_iff (h : c ∈ s.holders p) :
    s.holders p = [c] ↔ (s.holders p).length ≤ 1 := by
  constructor
  · intro heq
    rw [heq]
    exact Nat.le_refl 1
  · intro hlen
    obtain ⟨a, ha⟩ := List.length_eq_one_iff.mp
      (Nat.le_antisymm hlen (List.length_pos_of_mem h))
    rw [ha, List.mem_singleton] at h
    rw [ha, h]

/-! ## By name -/

/-- No identifier of another kind: the name decides. -/
def ByName (s : WaStore) (ident : String) : Prop :=
  s.rows.get ident = none ∧ s.loginByOauth ident = .ok none

theorem resolveLogin_of_byName {ident : String} (h : ByName s ident) :
    s.resolveLogin ident = oneNamed ident (s.certsNamed ident) := by
  unfold resolveLogin
  rw [h.1, h.2]
  rfl

/-- A name answers for its only holder, and is refused when there are more. -/
def NameNeverChooses (s : WaStore) (ident : String) : Prop :=
  (∀ c, s.resolveLogin ident = .ok (some c) → s.holders (named ident) = [c]) ∧
  (2 ≤ (s.holders (named ident)).length →
    ∃ ids, s.resolveLogin ident = .error (.ambiguousLoginName ident ids))

/-- The newest 128 of each role show a second holder, if there is one. -/
theorem nameNeverChooses_iff {ident : String} (h : ByName s ident) :
    NameNeverChooses s ident ↔
      (s.holders (named ident)).length ≤ 1 ∨ 2 ≤ (s.scan 128 (named ident)).length := by
  have hle := length_scan_le (s := s) (p := named ident) 128
  have hmem {c} (hc : c ∈ s.scan 128 (named ident)) := mem_holders_of_scan hc
  rw [NameNeverChooses, resolveLogin_of_byName h, certsNamed]
  generalize s.scan 128 (named ident) = found at hle hmem ⊢
  cases found with
  | nil =>
    simp only [oneNamed, List.length_nil]
    constructor
    · intro hname
      by_contra hmany
      obtain ⟨ids, herror⟩ := hname.2 (by omega)
      cases herror
    · intro hone
      constructor
      · intro c hc
        cases hc
      · intro htwo
        omega
  | cons c rest =>
    cases rest with
    | nil =>
      have hsole := holders_eq_singleton_iff (hmem (List.mem_singleton.mpr rfl))
      simp only [oneNamed, List.length_singleton]
      constructor
      · intro hname
        exact Or.inl (hsole.mp (hname.1 c rfl))
      · intro hone
        constructor
        · intro d hd
          cases hd
          exact hsole.mpr (by omega)
        · intro htwo
          omega
    | cons d rest =>
      simp only [oneNamed, List.length_cons]
      constructor
      · intro _
        omega
      · intro _
        constructor
        · intro e he
          cases he
        · intro _
          exact ⟨_, rfl⟩

/-- The two resolvers find the same cert, or refuse alike. -/
theorem resolveLogin_eq_detailed (s : WaStore) (ident : String) :
    s.resolveLogin ident =
      (s.resolveLoginDetailed ident).map fun r => r.toOption.map Prod.fst := by
  unfold resolveLogin resolveLoginDetailed
  cases s.rows.get ident with
  | some c => rfl
  | none =>
    cases s.loginByOauth ident with
    | error e => rfl
    | ok found =>
      cases found with
      | some c => rfl
      | none =>
        show oneNamed ident (s.certsNamed ident) = _
        cases oneNamed ident (s.certsNamed ident) with
        | error e => rfl
        | ok found =>
          cases found with
          | some c => rfl
          | none => rfl

/-! ## By oauth pair -/

/-- A pair answers for its only holder. -/
def PairNeverChooses (s : WaStore) (provider externalId : String) : Prop :=
  ∀ c, s.getByOauth provider externalId = .ok (some c) →
    s.holders (holdsPair provider externalId) = [c]

/-- What the index answers with, if it is live, is a holder. -/
theorem mem_holders_of_index {provider externalId : String}
    (h : (s.oauthIndex provider externalId).filter (·.active) = some c) :
    c ∈ s.holders (holdsPair provider externalId) := by
  obtain ⟨hindex, hactive⟩ := Option.filter_eq_some_iff.mp h
  obtain ⟨hrow, hprovider, hexternalId⟩ := s.index_holds hindex
  exact mem_holders.mpr ⟨hrow, hactive, by simp [holdsPair, hactive, hprovider, hexternalId]⟩

/-- The newest 128 of each role show a second holder, if there is one; or they show none, and the
    index answers with a retired one. -/
theorem pairNeverChooses_iff {provider externalId : String} :
    PairNeverChooses s provider externalId ↔
      (s.holders (holdsPair provider externalId)).length ≤ 1 ∨
      2 ≤ (s.scan 128 (holdsPair provider externalId)).length ∨
      s.scan 128 (holdsPair provider externalId) = [] ∧
        (s.oauthIndex provider externalId).filter (·.active) = none := by
  have hmem {c} (hc : c ∈ s.scan 128 (holdsPair provider externalId)) := mem_holders_of_scan hc
  rw [PairNeverChooses, getByOauth, liveOauthHolders]
  generalize s.scan 128 (holdsPair provider externalId) = live at hmem ⊢
  cases live with
  | nil =>
    cases hindex : (s.oauthIndex provider externalId).filter (·.active) with
    | none => simp
    | some c =>
      have hsole := holders_eq_singleton_iff (mem_holders_of_index hindex)
      simpa using hsole
  | cons c rest =>
    cases rest with
    | nil =>
      have hsole := holders_eq_singleton_iff (hmem (List.mem_singleton.mpr rfl))
      simpa using hsole
    | cons d rest => simp

/-! ## By email -/

/-- An address answers for its only unpaired holder. -/
def EmailNeverChooses (s : WaStore) (email : String) : Prop :=
  ∀ c, s.findPreprovisionedByEmail email = some c → s.holders (carries (address email)) = [c]

/-- The newest 512 of each role do not show one of several holders. -/
theorem emailNeverChooses_iff {email : String} :
    EmailNeverChooses s email ↔
      address email = "" ∨ (s.holders (carries (address email))).length ≤ 1 ∨
        (s.scan 512 (carries (address email))).length ≠ 1 := by
  have hmem {c} (hc : c ∈ s.scan 512 (carries (address email))) := mem_holders_of_scan hc
  rw [EmailNeverChooses, findPreprovisionedByEmail]
  by_cases hempty : address email = ""
  · simp [hempty]
  · simp only [hempty, if_false, false_or]
    generalize s.scan 512 (carries (address email)) = hits at hmem ⊢
    cases hits with
    | nil => simp
    | cons c rest =>
      cases rest with
      | nil =>
        have hsole := holders_eq_singleton_iff (hmem (List.mem_singleton.mpr rfl))
        simpa using hsole
      | cons d rest => simp

/-- Every store and every identifier: when its lookup never chooses. -/
theorem resolution_never_chooses_iff (s : WaStore) :
    (∀ ident, ByName s ident → (NameNeverChooses s ident ↔
      (s.holders (named ident)).length ≤ 1 ∨ 2 ≤ (s.scan 128 (named ident)).length)) ∧
    (∀ provider externalId, PairNeverChooses s provider externalId ↔
      (s.holders (holdsPair provider externalId)).length ≤ 1 ∨
      2 ≤ (s.scan 128 (holdsPair provider externalId)).length ∨
      s.scan 128 (holdsPair provider externalId) = [] ∧
        (s.oauthIndex provider externalId).filter (·.active) = none) ∧
    (∀ email, EmailNeverChooses s email ↔
      address email = "" ∨ (s.holders (carries (address email))).length ≤ 1 ∨
        (s.scan 512 (carries (address email))).length ≠ 1) :=
  ⟨fun _ h => nameNeverChooses_iff h, fun _ _ => pairNeverChooses_iff,
    fun _ => emailNeverChooses_iff⟩

/-! ## A holder behind the page -/

namespace Fixture

/-- An observer with a pair. -/
def observer (waId name externalId : String) (created : Int) : WaCert :=
  ⟨waId, name, .observer, some "google", some externalId, none, created, true⟩

/-- Guest `i`, the higher the newer. -/
def guest (i : Nat) : WaCert :=
  let digits := String.ofList [Char.ofNat (97 + i / 16), Char.ofNat (97 + i % 16)]
  observer ("wa-" ++ digits) digits digits i

/-- Two certs called `jeff` with one pair, and 127 guests between them. -/
def rows : Rows :=
  observer "wa-new" "jeff" "42" 1000 :: ((List.range 127).map guest).reverse ++
    [observer "wa-0" "jeff" "42" (-1)]

/-- An index that answers with the first row. -/
def index (rows : Rows) (provider externalId : String) : Option WaCert :=
  rows.find? fun c => c.oauthProvider = some provider ∧ c.oauthExternalId = some externalId

/-- The characters of a `wa_id` as one number. -/
def number (waId : String) : Nat := waId.toList.foldl (fun n c => n * 256 + c.toNat) 0

theorem keyed : (rows.map WaCert.waId).Nodup := by
  have hchain : ((rows.map WaCert.waId).map number).IsChain (· > ·) := by decide +kernel
  have hnumbers : ((rows.map WaCert.waId).map number).Nodup :=
    (List.isChain_iff_pairwise.mp hchain).imp fun h => Nat.ne_of_gt h
  exact hnumbers.of_map number

def store : WaStore where
  rows := rows
  oauthIndex := index rows
  keyed := keyed
  index_holds h := by
    have hpair := List.find?_some h
    simp only [decide_eq_true_eq] at hpair
    exact ⟨List.mem_of_find?_eq_some h, hpair⟩
  index_finds hc hprovider hexternalId := by
    rw [← Option.isSome_iff_exists, index, List.find?_isSome]
    exact ⟨_, hc, by simp [hprovider, hexternalId]⟩

theorem byName : ByName store "jeff" := ⟨by decide +kernel, rfl⟩

theorem holders_jeff : (store.holders (named "jeff")).length = 2 := by decide +kernel

theorem scan_jeff : (store.scan 128 (named "jeff")).length = 1 := by decide +kernel

theorem holders_pair : (store.holders (holdsPair "google" "42")).length = 2 := by decide +kernel

theorem scan_pair : (store.scan 128 (holdsPair "google" "42")).length = 1 := by decide +kernel

end Fixture

/-- Two active certs answer to the name and to the pair, and each lookup answers with one. -/
theorem hidden_holder_is_not_seen :
    ByName Fixture.store "jeff" ∧ ¬ NameNeverChooses Fixture.store "jeff" ∧
      ¬ PairNeverChooses Fixture.store "google" "42" := by
  refine ⟨Fixture.byName, ?_, ?_⟩
  · rw [nameNeverChooses_iff Fixture.byName, Fixture.holders_jeff, Fixture.scan_jeff]
    omega
  · intro hpair
    have hscan : Fixture.store.scan 128 (holdsPair "google" "42") ≠ [] := by
      intro hnil
      have hlen := Fixture.scan_pair
      rw [hnil] at hlen
      cases hlen
    rcases pairNeverChooses_iff.mp hpair with hone | htwo | ⟨hnil, -⟩
    · rw [Fixture.holders_pair] at hone
      omega
    · rw [Fixture.scan_pair] at htwo
      omega
    · exact hscan hnil

/-- At that store the name's condition fails, and so does the property. -/
theorem resolution_never_chooses_jeff : ¬ NameNeverChooses Fixture.store "jeff" := by
  rw [(resolution_never_chooses_iff Fixture.store).1 "jeff" Fixture.byName, Fixture.holders_jeff,
    Fixture.scan_jeff]
  omega

end CirisServer.AuthStore.WaStore
