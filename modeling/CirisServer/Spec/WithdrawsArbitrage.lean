import Mathlib.Data.Finset.Card
import Mathlib.Data.Fintype.EquivFin
import Mathlib.Data.List.MinMax
import CirisServer.Native.WithdrawsArbitrage

/-!
# What credit costs

The two counts are the sizes of two sets of upstream rows that do not meet: those that the attester
has recanted, and those that it has only withdrawn. The recanted set grows with every recantation,
whatever it points at, and that lowers the ratio of an attester that has withdrawn anything.

Key results:
- `ledger_withdraws`, `ledger_recants`: the counts as sizes of sets
- `credit_iff`: when credit has to be paid for
-/

namespace CirisServer.WithdrawsArbitrage

variable {P : Precedence} {attester kind key : String} {start : Int} {policy : ArbitragePolicy}
variable {rows rows' added : List Attestation} {a : Attestation}

/-! ## Retracted rows -/

/-- The attester has composed a row of that kind within the window, and it targets the key. -/
def Retracted (P : Precedence) (attester : String) (start : Int) (rows : List Attestation)
    (kind key : String) : Prop :=
  ∃ a ∈ rows, a.attestingKeyId = attester ∧ start ≤ a.assertedAt ∧ a.attestationType = kind ∧
    upstream P a = key

instance (kind key : String) : Decidable (Retracted P attester start rows kind key) :=
  inferInstanceAs (Decidable (∃ a ∈ rows, _))

/-- The upstream rows that are recanted. -/
def recanted (P : Precedence) (attester : String) (start : Int) (rows : List Attestation) :
    Finset String :=
  (rows.map (upstream P)).toFinset.filter fun key => Retracted P attester start rows "recants" key

/-- The upstream rows that are withdrawn and not recanted. -/
def withdrawn (P : Precedence) (attester : String) (start : Int) (rows : List Attestation) :
    Finset String :=
  (rows.map (upstream P)).toFinset.filter fun key =>
    Retracted P attester start rows "withdraws" key ∧
      ¬ Retracted P attester start rows "recants" key

theorem Retracted.mem (h : Retracted P attester start rows kind key) :
    key ∈ (rows.map (upstream P)).toFinset := by
  obtain ⟨a, ha, -, -, -, rfl⟩ := h
  exact List.mem_toFinset.mpr (List.mem_map_of_mem ha)

@[simp]
theorem mem_recanted :
    key ∈ recanted P attester start rows ↔ Retracted P attester start rows "recants" key := by
  rw [recanted, Finset.mem_filter]
  exact ⟨And.right, fun h => ⟨h.mem, h⟩⟩

@[simp]
theorem mem_withdrawn :
    key ∈ withdrawn P attester start rows ↔ Retracted P attester start rows "withdraws" key ∧
      ¬ Retracted P attester start rows "recants" key := by
  rw [withdrawn, Finset.mem_filter]
  exact ⟨And.right, fun h => ⟨h.1.mem, h⟩⟩

theorem disjoint_sides :
    Disjoint (withdrawn P attester start rows) (recanted P attester start rows) := by
  rw [Finset.disjoint_left]
  intro key hwithdrawn hrecanted
  exact (mem_withdrawn.mp hwithdrawn).2 (mem_recanted.mp hrecanted)

/-! ## The counts -/

theorem foldl_count (kinds : List (Option String)) (counts : Nat × Nat) :
    kinds.foldl count counts = (counts.1 + kinds.countP (· = some "withdraws"),
      counts.2 + kinds.countP (· = some "recants")) := by
  induction kinds generalizing counts with
  | nil => simp
  | cons kind kinds ih =>
    rw [List.foldl_cons, ih]
    unfold count
    split
    · simp
      omega
    · simp
      omega
    · next hwithdraws hrecants =>
      have hw : kind ≠ some "withdraws" := fun h => hwithdraws h
      have hr : kind ≠ some "recants" := fun h => hrecants h
      simp [hw, hr]

theorem rank_eq_three : rank kind = 3 ↔ kind = "recants" := by
  unfold rank
  split <;> simp_all

theorem rank_eq_two : rank kind = 2 ↔ kind = "withdraws" := by
  unfold rank
  split <;> simp_all

theorem rank_le (kind : String) : rank kind ≤ 3 := by
  unfold rank
  split <;> omega

/-- The kind of a group's winner. -/
def winningKind (P : Precedence) (group : List Attestation) : Option String :=
  (P.precedenceWinner group).map (·.attestationType)

/-- A recantation wins. -/
theorem winningKind_recants {group : List Attestation} :
    group ≠ [] → (winningKind P group = some "recants" ↔
      ∃ a ∈ group, a.attestationType = "recants") := by
  intro hne
  obtain ⟨w, hw, hwinner, hbest⟩ := P.winner group hne
  rw [winningKind, hwinner, Option.map_some, Option.some.injEq]
  refine ⟨fun h => ⟨w, hw, h⟩, ?_⟩
  rintro ⟨a, ha, hkind⟩
  have hrank := hbest a ha
  rw [rank_eq_three.mpr hkind] at hrank
  exact rank_eq_three.mp (Nat.le_antisymm (rank_le _) hrank)

/-- A withdrawal wins where nothing is recanted. -/
theorem winningKind_withdraws {group : List Attestation} (hne : group ≠ []) :
    winningKind P group = some "withdraws" ↔
      (∃ a ∈ group, a.attestationType = "withdraws") ∧
        ¬ ∃ a ∈ group, a.attestationType = "recants" := by
  obtain ⟨w, hw, hwinner, hbest⟩ := P.winner group hne
  rw [winningKind, hwinner, Option.map_some, Option.some.injEq]
  constructor
  · intro h
    refine ⟨⟨w, hw, h⟩, ?_⟩
    rintro ⟨a, ha, hkind⟩
    have hrank := hbest a ha
    rw [rank_eq_three.mpr hkind, rank_eq_two.mpr h] at hrank
    omega
  · rintro ⟨⟨a, ha, hkind⟩, hnone⟩
    have hrank := hbest a ha
    rw [rank_eq_two.mpr hkind] at hrank
    -- the winner ranks 2 at least, and 3 is the rank of recantations only
    have hnot : rank w.attestationType ≠ 3 := fun h => hnone ⟨w, hw, rank_eq_three.mp h⟩
    have hle := rank_le w.attestationType
    exact rank_eq_two.mp (by omega)

/-- The composers that target the key. -/
def groupOf (P : Precedence) (attester : String) (start : Int) (rows : List Attestation)
    (key : String) : List Attestation :=
  (composers P attester start rows).filter (upstream P · = key)

theorem retracted_iff (hkind : P.isStructuralComposer kind = true) :
    Retracted P attester start rows kind key ↔
      ∃ a ∈ groupOf P attester start rows key, a.attestationType = kind := by
  simp only [Retracted, groupOf, composers, List.mem_filter, decide_eq_true_eq]
  constructor
  · rintro ⟨a, ha, hown, hstart, rfl, hkey⟩
    exact ⟨a, ⟨⟨ha, hown, hkind, hstart⟩, hkey⟩, rfl⟩
  · rintro ⟨a, ⟨⟨ha, hown, -, hstart⟩, hkey⟩, rfl⟩
    exact ⟨a, ha, hown, hstart, rfl, hkey⟩

theorem countP_sortedKeys (l : List String) (p : String → Bool) :
    l.sortedKeys.countP p = (l.toFinset.filter fun k => p k = true).card := by
  rw [List.countP_eq_length_filter,
    ← List.toFinset_card_of_nodup ((List.nodup_sortedKeys l).filter p)]
  congr 1
  ext k
  simp

/-- How often a kind wins. -/
theorem countP_kinds (kind : String) :
    ((groups P (composers P attester start rows)).map (winningKind P)).countP (· = some kind) =
      (((composers P attester start rows).map (upstream P)).toFinset.filter fun key =>
        winningKind P (groupOf P attester start rows key) = some kind).card := by
  rw [groups, List.map_map, List.countP_map, countP_sortedKeys]
  congr 1
  ext key
  simp only [Function.comp_apply, Finset.mem_filter, decide_eq_true_eq]
  rfl

theorem groupOf_ne_nil (h : key ∈ ((composers P attester start rows).map (upstream P)).toFinset) :
    groupOf P attester start rows key ≠ [] := by
  obtain ⟨a, ha, hkey⟩ := List.mem_map.mp (List.mem_toFinset.mp h)
  exact List.ne_nil_of_mem (List.mem_filter.mpr ⟨ha, by simpa using hkey⟩)

theorem mem_keys_of_retracted (hkind : P.isStructuralComposer kind = true)
    (h : Retracted P attester start rows kind key) :
    key ∈ ((composers P attester start rows).map (upstream P)).toFinset := by
  obtain ⟨a, ha, -⟩ := (retracted_iff hkind).mp h
  obtain ⟨hcomposer, hkey⟩ := List.mem_filter.mp ha
  exact List.mem_toFinset.mpr (List.mem_map.mpr ⟨a, hcomposer, by simpa using hkey⟩)

/-- A kind wins as often as its side has keys. -/
theorem countP_kinds_eq {side : Finset String} (hkind : P.isStructuralComposer kind = true)
    (hside : ∀ key ∈ side, Retracted P attester start rows kind key)
    (hwins : ∀ key, groupOf P attester start rows key ≠ [] →
      (winningKind P (groupOf P attester start rows key) = some kind ↔ key ∈ side)) :
    ((groups P (composers P attester start rows)).map (winningKind P)).countP (· = some kind) =
      side.card := by
  rw [countP_kinds]
  congr 1
  ext key
  rw [Finset.mem_filter]
  constructor
  · rintro ⟨hkey, hw⟩
    exact (hwins key (groupOf_ne_nil hkey)).mp hw
  · intro h
    have hkey := mem_keys_of_retracted hkind (hside key h)
    exact ⟨hkey, (hwins key (groupOf_ne_nil hkey)).mpr h⟩

theorem ledger_withdraws : (ledgerFromRows P attester rows policy start).withdraws =
    (withdrawn P attester start rows).card := by
  have hcounts : (ledgerFromRows P attester rows policy start).withdraws =
      (((groups P (composers P attester start rows)).map (winningKind P)).foldl count
        (0, 0)).1 := rfl
  rw [hcounts, foldl_count, Nat.zero_add]
  apply countP_kinds_eq P.withdraws_composes fun key h => (mem_withdrawn.mp h).1
  intro key hne
  rw [winningKind_withdraws hne, mem_withdrawn, retracted_iff P.withdraws_composes,
    retracted_iff P.recants_composes]

theorem ledger_recants : (ledgerFromRows P attester rows policy start).recants =
    (recanted P attester start rows).card := by
  have hcounts : (ledgerFromRows P attester rows policy start).recants =
      (((groups P (composers P attester start rows)).map (winningKind P)).foldl count
        (0, 0)).2 := rfl
  rw [hcounts, foldl_count]
  simp only [Nat.zero_add]
  apply countP_kinds_eq P.recants_composes fun key h => mem_recanted.mp h
  intro key hne
  rw [winningKind_recants hne, mem_recanted, retracted_iff P.recants_composes]

/-- The ratio of an attester. -/
def ratio (P : Precedence) (attester : String) (start : Int) (rows : List Attestation) : ℚ :=
  (withdrawn P attester start rows).card / max (recanted P attester start rows).card 1

theorem ledger_ratio :
    (ledgerFromRows P attester rows policy start).ratio = ratio P attester start rows := by
  have hdiv : (ledgerFromRows P attester rows policy start).ratio =
      (ledgerFromRows P attester rows policy start).withdraws /
        max (ledgerFromRows P attester rows policy start).recants 1 := rfl
  rw [hdiv, ledger_withdraws, ledger_recants, ratio]

/-- A ledger is the two sets. -/
theorem ledger_eq : ledgerFromRows P attester rows policy start =
    { attesterKeyId := attester
      withdraws := (withdrawn P attester start rows).card
      recants := (recanted P attester start rows).card
      ratio := ratio P attester start rows
      ratioThreshold := policy.ratioThreshold
      windowStart := start } := by
  have hledger : ledgerFromRows P attester rows policy start =
      { attesterKeyId := attester
        withdraws := (ledgerFromRows P attester rows policy start).withdraws
        recants := (ledgerFromRows P attester rows policy start).recants
        ratio := (ledgerFromRows P attester rows policy start).ratio
        ratioThreshold := policy.ratioThreshold
        windowStart := start } := rfl
  rw [hledger, ledger_withdraws, ledger_recants, ledger_ratio]

/-- The ledger depends on what is retracted only. -/
theorem ledger_congr
    (h : ∀ kind key, Retracted P attester start rows kind key ↔
      Retracted P attester start rows' kind key) :
    ledgerFromRows P attester rows policy start = ledgerFromRows P attester rows' policy start := by
  have hrecanted : recanted P attester start rows = recanted P attester start rows' := by
    ext key
    rw [mem_recanted, mem_recanted, h]
  have hwithdrawn : withdrawn P attester start rows = withdrawn P attester start rows' := by
    ext key
    rw [mem_withdrawn, mem_withdrawn, h, h]
  rw [ledger_eq, ledger_eq, ratio, ratio, hrecanted, hwithdrawn]

/-! ## Further rows -/

theorem retracted_append_iff : Retracted P attester start (rows ++ added) kind key ↔
    Retracted P attester start rows kind key ∨ Retracted P attester start added kind key := by
  simp only [Retracted, List.mem_append, or_and_right, exists_or]

/-- Without a further recantation the ratio does not fall. -/
theorem ratio_le_append (h : ∀ key, ¬ Retracted P attester start added "recants" key) :
    ratio P attester start rows ≤ ratio P attester start (rows ++ added) := by
  have hrecanted : recanted P attester start (rows ++ added) = recanted P attester start rows := by
    ext key
    rw [mem_recanted, mem_recanted, retracted_append_iff, or_iff_left (h key)]
  have hwithdrawn : withdrawn P attester start rows ⊆
      withdrawn P attester start (rows ++ added) := by
    intro key hkey
    obtain ⟨hwithdraws, hrecants⟩ := mem_withdrawn.mp hkey
    rw [mem_withdrawn, retracted_append_iff, retracted_append_iff]
    exact ⟨Or.inl hwithdraws, not_or.mpr ⟨hrecants, h key⟩⟩
  have hcard := Finset.card_le_card hwithdrawn
  rw [ratio, ratio, hrecanted]
  exact div_le_div_of_nonneg_right (Nat.cast_le.mpr hcard) (Nat.cast_nonneg _)

/-- The ratio of an attester that has withdrawn nothing is the least there is. -/
theorem ratio_le_of_withdrawn_eq_empty (h : withdrawn P attester start rows = ∅) :
    ratio P attester start rows ≤ ratio P attester start rows' := by
  rw [ratio, h, Finset.card_empty, Nat.cast_zero, zero_div, ratio]
  exact div_nonneg (Nat.cast_nonneg _) (Nat.cast_nonneg _)

/-- Rows that the attester may add. -/
structure Further (attester : String) (rows added : List Attestation) : Prop where
  own : ∀ a ∈ added, a.attestingKeyId = attester
  fresh : ∀ a ∈ added, ∀ b ∈ rows, a.attestationId ≠ b.attestationId
  distinct : (added.map (·.attestationId)).Nodup

/-- A recantation within the window. -/
def Recants (start : Int) (a : Attestation) : Prop :=
  a.attestationType = "recants" ∧ start ≤ a.assertedAt

/-- A recantation of a row that the attester itself has issued. -/
def Pays (P : Precedence) (attester : String) (start : Int) (rows : List Attestation)
    (a : Attestation) : Prop :=
  Recants start a ∧ ∃ target ∈ rows, target.attestingKeyId = attester ∧
    P.references a.attestationEnvelope = some target.attestationId

/-- A recantation that points at nothing. -/
def pointless (attester : String) (start : Int) (id : String) : Attestation where
  attestationId := id
  attestingKeyId := attester
  attestedKeyId := attester
  attestationType := "recants"
  assertedAt := start
  expiresAt := none
  attestationEnvelope := .obj []

theorem references_pointless (id : String) :
    P.references (pointless attester start id).attestationEnvelope = none := by
  rw [P.references_eq]
  rfl

theorem retracted_pointless_iff {id id' : String} :
    Retracted P attester start
        [pointless attester start id, pointless attester start id'] kind key ↔
      kind = "recants" ∧ (key = id ∨ key = id') := by
  have hupstream : ∀ i, upstream P (pointless attester start i) = i := by
    intro i
    rw [upstream, references_pointless]
    rfl
  simp only [Retracted, List.mem_cons, List.not_mem_nil, or_false, exists_eq_or_imp,
    exists_eq_left, hupstream]
  simp only [pointless]
  grind

/-- The keys of the rows. -/
def keys (P : Precedence) (rows : List Attestation) : Finset String :=
  (rows.map (upstream P)).toFinset

theorem recanted_pointless {id id' : String} :
    recanted P attester start
        (rows ++ [pointless attester start id, pointless attester start id']) =
      insert id (insert id' (recanted P attester start rows)) := by
  ext key
  simp only [mem_recanted, retracted_append_iff, retracted_pointless_iff, Finset.mem_insert]
  tauto

/-- What points at nothing takes nothing off the other side. -/
theorem withdrawn_pointless {id id' : String} (hid : id ∉ keys P rows)
    (hid' : id' ∉ keys P rows) :
    withdrawn P attester start
        (rows ++ [pointless attester start id, pointless attester start id']) =
      withdrawn P attester start rows := by
  ext key
  simp only [mem_withdrawn, retracted_append_iff, retracted_pointless_iff]
  constructor
  · rintro ⟨hwithdraws | hwithdraws, hrecants⟩
    · exact ⟨hwithdraws, fun hr => hrecants (Or.inl hr)⟩
    · exact absurd hwithdraws.1 (by decide)
  · rintro ⟨hwithdraws, hrecants⟩
    refine ⟨Or.inl hwithdraws, ?_⟩
    rintro (hr | ⟨-, rfl | rfl⟩)
    · exact hrecants hr
    · exact hid hwithdraws.mem
    · exact hid' hwithdraws.mem

/-- Two recantations that point at nothing count for two. -/
theorem card_recanted_pointless {id id' : String} (hne : id' ≠ id) (hid : id ∉ keys P rows)
    (hid' : id' ∉ keys P rows) :
    (recanted P attester start
      (rows ++ [pointless attester start id, pointless attester start id'])).card =
      (recanted P attester start rows).card + 2 := by
  have hfresh : id ∉ insert id' (recanted P attester start rows) := by
    rw [Finset.mem_insert, not_or]
    exact ⟨hne.symm, fun hr => hid (mem_recanted.mp hr).mem⟩
  have hfresh' : id' ∉ recanted P attester start rows := fun hr => hid' (mem_recanted.mp hr).mem
  rw [recanted_pointless, Finset.card_insert_of_notMem hfresh, Finset.card_insert_of_notMem hfresh']

/-- With them the ratio falls, if there is anything that is withdrawn. -/
theorem ratio_pointless_lt {id id' : String} (hne : id' ≠ id) (hid : id ∉ keys P rows)
    (hid' : id' ∉ keys P rows) (h : (withdrawn P attester start rows).Nonempty) :
    ratio P attester start
        (rows ++ [pointless attester start id, pointless attester start id']) <
      ratio P attester start rows := by
  have hpos : 0 < (withdrawn P attester start rows).card := Finset.card_pos.mpr h
  have hlt : max (recanted P attester start rows).card 1 <
      max ((recanted P attester start rows).card + 2) 1 := by omega
  have hone : 0 < max (recanted P attester start rows).card 1 := by omega
  rw [ratio, ratio, withdrawn_pointless hid hid', card_recanted_pointless hne hid hid']
  exact div_lt_div_of_pos_left (Nat.cast_pos.mpr hpos) (Nat.cast_pos.mpr hone)
    (Nat.cast_lt.mpr hlt)

/-- The attester may add two recantations that point at nothing. -/
theorem further_pointless {id id' : String} (hne : id' ≠ id)
    (hid : ∀ b ∈ rows, id ≠ b.attestationId) (hid' : ∀ b ∈ rows, id' ≠ b.attestationId) :
    Further attester rows [pointless attester start id, pointless attester start id'] where
  own := by simp [pointless]
  fresh := by simpa [pointless] using ⟨hid, hid'⟩
  distinct := by simpa [pointless] using hne.symm

/-- Two recantations that point at nothing lower the ratio of an attester that has withdrawn
    anything. -/
theorem exists_free_credit (h : (withdrawn P attester start rows).Nonempty) :
    ∃ added, Further attester rows added ∧
      (∀ rows', ∀ a ∈ added, ¬ Pays P attester start rows' a) ∧
      ratio P attester start (rows ++ added) < ratio P attester start rows := by
  -- two ids that no row has and that no row points at
  obtain ⟨id, hid⟩ := Infinite.exists_notMem_finset
    ((rows.map (·.attestationId)).toFinset ∪ keys P rows)
  obtain ⟨id', hid'⟩ := Infinite.exists_notMem_finset
    (insert id ((rows.map (·.attestationId)).toFinset ∪ keys P rows))
  rw [Finset.mem_union, not_or] at hid
  rw [Finset.mem_insert, Finset.mem_union, not_or, not_or] at hid'
  obtain ⟨hfresh, hkey⟩ := hid
  obtain ⟨hne, hfresh', hkey'⟩ := hid'
  have hnot : ∀ i, i ∉ (rows.map (·.attestationId)).toFinset → ∀ b ∈ rows,
      i ≠ b.attestationId := by
    rintro i hi b hb rfl
    exact hi (List.mem_toFinset.mpr (List.mem_map_of_mem hb))
  refine ⟨[pointless attester start id, pointless attester start id'],
    further_pointless hne (hnot id hfresh) (hnot id' hfresh'), ?_,
    ratio_pointless_lt hne hkey hkey' h⟩
  rintro rows' a ha ⟨-, target, -, -, hreferences⟩
  have hnone : P.references a.attestationEnvelope = none := by
    rcases List.mem_cons.mp ha with rfl | ha
    · exact references_pointless id
    · rw [List.mem_singleton.mp ha]
      exact references_pointless id'
  rw [hnone] at hreferences
  cases hreferences

/-! ## Credit -/

/-- The ledger is that of the attester's rows in any order, with every upstream row on one side at
    most, and further rows of the attester lower the ratio only if one of them pays. -/
structure CreditPaid (P : Precedence) (attester : String) (rows : List Attestation)
    (policy : ArbitragePolicy) (start : Int) : Prop where
  order : ∀ rows', rows.Perm rows' →
    ledgerFromRows P attester rows' policy start = ledgerFromRows P attester rows policy start
  sides : (ledgerFromRows P attester rows policy start).withdraws =
      (withdrawn P attester start rows).card ∧
    (ledgerFromRows P attester rows policy start).recants =
      (recanted P attester start rows).card ∧
    Disjoint (withdrawn P attester start rows) (recanted P attester start rows)
  own : ledgerFromRows P attester (rows.filter (·.attestingKeyId = attester)) policy start =
    ledgerFromRows P attester rows policy start
  paid : ∀ added, Further attester rows added →
    (ledgerFromRows P attester (rows ++ added) policy start).ratio <
      (ledgerFromRows P attester rows policy start).ratio →
    ∃ a ∈ added, Pays P attester start (rows ++ added) a

/-- Whatever the attester has withdrawn within the window it has recanted within the window. -/
def Settled (P : Precedence) (attester : String) (rows : List Attestation) (start : Int) : Prop :=
  ∀ key, Retracted P attester start rows "withdraws" key →
    Retracted P attester start rows "recants" key

theorem settled_iff :
    Settled P attester rows start ↔ withdrawn P attester start rows = ∅ := by
  rw [Finset.eq_empty_iff_forall_notMem]
  refine forall_congr' fun key => ?_
  rw [mem_withdrawn, not_and, not_not]

/-- **Credit.** It has to be paid for exactly if there is none to buy: the attester has withdrawn
    nothing that it has not recanted. Rows whose recantations all pay lower no ratio for free. -/
theorem credit_iff (P : Precedence) (attester : String) (rows : List Attestation)
    (policy : ArbitragePolicy) (start : Int) :
    (CreditPaid P attester rows policy start ↔ Settled P attester rows start) ∧
      ∀ added, Further attester rows added →
        (∀ a ∈ added, Recants start a → Pays P attester start (rows ++ added) a) →
        (ledgerFromRows P attester (rows ++ added) policy start).ratio <
          (ledgerFromRows P attester rows policy start).ratio →
        ∃ a ∈ added, Pays P attester start (rows ++ added) a := by
  constructor
  · constructor
    · -- while anything is withdrawn, there is credit for free
      intro h
      rw [settled_iff]
      by_contra hne
      obtain ⟨added, hfurther, hfree, hlt⟩ :=
        exists_free_credit (Finset.nonempty_iff_ne_empty.mpr hne)
      have hfalls : (ledgerFromRows P attester (rows ++ added) policy start).ratio <
          (ledgerFromRows P attester rows policy start).ratio := by
        rwa [ledger_ratio, ledger_ratio]
      obtain ⟨a, ha, hpays⟩ := h.paid added hfurther hfalls
      exact hfree _ a ha hpays
    · intro h
      refine ⟨fun rows' hperm => ?_, ⟨ledger_withdraws, ledger_recants, disjoint_sides⟩, ?_, ?_⟩
      · apply ledger_congr
        intro kind key
        simp only [Retracted, hperm.mem_iff]
      · apply ledger_congr
        intro kind key
        simp only [Retracted, List.mem_filter, decide_eq_true_eq]
        grind
      · -- the ratio is zero, and does not fall
        intro added hfurther hlt
        rw [ledger_ratio, ledger_ratio] at hlt
        exact absurd hlt (not_lt.mpr (ratio_le_of_withdrawn_eq_empty (settled_iff.mp h)))
  · -- without a payment no key is recanted by what is added
    intro added hfurther hpay hlt
    by_contra hnone
    rw [ledger_ratio, ledger_ratio] at hlt
    refine absurd hlt (not_lt.mpr (ratio_le_append ?_))
    rintro key ⟨a, ha, -, hstart, hkind, -⟩
    exact hnone ⟨a, ha, hpay a ha ⟨hkind, hstart⟩⟩

/-! ### Free credit -/

namespace Fixture

def structural : List String := ["supersedes", "withdraws", "recants"]

/-- The winner is the first of the highest kind. -/
def precedence : Precedence where
  isStructuralComposer kind := structural.contains kind
  references envelope := (envelope.get? "references_attestation_id").bind Json.asStr
  precedenceWinner group := group.argmax fun a => rank a.attestationType
  withdraws_composes := by decide
  recants_composes := by decide
  references_eq _ := rfl
  winner group hne := by
    cases hw : group.argmax fun a => rank a.attestationType with
    | none => exact absurd (List.argmax_eq_none.mp hw) hne
    | some w =>
      have hbest : ∀ b ∈ group, rank b.attestationType ≤ rank w.attestationType :=
        fun b hb => List.le_of_mem_argmax (f := fun a => rank a.attestationType) hb hw
      exact ⟨w, List.argmax_mem hw, rfl, hbest⟩

def composer (id kind : String) (target : Option String) : Attestation where
  attestationId := id
  attestingKeyId := "sprayer"
  attestedKeyId := "subject"
  attestationType := kind
  assertedAt := 1
  expiresAt := none
  attestationEnvelope :=
    .obj (target.toList.map fun u => ("references_attestation_id", .str u))

/-- Six rows are withdrawn. -/
def withdrawals : List Attestation :=
  [composer "w1" "withdraws" (some "u1"), composer "w2" "withdraws" (some "u2"),
    composer "w3" "withdraws" (some "u3"), composer "w4" "withdraws" (some "u4"),
    composer "w5" "withdraws" (some "u5"), composer "w6" "withdraws" (some "u6")]

/-- Two recantations that point at nothing. -/
def credit : List Attestation := [composer "r1" "recants" none, composer "r2" "recants" none]

/-- One of the rows is recanted, and the row is there. -/
def payment : List Attestation := [composer "u1" "scores" none, composer "r1" "recants" (some "u1")]

end Fixture

open WithdrawsArbitrage.Fixture

/-- Six withdrawals are refused, and accepted with two recantations that point at nothing. -/
theorem credit_bought_free :
    ¬ CreditPaid precedence "sprayer" withdrawals {} 0 ∧
      (enforce precedence (.ok withdrawals) "sprayer" {} 0).isOk = false ∧
      (enforce precedence (.ok (withdrawals ++ credit)) "sprayer" {} 0).isOk = true := by
  refine ⟨fun h => ?_, by decide +kernel, by decide +kernel⟩
  have hfurther : Further "sprayer" withdrawals credit :=
    ⟨by decide, by decide, by decide⟩
  obtain ⟨a, ha, -, target, -, -, hreferences⟩ := h.paid credit hfurther (by decide +kernel)
  have hnone : ∀ a ∈ credit, precedence.references a.attestationEnvelope = none := by decide
  rw [hnone a ha] at hreferences
  cases hreferences

theorem credit_iff_payment :
    ∃ a ∈ payment, Pays precedence "sprayer" 0 (withdrawals ++ payment) a := by
  have hfurther : Further "sprayer" withdrawals payment := ⟨by decide, by decide, by decide⟩
  refine (credit_iff precedence "sprayer" withdrawals {} 0).2 payment hfurther ?_
    (by decide +kernel)
  intro a ha hrecants
  have hpaying : a = composer "r1" "recants" (some "u1") := by
    rcases List.mem_cons.mp ha with rfl | ha
    · exact absurd hrecants.1 (by decide)
    · exact List.mem_singleton.mp ha
  exact ⟨hrecants, composer "u1" "scores" none, by decide, rfl, by rw [hpaying]; decide⟩

end CirisServer.WithdrawsArbitrage
