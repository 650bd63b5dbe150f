import CirisServer.ForStd.KeyedRows
import CirisServer.ForStd.List
import CirisServer.Native.SetupRoot

/-!
# The first claim: who owns the node

The PIN is checked long before it is cleared, and the ROOT is written without a look at what the
re-check found meanwhile; the certs that are retired are those with the pair of the body. So
there is one owner where every ROOT that a claim writes over carries the pair of the claim.

Key results:
- `pinMatches_iff`: the padded comparison is equality
- `scan_holders`: the pages of the scan, over certs that stand still, are `live_oauth_holders`
- `inv_step`: what a step of a claim keeps
- `one_owner`: every run whose steps meet the condition
- `two_owners`: two runs that do not
-/

namespace CirisServer.SetupRoot

open Interleave Run
open AuthStore (WaCert WaRole Rows WaStore)

variable {rows : Rows} {node : Node} {c : WaCert} {claim : Claim}

/-! ## What the steps read -/

/-- The PIN is the one expected, and nothing else. -/
theorem pinMatches_iff (supplied expected : String) :
    pinMatches supplied expected = true ↔ supplied = expected := by
  have hpad : ∀ {a b : List UInt8}, a.length = b.length →
      (List.range b.length).map (fun i => a.getD i 0) = a := by
    intro a b hlength
    apply List.ext_getElem
    · simp [hlength]
    · intro i hi hi'
      simp [List.getD_eq_getElem?_getD, List.getElem?_eq_getElem hi']
  simp only [pinMatches, Bool.and_eq_true, beq_iff_eq]
  constructor
  · intro h
    rw [hpad h.1] at h
    exact utf8_injective h.2
  · intro h
    subst h
    exact ⟨rfl, hpad rfl⟩

theorem listByRole_rows (s : WaStore) (role : WaRole) (limit : Nat) :
    s.listByRole role limit = listByRole role limit s.rows := rfl

/-- Over certs that stand still, the three pages of the scan are `live_oauth_holders`. -/
theorem scan_holders (s : WaStore) (provider externalId : String) :
    holdersOn s.rows .root provider externalId ++
      (holdersOn s.rows .authority provider externalId ++
        holdersOn s.rows .observer provider externalId) =
      s.liveOauthHolders provider externalId := by
  simp [WaStore.liveOauthHolders, WaStore.scan, WaStore.scanned, holdersOn, listByRole_rows]

/-- The active ROOT certs. -/
def activeRoots (rows : Rows) : List WaCert := rows.filter fun c => c.active ∧ c.role = .root

theorem mem_activeRoots : c ∈ activeRoots rows ↔ c ∈ rows ∧ c.active = true ∧ c.role = .root := by
  simp [activeRoots]

theorem perm_listByRole {limit : Nat} (h : (activeRoots rows).length ≤ limit) :
    (listByRole .root limit rows).Perm (activeRoots rows) := by
  have hsorted := List.perm_insertionSort
    (fun a b : WaCert => (b.created ≤ a.created : Prop)) (activeRoots rows)
  have hall : listByRole .root limit rows =
      (activeRoots rows).insertionSort fun a b => b.created ≤ a.created :=
    List.take_of_length_le (hsorted.length_eq.trans_le h)
  rw [hall]
  exact hsorted

/-- A page that is not full is all there is. -/
theorem perm_listByRole_of_lt {limit : Nat}
    (h : (listByRole .root limit rows).length < limit) :
    (listByRole .root limit rows).Perm (activeRoots rows) := by
  apply perm_listByRole
  have hlength : (listByRole .root limit rows).length = min limit (activeRoots rows).length := by
    rw [listByRole, List.length_take, List.length_insertionSort]
    rfl
  omega

/-- The cert that a claim writes is an active ROOT, named after the identity. -/
theorem identityDerived_cert (claim : Claim) : identityDerived claim.cert = true := by
  have hid : claim.cert.waId.toList =
      "wa-root-".toList ++ claim.applied.identityKeyId.toList := by
    show ("wa-root-" ++ claim.applied.identityKeyId).toList = _
    simp
  rw [identityDerived, hid, List.isPrefixOf_iff_prefix]
  exact List.prefix_append _ _

/-! ## What the writes do to the ROOTs -/

theorem keyed_upsert (h : (rows.map WaCert.waId).Nodup) (cert : WaCert) :
    ((rows.upsert cert).map WaCert.waId).Nodup :=
  KeyedRows.nodup_upsert h

theorem keyed_setActive (h : (rows.map WaCert.waId).Nodup) (waId : String) (active : Bool) :
    ((rows.setActive waId active).map WaCert.waId).Nodup := by
  rw [Rows.setActive, KeyedRows.map_key_modify]
  · exact h
  · intro r
    rfl

theorem mem_activeRoots_upsert (h : (rows.map WaCert.waId).Nodup) (claim : Claim) :
    c ∈ activeRoots (rows.upsert claim.cert) ↔
      c = claim.cert ∨ c ∈ activeRoots rows ∧ c.waId ≠ claim.cert.waId := by
  rw [mem_activeRoots, mem_activeRoots, Rows.upsert, KeyedRows.mem_upsert h]
  constructor
  · rintro ⟨rfl | ⟨hmem, hne⟩, hroot⟩
    · exact Or.inl rfl
    · exact Or.inr ⟨⟨hmem, hroot⟩, hne⟩
  · rintro (rfl | ⟨⟨hmem, hroot⟩, hne⟩)
    · exact ⟨Or.inl rfl, rfl, rfl⟩
    · exact ⟨Or.inr ⟨hmem, hne⟩, hroot⟩

/-- A retirement takes the cert out of the ROOTs, if it is one. -/
theorem activeRoots_setActive (rows : Rows) (waId : String) :
    activeRoots (rows.setActive waId false) = (activeRoots rows).filter (·.waId ≠ waId) := by
  apply KeyedRows.filter_modify
  intro r
  simp

theorem mem_activeRoots_setActive (rows : Rows) (waId : String) :
    c ∈ activeRoots (rows.setActive waId false) ↔ c ∈ activeRoots rows ∧ c.waId ≠ waId := by
  rw [activeRoots_setActive, List.mem_filter, decide_eq_true_eq]

/-! ## What a claim has written, and still has to retire -/

/-- The claim's cert is there, and every other ROOT is a placeholder that is `owed`. -/
structure Owned (rows : Rows) (claim : Claim) (owed : WaCert → Prop) : Prop where
  mem : claim.cert ∈ rows
  others : ∀ c ∈ activeRoots rows, c ≠ claim.cert → identityDerived c = false ∧ owed c

/-- The cert holds the pair that the claim carries. -/
def Claim.sharesPair (claim : Claim) (c : WaCert) : Bool :=
  claim.oauthIdentity.any fun (provider, externalId) => WaStore.holdsPair provider externalId c

/-- What every request leaves to be relied on, once its ROOT is written. -/
def TaskInv (rows : Rows) : Phase → Prop
  | .clearing claim => Owned rows claim (claim.sharesPair ·)
  | .scanning claim provider externalId roles holders =>
    Owned rows claim fun c =>
      c ∈ holders ∨ .root ∈ roles ∧ WaStore.holdsPair provider externalId c = true
  | .retiring claim others =>
    Owned rows claim (· ∈ others) ∧ ∀ other ∈ others, other.waId ≠ claim.cert.waId
  | .told (.created response) =>
    ∃ claim : Claim, claim.response = response ∧ Owned rows claim fun _ => False
  | _ => True

/-- The request has written its ROOT. -/
def claimed : Phase → Nat
  | .clearing _ | .scanning .. | .retiring .. | .told (.created _) => 1
  | _ => 0

/-- Is there a ROOT that is named after an identity? -/
def owners (rows : Rows) : Nat := if (activeRoots rows).any identityDerived then 1 else 0

structure NodeInv (rows : Rows) : Prop where
  keyed : (rows.map WaCert.waId).Nodup
  few : (activeRoots rows).length ≤ 1 + owners rows

/-- **Invariant.** As many requests have written a ROOT as there are owners. -/
structure Inv (c : Config Node Phase) : Prop where
  node : NodeInv c.shared.rows
  tasks : ∀ t ∈ c.tasks, TaskInv c.shared.rows t
  count : (c.tasks.map claimed).sum ≤ owners c.shared.rows

theorem Claim.cert_mem_activeRoots (h : claim.cert ∈ rows) : claim.cert ∈ activeRoots rows :=
  mem_activeRoots.mpr ⟨h, rfl, rfl⟩

theorem Owned.owners_eq {owed : WaCert → Prop} (h : Owned rows claim owed) : owners rows = 1 := by
  have hany : (activeRoots rows).any identityDerived = true :=
    List.any_eq_true.mpr ⟨_, Claim.cert_mem_activeRoots h.mem, identityDerived_cert claim⟩
  rw [owners, if_pos hany]

/-- An owner's cert that is among the ROOTs is the claim's. -/
theorem Owned.eq_cert {owed : WaCert → Prop} (h : Owned rows claim owed)
    (hc : c ∈ activeRoots rows) (hid : identityDerived c = true) : c = claim.cert := by
  by_contra hne
  have hnot := (h.others c hc hne).1
  rw [hid] at hnot
  cases hnot

/-- What is owed may be weakened, also by what is known of the ROOTs. -/
theorem Owned.imp {owed owed' : WaCert → Prop} (h : Owned rows claim owed)
    (himp : ∀ c ∈ activeRoots rows, c ≠ claim.cert → owed c → owed' c) :
    Owned rows claim owed' where
  mem := h.mem
  others c hc hne := ⟨(h.others c hc hne).1, himp c hc hne (h.others c hc hne).2⟩

/-- A cert that is retired is owed no longer. -/
theorem Owned.setActive {owed : WaCert → Prop} {waId : String} (h : Owned rows claim owed)
    (hne : waId ≠ claim.cert.waId) :
    Owned (rows.setActive waId false) claim fun c => owed c ∧ c.waId ≠ waId where
  mem := by
    have hmem := (mem_activeRoots_setActive rows waId).mpr
      ⟨Claim.cert_mem_activeRoots h.mem, hne.symm⟩
    exact (mem_activeRoots.mp hmem).1
  others c hc hcert := by
    obtain ⟨hold, hid⟩ := (mem_activeRoots_setActive rows waId).mp hc
    obtain ⟨hplaceholder, howed⟩ := h.others c hold hcert
    exact ⟨hplaceholder, howed, hid⟩

/-- A claim that writes over placeholders with its pair owns the node, but for them. -/
theorem owned_upsert (hkeyed : (rows.map WaCert.waId).Nodup)
    (h : ∀ c ∈ activeRoots rows, identityDerived c = false ∧ claim.sharesPair c = true) :
    Owned (rows.upsert claim.cert) claim (claim.sharesPair ·) where
  mem := (KeyedRows.mem_upsert hkeyed).mpr (Or.inl rfl)
  others c hc hne := by
    rcases (mem_activeRoots_upsert hkeyed claim).mp hc with heq | ⟨hold, -⟩
    · exact absurd heq hne
    · exact h c hold

/-- Somebody owns what a request has claimed. -/
theorem TaskInv.owned {t : Phase} (h : TaskInv rows t) (hclaimed : claimed t = 1) :
    ∃ claim owed, Owned rows claim owed := by
  cases t with
  | clearing claim => exact ⟨claim, _, h⟩
  | scanning claim provider externalId roles holders => exact ⟨claim, _, h⟩
  | retiring claim others => exact ⟨claim, _, h.1⟩
  | told reply =>
    cases reply with
    | created response =>
      obtain ⟨claim, -, howned⟩ := h
      exact ⟨claim, _, howned⟩
    | refused refusal => cases hclaimed
  | called | probing | proving | applying | rechecking | claiming => cases hclaimed

theorem claimed_le_one (t : Phase) : claimed t = 0 ∨ claimed t = 1 := by
  unfold claimed
  split <;> simp

/-! ## The condition -/

/-- The condition on a step of a request. -/
def StepMeets (env : Env) (rows : Rows) : Phase → Prop
  -- the ROOTs that a claim is written over are placeholders with its pair
  | .claiming claim => env.storeError = none →
    ∀ c ∈ activeRoots rows, identityDerived c = false ∧ claim.sharesPair c = true
  -- a scan fails only if there is nothing to retire
  | .scanning claim _ _ (_ :: _) _ => env.storeError ≠ none →
    ∀ c ∈ activeRoots rows, c.waId = claim.cert.waId
  -- a cert that cannot be retired is no ROOT
  | .retiring _ (other :: _) => env.storeError ≠ none →
    ∀ c ∈ activeRoots rows, c.waId ≠ other.waId
  | _ => True

/-- The condition on a move. -/
def Meets (c : Config Node Phase) : Move Body Env → Prop
  | .arrive _ => True
  | .advance i env => ∀ t ∈ c.tasks[i]?, StepMeets env c.shared.rows t

instance decidableStepMeets (env : Env) (rows : Rows) : ∀ t, Decidable (StepMeets env rows t)
  | .claiming _ => inferInstanceAs (Decidable (_ → ∀ c ∈ activeRoots rows, _))
  | .scanning _ _ _ (_ :: _) _ => inferInstanceAs (Decidable (_ → ∀ c ∈ activeRoots rows, _))
  | .retiring _ (_ :: _) => inferInstanceAs (Decidable (_ → ∀ c ∈ activeRoots rows, _))
  | .scanning _ _ _ [] _ => inferInstanceAs (Decidable True)
  | .retiring _ [] => inferInstanceAs (Decidable True)
  | .called _ => inferInstanceAs (Decidable True)
  | .probing _ _ => inferInstanceAs (Decidable True)
  | .proving _ _ => inferInstanceAs (Decidable True)
  | .applying .. => inferInstanceAs (Decidable True)
  | .rechecking .. => inferInstanceAs (Decidable True)
  | .clearing _ => inferInstanceAs (Decidable True)
  | .told _ => inferInstanceAs (Decidable True)

instance decidableMeets (c : Config Node Phase) : ∀ m, Decidable (Meets c m)
  | .arrive _ => inferInstanceAs (Decidable True)
  | .advance i env => inferInstanceAs
    (Decidable (∀ t ∈ c.tasks[i]?, StepMeets env c.shared.rows t))

/-! ## One step -/

theorem taskInv_of_unclaimed {t : Phase} (h : claimed t = 0) : TaskInv rows t := by
  cases t with
  | clearing | scanning | retiring => cases h
  | told reply =>
    cases reply with
    | created response => cases h
    | refused refusal => trivial
  | called | probing | proving | applying | rechecking | claiming => trivial

/-- Retiring a cert that nobody owns the node by. -/
theorem TaskInv.setActive {t : Phase} {waId : String} (h : TaskInv rows t)
    (hne : ∀ claim owed, Owned rows claim owed → waId ≠ claim.cert.waId) :
    TaskInv (rows.setActive waId false) t := by
  cases t with
  | clearing claim => exact (Owned.setActive h (hne _ _ h)).imp fun _ _ _ howed => howed.1
  | scanning claim provider externalId roles holders =>
    exact (Owned.setActive h (hne _ _ h)).imp fun _ _ _ howed => howed.1
  | retiring claim others =>
    exact ⟨(h.1.setActive (hne _ _ h.1)).imp fun _ _ _ howed => howed.1, h.2⟩
  | told reply =>
    cases reply with
    | created response =>
      obtain ⟨claim, hresponse, howned⟩ := h
      exact ⟨claim, hresponse, (howned.setActive (hne _ _ howned)).imp fun _ _ _ howed => howed.1⟩
    | refused refusal => trivial
  | called | probing | proving | applying | rechecking | claiming => trivial

theorem claimed_refusedOr {α : Type} {x : Except Refusal α} {k : α → Phase}
    (h : ∀ a, claimed (k a) = 0) : claimed (refusedOr x k) = 0 := by
  cases x with
  | error e => rfl
  | ok a => exact h a

/-- **Inversion.** A step of a request that has no ROOT yet changes no cert, unless it writes
    its own. -/
theorem advance_unclaimed (L : Lib) (env : Env) (node : Node) {t : Phase} (h : claimed t = 0) :
    ((t.advance L env node).1 = node ∧ claimed (t.advance L env node).2 = 0) ∨
      ∃ claim, t = .claiming claim ∧ env.storeError = none ∧
        t.advance L env node =
          ({ node with rows := node.rows.upsert claim.cert }, .clearing claim) := by
  cases t with
  | clearing | scanning | retiring => cases h
  | called body => exact Or.inl ⟨rfl, rfl⟩
  | probing body placeholder =>
    refine Or.inl ⟨rfl, ?_⟩
    show claimed (probe L env body placeholder node) = 0
    unfold probe
    split
    · rfl
    · split
      · rfl
      · exact claimed_refusedOr fun req => claimed_refusedOr fun _ => rfl
  | proving req placeholder =>
    exact Or.inl ⟨rfl, claimed_refusedOr fun _ => claimed_refusedOr fun cohortScope =>
      claimed_refusedOr fun ownerBinding => rfl⟩
  | applying req placeholder cohortScope ownerBinding =>
    refine Or.inl ⟨rfl, ?_⟩
    show claimed (apply env req placeholder cohortScope ownerBinding) = 0
    unfold apply
    split <;> rfl
  | rechecking req placeholder applied =>
    refine Or.inl ⟨rfl, ?_⟩
    show claimed (recheck env req placeholder applied node) = 0
    unfold recheck
    split <;> rfl
  | claiming claim =>
    cases hstore : env.storeError with
    | some e =>
      left
      simp only [Phase.advance, hstore]
      exact ⟨trivial, rfl⟩
    | none =>
      right
      simp only [Phase.advance, hstore]
      exact ⟨claim, rfl, trivial, rfl⟩
  | told reply =>
    cases reply with
    | created response => cases h
    | refused refusal => exact Or.inl ⟨rfl, rfl⟩

/-- What a step of one request does to the node, to itself, and to what the others rely on. -/
structure Keeps (t t' : Phase) (rows rows' : Rows) : Prop where
  node : NodeInv rows'
  task : TaskInv rows' t'
  others : ∀ u, TaskInv rows u → TaskInv rows' u
  count : claimed t' + owners rows ≤ claimed t + owners rows'

/-- A step that leaves the certs alone. -/
theorem Keeps.quiet {t t' : Phase} (hnode : NodeInv rows) (htask : TaskInv rows t')
    (hclaimed : claimed t' = claimed t) : Keeps t t' rows rows where
  node := hnode
  task := htask
  others u h := h
  count := by omega

/-- The step that writes a ROOT. -/
theorem keeps_upsert (hnode : NodeInv rows)
    (hmeets : ∀ c ∈ activeRoots rows, identityDerived c = false ∧ claim.sharesPair c = true) :
    Keeps (.claiming claim) (.clearing claim) rows (rows.upsert claim.cert) := by
  have howned := owned_upsert hnode.keyed hmeets
  have hnone : owners rows = 0 := by
    have hany : ¬ (activeRoots rows).any identityDerived = true := by
      rw [List.any_eq_true]
      rintro ⟨c, hc, hid⟩
      rw [(hmeets c hc).1] at hid
      cases hid
    rw [owners, if_neg hany]
  have hfew := hnode.few
  constructor
  · refine ⟨keyed_upsert hnode.keyed _, ?_⟩
    -- one ROOT more at most
    have hlength : (activeRoots (rows.upsert claim.cert)).length ≤ (activeRoots rows).length + 1 := by
      refine (KeyedRows.length_filter_upsert_le _ _ _).trans (Nat.add_le_add_left ?_ _)
      split
      · exact le_refl _
      · exact Nat.zero_le _
    rw [howned.owners_eq]
    omega
  · exact howned
  · intro u hu
    -- nobody has claimed the node yet
    rcases claimed_le_one u with hzero | hone
    · exact taskInv_of_unclaimed hzero
    · obtain ⟨claim', owed, howned'⟩ := hu.owned hone
      have hone' := howned'.owners_eq
      omega
  · rw [hnone, howned.owners_eq]
    show 1 + 0 ≤ 0 + 1
    omega

/-- The step that retires a cert. -/
theorem keeps_setActive (hnode : NodeInv rows) {other : WaCert} {others : List WaCert}
    (h : TaskInv rows (.retiring claim (other :: others))) :
    Keeps (.retiring claim (other :: others)) (.retiring claim others) rows
      (rows.setActive other.waId false) := by
  obtain ⟨howned, hne⟩ := h
  have hkept := howned.setActive (hne other List.mem_cons_self)
  have howners : owners rows = 1 := howned.owners_eq
  constructor
  · refine ⟨keyed_setActive hnode.keyed _ _, ?_⟩
    have hless := List.length_filter_le (·.waId ≠ other.waId) (activeRoots rows)
    have hfew := hnode.few
    rw [activeRoots_setActive, hkept.owners_eq]
    omega
  · refine ⟨hkept.imp fun c _ _ howed => ?_, fun o ho => hne o (List.mem_cons_of_mem _ ho)⟩
    obtain ⟨hmem, hid⟩ := howed
    rcases List.mem_cons.mp hmem with rfl | hrest
    · exact absurd rfl hid
    · exact hrest
  · intro u hu
    refine hu.setActive fun claim' owed howned' => ?_
    -- whoever else owns the node, owns it by the same cert
    have hcert : claim'.cert = claim.cert :=
      howned.eq_cert (Claim.cert_mem_activeRoots howned'.mem) (identityDerived_cert claim')
    rw [hcert]
    exact hne other List.mem_cons_self
  · rw [howners, hkept.owners_eq]
    exact le_refl _

/-- A ROOT that is owed is on the page of the ROOTs. -/
theorem mem_holdersOn (hfew : (activeRoots rows).length ≤ 128) {provider externalId : String}
    (hc : c ∈ activeRoots rows) (hpair : WaStore.holdsPair provider externalId c = true) :
    c ∈ holdersOn rows .root provider externalId :=
  List.mem_filter.mpr ⟨(perm_listByRole hfew).mem_iff.mpr hc, hpair⟩

/-- The end of a claim's scan. Who else is owed the node's name has another key. -/
theorem taskInv_retiring (hkeyed : (rows.map WaCert.waId).Nodup) {holders : List WaCert}
    (h : Owned rows claim (· ∈ holders)) :
    TaskInv rows (.retiring claim (holders.filter (·.waId ≠ claim.cert.waId))) := by
  constructor
  · refine h.imp fun c hc hne hheld => List.mem_filter.mpr ⟨hheld, decide_eq_true fun heq => hne ?_⟩
    exact List.inj_on_of_nodup_map hkeyed (mem_activeRoots.mp hc).1 h.mem heq
  · intro other hother
    exact of_decide_eq_true (List.mem_filter.mp hother).2

/-- The steps between a claim's write and its answer. -/
theorem keeps_settle (L : Lib) {env : Env} {t : Phase} (hnode : NodeInv node.rows)
    (h : TaskInv node.rows t) (hclaimed : claimed t = 1) (hmeets : StepMeets env node.rows t) :
    Keeps t (t.advance L env node).2 node.rows (t.advance L env node).1.rows := by
  cases t with
  | called | probing | proving | applying | rechecking | claiming => cases hclaimed
  | clearing claim =>
    have howned : Owned node.rows claim (claim.sharesPair ·) := h
    simp only [Phase.advance]
    cases hpair : claim.oauthIdentity with
    | none =>
      refine Keeps.quiet hnode ⟨claim, rfl, howned.imp fun c _ _ howed => ?_⟩ rfl
      rw [Claim.sharesPair, hpair] at howed
      cases howed
    | some pair =>
      refine Keeps.quiet hnode (howned.imp fun c _ _ howed => ?_) rfl
      rw [Claim.sharesPair, hpair] at howed
      exact Or.inr ⟨List.mem_cons_self, howed⟩
  | scanning claim provider externalId roles holders =>
    have howned : Owned node.rows claim _ := h
    cases roles with
    | nil =>
      refine Keeps.quiet hnode (taskInv_retiring hnode.keyed (howned.imp fun c _ _ howed => ?_)) rfl
      rcases howed with hheld | ⟨hroles, -⟩
      · exact hheld
      · cases hroles
    | cons role roles =>
      cases hstore : env.storeError with
      | some e =>
        have hall := hmeets (by simp [hstore])
        simp only [Phase.advance, scan, hstore]
        refine Keeps.quiet hnode ⟨claim, rfl, howned.imp fun c hc hne _ => hne ?_⟩ rfl
        exact List.inj_on_of_nodup_map hnode.keyed (mem_activeRoots.mp hc).1 howned.mem (hall c hc)
      | none =>
        simp only [Phase.advance, scan, hstore]
        refine Keeps.quiet hnode (howned.imp fun c hc _ howed => ?_) rfl
        rcases howed with hheld | ⟨hroles, hholds⟩
        · exact Or.inl (List.mem_append_left _ hheld)
        · rcases List.mem_cons.mp hroles with rfl | hrest
          · -- the page of the ROOTs holds them all
            have hfew := hnode.few
            rw [howned.owners_eq] at hfew
            exact Or.inl (List.mem_append_right _ (mem_holdersOn (by omega) hc hholds))
          · exact Or.inr ⟨hrest, hholds⟩
  | retiring claim others =>
    cases others with
    | nil => exact Keeps.quiet hnode ⟨claim, rfl, h.1.imp fun c _ _ howed => by cases howed⟩ rfl
    | cons other others =>
      cases hstore : env.storeError with
      | none =>
        simp only [Phase.advance, hstore]
        exact keeps_setActive hnode h
      | some e =>
        have hnoRoot := hmeets (by simp [hstore])
        simp only [Phase.advance, hstore]
        refine Keeps.quiet hnode ⟨h.1.imp fun c hc _ howed => ?_, fun o ho => ?_⟩ rfl
        · rcases List.mem_cons.mp howed with rfl | hrest
          · exact absurd rfl (hnoRoot c hc)
          · exact hrest
        · exact h.2 o (List.mem_cons_of_mem _ ho)
  | told reply => exact Keeps.quiet hnode h rfl

/-- **Step lemma.** -/
theorem keeps_advance (L : Lib) {env : Env} {t : Phase} (hnode : NodeInv node.rows)
    (h : TaskInv node.rows t) (hmeets : StepMeets env node.rows t) :
    Keeps t (t.advance L env node).2 node.rows (t.advance L env node).1.rows := by
  rcases claimed_le_one t with hzero | hone
  · rcases advance_unclaimed L env node hzero with ⟨hsame, hstill⟩ | ⟨claim, rfl, hstore, hwrite⟩
    · rw [hsame]
      exact Keeps.quiet hnode (taskInv_of_unclaimed hstill) (hstill.trans hzero.symm)
    · rw [hwrite]
      exact keeps_upsert hnode (hmeets hstore)
  · exact keeps_settle L hnode h hone hmeets

/-- The invariant is kept by every move that meets the condition. -/
theorem inv_step (L : Lib) {c : Config Node Phase} {m : Move Body Env} (h : Inv c)
    (hm : Meets c m) : Inv ((setupServer L).step c m) := by
  have hkeeps : ∀ i env t, m = .advance i env → c.tasks[i]? = some t →
      Keeps t (t.advance L env c.shared).2 c.shared.rows (t.advance L env c.shared).1.rows := by
    rintro i env t rfl ht
    exact keeps_advance L h.node (h.tasks t (List.mem_of_getElem? ht)) (hm t ht)
  have hstep := (setupServer L).step_preserves (J := fun node => NodeInv node.rows)
    (P := fun node t => TaskInv node.rows t) (m := m) h.node h.tasks
    (fun body _ => ⟨h.node, trivial, h.tasks⟩)
    (fun i env t hadvance ht =>
      have hk := hkeeps i env t hadvance ht
      ⟨hk.node, hk.task, fun u hu => hk.others u (h.tasks u hu)⟩)
  have hbudget := (setupServer L).step_budget (w := fun _ => 0) (b := fun node => owners node.rows)
    (f := claimed) (m := m) (c := c) (by simpa using h.count)
    (fun body _ => by simp [setupServer, claimed])
    (fun i env t hadvance ht => by simpa [setupServer] using (hkeeps i env t hadvance ht).count)
  exact ⟨hstep.1, hstep.2, by simpa using hbudget⟩

/-! ## Every run -/

/-- The node has no ROOT, or its one ROOT is a placeholder that a claim may adopt. -/
structure Unclaimed (rows : Rows) : Prop where
  keyed : (rows.map WaCert.waId).Nodup
  free : activeRoots rows = [] ∨ (adoptableOauthPlaceholder rows).isSome

/-- The request was answered 201. -/
def isCreated : Phase → Bool
  | .told (.created _) => true
  | _ => false

/-- At most one request was answered 201, and its cert is the ROOT. -/
def OneOwner (c : Config Node Phase) : Prop :=
  c.tasks.countP isCreated ≤ 1 ∧
  ∀ response, .told (.created response) ∈ c.tasks →
    ∃ cert, activeRoots c.shared.rows = [cert] ∧ cert.waId = response.waId ∧
      response.waId = rootWaIdForIdentity response.identityKeyId

theorem length_activeRoots_le_one (h : Unclaimed rows) : (activeRoots rows).length ≤ 1 := by
  rcases h.free with hnone | hplaceholder
  · simp [hnone]
  · unfold adoptableOauthPlaceholder at hplaceholder
    split at hplaceholder
    case h_1 only hpage =>
      have hroom : (listByRole .root 8 rows).length < 8 := by
        simp [hpage]
      have hlength := (perm_listByRole_of_lt hroom).length_eq
      rw [hpage] at hlength
      exact hlength.ge
    case h_2 => cases hplaceholder

theorem inv_start (h : Unclaimed node.rows) : Inv (start node) where
  node := ⟨h.keyed, (length_activeRoots_le_one h).trans (Nat.le_add_right 1 _)⟩
  tasks _ ht := by cases ht
  count := Nat.zero_le _

theorem countP_isCreated_le (tasks : List Phase) :
    tasks.countP isCreated ≤ (tasks.map claimed).sum := by
  induction tasks with
  | nil => exact le_refl _
  | cons t tasks ih =>
    rw [List.countP_cons, List.map_cons, List.sum_cons]
    have ht : (if isCreated t = true then 1 else 0) ≤ claimed t := by
      unfold isCreated
      split <;> simp [claimed]
    omega

/-- Nothing is owed, so there is one ROOT. -/
theorem Owned.activeRoots_eq (hkeyed : (rows.map WaCert.waId).Nodup)
    (h : Owned rows claim fun _ => False) : activeRoots rows = [claim.cert] := by
  have hall : ∀ c ∈ activeRoots rows, c = claim.cert := by
    intro c hc
    by_contra hne
    exact (h.others c hc hne).2
  have hnodup : (activeRoots rows).Nodup := hkeyed.of_map.filter _
  have hmem := Claim.cert_mem_activeRoots h.mem
  exact List.perm_singleton.mp ((List.perm_ext_iff_of_nodup hnodup (List.nodup_singleton _)).mpr
    fun c => by
      rw [List.mem_singleton]
      exact ⟨hall c, fun hc => hc ▸ hmem⟩)

theorem oneOwner_of_inv {c : Config Node Phase} (h : Inv c) : OneOwner c := by
  constructor
  · have hcount := (countP_isCreated_le c.tasks).trans h.count
    have howners : owners c.shared.rows ≤ 1 := by
      unfold owners
      split <;> omega
    omega
  · intro response hresponse
    obtain ⟨claim, rfl, howned⟩ := h.tasks _ hresponse
    exact ⟨claim.cert, howned.activeRoots_eq h.node.keyed, rfl, rfl⟩

/-- **Run.** Where every ROOT is written over placeholders with its own pair, and what the store
    refuses to the retirement is no ROOT, there is one owner. -/
theorem claims_leave_one_owner (L : Lib) (node : Node) (h : Unclaimed node.rows)
    (moves : List (Move Body Env))
    (hmeets : Guarded (setupServer L).step Meets (start node) moves) :
    OneOwner (after (setupServer L).step (start node) moves) :=
  oneOwner_of_inv (hmeets.invariant (fun _ _ hinv hm => inv_step L hinv hm) (inv_start h))

/-! ## Runs with a placeholder, and runs with two claims -/

namespace Fixture

/-- A node with the pin `PIN`. -/
def lib : Lib where
  nodeKeyId := "node"
  nodePubkeyEd25519Base64 := "pubkey"
  decode := .error
  cohortScopes := ["self"]
  debug := id

/-- The body of a complete claim. -/
def claimBody (identity : String) (externalId : Option String) : Body :=
  some (.ok
    { keyId := some "node", pubkeyEd25519Base64 := some "pubkey", cohortScope := some "self"
      ownerBinding := some { attestingKeyId := identity }, claimPin := some "PIN"
      ownerOauthProvider := some "Google", ownerOauthExternalId := externalId })

/-- What a sign-in before the claim left. -/
def placeholder : WaCert :=
  ⟨"oauth-google-7", "ada", .root, some "google", some "7", none, 0, true⟩

/-- A node before its first claim. -/
def fresh (rows : Rows) : Node := ⟨rows, some "PIN"⟩

/-- Steps of the request `i`. -/
def steps (n i : Nat) : List (Move Body Env) := List.replicate n (.advance i {})

/-- The owner claims the node over the placeholder, and another claim comes too late. -/
def adopted : List (Move Body Env) :=
  [.arrive (claimBody "ada" (some "7")), .arrive (claimBody "bob" none)] ++
    steps 13 0 ++ steps 2 1

/-- Two claims are checked before either of them writes. -/
def raced : List (Move Body Env) :=
  [.arrive (claimBody "ada" none), .arrive (claimBody "bob" none)] ++
    steps 5 0 ++ steps 5 1 ++ steps 2 0 ++ steps 2 1

/-- The owner claims the node over the placeholder, by a body without the pair. -/
def unpaired : List (Move Body Env) := [.arrive (claimBody "ada" none)] ++ steps 7 0

end Fixture

/-- Two claims that interleave are both answered 201; and a claim without the pair is answered 201
    with the placeholder still a ROOT. -/
theorem claims_leave_two_owners :
    (Unclaimed (Fixture.fresh []).rows ∧
      ¬ OneOwner (after (setupServer Fixture.lib).step (start (Fixture.fresh [])) Fixture.raced)) ∧
    (Unclaimed (Fixture.fresh [Fixture.placeholder]).rows ∧
      ¬ OneOwner (after (setupServer Fixture.lib).step
        (start (Fixture.fresh [Fixture.placeholder])) Fixture.unpaired)) := by
  refine ⟨⟨⟨by decide, Or.inl rfl⟩, fun h => ?_⟩, ⟨by decide, Or.inr (by decide)⟩, fun h => ?_⟩
  · exact absurd h.1 (by decide)
  · obtain ⟨cert, hroots, -⟩ := h.2 ⟨"wa-root-ada", "ada", "self", "SYSTEM_ADMIN", ""⟩ (by decide)
    have hlength : (activeRoots (after (setupServer Fixture.lib).step
        (start (Fixture.fresh [Fixture.placeholder])) Fixture.unpaired).shared.rows).length = 2 := by
      decide
    rw [hroots] at hlength
    cases hlength

theorem claims_leave_one_owner_adopted :
    OneOwner (after (setupServer Fixture.lib).step
      (start (Fixture.fresh [Fixture.placeholder])) Fixture.adopted) ∧
    .told (.created ⟨"wa-root-ada", "ada", "self", "SYSTEM_ADMIN", ""⟩) ∈
      (after (setupServer Fixture.lib).step
        (start (Fixture.fresh [Fixture.placeholder])) Fixture.adopted).tasks :=
  ⟨claims_leave_one_owner Fixture.lib _ ⟨by decide, Or.inr (by decide)⟩ _ (by decide), by decide⟩

end CirisServer.SetupRoot
