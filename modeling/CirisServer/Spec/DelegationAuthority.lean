import CirisServer.ForStd.Group
import CirisServer.Native.DeviceGrant
import CirisServer.Spec.DelegationBounds

/-!
# The authority of bounds

Bounds authorize a set of texts, of which the verbs are some. Tightening is intersection, so bounds
that are folded onto one another authorize what each of them does, in whatever order and however
often they come; and the bounds that are signed into an envelope are read back as they were.

Key results:
- `authority_tightenedWith`: tightening is intersection
- `authority_fold`: bounds folded onto one another
- `ofJson_toJson`: what is signed is read back
-/

namespace CirisServer

namespace DelegationConstraints

/-- The texts that the deny-list and the allow-list let through. -/
def authority (c : DelegationConstraints) : Set String :=
  {v | v ∉ c.actionsDeny ∧ ∀ allow ∈ c.actionsAllow, v ∈ allow}

variable {a b c : DelegationConstraints}

/-- **Connection.** A delegate passes the gate if the server lets any delegate do so, and its
    bounds authorize the verb. -/
theorem authorizeDelegated_iff {caller : BoundCaller} {verb : CapabilityVerb}
    (hactor : caller.actor.isSome = true) (hc : caller.constraints = some c) :
    authorizeDelegated caller verb = .ok () ↔
      verb.neverDelegatable = false ∧ verb.asStr ∈ c.authority :=
  (DeviceFlow.mem_verbs_iff hactor hc).symm

/-- Tightening is intersection. -/
theorem authority_tightenedWith (a b : DelegationConstraints) :
    (a.tightenedWith b).authority = a.authority ∩ b.authority := by
  ext v
  simp only [authority, tightenedWith, Set.mem_inter_iff, Set.mem_ofPred_eq,
    DeviceFlow.mem_foldl_deny, not_or]
  cases a.actionsAllow with
  | none =>
    cases b.actionsAllow with
    | none => simp
    | some allow => simp; tauto
  | some allow =>
    cases b.actionsAllow with
    | none => simp; tauto
    | some allow' => simp; tauto

/-- Bounds folded onto one another authorize what each of them does. -/
theorem authority_fold (c : DelegationConstraints) (cs : List DelegationConstraints) :
    (cs.foldl tightenedWith c).authority = {v | ∀ x ∈ c :: cs, v ∈ x.authority} := by
  induction cs generalizing c with
  | nil => simp
  | cons d cs ih =>
    rw [List.foldl_cons, ih]
    ext v
    simp only [List.forall_mem_cons, authority_tightenedWith, Set.mem_inter_iff,
      Set.mem_ofPred_eq, and_assoc]

/-! ## Nothing allowed stays nothing -/

theorem tightenedWith_allows_nothing (h : a.actionsAllow = some [] ∨ b.actionsAllow = some []) :
    (a.tightenedWith b).actionsAllow = some [] := by
  simp only [tightenedWith]
  rcases h with ha | hb
  · rw [ha]
    cases b.actionsAllow <;> rfl
  · rw [hb]
    cases a.actionsAllow with
    | none => rfl
    | some allow => simp

theorem fold_allows_nothing {cs : List DelegationConstraints}
    (h : ∃ x ∈ c :: cs, x.actionsAllow = some []) :
    (cs.foldl tightenedWith c).actionsAllow = some [] := by
  induction cs generalizing c with
  | nil =>
    obtain ⟨x, hx, hallow⟩ := h
    rw [List.mem_singleton.mp hx] at hallow
    exact hallow
  | cons d cs ih =>
    rw [List.foldl_cons]
    apply ih
    obtain ⟨x, hx, hallow⟩ := h
    rcases List.mem_cons.mp hx with rfl | hx
    · exact ⟨_, List.mem_cons_self, tightenedWith_allows_nothing (Or.inl hallow)⟩
    · rcases List.mem_cons.mp hx with rfl | hx
      · exact ⟨_, List.mem_cons_self, tightenedWith_allows_nothing (Or.inr hallow)⟩
      · exact ⟨x, List.mem_cons_of_mem _ hx, hallow⟩

theorem authority_of_allows_nothing (h : c.actionsAllow = some []) : c.authority = ∅ := by
  ext v
  simp [authority, h]

/-! ## Signed bounds -/

theorem texts_ofTexts (texts : List String) : (Json.ofTexts texts).texts = some texts := by
  show (texts.map Json.str).mapM Json.asStr = some texts
  rw [List.mapM_eq_some_iff, List.map_map]
  rfl

/-- Bounds that are written are read as they were. -/
theorem ofJson_toJson (c : DelegationConstraints) : ofJson c.toJson = some c := by
  obtain ⟨allow, deny, goal⟩ := c
  have hallow (texts : List String) :
      Json.nullable Json.texts (Json.ofTexts texts) = some (some texts) := by
    show ((Json.ofTexts texts).texts).map some = _
    rw [texts_ofTexts]
    rfl
  have hgoal (text : String) : Json.nullable Json.asStr (.str text) = some (some text) := rfl
  cases allow <;> cases deny <;> cases goal <;>
    simp [ofJson, toJson, Json.field, List.lookup_cons, hallow, hgoal, texts_ofTexts]

theorem isUnconstrained_iff : c.isUnconstrained = true ↔ c = {} := by
  obtain ⟨allow, deny, goal⟩ := c
  simp [isUnconstrained, and_assoc]

theorem authority_default : ({} : DelegationConstraints).authority = Set.univ := by
  ext v
  simp [authority]

theorem get?_withConstraints (members : List (String × Json)) (h : c.isUnconstrained = false) :
    (Json.withConstraints (.obj members) c).get? "constraints" = some c.toJson := by
  rw [Json.withConstraints, if_neg (by rw [h]; decide)]
  exact Members.lookup_insert_self

end DelegationConstraints

open DelegationConstraints

/-- **Tightening.** A delegate bound by tightened bounds passes exactly if it passes with either;
    so bounds fold to one authority in any order and with any repetitions, nothing allowed stays
    nothing, and the bounds in a signed envelope have the authority they were signed with. -/
theorem tightening_is_meet :
    (∀ (a b : DelegationConstraints) (v : String),
      v ∈ (a.tightenedWith b).authority ↔ v ∈ a.authority ∧ v ∈ b.authority) ∧
    (∀ (caller : BoundCaller) (a b : DelegationConstraints) (verb : CapabilityVerb),
      caller.actor.isSome = true →
      (authorizeDelegated { caller with constraints := some (a.tightenedWith b) } verb = .ok () ↔
        authorizeDelegated { caller with constraints := some a } verb = .ok () ∧
          authorizeDelegated { caller with constraints := some b } verb = .ok ())) ∧
    (∀ (c c' : DelegationConstraints) (cs cs' : List DelegationConstraints),
      (∀ x, x ∈ c :: cs ↔ x ∈ c' :: cs') →
      (cs.foldl tightenedWith c).authority = (cs'.foldl tightenedWith c').authority) ∧
    (∀ (c : DelegationConstraints) (cs : List DelegationConstraints),
      (∃ x ∈ c :: cs, x.actionsAllow = some []) →
      (cs.foldl tightenedWith c).actionsAllow = some [] ∧
        (cs.foldl tightenedWith c).authority = ∅) ∧
    ∀ (c : DelegationConstraints) (members : List (String × Json)),
      if c.isUnconstrained then
        Json.withConstraints (.obj members) c = .obj members ∧ c.authority = Set.univ
      else ∃ j c', (Json.withConstraints (.obj members) c).get? "constraints" = some j ∧
        ofJson j = some c' ∧ c'.authority = c.authority := by
  refine ⟨fun a b v => ?_, fun caller a b verb hactor => ?_, fun c c' cs cs' hsame => ?_,
    fun c cs h => ?_, fun c members => ?_⟩
  · rw [authority_tightenedWith]
    exact Iff.rfl
  · have hiff (x : DelegationConstraints) :
        authorizeDelegated { caller with constraints := some x } verb = .ok () ↔
          verb.neverDelegatable = false ∧ verb.asStr ∈ x.authority :=
      authorizeDelegated_iff hactor rfl
    rw [hiff, hiff, hiff, authority_tightenedWith, Set.mem_inter_iff]
    tauto
  · rw [authority_fold, authority_fold]
    ext v
    simp only [Set.mem_ofPred_eq, hsame]
  · have hnothing := fold_allows_nothing h
    exact ⟨hnothing, authority_of_allows_nothing hnothing⟩
  · split
    case isTrue h =>
      refine ⟨if_pos h, ?_⟩
      rw [isUnconstrained_iff.mp h, authority_default]
    case isFalse h =>
      exact ⟨_, c, get?_withConstraints members (Bool.eq_false_iff.mpr h), ofJson_toJson c, rfl⟩

end CirisServer
