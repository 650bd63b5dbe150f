import CirisServer.ForStd.Run
import CirisServer.Native.Infohazard
import CirisServer.Spec.Infohazard

/-!
# Who lifts a flag

A request to flag or to clear is admitted under the community it names, and the row it
leaves names the subject and the class alone. So a clear admitted under any community
withdraws the flags of all of them. A flag stands as long as every clear of its subject
and class is admitted under the community of the flags that stand, and every flag is
written at a later instant than the clears before it.

Key results:
- `step_kept`: what one request leaves of the flags that stand
- `flags_stand`: the flags that stand at the end of a run are read by `subject_flag`
- `cleared_under_another_community`: a clear of somebody else's flag
-/

namespace CirisServer.Infohazard

open Run

/-! ## Admitted acts -/

/-- A request that was admitted and whose row was stored. -/
structure FlagAct where
  communityKeyId : String
  subjectKeyId : String
  contentClass : ContentFlag
  clear : Bool
  assertedAt : Int
  emitterKeyId : String
deriving DecidableEq

/-- The row the act left. -/
def FlagAct.row (a : FlagAct) : Row :=
  contentFlagRow a.emitterKeyId a.contentClass a.clear a.assertedAt

/-- Both acts are about one subject and one class. -/
def FlagAct.SameFlag (a b : FlagAct) : Prop :=
  a.subjectKeyId = b.subjectKeyId ∧ a.contentClass = b.contentClass

instance (a b : FlagAct) : Decidable (a.SameFlag b) := inferInstanceAs (Decidable (_ ∧ _))

/-- `c` is a clear of the flag `a` by those who answer for it. -/
def FlagAct.Lifts (c a : FlagAct) : Prop :=
  c.clear = true ∧ c.SameFlag a ∧ c.communityKeyId = a.communityKeyId

instance (c a : FlagAct) : Decidable (c.Lifts a) := inferInstanceAs (Decidable (_ ∧ _ ∧ _))

/-- `a` is a flag among the acts, oldest first, and no later act lifts it. -/
def Standing : List FlagAct → FlagAct → Prop
  | [], _ => False
  | b :: acts, a => (b = a ∧ a.clear = false ∧ ∀ c ∈ acts, ¬ c.Lifts a) ∨ Standing acts a

instance decidableStanding : ∀ (acts : List FlagAct) (a : FlagAct), Decidable (Standing acts a)
  | [], _ => inferInstanceAs (Decidable False)
  | b :: acts, a =>
    have := decidableStanding acts a
    inferInstanceAs (Decidable ((b = a ∧ a.clear = false ∧ ∀ c ∈ acts, ¬ c.Lifts a) ∨ _))

/-- One more act: it may lift what stood, and it stands itself if it is a flag. -/
theorem standing_append_singleton {acts : List FlagAct} {a b : FlagAct} :
    Standing (acts ++ [b]) a ↔
      Standing acts a ∧ ¬ b.Lifts a ∨ b = a ∧ a.clear = false := by
  induction acts with
  | nil => simp [Standing]
  | cons c acts ih =>
    simp only [List.cons_append, Standing, ih, List.forall_mem_append, List.forall_mem_singleton]
    tauto

theorem Standing.mem {acts : List FlagAct} {a : FlagAct} (h : Standing acts a) : a ∈ acts := by
  induction acts with
  | nil => exact h.elim
  | cons b acts ih =>
    rcases h with ⟨rfl, -⟩ | h
    · exact List.mem_cons_self
    · exact List.mem_cons_of_mem _ (ih h)

theorem Standing.is_flag {acts : List FlagAct} {a : FlagAct} (h : Standing acts a) :
    a.clear = false := by
  induction acts with
  | nil => exact h.elim
  | cons b acts ih =>
    rcases h with ⟨-, hflag, -⟩ | h
    · exact hflag
    · exact ih h

/-! ## Runs of the route -/

/-- One request to the route. -/
structure FlagCall where
  caller : Except VerifyError String
  body : Except String FlagRequest
  env : SafetyEnv

/-- The stored rows, and the acts that left them, oldest first. -/
structure FlagWorld where
  rows : FlagRows
  acts : List FlagAct

/-- What the call adds, if it is admitted and stored. -/
def FlagCall.act (substrateSigner : Option String) (call : FlagCall) : Option FlagAct :=
  match flagGate substrateSigner call.env call.caller call.body, call.env.emit with
  | .ok (req, signer), .ok _ =>
    some
      { communityKeyId := req.communityKeyId
        subjectKeyId := req.subjectKeyId
        contentClass := req.contentClass
        clear := decide (req.action = .clear)
        assertedAt := call.env.now
        emitterKeyId := signer }
  | _, _ => none

def FlagWorld.step (substrateSigner : Option String) (w : FlagWorld) (call : FlagCall) :
    FlagWorld where
  rows := (flag substrateSigner call.env call.caller call.body w.rows).1
  acts := w.acts ++ (call.act substrateSigner).toList

def FlagWorld.empty : FlagWorld := ⟨fun _ => [], []⟩

/-- **Inversion.** A call leaves everything as it was, or adds its act and the act's row. -/
theorem step_cases (substrateSigner : Option String) (w : FlagWorld) (call : FlagCall) :
    (call.act substrateSigner = none ∧ w.step substrateSigner call = w) ∨
    ∃ a, call.act substrateSigner = some a ∧
      w.step substrateSigner call =
        ⟨Function.update w.rows a.subjectKeyId (w.rows a.subjectKeyId ++ [a.row]),
          w.acts ++ [a]⟩ := by
  unfold FlagWorld.step FlagCall.act flag
  cases hgate : flagGate substrateSigner call.env call.caller call.body with
  | error answer => exact Or.inl ⟨rfl, by simp⟩
  | ok admitted =>
    obtain ⟨req, signer⟩ := admitted
    cases hemit : call.env.emit with
    | error e => exact Or.inl ⟨rfl, by simp⟩
    | ok attestationId => exact Or.inr ⟨_, rfl, rfl⟩

/-- The call's act keeps to its community: a clear, to the community of every flag that
    stands of its subject and class, unless it is stamped before that flag; a flag is
    stamped after every clear of them. -/
def KeepsScope (substrateSigner : Option String) (w : FlagWorld) (call : FlagCall) : Prop :=
  ∀ b ∈ call.act substrateSigner,
    if b.clear then
      ∀ a ∈ w.acts, Standing w.acts a → a.SameFlag b →
        a.communityKeyId = b.communityKeyId ∨ b.assertedAt < a.assertedAt
    else ∀ c ∈ w.acts, c.clear = true → c.SameFlag b → c.assertedAt < b.assertedAt

instance (substrateSigner : Option String) (w : FlagWorld) (call : FlagCall) :
    Decidable (KeepsScope substrateSigner w call) :=
  inferInstanceAs (Decidable (∀ b ∈ call.act substrateSigner, _))

/-- The rows are those of the acts, and a flag that stands is newer than every clear of its
    subject and class. -/
structure Kept (w : FlagWorld) : Prop where
  rows : ∀ s r, r ∈ w.rows s ↔ ∃ a ∈ w.acts, a.subjectKeyId = s ∧ a.row = r
  newest : ∀ a, Standing w.acts a → ∀ c ∈ w.acts, c.clear = true → c.SameFlag a →
    c.assertedAt < a.assertedAt

theorem empty_kept : Kept FlagWorld.empty where
  rows s r := by simp [FlagWorld.empty]
  newest a h := h.elim

/-- **Step.** A request that keeps to its community leaves the flags that stand the newest. -/
theorem step_kept (substrateSigner : Option String) (w : FlagWorld) (call : FlagCall)
    (h : Kept w) (hscope : KeepsScope substrateSigner w call) :
    Kept (w.step substrateSigner call) := by
  rcases step_cases substrateSigner w call with ⟨-, hsame⟩ | ⟨b, hact, hstep⟩
  · rwa [hsame]
  have hb := hscope b hact
  rw [hstep]
  constructor
  · intro s r
    by_cases hs : s = b.subjectKeyId
    · subst hs
      simp [h.rows, or_and_right, exists_or, eq_comm]
    · have hother : ¬ b.subjectKeyId = s := fun heq => hs heq.symm
      simp [h.rows, hs, hother, or_and_right, exists_or]
  · intro a ha c hc hclear hsame
    rcases standing_append_singleton.mp ha with ⟨hold, hnot⟩ | ⟨rfl, hflag⟩
    · rcases List.mem_append.mp hc with hc | hc
      · exact h.newest a hold c hc hclear hsame
      · -- the clear is the new act, and it did not lift the flag
        obtain rfl := List.mem_singleton.mp hc
        rw [if_pos hclear] at hb
        rcases hb a hold.mem hold ⟨hsame.1.symm, hsame.2.symm⟩ with hcommunity | hbefore
        · exact absurd ⟨hclear, hsame, hcommunity.symm⟩ hnot
        · exact hbefore
    · rw [hflag, if_neg Bool.false_ne_true] at hb
      rcases List.mem_append.mp hc with hc | hc
      · exact hb c hc hclear hsame
      · rw [List.mem_singleton.mp hc, hflag] at hclear
        cases hclear

/-- **Run.** -/
theorem run_kept (substrateSigner : Option String) {calls : List FlagCall}
    (hscope : Guarded (FlagWorld.step substrateSigner) (KeepsScope substrateSigner)
      FlagWorld.empty calls) :
    Kept (after (FlagWorld.step substrateSigner) FlagWorld.empty calls) :=
  hscope.invariant (step_kept substrateSigner) empty_kept

/-! ## What is read -/

theorem contentClass_contentFlagRow (emitterKeyId : String) (flag : ContentFlag)
    (withdrawn : Bool) (now : Int) :
    (contentFlagRow emitterKeyId flag withdrawn now).contentClass = some flag := by
  cases flag <;> cases withdrawn <;> rfl

theorem withdrawn_contentFlagRow (emitterKeyId : String) (flag : ContentFlag)
    (withdrawn : Bool) (now : Int) :
    (contentFlagRow emitterKeyId flag withdrawn now).withdrawn = withdrawn := by
  cases withdrawn <;> rfl

/-- A flag that stands is firm in the rows, in whatever order they are read. -/
theorem Kept.firm {w : FlagWorld} (h : Kept w) {a : FlagAct} (ha : Standing w.acts a)
    (st : RevealState) (now : Int) {rows : List Row}
    (hrows : rows.Perm (w.rows a.subjectKeyId)) : Firm st now rows a.contentClass := by
  have hrow : a.row ∈ rows :=
    hrows.mem_iff.mpr ((h.rows _ _).mpr ⟨a, ha.mem, rfl, rfl⟩)
  have hflags : Flags now a.contentClass a.row := by
    refine ⟨rfl, contentClass_contentFlagRow _ _ _ _, ?_⟩
    rw [FlagAct.row, withdrawn_contentFlagRow, ha.is_flag]
  have hclears : ∀ r ∈ rows, Clears st now a.contentClass r → r.assertedAt < a.assertedAt := by
    rintro r hr ⟨-, hclass, hwithdrawn, -⟩
    obtain ⟨c, hc, hsubject, rfl⟩ := (h.rows _ _).mp (hrows.mem_iff.mp hr)
    rw [FlagAct.row, contentClass_contentFlagRow, Option.some.injEq] at hclass
    rw [FlagAct.row, withdrawn_contentFlagRow] at hwithdrawn
    exact h.newest a ha c hc hwithdrawn ⟨hsubject, hclass⟩
  constructor
  · exact ⟨a.row, hrow, hflags, fun r hr hr' => le_of_lt (hclears r hr hr')⟩
  · rintro ⟨r, hr, c, hc, -, hc', htie, hmax⟩
    have hle := hmax a.row hrow (Or.inl hflags)
    have hlt := hclears c hc hc'
    have hrow : a.row.assertedAt = a.assertedAt := rfl
    omega

/-- Whatever requests were made, every flag that no clear under its own community has
    lifted is read by `subject_flag`, if every clear kept to the community of the flags
    that stood and every flag was stamped after the clears before it. -/
theorem flags_stand (substrateSigner : Option String) (calls : List FlagCall)
    (hscope : Guarded (FlagWorld.step substrateSigner) (KeepsScope substrateSigner)
      FlagWorld.empty calls) :
    let w := after (FlagWorld.step substrateSigner) FlagWorld.empty calls
    ∀ a, Standing w.acts a → ∀ (st : RevealState) (now : Int) (rows : List Row),
      rows.Perm (w.rows a.subjectKeyId) →
      st.directory.attestationsToAll a.subjectKeyId = .ok rows →
        subjectFlag st.directory now a.subjectKeyId (some a.contentClass) st.authority =
            .ok (some a.contentClass) ∧
          ∃ flag, subjectFlag st.directory now a.subjectKeyId none st.authority =
            .ok (some flag) := by
  intro w a ha st now rows hrows hread
  have hpresent : present st now rows a.contentClass = true :=
    present_of_firm ((run_kept substrateSigner hscope).firm ha st now hrows)
  rw [subjectFlag_eq hread, subjectFlag_eq hread]
  refine ⟨by rw [chosen, if_pos hpresent], ?_⟩
  -- with no class requested, one that is present is found
  cases hinfohazard : present st now rows .infohazard with
  | true => exact ⟨.infohazard, by rw [chosen, if_pos hinfohazard]⟩
  | false =>
    have hreported : present st now rows .reported = true := by
      cases hclass : a.contentClass with
      | infohazard =>
        rw [hclass, hinfohazard] at hpresent
        cases hpresent
      | reported => rwa [hclass] at hpresent
    exact ⟨.reported, by rw [chosen, hinfohazard, if_neg Bool.false_ne_true, if_pos hreported]⟩

/-! ### Two communities -/

/-- `mod-a` moderates `A`, and `founder-b` founded `B`. -/
def exampleSafetyEnv (now : Int) : SafetyEnv where
  actsFor caller identity := caller == identity
  admits signer community _ := .ok ((signer, community) ∈ [("mod-a", "A"), ("founder-b", "B")])
  now := now
  emit := .ok "row"
  promote := .ok ()

def exampleFlagCall (signer community : String) (action : FlagAction) (now : Int) : FlagCall where
  caller := .ok signer
  body := .ok ⟨signer, community, "subject", .infohazard, action⟩
  env := exampleSafetyEnv now

/-- The moderator of `A` flags, clears, and flags again. -/
theorem flags_stand_again :
    let calls := [exampleFlagCall "mod-a" "A" .flag 1, exampleFlagCall "mod-a" "A" .clear 2,
      exampleFlagCall "mod-a" "A" .flag 3]
    let w := after (FlagWorld.step (some "substrate")) FlagWorld.empty calls
    let st := exampleState (w.rows "subject") []
    subjectFlag st.directory 9 "subject" (some .infohazard) st.authority =
        .ok (some .infohazard) ∧
      ∃ flag, subjectFlag st.directory 9 "subject" none st.authority = .ok (some flag) := by
  intro calls w st
  exact flags_stand (some "substrate") calls (by decide +kernel)
    ⟨"A", "subject", .infohazard, false, 3, "substrate"⟩ (by decide +kernel) st 9
    (w.rows "subject") (List.Perm.refl _) rfl

/-- The founder of another community clears the flag that the moderator of `A` set. -/
theorem cleared_under_another_community :
    let calls := [exampleFlagCall "mod-a" "A" .flag 1, exampleFlagCall "founder-b" "B" .clear 2]
    let w := after (FlagWorld.step (some "substrate")) FlagWorld.empty calls
    let st := exampleState (w.rows "subject") []
    Standing w.acts ⟨"A", "subject", .infohazard, false, 1, "substrate"⟩ ∧
      subjectFlag st.directory 9 "subject" (some .infohazard) st.authority = .ok none := by
  decide +kernel

end CirisServer.Infohazard
