import CirisServer.Spec.MultipartFile

/-!
# Reads and peeks of the multipart reader's file

Any number of reads, into buffers of any sizes, with peeks between them.

Key results:
- `runFile_tells`: the answers tell the verdict
- `runFile_settles`: enough reads come to the end or to a failure
-/

namespace CirisServer.Multipart

/-- What is done with an open file: it is read into a buffer of some size, or looked at. -/
inductive FileOp where
  | read (size : Nat)
  | peek (n : Nat)

/-- No buffer is empty. -/
def FileOp.Valid : FileOp → Prop
  | .read size => 0 < size
  | .peek _ => True

inductive FileAnswer where
  | read (r : Poll (Except Failure (List UInt8)))
  | peek (r : Except Failure (List UInt8))
deriving DecidableEq

def fileStep (mp : Multipart) (stream : List Event) : FileOp → FileAnswer × Multipart × List Event
  | .read size =>
    let (r, mp, stream) := mp.pollFile stream size
    (.read r, mp, stream)
  | .peek n =>
    let (r, mp, stream) := mp.peek stream n
    (.peek r, mp, stream)

/-- The answers, one for each operation. -/
def runFile (mp : Multipart) (stream : List Event) : List FileOp → List FileAnswer
  | [] => []
  | op :: ops =>
    let (answer, mp, stream) := mp.fileStep stream op
    answer :: runFile mp stream ops

/-- The end of the file was reported. -/
def FileAnswer.eof : FileAnswer := .read (.ready (.ok []))

def FileAnswer.failed (f : Failure) : FileAnswer := .read (.ready (.error f))

/-- The bytes that the answers brought. -/
def delivered (answers : List FileAnswer) : List UInt8 :=
  answers.flatMap fun answer =>
    match answer with
    | .read (.ready (.ok bytes)) => bytes
    | _ => []

/-- From here on every read is answered with the failure. -/
def AllFail (f : Failure) (answers : List FileAnswer) : Prop :=
  ∀ r, .read r ∈ answers → r = .ready (.error f)

/-- Answers that tell a verdict: a read brings some of the file's bytes or waits, and then the end
    or the failure is reported again and again. A peek shows what comes next. -/
inductive Tells : Verdict → List FileOp → List FileAnswer → Prop where
  | nil {v} : Tells v [] []
  | wait {v size ops answers} : Tells v ops answers →
      Tells v (.read size :: ops) (.read .pending :: answers)
  | bytes {v size ops answers} {bytes : List UInt8} : bytes ≠ [] → bytes.length ≤ size →
      Tells v ops answers →
      Tells (v.prepend bytes) (.read size :: ops) (.read (.ready (.ok bytes)) :: answers)
  | eof {size ops answers} : Tells (.eof []) ops answers →
      Tells (.eof []) (.read size :: ops) (.eof :: answers)
  | fails {f size ops answers} : AllFail f answers →
      Tells (.fails f) (.read size :: ops) (.failed f :: answers)
  | peek {v n ops answers r} : (∀ data, v = .eof data → r = .ok (data.take n)) →
      Tells v ops answers → Tells v (.peek n :: ops) (.peek r :: answers)

theorem Stuck.allFail {f : Failure} {mp : Multipart} (h : Stuck f mp) (stream : List Event)
    (ops : List FileOp) : AllFail f (mp.runFile stream ops) := by
  induction ops generalizing mp stream with
  | nil =>
    intro r hr
    cases hr
  | cons op ops ih =>
    intro r hr
    cases op with
    | read size =>
      obtain ⟨mp', hread, hstuck⟩ := h.pollFile stream size
      rw [runFile, fileStep, hread] at hr
      rcases List.mem_cons.mp hr with heq | hrest
      · cases heq
        rfl
      · exact ih hstuck stream r hrest
    | peek n =>
      have hpeek := h.peek stream n
      rw [runFile, fileStep] at hr
      generalize mp.peek stream n = p at hr hpeek
      obtain ⟨r', mp', stream'⟩ := p
      cases hpeek
      rcases List.mem_cons.mp hr with heq | hrest
      · cases heq
      · exact ih h stream r hrest

/-- **A run of the file's reader.** It tells the verdict, however it is polled. -/
theorem runFile_tells {mp : Multipart} {stream : List Event} {ops : List FileOp}
    (hgood : Good mp stream) (hops : ∀ op ∈ ops, op.Valid) :
    Tells (mp.view stream) ops (mp.runFile stream ops) := by
  induction ops generalizing mp stream with
  | nil => exact .nil
  | cons op ops ih =>
    have hrest : ∀ op ∈ ops, op.Valid := fun op h => hops op (List.mem_cons_of_mem _ h)
    cases op with
    | read size =>
      have hspec := pollFile_spec (hops _ List.mem_cons_self) hgood
      rw [runFile, fileStep]
      generalize mp.pollFile stream size = p at hspec
      obtain ⟨r, mp', stream'⟩ := p
      cases hspec with
      | pending _ _ hgood' hview => exact .wait (hview ▸ ih hgood' hrest)
      | bytes hne hsize _ _ hgood' hview =>
        rw [hview]
        exact .bytes hne hsize (ih hgood' hrest)
      | eof hclosed hview =>
        have hgood' : Good mp' stream' := by
          intro hin
          cases hclosed.symm.trans hin
        have htells := ih hgood' hrest
        have hview' : mp'.view stream' = .eof [] := by rw [view, hclosed]
        rw [hview'] at htells
        rw [hview]
        exact .eof htells
      | failed hstuck hview =>
        rw [hview]
        exact .fails (hstuck.allFail stream' ops)
    | peek n =>
      have hspec := peek_spec n hgood
      rw [runFile, fileStep]
      generalize mp.peek stream n = p at hspec
      obtain ⟨r, mp', stream'⟩ := p
      exact .peek hspec.shows_ (hspec.view_eq ▸ ih hspec.good hrest)

/-- The number of reads. -/
def reads (ops : List FileOp) : Nat :=
  ops.countP fun op =>
    match op with
    | .read _ => true
    | .peek _ => false

/-- Enough reads come to the end or to a failure: each waits for an event, or brings a byte. -/
theorem runFile_settles {mp : Multipart} {stream : List Event} {ops : List FileOp}
    (hgood : Good mp stream) (hops : ∀ op ∈ ops, op.Valid)
    (hmany : stream.length + mp.left stream < reads ops) :
    .eof ∈ mp.runFile stream ops ∨ ∃ f, .failed f ∈ mp.runFile stream ops := by
  induction ops generalizing mp stream with
  | nil => exact absurd hmany (Nat.not_lt_zero _)
  | cons op ops ih =>
    have hrest : ∀ op ∈ ops, op.Valid := fun op h => hops op (List.mem_cons_of_mem _ h)
    have hmem {answer : FileAnswer} {answers : List FileAnswer}
        (h : .eof ∈ answers ∨ ∃ f, .failed f ∈ answers) :
        .eof ∈ answer :: answers ∨ ∃ f, .failed f ∈ answer :: answers := by
      rcases h with heof | ⟨f, hfailed⟩
      · exact Or.inl (List.mem_cons_of_mem _ heof)
      · exact Or.inr ⟨f, List.mem_cons_of_mem _ hfailed⟩
    cases op with
    | read size =>
      have hcount : reads (.read size :: ops) = reads ops + 1 := by simp [reads]
      rw [hcount] at hmany
      have hspec := pollFile_spec (hops _ List.mem_cons_self) hgood
      rw [runFile, fileStep]
      generalize mp.pollFile stream size = p at hspec
      obtain ⟨r, mp', stream'⟩ := p
      cases hspec with
      | pending hshorter hleft hgood' _ =>
        dsimp only at hshorter hleft
        exact hmem (ih hgood' hrest (by omega))
      | bytes hne _ hlength hleft hgood' _ =>
        have hpos := List.length_pos_of_ne_nil hne
        dsimp only at hlength hleft
        exact hmem (ih hgood' hrest (by omega))
      | eof => exact Or.inl List.mem_cons_self
      | @failed f => exact Or.inr ⟨f, List.mem_cons_self⟩
    | peek n =>
      have hcount : reads (.peek n :: ops) = reads ops := by simp [reads]
      rw [hcount] at hmany
      have hspec := peek_spec n hgood
      have hlength := hspec.length_le
      have hleft := hspec.left_le
      rw [runFile, fileStep]
      generalize mp.peek stream n = p at hspec hlength hleft
      obtain ⟨r, mp', stream'⟩ := p
      dsimp only at hlength hleft
      exact hmem (ih hspec.good hrest (by omega))

/-! ### What a verdict says -/

theorem Verdict.prepend_eq_eof {v : Verdict} {bytes data : List UInt8}
    (h : v.prepend bytes = .eof data) : ∃ rest, v = .eof rest ∧ data = bytes ++ rest := by
  cases v with
  | eof rest => exact ⟨rest, rfl, (Verdict.eof.inj h).symm⟩
  | fails f => cases h

theorem Verdict.prepend_eq_fails {v : Verdict} {bytes : List UInt8} {f : Failure}
    (h : v.prepend bytes = .fails f) : v = .fails f := by
  cases v with
  | eof rest => cases h
  | fails g => exact h

/-- The bytes that come are the file's, the end is reported behind the last one, and no failure. -/
theorem Tells.of_eof {data : List UInt8} {ops : List FileOp} {answers : List FileAnswer}
    (h : Tells (.eof data) ops answers) :
    delivered answers <+: data ∧ (.eof ∈ answers → delivered answers = data) ∧
      ∀ f, .failed f ∉ answers := by
  generalize hv : Verdict.eof data = v at h
  induction h generalizing data with
  | nil => exact ⟨List.nil_prefix, fun h => absurd h List.not_mem_nil, fun _ => List.not_mem_nil⟩
  | wait _ ih =>
    obtain ⟨hcame, heof, hfails⟩ := ih hv
    refine ⟨hcame, fun h => heof ?_, fun f h => hfails f ?_⟩
    · exact List.mem_of_ne_of_mem (by rintro ⟨⟩) h
    · exact List.mem_of_ne_of_mem (by rintro ⟨⟩) h
  | @bytes v size ops answers bytes hne _ _ ih =>
    obtain ⟨rest, rfl, rfl⟩ := Verdict.prepend_eq_eof hv.symm
    obtain ⟨hcame, heof, hfails⟩ := ih rfl
    have hcons : delivered (.read (.ready (.ok bytes)) :: answers) = bytes ++ delivered answers :=
      List.flatMap_cons
    rw [hcons]
    refine ⟨(List.prefix_append_right_inj _).mpr hcame, fun h => ?_, fun f h => hfails f ?_⟩
    · rw [heof ((List.mem_cons.mp h).resolve_left fun heq => ?_)]
      cases heq
      exact hne rfl
    · exact List.mem_of_ne_of_mem (by rintro ⟨⟩) h
  | eof _ ih =>
    obtain ⟨hcame, -, hfails⟩ := ih rfl
    cases hv
    refine ⟨hcame, fun _ => List.prefix_nil.mp hcame, fun f h => hfails f ?_⟩
    exact List.mem_of_ne_of_mem (by rintro ⟨⟩) h
  | fails => cases hv
  | peek _ _ ih =>
    obtain ⟨hcame, heof, hfails⟩ := ih hv
    refine ⟨hcame, fun h => heof ?_, fun f h => hfails f ?_⟩
    · exact List.mem_of_ne_of_mem (by rintro ⟨⟩) h
    · exact List.mem_of_ne_of_mem (by rintro ⟨⟩) h

/-- An answer that is no failure comes before it. -/
theorem tail_of_failed {answer : FileAnswer} {answers before after : List FileAnswer} {g : Failure}
    (hne : answer ≠ .failed g) (h : answer :: answers = before ++ .failed g :: after) :
    ∃ before', answers = before' ++ .failed g :: after := by
  cases before with
  | nil => exact absurd (List.cons.inj h).1 hne
  | cons a before => exact ⟨before, (List.cons.inj h).2⟩

/-- No end is reported, and the failure stays. -/
theorem Tells.of_fails {f : Failure} {ops : List FileOp} {answers : List FileAnswer}
    (h : Tells (.fails f) ops answers) :
    .eof ∉ answers ∧ ∀ before g after, answers = before ++ .failed g :: after →
      g = f ∧ AllFail f after := by
  generalize hv : Verdict.fails f = v at h
  induction h generalizing f with
  | nil =>
    refine ⟨List.not_mem_nil, fun before g after h => ?_⟩
    cases before <;> cases h
  | wait _ ih =>
    obtain ⟨heof, hsticky⟩ := ih hv
    refine ⟨fun h => heof ?_, fun before g after h => ?_⟩
    · exact List.mem_of_ne_of_mem (by rintro ⟨⟩) h
    · obtain ⟨before', hrest⟩ := tail_of_failed (by rintro ⟨⟩) h
      exact hsticky before' g after hrest
  | bytes hne _ _ ih =>
    obtain rfl := Verdict.prepend_eq_fails hv.symm
    obtain ⟨heof, hsticky⟩ := ih rfl
    refine ⟨fun h => heof ((List.mem_cons.mp h).resolve_left fun heq => ?_),
      fun before g after h => ?_⟩
    · cases heq
      exact hne rfl
    · obtain ⟨before', hrest⟩ := tail_of_failed (by rintro ⟨⟩) h
      exact hsticky before' g after hrest
  | eof => cases hv
  | fails hall =>
    cases hv
    refine ⟨fun h => ?_, fun before g after h => ?_⟩
    · have hin := List.mem_of_ne_of_mem (by rintro ⟨⟩) h
      cases hall _ hin
    · cases before with
      | nil =>
        cases h
        exact ⟨rfl, hall⟩
      | cons a before =>
        obtain ⟨-, hrest⟩ := List.cons.inj h
        rw [hrest] at hall
        refine ⟨?_, fun r hr => hall r ?_⟩
        · have hg := hall _ (List.mem_append_right before List.mem_cons_self)
          cases hg
          rfl
        · exact List.mem_append_right before (List.mem_cons_of_mem _ hr)
  | peek _ _ ih =>
    obtain ⟨heof, hsticky⟩ := ih hv
    refine ⟨fun h => heof ?_, fun before g after h => ?_⟩
    · exact List.mem_of_ne_of_mem (by rintro ⟨⟩) h
    · obtain ⟨before', hrest⟩ := tail_of_failed (by rintro ⟨⟩) h
      exact hsticky before' g after hrest

end CirisServer.Multipart
