import CirisServer.Spec.MultipartView

/-!
# The multipart reader's file

What a reader of the file will tell is decided by the bytes that are not read and by what ends
them (`view`): the bytes up to the first delimiter and then the end, if the delimiter closes the
body, or else a failure. Every read and every peek keeps it.

Key results:
- `pollPartData_spec`: what a poll of a part can do
- `pollFile_spec`: what a read of the file can do
- `Stuck.pollFile`: a failure stays
- `peek_spec`: a peek shows what comes next, and changes nothing
-/

namespace CirisServer.Multipart

open List (StartsAt FirstAt)

/-! ## The verdict -/

/-- What a reader of the file tells: its bytes and then the end, or a failure. -/
inductive Verdict where
  | eof (data : List UInt8)
  | fails (f : Failure)

def Verdict.prepend (bytes : List UInt8) : Verdict → Verdict
  | .eof data => .eof (bytes ++ data)
  | .fails f => .fails f

@[simp] theorem Verdict.prepend_nil (v : Verdict) : v.prepend [] = v := by
  cases v <;> rfl

@[simp] theorem Verdict.prepend_append (bytes bytes' : List UInt8) (v : Verdict) :
    v.prepend (bytes ++ bytes') = (v.prepend bytes').prepend bytes := by
  cases v with
  | eof data => simp [prepend]
  | fails f => rfl

/-- Behind the file's delimiter: the body closes, or another part follows, or not enough comes. -/
def closing (failure : Option Failure) (rest : List UInt8) (ending : Option Failure) : Verdict :=
  if rest.length < 2 then .fails (ending.getD .truncated)
  else if dashes <+: rest then .eof []
  else .fails (failure.getD .fieldAfterFile)

/-- In the file. -/
def fileVerdict (delim : List UInt8) (failure : Option Failure) (bytes : List UInt8)
    (ending : Option Failure) : Verdict :=
  match List.firstOccurrence delim bytes with
  | none => .fails (ending.getD .truncated)
  | some e => (closing failure (bytes.drop (e + delim.length)) ending).prepend (bytes.take e)

theorem fileVerdict_of_firstAt {delim bytes : List UInt8} {failure ending : Option Failure} {e : Nat}
    (hne : delim ≠ []) (h : FirstAt delim bytes e) : fileVerdict delim failure bytes ending =
      (closing failure (bytes.drop (e + delim.length)) ending).prepend (bytes.take e) := by
  rw [fileVerdict, (List.firstOccurrence_eq_some_iff hne).mpr h]

theorem fileVerdict_of_none {delim bytes : List UInt8} {failure ending : Option Failure}
    (hne : delim ≠ []) (h : ∀ i, ¬ StartsAt delim bytes i) :
    fileVerdict delim failure bytes ending = .fails (ending.getD .truncated) := by
  rw [fileVerdict, (List.firstOccurrence_eq_none_iff hne).mpr h]

/-- Bytes that no delimiter starts in belong to the file. -/
theorem fileVerdict_drop {delim bytes : List UInt8} {failure ending : Option Failure} {m : Nat}
    (hne : delim ≠ []) (hm : ∀ j < m, ¬ StartsAt delim bytes j) :
    fileVerdict delim failure bytes ending =
      (fileVerdict delim failure (bytes.drop m) ending).prepend (bytes.take m) := by
  cases hfirst : List.firstOccurrence delim bytes with
  | none =>
    have hnone := (List.firstOccurrence_eq_none_iff hne).mp hfirst
    rw [fileVerdict_of_none hne hnone, fileVerdict_of_none hne]
    · rfl
    · intro i
      rw [List.startsAt_drop]
      exact hnone (m + i)
  | some e =>
    have hat := (List.firstOccurrence_eq_some_iff hne).mp hfirst
    have hle : m ≤ e := by
      rcases Nat.lt_or_ge e m with hlt | hge
      · exact absurd hat.starts (hm e hlt)
      · exact hge
    rw [fileVerdict_of_firstAt hne hat, fileVerdict_of_firstAt hne (hat.drop hle),
      ← Verdict.prepend_append, List.drop_drop]
    have hplace : m + (e - m + delim.length) = e + delim.length := by omega
    have htake : bytes.take m ++ (bytes.drop m).take (e - m) = bytes.take e := by
      rw [← List.take_add, Nat.add_sub_cancel' hle]
    rw [hplace, htake]

/-! ## A poll of the part -/

/-- Bytes in the buffer are passed over. -/
theorem onward_pass {mp : Multipart} {n : Nat} (stream : List Event)
    (h : mp.pos + n ≤ mp.buf.length) (cleanUntil : Nat) (state : State) :
    Onward n mp stream
      { mp with pos := mp.pos + n, cleanUntil := cleanUntil, state := state } stream where
  length_le := Nat.le_refl _
  left_le := by
    simp only [left]
    omega
  delim_eq := rfl
  failure_eq := rfl
  unread_eq := by
    show mp.buf.drop (mp.pos + n) ++ _ = (mp.buf.drop mp.pos ++ _).drop n
    rw [List.drop_append_of_le_length (by rw [List.length_drop]; omega), List.drop_drop]
    rfl
  ending_eq := rfl

/-- The reader failed for good: nothing in its buffer leads past the failure. -/
structure Stuck (f : Failure) (mp : Multipart) : Prop where
  failure : mp.failure = some f
  state : mp.state ≠ .closed
  inPart : mp.state = .inPart → mp.delim ≠ [] ∧ mp.buf.length < mp.pos + mp.delim.length
  after : mp.state = .afterDelimiter → 2 ≤ mp.buf.length - mp.pos →
    ¬ dashes <+: mp.buf.drop mp.pos

/-- What one poll of a part can do. -/
inductive PartSpec (out : Nat) (mp : Multipart) (stream : List Event) :
    Poll (Except Failure (List UInt8)) → Multipart → List Event → Prop where
  | pending {mp' stream'} : stream'.length < stream.length → mp'.state = .inPart →
      Searched mp' stream' → Onward 0 mp stream mp' stream' →
      PartSpec out mp stream .pending mp' stream'
  | bytes {bytes mp' stream'} : bytes ≠ [] → bytes.length ≤ out → mp'.state = .inPart →
      Searched mp' stream' → Onward bytes.length mp stream mp' stream' →
      bytes = (mp.unread stream).take bytes.length →
      (∀ j < bytes.length, ¬ StartsAt mp.delim (mp.unread stream) j) →
      PartSpec out mp stream (.ready (.ok bytes)) mp' stream'
  | atEnd {mp' stream'} : mp'.state = .afterDelimiter →
      FirstAt mp.delim (mp.unread stream) 0 → Onward mp.delim.length mp stream mp' stream' →
      PartSpec out mp stream (.ready (.ok [])) mp' stream'
  | failed {f mp' stream'} : Stuck f mp' → mp'.state = .inPart → mp.delim ≠ [] →
      (∀ i, ¬ StartsAt mp.delim (mp.unread stream) i) → f = (mp.ending stream).getD .truncated →
      PartSpec out mp stream (.ready (.error f)) mp' stream'

/-- A poll that waited for frames is one from where it waited. -/
theorem PartSpec.of_onward {out : Nat} {mp mp₁ mp' : Multipart} {stream stream₁ stream' : List Event}
    {r : Poll (Except Failure (List UInt8))} (h : Onward 0 mp stream mp₁ stream₁)
    (hspec : PartSpec out mp₁ stream₁ r mp' stream') : PartSpec out mp stream r mp' stream' := by
  have hunread : mp₁.unread stream₁ = mp.unread stream := h.unread_eq
  cases hspec with
  | pending hshorter hstate hsearched honward =>
    exact .pending (Nat.lt_of_lt_of_le hshorter h.length_le) hstate hsearched (h.trans honward)
  | bytes hne hout hstate hsearched honward hbytes hclean =>
    have hon := h.trans honward
    rw [Nat.zero_add] at hon
    rw [hunread] at hbytes hclean
    rw [h.delim_eq] at hclean
    exact .bytes hne hout hstate hsearched hon hbytes hclean
  | atEnd hstate hfirst honward =>
    have hon := h.trans honward
    rw [Nat.zero_add, h.delim_eq] at hon
    rw [hunread, h.delim_eq] at hfirst
    exact .atEnd hstate hfirst hon
  | failed hstuck hstate hne hnone hf =>
    rw [hunread, h.delim_eq] at hnone
    rw [h.delim_eq] at hne
    rw [h.ending_eq] at hf
    exact .failed hstuck hstate hne hnone hf

/-- What is clean is copied out, as far as it fits. -/
theorem Searched.pass {mp : Multipart} {stream : List Event} {n : Nat} (h : Searched mp stream)
    (hn : mp.pos + n ≤ mp.cleanUntil) :
    Searched { mp with pos := mp.pos + n } stream := by
  have hclean := h.clean_le
  have hon := onward_pass stream (Nat.le_trans hn h.clean_le) mp.cleanUntil mp.state
  refine ⟨h.delim_ne, hn, hclean, ?_⟩
  intro j hj hstarts
  have hunread := hon.unread_eq
  dsimp only at hj hstarts
  rw [hunread, List.startsAt_drop] at hstarts
  exact h.clean (n + j) (by omega) hstarts

theorem partStep_copies {out : Nat} {mp : Multipart} {stream : List Event} (hout : 0 < out)
    (hstate : mp.state = .inPart) (h : Searched mp stream) (havail : 0 < mp.cleanUntil - mp.pos) :
    PartSpec out mp stream
      (.ready (.ok ((mp.buf.drop mp.pos).take (min (mp.cleanUntil - mp.pos) out))))
      { mp with pos := mp.pos + min (mp.cleanUntil - mp.pos) out } stream := by
  have hle := h.clean_le
  have hlen : ((mp.buf.drop mp.pos).take (min (mp.cleanUntil - mp.pos) out)).length =
      min (mp.cleanUntil - mp.pos) out := by
    rw [List.length_take, List.length_drop]
    omega
  refine .bytes ?_ ?_ hstate (h.pass (by omega)) ?_ ?_ ?_
  · apply List.ne_nil_of_length_pos
    rw [hlen]
    omega
  · rw [hlen]
    omega
  · rw [hlen]
    exact onward_pass stream (by omega) mp.cleanUntil mp.state
  · rw [hlen, unread, List.take_append_of_le_length (by rw [List.length_drop]; omega)]
  · rw [hlen]
    intro j hj
    exact h.clean j (by omega)

theorem partStep_some {out : Nat} {mp mp' : Multipart} {stream : List Event}
    {r : Except Failure (List UInt8)} (hout : 0 < out) (hstate : mp.state = .inPart)
    (h : Searched mp stream) (hstep : partStep out mp = (mp', some r)) :
    PartSpec out mp stream (.ready r) mp' stream := by
  have hpos := h.pos_le
  cases hnext : mp.nextDelim with
  | mk found mp₁ =>
    rw [partStep, hnext] at hstep
    dsimp only at hstep
    cases found with
    | some i =>
      obtain ⟨rfl, hle, hfit, hfirst⟩ := nextDelim_some h hnext
      dsimp only at hstep
      split at hstep
      · next hat =>
        cases Option.some.inj hat
        cases hstep
        rw [Nat.sub_self] at hfirst
        exact .atEnd rfl hfirst (onward_pass stream hfit _ _)
      · next hat =>
        have hlt : mp.pos < i := Nat.lt_of_le_of_ne hle fun heq => hat (congrArg some heq.symm)
        rw [if_pos (by simp only [Option.getD_some]; omega)] at hstep
        cases hstep
        have hsearched : Searched { mp with cleanUntil := i } stream :=
          ⟨h.delim_ne, hle, Nat.le_trans (Nat.le_add_right _ _) hfit, hfirst.clean⟩
        have hcopies := partStep_copies hout (by exact hstate) hsearched (Nat.sub_pos_of_lt hlt)
        exact hcopies.of_onward
          (onward_pass (n := 0) stream (Nat.le_trans hpos h.clean_le) i mp.state)
    | none =>
      obtain ⟨hmp₁, hsearched⟩ := nextDelim_none h hnext
      have hon := onward_pass (n := 0) stream (Nat.le_trans hpos h.clean_le) mp₁.cleanUntil mp.state
      have hstate₁ : mp₁.state = .inPart := by rw [hmp₁]; exact hstate
      have hon₁ : Onward 0 mp stream mp₁ stream := by
        rw [hmp₁] at hon ⊢
        exact hon
      rw [if_neg (by rintro ⟨⟩)] at hstep
      split at hstep
      · next havail =>
        cases hstep
        exact (partStep_copies hout hstate₁ hsearched havail).of_onward hon₁
      · cases hstep

/-- More bytes are needed where fewer than a delimiter are left. -/
theorem partStep_none {out : Nat} {mp mp' : Multipart} {stream : List Event}
    (h : Searched mp stream) (hstep : partStep out mp = (mp', none)) :
    mp'.state = mp.state ∧ Searched mp' stream ∧ Onward 0 mp stream mp' stream ∧
      mp'.buf.length < mp'.pos + mp'.delim.length := by
  have hpos := h.pos_le
  have hne := List.length_pos_of_ne_nil h.delim_ne
  cases hnext : mp.nextDelim with
  | mk found mp₁ =>
    rw [partStep, hnext] at hstep
    dsimp only at hstep
    cases found with
    | some i =>
      obtain ⟨rfl, hle, hfit, hfirst⟩ := nextDelim_some h hnext
      dsimp only at hstep
      split at hstep
      · cases hstep
      · next hat =>
        have hlt : mp.pos < i := Nat.lt_of_le_of_ne hle fun heq => hat (congrArg some heq.symm)
        rw [if_pos (by simp only [Option.getD_some]; omega)] at hstep
        cases hstep
    | none =>
      obtain ⟨rfl, hsearched⟩ := nextDelim_none h hnext
      rw [if_neg (by rintro ⟨⟩)] at hstep
      split at hstep
      · cases hstep
      · next havail =>
        cases hstep
        refine ⟨rfl, hsearched, onward_pass (n := 0) stream (Nat.le_trans hpos h.clean_le) _ _, ?_⟩
        simp only [Option.getD_none] at havail
        dsimp only
        omega

/-- Where fewer bytes than a delimiter are left and none come, there is no delimiter. -/
theorem no_delim_of_short {mp : Multipart} {stream : List Event} {e : Option Failure}
    (hne : mp.delim ≠ []) (hshort : mp.buf.length < mp.pos + mp.delim.length)
    (hcome : mp.toCome stream = ([], e)) (i : Nat) :
    ¬ StartsAt mp.delim (mp.unread stream) i := by
  intro hstarts
  have hle := hstarts.length_le hne
  rw [unread, hcome, List.append_nil, List.length_drop] at hle
  have hpos := List.length_pos_of_ne_nil hne
  omega

theorem Stuck.of_short {f : Failure} {mp : Multipart} (hfailure : mp.failure = some f)
    (hstate : mp.state = .inPart) (hne : mp.delim ≠ [])
    (hshort : mp.buf.length < mp.pos + mp.delim.length) : Stuck f mp where
  failure := hfailure
  state := by
    rw [hstate]
    decide
  inPart := fun _ => ⟨hne, hshort⟩
  after := by
    intro hafter
    cases hstate.symm.trans hafter

theorem pollPartData_spec {out : Nat} {mp : Multipart} {stream : List Event} (hout : 0 < out)
    (hstate : mp.state = .inPart) (h : Searched mp stream) :
    PartSpec out mp stream (mp.pollPartData stream out).1 (mp.pollPartData stream out).2.1
      (mp.pollPartData stream out).2.2 := by
  rw [pollPartData, if_neg (by rw [hstate]; decide)]
  apply pollLoop_rule (Q := PartSpec out mp stream)
    (I := fun mp₁ s => mp₁.state = .inPart ∧ Searched mp₁ s ∧ Onward 0 mp stream mp₁ s)
    (J := fun mp₁ s => mp₁.state = .inPart ∧ Searched mp₁ s ∧ Onward 0 mp stream mp₁ s ∧
      mp₁.buf.length < mp₁.pos + mp₁.delim.length)
  case hdone =>
    rintro mp₁ s mp₂ r ⟨hstate₁, hsearched, hon⟩ hstep
    exact (partStep_some hout hstate₁ hsearched hstep).of_onward hon
  case hmore =>
    rintro mp₁ s mp₂ ⟨hstate₁, hsearched, hon⟩ hstep
    obtain ⟨hstate₂, hsearched₂, hon₂, hshort⟩ := partStep_none hsearched hstep
    exact ⟨hstate₂.trans hstate₁, hsearched₂, hon.trans hon₂, hshort⟩
  case hpending =>
    rintro mp₁ s mp₂ s' ⟨hstate₁, hsearched, hon, -⟩ hpoll
    obtain ⟨rfl, hshorter, hon'⟩ := pollFill_pending hpoll
    exact .pending (Nat.lt_of_lt_of_le hshorter hon.length_le) hstate₁
      (hsearched.onward hon') (hon.trans hon')
  case hfilled =>
    rintro mp₁ s mp₂ s' ⟨hstate₁, hsearched, hon, -⟩ hpoll
    have hfilled := pollFill_filled hpoll
    exact ⟨hfilled.state_eq.1.trans hstate₁, hsearched.filled hfilled, hon.trans hfilled.onward⟩
  case hended =>
    rintro mp₁ s mp₂ s' ⟨hstate₁, hsearched, hon, hshort⟩ hpoll
    obtain ⟨hfailure, hcome, rfl⟩ := pollFill_ended hpoll
    have hnone := no_delim_of_short hsearched.delim_ne hshort hcome
    rw [hon.unread_eq, hon.delim_eq, List.drop_zero] at hnone
    refine .failed (.of_short rfl hstate₁ hsearched.delim_ne hshort) hstate₁
      (hon.delim_eq ▸ hsearched.delim_ne) hnone ?_
    rw [← hon.ending_eq, ending_eq_of_toCome hcome, fail, hfailure]
  case hfailed =>
    rintro mp₁ s mp₂ s' f ⟨hstate₁, hsearched, hon, hshort⟩ hpoll
    obtain ⟨hcome, read, rfl⟩ := pollFill_failed hpoll
    have hnone := no_delim_of_short hsearched.delim_ne hshort hcome
    rw [hon.unread_eq, hon.delim_eq, List.drop_zero] at hnone
    refine .failed (.of_short rfl hstate₁ hsearched.delim_ne hshort) hstate₁
      (hon.delim_eq ▸ hsearched.delim_ne) hnone ?_
    rw [← hon.ending_eq, ending_eq_of_toCome hcome, Option.getD_some]
  case h => exact ⟨hstate, h, Onward.refl mp stream⟩

/-! ## A read -/

/-- What the reader will tell, from its state on. -/
def view (mp : Multipart) (stream : List Event) : Verdict :=
  match mp.state with
  | .inPart => fileVerdict mp.delim mp.failure (mp.unread stream) (mp.ending stream)
  | .afterDelimiter => closing mp.failure (mp.unread stream) (mp.ending stream)
  | .closed => .eof []
  | .preamble => .fails (mp.failure.getD (.malformed "no part is open"))

theorem Onward.view_eq {mp mp' : Multipart} {stream stream' : List Event}
    (h : Onward 0 mp stream mp' stream') (hstate : mp'.state = mp.state) :
    mp'.view stream' = mp.view stream := by
  have hunread : mp'.unread stream' = mp.unread stream := h.unread_eq
  rw [view, view, hstate, h.delim_eq, h.failure_eq, hunread, h.ending_eq]

/-- What holds of a reader whose part was opened. -/
def Good (mp : Multipart) (stream : List Event) : Prop :=
  mp.state = .inPart → Searched mp stream

/-- What one read of the file can do. -/
inductive ReadSpec (out : Nat) (mp : Multipart) (stream : List Event) :
    Poll (Except Failure (List UInt8)) → Multipart → List Event → Prop where
  | pending {mp' stream'} : stream'.length < stream.length → mp'.left stream' ≤ mp.left stream →
      Good mp' stream' → mp'.view stream' = mp.view stream →
      ReadSpec out mp stream .pending mp' stream'
  | bytes {bytes mp' stream'} : bytes ≠ [] → bytes.length ≤ out → stream'.length ≤ stream.length →
      mp'.left stream' + bytes.length ≤ mp.left stream → Good mp' stream' →
      mp.view stream = (mp'.view stream').prepend bytes →
      ReadSpec out mp stream (.ready (.ok bytes)) mp' stream'
  | eof {mp' stream'} : mp'.state = .closed → mp.view stream = .eof [] →
      ReadSpec out mp stream (.ready (.ok [])) mp' stream'
  | failed {f mp' stream'} : Stuck f mp' → mp.view stream = .fails f →
      ReadSpec out mp stream (.ready (.error f)) mp' stream'

/-- A read goes on from where the part's delimiter was passed. -/
theorem ReadSpec.of_onward {out n : Nat} {mp mp₁ mp' : Multipart} {stream stream₁ stream' : List Event}
    {r : Poll (Except Failure (List UInt8))} (h : Onward n mp stream mp₁ stream₁)
    (hview : mp₁.view stream₁ = mp.view stream)
    (hspec : ReadSpec out mp₁ stream₁ r mp' stream') : ReadSpec out mp stream r mp' stream' := by
  have hleft := h.left_le
  cases hspec with
  | pending hshorter hle hgood hsame =>
    exact .pending (Nat.lt_of_lt_of_le hshorter h.length_le) (by omega) hgood (hsame.trans hview)
  | bytes hne hout hlength hle hgood hprepend =>
    exact .bytes hne hout (Nat.le_trans hlength h.length_le) (by omega) hgood
      (hview.symm.trans hprepend)
  | eof hclosed heof => exact .eof hclosed (hview.symm.trans heof)
  | failed hstuck hfails => exact .failed hstuck (hview.symm.trans hfails)

/-! ### Behind the file -/

/-- Where two bytes are missing, the verdict is what the bytes end with. -/
theorem view_of_short {mp : Multipart} {stream : List Event} (hstate : mp.state = .afterDelimiter)
    (hshort : ¬ 2 ≤ mp.buf.length - mp.pos) {ending : Option Failure}
    (hcome : mp.toCome stream = ([], ending)) :
    mp.view stream = .fails (ending.getD .truncated) := by
  have hlen : (mp.unread stream).length < 2 := by
    rw [unread, hcome, List.append_nil, List.length_drop]
    omega
  rw [view, hstate]
  dsimp only
  rw [closing, if_pos hlen, ending_eq_of_toCome hcome]

/-- The first two bytes are in the buffer. -/
theorem dashes_unread_iff {mp : Multipart} {stream : List Event}
    (h : 2 ≤ mp.buf.length - mp.pos) :
    dashes <+: mp.unread stream ↔ dashes <+: mp.buf.drop mp.pos := by
  rw [unread]
  constructor
  · intro hdashes
    apply List.prefix_of_prefix_length_le hdashes (List.prefix_append _ _)
    rw [List.length_drop]
    exact h
  · exact fun hdashes => hdashes.trans (List.prefix_append _ _)

theorem view_of_long {mp : Multipart} {stream : List Event} (hstate : mp.state = .afterDelimiter)
    (hlong : 2 ≤ mp.buf.length - mp.pos) :
    mp.view stream = if dashes <+: mp.buf.drop mp.pos then .eof []
      else .fails (mp.failure.getD .fieldAfterFile) := by
  have hlen : ¬ (mp.unread stream).length < 2 := by
    rw [unread, List.length_append, List.length_drop]
    omega
  rw [view, hstate]
  dsimp only
  rw [closing, if_neg hlen]
  simp only [dashes_unread_iff hlong]

/-- A failure where two bytes are missing. -/
theorem Stuck.of_few {f : Failure} {mp : Multipart} (hfailure : mp.failure = some f)
    (hstate : mp.state = .afterDelimiter) (hshort : ¬ 2 ≤ mp.buf.length - mp.pos) : Stuck f mp where
  failure := hfailure
  state := by
    rw [hstate]
    decide
  inPart := by
    intro hin
    cases hstate.symm.trans hin
  after := fun _ hlong => absurd hlong hshort

theorem pollClose_spec (out : Nat) {mp : Multipart} {stream : List Event}
    (hstate : mp.state = .afterDelimiter) :
    ReadSpec out mp stream (mp.pollClose stream).1 (mp.pollClose stream).2.1
      (mp.pollClose stream).2.2 := by
  apply pollLoop_rule (Q := ReadSpec out mp stream)
    (I := fun mp₁ s => mp₁.state = .afterDelimiter ∧ Onward 0 mp stream mp₁ s)
    (J := fun mp₁ s => mp₁.state = .afterDelimiter ∧ Onward 0 mp stream mp₁ s ∧
      ¬ 2 ≤ mp₁.buf.length - mp₁.pos)
  case hdone =>
    intro mp₁ s mp₂ r ⟨hstate₁, hon⟩ hstep
    have hview := hon.view_eq (hstate₁.trans hstate.symm)
    rw [closeStep] at hstep
    split at hstep
    · next hlong =>
      rw [view_of_long hstate₁ hlong] at hview
      split at hstep
      · next hdashes =>
        cases hstep
        exact .eof rfl (by rw [← hview, if_pos hdashes])
      · next hdashes =>
        cases hstep
        refine .failed ⟨rfl, ?_, ?_, fun _ _ => hdashes⟩ (by rw [← hview, if_neg hdashes])
        · show mp₁.state ≠ .closed
          rw [hstate₁]
          decide
        · intro hin
          cases hstate₁.symm.trans hin
    · cases hstep
  case hmore =>
    intro mp₁ s mp₂ ⟨hstate₁, hon⟩ hstep
    rw [closeStep] at hstep
    split at hstep
    · split at hstep <;> cases hstep
    · next hshort =>
      cases hstep
      exact ⟨hstate₁, hon, hshort⟩
  case hpending =>
    intro mp₁ s mp₂ s' ⟨hstate₁, hon, _⟩ hpoll
    obtain ⟨rfl, hshorter, hon'⟩ := pollFill_pending hpoll
    have hall := hon.trans hon'
    refine .pending (Nat.lt_of_lt_of_le hshorter hon.length_le) hall.left_le ?_
      (hall.view_eq (hstate₁.trans hstate.symm))
    intro hin
    cases hstate₁.symm.trans hin
  case hfilled =>
    intro mp₁ s mp₂ s' ⟨hstate₁, hon, _⟩ hpoll
    have hfilled := pollFill_filled hpoll
    exact ⟨hfilled.state_eq.1.trans hstate₁, hon.trans hfilled.onward⟩
  case hended =>
    intro mp₁ s mp₂ s' ⟨hstate₁, hon, hshort⟩ hpoll
    obtain ⟨hfailure, hcome, rfl⟩ := pollFill_ended hpoll
    have hview := hon.view_eq (hstate₁.trans hstate.symm)
    rw [view_of_short hstate₁ hshort hcome] at hview
    have htruncated : (fail { mp₁ with ended := true } .truncated).1 = .truncated := by
      rw [fail, hfailure]
      rfl
    rw [htruncated]
    exact .failed (.of_few (congrArg some htruncated) hstate₁ hshort) hview.symm
  case hfailed =>
    intro mp₁ s mp₂ s' f ⟨hstate₁, hon, hshort⟩ hpoll
    obtain ⟨hcome, read, rfl⟩ := pollFill_failed hpoll
    have hview := hon.view_eq (hstate₁.trans hstate.symm)
    rw [view_of_short hstate₁ hshort hcome] at hview
    exact .failed (.of_few rfl hstate₁ hshort) hview.symm
  case h => exact ⟨hstate, Onward.refl mp stream⟩

/-! ### A read, whole -/

/-- A poll of the part that is ready with nothing is at the part's end. -/
theorem pollFile_spec {out : Nat} {mp : Multipart} {stream : List Event} (hout : 0 < out)
    (hgood : Good mp stream) :
    ReadSpec out mp stream (mp.pollFile stream out).1 (mp.pollFile stream out).2.1
      (mp.pollFile stream out).2.2 := by
  rw [pollFile]
  cases hstate : mp.state with
  | closed =>
    refine .eof hstate ?_
    rw [view, hstate]
  | preamble =>
    refine .failed ⟨rfl, ?_, ?_, ?_⟩ ?_
    · show mp.state ≠ .closed
      rw [hstate]
      decide
    · intro hin
      cases hstate.symm.trans hin
    · intro hafter
      cases hstate.symm.trans hafter
    · rw [view, hstate]
      rfl
  | afterDelimiter => exact pollClose_spec out hstate
  | inPart =>
    have hsearched := hgood hstate
    have hview : mp.view stream =
        fileVerdict mp.delim mp.failure (mp.unread stream) (mp.ending stream) := by
      rw [view, hstate]
    have hspec := pollPartData_spec hout hstate hsearched
    generalize mp.pollPartData stream out = p at hspec
    obtain ⟨r, mp', stream'⟩ := p
    cases hspec with
    | pending hshorter hstate' hsearched' hon =>
      exact .pending hshorter hon.left_le (fun _ => hsearched')
        (hon.view_eq (hstate'.trans hstate.symm))
    | @bytes bytes _ _ hne hlen hstate' hsearched' hon hbytes hclean =>
      have hsplit : mp.view stream = (mp'.view stream').prepend bytes := by
        rw [hview, fileVerdict_drop hsearched.delim_ne hclean, ← hbytes, view, hstate']
        dsimp only
        rw [hon.delim_eq, hon.failure_eq, hon.unread_eq, hon.ending_eq]
      cases bytes with
      | nil => exact absurd rfl hne
      | cons b bytes =>
        exact .bytes hne hlen hon.length_le hon.left_le (fun _ => hsearched') hsplit
    | atEnd hstate' hfirst hon =>
      -- the part ends here, and the body has to close behind it
      have hclosing : mp'.view stream' = mp.view stream := by
        rw [hview, fileVerdict_of_firstAt hsearched.delim_ne hfirst, view, hstate',
          List.take_zero, Verdict.prepend_nil, Nat.zero_add]
        dsimp only
        rw [hon.failure_eq, hon.unread_eq, hon.ending_eq]
      exact (pollClose_spec out hstate').of_onward hon hclosing
    | failed hstuck _ hne hnone hf =>
      refine .failed hstuck ?_
      rw [hview, fileVerdict_of_none hne hnone, ← hf]

/-! ## Failures stay -/

theorem pollFill_of_failure {mp : Multipart} {f : Failure} (h : mp.failure = some f)
    (stream : List Event) : mp.pollFill stream = (.ready (.error f), mp, stream) := by
  unfold pollFill
  rw [h]

theorem fill_of_failure {mp : Multipart} {f : Failure} (h : mp.failure = some f)
    (stream : List Event) : mp.fill stream = (.error f, mp, stream) := by
  have hpoll := pollFill_of_failure h stream
  rw [fill]
  split
  · next heq => cases hpoll.symm.trans heq
  · next heq =>
    cases hpoll.symm.trans heq
    rfl

theorem pollLoop_of_some {α : Type} {step : Multipart → Multipart × Option (Except Failure α)}
    {atEnd : State → Failure} {mp mp' : Multipart} {stream : List Event} {r : Except Failure α}
    (hstep : step mp = (mp', some r)) :
    mp.pollLoop step atEnd stream = (.ready r, mp', stream) := by
  rw [pollLoop]
  split
  · next heq =>
    cases hstep.symm.trans heq
    rfl
  · next heq => cases hstep.symm.trans heq

theorem pollLoop_of_failure {α : Type} {step : Multipart → Multipart × Option (Except Failure α)}
    {atEnd : State → Failure} {mp mp' : Multipart} {stream : List Event} {f : Failure}
    (hstep : step mp = (mp', none)) (hfailure : mp'.failure = some f) :
    mp.pollLoop step atEnd stream = (.ready (.error f), mp', stream) := by
  have hpoll := pollFill_of_failure hfailure stream
  rw [pollLoop]
  split
  · next heq => cases hstep.symm.trans heq
  · next heq =>
    cases hstep.symm.trans heq
    split
    · next hpoll' => cases hpoll.symm.trans hpoll'
    · next hpoll' => cases hpoll.symm.trans hpoll'
    · next hpoll' => cases hpoll.symm.trans hpoll'
    · next hpoll' =>
      cases hpoll.symm.trans hpoll'
      rfl

/-- Nothing is found where fewer bytes than a delimiter are left. -/
theorem find_of_short {mp : Multipart} {start : Nat} (hne : mp.delim ≠ []) (hstart : mp.pos ≤ start)
    (hshort : mp.buf.length < mp.pos + mp.delim.length) : find mp.buf mp.delim start = none := by
  cases hfind : find mp.buf mp.delim start with
  | none => rfl
  | some i =>
    obtain ⟨hle, hstarts, -⟩ := (find_spec hne start).1 i hfind
    have hfit := hstarts.length_le hne
    omega

/-- A reader that failed answers every read with its failure. -/
theorem Stuck.pollFile {f : Failure} {mp : Multipart} (h : Stuck f mp) (stream : List Event)
    (out : Nat) :
    ∃ mp', mp.pollFile stream out = (.ready (.error f), mp', stream) ∧ Stuck f mp' := by
  have hsame : { mp with failure := some f } = mp := by rw [← h.failure]
  have hfail (g : Failure) : mp.fail g = (f, mp) := by
    rw [fail, h.failure, Option.getD_some, hsame]
  rw [Multipart.pollFile]
  cases hstate : mp.state with
  | closed => exact absurd hstate h.state
  | preamble =>
    refine ⟨mp, ?_, h⟩
    dsimp only
    rw [hfail]
  | afterDelimiter =>
    refine ⟨mp, ?_, h⟩
    dsimp only [pollClose]
    by_cases hlong : 2 ≤ mp.buf.length - mp.pos
    · have hstep : closeStep mp = (mp, some (.error f)) := by
        rw [closeStep, if_pos hlong, if_neg (h.after hstate hlong), failStep, hfail]
      exact pollLoop_of_some hstep
    · have hstep : closeStep mp = (mp, none) := by rw [closeStep, if_neg hlong]
      exact pollLoop_of_failure hstep h.failure
  | inPart =>
    obtain ⟨hne, hshort⟩ := h.inPart hstate
    have hpos := List.length_pos_of_ne_nil hne
    have hmax : max (mp.buf.length - (mp.delim.length - 1)) mp.pos = mp.pos := by omega
    have hstep : partStep out mp = ({ mp with cleanUntil := mp.pos }, none) := by
      rw [partStep, nextDelim, find_of_short hne (Nat.le_max_right _ _) hshort, hmax]
      dsimp only
      rw [if_neg (by rintro ⟨⟩), if_neg (by rw [Option.getD_none, Nat.sub_self]; decide)]
    refine ⟨{ mp with cleanUntil := mp.pos }, ?_, .of_short h.failure hstate hne hshort⟩
    dsimp only [pollPartData]
    rw [if_neg (by rw [hstate]; decide), pollLoop_of_failure hstep h.failure]

/-! ## A peek -/

theorem fillLoop_of_some {α : Type} {step : Multipart → Multipart × Option (Except Failure α)}
    {atEnd : State → Failure} {mp mp' : Multipart} {stream : List Event} {r : Except Failure α}
    (hstep : step mp = (mp', some r)) : mp.fillLoop step atEnd stream = (r, mp', stream) := by
  rw [fillLoop]
  split
  · next heq =>
    cases hstep.symm.trans heq
    rfl
  · next heq => cases hstep.symm.trans heq

theorem fillLoop_of_failure {α : Type} {step : Multipart → Multipart × Option (Except Failure α)}
    {atEnd : State → Failure} {mp mp' : Multipart} {stream : List Event} {f : Failure}
    (hstep : step mp = (mp', none)) (hfailure : mp'.failure = some f) :
    mp.fillLoop step atEnd stream = (.error f, mp', stream) := by
  have hfill := fill_of_failure hfailure stream
  rw [fillLoop]
  split
  · next heq => cases hstep.symm.trans heq
  · next heq =>
    cases hstep.symm.trans heq
    split
    · next hfill' => cases hfill.symm.trans hfill'
    · next hfill' => cases hfill.symm.trans hfill'
    · next hfill' =>
      cases hfill.symm.trans hfill'
      rfl

/-- A peek leaves the reader as it was, and at most says its failure. -/
theorem peekStep_fst (n : Nat) (mp : Multipart) : (peekStep n mp).1 = mp := by
  rw [peekStep]
  split
  · rfl
  split
  · rfl
  · split <;> rfl

theorem Stuck.peek {f : Failure} {mp : Multipart} (h : Stuck f mp) (stream : List Event) (n : Nat) :
    (mp.peek stream n).2 = (mp, stream) := by
  have hsame := peekStep_fst n mp
  rw [Multipart.peek]
  cases hstep : peekStep n mp with
  | mk mp' r =>
    rw [hstep] at hsame
    obtain rfl : mp' = mp := hsame
    cases r with
    | none => rw [fillLoop_of_failure hstep h.failure]
    | some r => rw [fillLoop_of_some hstep]

/-- What a peek can do. -/
structure PeekSpec (n : Nat) (mp : Multipart) (stream : List Event)
    (r : Except Failure (List UInt8)) (mp' : Multipart) (stream' : List Event) : Prop where
  length_le : stream'.length ≤ stream.length
  left_le : mp'.left stream' ≤ mp.left stream
  state_eq : mp'.state = mp.state
  good : Good mp' stream'
  view_eq : mp'.view stream' = mp.view stream
  onward : mp'.failure = none → Onward 0 mp stream mp' stream'
  shows_ : ∀ data, mp.view stream = .eof data → r = .ok (data.take n)

/-- Where there is no delimiter, the reader fails, as a reader that has failed does. -/
theorem view_of_none {mp : Multipart} {stream : List Event} (hne : mp.delim ≠ [])
    (hstate : mp.state = .inPart) (h : ∀ i, ¬ StartsAt mp.delim (mp.unread stream) i) :
    mp.view stream = .fails ((mp.ending stream).getD .truncated) := by
  rw [view, hstate]
  exact fileVerdict_of_none hne h

/-- The file's bytes, as far as a peek goes. -/
theorem eof_of_view {mp : Multipart} {stream : List Event} {data : List UInt8}
    (hne : mp.delim ≠ []) (hstate : mp.state = .inPart) (h : mp.view stream = .eof data) :
    ∃ e, FirstAt mp.delim (mp.unread stream) e ∧ data = (mp.unread stream).take e := by
  rw [view, hstate] at h
  dsimp only [fileVerdict] at h
  split at h
  · cases h
  · next e hfirst =>
    refine ⟨e, (List.firstOccurrence_eq_some_iff hne).mp hfirst, ?_⟩
    rw [closing] at h
    split at h
    · cases h
    split at h
    · cases h
      rw [List.append_nil]
    · cases h

theorem peekStep_none {n : Nat} {mp mp' : Multipart} (h : peekStep n mp = (mp', none)) :
    mp.state = .inPart ∧ find mp.buf mp.delim mp.pos = none := by
  rw [peekStep] at h
  split at h
  · cases h
  · next hstate =>
    split at h
    · cases h
    · next hfind => exact ⟨not_not.mp hstate, hfind⟩

/-- What a peek shows is what comes next in the file. -/
theorem peekStep_some {n : Nat} {mp mp' : Multipart} {stream : List Event}
    {r : Except Failure (List UInt8)} (hgood : Good mp stream)
    (h : peekStep n mp = (mp', some r)) {data : List UInt8} (hview : mp.view stream = .eof data) :
    r = .ok (data.take n) := by
  rw [peekStep] at h
  split at h
  · next hstate =>
    cases h
    have hnil : data = [] := by
      rw [view] at hview
      split at hview
      · next hin => exact absurd hin hstate
      · rw [closing] at hview
        split at hview
        · cases hview
        split at hview
        · cases hview
          rfl
        · cases hview
      · cases hview
        rfl
      · cases hview
    rw [hnil, List.take_nil]
  next hstate =>
  have hin : mp.state = .inPart := not_not.mp hstate
  have hsearched := hgood hin
  have hpos := Nat.le_trans hsearched.pos_le hsearched.clean_le
  have hne := List.length_pos_of_ne_nil hsearched.delim_ne
  obtain ⟨e, hfirst, rfl⟩ := eof_of_view hsearched.delim_ne hin hview
  rw [List.take_take]
  split at h
  · next i hfind =>
    -- the delimiter is in the buffer
    cases h
    obtain ⟨hle, hstarts, hclean⟩ := (find_spec hsearched.delim_ne _).1 i hfind
    have hfit := hstarts.length_le hsearched.delim_ne
    have he : e = i - mp.pos := by
      apply hfirst.unique
      refine ⟨?_, fun j hj hj' => ?_⟩
      · rw [startsAt_unread_iff (by omega), Nat.add_sub_cancel' hle]
        exact hstarts
      · rw [startsAt_unread_iff (by omega)] at hj'
        exact hclean (mp.pos + j) (by omega) (by omega) hj'
    have hmin : min i (mp.pos + n) - mp.pos = min n e := by omega
    rw [List.drop_take, hmin, unread,
      List.take_append_of_le_length (by rw [List.length_drop]; omega)]
  · next hfind =>
    split at h
    · next hlong =>
      cases h
      -- the delimiter starts behind what is shown
      have hnone := (find_spec hsearched.delim_ne _).2 hfind
      have hbehind : n ≤ e := by
        by_contra hlt
        have hstarts := hfirst.starts
        rw [startsAt_unread_iff (by omega)] at hstarts
        exact hnone (mp.pos + e) (by omega) hstarts
      rw [Nat.min_eq_left hbehind, unread,
        List.take_append_of_le_length (by rw [List.length_drop]; omega)]
    · cases h

theorem peek_spec (n : Nat) {mp : Multipart} {stream : List Event} (hgood : Good mp stream) :
    PeekSpec n mp stream (mp.peek stream n).1 (mp.peek stream n).2.1 (mp.peek stream n).2.2 := by
  -- a failure, where all that is to come is in the buffer and has no delimiter
  have hfailed {mp₁ mp₂ : Multipart} {s s' : List Event} {e : Option Failure}
      (hstate : mp₁.state = mp.state) (hgood₁ : Good mp₁ s) (hon : Onward 0 mp stream mp₁ s)
      (hin : mp₁.state = .inPart) (hfind : find mp₁.buf mp₁.delim mp₁.pos = none)
      (hcome : mp₁.toCome s = ([], e)) (hstate₂ : mp₂.state = mp₁.state)
      (hdelim₂ : mp₂.delim = mp₁.delim) (hbuf : mp₂.buf = mp₁.buf) (hpos : mp₂.pos = mp₁.pos)
      (hclean : mp₂.cleanUntil = mp₁.cleanUntil)
      (hfailure : mp₂.failure = some (e.getD .truncated)) (hlength : s'.length ≤ s.length)
      (hleft : mp₂.left s' ≤ mp₁.left s) :
      PeekSpec n mp stream (.error (e.getD .truncated)) mp₂ s' := by
    have hsearched := hgood₁ hin
    have hcome₂ : mp₂.toCome s' = ([], some (e.getD .truncated)) := by rw [toCome, hfailure]
    have hunread : mp₂.unread s' = mp₁.unread s := by
      rw [unread, unread, hcome, hcome₂, hbuf, hpos]
    have hnone : ∀ i, ¬ StartsAt mp₁.delim (mp₁.unread s) i := by
      intro i hstarts
      rw [unread, hcome, List.append_nil, List.startsAt_drop] at hstarts
      exact (find_spec hsearched.delim_ne _).2 hfind (mp₁.pos + i) (Nat.le_add_right _ _) hstarts
    have hview₁ : mp₁.view s = .fails (e.getD .truncated) := by
      rw [view_of_none hsearched.delim_ne hin hnone, ending_eq_of_toCome hcome]
    have hview₂ : mp₂.view s' = .fails (e.getD .truncated) := by
      rw [← hdelim₂, ← hunread] at hnone
      rw [view_of_none (hdelim₂ ▸ hsearched.delim_ne) (hstate₂.trans hin) hnone,
        ending_eq_of_toCome hcome₂, Option.getD_some]
    have hview := hon.view_eq hstate
    refine ⟨Nat.le_trans hlength hon.length_le, Nat.le_trans hleft hon.left_le,
      hstate₂.trans hstate, fun _ => ?_, ?_, fun hok => ?_, fun data hdata => ?_⟩
    · refine ⟨hdelim₂ ▸ hsearched.delim_ne, ?_, ?_, ?_⟩
      · rw [hpos, hclean]
        exact hsearched.pos_le
      · rw [hbuf, hclean]
        exact hsearched.clean_le
      · rw [hpos, hclean, hdelim₂, hunread]
        exact hsearched.clean
    · rw [hview₂, ← hview, hview₁]
    · cases hok.symm.trans hfailure
    · rw [← hview, hview₁] at hdata
      cases hdata
  apply fillLoop_rule (Q := PeekSpec n mp stream)
    (I := fun mp₁ s => mp₁.state = mp.state ∧ Good mp₁ s ∧ Onward 0 mp stream mp₁ s)
    (J := fun mp₁ s => (mp₁.state = mp.state ∧ Good mp₁ s ∧ Onward 0 mp stream mp₁ s) ∧
      mp₁.state = .inPart ∧ find mp₁.buf mp₁.delim mp₁.pos = none)
  case hdone =>
    rintro mp₁ s mp₂ r ⟨hstate, hgood₁, hon⟩ hstep
    have hsame : mp₂ = mp₁ := by
      have hfst := peekStep_fst n mp₁
      rw [hstep] at hfst
      exact hfst
    subst hsame
    refine ⟨hon.length_le, hon.left_le, hstate, hgood₁, hon.view_eq hstate, fun _ => hon, ?_⟩
    intro data hdata
    rw [← hon.view_eq hstate] at hdata
    exact peekStep_some hgood₁ hstep hdata
  case hmore =>
    intro mp₁ s mp₂ hI hstep
    have hsame : mp₂ = mp₁ := by
      have hfst := peekStep_fst n mp₁
      rw [hstep] at hfst
      exact hfst
    subst hsame
    exact ⟨hI, peekStep_none hstep⟩
  case hfilled =>
    rintro mp₁ s mp₂ s' ⟨⟨hstate, hgood₁, hon⟩, hin, -⟩ hfill
    have hfilled := fill_filled hfill
    exact ⟨hfilled.state_eq.1.trans hstate, fun _ => (hgood₁ hin).filled hfilled,
      hon.trans hfilled.onward⟩
  case hended =>
    rintro mp₁ s mp₂ s' ⟨⟨hstate, hgood₁, hon⟩, hin, hfind⟩ hfill
    have hleft := fill_left_le hfill
    obtain ⟨hfailure, hcome, rfl⟩ := fill_ended hfill
    have htruncated : (fail { mp₁ with ended := true } .truncated).1 = .truncated := by
      rw [fail, hfailure]
      rfl
    rw [htruncated]
    exact hfailed hstate hgood₁ hon hin hfind hcome rfl rfl rfl rfl rfl
      (congrArg some htruncated) hleft.1 hleft.2
  case hfailed =>
    rintro mp₁ s mp₂ s' f ⟨⟨hstate, hgood₁, hon⟩, hin, hfind⟩ hfill
    have hleft := fill_left_le hfill
    obtain ⟨hcome, read, rfl⟩ := fill_failed hfill
    exact hfailed hstate hgood₁ hon hin hfind hcome rfl rfl rfl rfl rfl rfl hleft.1 hleft.2
  case h => exact ⟨rfl, hgood, Onward.refl mp stream⟩

end CirisServer.Multipart
