import CirisServer.Spec.MultipartReach
import CirisServer.Spec.MultipartRun

/-!
# A read with no room

A read into a buffer that is full copies nothing, and `poll_file` takes the nothing for the end of
the part: it looks at the next two bytes of the file as if they followed a delimiter. The reader
stays as it is only where it waits for bytes before it has a delimiter's length of them, or where
it has failed already and the bytes at hand do not end the part.

Key results:
- `pollFile_roomless`: what a read with no room does, by the state of the reader
- `roomless_read_iff`: when it does nothing
-/

namespace CirisServer.Multipart

open List (StartsAt FirstAt)

/-! ## Waiting -/

/-- The stream is pending before `need` bytes are held. -/
def waits (need limit : Nat) : Nat → Nat → List Event → Bool
  | _, _, [] => false
  | held, _, .pending :: _ => decide (held < need)
  | _, _, .error _ :: _ => false
  | held, read, .frame bytes :: stream =>
    decide (held < need) && !decide (limit < min (read + bytes.length) u64Max) &&
      waits need limit (held + bytes.length) (min (read + bytes.length) u64Max) stream

/-- A reader that has not failed waits before it holds `need` bytes. -/
def Waits (need : Nat) (mp : Multipart) (stream : List Event) : Prop :=
  mp.failure = none ∧ mp.ended = false ∧
    waits need mp.limit (mp.buf.length - mp.pos) mp.read stream = true

variable {need : Nat} {mp mp' : Multipart} {stream stream' : List Event}

theorem waits_of_le {need held : Nat} (h : need ≤ held) (limit read : Nat) (stream : List Event) :
    waits need limit held read stream = false := by
  have hheld : decide (held < need) = false := decide_eq_false (Nat.not_lt.mpr h)
  cases stream with
  | nil => rfl
  | cons e stream =>
    cases e with
    | pending => rw [waits, hheld]
    | error text => rfl
    | frame bytes => rw [waits, hheld, Bool.false_and, Bool.false_and]

theorem not_waits_of_le (h : need ≤ mp.buf.length - mp.pos) : ¬ Waits need mp stream := by
  intro hwaits
  have htrue := hwaits.2.2
  rw [waits_of_le h] at htrue
  cases htrue

theorem waits_of_pending (hheld : mp.buf.length - mp.pos < need)
    (h : mp.pollFill stream = (.pending, mp', stream')) : Waits need mp stream := by
  obtain rfl := pollFill_waits h
  unfold pollFill at h
  split at h
  · cases h
  next hfailure =>
  split at h
  · cases h
  next hended =>
  exact ⟨hfailure, eq_false_of_ne_true hended, decide_eq_true hheld⟩

/-- What a frame brings is held. -/
theorem waits_filled_iff (hheld : mp.buf.length - mp.pos < need)
    (h : mp.pollFill stream = (.ready (.ok true), mp', stream')) :
    Waits need mp stream ↔ Waits need mp' stream' := by
  obtain ⟨bytes, rfl, hlength⟩ := pollFill_frame h
  unfold pollFill at h
  split at h
  · cases h
  next hfailure =>
  split at h
  · cases h
  next hended =>
  dsimp only at h
  split at h
  · cases h
  · next hlimit =>
    rw [compact_eq] at h
    cases h
    unfold Waits
    dsimp only at hlength ⊢
    rw [waits, hlength, decide_eq_true hheld, decide_eq_false hlimit, Bool.not_false,
      Bool.and_true, Bool.true_and]

theorem not_waits_of_ended (h : mp.pollFill stream = (.ready (.ok false), mp', stream')) :
    ¬ Waits need mp stream := by
  intro ⟨hfailure, hended, hwaits⟩
  unfold pollFill at h
  rw [hfailure] at h
  dsimp only at h
  rw [if_neg (by rw [hended]; decide)] at h
  split at h
  · cases hwaits
  · cases h
  · cases h
  · split at h <;> cases h

theorem not_waits_of_failed {f : Failure}
    (h : mp.pollFill stream = (.ready (.error f), mp', stream')) : ¬ Waits need mp stream := by
  intro ⟨hfailure, hended, hwaits⟩
  unfold pollFill at h
  rw [hfailure] at h
  dsimp only at h
  rw [if_neg (by rw [hended]; decide)] at h
  split at h
  · cases h
  · cases h
  · cases hwaits
  · split at h
    · next hlimit =>
      rw [waits, decide_eq_true hlimit, Bool.not_true, Bool.and_false, Bool.false_and] at hwaits
      cases hwaits
    · cases h

/-! ## A loop that needs bytes -/

/-- The reader is in the same state, before the same bytes. -/
structure Same (mp : Multipart) (stream : List Event) (mp' : Multipart) (stream' : List Event) :
    Prop where
  state_eq : mp'.state = mp.state
  onward : Onward 0 mp stream mp' stream'

/-- What a loop does that copies nothing and needs `need` bytes to go on: it waits for them, or
    fails, or is done with what `R` says. -/
inductive NeedSpec (need : Nat) (R : Multipart → Prop) (mp : Multipart) (stream : List Event) :
    Poll (Except Failure (List UInt8)) → Multipart → List Event → Prop where
  | pending {mp₁ stream₁} : Waits need mp stream → Same mp stream mp₁ stream₁ →
      NeedSpec need R mp stream .pending mp₁ stream₁
  | failed {f mp₁ stream₁} : ¬ Waits need mp stream → mp₁.failure ≠ none →
      NeedSpec need R mp stream (.ready (.error f)) mp₁ stream₁
  | done {mp₁ stream₁} : ¬ Waits need mp stream → R mp₁ →
      NeedSpec need R mp stream (.ready (.ok [])) mp₁ stream₁

/-- What a step does that needs `need` bytes. -/
inductive StepNeeds (need : Nat) (R : Multipart → Prop) (mp : Multipart) :
    Multipart × Option (Except Failure (List UInt8)) → Prop where
  | more (cleanUntil : Nat) : mp.buf.length - mp.pos < need →
      StepNeeds need R mp ({ mp with cleanUntil := cleanUntil }, none)
  | failed {f mp₁} : need ≤ mp.buf.length - mp.pos → mp₁.failure ≠ none →
      StepNeeds need R mp (mp₁, some (.error f))
  | done {mp₁} : need ≤ mp.buf.length - mp.pos → R mp₁ → StepNeeds need R mp (mp₁, some (.ok []))

theorem onward_cleanUntil (mp : Multipart) (stream : List Event) (cleanUntil : Nat) :
    Onward 0 mp stream { mp with cleanUntil := cleanUntil } stream :=
  ⟨Nat.le_refl _, Nat.le_refl _, rfl, rfl, rfl, rfl⟩

theorem pollLoop_needs {step : Multipart → Multipart × Option (Except Failure (List UInt8))}
    {atEnd : State → Failure} {R : Multipart → Prop} {I : Multipart → List Event → Prop}
    (hstep : ∀ mp s, I mp s → mp.failure = none → StepNeeds need R mp (step mp))
    (hmore : ∀ mp s mp', I mp s → step mp = (mp', none) → I mp' s)
    (hfilled : ∀ mp s mp' s', I mp s → Filled mp s mp' s' → I mp' s')
    (hfailure : mp.failure = none) (h : I mp stream) :
    NeedSpec need R mp stream (mp.pollLoop step atEnd stream).1
      (mp.pollLoop step atEnd stream).2.1 (mp.pollLoop step atEnd stream).2.2 := by
  apply pollLoop_rule (Q := NeedSpec need R mp stream)
    (I := fun mp₁ s => I mp₁ s ∧ Same mp stream mp₁ s ∧
      (Waits need mp stream ↔ Waits need mp₁ s))
    (J := fun mp₁ s => I mp₁ s ∧ Same mp stream mp₁ s ∧
      (Waits need mp stream ↔ Waits need mp₁ s) ∧ mp₁.buf.length - mp₁.pos < need)
  case hdone =>
    rintro mp₁ s mp₂ r ⟨hI, hsame, hwaits⟩ heq
    have hneeds := hstep mp₁ s hI (hsame.onward.failure_eq.trans hfailure)
    rw [heq] at hneeds
    cases hneeds with
    | failed hlong hfails => exact .failed (fun h => not_waits_of_le hlong (hwaits.mp h)) hfails
    | done hlong hR => exact .done (fun h => not_waits_of_le hlong (hwaits.mp h)) hR
  case hmore =>
    rintro mp₁ s mp₂ ⟨hI, hsame, hwaits⟩ heq
    have hneeds := hstep mp₁ s hI (hsame.onward.failure_eq.trans hfailure)
    have hI₂ := hmore mp₁ s mp₂ hI heq
    rw [heq] at hneeds
    cases hneeds with
    | more cleanUntil hshort =>
      exact ⟨hI₂, ⟨hsame.state_eq, hsame.onward.trans (onward_cleanUntil mp₁ s cleanUntil)⟩,
        hwaits, hshort⟩
  case hpending =>
    rintro mp₁ s mp₂ s' ⟨-, hsame, hwaits, hshort⟩ hpoll
    have hpending := waits_of_pending hshort hpoll
    obtain ⟨rfl, -, hon⟩ := pollFill_pending hpoll
    exact .pending (hwaits.mpr hpending) ⟨hsame.state_eq, hsame.onward.trans hon⟩
  case hfilled =>
    rintro mp₁ s mp₂ s' ⟨hI, hsame, hwaits, hshort⟩ hpoll
    have hfilled₁ := pollFill_filled hpoll
    exact ⟨hfilled mp₁ s mp₂ s' hI hfilled₁,
      ⟨hfilled₁.state_eq.1.trans hsame.state_eq, hsame.onward.trans hfilled₁.onward⟩,
      hwaits.trans (waits_filled_iff hshort hpoll)⟩
  case hended =>
    rintro mp₁ s mp₂ s' ⟨-, -, hwaits, -⟩ hpoll
    exact .failed (fun h => not_waits_of_ended hpoll (hwaits.mp h)) (Option.some_ne_none _)
  case hfailed =>
    rintro mp₁ s mp₂ s' f ⟨-, -, hwaits, -⟩ hpoll
    have hfails : mp₂.failure ≠ none := by
      obtain ⟨-, read, rfl⟩ := pollFill_failed hpoll
      exact Option.some_ne_none f
    exact .failed (fun h => not_waits_of_failed hpoll (hwaits.mp h)) hfails
  case h => exact ⟨h, ⟨rfl, Onward.refl mp stream⟩, Iff.rfl⟩

/-! ## Behind the part -/

theorem closeStep_needs (mp : Multipart) :
    StepNeeds 2 (fun mp' => mp'.state = .closed) mp (closeStep mp) := by
  rw [closeStep]
  split
  · next hlong =>
    split
    · exact .done hlong rfl
    · exact .failed hlong (Option.some_ne_none _)
  · next hshort => exact .more mp.cleanUntil (Nat.not_le.mp hshort)

/-- A reader that has not failed waits, or fails, or takes the body for closed. -/
theorem pollClose_needs (stream : List Event) (hfailure : mp.failure = none) :
    NeedSpec 2 (fun mp' => mp'.state = .closed) mp stream (mp.pollClose stream).1
      (mp.pollClose stream).2.1 (mp.pollClose stream).2.2 :=
  pollLoop_needs (I := fun _ _ => True) (fun mp₁ _ _ _ => closeStep_needs mp₁)
    (fun _ _ _ _ _ => trivial) (fun _ _ _ _ _ _ => trivial) hfailure trivial

/-- A reader that has failed does so again, unless the bytes close the body. -/
theorem pollClose_of_failure {f : Failure} (stream : List Event) (hfailure : mp.failure = some f) :
    mp.pollClose stream =
      if dashes <+: mp.buf.drop mp.pos then (.ready (.ok []), { mp with state := .closed }, stream)
      else (.ready (.error f), mp, stream) := by
  have hfail (g : Failure) : mp.fail g = (f, mp) := by
    have hsame : { mp with failure := some f } = mp := by rw [← hfailure]
    rw [fail, hfailure, Option.getD_some, hsame]
  by_cases hlong : 2 ≤ mp.buf.length - mp.pos
  · split
    · next hdashes =>
      have hstep : closeStep mp = ({ mp with state := .closed }, some (.ok [])) := by
        rw [closeStep, if_pos hlong, if_pos hdashes]
      exact pollLoop_of_some hstep
    · next hdashes =>
      have hstep : closeStep mp = (mp, some (.error f)) := by
        rw [closeStep, if_pos hlong, if_neg hdashes, failStep, hfail]
      exact pollLoop_of_some hstep
  · have hstep : closeStep mp = (mp, none) := by rw [closeStep, if_neg hlong]
    have hdashes : ¬ dashes <+: mp.buf.drop mp.pos := by
      intro hdashes
      have hle := hdashes.length_le
      rw [List.length_drop] at hle
      exact hlong hle
    rw [if_neg hdashes]
    exact pollLoop_of_failure hstep hfailure

theorem closeStep_state {r : Option (Except Failure (List UInt8))} (h : closeStep mp = (mp', r)) :
    mp'.state = mp.state ∨ mp'.state = .closed := by
  rw [closeStep] at h
  split at h
  · split at h
    · cases h
      exact Or.inr rfl
    · cases h
      exact Or.inl rfl
  · cases h
    exact Or.inl rfl

/-- The reader is not taken back into a part. -/
theorem pollClose_state (mp : Multipart) (stream : List Event) :
    (mp.pollClose stream).2.1.state = mp.state ∨ (mp.pollClose stream).2.1.state = .closed := by
  have hkeeps {mp₁ mp₂ : Multipart} (h : mp₁.state = mp.state ∨ mp₁.state = .closed)
      (hnext : mp₂.state = mp₁.state ∨ mp₂.state = .closed) :
      mp₂.state = mp.state ∨ mp₂.state = .closed := by
    rcases hnext with hnext | hnext
    · rw [hnext]
      exact h
    · exact Or.inr hnext
  apply pollLoop_rule (Q := fun _ mp₁ _ => mp₁.state = mp.state ∨ mp₁.state = .closed)
    (I := fun mp₁ _ => mp₁.state = mp.state ∨ mp₁.state = .closed)
    (J := fun mp₁ _ => mp₁.state = mp.state ∨ mp₁.state = .closed)
  case hdone => exact fun mp₁ _ mp₂ r h heq => hkeeps h (closeStep_state heq)
  case hmore => exact fun mp₁ _ mp₂ h heq => hkeeps h (closeStep_state heq)
  case hpending =>
    intro mp₁ _ mp₂ _ h hpoll
    obtain ⟨rfl, -⟩ := pollFill_pending hpoll
    exact h
  case hfilled =>
    exact fun mp₁ _ mp₂ _ h hpoll => hkeeps h (Or.inl (pollFill_filled hpoll).state_eq.1)
  case hended =>
    intro mp₁ _ mp₂ _ h hpoll
    obtain ⟨-, -, rfl⟩ := pollFill_ended hpoll
    exact h
  case hfailed =>
    intro mp₁ _ mp₂ _ f h hpoll
    obtain ⟨-, read, rfl⟩ := pollFill_failed hpoll
    exact h
  case h => exact Or.inl rfl

/-! ## In the part -/

/-- Less than a delimiter is held: nothing is decided. -/
theorem partStep_short (hne : mp.delim ≠ []) (h : mp.buf.length - mp.pos < mp.delim.length) :
    partStep 0 mp = ({ mp with
      cleanUntil := max (mp.buf.length - (mp.delim.length - 1)) mp.pos }, none) := by
  have hpos := List.length_pos_of_ne_nil hne
  rw [partStep, nextDelim, find_of_short hne (Nat.le_max_right _ _) (by omega)]
  dsimp only
  rw [if_neg (by rintro ⟨⟩), if_neg (by rw [Option.getD_none]; omega)]

/-- Otherwise the step is done, at the end of the part or without a byte. -/
theorem partStep_long (h : Searched mp stream)
    (hlong : mp.delim.length ≤ mp.buf.length - mp.pos) :
    (mp.delim <+: mp.buf.drop mp.pos ∧
      ∃ mp', partStep 0 mp = (mp', some (.ok [])) ∧ mp'.state = .afterDelimiter) ∨
    (¬ mp.delim <+: mp.buf.drop mp.pos ∧
      ∃ c, partStep 0 mp = ({ mp with cleanUntil := c }, some (.ok []))) := by
  have hpos := List.length_pos_of_ne_nil h.delim_ne
  have hstarts : StartsAt mp.delim (mp.unread stream) 0 ↔ mp.delim <+: mp.buf.drop mp.pos :=
    startsAt_unread_iff (by omega)
  cases hnext : mp.nextDelim with
  | mk found mp₁ =>
    cases found with
    | some i =>
      obtain ⟨rfl, hle, hfit, hfirst⟩ := nextDelim_some h hnext
      rw [partStep, hnext]
      by_cases hat : i = mp.pos
      · rw [hat, Nat.sub_self] at hfirst
        dsimp only
        rw [if_pos (congrArg some hat)]
        exact Or.inl ⟨hstarts.mp hfirst.starts, _, rfl, rfl⟩
      · dsimp only [Option.getD_some]
        rw [if_neg (fun heq => hat (Option.some.inj heq)), if_pos (by omega), Nat.min_zero]
        exact Or.inr ⟨fun h => hfirst.clean 0 (by omega) (hstarts.mpr h), i, rfl⟩
    | none =>
      obtain ⟨rfl, hsearched⟩ := nextDelim_none h hnext
      rw [partStep, hnext]
      dsimp only [Option.getD_none]
      rw [if_neg (by rintro ⟨⟩), if_pos (by omega), Nat.min_zero]
      refine Or.inr ⟨fun h => ?_, _, rfl⟩
      exact hsearched.clean 0 (by dsimp only; omega) (hstarts.mpr h)

/-- The loop of the part with no room: what it calls the end of the part is one, or lies before
    at least two bytes. -/
theorem pollPartData_needs (h : Searched mp stream) (hstate : mp.state = .inPart)
    (hlength : 2 ≤ mp.delim.length) (hfailure : mp.failure = none) :
    NeedSpec mp.delim.length (fun mp' => mp'.state = .afterDelimiter ∨
        mp'.failure = none ∧ 2 ≤ mp'.buf.length - mp'.pos) mp stream
      (mp.pollPartData stream 0).1 (mp.pollPartData stream 0).2.1
      (mp.pollPartData stream 0).2.2 := by
  rw [pollPartData, if_neg (by rw [hstate]; decide)]
  apply pollLoop_needs (I := fun mp₁ s => Searched mp₁ s ∧ mp₁.delim = mp.delim) _ _ _ hfailure
    ⟨h, rfl⟩
  · rintro mp₁ s ⟨hsearched, hdelim⟩ hfailure₁
    rcases Nat.lt_or_ge (mp₁.buf.length - mp₁.pos) mp.delim.length with hshort | hlong
    · rw [partStep_short hsearched.delim_ne (hdelim ▸ hshort)]
      exact .more _ hshort
    · rcases partStep_long hsearched (hdelim ▸ hlong) with ⟨-, mp₂, hstep, hafter⟩ | ⟨-, c, hstep⟩
      · rw [hstep]
        exact .done hlong (Or.inl hafter)
      · rw [hstep]
        exact .done hlong (Or.inr ⟨hfailure₁, Nat.le_trans hlength hlong⟩)
  · rintro mp₁ s mp₂ ⟨hsearched, hdelim⟩ hstep
    obtain ⟨-, hsearched₂, hon, -⟩ := partStep_none hsearched hstep
    exact ⟨hsearched₂, hon.delim_eq.trans hdelim⟩
  · rintro mp₁ s mp₂ s' ⟨hsearched, hdelim⟩ hfilled
    exact ⟨hsearched.filled hfilled, hfilled.onward.delim_eq.trans hdelim⟩

/-! ## When a read with no room does nothing -/

/-- The reader has nothing to decide: it is closed; or it waits, in the file for a delimiter's
    length of bytes and behind it for two; or it has failed, and the bytes at hand neither end the
    file nor are taken for the end of the body. -/
def Idle (mp : Multipart) (stream : List Event) : Prop :=
  match mp.state with
  | .closed => True
  | .preamble => mp.failure ≠ none
  | .afterDelimiter =>
    Waits 2 mp stream ∨ mp.failure ≠ none ∧ ¬ dashes <+: mp.buf.drop mp.pos
  | .inPart =>
    Waits mp.delim.length mp stream ∨ mp.failure ≠ none ∧
      (mp.buf.length - mp.pos < mp.delim.length ∨
        ¬ mp.delim <+: mp.buf.drop mp.pos ∧ ¬ dashes <+: mp.buf.drop mp.pos)

/-- What a poll did, when it should have done nothing just if `idle`. -/
inductive Judged (idle : Prop) (mp : Multipart) (stream : List Event) (mp₁ : Multipart)
    (stream₁ : List Event) : Prop where
  | same : idle → Same mp stream mp₁ stream₁ → Judged idle mp stream mp₁ stream₁
  | changed : ¬ idle → mp₁.state ≠ mp.state ∨ mp₁.failure ≠ mp.failure →
      Judged idle mp stream mp₁ stream₁

/-- What is needed was not there, in a reader that had not failed. -/
theorem Judged.of_not_waits {other : Prop} {s : List Event} (hfailure : mp.failure = none)
    (hwaits : ¬ Waits need mp stream)
    (hchanged : mp'.state ≠ mp.state ∨ mp'.failure ≠ none) :
    Judged (Waits need mp stream ∨ mp.failure ≠ none ∧ other) mp stream mp' s := by
  refine .changed (fun h => ?_) (hfailure ▸ hchanged)
  rcases h with h | ⟨h, -⟩
  · exact hwaits h
  · exact h hfailure

/-- A reader that has failed is judged by what is at hand. -/
theorem Judged.of_failure {f : Failure} {other : Prop} (hfailure : mp.failure = some f)
    (h : Judged other mp stream mp' stream') :
    Judged (Waits need mp stream ∨ mp.failure ≠ none ∧ other) mp stream mp' stream' := by
  have hne : mp.failure ≠ none := hfailure ▸ Option.some_ne_none f
  cases h with
  | same hother hsame => exact .same (Or.inr ⟨hne, hother⟩) hsame
  | changed hother hchanged =>
    refine .changed (fun h => ?_) hchanged
    rcases h with h | ⟨-, h⟩
    · exact hne h.1
    · exact hother h

theorem roomless_afterDelimiter (hstate : mp.state = .afterDelimiter) :
    Judged (Idle mp stream) mp stream (mp.pollFile stream 0).2.1 (mp.pollFile stream 0).2.2 := by
  have hpoll : mp.pollFile stream 0 = mp.pollClose stream := by rw [pollFile, hstate]
  have hclosed {mp₁ : Multipart} (h : mp₁.state = .closed) : mp₁.state ≠ mp.state := by
    rw [h, hstate]
    decide
  rw [hpoll, Idle, hstate]
  rcases Option.eq_none_or_eq_some mp.failure with hfailure | ⟨f, hfailure⟩
  · have hneeds := pollClose_needs stream hfailure
    generalize mp.pollClose stream = p at hneeds
    obtain ⟨r, mp₁, stream₁⟩ := p
    cases hneeds with
    | pending hwaits hsame => exact .same (Or.inl hwaits) hsame
    | failed hwaits hfails => exact .of_not_waits hfailure hwaits (Or.inr hfails)
    | done hwaits hdone => exact .of_not_waits hfailure hwaits (Or.inl (hclosed hdone))
  · refine .of_failure hfailure ?_
    rw [pollClose_of_failure stream hfailure]
    split
    · next hdashes => exact .changed (not_not.mpr hdashes) (Or.inl (hclosed rfl))
    · next hdashes => exact .same hdashes ⟨rfl, Onward.refl mp stream⟩

/-- In the part, nothing that is copied is taken for the part's end. -/
theorem roomless_inPart (h : Searched mp stream) (hstate : mp.state = .inPart)
    (hlength : 2 ≤ mp.delim.length) :
    Judged (Idle mp stream) mp stream (mp.pollFile stream 0).2.1 (mp.pollFile stream 0).2.2 := by
  have hleft {mp₁ : Multipart} {s : List Event} (h : mp₁.state = .afterDelimiter) :
      (mp₁.pollClose s).2.1.state ≠ mp.state := by
    rcases pollClose_state mp₁ s with hs | hs
    · rw [hs, h, hstate]
      decide
    · rw [hs, hstate]
      decide
  rw [pollFile, Idle, hstate]
  dsimp only
  rcases Option.eq_none_or_eq_some mp.failure with hfailure | ⟨f, hfailure⟩
  · have hneeds := pollPartData_needs h hstate hlength hfailure
    generalize mp.pollPartData stream 0 = p at hneeds
    obtain ⟨r, mp₁, stream₁⟩ := p
    cases hneeds with
    | pending hwaits hsame => exact .same (Or.inl hwaits) hsame
    | failed hwaits hfails => exact .of_not_waits hfailure hwaits (Or.inr hfails)
    | done hwaits hdone =>
      refine .of_not_waits hfailure hwaits ?_
      rcases hdone with hafter | ⟨hfailure₁, hlong⟩
      · exact Or.inl (hleft hafter)
      · -- two bytes of the file are looked at
        have hneeds := pollClose_needs stream₁ hfailure₁
        dsimp only at hneeds ⊢
        generalize mp₁.pollClose stream₁ = p at hneeds
        obtain ⟨r, mp₂, stream₂⟩ := p
        cases hneeds with
        | pending hwaits₁ => exact absurd hwaits₁ (not_waits_of_le hlong)
        | failed _ hfails => exact Or.inr hfails
        | done _ hclosed =>
          refine Or.inl ?_
          rw [hclosed, hstate]
          decide
  · refine .of_failure hfailure ?_
    rcases Nat.lt_or_ge (mp.buf.length - mp.pos) mp.delim.length with hshort | hlong
    · have hpoll : mp.pollLoop (partStep 0) (fun _ => .truncated) stream =
          (.ready (.error f), { mp with
            cleanUntil := max (mp.buf.length - (mp.delim.length - 1)) mp.pos }, stream) :=
        pollLoop_of_failure (partStep_short h.delim_ne hshort) hfailure
      rw [pollPartData, if_neg (by rw [hstate]; decide), hpoll]
      exact .same (Or.inl hshort) ⟨rfl, onward_cleanUntil mp stream _⟩
    · rw [pollPartData, if_neg (by rw [hstate]; decide)]
      rcases partStep_long h hlong with ⟨hdelim, mp₁, hstep, hafter⟩ | ⟨hdelim, c, hstep⟩
      · rw [pollLoop_of_some hstep]
        refine .changed (fun hidle => ?_) (Or.inl (hleft hafter))
        rcases hidle with hshort | ⟨hnot, -⟩
        · exact absurd hshort (Nat.not_lt.mpr hlong)
        · exact hnot hdelim
      · rw [pollLoop_of_some hstep]
        dsimp only
        have hfailed : ({ mp with cleanUntil := c } : Multipart).failure = some f := hfailure
        rw [pollClose_of_failure stream hfailed]
        split
        · next hdashes =>
          refine .changed (fun hidle => ?_) (Or.inl ?_)
          · rcases hidle with hshort | ⟨-, hnot⟩
            · exact absurd hshort (Nat.not_lt.mpr hlong)
            · exact hnot hdashes
          · show State.closed ≠ mp.state
            rw [hstate]
            decide
        · next hdashes =>
          exact .same (Or.inr ⟨hdelim, hdashes⟩) ⟨rfl, onward_cleanUntil mp stream c⟩

/-- **What a read with no room does.** -/
theorem pollFile_roomless (h : Sound mp.delim mp stream) (hlength : 2 ≤ mp.delim.length) :
    Judged (Idle mp stream) mp stream (mp.pollFile stream 0).2.1 (mp.pollFile stream 0).2.2 := by
  cases hstate : mp.state with
  | inPart => exact roomless_inPart (h.ready (Or.inr hstate)) hstate hlength
  | afterDelimiter => exact roomless_afterDelimiter hstate
  | closed =>
    rw [pollFile, Idle, hstate]
    exact .same trivial ⟨rfl, Onward.refl mp stream⟩
  | preamble =>
    rw [pollFile, Idle, hstate]
    dsimp only
    cases hfailure : mp.failure with
    | none =>
      refine .changed (fun h => h rfl) (Or.inr ?_)
      rw [hfailure]
      exact Option.some_ne_none _
    | some f =>
      have hsame : (mp.fail (.malformed "no part is open")).2 = mp := by
        rw [fail, hfailure, Option.getD_some, ← hfailure]
      rw [hsame]
      exact .same (Option.some_ne_none f) ⟨rfl, Onward.refl mp stream⟩

/-- A read with no room does nothing: no state is changed and no failure latched, and what the
    following operations tell is what they would have told without it. -/
structure NoOp (mp : Multipart) (stream : List Event) : Prop where
  state_eq : (mp.pollFile stream 0).2.1.state = mp.state
  failure_eq : (mp.pollFile stream 0).2.1.failure = mp.failure
  tells : ∀ ops : List FileOp, (∀ op ∈ ops, op.Valid) →
    Tells (mp.view stream) ops
      ((mp.pollFile stream 0).2.1.runFile (mp.pollFile stream 0).2.2 ops)

/-- **When a read with no room does nothing**, of every reader that calls lead to. -/
theorem roomless_read_iff {boundary : String} {limit : Nat} {stream₀ : List Event}
    (h : Reached boundary limit stream₀ mp stream) : NoOp mp stream ↔ Idle mp stream := by
  have hdelim : mp.delim = (new boundary limit).delim := h.sound.delim_eq
  have hsound : Sound mp.delim mp stream := by
    rw [hdelim]
    exact h.sound
  have hlength : 2 ≤ mp.delim.length := by
    rw [hdelim]
    exact Nat.le_trans (by decide) (four_le_delim boundary limit)
  have hjudged := pollFile_roomless hsound hlength
  have hafter := hsound.pollFile 0
  constructor
  · intro hnoop
    cases hjudged with
    | same hidle => exact hidle
    | changed _ hchanged =>
      rcases hchanged with hstate | hfailure
      · exact absurd hnoop.state_eq hstate
      · exact absurd hnoop.failure_eq hfailure
  · intro hidle
    cases hjudged with
    | changed hnot => exact absurd hidle hnot
    | same _ hsame =>
      refine ⟨hsame.state_eq, hsame.onward.failure_eq, fun ops hops => ?_⟩
      rw [← hsame.onward.view_eq hsame.state_eq]
      exact runFile_tells (fun hin => hafter.ready (Or.inr hin)) hops

/-- A body with the file `--ab`. -/
def dashedBody : List UInt8 :=
  utf8 "--b\r\nContent-Disposition: form-data; name=\"file\"; filename=\"f\"\r\n\r\n--ab\r\n--b--"

/-- The reader whose file is open. -/
def dashedFile : Multipart × List Event :=
  (new "b" 1000).readerStep [.frame dashedBody] .nextPart

theorem reached_dashedFile : Reached "b" 1000 [.frame dashedBody] dashedFile.1 dashedFile.2 :=
  .step .nextPart .new

theorem roomless_read_iff_dashed :
    NoOp dashedFile.1 dashedFile.2 ↔ Idle dashedFile.1 dashedFile.2 :=
  roomless_read_iff reached_dashedFile

/-- The read reports the end of the file before its first byte. -/
theorem roomless_read_closes : Reached "b" 1000 [.frame dashedBody] dashedFile.1 dashedFile.2 ∧
    dashedFile.1.state = .inPart ∧ dashedFile.1.failure = none ∧
    (dashedFile.1.pollFile dashedFile.2 0).1 = .ready (.ok []) ∧
    (dashedFile.1.pollFile dashedFile.2 0).2.1.state = .closed ∧
    ¬ NoOp dashedFile.1 dashedFile.2 := by
  have hopen : dashedFile.1.state = .inPart := by decide +kernel
  have hclosed : (dashedFile.1.pollFile dashedFile.2 0).2.1.state = .closed := by decide +kernel
  refine ⟨reached_dashedFile, hopen, by decide +kernel, by decide +kernel, hclosed, fun h => ?_⟩
  rw [h.state_eq, hopen] at hclosed
  cases hclosed

end CirisServer.Multipart
