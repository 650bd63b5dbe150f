import CirisServer.Spec.MultipartParts

/-!
# What every reader keeps

Whatever was called on a reader since it was made, and whatever failed: where it looks for a
delimiter, its search cache is right.

Key results:
- `Reached.sound`: the invariant of every reader that calls lead to
-/

namespace CirisServer.Multipart

open List (StartsAt FirstAt)

/-- What is called on a reader. -/
inductive ReaderOp where
  | nextPart
  | readPart (cap : Nat)
  | peek (n : Nat)
  | read (size : Nat)

def readerStep (mp : Multipart) (stream : List Event) : ReaderOp → Multipart × List Event
  | .nextPart => (mp.nextPart stream).2
  | .readPart cap => (mp.readPart stream cap).2
  | .peek n => (mp.peek stream n).2
  | .read size => (mp.pollFile stream size).2

/-- The readers that calls lead to, with what is left of the stream. -/
inductive Reached (boundary : String) (limit : Nat) (stream : List Event) :
    Multipart → List Event → Prop where
  | new : Reached boundary limit stream (new boundary limit) stream
  | step {mp s} (op : ReaderOp) : Reached boundary limit stream mp s →
      Reached boundary limit stream (mp.readerStep s op).1 (mp.readerStep s op).2

/-- The invariant. -/
structure Sound (delim : List UInt8) (mp : Multipart) (stream : List Event) : Prop where
  delim_eq : mp.delim = delim
  delim_ne : delim ≠ []
  ready : Ready mp stream

variable {delim : List UInt8} {mp mp' : Multipart} {stream stream' : List Event}

/-! ## Filling and failing -/

/-- Where nothing more comes, the cache of the buffer stays right. -/
theorem Searched.of_none (h : Searched mp stream) (hdelim : mp'.delim = mp.delim)
    (hbuf : mp'.buf = mp.buf) (hpos : mp'.pos = mp.pos) (hclean : mp'.cleanUntil = mp.cleanUntil)
    (hcome : (mp'.toCome stream').1 = []) : Searched mp' stream' := by
  refine ⟨hdelim ▸ h.delim_ne, ?_, ?_, fun j hj hstarts => ?_⟩
  · rw [hpos, hclean]
    exact h.pos_le
  · rw [hbuf, hclean]
    exact h.clean_le
  · rw [hpos, hclean] at hj
    rw [unread, hcome, List.append_nil, hbuf, hpos, hdelim] at hstarts
    exact h.clean j hj (hstarts.append (mp.toCome stream).1)

theorem Sound.of_none (h : Sound delim mp stream) (hdelim : mp'.delim = mp.delim)
    (hstate : mp'.state = mp.state) (hbuf : mp'.buf = mp.buf) (hpos : mp'.pos = mp.pos)
    (hclean : mp'.cleanUntil = mp.cleanUntil) (hcome : (mp'.toCome stream').1 = []) :
    Sound delim mp' stream' where
  delim_eq := hdelim.trans h.delim_eq
  delim_ne := h.delim_ne
  ready := by
    intro hlooks
    rw [hstate] at hlooks
    exact (h.ready hlooks).of_none hdelim hbuf hpos hclean hcome

theorem Sound.fail (h : Sound delim mp stream) (f : Failure) (s : List Event) :
    Sound delim (mp.fail f).2 s :=
  h.of_none rfl rfl rfl rfl rfl rfl

theorem Sound.filled (h : Sound delim mp stream) (hfilled : Filled mp stream mp' stream') :
    Sound delim mp' stream' where
  delim_eq := hfilled.onward.delim_eq.trans h.delim_eq
  delim_ne := h.delim_ne
  ready := by
    intro hlooks
    rw [hfilled.state_eq.1] at hlooks
    exact (h.ready hlooks).filled hfilled

theorem toCome_ended {mp : Multipart} (hfailure : mp.failure = none) (s : List Event) :
    (toCome { mp with ended := true } s).1 = [] := by
  rw [toCome, hfailure]
  rfl

theorem Sound.pollFill {r : Poll (Except Failure Bool)} (h : Sound delim mp stream)
    (hpoll : mp.pollFill stream = (r, mp', stream')) : Sound delim mp' stream' := by
  cases pollFill_spec hpoll with
  | pending _ hcome =>
    refine ⟨h.delim_eq, h.delim_ne, fun hlooks => ?_⟩
    have hsearched := h.ready hlooks
    have hunread : mp.unread stream' = mp.unread stream := by rw [unread, hcome, unread]
    exact ⟨hsearched.delim_ne, hsearched.pos_le, hsearched.clean_le, hunread ▸ hsearched.clean⟩
  | ready hspec =>
    cases hspec with
    | filled hfilled => exact h.filled hfilled
    | ended hfailure _ => exact h.of_none rfl rfl rfl rfl rfl (toCome_ended hfailure _)
    | failed => exact h.of_none rfl rfl rfl rfl rfl rfl

theorem Sound.fill {r : Except Failure Bool} (h : Sound delim mp stream)
    (hfill : mp.fill stream = (r, mp', stream')) : Sound delim mp' stream' := by
  cases fill_spec hfill with
  | filled hfilled => exact h.filled hfilled
  | ended hfailure _ => exact h.of_none rfl rfl rfl rfl rfl (toCome_ended hfailure _)
  | failed => exact h.of_none rfl rfl rfl rfl rfl rfl

/-! ## Loops -/

section Loop

variable {α : Type} {step : Multipart → Multipart × Option (Except Failure α)}

theorem Sound.of_step {o : Option (Except Failure α)} {mp₁ mp₂ : Multipart} {s : List Event}
    (hstep : ∀ mp s, Sound delim mp s → Sound delim (step mp).1 s) (h : Sound delim mp₁ s)
    (heq : step mp₁ = (mp₂, o)) : Sound delim mp₂ s := by
  have hnext := hstep mp₁ s h
  rw [heq] at hnext
  exact hnext

theorem Sound.fillLoop (h : Sound delim mp stream) (atEnd : State → Failure)
    (hstep : ∀ mp s, Sound delim mp s → Sound delim (step mp).1 s) :
    Sound delim (mp.fillLoop step atEnd stream).2.1 (mp.fillLoop step atEnd stream).2.2 := by
  apply fillLoop_rule (Q := fun _ mp₁ s => Sound delim mp₁ s) (I := fun mp₁ s => Sound delim mp₁ s)
    (J := fun mp₁ s => Sound delim mp₁ s)
  case hdone => exact fun mp₁ s mp₂ r hsound heq => hsound.of_step hstep heq
  case hmore => exact fun mp₁ s mp₂ hsound heq => hsound.of_step hstep heq
  case hfilled => exact fun mp₁ s mp₂ s' hsound hfill => hsound.fill hfill
  case hended => exact fun mp₁ s mp₂ s' hsound hfill => (hsound.fill hfill).fail _ _
  case hfailed => exact fun mp₁ s mp₂ s' f hsound hfill => hsound.fill hfill
  case h => exact h

theorem Sound.pollLoop (h : Sound delim mp stream) (atEnd : State → Failure)
    (hstep : ∀ mp s, Sound delim mp s → Sound delim (step mp).1 s) :
    Sound delim (mp.pollLoop step atEnd stream).2.1 (mp.pollLoop step atEnd stream).2.2 := by
  apply pollLoop_rule (Q := fun _ mp₁ s => Sound delim mp₁ s) (I := fun mp₁ s => Sound delim mp₁ s)
    (J := fun mp₁ s => Sound delim mp₁ s)
  case hdone => exact fun mp₁ s mp₂ r hsound heq => hsound.of_step hstep heq
  case hmore => exact fun mp₁ s mp₂ hsound heq => hsound.of_step hstep heq
  case hpending => exact fun mp₁ s mp₂ s' hsound hpoll => hsound.pollFill hpoll
  case hfilled => exact fun mp₁ s mp₂ s' hsound hpoll => hsound.pollFill hpoll
  case hended => exact fun mp₁ s mp₂ s' hsound hpoll => (hsound.pollFill hpoll).fail _ _
  case hfailed => exact fun mp₁ s mp₂ s' f hsound hpoll => hsound.pollFill hpoll
  case h => exact h

end Loop

/-! ## Steps -/

/-- Behind a delimiter, and once the body is closed, nothing is looked for. -/
theorem Sound.of_state (hdelim : mp.delim = delim) (hne : delim ≠ [])
    (hstate : mp.state = .afterDelimiter ∨ mp.state = .closed) : Sound delim mp stream := by
  refine ⟨hdelim, hne, fun hlooks => ?_⟩
  rcases hstate with hstate | hstate
  · rw [hstate] at hlooks
    rcases hlooks with hlooks | hlooks <;> cases hlooks
  · rw [hstate] at hlooks
    rcases hlooks with hlooks | hlooks <;> cases hlooks

theorem Sound.not_looking (h : Sound delim mp stream) (hdelim : mp'.delim = mp.delim)
    (hstate : mp'.state = mp.state) (hlooks : ¬ (mp.state = .preamble ∨ mp.state = .inPart)) :
    Sound delim mp' stream where
  delim_eq := hdelim.trans h.delim_eq
  delim_ne := h.delim_ne
  ready hlooks' := absurd (hstate ▸ hlooks') hlooks

/-- After a search that found nothing, what is clean may be passed. -/
theorem Sound.search (h : Sound delim mp stream) {mp₁ : Multipart} {found : Option Nat}
    (hnext : mp.nextDelim = (found, mp₁)) {n : Nat}
    (hn : n ≤ found.getD mp₁.cleanUntil - mp₁.pos) :
    Sound delim { mp₁ with pos := mp₁.pos + n } stream := by
  by_cases hlooks : mp.state = .preamble ∨ mp.state = .inPart
  · have hsearched := h.ready hlooks
    cases found with
    | none =>
      obtain ⟨rfl, hsearched₁⟩ := nextDelim_none hsearched hnext
      have hle := hsearched₁.pos_le
      dsimp only [Option.getD_none] at hn hle
      exact ⟨h.delim_eq, h.delim_ne, fun _ => hsearched₁.pass (by dsimp only; omega)⟩
    | some i =>
      obtain ⟨rfl, hle, hfit, hfirst⟩ := nextDelim_some hsearched hnext
      dsimp only [Option.getD_some] at hn
      have hsearched₁ : Searched { mp with cleanUntil := i } stream :=
        ⟨hsearched.delim_ne, hle, Nat.le_trans (Nat.le_add_right _ _) hfit, hfirst.clean⟩
      exact ⟨h.delim_eq, h.delim_ne, fun _ => hsearched₁.pass (by dsimp only; omega)⟩
  · obtain ⟨found', cleanUntil, heq⟩ := nextDelim_eq mp
    cases heq.symm.trans hnext
    exact h.not_looking rfl rfl hlooks

theorem sound_skipStep (mp : Multipart) (stream : List Event) (h : Sound delim mp stream) :
    Sound delim (skipStep mp).1 stream := by
  cases hnext : mp.nextDelim with
  | mk found mp₁ =>
    cases found with
    | some i =>
      obtain ⟨found', cleanUntil, heq⟩ := nextDelim_eq mp
      cases heq.symm.trans hnext
      rw [skipStep, hnext]
      exact .of_state h.delim_eq h.delim_ne (Or.inl rfl)
    | none =>
      have hpass := h.search hnext (Nat.le_refl _)
      rw [skipStep, hnext]
      dsimp only [Option.getD_none] at hpass ⊢
      by_cases hle : mp₁.pos ≤ mp₁.cleanUntil
      · rw [Nat.add_sub_cancel' hle] at hpass
        exact hpass
      · obtain ⟨found', cleanUntil, heq⟩ := nextDelim_eq mp
        have hplaces : mp₁.state = mp.state ∧ mp₁.delim = mp.delim := by
          cases heq.symm.trans hnext
          exact ⟨rfl, rfl⟩
        by_cases hlooks : mp.state = .preamble ∨ mp.state = .inPart
        · exact absurd (nextDelim_none (h.ready hlooks) hnext).2.pos_le hle
        · exact h.not_looking hplaces.2 hplaces.1 hlooks

theorem sound_partStep (out : Nat) (mp : Multipart) (stream : List Event)
    (h : Sound delim mp stream) : Sound delim (partStep out mp).1 stream := by
  cases hnext : mp.nextDelim with
  | mk found mp₁ =>
    have hdelim : mp₁.delim = mp.delim := by
      obtain ⟨found', cleanUntil, heq⟩ := nextDelim_eq mp
      cases heq.symm.trans hnext
      rfl
    rw [partStep, hnext]
    dsimp only
    split
    · exact .of_state (hdelim.trans h.delim_eq) h.delim_ne (Or.inl rfl)
    · split
      · exact h.search hnext (Nat.min_le_left _ _)
      · exact h.search hnext (Nat.zero_le _)

theorem sound_headStep (mp : Multipart) (stream : List Event) (h : Sound delim mp stream) :
    Sound delim (headStep mp).1 stream := by
  dsimp only [headStep]
  split
  · exact h.fail _ _
  · split
    · exact h
    · split
      · exact h.fail _ _
      · exact h

theorem sound_afterStep (mp : Multipart) (stream : List Event) (h : Sound delim mp stream) :
    Sound delim (afterStep mp).1 stream := by
  rw [afterStep]
  split
  · exact h
  · split
    · exact .of_state h.delim_eq h.delim_ne (Or.inr rfl)
    · exact h

theorem sound_closeStep (mp : Multipart) (stream : List Event) (h : Sound delim mp stream) :
    Sound delim (closeStep mp).1 stream := by
  rw [closeStep]
  split
  · split
    · exact .of_state h.delim_eq h.delim_ne (Or.inr rfl)
    · exact h.fail _ _
  · exact h

theorem sound_peekStep (n : Nat) (mp : Multipart) (stream : List Event)
    (h : Sound delim mp stream) : Sound delim (peekStep n mp).1 stream := by
  rw [peekStep_fst]
  exact h

/-! ## Calls -/

theorem Sound.partHeaders (h : Sound delim mp stream) :
    Sound delim (mp.partHeaders stream).2.1 (mp.partHeaders stream).2.2 := by
  have hloop := h.fillLoop (fun _ => .truncated) sound_headStep
  have hspec := headLoop_spec mp stream
  rw [Multipart.partHeaders]
  generalize mp.fillLoop headStep (fun _ => .truncated) stream = p at hloop hspec
  obtain ⟨r, mp', stream'⟩ := p
  cases hspec with
  | failed => exact hloop
  | found _ hfit _ _ hstop =>
    dsimp only at hloop hfit hstop ⊢
    split
    · exact hloop.fail _ _
    · split
      · exact hloop.fail _ _
      · -- the part begins behind its headers, where the cache begins as well
        refine ⟨hloop.delim_eq, h.delim_ne, fun _ => ?_⟩
        refine ⟨hloop.delim_eq ▸ h.delim_ne, Nat.le_refl _, ?_, fun j hj => ?_⟩
        · dsimp only
          omega
        · dsimp only at hj
          omega

theorem Sound.afterDelim (h : Sound delim mp stream) :
    Sound delim (mp.afterDelim stream).2.1 (mp.afterDelim stream).2.2 := by
  have hloop := h.fillLoop (fun _ => .truncated) sound_afterStep
  rw [Multipart.afterDelim]
  generalize mp.fillLoop afterStep (fun _ => .truncated) stream = p at hloop
  obtain ⟨r, mp₁, stream₁⟩ := p
  cases r with
  | error f => exact hloop
  | ok closes =>
    cases closes with
    | true => exact hloop
    | false =>
      have hpart := hloop.partHeaders
      dsimp only at hpart ⊢
      generalize mp₁.partHeaders stream₁ = p at hpart
      obtain ⟨r, mp₂, stream₂⟩ := p
      cases r with
      | error f => exact hpart
      | ok head => exact hpart

theorem Sound.nextPart (h : Sound delim mp stream) :
    Sound delim (mp.nextPart stream).2.1 (mp.nextPart stream).2.2 := by
  have hskip (hlooks : mp.state = .preamble ∨ mp.state = .inPart) :
      Sound delim (mp.nextPart stream).2.1 (mp.nextPart stream).2.2 := by
    have hsound := h.fillLoop noDelim sound_skipStep
    generalize hloop : mp.fillLoop skipStep noDelim stream = p at hsound
    obtain ⟨r, mp₁, stream₁⟩ := p
    cases r with
    | error f =>
      rw [nextPart_of_lost hlooks hloop]
      exact hsound
    | ok u =>
      rw [nextPart_of_found hlooks hloop]
      exact hsound.afterDelim
  cases hstate : mp.state with
  | closed =>
    rw [Multipart.nextPart, hstate]
    exact h
  | afterDelimiter =>
    rw [Multipart.nextPart, hstate]
    exact h.afterDelim
  | preamble => exact hskip (Or.inl hstate)
  | inPart => exact hskip (Or.inr hstate)

theorem Sound.pollPartData (h : Sound delim mp stream) (out : Nat) :
    Sound delim (mp.pollPartData stream out).2.1 (mp.pollPartData stream out).2.2 := by
  rw [Multipart.pollPartData]
  split
  · exact h
  · exact h.pollLoop _ (sound_partStep out)

theorem Sound.partData (h : Sound delim mp stream) (out : Nat) :
    Sound delim (mp.partData stream out).2.1 (mp.partData stream out).2.2 := by
  induction hn : stream.length using Nat.strong_induction_on generalizing mp stream with
  | _ n ih =>
    have hsound := h.pollPartData out
    rw [Multipart.partData]
    split
    · next hpoll =>
      rw [hpoll] at hsound
      exact ih _ (hn ▸ pollPartData_pending_lt hpoll) hsound rfl
    · next hpoll =>
      rw [hpoll] at hsound
      exact hsound

theorem Sound.readInto (h : Sound delim mp stream) (cap : Nat) (out : List UInt8) :
    Sound delim (mp.readInto stream cap out).2.1 (mp.readInto stream cap out).2.2 := by
  induction hn : mp.left stream using Nat.strong_induction_on generalizing mp stream out with
  | _ n ih =>
    have hsound := h.partData (64 * 1024)
    rw [Multipart.readInto]
    split
    · next hdata =>
      rw [hdata] at hsound
      exact hsound
    · next hdata =>
      rw [hdata] at hsound
      exact hsound
    · next b bytes mp₁ stream₁ hdata =>
      rw [hdata] at hsound
      have hleft := partData_left hdata
      rw [List.length_cons] at hleft
      split
      · exact hsound
      · exact ih (mp₁.left stream₁) (by omega) hsound _ rfl

theorem Sound.pollClose (h : Sound delim mp stream) :
    Sound delim (mp.pollClose stream).2.1 (mp.pollClose stream).2.2 :=
  h.pollLoop _ sound_closeStep

theorem Sound.pollFile (h : Sound delim mp stream) (out : Nat) :
    Sound delim (mp.pollFile stream out).2.1 (mp.pollFile stream out).2.2 := by
  rw [Multipart.pollFile]
  cases mp.state with
  | closed => exact h
  | afterDelimiter => exact h.pollClose
  | preamble => exact h.fail _ _
  | inPart =>
    have hpart := h.pollPartData out
    generalize mp.pollPartData stream out = p at hpart
    obtain ⟨r, mp₁, stream₁⟩ := p
    dsimp only at hpart ⊢
    split
    · next heq =>
      cases heq
      exact hpart.pollClose
    · exact hpart

theorem Sound.readerStep (h : Sound delim mp stream) (op : ReaderOp) :
    Sound delim (mp.readerStep stream op).1 (mp.readerStep stream op).2 := by
  cases op with
  | nextPart => exact h.nextPart
  | readPart cap => exact h.readInto cap []
  | peek n => exact h.fillLoop _ (sound_peekStep n)
  | read size => exact h.pollFile size

theorem four_le_delim (boundary : String) (limit : Nat) :
    4 ≤ (Multipart.new boundary limit).delim.length := by
  show 4 ≤ (crlf ++ dashes ++ utf8 boundary).length
  rw [List.length_append]
  exact Nat.le_add_right _ _

/-- **The invariant** of every reader that calls lead to. -/
theorem Reached.sound {boundary : String} {limit : Nat} {stream₀ : List Event}
    (h : Reached boundary limit stream₀ mp stream) :
    Sound (Multipart.new boundary limit).delim mp stream := by
  induction h with
  | new =>
    refine ⟨rfl, List.cons_ne_nil _ _, fun _ => ⟨List.cons_ne_nil _ _, Nat.le_refl 0,
      Nat.zero_le _, fun j hj => absurd hj (Nat.not_lt_zero j)⟩⟩
  | step op _ ih => exact ih.readerStep op

end CirisServer.Multipart
