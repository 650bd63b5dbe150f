import CirisServer.Spec.MultipartFile

/-!
# The parts of a multipart body

Behind a delimiter come its padding, a CRLF and the part's headers, up to the first empty line
(`HeadAt`). `next_part` goes on to the next delimiter and reads the headers behind it, however the
frames cut them.

Key results:
- `nextPart_spec`: what `next_part` can do
- `readPart_spec`: what `read_part` can do
-/

namespace CirisServer.Multipart

open List (StartsAt FirstAt)

/-! ## The headers of a part -/

/-- The spaces and tabs behind a delimiter. -/
def padding (text : List UInt8) : Nat := (text.takeWhile fun b => b == 32 || b == 9).length

/-- The header block behind a delimiter ends at `i`, where the empty line is. -/
structure HeadAt (text : List UInt8) (i : Nat) : Prop where
  line : (text.drop (padding text)).take 2 = crlf
  le : padding text ≤ i
  starts : StartsAt (crlf ++ crlf) text i
  clean : ∀ j, padding text ≤ j → j < i → ¬ StartsAt (crlf ++ crlf) text j

/-- What the headers say, if they are text and name the part. -/
def headOf (text : List UInt8) (i : Nat) : Option PartHead :=
  match fromUtf8 ((text.take i).drop (min (padding text + 2) i)) with
  | none => none
  | some text =>
    match parseHead text.toList with
    | (_, false) => none
    | (head, true) => some head

theorem padding_append {text : List UInt8} (h : padding text < text.length) (more : List UInt8) :
    padding (text ++ more) = padding text := by
  unfold padding at h ⊢
  rw [List.takeWhile_append, if_neg (Nat.ne_of_lt h)]

theorem padding_of_append {text more : List UInt8} (h : padding (text ++ more) < text.length) :
    padding text = padding (text ++ more) := by
  rcases Nat.lt_or_ge (padding text) text.length with hlt | hge
  · exact (padding_append hlt more).symm
  · have hall : padding text = text.length :=
      Nat.le_antisymm (List.takeWhile_prefix _).length_le hge
    unfold padding at h hall
    rw [List.takeWhile_append, if_pos hall, List.length_append] at h
    omega

theorem padding_le (text : List UInt8) : padding text ≤ text.length :=
  (List.takeWhile_prefix _).length_le

theorem HeadAt.length_le {text : List UInt8} {i : Nat} (h : HeadAt text i) :
    i + 4 ≤ text.length :=
  h.starts.length_le (by decide)

/-- A delimiter that closes the body has no headers behind it. -/
theorem HeadAt.not_dashes {text : List UInt8} {i : Nat} (h : HeadAt text i) :
    ¬ dashes <+: text := by
  rintro ⟨rest, rfl⟩
  have hpad : padding (dashes ++ rest) = 0 := by rfl
  have hline := h.line
  rw [hpad] at hline
  cases hline

theorem HeadAt.unique {text : List UInt8} {i j : Nat} (hi : HeadAt text i) (hj : HeadAt text j) :
    i = j := by
  rcases Nat.lt_trichotomy i j with hlt | heq | hgt
  · exact absurd hi.starts (hj.clean i hi.le hlt)
  · exact heq
  · exact absurd hj.starts (hi.clean j hj.le hgt)

/-- What comes behind the headers does not matter. -/
theorem headAt_append_iff {text more : List UInt8} {i : Nat} (h : i + 4 ≤ text.length) :
    HeadAt (text ++ more) i ↔ HeadAt text i := by
  have hstarts (j : Nat) (hj : j ≤ i) :
      StartsAt (crlf ++ crlf) (text ++ more) j ↔ StartsAt (crlf ++ crlf) text j :=
    List.startsAt_append_iff (Nat.le_trans (Nat.add_le_add_right hj 4) h)
  have hline (hpad : padding text ≤ i) :
      ((text ++ more).drop (padding text)).take 2 = (text.drop (padding text)).take 2 := by
    rw [List.drop_append_of_le_length (padding_le text),
      List.take_append_of_le_length (by rw [List.length_drop]; omega)]
  constructor
  · intro hhead
    have hpad : padding text = padding (text ++ more) :=
      padding_of_append (by have := hhead.le; omega)
    have hle : padding text ≤ i := hpad ▸ hhead.le
    refine ⟨?_, hle, (hstarts i (Nat.le_refl i)).mp hhead.starts, fun j hj hlt hat => ?_⟩
    · rw [← hline hle, hpad]
      exact hhead.line
    · exact hhead.clean j (hpad ▸ hj) hlt ((hstarts j (Nat.le_of_lt hlt)).mpr hat)
  · intro hhead
    have hpad : padding (text ++ more) = padding text :=
      padding_append (by have := hhead.le; omega) more
    refine ⟨?_, hpad ▸ hhead.le, (hstarts i (Nat.le_refl i)).mpr hhead.starts,
      fun j hj hlt hat => ?_⟩
    · rw [hpad, hline hhead.le]
      exact hhead.line
    · exact hhead.clean j (hpad ▸ hj) hlt ((hstarts j (Nat.le_of_lt hlt)).mp hat)

/-- Nothing is found where the buffer has no end of the headers. -/
theorem no_head_of_find {mp : Multipart}
    (h : (if mp.pos + padding (mp.buf.drop mp.pos) + 2 ≤ mp.buf.length then
      find mp.buf (crlf ++ crlf) (mp.pos + padding (mp.buf.drop mp.pos)) else none) = none)
    (i : Nat) : ¬ HeadAt (mp.buf.drop mp.pos) i := by
  intro hhead
  have hfit := hhead.length_le
  have hpad := hhead.le
  rw [List.length_drop] at hfit
  rw [if_pos (by omega)] at h
  have hstarts := hhead.starts
  rw [List.startsAt_drop] at hstarts
  exact (find_spec (by decide) _).2 h (mp.pos + i) (by omega) hstarts

theorem unread_nil (mp : Multipart) : mp.unread [] = mp.buf.drop mp.pos := by
  have hcome : (mp.toCome []).1 = [] := by
    rw [toCome]
    split
    · rfl
    · split <;> rfl
  rw [unread, hcome, List.append_nil]

/-- The loop of `part_headers` finds the end of the headers that are in the buffer. -/
theorem headStep_some {mp mp' : Multipart} {r : Except Failure (Nat × Nat)}
    (h : headStep mp = (mp', some r)) (stream : List Event) :
    (∃ i, HeadAt (mp.unread stream) i ∧ mp.pos + i + 4 ≤ mp.buf.length ∧ mp' = mp ∧
      r = .ok (mp.pos + padding (mp.unread stream) + 2, mp.pos + i)) ∨
    ∃ f, r = .error f ∧ mp'.failure = some f ∧
      ∀ i, HeadAt (mp.unread stream) i → headerCap + 1 < i + 4 ∧ stream ≠ [] := by
  have hpadding : ((mp.buf.drop mp.pos).takeWhile fun b => b == 32 || b == 9).length =
      padding (mp.buf.drop mp.pos) := rfl
  rw [headStep, hpadding] at h
  split at h
  · next hline =>
    -- the line of the delimiter is there, and goes on
    obtain ⟨hcomplete, hne⟩ := hline
    cases h
    refine Or.inr ⟨_, rfl, rfl, fun i hhead => absurd hhead.line ?_⟩
    rw [unread, padding_append (by rw [List.length_drop]; omega),
      List.drop_append_of_le_length (padding_le _),
      List.take_append_of_le_length (by simp only [List.length_drop]; omega), List.drop_drop]
    exact hne
  · next hline =>
    split at h
    · next i hfind =>
      cases h
      split at hfind
      · next hcomplete =>
        obtain ⟨hle, hstarts, hclean⟩ := (find_spec (by decide) _).1 i hfind
        have hfit : i + 4 ≤ mp.buf.length := hstarts.length_le (by decide)
        have hhead : HeadAt (mp.buf.drop mp.pos) (i - mp.pos) := by
          refine ⟨?_, by omega, ?_, fun j hj hlt hat => ?_⟩
          · rw [List.drop_drop]
            by_contra hne
            exact hline ⟨hcomplete, hne⟩
          · rw [List.startsAt_drop, Nat.add_sub_cancel' (by omega)]
            exact hstarts
          · rw [List.startsAt_drop] at hat
            exact hclean (mp.pos + j) (by omega) (by omega) hat
        have hunread : HeadAt (mp.unread stream) (i - mp.pos) :=
          (headAt_append_iff (by rw [List.length_drop]; omega)).mpr hhead
        have hpad : padding (mp.unread stream) = padding (mp.buf.drop mp.pos) :=
          padding_append (by rw [List.length_drop]; omega) _
        refine Or.inl ⟨i - mp.pos, hunread, by omega, rfl, ?_⟩
        rw [hpad, Nat.add_sub_cancel' (by omega)]
      · cases hfind
    · next hfind =>
      split at h
      · next hlong =>
        cases h
        refine Or.inr ⟨_, rfl, rfl, fun i hhead => ⟨?_, ?_⟩⟩
        · by_contra hcap
          rw [unread, headAt_append_iff (by rw [List.length_drop]; omega)] at hhead
          exact no_head_of_find hfind i hhead
        · rintro rfl
          rw [unread_nil] at hhead
          exact no_head_of_find hfind i hhead
      · cases h

theorem headStep_none {mp mp' : Multipart} (h : headStep mp = (mp', none)) :
    mp' = mp ∧ (∀ i, ¬ HeadAt (mp.buf.drop mp.pos) i) ∧ mp.buf.length - mp.pos ≤ headerCap := by
  have hpadding : ((mp.buf.drop mp.pos).takeWhile fun b => b == 32 || b == 9).length =
      padding (mp.buf.drop mp.pos) := rfl
  rw [headStep, hpadding] at h
  split at h
  · cases h
  · split at h
    · cases h
    · next hfind =>
      split at h
      · cases h
      · next hshort =>
        cases h
        exact ⟨rfl, no_head_of_find hfind, Nat.not_lt.mp hshort⟩

/-- What `part_headers` can do. -/
inductive HeadSpec (mp : Multipart) (stream : List Event) :
    Except Failure PartHead → Multipart → List Event → Prop where
  | part {i head mp' stream'} : HeadAt (mp.unread stream) i →
      headOf (mp.unread stream) i = some head → mp'.state = .inPart → Searched mp' stream' →
      Onward (i + 4) mp stream mp' stream' → HeadSpec mp stream (.ok head) mp' stream'
  | failed {f mp' stream'} : mp'.failure = some f →
      (∀ i head, HeadAt (mp.unread stream) i → headOf (mp.unread stream) i = some head →
        headerCap + 1 < i + 4 ∧ stream ≠ []) →
      HeadSpec mp stream (.error f) mp' stream'

/-- What its loop can do. -/
inductive HeadLoopSpec (mp : Multipart) (stream : List Event) :
    Except Failure (Nat × Nat) → Multipart → List Event → Prop where
  | found {i start stop mp' stream'} : HeadAt (mp.unread stream) i →
      mp'.pos + i + 4 ≤ mp'.buf.length → Onward 0 mp stream mp' stream' →
      start = mp'.pos + (padding (mp.unread stream) + 2) → stop = mp'.pos + i →
      HeadLoopSpec mp stream (.ok (start, stop)) mp' stream'
  | failed {f mp' stream'} : mp'.failure = some f →
      (∀ i, HeadAt (mp.unread stream) i → headerCap + 1 < i + 4 ∧ stream ≠ []) →
      HeadLoopSpec mp stream (.error f) mp' stream'

theorem headLoop_spec (mp : Multipart) (stream : List Event) :
    HeadLoopSpec mp stream (mp.fillLoop headStep (fun _ => .truncated) stream).1
      (mp.fillLoop headStep (fun _ => .truncated) stream).2.1
      (mp.fillLoop headStep (fun _ => .truncated) stream).2.2 := by
  apply fillLoop_rule (Q := HeadLoopSpec mp stream) (I := fun mp₁ s => Onward 0 mp stream mp₁ s)
    (J := fun mp₁ s => Onward 0 mp stream mp₁ s ∧ ∀ i, ¬ HeadAt (mp₁.buf.drop mp₁.pos) i)
  case hdone =>
    intro mp₁ s mp₂ r hon hstep
    have hunread : mp₁.unread s = mp.unread stream := hon.unread_eq
    rcases headStep_some hstep s with ⟨i, hhead, hfit, rfl, rfl⟩ | ⟨f, rfl, hfailure, hlong⟩
    · rw [hunread] at hhead ⊢
      exact .found hhead hfit hon (Nat.add_assoc ..) rfl
    · rw [hunread] at hlong
      refine .failed hfailure fun i hhead => ⟨(hlong i hhead).1, ?_⟩
      rintro rfl
      exact (hlong i hhead).2 (List.eq_nil_of_length_eq_zero (Nat.le_zero.mp hon.length_le))
  case hmore =>
    intro mp₁ s mp₂ hon hstep
    obtain ⟨rfl, hnone, -⟩ := headStep_none hstep
    exact ⟨hon, hnone⟩
  case hfilled =>
    intro mp₁ s mp₂ s' ⟨hon, _⟩ hfill
    exact hon.trans (fill_filled hfill).onward
  case hended =>
    intro mp₁ s mp₂ s' ⟨hon, hnone⟩ hfill
    obtain ⟨-, hcome, rfl⟩ := fill_ended hfill
    refine .failed rfl fun i hhead => absurd hhead ?_
    have hunread : mp₁.unread s = mp.unread stream := hon.unread_eq
    rw [← hunread, unread, hcome, List.append_nil]
    exact hnone i
  case hfailed =>
    intro mp₁ s mp₂ s' f ⟨hon, hnone⟩ hfill
    obtain ⟨hcome, read, rfl⟩ := fill_failed hfill
    refine .failed rfl fun i hhead => absurd hhead ?_
    have hunread : mp₁.unread s = mp.unread stream := hon.unread_eq
    rw [← hunread, unread, hcome, List.append_nil]
    exact hnone i
  case h => exact Onward.refl mp stream

/-- The headers lie in the buffer. -/
theorem take_drop_head {mp : Multipart} {stream : List Event} {i : Nat}
    (hfit : mp.pos + i + 4 ≤ mp.buf.length) (k : Nat) :
    (mp.buf.take (mp.pos + i)).drop (min (mp.pos + k) (mp.pos + i)) =
      ((mp.unread stream).take i).drop (min k i) := by
  have hmin : min (mp.pos + k) (mp.pos + i) = mp.pos + min k i := by omega
  rw [hmin, ← List.drop_drop, List.drop_take, Nat.add_sub_cancel_left, unread,
    List.take_append_of_le_length (by rw [List.length_drop]; omega)]

theorem partHeaders_spec {mp : Multipart} (stream : List Event) (hne : mp.delim ≠ []) :
    HeadSpec mp stream (mp.partHeaders stream).1 (mp.partHeaders stream).2.1
      (mp.partHeaders stream).2.2 := by
  have hspec := headLoop_spec mp stream
  rw [partHeaders]
  generalize mp.fillLoop headStep (fun _ => .truncated) stream = p at hspec
  obtain ⟨r, mp', stream'⟩ := p
  cases hspec with
  | failed hfailure hlong => exact .failed hfailure fun i head hhead _ => hlong i hhead
  | @found i start stop _ _ hhead hfit hon hstart hstop =>
    dsimp only at hfit hon hstart hstop ⊢
    subst hstart hstop
    have hunread : mp'.unread stream' = mp.unread stream := hon.unread_eq
    -- a block that the headers cannot be read from
    have hbad {f : Failure} {mp₂ : Multipart} (hfailure : mp₂.failure = some f)
        (hnone : headOf (mp.unread stream) i = none) :
        HeadSpec mp stream (.error f) mp₂ stream' := by
      refine .failed hfailure fun j head hj hsome => ?_
      rw [hj.unique hhead, hnone] at hsome
      cases hsome
    rw [take_drop_head hfit, hunread]
    cases htext : fromUtf8 (((mp.unread stream).take i).drop
        (min (padding (mp.unread stream) + 2) i)) with
    | none =>
      apply hbad rfl
      rw [headOf, htext]
    | some text =>
      dsimp only
      cases hparse : parseHead text.toList with
      | mk head named =>
        cases named with
        | false =>
          apply hbad rfl
          rw [headOf, htext]
          dsimp only
          rw [hparse]
        | true =>
          have hpass := onward_pass (n := i + 4) stream' (by omega) (mp'.pos + i + 4) .inPart
          have hall := hon.trans hpass
          rw [Nat.zero_add] at hall
          refine .part hhead ?_ rfl ?_ hall
          · rw [headOf, htext]
            dsimp only
            rw [hparse]
          · refine ⟨?_, Nat.le_refl _, hfit, fun j hj => ?_⟩
            · show mp'.delim ≠ []
              rw [hon.delim_eq]
              exact hne
            · dsimp only at hj
              omega

/-! ## On to the next part -/

/-- What skipping to a delimiter can do. -/
inductive SkipSpec (mp : Multipart) (stream : List Event) :
    Except Failure Unit → Multipart → List Event → Prop where
  | found {e mp' stream'} : FirstAt mp.delim (mp.unread stream) e →
      mp'.state = .afterDelimiter → Onward (e + mp.delim.length) mp stream mp' stream' →
      SkipSpec mp stream (.ok ()) mp' stream'
  | failed {f mp' stream'} : mp'.failure = some f →
      (∀ i, ¬ StartsAt mp.delim (mp.unread stream) i) → SkipSpec mp stream (.error f) mp' stream'

/-- A reader that skips: it has gone on by bytes that no delimiter starts in. -/
structure Skipping (n : Nat) (mp : Multipart) (stream : List Event) (mp₁ : Multipart)
    (s : List Event) : Prop where
  clean : ∀ j < n, ¬ StartsAt mp.delim (mp.unread stream) j
  searched : Searched mp₁ s
  onward : Onward n mp stream mp₁ s

/-- Where no delimiter starts in what comes, none starts in all that was skipped. -/
theorem Skipping.none {n : Nat} {mp mp₁ : Multipart} {stream s : List Event} {e : Option Failure}
    (h : Skipping n mp stream mp₁ s) (hshort : mp₁.buf.length < mp₁.pos + mp₁.delim.length)
    (hcome : mp₁.toCome s = ([], e)) (i : Nat) : ¬ StartsAt mp.delim (mp.unread stream) i := by
  apply List.not_startsAt_of_drop h.clean
  intro j _
  rw [← h.onward.delim_eq, ← h.onward.unread_eq]
  exact no_delim_of_short h.searched.delim_ne hshort hcome j

theorem skip_spec {mp : Multipart} {stream : List Event} (h : Searched mp stream) :
    SkipSpec mp stream (mp.fillLoop skipStep noDelim stream).1
      (mp.fillLoop skipStep noDelim stream).2.1 (mp.fillLoop skipStep noDelim stream).2.2 := by
  apply fillLoop_rule (Q := SkipSpec mp stream) (I := fun mp₁ s => ∃ n, Skipping n mp stream mp₁ s)
    (J := fun mp₁ s => (∃ n, Skipping n mp stream mp₁ s) ∧
      mp₁.buf.length < mp₁.pos + mp₁.delim.length)
  case hdone =>
    intro mp₁ s mp₂ r ⟨n, hskip⟩ hstep
    cases hnext : mp₁.nextDelim with
    | mk found mp₃ =>
      rw [skipStep, hnext] at hstep
      cases found with
      | none => cases hstep
      | some i =>
        obtain ⟨rfl, hle, hfit, hfirst⟩ := nextDelim_some hskip.searched hnext
        cases hstep
        rw [hskip.onward.delim_eq, hskip.onward.unread_eq] at hfirst
        have hfound := hfirst.of_drop hskip.clean
        have hroom : mp₁.pos + (i - mp₁.pos + mp.delim.length) ≤ mp₁.buf.length := by
          rw [← hskip.onward.delim_eq]
          omega
        have hpass := onward_pass s hroom i .afterDelimiter
        have hall := hskip.onward.trans hpass
        rw [← Nat.add_assoc] at hall
        have hplace : mp₁.pos + (i - mp₁.pos + mp.delim.length) = i + mp₁.delim.length := by
          rw [hskip.onward.delim_eq]
          omega
        rw [hplace] at hall
        exact .found hfound rfl hall
  case hmore =>
    intro mp₁ s mp₂ ⟨n, hskip⟩ hstep
    cases hnext : mp₁.nextDelim with
    | mk found mp₃ =>
      rw [skipStep, hnext] at hstep
      cases found with
      | some i => cases hstep
      | none =>
        obtain ⟨hmp₃, hsearched⟩ := nextDelim_none hskip.searched hnext
        have hpos := List.length_pos_of_ne_nil hskip.searched.delim_ne
        have hplaces : mp₃.pos = mp₁.pos ∧ mp₃.buf = mp₁.buf ∧ mp₃.delim = mp₁.delim ∧
            mp₃.cleanUntil = max (mp₁.buf.length - (mp₁.delim.length - 1)) mp₁.pos := by
          rw [hmp₃]
          exact ⟨rfl, rfl, rfl, rfl⟩
        have hle := hsearched.pos_le
        have hclean := hsearched.clean_le
        have hcache : Onward 0 mp₁ s mp₃ s := by
          have hpass := onward_pass (n := 0) s (Nat.le_trans hskip.searched.pos_le
            hskip.searched.clean_le) mp₃.cleanUntil mp₁.state
          rw [hmp₃] at hpass ⊢
          exact hpass
        have hroom : mp₃.pos + (mp₃.cleanUntil - mp₃.pos) ≤ mp₃.buf.length := by omega
        have hpass := onward_pass s hroom mp₃.cleanUntil mp₃.state
        have hplace : mp₃.pos + (mp₃.cleanUntil - mp₃.pos) = mp₃.cleanUntil := by omega
        have hsame : mp₂ = { mp₃ with pos := mp₃.pos + (mp₃.cleanUntil - mp₃.pos) } := by
          rw [hplace]
          cases hstep
          rfl
        have hall := (hskip.onward.trans hcache).trans hpass
        refine ⟨⟨n + 0 + (mp₃.cleanUntil - mp₃.pos), fun j hj => ?_, ?_, ?_⟩, ?_⟩
        · apply List.not_startsAt_of_drop hskip.clean
          intro j' hj'
          have hat := hsearched.clean j' (by omega)
          rw [hplaces.2.2.1, hcache.unread_eq, List.drop_zero, hskip.onward.delim_eq,
            hskip.onward.unread_eq] at hat
          exact hat
        · rw [hsame]
          exact hsearched.pass (by omega)
        · rw [hsame]
          exact hall
        · rw [hsame]
          show mp₃.buf.length < mp₃.pos + (mp₃.cleanUntil - mp₃.pos) + mp₃.delim.length
          rw [hplaces.2.1, hplaces.2.2.1, hplace, hplaces.2.2.2]
          omega
  case hfilled =>
    intro mp₁ s mp₂ s' ⟨⟨n, hskip⟩, _⟩ hfill
    have hfilled := fill_filled hfill
    exact ⟨n, hskip.clean, hskip.searched.filled hfilled, hskip.onward.trans hfilled.onward⟩
  case hended =>
    intro mp₁ s mp₂ s' ⟨⟨n, hskip⟩, hshort⟩ hfill
    obtain ⟨-, hcome, rfl⟩ := fill_ended hfill
    exact .failed rfl (hskip.none hshort hcome)
  case hfailed =>
    intro mp₁ s mp₂ s' f ⟨⟨n, hskip⟩, hshort⟩ hfill
    obtain ⟨hcome, read, rfl⟩ := fill_failed hfill
    exact .failed rfl (hskip.none hshort hcome)
  case h =>
    exact ⟨0, fun j hj => absurd hj (Nat.not_lt_zero j), h, Onward.refl mp stream⟩

/-- What is seen behind a delimiter. -/
inductive AfterSpec (mp : Multipart) (stream : List Event) :
    Except Failure Bool → Multipart → List Event → Prop where
  | closes {mp' stream'} : dashes <+: mp.unread stream → mp'.state = .closed →
      AfterSpec mp stream (.ok true) mp' stream'
  | opens {mp' stream'} : ¬ dashes <+: mp.unread stream → Onward 0 mp stream mp' stream' →
      AfterSpec mp stream (.ok false) mp' stream'
  | failed {f mp' stream'} : mp'.failure = some f → (mp.unread stream).length < 2 →
      AfterSpec mp stream (.error f) mp' stream'

theorem after_spec (mp : Multipart) (stream : List Event) :
    AfterSpec mp stream (mp.fillLoop afterStep (fun _ => .truncated) stream).1
      (mp.fillLoop afterStep (fun _ => .truncated) stream).2.1
      (mp.fillLoop afterStep (fun _ => .truncated) stream).2.2 := by
  have hshort {mp₁ : Multipart} {s : List Event} {e : Option Failure}
      (hon : Onward 0 mp stream mp₁ s) (hfew : mp₁.buf.length - mp₁.pos < 2)
      (hcome : mp₁.toCome s = ([], e)) : (mp.unread stream).length < 2 := by
    have hunread : mp₁.unread s = mp.unread stream := hon.unread_eq
    rw [← hunread, unread, hcome, List.append_nil, List.length_drop]
    exact hfew
  apply fillLoop_rule (Q := AfterSpec mp stream) (I := fun mp₁ s => Onward 0 mp stream mp₁ s)
    (J := fun mp₁ s => Onward 0 mp stream mp₁ s ∧ mp₁.buf.length - mp₁.pos < 2)
  case hdone =>
    intro mp₁ s mp₂ r hon hstep
    have hunread : mp₁.unread s = mp.unread stream := hon.unread_eq
    rw [afterStep] at hstep
    split at hstep
    · cases hstep
    · next hlong =>
      have hdashes : dashes <+: mp₁.unread s ↔ dashes <+: mp₁.buf.drop mp₁.pos :=
        dashes_unread_iff (Nat.not_lt.mp hlong)
      rw [hunread] at hdashes
      split at hstep
      · next hclose =>
        cases hstep
        exact .closes (hdashes.mpr hclose) rfl
      · next hopen =>
        cases hstep
        exact .opens (fun h => hopen (hdashes.mp h)) hon
  case hmore =>
    intro mp₁ s mp₂ hon hstep
    rw [afterStep] at hstep
    split at hstep
    · next hfew =>
      cases hstep
      exact ⟨hon, hfew⟩
    · split at hstep <;> cases hstep
  case hfilled =>
    rintro mp₁ s mp₂ s' ⟨hon, -⟩ hfill
    exact hon.trans (fill_filled hfill).onward
  case hended =>
    rintro mp₁ s mp₂ s' ⟨hon, hfew⟩ hfill
    obtain ⟨-, hcome, rfl⟩ := fill_ended hfill
    exact .failed rfl (hshort hon hfew hcome)
  case hfailed =>
    rintro mp₁ s mp₂ s' f ⟨hon, hfew⟩ hfill
    obtain ⟨hcome, read, rfl⟩ := fill_failed hfill
    exact .failed rfl (hshort hon hfew hcome)
  case h => exact Onward.refl mp stream

/-- The next delimiter ends `n` bytes on. -/
def Behind (mp : Multipart) (stream : List Event) (n : Nat) : Prop :=
  match mp.state with
  | .afterDelimiter => n = 0
  | .preamble | .inPart => ∃ e, FirstAt mp.delim (mp.unread stream) e ∧ n = e + mp.delim.length
  | .closed => False

/-- What `next_part` can do. -/
inductive NextSpec (mp : Multipart) (stream : List Event) :
    Except Failure (Option PartHead) → Multipart → List Event → Prop where
  | part {n i head mp' stream'} : Behind mp stream n →
      ¬ dashes <+: (mp.unread stream).drop n → HeadAt ((mp.unread stream).drop n) i →
      headOf ((mp.unread stream).drop n) i = some head → mp'.state = .inPart →
      Searched mp' stream' → Onward (n + (i + 4)) mp stream mp' stream' →
      NextSpec mp stream (.ok (some head)) mp' stream'
  | closed {mp' stream'} : mp'.state = .closed →
      (mp.state ≠ .closed → ∃ n, Behind mp stream n ∧ dashes <+: (mp.unread stream).drop n) →
      NextSpec mp stream (.ok none) mp' stream'
  | failed {f mp' stream'} : mp'.failure = some f →
      (∀ n, Behind mp stream n → ¬ dashes <+: (mp.unread stream).drop n) →
      (∀ n i head, Behind mp stream n → HeadAt ((mp.unread stream).drop n) i →
        headOf ((mp.unread stream).drop n) i = some head →
        headerCap + 1 < i + 4 ∧ stream ≠ []) →
      NextSpec mp stream (.error f) mp' stream'

theorem afterDelim_spec {mp mp₁ : Multipart} {stream stream₁ : List Event} {n : Nat}
    (hne : mp.delim ≠ []) (hbehind : Behind mp stream n)
    (hunique : ∀ m, Behind mp stream m → m = n) (hon : Onward n mp stream mp₁ stream₁) :
    NextSpec mp stream (mp₁.afterDelim stream₁).1 (mp₁.afterDelim stream₁).2.1
      (mp₁.afterDelim stream₁).2.2 := by
  have hspec := after_spec mp₁ stream₁
  rw [afterDelim]
  generalize mp₁.fillLoop afterStep (fun _ => .truncated) stream₁ = p at hspec
  obtain ⟨r, mp₂, stream₂⟩ := p
  cases hspec with
  | closes hdashes hclosed =>
    refine .closed hclosed fun _ => ⟨n, hbehind, ?_⟩
    rw [← hon.unread_eq]
    exact hdashes
  | failed hfailure hshort =>
    refine .failed hfailure (fun m hm hdashes => ?_) fun m i head hm hhead _ => ?_
    · have hle := hdashes.length_le
      rw [hunique m hm, ← hon.unread_eq] at hle
      exact absurd hshort (Nat.not_lt.mpr hle)
    · have hle := hhead.length_le
      rw [hunique m hm, ← hon.unread_eq] at hle
      omega
  | opens hdashes hsame =>
    have hon₂ := hon.trans hsame
    have hunread : mp₂.unread stream₂ = (mp.unread stream).drop n := hon₂.unread_eq
    rw [hon.unread_eq] at hdashes
    have hspec := partHeaders_spec stream₂ (show mp₂.delim ≠ [] from hon₂.delim_eq ▸ hne)
    dsimp only
    generalize mp₂.partHeaders stream₂ = p at hspec
    obtain ⟨r, mp₃, stream₃⟩ := p
    cases hspec with
    | part hhead hof hstate hsearched hpart =>
      rw [hunread] at hhead hof
      exact .part hbehind hdashes hhead hof hstate hsearched (hon₂.trans hpart)
    | failed hfailure hlong =>
      refine .failed hfailure (fun m hm => hunique m hm ▸ hdashes) fun m i head hm hhead hof => ?_
      rw [hunique m hm, ← hunread] at hhead hof
      refine ⟨(hlong i head hhead hof).1, ?_⟩
      rintro rfl
      exact (hlong i head hhead hof).2
        (List.eq_nil_of_length_eq_zero (Nat.le_zero.mp hon₂.length_le))

/-- `next_part` skips to a delimiter and goes on behind it. -/
theorem nextPart_of_found {mp mp₁ : Multipart} {stream stream₁ : List Event}
    (hlooks : mp.state = .preamble ∨ mp.state = .inPart)
    (hloop : mp.fillLoop skipStep noDelim stream = (.ok (), mp₁, stream₁)) :
    mp.nextPart stream = mp₁.afterDelim stream₁ := by
  rw [nextPart]
  rcases hlooks with hstate | hstate
  · rw [hstate, hloop]
  · rw [hstate, hloop]

theorem nextPart_of_lost {mp mp₁ : Multipart} {stream stream₁ : List Event} {f : Failure}
    (hlooks : mp.state = .preamble ∨ mp.state = .inPart)
    (hloop : mp.fillLoop skipStep noDelim stream = (.error f, mp₁, stream₁)) :
    mp.nextPart stream = (.error f, mp₁, stream₁) := by
  rw [nextPart]
  rcases hlooks with hstate | hstate
  · rw [hstate, hloop]
  · rw [hstate, hloop]

/-- Where the reader looks for a delimiter, its search cache is right. -/
def Ready (mp : Multipart) (stream : List Event) : Prop :=
  mp.state = .preamble ∨ mp.state = .inPart → Searched mp stream

theorem nextPart_spec {mp : Multipart} {stream : List Event} (hne : mp.delim ≠ [])
    (hready : Ready mp stream) :
    NextSpec mp stream (mp.nextPart stream).1 (mp.nextPart stream).2.1
      (mp.nextPart stream).2.2 := by
  rw [nextPart]
  cases hstate : mp.state with
  | closed =>
    exact .closed hstate fun hopen => absurd hstate hopen
  | afterDelimiter =>
    have hbehind (m : Nat) : Behind mp stream m ↔ m = 0 := by rw [Behind, hstate]
    exact afterDelim_spec hne ((hbehind 0).mpr rfl) (fun m hm => (hbehind m).mp hm)
      (Onward.refl mp stream)
  | preamble | inPart =>
    have hsearched := hready (by rw [hstate]; decide)
    have hbehind (m : Nat) : Behind mp stream m ↔
        ∃ e, FirstAt mp.delim (mp.unread stream) e ∧ m = e + mp.delim.length := by
      rw [Behind, hstate]
    have hspec := skip_spec hsearched
    dsimp only
    generalize mp.fillLoop skipStep noDelim stream = p at hspec
    obtain ⟨r, mp₁, stream₁⟩ := p
    cases hspec with
    | failed hfailure hnone =>
      have hnot (m : Nat) : ¬ Behind mp stream m := by
        intro hm
        obtain ⟨e, hfirst, -⟩ := (hbehind m).mp hm
        exact hnone e hfirst.starts
      exact .failed hfailure (fun m hm => absurd hm (hnot m)) fun m i head hm => absurd hm (hnot m)
    | found hfirst _ hon =>
      refine afterDelim_spec hne ((hbehind _).mpr ⟨_, hfirst, rfl⟩) (fun m hm => ?_) hon
      obtain ⟨e, hfirst', rfl⟩ := (hbehind m).mp hm
      rw [hfirst'.unique hfirst]

/-! ## A part read whole -/

theorem partData_spec {out : Nat} {mp : Multipart} {stream : List Event} (hout : 0 < out)
    (hstate : mp.state = .inPart) (h : Searched mp stream) :
    PartSpec out mp stream (.ready (mp.partData stream out).1) (mp.partData stream out).2.1
      (mp.partData stream out).2.2 := by
  induction hn : stream.length using Nat.strong_induction_on generalizing mp stream with
  | _ n ih =>
    have hspec := pollPartData_spec hout hstate h
    rw [partData]
    split
    · next hpoll =>
      rw [hpoll] at hspec
      cases hspec with
      | pending hshorter hstate' hsearched hon =>
        exact (ih _ (hn ▸ hshorter) hstate' hsearched rfl).of_onward hon
    · next hpoll =>
      rw [hpoll] at hspec
      exact hspec

/-- What `read_part` can do, when it has read `out`. -/
inductive ReadPartSpec (cap : Nat) (out : List UInt8) (mp : Multipart) (stream : List Event) :
    Except ReadPartError (List UInt8) → Multipart → List Event → Prop where
  | whole {e mp' stream'} : FirstAt mp.delim (mp.unread stream) e → mp'.state = .afterDelimiter →
      Onward (e + mp.delim.length) mp stream mp' stream' →
      ReadPartSpec cap out mp stream (.ok (out ++ (mp.unread stream).take e)) mp' stream'
  | aboveCap {n mp' stream'} : mp'.state = .inPart → Searched mp' stream' →
      Onward n mp stream mp' stream' → (∀ j < n, ¬ StartsAt mp.delim (mp.unread stream) j) →
      (∀ e, FirstAt mp.delim (mp.unread stream) e → cap < out.length + e) →
      ReadPartSpec cap out mp stream (.error .aboveCap) mp' stream'
  | failed {f mp' stream'} : Stuck f mp' → mp'.state = .inPart →
      (∀ i, ¬ StartsAt mp.delim (mp.unread stream) i) →
      ReadPartSpec cap out mp stream (.error (.failed f)) mp' stream'

theorem readInto_spec {cap : Nat} {out : List UInt8} {mp : Multipart} {stream : List Event}
    (hstate : mp.state = .inPart) (h : Searched mp stream) :
    ReadPartSpec cap out mp stream (mp.readInto stream cap out).1
      (mp.readInto stream cap out).2.1 (mp.readInto stream cap out).2.2 := by
  induction hn : mp.left stream using Nat.strong_induction_on generalizing mp stream out with
  | _ n ih =>
    have hspec := partData_spec (show 0 < 64 * 1024 by decide) hstate h
    rw [readInto]
    split
    · next hdata =>
      rw [hdata] at hspec
      cases hspec with
      | failed hstuck hstate' _ hnone _ => exact .failed hstuck hstate' hnone
    · next hdata =>
      rw [hdata] at hspec
      cases hspec with
      | bytes hne => exact absurd rfl hne
      | atEnd hstate' hfirst hon =>
        rw [← Nat.zero_add mp.delim.length] at hon
        have hwhole : ReadPartSpec cap out mp stream _ _ _ := .whole hfirst hstate' hon
        rw [List.take_zero, List.append_nil] at hwhole
        exact hwhole
    · next b bytes mp' stream' hdata =>
      rw [hdata] at hspec
      cases hspec with
      | bytes hne _ hstate' hsearched hon hbytes hclean =>
        -- the part goes on at least as far as what was read
        have hlater {e : Nat} (hfirst : FirstAt mp.delim (mp.unread stream) e) :
            (b :: bytes).length ≤ e := by
          by_contra hlt
          exact hclean e (Nat.not_le.mp hlt) hfirst.starts
        split
        · next habove =>
          refine .aboveCap hstate' hsearched hon hclean fun e hfirst => ?_
          have hle := hlater hfirst
          omega
        · have hleft := hon.left_le
          have hpos := List.length_pos_of_ne_nil hne
          dsimp only at hleft
          have hrest : ReadPartSpec cap (out ++ b :: bytes) mp' stream' _ _ _ :=
            ih (mp'.left stream') (by omega) hstate' hsearched rfl
          generalize mp'.readInto stream' cap (out ++ b :: bytes) = p at hrest
          obtain ⟨r, mp₂, stream₂⟩ := p
          cases hrest with
          | @whole e _ _ hfirst hstate₂ hon₂ =>
            rw [hon.delim_eq, hon.unread_eq] at hfirst
            have hfound := hfirst.of_drop hclean
            have hall := hon.trans hon₂
            rw [hon.delim_eq, ← Nat.add_assoc] at hall
            have hwhole : ReadPartSpec cap out mp stream _ _ _ := .whole hfound hstate₂ hall
            rw [List.take_add, ← hbytes, ← hon.unread_eq, ← List.append_assoc] at hwhole
            exact hwhole
          | aboveCap hstate₂ hsearched₂ hon₂ hclean₂ hlong =>
            rw [hon.delim_eq, hon.unread_eq] at hclean₂
            refine .aboveCap hstate₂ hsearched₂ (hon.trans hon₂) (fun j hj => ?_) fun e hfirst => ?_
            · exact List.not_startsAt_of_drop hclean fun j' hj' => hclean₂ j' (by omega)
            have hle := hlater hfirst
            have hrest : FirstAt mp'.delim (mp'.unread stream') (e - (b :: bytes).length) := by
              rw [hon.delim_eq, hon.unread_eq]
              exact hfirst.drop hle
            have habove := hlong _ hrest
            rw [List.length_append] at habove
            omega
          | failed hstuck hstate₂ hnone =>
            rw [hon.delim_eq, hon.unread_eq] at hnone
            exact .failed hstuck hstate₂ fun i =>
              List.not_startsAt_of_drop hclean fun j _ => hnone j

theorem readPart_spec {cap : Nat} {mp : Multipart} {stream : List Event}
    (hstate : mp.state = .inPart) (h : Searched mp stream) :
    ReadPartSpec cap [] mp stream (mp.readPart stream cap).1 (mp.readPart stream cap).2.1
      (mp.readPart stream cap).2.2 :=
  readInto_spec hstate h

/-- Where no part is open there is nothing to read. -/
theorem readPart_of_not_inPart {mp : Multipart} (stream : List Event) (cap : Nat)
    (h : mp.state ≠ .inPart) : mp.readPart stream cap = (.ok [], mp, stream) := by
  have hpoll : mp.pollPartData stream (64 * 1024) = (.ready (.ok []), mp, stream) := by
    rw [pollPartData, if_pos h]
  have hdata : mp.partData stream (64 * 1024) = (.ok [], mp, stream) := by
    rw [partData]
    split
    · next heq => cases hpoll.symm.trans heq
    · next heq =>
      cases hpoll.symm.trans heq
      rfl
  rw [readPart, readInto]
  split
  · next heq => cases hdata.symm.trans heq
  · next heq =>
    cases hdata.symm.trans heq
    rfl
  · next heq => cases hdata.symm.trans heq

end CirisServer.Multipart
