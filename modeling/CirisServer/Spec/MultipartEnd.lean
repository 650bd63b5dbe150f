import CirisServer.Spec.MultipartFraming
import CirisServer.Spec.MultipartRun

/-!
# Where the multipart file ends

A reader of the file reports its end only behind a delimiter that closes the body, whatever the
body is and however it is cut into frames. What comes of a body is all of it, or a beginning within
the limit (`fed_of_framing`); a reader that was driven to a part stands behind the headers of one
(`Driven.opens`); and the verdict on what is not read is in the body (`verdict_explained`).

Key results:
- `fed_of_framing`: what comes of a body
- `Driven.opens`: where the part of a reader begins
- `fileEnd_sound`: what is reported of the file is in the body
-/

namespace CirisServer.Multipart

open List (StartsAt FirstAt)

/-! ## What comes of a body -/

/-- The count of the body's bytes, which saturates. -/
def counted (body : List UInt8) : Nat := min body.length u64Max

/-- What comes of a body, and what it ends with. -/
structure Fed (limit : Nat) (body come : List UInt8) (ending : Option Failure) : Prop where
  come_le : come <+: body
  ends : (ending = none ∧ come = body ∧ counted body ≤ limit) ∨
    (ending = some (.tooLarge limit) ∧ come.length ≤ limit ∧ limit < counted body)

/-- All of the body comes, or a beginning within the limit. -/
theorem fed_of_framing {body : List UInt8} {stream : List Event} (h : Framing body stream)
    {limit : Nat} : Fed limit body (feed limit 0 stream).1 (feed limit 0 stream).2 := by
  -- with `n` bytes taken already
  have hfrom (n : Nat) (hn : min n u64Max ≤ limit) :
      (feed limit (min n u64Max) stream = (body, none) ∧ min (n + body.length) u64Max ≤ limit) ∨
      ∃ come, feed limit (min n u64Max) stream = (come, some (.tooLarge limit)) ∧ come <+: body ∧
        n + come.length ≤ limit ∧ limit < min (n + body.length) u64Max := by
    induction h generalizing n with
    | nil => exact .inl ⟨rfl, hn⟩
    | pending _ ih => exact ih n hn
    | @frame bytes body stream _ ih =>
      -- the counter saturates, and so does the sum that the limit is compared with
      have hread : min (min n u64Max + bytes.length) u64Max = min (n + bytes.length) u64Max := by
        omega
      rw [feed, hread, List.length_append]
      by_cases hlimit : limit < min (n + bytes.length) u64Max
      · rw [if_pos hlimit]
        refine .inr ⟨[], rfl, List.nil_prefix, ?_, ?_⟩
        · rw [List.length_nil]
          omega
        · omega
      · rw [if_neg hlimit]
        rcases ih (n + bytes.length) (Nat.not_lt.mp hlimit) with
          ⟨hfeed, hall⟩ | ⟨come, hfeed, hcome, hlength, hmore⟩
        · rw [hfeed]
          exact .inl ⟨rfl, by omega⟩
        · rw [hfeed]
          refine .inr ⟨bytes ++ come, rfl, (List.prefix_append_right_inj _).mpr hcome, ?_, ?_⟩
          · rw [List.length_append]
            omega
          · omega
  rcases hfrom 0 (by rw [Nat.zero_min]; exact Nat.zero_le _) with
    ⟨hfeed, hall⟩ | ⟨come, hfeed, hcome, hlength, hmore⟩
  · rw [Nat.zero_min] at hfeed
    rw [Nat.zero_add] at hall
    rw [hfeed]
    exact ⟨List.prefix_rfl, .inl ⟨rfl, rfl, hall⟩⟩
  · rw [Nat.zero_min] at hfeed
    rw [Nat.zero_add] at hlength hmore
    rw [hfeed]
    exact ⟨hcome, .inr ⟨rfl, hlength, hmore⟩⟩

/-- The frames bring the body. -/
theorem frameBytes_of_framing {body : List UInt8} {stream : List Event} (h : Framing body stream) :
    frameBytes stream = body.length := by
  induction h with
  | nil => rfl
  | pending _ ih => exact ih
  | frame bytes _ ih => rw [frameBytes, ih, List.length_append]

/-! ## The parts before the file -/

/-- A reader after calls that did not fail: parts were opened, and read whole or up to a cap. -/
inductive Driven (boundary : String) (limit : Nat) (stream : List Event) :
    Multipart → List Event → Prop where
  | new : Driven boundary limit stream (new boundary limit) stream
  | part {mp s head mp' s'} : Driven boundary limit stream mp s →
      mp.nextPart s = (.ok (some head), mp', s') → Driven boundary limit stream mp' s'
  | field {mp s cap value mp' s'} : Driven boundary limit stream mp s →
      mp.readPart s cap = (.ok value, mp', s') → Driven boundary limit stream mp' s'
  | aboveCap {mp s cap mp' s'} : Driven boundary limit stream mp s →
      mp.readPart s cap = (.error .aboveCap, mp', s') → Driven boundary limit stream mp' s'

/-- The headers of a part end at `start`. -/
def PartOpens (delim text : List UInt8) (start : Nat) : Prop :=
  ∃ e i, StartsAt delim text e ∧ HeadAt (text.drop (e + delim.length)) i ∧
    start = e + delim.length + (i + 4)

/-- Where a reader is that has gone on by `n` bytes. -/
structure Placed (first : Multipart) (stream : List Event) (n : Nat) (mp : Multipart)
    (s : List Event) : Prop where
  onward : Onward n first stream mp s
  ready : Ready mp s
  after : mp.state = .afterDelimiter → ∃ e, StartsAt first.delim (first.unread stream) e ∧
    n = e + first.delim.length

section Placed

variable {first mp mp' : Multipart} {stream s s' : List Event} {n : Nat}

/-- `next_part` stops behind the headers of a part. -/
theorem Placed.opens (h : Placed first stream n mp s) (hne : first.delim ≠ []) {head : PartHead}
    (hnext : mp.nextPart s = (.ok (some head), mp', s')) :
    ∃ start, PartOpens first.delim (first.unread stream) start ∧ mp'.state = .inPart ∧
      Placed first stream start mp' s' := by
  have hspec := nextPart_spec (h.onward.delim_eq ▸ hne) h.ready
  rw [hnext] at hspec
  cases hspec with
  | @part m i _ _ _ hbehind _ hhead _ hstate hsearched hon =>
    -- the delimiter that `next_part` goes on behind, in the text
    have hdelim : ∃ e, StartsAt first.delim (first.unread stream) e ∧
        n + m = e + first.delim.length := by
      unfold Behind at hbehind
      split at hbehind
      · next hafter =>
        -- it is read already
        obtain ⟨e, hstarts, rfl⟩ := h.after hafter
        exact ⟨e, hstarts, by rw [hbehind, Nat.add_zero]⟩
      · obtain ⟨e, hfirst, rfl⟩ := hbehind
        have hstarts := hfirst.starts
        rw [h.onward.delim_eq, h.onward.unread_eq, List.startsAt_drop] at hstarts
        exact ⟨n + e, hstarts, by rw [h.onward.delim_eq, Nat.add_assoc]⟩
      · obtain ⟨e, hfirst, rfl⟩ := hbehind
        have hstarts := hfirst.starts
        rw [h.onward.delim_eq, h.onward.unread_eq, List.startsAt_drop] at hstarts
        exact ⟨n + e, hstarts, by rw [h.onward.delim_eq, Nat.add_assoc]⟩
      · exact hbehind.elim
    obtain ⟨e, hstarts, hplace⟩ := hdelim
    rw [h.onward.unread_eq, List.drop_drop, hplace] at hhead
    refine ⟨n + (m + (i + 4)), ⟨e, i, hstarts, hhead, by omega⟩, hstate,
      h.onward.trans hon, fun _ => hsearched, fun hafter => ?_⟩
    cases hstate.symm.trans hafter

theorem Placed.readPart (h : Placed first stream n mp s) {cap : Nat}
    {r : Except ReadPartError (List UInt8)} (hread : mp.readPart s cap = (r, mp', s'))
    (hok : ∀ f, r ≠ .error (.failed f)) : ∃ n', Placed first stream n' mp' s' := by
  by_cases hstate : mp.state = .inPart
  · have hspec : ReadPartSpec cap [] mp s _ _ _ := readPart_spec hstate (h.ready (Or.inr hstate))
    rw [hread] at hspec
    cases hspec with
    | @whole e _ _ hfirst hafter hon =>
      refine ⟨n + (e + mp.delim.length), h.onward.trans hon, fun hlooks => ?_, fun _ => ?_⟩
      · rw [hafter] at hlooks
        rcases hlooks with hlooks | hlooks <;> cases hlooks
      · have hstarts := hfirst.starts
        rw [h.onward.delim_eq, h.onward.unread_eq, List.startsAt_drop] at hstarts
        exact ⟨n + e, hstarts, by rw [h.onward.delim_eq, Nat.add_assoc]⟩
    | @aboveCap m _ _ hin hsearched hon =>
      refine ⟨n + m, h.onward.trans hon, fun _ => hsearched, fun hafter => ?_⟩
      cases hin.symm.trans hafter
    | @failed f => exact absurd rfl (hok f)
  · rw [readPart_of_not_inPart s cap hstate] at hread
    cases hread
    exact ⟨n, h⟩

end Placed

/-- **Run.** Every driven reader has a place. -/
theorem Driven.placed {boundary : String} {limit : Nat} {stream s : List Event} {mp : Multipart}
    (h : Driven boundary limit stream mp s) :
    ∃ n, Placed (Multipart.new boundary limit) stream n mp s := by
  induction h with
  | new =>
    refine ⟨0, Onward.refl _ _, fun _ => searched_new boundary limit stream, fun hafter => ?_⟩
    cases hafter
  | part _ hnext ih =>
    obtain ⟨n, hplaced⟩ := ih
    obtain ⟨start, -, -, hopened⟩ := hplaced.opens (List.cons_ne_nil _ _) hnext
    exact ⟨start, hopened⟩
  | field _ hread ih =>
    obtain ⟨n, hplaced⟩ := ih
    exact hplaced.readPart hread fun f hf => nomatch hf
  | aboveCap _ hread ih =>
    obtain ⟨n, hplaced⟩ := ih
    exact hplaced.readPart hread fun f hf => nomatch hf

/-! ## The verdict, in the body -/

/-- The delimiter `e` bytes behind `start` is the first, and closes the body. -/
structure ClosesAt (delim body : List UInt8) (start e : Nat) : Prop where
  first : FirstAt delim (body.drop start) e
  closes : dashes <+: body.drop (start + (e + delim.length))

/-- A delimiter closes the body before the limit is exceeded. -/
def ClosesWithin (limit : Nat) (delim body : List UInt8) (start : Nat) : Prop :=
  ∃ e, ClosesAt delim body start e ∧
    (counted body ≤ limit ∨ start + (e + delim.length) + 2 ≤ limit)

/-- What a failure says of the body: it ends before its closing delimiter, or it exceeds the limit,
    or the next delimiter opens another part. -/
inductive Explains (limit : Nat) (delim body : List UInt8) (start : Nat) : Failure → Prop where
  | truncated : counted body ≤ limit →
      (∀ e, FirstAt delim (body.drop start) e →
        (body.drop (start + (e + delim.length))).length < 2) →
      Explains limit delim body start .truncated
  | tooLarge : limit < counted body → Explains limit delim body start (.tooLarge limit)
  | fieldAfterFile {e} : FirstAt delim (body.drop start) e →
      2 ≤ (body.drop (start + (e + delim.length))).length →
      ¬ dashes <+: body.drop (start + (e + delim.length)) →
      Explains limit delim body start .fieldAfterFile

section Verdict

variable {limit start : Nat} {delim body come : List UInt8} {ending : Option Failure}

/-- Where too little comes, the ending says why. -/
theorem Fed.explains (h : Fed limit body come ending)
    (hfew : ∀ e, FirstAt delim (come.drop start) e →
      (come.drop (start + (e + delim.length))).length < 2) :
    Explains limit delim body start (ending.getD .truncated) := by
  rcases h.ends with ⟨rfl, rfl, hcount⟩ | ⟨rfl, -, hcount⟩
  · exact .truncated hcount hfew
  · exact .tooLarge hcount

/-- **The verdict** on what comes behind `start` is in the body. -/
theorem verdict_explained (hne : delim ≠ []) (h : Fed limit body come ending)
    (hstart : start ≤ come.length) :
    match fileVerdict delim none (come.drop start) ending with
    | .eof data => ∃ e, ClosesAt delim body start e ∧ data = (body.drop start).take e ∧
        (counted body ≤ limit ∨ start + (e + delim.length) + 2 ≤ limit)
    | .fails f => Explains limit delim body start f := by
  obtain ⟨more, hbody⟩ := h.come_le
  cases hfound : List.firstOccurrence delim (come.drop start) with
  | none =>
    have hnone := (List.firstOccurrence_eq_none_iff hne).mp hfound
    -- no delimiter has come: the ending decides
    rw [fileVerdict_of_none hne hnone]
    exact h.explains fun e hfirst => absurd hfirst.starts (hnone e)
  | some e =>
    have hfirst := (List.firstOccurrence_eq_some_iff hne).mp hfound
    have hfit := hfirst.starts.length_le hne
    rw [List.length_drop] at hfit
    have hdrop : body.drop start = come.drop start ++ more := by
      rw [← hbody, List.drop_append_of_le_length hstart]
    have hrest : body.drop (start + (e + delim.length)) =
        come.drop (start + (e + delim.length)) ++ more := by
      rw [← hbody, List.drop_append_of_le_length (by omega)]
    have hfirstBody : FirstAt delim (body.drop start) e := hdrop ▸ hfirst.append hne more
    rw [fileVerdict_of_firstAt hne hfirst, List.drop_drop, closing]
    by_cases hshort : (come.drop (start + (e + delim.length))).length < 2
    · -- too little behind the delimiter to tell whether it closes
      rw [if_pos hshort]
      exact h.explains fun e' hfirst' => hfirst'.unique hfirst ▸ hshort
    · rw [if_neg hshort]
      by_cases hdashes : dashes <+: come.drop (start + (e + delim.length))
      · rw [if_pos hdashes]
        have hcloses : dashes <+: body.drop (start + (e + delim.length)) :=
          hrest ▸ hdashes.trans (List.prefix_append _ _)
        refine ⟨e, ⟨hfirstBody, hcloses⟩, ?_, ?_⟩
        · rw [hdrop, List.take_append_of_le_length (by rw [List.length_drop]; omega),
            List.append_nil]
        · rcases h.ends with ⟨-, -, hcount⟩ | ⟨-, hlength, -⟩
          · exact .inl hcount
          · rw [List.length_drop] at hshort
            exact .inr (by omega)
      · rw [if_neg hdashes]
        refine .fieldAfterFile hfirstBody ?_ fun hcloses => hdashes ?_
        · rw [hrest, List.length_append]
          omega
        · rw [hrest] at hcloses
          exact List.prefix_of_prefix_length_le hcloses (List.prefix_append _ _)
            (Nat.not_lt.mp hshort)

end Verdict

/-! ## What is reported of the file -/

/-- What is reported of the file whose headers end at `start`, by reads and peeks. Of more than
    `enough` reads, one reports an end. -/
structure FileEnd (limit : Nat) (delim body : List UInt8) (start enough : Nat) (ops : List FileOp)
    (answers : List FileAnswer) : Prop where
  eof : .eof ∈ answers → ∃ e, ClosesAt delim body start e ∧
    delivered answers = (body.drop start).take e
  failed : ∀ before f after, answers = before ++ .failed f :: after →
    Explains limit delim body start f ∧ AllFail f after
  fails : ¬ ClosesWithin limit delim body start →
    .eof ∉ answers ∧ (enough < reads ops → ∃ f, .failed f ∈ answers)

/-- The verdict on a part that is open, in the body. -/
theorem view_of_placed {boundary : String} {limit start : Nat} {body : List UInt8}
    {stream s : List Event} {mp : Multipart} (hframing : Framing body stream)
    (hplaced : Placed (new boundary limit) stream (2 + start) mp s) (hstate : mp.state = .inPart)
    (hstart : start ≤ (feed limit 0 stream).1.length) :
    match mp.view s with
    | .eof data => ∃ e, ClosesAt (new boundary limit).delim body start e ∧
        data = (body.drop start).take e ∧
        (counted body ≤ limit ∨ start + (e + (new boundary limit).delim.length) + 2 ≤ limit)
    | .fails f => Explains limit (new boundary limit).delim body start f := by
  have hunread : mp.unread s = (feed limit 0 stream).1.drop start := by
    rw [hplaced.onward.unread_eq, ← List.drop_drop]
    rfl
  have hending : mp.ending s = (feed limit 0 stream).2 := hplaced.onward.ending_eq
  have hfailure : mp.failure = none := hplaced.onward.failure_eq
  rw [view, hstate]
  dsimp only
  rw [hplaced.onward.delim_eq, hfailure, hunread, hending]
  exact verdict_explained (List.cons_ne_nil _ _) (fed_of_framing hframing) hstart

/-- Enough reads of a part that is open come to the end or to a failure. -/
theorem Placed.settles {boundary : String} {limit n : Nat} {body : List UInt8}
    {stream s : List Event} {mp : Multipart} {ops : List FileOp}
    (hplaced : Placed (Multipart.new boundary limit) stream n mp s)
    (hframing : Framing body stream) (hstate : mp.state = .inPart)
    (hops : ∀ op ∈ ops, op.Valid) (henough : stream.length + body.length + 2 < reads ops) :
    .eof ∈ mp.runFile s ops ∨ ∃ f, .failed f ∈ mp.runFile s ops := by
  apply runFile_settles (fun _ => hplaced.ready (Or.inr hstate)) hops
  have hshorter := hplaced.onward.length_le
  have hleft := hplaced.onward.left_le
  have hnew : (Multipart.new boundary limit).left stream = 2 + frameBytes stream := rfl
  rw [hnew, frameBytes_of_framing hframing] at hleft
  omega

/-- The file's reader is sound: on every body, in every framing, after every drive to a part. -/
theorem fileEnd_sound {boundary : String} {limit : Nat} {body : List UInt8}
    {stream s s' : List Event} {mp mp' : Multipart} {head : PartHead} {ops : List FileOp}
    (hframing : Framing body stream) (hdriven : Driven boundary limit stream mp s)
    (hnext : mp.nextPart s = (.ok (some head), mp', s')) (hops : ∀ op ∈ ops, op.Valid) :
    ∃ start, PartOpens (new boundary limit).delim (crlf ++ body) (2 + start) ∧
      FileEnd limit (new boundary limit).delim body start (stream.length + body.length + 2) ops
        (mp'.runFile s' ops) := by
  obtain ⟨n, hdrive⟩ := hdriven.placed
  obtain ⟨place, ⟨e, i, hstarts, hhead, hplace⟩, hstate, hplaced⟩ :=
    hdrive.opens (List.cons_ne_nil _ _) hnext
  -- the buffer starts with a CRLF that is not of the body
  obtain ⟨start, rfl⟩ : ∃ start, place = 2 + start := ⟨place - 2, by omega⟩
  have htext : (new boundary limit).unread stream = crlf ++ (feed limit 0 stream).1 := rfl
  rw [htext] at hstarts hhead
  have hlength := hhead.length_le
  have hstart : start ≤ (feed limit 0 stream).1.length := by
    rw [List.length_drop, List.length_append] at hlength
    have htwo : crlf.length = 2 := rfl
    omega
  refine ⟨start, ?_, ?_⟩
  · -- what came is the front of the body, and the headers lie in it
    have hfed : Fed limit body _ _ := fed_of_framing hframing
    obtain ⟨more, hbody⟩ := hfed.come_le
    have hfit := hstarts.length_le (List.cons_ne_nil _ _)
    refine ⟨e, i, ?_, ?_, hplace⟩
    · rw [← hbody, ← List.append_assoc]
      exact hstarts.append more
    · rw [← hbody, ← List.append_assoc, List.drop_append_of_le_length hfit]
      exact (headAt_append_iff hlength).mpr hhead
  · have hgood : Good mp' s' := fun _ => hplaced.ready (Or.inr hstate)
    have hverdict := view_of_placed hframing hplaced hstate hstart
    have htells := runFile_tells hgood hops
    have hsettles := hplaced.settles hframing hstate hops
    cases hview : mp'.view s' with
    | eof data =>
      rw [hview] at hverdict htells
      obtain ⟨close, hcloses, hdata, hwithin⟩ := hverdict
      obtain ⟨-, heof, hnone⟩ := htells.of_eof
      exact
        { eof := fun h => ⟨close, hcloses, (heof h).trans hdata⟩
          failed := fun before f after h =>
            absurd (h ▸ List.mem_append_right before List.mem_cons_self) (hnone f)
          fails := fun hopen => absurd ⟨close, hcloses, hwithin⟩ hopen }
    | fails f =>
      rw [hview] at hverdict htells
      obtain ⟨hnone, hsticky⟩ := htells.of_fails
      exact
        { eof := fun h => absurd h hnone
          failed := fun before g after h => by
            obtain ⟨rfl, hall⟩ := hsticky before g after h
            exact ⟨hverdict, hall⟩
          fails := fun _ => ⟨hnone, fun henough => (hsettles henough).resolve_left hnone⟩ }

/-- A body of one part, a file of three bytes. -/
def Fixture.photo : List UInt8 :=
  dashes ++ utf8 "b" ++ (headBlock "file" "f" "Content-Type: image/png" ++
    ([1, 2, 3] ++ (crlf ++ dashes ++ utf8 "b" ++ dashes)))

theorem fileEnd_photo : ∃ head mp s,
    (new "b" 200).nextPart [.frame Fixture.photo] = (.ok (some head), mp, s) ∧
    ∃ start, PartOpens (new "b" 200).delim (crlf ++ Fixture.photo) (2 + start) ∧
      FileEnd 200 (new "b" 200).delim Fixture.photo start (1 + Fixture.photo.length + 2) [.read 1]
        (mp.runFile s [.read 1]) := by
  have hframing := framing_single Fixture.photo
  have hname : Quotable "file" := ⟨by decide, by decide, by decide⟩
  have hfile : Quotable "f" := ⟨by decide, by decide, by decide⟩
  have hline : ContentTypeLine "Content-Type: image/png" :=
    ⟨by decide, "Content-Type".toList, " image/png".toList, by decide, by decide⟩
  have hfirst : FirstAt (new "b" 200).delim (crlf ++ Fixture.photo) 0 :=
    ⟨List.prefix_append (new "b" 200).delim _, fun j hj => absurd hj (Nat.not_lt_zero j)⟩
  have hat := (at_of_searched (Or.inl rfl)
    (searched_new "b" 200 [.frame Fixture.photo])).1 0
  rw [unread_new (by decide) (by decide) hframing] at hat
  have hnext := (hat hfirst).next
  have hhead := headAt_headBlock hname hfile hline
    ([1, 2, 3] ++ (crlf ++ dashes ++ utf8 "b" ++ dashes))
  obtain ⟨head, hof, -⟩ := headOf_headBlock hname hfile hline (by decide) (by decide)
    ([1, 2, 3] ++ (crlf ++ dashes ++ utf8 "b" ++ dashes))
  generalize hread : (new "b" 200).nextPart [.frame Fixture.photo] = q at hnext
  obtain ⟨r, mp, s⟩ := q
  cases hnext with
  | closed hdashes => exact absurd hdashes hhead.not_dashes
  | failed _ hlong => exact absurd (hlong _ _ hhead hof).1 (by decide)
  | @part _ head =>
    refine ⟨head, mp, s, rfl, fileEnd_sound hframing .new hread ?_⟩
    exact fun op hop => List.mem_singleton.mp hop ▸ Nat.one_pos

end CirisServer.Multipart
