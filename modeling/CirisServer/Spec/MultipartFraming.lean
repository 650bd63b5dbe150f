import CirisServer.Spec.MultipartHead

/-!
# The heads of a body's parts

`next_part`, again and again, with each part skipped or read whole. What it says is in the bytes of
the body, as long as every header block that is reached fits the cap: the cap is looked at only
while the end of the block is not in the buffer, so a longer block is taken from a large frame and
refused from small ones.

Key results:
- `heads_eq`: blocks that fit are read alike under all framings
- `HeadsAgree.fits`: a block that does not fit is read under one framing and refused under another
- `headsAgree_iff`: when the framing does not matter
-/

namespace CirisServer.Multipart

open List (StartsAt FirstAt)

/-! ## A body in frames -/

/-- The frames that a body is cut into, with waits between them. -/
inductive Framing : List UInt8 → List Event → Prop where
  | nil : Framing [] []
  | pending {body stream} : Framing body stream → Framing body (.pending :: stream)
  | frame (bytes : List UInt8) {body stream} : Framing body stream →
      Framing (bytes ++ body) (.frame bytes :: stream)

/-- Within the limit, the whole body comes. -/
theorem Framing.feed {body : List UInt8} {stream : List Event} (h : Framing body stream)
    {limit read : Nat} (hbody : read + body.length ≤ limit) (hlimit : limit ≤ u64Max) :
    feed limit read stream = (body, none) := by
  induction h generalizing read with
  | nil => rfl
  | pending _ ih => exact ih hbody
  | frame bytes _ ih =>
    rw [List.length_append] at hbody
    have hread : min (read + bytes.length) u64Max = read + bytes.length :=
      Nat.min_eq_left (by omega)
    rw [Multipart.feed, hread, if_neg (by omega), ih (by omega)]

/-- The whole body in one frame. -/
theorem framing_single (body : List UInt8) : Framing body [.frame body] := by
  have hcons := Framing.frame body .nil
  rw [List.append_nil] at hcons
  exact hcons

theorem framing_bytewise (body : List UInt8) : Framing body (bytewise body) := by
  induction body with
  | nil => exact .nil
  | cons b body ih => exact .frame [b] ih

/-! ## What is said of the parts -/

/-- What is done with a part behind its headers. -/
inductive PartUse where
  | skip
  | whole (cap : Nat)

def usePart (mp : Multipart) (stream : List Event) : PartUse → Multipart × List Event
  | .skip => (mp, stream)
  | .whole cap => (mp.readPart stream cap).2

/-- What `next_part` says of one part after the other: `none` where it fails. -/
def heads (mp : Multipart) (stream : List Event) : List PartUse → List (Option (Option PartHead))
  | [] => []
  | use :: uses =>
    match mp.nextPart stream with
    | (.error _, _, _) => [none]
    | (.ok none, _, _) => [some none]
    | (.ok (some head), mp, stream) =>
      let (mp, stream) := mp.usePart stream use
      some (some head) :: heads mp stream uses

/-- Whatever is done with the parts, the framing does not matter. -/
def HeadsAgree (boundary : String) (limit : Nat) (body : List UInt8) : Prop :=
  ∀ (uses : List PartUse) (stream stream' : List Event), Framing body stream →
    Framing body stream' →
    (new boundary limit).heads stream uses = (new boundary limit).heads stream' uses

/-- What follows a delimiter in the text, behind parts whose headers can be read. -/
inductive Reaches (delim text : List UInt8) : List UInt8 → Prop where
  | first {e} : FirstAt delim text e → Reaches delim text (text.drop (e + delim.length))
  | next {rest i head e} : Reaches delim text rest → ¬ dashes <+: rest → HeadAt rest i →
      headOf rest i = some head → FirstAt delim (rest.drop (i + 4)) e →
      Reaches delim text ((rest.drop (i + 4)).drop (e + delim.length))

/-- Every header block that is reached and can be read fits the cap, with the line of its delimiter
    and the empty line. -/
def BlocksFit (boundary : String) (body : List UInt8) : Prop :=
  ∀ rest i head, Reaches (new boundary 0).delim (crlf ++ body) rest → HeadAt rest i →
    headOf rest i = some head → i + 4 ≤ headerCap + 1

/-! ## From one part to the next -/

/-- `next_part` goes on behind the delimiter that `rest` follows. -/
structure At (delim : List UInt8) (mp : Multipart) (stream : List Event) (rest : List UInt8) :
    Prop where
  delim_eq : mp.delim = delim
  delim_ne : delim ≠ []
  open_ : mp.state ≠ .closed
  ready : Ready mp stream
  behind : ∃ n, Behind mp stream n ∧ (mp.unread stream).drop n = rest

/-- `next_part` fails. -/
def Fails (mp : Multipart) (stream : List Event) : Prop :=
  ∃ f, (mp.nextPart stream).1 = .error f

theorem Behind.unique {mp : Multipart} {stream : List Event} {m n : Nat}
    (hm : Behind mp stream m) (hn : Behind mp stream n) : m = n := by
  unfold Behind at hm hn
  cases hstate : mp.state with
  | closed =>
    rw [hstate] at hm
    exact hm.elim
  | afterDelimiter =>
    rw [hstate] at hm hn
    exact hm.trans hn.symm
  | preamble | inPart =>
    rw [hstate] at hm hn
    obtain ⟨e, hfirst, rfl⟩ := hm
    obtain ⟨e', hfirst', rfl⟩ := hn
    rw [hfirst.unique hfirst']

/-- What `next_part` does, as the rest says. -/
inductive NextAt (delim : List UInt8) (stream : List Event) (rest : List UInt8) :
    Except Failure (Option PartHead) → Multipart → List Event → Prop where
  | part {i head mp' stream'} : ¬ dashes <+: rest → HeadAt rest i → headOf rest i = some head →
      mp'.state = .inPart → Searched mp' stream' → mp'.delim = delim →
      mp'.unread stream' = rest.drop (i + 4) → stream'.length ≤ stream.length →
      NextAt delim stream rest (.ok (some head)) mp' stream'
  | closed {mp' stream'} : dashes <+: rest → NextAt delim stream rest (.ok none) mp' stream'
  | failed {f mp' stream'} : ¬ dashes <+: rest →
      (∀ i head, HeadAt rest i → headOf rest i = some head →
        headerCap + 1 < i + 4 ∧ stream ≠ []) →
      NextAt delim stream rest (.error f) mp' stream'

theorem At.next {delim rest : List UInt8} {mp : Multipart} {stream : List Event}
    (h : At delim mp stream rest) :
    NextAt delim stream rest (mp.nextPart stream).1 (mp.nextPart stream).2.1
      (mp.nextPart stream).2.2 := by
  obtain ⟨n, hbehind, hrest⟩ := h.behind
  have hspec := nextPart_spec (h.delim_eq ▸ h.delim_ne) h.ready
  generalize mp.nextPart stream = p at hspec
  obtain ⟨r, mp', stream'⟩ := p
  cases hspec with
  | @part m i _ _ _ hm hdashes hhead hof hstate hsearched hon =>
    rw [hm.unique hbehind] at hdashes hhead hof hon
    rw [hrest] at hdashes hhead hof
    refine .part hdashes hhead hof hstate hsearched (hon.delim_eq.trans h.delim_eq) ?_ hon.length_le
    rw [hon.unread_eq, ← List.drop_drop, hrest]
  | closed _ hdashes =>
    obtain ⟨m, hm, hclose⟩ := hdashes h.open_
    rw [hm.unique hbehind, hrest] at hclose
    exact .closed hclose
  | failed _ hdashes hlong =>
    refine .failed (hrest ▸ hdashes n hbehind) fun i head hhead hof => ?_
    rw [← hrest] at hhead hof
    exact hlong n i head hbehind hhead hof

/-- Without a delimiter there is no next part. -/
theorem fails_of_none {mp : Multipart} {stream : List Event} (hne : mp.delim ≠ [])
    (hopen : mp.state ≠ .closed) (hready : Ready mp stream) (hnone : ∀ n, ¬ Behind mp stream n) :
    Fails mp stream := by
  have hspec := nextPart_spec hne hready
  unfold Fails
  generalize mp.nextPart stream = p at hspec ⊢
  obtain ⟨r, mp', stream'⟩ := p
  cases hspec with
  | part hbehind => exact absurd hbehind (hnone _)
  | closed _ hclose =>
    obtain ⟨n, hbehind, -⟩ := hclose hopen
    exact absurd hbehind (hnone n)
  | failed => exact ⟨_, rfl⟩

/-- A part that could not be read has no next one. -/
theorem Stuck.fails {f : Failure} {mp : Multipart} (h : Stuck f mp) (hstate : mp.state = .inPart)
    (stream : List Event) : Fails mp stream := by
  obtain ⟨hne, hshort⟩ := h.inPart hstate
  have hnext : mp.nextDelim =
      (none, { mp with cleanUntil := max (mp.buf.length - (mp.delim.length - 1)) mp.pos }) := by
    rw [nextDelim, find_of_short hne (Nat.le_max_right _ _) hshort]
  have hstep : skipStep mp = ({ mp with
      cleanUntil := max (mp.buf.length - (mp.delim.length - 1)) mp.pos
      pos := max (mp.buf.length - (mp.delim.length - 1)) mp.pos }, none) := by
    rw [skipStep, hnext]
  refine ⟨f, ?_⟩
  rw [nextPart, hstate]
  dsimp only
  rw [fillLoop_of_failure hstep h.failure]

/-- Before a delimiter and in a part, the next delimiter is where to go on. -/
theorem at_of_searched {mp : Multipart} {stream : List Event}
    (hlooks : mp.state = .preamble ∨ mp.state = .inPart) (h : Searched mp stream) :
    (∀ e, FirstAt mp.delim (mp.unread stream) e →
      At mp.delim mp stream ((mp.unread stream).drop (e + mp.delim.length))) ∧
    ((∀ e, ¬ FirstAt mp.delim (mp.unread stream) e) → Fails mp stream) := by
  have hbehind (n : Nat) : Behind mp stream n ↔
      ∃ e, FirstAt mp.delim (mp.unread stream) e ∧ n = e + mp.delim.length := by
    rcases hlooks with hstate | hstate
    · rw [Behind, hstate]
    · rw [Behind, hstate]
  have hopen : mp.state ≠ .closed := by
    rcases hlooks with hstate | hstate
    · rw [hstate]
      decide
    · rw [hstate]
      decide
  constructor
  · intro e hfirst
    exact ⟨rfl, h.delim_ne, hopen, fun _ => h, _, (hbehind _).mpr ⟨e, hfirst, rfl⟩, rfl⟩
  · intro hnone
    apply fails_of_none h.delim_ne hopen fun _ => h
    intro n hn
    obtain ⟨e, hfirst, -⟩ := (hbehind n).mp hn
    exact hnone e hfirst

/-- Whatever is done with a part, its delimiter is where to go on. -/
theorem usePart_at {mp : Multipart} {stream : List Event} (use : PartUse)
    (hstate : mp.state = .inPart) (h : Searched mp stream) :
    (∀ e, FirstAt mp.delim (mp.unread stream) e →
      At mp.delim (mp.usePart stream use).1 (mp.usePart stream use).2
        ((mp.unread stream).drop (e + mp.delim.length))) ∧
    ((∀ e, ¬ FirstAt mp.delim (mp.unread stream) e) →
      Fails (mp.usePart stream use).1 (mp.usePart stream use).2) := by
  cases use with
  | skip => exact at_of_searched (Or.inr hstate) h
  | whole cap =>
    have hspec : ReadPartSpec cap [] mp stream _ _ _ := readPart_spec hstate h
    dsimp only [usePart]
    generalize mp.readPart stream cap = p at hspec
    obtain ⟨r, mp', stream'⟩ := p
    cases hspec with
    | @whole e _ _ hfirst hafter hon =>
      refine ⟨fun e' hfirst' => ?_, fun hnone => absurd hfirst (hnone e)⟩
      rw [hfirst'.unique hfirst]
      refine ⟨hon.delim_eq, h.delim_ne, ?_, fun hlooks => ?_, 0, ?_, hon.unread_eq⟩
      · rw [hafter]
        decide
      · rw [hafter] at hlooks
        rcases hlooks with hlooks | hlooks <;> cases hlooks
      · rw [Behind, hafter]
    | @aboveCap n _ _ hin hsearched hon hclean =>
      -- the reader is further on in the part, before its delimiter
      have hnext := at_of_searched (Or.inr hin) hsearched
      rw [hon.delim_eq, hon.unread_eq] at hnext
      refine ⟨fun e hfirst => ?_, fun hnone => hnext.2 fun e hfirst => ?_⟩
      · have hle : n ≤ e := by
          by_contra hlt
          exact hclean e (Nat.not_le.mp hlt) hfirst.starts
        have hat := hnext.1 (e - n) (hfirst.drop hle)
        have hplace : n + (e - n + mp.delim.length) = e + mp.delim.length := by omega
        rw [List.drop_drop, hplace] at hat
        exact hat
      · exact hnone (n + e) (hfirst.of_drop hclean)
    | failed hstuck hin hnone =>
      exact ⟨fun e hfirst => absurd hfirst.starts (hnone e),
        fun _ => hstuck.fails hin stream'⟩

theorem heads_of_fails {mp : Multipart} {stream : List Event} (h : Fails mp stream)
    (use : PartUse) (uses : List PartUse) : mp.heads stream (use :: uses) = [none] := by
  obtain ⟨f, hf⟩ := h
  rw [heads]
  generalize mp.nextPart stream = p at hf
  obtain ⟨r, mp', stream'⟩ := p
  cases hf
  rfl

/-- Two readers that go on alike: behind the same delimiter, or not at all. -/
inductive Alike (delim text : List UInt8) (mp : Multipart) (stream : List Event)
    (mp' : Multipart) (stream' : List Event) : Prop where
  | go {rest} : Reaches delim text rest → At delim mp stream rest → At delim mp' stream' rest →
      Alike delim text mp stream mp' stream'
  | fail : Fails mp stream → Fails mp' stream' → Alike delim text mp stream mp' stream'

/-- **Blocks that fit** are read alike. -/
theorem heads_eq {delim text : List UInt8}
    (hfits : ∀ rest i head, Reaches delim text rest → HeadAt rest i → headOf rest i = some head →
      i + 4 ≤ headerCap + 1)
    {mp mp' : Multipart} {stream stream' : List Event} (uses : List PartUse)
    (h : Alike delim text mp stream mp' stream') :
    mp.heads stream uses = mp'.heads stream' uses := by
  induction uses generalizing mp mp' stream stream' with
  | nil => rfl
  | cons use uses ih =>
    cases h with
    | fail hfails hfails' => rw [heads_of_fails hfails, heads_of_fails hfails']
    | @go rest hreaches hat hat' =>
      -- both stand behind the same delimiter; the cap is all that could tell them apart
      have hnext := hat.next
      have hnext' := hat'.next
      rw [heads, heads]
      generalize mp.nextPart stream = p at hnext ⊢
      generalize mp'.nextPart stream' = p' at hnext' ⊢
      obtain ⟨r, mp₁, stream₁⟩ := p
      obtain ⟨r', mp₁', stream₁'⟩ := p'
      cases hnext with
      | closed hdashes =>
        cases hnext' with
        | closed => rfl
        | part hopen => exact absurd hdashes hopen
        | failed hopen => exact absurd hdashes hopen
      | failed hopen hlong =>
        cases hnext' with
        | closed hdashes => exact absurd hdashes hopen
        | part _ hhead hof =>
          have hfit := hfits _ _ _ hreaches hhead hof
          exact absurd (hlong _ _ hhead hof).1 (Nat.not_lt.mpr hfit)
        | failed => rfl
      | @part i head _ _ hopen hhead hof hstate hsearched hdelim hunread =>
        cases hnext' with
        | closed hdashes => exact absurd hdashes hopen
        | failed _ hlong =>
          have hfit := hfits _ _ _ hreaches hhead hof
          exact absurd (hlong _ _ hhead hof).1 (Nat.not_lt.mpr hfit)
        | part _ hhead' hof' hstate' hsearched' hdelim' hunread' =>
          rw [hhead'.unique hhead] at hof' hunread'
          cases hof.symm.trans hof'
          -- the part ends at the next delimiter, whatever is done with it
          have huse := usePart_at use hstate hsearched
          have huse' := usePart_at use hstate' hsearched'
          rw [hdelim, hunread] at huse
          rw [hdelim', hunread'] at huse'
          have hgoes : Alike delim text (mp₁.usePart stream₁ use).1 (mp₁.usePart stream₁ use).2
              (mp₁'.usePart stream₁' use).1 (mp₁'.usePart stream₁' use).2 := by
            by_cases hmore : ∃ e, FirstAt delim (rest.drop (i + 4)) e
            · obtain ⟨e, hfirst⟩ := hmore
              exact .go (.next hreaches hopen hhead hof hfirst) (huse.1 e hfirst)
                (huse'.1 e hfirst)
            · rw [not_exists] at hmore
              exact .fail (huse.2 hmore) (huse'.2 hmore)
          exact congrArg (some (some head) :: ·) (ih hgoes)

/-! ## A block that does not fit -/

/-- Frames of one byte, and not more than `k` of them in the buffer. -/
structure Narrow (k : Nat) (mp : Multipart) (stream : List Event) : Prop where
  room : mp.buf.length - mp.pos ≤ k
  frames : ∃ bytes, stream = bytewise bytes

theorem fillLoop_narrow {α : Type} {step : Multipart → Multipart × Option (Except Failure α)}
    {atEnd : State → Failure} {k k' : Nat} {delim : List UInt8}
    (hdone : ∀ mp mp' a, mp.delim = delim → mp.buf.length - mp.pos ≤ k →
      step mp = (mp', some (.ok a)) → mp'.buf.length - mp'.pos ≤ k')
    (hmore : ∀ mp mp', mp.delim = delim → mp.buf.length - mp.pos ≤ k → step mp = (mp', none) →
      mp'.delim = delim ∧ mp'.buf.length - mp'.pos < k)
    {mp : Multipart} {stream : List Event} (hdelim : mp.delim = delim) (h : Narrow k mp stream) :
    ∀ a, (mp.fillLoop step atEnd stream).1 = .ok a →
      Narrow k' (mp.fillLoop step atEnd stream).2.1 (mp.fillLoop step atEnd stream).2.2 := by
  apply fillLoop_rule (Q := fun r mp' s => ∀ a, r = .ok a → Narrow k' mp' s)
    (I := fun mp₁ s => mp₁.delim = delim ∧ Narrow k mp₁ s)
    (J := fun mp₁ s => mp₁.delim = delim ∧ mp₁.buf.length - mp₁.pos < k ∧
      ∃ bytes, s = bytewise bytes)
  case hdone =>
    intro mp₁ s mp₂ r ⟨hd, hnarrow⟩ hstep a hr
    rw [hr] at hstep
    exact ⟨hdone mp₁ mp₂ a hd hnarrow.room hstep, hnarrow.frames⟩
  case hmore =>
    intro mp₁ s mp₂ ⟨hd, hnarrow⟩ hstep
    obtain ⟨hd', hlt⟩ := hmore mp₁ mp₂ hd hnarrow.room hstep
    exact ⟨hd', hlt, hnarrow.frames⟩
  case hfilled =>
    intro mp₁ s mp₂ s' ⟨hd, hlt, hframes⟩ hfill
    obtain ⟨bytes, rfl⟩ := hframes
    obtain ⟨hone, rfl⟩ := fill_bytewise hfill
    exact ⟨(fill_filled hfill).onward.delim_eq.trans hd, by omega, bytes.tail, rfl⟩
  case hended =>
    intro mp₁ s mp₂ s' _ _ a hr
    cases hr
  case hfailed =>
    intro mp₁ s mp₂ s' f _ _ a hr
    cases hr
  case h => exact ⟨hdelim, h⟩

/-- What is searched for a delimiter is passed over, but for the beginning of one. -/
theorem skip_narrow {mp : Multipart} {stream : List Event} (hne : mp.delim ≠ [])
    (h : Narrow (max (headerCap + 1) mp.delim.length) mp stream) :
    (mp.fillLoop skipStep noDelim stream).1 = .ok () →
      Narrow (headerCap + 1) (mp.fillLoop skipStep noDelim stream).2.1
        (mp.fillLoop skipStep noDelim stream).2.2 := by
  have hpos := List.length_pos_of_ne_nil hne
  apply fillLoop_narrow ?_ ?_ rfl h
  · intro mp₁ mp₂ a hd hroom hstep
    rw [skipStep, nextDelim, hd] at hstep
    cases hfind : find mp₁.buf mp.delim (max mp₁.cleanUntil mp₁.pos) with
    | none =>
      rw [hfind] at hstep
      cases hstep
    | some i =>
      rw [hfind] at hstep
      cases hstep
      -- what is found begins where the search began, or behind it
      have hle := ((find_spec hne _).1 i hfind).1
      dsimp only
      omega
  · intro mp₁ mp₂ hd hroom hstep
    rw [skipStep, nextDelim, hd] at hstep
    cases hfind : find mp₁.buf mp.delim (max mp₁.cleanUntil mp₁.pos) with
    | some i =>
      rw [hfind] at hstep
      cases hstep
    | none =>
      rw [hfind] at hstep
      cases hstep
      -- one byte less than a delimiter is kept
      refine ⟨rfl, ?_⟩
      dsimp only
      omega

theorem after_narrow {mp : Multipart} {stream : List Event}
    (h : Narrow (headerCap + 1) mp stream) (closes : Bool) :
    (mp.fillLoop afterStep (fun _ => .truncated) stream).1 = .ok closes →
      Narrow (headerCap + 1) (mp.fillLoop afterStep (fun _ => .truncated) stream).2.1
        (mp.fillLoop afterStep (fun _ => .truncated) stream).2.2 := by
  apply fillLoop_narrow ?_ ?_ rfl h
  · intro mp₁ mp₂ a _ hroom hstep
    rw [afterStep] at hstep
    split at hstep
    · cases hstep
    · split at hstep
      · cases hstep
        exact hroom
      · cases hstep
        exact hroom
  · intro mp₁ mp₂ hd _ hstep
    rw [afterStep] at hstep
    split at hstep
    · next hfew =>
      cases hstep
      exact ⟨hd, Nat.lt_of_lt_of_le hfew (by decide)⟩
    · split at hstep <;> cases hstep

theorem partHeaders_narrow {mp : Multipart} {stream : List Event}
    (h : Narrow (headerCap + 1) mp stream) (head : PartHead)
    (hhead : (mp.partHeaders stream).1 = .ok head) :
    Narrow (headerCap + 1) (mp.partHeaders stream).2.1 (mp.partHeaders stream).2.2 := by
  have hspec := headLoop_spec mp stream
  have hloop : ∀ a, (mp.fillLoop headStep (fun _ => .truncated) stream).1 = .ok a →
      Narrow (headerCap + 1) (mp.fillLoop headStep (fun _ => .truncated) stream).2.1
        (mp.fillLoop headStep (fun _ => .truncated) stream).2.2 := by
    apply fillLoop_narrow ?_ ?_ rfl h
    · intro mp₁ mp₂ a _ hroom hstep
      rcases headStep_some hstep [] with ⟨i, -, -, rfl, -⟩ | ⟨f, hf, -⟩
      · exact hroom
      · cases hf
    · intro mp₁ mp₂ hd _ hstep
      obtain ⟨rfl, -, hcap⟩ := headStep_none hstep
      exact ⟨hd, Nat.lt_succ_of_le hcap⟩
  rw [partHeaders] at hhead ⊢
  generalize mp.fillLoop headStep (fun _ => .truncated) stream = p at hspec hloop hhead ⊢
  obtain ⟨r, mp', stream'⟩ := p
  cases hspec with
  | failed => cases hhead
  | @found i start stop _ _ _ _ _ _ hstop =>
    have hnarrow := hloop _ rfl
    dsimp only at hhead hstop hnarrow ⊢
    split
    · next htext =>
      rw [htext] at hhead
      cases hhead
    · next text htext =>
      rw [htext] at hhead
      dsimp only at hhead
      split
      · next hparse =>
        rw [hparse] at hhead
        cases hhead
      · refine ⟨?_, hnarrow.frames⟩
        have hroom := hnarrow.room
        dsimp only
        omega

theorem afterDelim_narrow {mp : Multipart} {stream : List Event}
    (h : Narrow (headerCap + 1) mp stream) (head : PartHead)
    (hhead : (mp.afterDelim stream).1 = .ok (some head)) :
    Narrow (headerCap + 1) (mp.afterDelim stream).2.1 (mp.afterDelim stream).2.2 := by
  have hafter := after_narrow h false
  rw [afterDelim] at hhead ⊢
  generalize mp.fillLoop afterStep (fun _ => .truncated) stream = p at hafter hhead ⊢
  obtain ⟨r, mp₁, stream₁⟩ := p
  cases r with
  | error f => cases hhead
  | ok closes =>
    cases closes with
    | true => cases hhead
    | false =>
      have hpart := partHeaders_narrow (hafter rfl) head
      dsimp only at hhead hpart ⊢
      generalize mp₁.partHeaders stream₁ = p at hhead hpart ⊢
      obtain ⟨r, mp₂, stream₂⟩ := p
      cases r with
      | error f => cases hhead
      | ok head' =>
        cases hhead
        exact hpart rfl

theorem nextPart_narrow {mp : Multipart} {stream : List Event} (hne : mp.delim ≠ [])
    (hlooks : mp.state = .preamble ∨ mp.state = .inPart)
    (h : Narrow (max (headerCap + 1) mp.delim.length) mp stream) (head : PartHead)
    (hhead : (mp.nextPart stream).1 = .ok (some head)) :
    Narrow (headerCap + 1) (mp.nextPart stream).2.1 (mp.nextPart stream).2.2 := by
  have hskip := skip_narrow hne h
  generalize hloop : mp.fillLoop skipStep noDelim stream = p at hskip
  obtain ⟨r, mp₁, stream₁⟩ := p
  cases r with
  | error f =>
    rw [nextPart_of_lost hlooks hloop] at hhead
    cases hhead
  | ok u =>
    rw [nextPart_of_found hlooks hloop] at hhead ⊢
    exact afterDelim_narrow (hskip rfl) head hhead

/-- **Byte by byte.** `next_part` refuses a block that does not fit. -/
theorem nextPart_refuses {delim rest : List UInt8} {mp : Multipart} {stream : List Event} {i : Nat}
    (hlooks : mp.state = .preamble ∨ mp.state = .inPart)
    (h : Narrow (max (headerCap + 1) mp.delim.length) mp stream) (hat : At delim mp stream rest)
    (hhead : HeadAt rest i) (hlong : headerCap + 1 < i + 4) : Fails mp stream := by
  have hne : mp.delim ≠ [] := hat.delim_eq ▸ hat.delim_ne
  have hskip := skip_narrow hne h
  obtain ⟨n, hbehind, hrest⟩ := hat.behind
  have hspec := skip_spec (hat.ready hlooks)
  unfold Fails
  generalize hloop : mp.fillLoop skipStep noDelim stream = p at hskip hspec
  obtain ⟨r, mp₁, stream₁⟩ := p
  cases hspec with
  | failed =>
    rw [nextPart_of_lost hlooks hloop]
    exact ⟨_, rfl⟩
  | @found e _ _ hfirst hstate hon =>
    rw [nextPart_of_found hlooks hloop]
    have hplace : n = e + mp.delim.length := by
      apply hbehind.unique
      rcases hlooks with hlooks | hlooks
      · rw [Behind, hlooks]
        exact ⟨e, hfirst, rfl⟩
      · rw [Behind, hlooks]
        exact ⟨e, hfirst, rfl⟩
    have hunread : mp₁.unread stream₁ = rest := by rw [hon.unread_eq, ← hplace, hrest]
    have hspec := after_spec mp₁ stream₁
    have hafter := after_narrow (hskip rfl) false
    rw [afterDelim]
    generalize mp₁.fillLoop afterStep (fun _ => .truncated) stream₁ = p at hspec hafter ⊢
    obtain ⟨r, mp₂, stream₂⟩ := p
    cases hspec with
    | closes hdashes =>
      rw [hunread] at hdashes
      exact absurd hdashes hhead.not_dashes
    | failed => exact ⟨_, rfl⟩
    | opens _ hon₂ =>
      -- the block comes next, and the buffer does not hold all of it
      have hnarrow := hafter rfl
      obtain ⟨bytes, rfl⟩ := hnarrow.frames
      have hsame : mp₂.unread (bytewise bytes) = rest := hon₂.unread_eq.trans hunread
      rw [← hsame] at hhead
      obtain ⟨f, hf⟩ := partHeaders_refuses hnarrow.room hhead hlong
      dsimp only
      generalize mp₂.partHeaders (bytewise bytes) = p at hf ⊢
      obtain ⟨r, mp₃, stream₃⟩ := p
      cases hf
      exact ⟨f, rfl⟩

/-! ## The whole body, and byte by byte -/

theorem new_delim (boundary : String) (limit : Nat) :
    (new boundary limit).delim = (new boundary 0).delim ∧ 4 ≤ (new boundary limit).delim.length := by
  refine ⟨rfl, ?_⟩
  show 4 ≤ (crlf ++ dashes ++ utf8 boundary).length
  rw [List.length_append]
  exact Nat.le_add_right _ _

theorem unread_new {boundary : String} {limit : Nat} {body : List UInt8} {stream : List Event}
    (hbody : body.length ≤ limit) (hlimit : limit ≤ u64Max) (h : Framing body stream) :
    (new boundary limit).unread stream = crlf ++ body := by
  have hfeed : feed limit 0 stream = (body, none) := h.feed (by omega) hlimit
  show crlf.drop 0 ++ (feed limit 0 stream).1 = _
  rw [hfeed]
  rfl

theorem searched_new (boundary : String) (limit : Nat) (stream : List Event) :
    Searched (new boundary limit) stream where
  delim_ne := List.cons_ne_nil _ _
  pos_le := Nat.le_refl 0
  clean_le := Nat.zero_le _
  clean := fun j hj => absurd hj (Nat.not_lt_zero j)

/-- A frame within the limit is taken. -/
theorem pollFill_of_room {mp : Multipart} {bytes : List UInt8} {stream : List Event}
    (hfailure : mp.failure = none) (hended : mp.ended = false)
    (hroom : mp.read + bytes.length ≤ mp.limit) (hlimit : mp.limit ≤ u64Max) :
    mp.pollFill (.frame bytes :: stream) = (.ready (.ok true), { mp with
      buf := mp.buf.drop mp.pos ++ bytes
      pos := 0
      cleanUntil := mp.cleanUntil - mp.pos
      read := mp.read + bytes.length }, stream) := by
  have hread : min (mp.read + bytes.length) u64Max = mp.read + bytes.length :=
    Nat.min_eq_left (Nat.le_trans hroom hlimit)
  unfold pollFill
  rw [hfailure]
  dsimp only
  rw [if_neg (by rw [hended]; decide), hread, if_neg (Nat.not_lt.mpr hroom), compact_eq]

/-- The reader that has taken the whole body from one frame. -/
def takenWhole (boundary : String) (limit : Nat) (body : List UInt8) : Multipart :=
  { new boundary limit with
    buf := crlf ++ body
    read := body.length }

/-- From one frame, the whole body is taken before anything is found. -/
theorem heads_takenWhole {boundary : String} {limit : Nat} {body : List UInt8}
    (hbody : body.length ≤ limit) (hlimit : limit ≤ u64Max) (uses : List PartUse) :
    (new boundary limit).heads [.frame body] uses =
      (takenWhole boundary limit body).heads [] uses := by
  have hlong := (new_delim boundary limit).2
  have hfind : find (new boundary limit).buf (new boundary limit).delim
      (max (new boundary limit).cleanUntil (new boundary limit).pos) = none := by
    apply find_of_short (List.cons_ne_nil _ _) (Nat.le_refl 0)
    show 2 < 0 + _
    omega
  -- nothing is found in the CRLF that the buffer starts with
  have hstep : skipStep (new boundary limit) = (new boundary limit, none) := by
    have hnext : (new boundary limit).nextDelim = (none, new boundary limit) := by
      have hclean : max ((new boundary limit).buf.length - ((new boundary limit).delim.length - 1))
          (new boundary limit).pos = 0 := by
        show max (2 - ((new boundary limit).delim.length - 1)) 0 = 0
        omega
      rw [nextDelim, hfind]
      dsimp only
      rw [hclean]
      rfl
    rw [skipStep, hnext]
    rfl
  have hpoll : (new boundary limit).pollFill [.frame body] =
      (.ready (.ok true), takenWhole boundary limit body, []) := by
    rw [pollFill_of_room rfl rfl (by show 0 + body.length ≤ limit; omega) hlimit]
    simp [takenWhole, new]
  have hfill : (new boundary limit).fill [.frame body] =
      (.ok true, takenWhole boundary limit body, []) := by
    rw [fill]
    split
    · next heq => cases hpoll.symm.trans heq
    · next heq =>
      cases hpoll.symm.trans heq
      rfl
  have hloop : (new boundary limit).fillLoop skipStep noDelim [.frame body] =
      (takenWhole boundary limit body).fillLoop skipStep noDelim [] := by
    rw [fillLoop]
    split
    · next heq => cases hstep.symm.trans heq
    · next heq =>
      cases hstep.symm.trans heq
      split
      · next heq =>
        cases hfill.symm.trans heq
        rfl
      · next heq => cases hfill.symm.trans heq
      · next heq => cases hfill.symm.trans heq
  cases uses with
  | nil => rfl
  | cons use uses =>
    have hnext : (new boundary limit).nextPart [.frame body] =
        (takenWhole boundary limit body).nextPart [] := by
      cases hrest : (takenWhole boundary limit body).fillLoop skipStep noDelim [] with
      | mk r p =>
        obtain ⟨mp, stream⟩ := p
        rw [hrest] at hloop
        cases r with
        | error f =>
          rw [nextPart_of_lost (Or.inl rfl) hloop, nextPart_of_lost (Or.inl rfl) hrest]
        | ok u => rw [nextPart_of_found (Or.inl rfl) hloop, nextPart_of_found (Or.inl rfl) hrest]
    rw [heads, hnext, heads]

theorem heads_of_part {mp mp' : Multipart} {stream stream' : List Event} {head : PartHead}
    (h : mp.nextPart stream = (.ok (some head), mp', stream')) (uses : List PartUse) :
    mp.heads stream (.skip :: uses) = some (some head) :: mp'.heads stream' uses := by
  rw [heads, h]
  rfl

/-- Two runs that came to the same delimiter, one with the whole body in the buffer and one that
    takes it byte by byte. -/
structure BothAt (boundary : String) (limit : Nat) (body rest : List UInt8) (skips : List PartUse)
    (said : List (Option (Option PartHead))) (whole single : Multipart) (stream : List Event) :
    Prop where
  whole_heads : ∀ uses, (takenWhole boundary limit body).heads [] (skips ++ uses) =
    said ++ whole.heads [] uses
  single_heads : ∀ uses, (new boundary limit).heads (bytewise body) (skips ++ uses) =
    said ++ single.heads stream uses
  whole_at : At (new boundary 0).delim whole [] rest
  single_at : At (new boundary 0).delim single stream rest
  looks : single.state = .preamble ∨ single.state = .inPart
  narrow : Narrow (max (headerCap + 1) single.delim.length) single stream

theorem HeadsAgree.same {boundary : String} {limit : Nat} {body rest : List UInt8}
    {skips : List PartUse} {said : List (Option (Option PartHead))} {whole single : Multipart}
    {stream : List Event} (h : HeadsAgree boundary limit body) (hbody : body.length ≤ limit)
    (hlimit : limit ≤ u64Max)
    (hboth : BothAt boundary limit body rest skips said whole single stream)
    (uses : List PartUse) : whole.heads [] uses = single.heads stream uses := by
  have hagree := h (skips ++ uses) _ _ (framing_single body) (framing_bytewise body)
  -- what both said on the way cancels
  rw [heads_takenWhole hbody hlimit, hboth.whole_heads, hboth.single_heads] at hagree
  exact List.append_cancel_left hagree

/-- In the buffer, every part is read. -/
theorem At.part_of_whole {delim rest : List UInt8} {mp : Multipart} {i : Nat} {head : PartHead}
    (hat : At delim mp [] rest) (hhead : HeadAt rest i) (hof : headOf rest i = some head) :
    ∃ mp', mp.nextPart [] = (.ok (some head), mp', []) ∧ mp'.state = .inPart ∧
      Searched mp' [] ∧ mp'.delim = delim ∧ mp'.unread [] = rest.drop (i + 4) := by
  have hnext := hat.next
  generalize mp.nextPart [] = p at hnext ⊢
  obtain ⟨r, mp', stream'⟩ := p
  cases hnext with
  | closed hdashes => exact absurd hdashes hhead.not_dashes
  | failed _ hlong => exact absurd rfl (hlong i head hhead hof).2
  | part _ hhead' hof' hstate hsearched hdelim hunread hle =>
    cases List.eq_nil_of_length_eq_zero (Nat.le_zero.mp hle)
    rw [hhead'.unique hhead] at hof' hunread
    cases hof.symm.trans hof'
    exact ⟨mp', rfl, hstate, hsearched, hdelim, hunread⟩

/-- Where the framing does not matter, both runs come to every delimiter that is reached. -/
theorem HeadsAgree.bothAt {boundary : String} {limit : Nat} {body rest : List UInt8}
    (h : HeadsAgree boundary limit body) (hbody : body.length ≤ limit) (hlimit : limit ≤ u64Max)
    (hreaches : Reaches (new boundary 0).delim (crlf ++ body) rest) :
    ∃ skips said whole single stream,
      BothAt boundary limit body rest skips said whole single stream := by
  induction hreaches with
  | @first e hfirst =>
    -- nothing is skipped on the way to the first delimiter
    refine ⟨[], [], takenWhole boundary limit body, new boundary limit, bytewise body,
      fun uses => rfl, fun uses => rfl, ?_, ?_, Or.inl rfl, ?_, body, rfl⟩
    · have hsearched : Searched (takenWhole boundary limit body) [] :=
        ⟨List.cons_ne_nil _ _, Nat.le_refl 0, Nat.zero_le _,
          fun j hj => absurd hj (Nat.not_lt_zero j)⟩
      have hunread : (takenWhole boundary limit body).unread [] = crlf ++ body := unread_nil _
      have hat := (at_of_searched (Or.inl rfl) hsearched).1 e
      rw [hunread] at hat
      exact hat hfirst
    · have hat := (at_of_searched (Or.inl rfl) (searched_new boundary limit (bytewise body))).1 e
      rw [unread_new hbody hlimit (framing_bytewise body)] at hat
      exact hat hfirst
    · show 2 - 0 ≤ max (headerCap + 1) _
      exact Nat.le_trans (by decide) (Nat.le_max_left _ _)
  | @next rest i head e _ hopen hhead hof hfirst ih =>
    obtain ⟨skips, said, whole, single, stream, hboth⟩ := ih
    have hsame := h.same hbody hlimit hboth [.skip]
    -- with the whole body in the buffer the part is read, however long its block
    obtain ⟨whole', hpart, hstate, hsearched, hdelim, hunread⟩ :=
      hboth.whole_at.part_of_whole hhead hof
    have hwhole := (at_of_searched (Or.inr hstate) hsearched).1 e
    rw [hdelim, hunread] at hwhole
    rw [heads_of_part hpart] at hsame
    -- the other run has to read the part as well
    have hnext := hboth.single_at.next
    have hne : single.delim ≠ [] := hboth.single_at.delim_eq ▸ hboth.single_at.delim_ne
    have hnarrow := nextPart_narrow hne hboth.looks hboth.narrow head
    have hfails : ¬ Fails single stream := by
      intro hfails
      rw [heads_of_fails hfails] at hsame
      cases hsame
    unfold Fails at hfails
    generalize hsingle : single.nextPart stream = p at hnext hnarrow hfails
    obtain ⟨r, single', stream'⟩ := p
    cases hnext with
    | closed hdashes => exact absurd hdashes hopen
    | failed => exact absurd ⟨_, rfl⟩ hfails
    | part _ hhead' hof' hstate' hsearched' hdelim' hunread' =>
      rw [hhead'.unique hhead] at hof' hunread'
      cases hof.symm.trans hof'
      have hsingle' := (at_of_searched (Or.inr hstate') hsearched').1 e
      rw [hdelim', hunread'] at hsingle'
      refine ⟨skips ++ [.skip], said ++ [some (some head)], whole', single', stream', ?_, ?_,
        hwhole hfirst, hsingle' hfirst, Or.inr hstate', ?_, (hnarrow rfl).frames⟩
      · intro uses
        rw [List.append_assoc, hboth.whole_heads, List.singleton_append, heads_of_part hpart,
          List.append_assoc, List.singleton_append]
      · intro uses
        rw [List.append_assoc, hboth.single_heads, List.singleton_append, heads_of_part hsingle,
          List.append_assoc, List.singleton_append]
      · exact Nat.le_trans (hnarrow rfl).room (Nat.le_max_left _ _)

/-- **A block that does not fit** is read from one frame and refused byte by byte. -/
theorem HeadsAgree.fits {boundary : String} {limit : Nat} {body : List UInt8}
    (h : HeadsAgree boundary limit body) (hbody : body.length ≤ limit)
    (hlimit : limit ≤ u64Max) : BlocksFit boundary body := by
  intro rest i head hreaches hhead hof
  by_contra hlong
  obtain ⟨skips, said, whole, single, stream, hboth⟩ := h.bothAt hbody hlimit hreaches
  have hsame := h.same hbody hlimit hboth [.skip]
  obtain ⟨whole', hpart, -⟩ := hboth.whole_at.part_of_whole hhead hof
  have hfails := nextPart_refuses hboth.looks hboth.narrow hboth.single_at hhead
    (Nat.not_le.mp hlong)
  rw [heads_of_part hpart, heads_of_fails hfails] at hsame
  cases hsame

/-- **When the framing does not matter.** What is said of the parts of a body is the same under all
    framings if and only if every header block that is reached fits the cap. -/
theorem headsAgree_iff {boundary : String} {limit : Nat} {body : List UInt8}
    (hbody : body.length ≤ limit) (hlimit : limit ≤ u64Max) :
    HeadsAgree boundary limit body ↔ BlocksFit boundary body := by
  refine ⟨fun h => h.fits hbody hlimit, fun hfits uses stream stream' hframes hframes' => ?_⟩
  have hall : ∀ rest i head, Reaches (new boundary 0).delim (crlf ++ body) rest →
      HeadAt rest i → headOf rest i = some head → i + 4 ≤ headerCap + 1 := hfits
  apply heads_eq hall
  have hfirst := at_of_searched (Or.inl rfl) (searched_new boundary limit stream)
  have hfirst' := at_of_searched (Or.inl rfl) (searched_new boundary limit stream')
  rw [unread_new hbody hlimit hframes] at hfirst
  rw [unread_new hbody hlimit hframes'] at hfirst'
  by_cases hdelim : ∃ e, FirstAt (new boundary 0).delim (crlf ++ body) e
  · obtain ⟨e, he⟩ := hdelim
    exact .go (.first he) (hfirst.1 e he) (hfirst'.1 e he)
  · rw [not_exists] at hdelim
    exact .fail (hfirst.2 hdelim) (hfirst'.2 hdelim)

theorem headsAgree_iff_closed : HeadsAgree "b" 100 (utf8 "--b--") ↔ BlocksFit "b" (utf8 "--b--") :=
  headsAgree_iff (by decide) (by decide)

/-- A name as long as the cap. -/
def longName : String := String.ofList (List.replicate headerCap 'a')

/-- A body whose only part has that name. -/
def longBody : List UInt8 :=
  (dashes ++ utf8 "b") ++ headBlock longName "f" "Content-Type: image/png"

theorem length_longBlock : (headBlock longName "f" "Content-Type: image/png").length =
    headerCap + 84 := by
  have hname : (utf8 longName).length = headerCap := by
    have hascii : ∀ c ∈ List.replicate headerCap 'a', c.toNat < 128 := by
      intro c hc
      rw [(List.mem_replicate.mp hc).2]
      decide
    rw [longName, utf8_ofList_of_ascii hascii, List.length_map, List.length_replicate]
  have hline : (utf8 (dispositionLine longName "f")).length = headerCap + 53 := by
    show (utf8 ("Content-Disposition: form-data; name=\"" ++ longName ++ "\"; filename=\"" ++ "f" ++
      "\"")).length = _
    have hfront : (utf8 "Content-Disposition: form-data; name=\"").length = 38 := by decide
    have hmiddle : (utf8 "\"; filename=\"").length = 13 := by decide
    have hback : (utf8 "f").length = 1 ∧ (utf8 "\"").length = 1 := by decide
    simp only [utf8_append, List.length_append, hname, hfront, hmiddle, hback.1, hback.2]
    omega
  have htype : (utf8 "Content-Type: image/png").length = 23 := by decide
  have hcrlf : crlf.length = 2 := by rfl
  rw [length_headBlock, utf8_headText, List.length_append, List.length_append, hline, htype, hcrlf]
  omega

/-- The longer block is taken from one frame and refused byte by byte. -/
theorem framing_matters : longBody.length ≤ u64Max ∧ ¬ HeadsAgree "b" u64Max longBody := by
  have hname : Quotable longName := by
    have honly (c : Char) (hc : c ≠ 'a') : c ∉ longName.toList := by
      rw [longName, String.toList_ofList]
      exact fun hmem => hc (List.mem_replicate.mp hmem).2
    exact ⟨honly _ (by decide), honly _ (by decide), honly _ (by decide)⟩
  have hcut : ';' ∉ longName.toList := by
    rw [longName, String.toList_ofList]
    exact fun hmem => absurd (List.mem_replicate.mp hmem).2 (by decide)
  have hfile : Quotable "f" := ⟨by decide, by decide, by decide⟩
  have hline : ContentTypeLine "Content-Type: image/png" :=
    ⟨by decide, "Content-Type".toList, " image/png".toList, by decide, by decide⟩
  have hbody : longBody.length ≤ u64Max := by
    rw [longBody, List.length_append, length_longBlock]
    decide
  refine ⟨hbody, fun h => ?_⟩
  have hfits := h.fits hbody (Nat.le_refl u64Max)
  have hfirst : FirstAt (new "b" 0).delim (crlf ++ longBody) 0 :=
    ⟨List.prefix_append ((new "b" 0).delim) (headBlock longName "f" "Content-Type: image/png"),
      fun j hj => absurd hj (Nat.not_lt_zero j)⟩
  have hreaches := Reaches.first hfirst
  have hrest : (crlf ++ longBody).drop (0 + (new "b" 0).delim.length) =
      headBlock longName "f" "Content-Type: image/png" := by
    rfl
  rw [hrest] at hreaches
  obtain ⟨head, hof, -⟩ := headOf_headBlock hname hfile hline hcut (by decide) []
  have hhead := headAt_headBlock hname hfile hline []
  rw [List.append_nil] at hof hhead
  have hle := hfits _ _ head hreaches hhead hof
  rw [← length_headBlock, length_longBlock] at hle
  omega

end CirisServer.Multipart
