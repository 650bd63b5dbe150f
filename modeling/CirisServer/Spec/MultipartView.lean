import CirisServer.ForStd.Find
import CirisServer.Native.Multipart

/-!
# What the multipart reader has not read

The reader's buffer, its search cache and the frames that still come are one text: the bytes from
the current place on (`unread`). Filling the buffer does not change it, and a delimiter that the
reader finds is the first one in it, however the frames cut the delimiter.

Key results:
- `find_spec`: `find` finds the first occurrence
- `fill_spec`, `pollFill_spec`: what a fill can do
- `nextDelim_spec`: the search, with the cache
-/

namespace CirisServer.Multipart

open List (StartsAt FirstAt)

/-! ## Finding -/

theorem head_of_startsAt {hay needle : List UInt8} {first : UInt8} {j : Nat}
    (hfirst : needle.head? = some first) (h : StartsAt needle hay j) : hay[j]? = some first := by
  obtain ⟨rest, rfl⟩ := List.head?_eq_some_iff.mp hfirst
  obtain ⟨tail, htail⟩ := h
  have hhead := congrArg List.head? htail
  rw [List.head?_drop] at hhead
  exact hhead.symm

/-- The scan looks at every place where the needle fits. -/
theorem getElem?_scan {hay needle : List UInt8} {start j : Nat} (hstart : start ≤ j)
    (hfit : j + needle.length ≤ hay.length) :
    ((hay.drop start).take (hay.length - needle.length + 1 - start))[j - start]? = hay[j]? := by
  rw [List.getElem?_take_of_lt (by omega), List.getElem?_drop, Nat.add_sub_cancel' hstart]

theorem startsAt_iff_take {hay needle : List UInt8} {i : Nat} :
    StartsAt needle hay i ↔ (hay.drop i).take needle.length = needle := by
  rw [StartsAt, List.prefix_iff_eq_take, eq_comm]

/-- Before the place that the scan stops at, nothing starts. -/
theorem not_startsAt_of_scan {hay needle : List UInt8} {first : UInt8} {start rel j : Nat}
    (hne : needle ≠ []) (hhead : needle.head? = some first)
    (hscan : ((hay.drop start).take (hay.length - needle.length + 1 - start)).findIdx?
      (· == first) = some rel) (hj : start ≤ j) (hlt : j < start + rel) :
    ¬ StartsAt needle hay j := by
  intro hstarts
  obtain ⟨hrel, -, hmiss⟩ := List.findIdx?_eq_some_iff_getElem.mp hscan
  have hplace := getElem?_scan hj (hstarts.length_le hne)
  rw [head_of_startsAt hhead hstarts, List.getElem?_eq_getElem (by omega),
    Option.some.injEq] at hplace
  apply hmiss (j - start) (by omega)
  rw [hplace]
  exact beq_self_eq_true first

/-- `find` finds the first occurrence from `start` on. -/
theorem find_spec {hay needle : List UInt8} (hne : needle ≠ []) (start : Nat) :
    (∀ i, find hay needle start = some i → start ≤ i ∧ StartsAt needle hay i ∧
      ∀ j, start ≤ j → j < i → ¬ StartsAt needle hay j) ∧
    (find hay needle start = none → ∀ j, start ≤ j → ¬ StartsAt needle hay j) := by
  induction start using find.induct hay needle with
  | case1 start hhead => exact absurd (List.head?_eq_none_iff.mp hhead) hne
  | case2 start first hhead hfit hscan =>
    rw [find, hhead]
    dsimp only
    rw [if_pos hfit, hscan]
    refine ⟨fun i h => ?_, fun _ j hj hstarts => ?_⟩
    · cases h
    · have hplace := getElem?_scan hj (hstarts.length_le hne)
      rw [head_of_startsAt hhead hstarts] at hplace
      have hmiss := List.findIdx?_eq_none_iff.mp hscan first (List.mem_of_getElem? hplace)
      simp at hmiss
  | case3 start first hhead hfit rel hscan hcompare =>
    rw [find, hhead]
    dsimp only
    rw [if_pos hfit, hscan]
    dsimp only
    rw [if_pos hcompare]
    refine ⟨fun i h => ?_, fun h => ?_⟩
    · cases h
      exact ⟨by omega, startsAt_iff_take.mpr hcompare,
        fun j hj hlt => not_startsAt_of_scan hne hhead hscan hj hlt⟩
    · cases h
  | case4 start first hhead hfit rel hscan hcompare ih =>
    rw [find, hhead]
    dsimp only
    rw [if_pos hfit, hscan]
    dsimp only
    rw [if_neg hcompare]
    -- the place of the scan was compared, and the rest is searched from there
    have hskip (j : Nat) (hj : start ≤ j) (hlt : j < start + rel + 1) :
        ¬ StartsAt needle hay j := by
      rcases Nat.lt_or_ge j (start + rel) with hbefore | hat
      · exact not_startsAt_of_scan hne hhead hscan hj hbefore
      · have heq : j = start + rel := by omega
        rw [heq, startsAt_iff_take]
        exact hcompare
    refine ⟨fun i h => ?_, fun h j hj => ?_⟩
    · obtain ⟨hle, hstarts, hclean⟩ := ih.1 i h
      refine ⟨by omega, hstarts, fun j hj hlt => ?_⟩
      rcases Nat.lt_or_ge j (start + rel + 1) with hnear | hfar
      · exact hskip j hj hnear
      · exact hclean j hfar hlt
    · rcases Nat.lt_or_ge j (start + rel + 1) with hnear | hfar
      · exact hskip j hj hnear
      · exact ih.2 h j hfar
  | case5 start first hhead hfit =>
    rw [find, hhead]
    dsimp only
    rw [if_neg hfit]
    refine ⟨fun i h => ?_, fun _ j hj hstarts => ?_⟩
    · cases h
    · have hle := hstarts.length_le hne
      omega

/-! ## What is to come -/

/-- What the stream brings from here on: the bytes of the frames that are taken, and the failure
    that ends them, unless the body ends. -/
def feed (limit : Nat) : Nat → List Event → List UInt8 × Option Failure
  | _, [] => ([], none)
  | read, .pending :: stream => feed limit read stream
  | _, .error e :: _ => ([], some (.transport e))
  | read, .frame bytes :: stream =>
    let read := min (read + bytes.length) u64Max
    if limit < read then ([], some (.tooLarge limit))
    else (bytes ++ (feed limit read stream).1, (feed limit read stream).2)

/-- What a reader can still take. After a failure or the end of the body it is nothing. -/
def toCome (mp : Multipart) (stream : List Event) : List UInt8 × Option Failure :=
  match mp.failure with
  | some f => ([], some f)
  | none => if mp.ended then ([], none) else feed mp.limit mp.read stream

/-- The bytes from the current place on. -/
def unread (mp : Multipart) (stream : List Event) : List UInt8 :=
  mp.buf.drop mp.pos ++ (mp.toCome stream).1

/-- What the bytes end with. -/
def ending (mp : Multipart) (stream : List Event) : Option Failure := (mp.toCome stream).2

/-- The reader has gone on by `n` bytes of what was to be read. -/
structure Onward (n : Nat) (mp : Multipart) (stream : List Event) (mp' : Multipart)
    (stream' : List Event) : Prop where
  length_le : stream'.length ≤ stream.length
  left_le : mp'.left stream' + n ≤ mp.left stream
  delim_eq : mp'.delim = mp.delim
  failure_eq : mp'.failure = mp.failure
  unread_eq : mp'.unread stream' = (mp.unread stream).drop n
  ending_eq : mp'.ending stream' = mp.ending stream

theorem Onward.refl (mp : Multipart) (stream : List Event) : Onward 0 mp stream mp stream :=
  ⟨Nat.le_refl _, Nat.le_refl _, rfl, rfl, rfl, rfl⟩

theorem Onward.trans {m n : Nat} {mp mp₁ mp₂ : Multipart} {stream stream₁ stream₂ : List Event}
    (h : Onward m mp stream mp₁ stream₁) (h' : Onward n mp₁ stream₁ mp₂ stream₂) :
    Onward (m + n) mp stream mp₂ stream₂ where
  length_le := Nat.le_trans h'.length_le h.length_le
  left_le := by
    have hfirst := h.left_le
    have hsecond := h'.left_le
    omega
  delim_eq := h'.delim_eq.trans h.delim_eq
  failure_eq := h'.failure_eq.trans h.failure_eq
  unread_eq := by rw [h'.unread_eq, h.unread_eq, List.drop_drop]
  ending_eq := h'.ending_eq.trans h.ending_eq

/-- More bytes are in the buffer, and nothing else happened. -/
structure Filled (mp : Multipart) (stream : List Event) (mp' : Multipart)
    (stream' : List Event) : Prop where
  shorter : stream'.length < stream.length
  left_le : mp'.left stream' ≤ mp.left stream
  open_ : mp.failure = none
  eq : ∃ bytes read, mp' = { mp with
    buf := mp.buf.drop mp.pos ++ bytes
    pos := 0
    cleanUntil := mp.cleanUntil - mp.pos
    read := read }
  unread_eq : mp'.unread stream' = mp.unread stream
  ending_eq : mp'.ending stream' = mp.ending stream

theorem Filled.onward {mp mp' : Multipart} {stream stream' : List Event}
    (h : Filled mp stream mp' stream') : Onward 0 mp stream mp' stream' := by
  obtain ⟨bytes, read, hmp'⟩ := h.eq
  refine ⟨Nat.le_of_lt h.shorter, h.left_le, ?_, ?_, h.unread_eq, h.ending_eq⟩
  · rw [hmp']
  · rw [hmp']

/-- What a fill can do. -/
inductive FillSpec (mp : Multipart) (stream : List Event) :
    Except Failure Bool → Multipart → List Event → Prop where
  | filled {mp' stream'} : Filled mp stream mp' stream' →
      FillSpec mp stream (.ok true) mp' stream'
  | ended {stream'} : mp.failure = none → mp.toCome stream = ([], none) →
      FillSpec mp stream (.ok false) { mp with ended := true } stream'
  | failed {f stream'} (read : Nat) : mp.toCome stream = ([], some f) →
      FillSpec mp stream (.error f) { mp with read := read, failure := some f } stream'

theorem compact_eq (mp : Multipart) : mp.compact =
    { mp with buf := mp.buf.drop mp.pos, cleanUntil := mp.cleanUntil - mp.pos, pos := 0 } := by
  rw [compact]
  split
  · rfl
  · next hpos =>
    have hzero : mp.pos = 0 := by omega
    cases mp
    cases hzero
    rfl

/-- What a poll of the stream can do. -/
inductive PollSpec (mp : Multipart) (stream : List Event) :
    Poll (Except Failure Bool) → Multipart → List Event → Prop where
  | pending {stream'} : stream'.length < stream.length → mp.toCome stream' = mp.toCome stream →
      PollSpec mp stream .pending mp stream'
  | ready {r mp' stream'} : FillSpec mp stream r mp' stream' →
      PollSpec mp stream (.ready r) mp' stream'

theorem pollFill_spec {mp mp' : Multipart} {stream stream' : List Event}
    {r : Poll (Except Failure Bool)} (h : mp.pollFill stream = (r, mp', stream')) :
    PollSpec mp stream r mp' stream' := by
  have hleft := pollFill_left_le h
  unfold pollFill at h
  split at h
  · next f hfailure =>
    cases h
    have hmp : mp = { mp with failure := some f } := by rw [← hfailure]
    have hcome : mp.toCome stream = ([], some f) := by rw [toCome, hfailure]
    have hspec : FillSpec mp stream (.error f) { mp with failure := some f } stream :=
      .failed mp.read hcome
    rw [← hmp] at hspec
    exact .ready hspec
  next hfailure =>
  split at h
  · next hended =>
    cases h
    have hmp : mp = { mp with ended := true } := by rw [← hended]
    have hcome : mp.toCome stream = ([], none) := by rw [toCome, hfailure]; exact if_pos hended
    have hspec : FillSpec mp stream (.ok false) { mp with ended := true } stream :=
      .ended hfailure hcome
    rw [← hmp] at hspec
    exact .ready hspec
  next hended =>
  have hcome (s : List Event) : mp.toCome s = feed mp.limit mp.read s := by
    rw [toCome, hfailure]
    exact if_neg hended
  split at h
  · cases h
    exact .ready (.ended hfailure (hcome []))
  · cases h
    exact .pending (Nat.lt_succ_self _) (by rw [hcome, hcome]; rfl)
  · next e _ =>
    dsimp only [fail] at h
    rw [hfailure] at h
    cases h
    exact .ready (.failed mp.read (hcome _))
  · next bytes rest =>
    dsimp only at h
    split at h
    · next hlimit =>
      dsimp only [fail] at h
      rw [hfailure] at h
      cases h
      refine .ready (.failed _ ?_)
      rw [hcome, feed]
      exact if_pos hlimit
    · next hlimit =>
      rw [compact_eq] at h
      cases h
      have hfeed : feed mp.limit mp.read (.frame bytes :: stream') =
          (bytes ++ (feed mp.limit (min (mp.read + bytes.length) u64Max) stream').1,
            (feed mp.limit (min (mp.read + bytes.length) u64Max) stream').2) := by
        rw [feed]
        exact if_neg hlimit
      refine .ready (.filled ⟨Nat.lt_succ_self _, hleft, hfailure, ⟨bytes, _, rfl⟩, ?_, ?_⟩)
      · rw [unread, unread, hcome, hfeed, toCome, hfailure]
        dsimp only
        rw [if_neg hended]
        simp
      · rw [ending, ending, hcome, hfeed, toCome, hfailure]
        dsimp only
        rw [if_neg hended]

theorem fill_spec {mp mp' : Multipart} {stream stream' : List Event} {r : Except Failure Bool}
    (h : mp.fill stream = (r, mp', stream')) : FillSpec mp stream r mp' stream' := by
  induction hn : stream.length using Nat.strong_induction_on generalizing mp stream with
  | _ n ih =>
    rw [fill] at h
    split at h
    · next hpoll =>
      have hleft := pollFill_left_le hpoll
      cases pollFill_spec hpoll with
      | pending hshorter hcome =>
        -- the poll is made again, and the same is to come
        cases ih _ (hn ▸ hshorter) h rfl with
        | filled hfilled =>
          exact .filled ⟨Nat.lt_trans hfilled.shorter hshorter,
            Nat.le_trans hfilled.left_le hleft, hfilled.open_, hfilled.eq,
            by rw [hfilled.unread_eq, unread, hcome, unread],
            by rw [hfilled.ending_eq, ending, hcome, ending]⟩
        | ended hfailure hnone => exact .ended hfailure (hcome ▸ hnone)
        | failed read hnone => exact .failed read (hcome ▸ hnone)
    · next hpoll =>
      cases h
      cases pollFill_spec hpoll with
      | ready hspec => exact hspec

theorem pollFill_pending {mp mp' : Multipart} {stream stream' : List Event}
    (h : mp.pollFill stream = (.pending, mp', stream')) :
    mp' = mp ∧ stream'.length < stream.length ∧ Onward 0 mp stream mp stream' := by
  have hleft := pollFill_left_le h
  cases pollFill_spec h with
  | pending hshorter hcome =>
    refine ⟨rfl, hshorter, Nat.le_of_lt hshorter, hleft, rfl, rfl, ?_, ?_⟩
    · rw [unread, hcome]
      rfl
    · rw [ending, hcome]
      rfl

theorem pollFill_filled {mp mp' : Multipart} {stream stream' : List Event}
    (h : mp.pollFill stream = (.ready (.ok true), mp', stream')) :
    Filled mp stream mp' stream' := by
  cases pollFill_spec h with
  | ready hspec =>
    cases hspec with
    | filled hfilled => exact hfilled

theorem pollFill_ended {mp mp' : Multipart} {stream stream' : List Event}
    (h : mp.pollFill stream = (.ready (.ok false), mp', stream')) :
    mp.failure = none ∧ mp.toCome stream = ([], none) ∧ mp' = { mp with ended := true } := by
  cases pollFill_spec h with
  | ready hspec =>
    cases hspec with
    | ended hfailure hcome => exact ⟨hfailure, hcome, rfl⟩

theorem pollFill_failed {mp mp' : Multipart} {stream stream' : List Event} {f : Failure}
    (h : mp.pollFill stream = (.ready (.error f), mp', stream')) :
    mp.toCome stream = ([], some f) ∧ ∃ read, mp' = { mp with read := read, failure := some f } := by
  cases pollFill_spec h with
  | ready hspec =>
    cases hspec with
    | failed read hcome => exact ⟨hcome, read, rfl⟩

/-- A fill takes the next frame. -/
theorem pollFill_frame {mp mp' : Multipart} {stream stream' : List Event}
    (h : mp.pollFill stream = (.ready (.ok true), mp', stream')) :
    ∃ bytes, stream = .frame bytes :: stream' ∧
      mp'.buf.length - mp'.pos = mp.buf.length - mp.pos + bytes.length := by
  unfold pollFill at h
  split at h
  · cases h
  split at h
  · cases h
  split at h
  · cases h
  · cases h
  · cases h
  · next bytes _ =>
    dsimp only at h
    split at h
    · cases h
    · rw [compact_eq] at h
      cases h
      refine ⟨bytes, rfl, ?_⟩
      simp only [List.length_append, List.length_drop]
      omega

theorem pollFill_waits {mp mp' : Multipart} {stream stream' : List Event}
    (h : mp.pollFill stream = (.pending, mp', stream')) : stream = .pending :: stream' := by
  unfold pollFill at h
  split at h
  · cases h
  split at h
  · cases h
  split at h
  · cases h
  · cases h
    rfl
  · cases h
  · dsimp only at h
    split at h <;> cases h

theorem fill_filled {mp mp' : Multipart} {stream stream' : List Event}
    (h : mp.fill stream = (.ok true, mp', stream')) : Filled mp stream mp' stream' := by
  cases fill_spec h with
  | filled hfilled => exact hfilled

theorem fill_ended {mp mp' : Multipart} {stream stream' : List Event}
    (h : mp.fill stream = (.ok false, mp', stream')) :
    mp.failure = none ∧ mp.toCome stream = ([], none) ∧ mp' = { mp with ended := true } := by
  cases fill_spec h with
  | ended hfailure hcome => exact ⟨hfailure, hcome, rfl⟩

theorem fill_failed {mp mp' : Multipart} {stream stream' : List Event} {f : Failure}
    (h : mp.fill stream = (.error f, mp', stream')) :
    mp.toCome stream = ([], some f) ∧ ∃ read, mp' = { mp with read := read, failure := some f } := by
  cases fill_spec h with
  | failed read hcome => exact ⟨hcome, read, rfl⟩

theorem pollFill_length_le {mp mp' : Multipart} {stream stream' : List Event}
    {r : Poll (Except Failure Bool)} (h : mp.pollFill stream = (r, mp', stream')) :
    stream'.length ≤ stream.length := by
  unfold pollFill at h
  split at h
  · cases h
    exact Nat.le_refl _
  split at h
  · cases h
    exact Nat.le_refl _
  split at h
  · cases h
    exact Nat.le_refl _
  · cases h
    exact Nat.le_succ _
  · cases h
    exact Nat.le_succ _
  · dsimp only at h
    split at h
    · cases h
      exact Nat.le_succ _
    · cases h
      exact Nat.le_succ _

theorem fill_left_le {mp mp' : Multipart} {stream stream' : List Event}
    {r : Except Failure Bool} (h : mp.fill stream = (r, mp', stream')) :
    stream'.length ≤ stream.length ∧ mp'.left stream' ≤ mp.left stream := by
  induction hn : stream.length using Nat.strong_induction_on generalizing mp stream with
  | _ n ih =>
    rw [fill] at h
    split at h
    · next hpoll =>
      have hless := pollFill_pending_lt hpoll
      have hrest := ih _ (hn ▸ hless) h rfl
      exact ⟨by omega, Nat.le_trans hrest.2 (pollFill_left_le hpoll)⟩
    · next hpoll =>
      cases h
      exact ⟨hn ▸ pollFill_length_le hpoll, pollFill_left_le hpoll⟩

theorem ending_eq_of_toCome {mp : Multipart} {stream : List Event} {e : Option Failure}
    (h : mp.toCome stream = ([], e)) : mp.ending stream = e := by
  rw [ending, h]

theorem Filled.state_eq {mp mp' : Multipart} {stream stream' : List Event}
    (h : Filled mp stream mp' stream') :
    mp'.state = mp.state ∧ mp'.buf.length - mp'.pos ≥ mp.buf.length - mp.pos := by
  obtain ⟨bytes, read, hmp'⟩ := h.eq
  rw [hmp']
  refine ⟨rfl, ?_⟩
  simp only [List.length_append, List.length_drop]
  omega

/-! ## The search for a delimiter -/

/-- The search cache is right: no delimiter starts in what it leaves out. -/
structure Searched (mp : Multipart) (stream : List Event) : Prop where
  delim_ne : mp.delim ≠ []
  pos_le : mp.pos ≤ mp.cleanUntil
  clean_le : mp.cleanUntil ≤ mp.buf.length
  clean : ∀ j < mp.cleanUntil - mp.pos, ¬ StartsAt mp.delim (mp.unread stream) j

/-- What lies in the buffer is seen there. -/
theorem startsAt_unread_iff {mp : Multipart} {stream : List Event} {needle : List UInt8} {j : Nat}
    (h : mp.pos + j + needle.length ≤ mp.buf.length) :
    StartsAt needle (mp.unread stream) j ↔ StartsAt needle mp.buf (mp.pos + j) := by
  rw [unread, List.startsAt_append_iff (by rw [List.length_drop]; omega), List.startsAt_drop]

theorem Searched.filled {mp mp' : Multipart} {stream stream' : List Event}
    (h : Searched mp stream) (hfilled : Filled mp stream mp' stream') : Searched mp' stream' := by
  obtain ⟨bytes, read, hmp'⟩ := hfilled.eq
  have hclean := h.clean
  rw [← hfilled.unread_eq] at hclean
  have hpos := h.pos_le
  have hle := h.clean_le
  refine ⟨by rw [hmp']; exact h.delim_ne, by rw [hmp']; exact Nat.zero_le _, ?_, ?_⟩
  · rw [hmp']
    simp only [List.length_append, List.length_drop]
    omega
  · have hplaces : mp'.cleanUntil - mp'.pos = mp.cleanUntil - mp.pos ∧ mp'.delim = mp.delim := by
      rw [hmp']
      exact ⟨rfl, rfl⟩
    rw [hplaces.1, hplaces.2]
    exact hclean

/-- The search cache is about what is not read, not about how it comes. -/
theorem Searched.onward {mp : Multipart} {stream stream' : List Event} (h : Searched mp stream)
    (hon : Onward 0 mp stream mp stream') : Searched mp stream' := by
  refine ⟨h.delim_ne, h.pos_le, h.clean_le, ?_⟩
  rw [hon.unread_eq]
  exact h.clean

/-- A delimiter that is found is the first one that is not read. -/
theorem nextDelim_some {mp mp' : Multipart} {stream : List Event} {i : Nat}
    (h : Searched mp stream) (hnext : mp.nextDelim = (some i, mp')) :
    mp' = { mp with cleanUntil := i } ∧ mp.pos ≤ i ∧ i + mp.delim.length ≤ mp.buf.length ∧
      FirstAt mp.delim (mp.unread stream) (i - mp.pos) := by
  rw [nextDelim] at hnext
  split at hnext
  · next k hfind =>
    cases hnext
    obtain ⟨hle, hstarts, hclean⟩ := (find_spec h.delim_ne _).1 i hfind
    have hfit := hstarts.length_le h.delim_ne
    have hpos : mp.pos ≤ i := by omega
    refine ⟨rfl, hpos, hfit, ?_, fun j hj hj' => ?_⟩
    · rw [startsAt_unread_iff (by omega), Nat.add_sub_cancel' hpos]
      exact hstarts
    · rcases Nat.lt_or_ge j (mp.cleanUntil - mp.pos) with hold | hnew
      · exact h.clean j hold hj'
      · rw [startsAt_unread_iff (by omega)] at hj'
        exact hclean (mp.pos + j) (by omega) (by omega) hj'
  · cases hnext

/-- What can only be the start of a delimiter is held back. -/
theorem nextDelim_none {mp mp' : Multipart} {stream : List Event} (h : Searched mp stream)
    (hnext : mp.nextDelim = (none, mp')) :
    mp' = { mp with
      cleanUntil := max (mp.buf.length - (mp.delim.length - 1)) mp.pos } ∧
      Searched mp' stream := by
  rw [nextDelim] at hnext
  split at hnext
  · cases hnext
  · next hfind =>
    cases hnext
    have hnone := (find_spec h.delim_ne _).2 hfind
    have hpos := h.pos_le
    have hle := h.clean_le
    have hne := List.length_pos_of_ne_nil h.delim_ne
    refine ⟨rfl, h.delim_ne, Nat.le_max_right _ _, by dsimp only; omega, fun j hj hj' => ?_⟩
    dsimp only at hj hj'
    rcases Nat.lt_or_ge j (mp.cleanUntil - mp.pos) with hold | hnew
    · exact h.clean j hold hj'
    · have hsame : mp.unread stream =
          unread { mp with
            cleanUntil := max (mp.buf.length - (mp.delim.length - 1)) mp.pos } stream := rfl
      rw [← hsame, startsAt_unread_iff (by omega)] at hj'
      exact hnone (mp.pos + j) (by omega) hj'

end CirisServer.Multipart
