import Mathlib.Data.List.TakeDrop
import CirisServer.Native.Streaming

/-!
# A streamed read is the file

A walk sends consecutive pieces of the file, and the next one starts where the last one ended:
across windows, retries and the handover from `chunks()` to `open_range`. A walk of chunks that
breaks on a pending grant hands over only what the file's pointer declares, and closes without a
word where it declares less than there is, or nothing.

Key results:
- `walkRange_spec`: a range
- `spawnChunks_spec`: a whole file
- `streamed_reads_exact`: both, for every file and every run
- `undeclared_size_ends_early`: a walk that closes without a word
-/

namespace CirisServer.Streaming

/-! ## What the receiver has -/

/-- The bytes of an item. -/
def itemBytes : Item → List UInt8
  | .ok bytes => bytes
  | .error _ => []

/-- The bytes delivered, in order. -/
def Sent.delivered (s : Sent) : List UInt8 := s.items.flatMap itemBytes

/-- The channel closed, nothing refused, and the receiver was there. -/
def Sent.Silent (s : Sent) : Prop := s.channel = .closed ∧ ∀ e, .error e ∉ s.items

@[simp] theorem delivered_nil (channel : Channel) : Sent.delivered ⟨[], channel⟩ = [] := rfl

@[simp] theorem delivered_push (bytes : List UInt8) (s : Sent) :
    (s.push (.ok bytes)).delivered = bytes ++ s.delivered := rfl

@[simp] theorem silent_push {bytes : List UInt8} {s : Sent} :
    (s.push (.ok bytes)).Silent ↔ s.Silent := by
  simp [Sent.Silent, Sent.push]

@[simp] theorem delivered_sendError (received : Bool) (e : FileError) :
    (sendError received e).delivered = [] := by
  cases received <;> rfl

/-- An error is not silent. -/
theorem not_silent_sendError (received : Bool) (e : FileError) :
    ¬ (sendError received e).Silent := by
  cases received <;> simp [sendError, Sent.Silent]

/-! ## What edge promises -/

/-- `open_range` answers with the very bytes asked for, or refuses. -/
def Opens (file : List UInt8) (t : Try) : Prop :=
  ∀ start n bytes, t.openRange start n = .ok bytes →
    start + n ≤ file.length ∧ bytes = (file.drop start).take n

/-- `chunks()` yields consecutive slices of the file, and ends with the file or with an error. -/
def ChunksOf (file : List UInt8) : List Pull → Nat → Prop
  | [], _ => True
  | .ended :: _, sent => sent = file.length
  | .item (.ok bytes) _ :: pulls, sent =>
    bytes <+: file.drop sent ∧ ChunksOf file pulls (sent + bytes.length)
  | .item (.error _) _ :: _, _ => True

variable {file : List UInt8} {tries : List Try}

/-! ## A range -/

theorem windowLast_bounds {start last : Nat} (h : start ≤ last) :
    start ≤ windowLast start last ∧ windowLast start last ≤ last := by
  unfold windowLast rangeWindow
  omega

/-- A slice is cut in two anywhere. -/
theorem slice_split {start m n : Nat} :
    (file.drop start).take (m + n) = (file.drop start).take m ++ (file.drop (start + m)).take n := by
  rw [List.take_add, List.drop_drop]

/-- What was sent is a prefix of the range, and the range if the channel closed without a word. -/
def Walks (file : List UInt8) (last start : Nat) (s : Sent) : Prop :=
  s.delivered <+: (file.drop start).take (last + 1 - start) ∧
    (s.Silent → s.delivered = (file.drop start).take (last + 1 - start) ∧
      (start ≤ last → last < file.length))

theorem walks_of_not_silent {last start : Nat} {s : Sent} (hempty : s.delivered = [])
    (h : ¬ s.Silent) : Walks file last start s := by
  refine ⟨?_, fun hsilent => absurd hsilent h⟩
  rw [hempty]
  exact List.nil_prefix

theorem walks_past {last start : Nat} (h : last < start) :
    Walks file last start ⟨[], .closed⟩ := by
  have hempty : last + 1 - start = 0 := by omega
  rw [Walks, hempty, List.take_zero, delivered_nil]
  refine ⟨List.prefix_rfl, fun _ => ⟨rfl, fun hle => ?_⟩⟩
  omega

/-- A window, and then the rest of the range. -/
theorem walks_push {last start upTo : Nat} {bytes : List UInt8} {rest : Sent}
    (hstart : start ≤ upTo) (hlast : upTo ≤ last)
    (hopened : start + (upTo - start + 1) ≤ file.length ∧
      bytes = (file.drop start).take (upTo - start + 1))
    (h : Walks file last (upTo + 1) rest) : Walks file last start (rest.push (.ok bytes)) := by
  have hcut : (file.drop start).take (last + 1 - start) =
      bytes ++ (file.drop (upTo + 1)).take (last + 1 - (upTo + 1)) := by
    have hlen : last + 1 - start = (upTo - start + 1) + (last + 1 - (upTo + 1)) := by omega
    have hnext : start + (upTo - start + 1) = upTo + 1 := by omega
    rw [hlen, slice_split, hnext, hopened.2]
  rw [Walks, hcut, delivered_push, silent_push, List.prefix_append_right_inj,
    List.append_cancel_left_eq]
  refine ⟨h.1, fun hsilent => ⟨(h.2 hsilent).1, fun _ => ?_⟩⟩
  -- the last window ends within the file
  rcases Nat.lt_or_ge upTo last with hlt | hge
  · exact (h.2 hsilent).2 hlt
  · omega

/-- **Run.** -/
theorem walkRange_spec (hopens : ∀ t ∈ tries, Opens file t) (last start : Nat)
    (stalledSince : Option Nat) : Walks file last start (walkRange last tries start stalledSince) := by
  induction tries generalizing start stalledSince with
  | nil =>
    rw [walkRange]
    split
    next hpast => exact walks_past hpast
    next => exact walks_of_not_silent rfl (by simp [Sent.Silent])
  | cons t tries ih =>
    have ih := ih fun t ht => hopens t (List.mem_cons_of_mem _ ht)
    rw [walkRange]
    split
    next hpast => exact walks_past hpast
    next hpast =>
      obtain ⟨hstart, hlast⟩ := windowLast_bounds (Nat.le_of_not_lt hpast)
      dsimp only
      split
      next bytes hopened =>
        split
        · exact walks_push hstart hlast (hopens t List.mem_cons_self _ _ _ hopened) (ih _ _)
        · exact walks_of_not_silent rfl (by simp [Sent.Silent])
      next e hrefused =>
        have herror : Walks file last start (sendError t.received e) :=
          walks_of_not_silent (delivered_sendError t.received e) (not_silent_sendError t.received e)
        split
        · split
          · exact herror
          · exact ih _ _
        · exact herror

/-! ## A whole file -/

/-- The bytes sent when the walk of chunks breaks on a pending grant, if it does. -/
def cutAt : List Pull → Nat → Option Nat
  | .item (.ok bytes) true :: pulls, sent => cutAt pulls (sent + bytes.length)
  | .item (.error e) _ :: _, sent => if grantPending e then some sent else none
  | _, _ => none

/-- The pointer declares as many bytes as the file has, or the walk is not cut before the file's
    end. -/
def Covered (file : List UInt8) (size : Option Nat) (pulls : List Pull) (sent : Nat) : Prop :=
  ∀ at_, cutAt pulls sent = some at_ →
    file.length ≤ at_ ∨ ∃ total, size = some total ∧ file.length ≤ total

theorem length_drop_le_zero {sent : Nat} : [] = file.drop sent ↔ file.length ≤ sent := by
  rw [eq_comm, List.drop_eq_nil_iff]

/-- The range reader sends the rest of the file if that much is declared. -/
theorem handOver_spec (hopens : ∀ t ∈ tries, Opens file t) (size : Option Nat) (sent : Nat) :
    (handOver size tries sent).delivered <+: file.drop sent ∧
      ((handOver size tries sent).Silent → ((handOver size tries sent).delivered = file.drop sent ↔
        file.length ≤ sent ∨ ∃ total, size = some total ∧ file.length ≤ total)) := by
  cases size with
  | none =>
    refine ⟨List.nil_prefix, fun _ => ?_⟩
    rw [handOver, delivered_nil, length_drop_le_zero]
    simp
  | some total =>
    rw [handOver]
    split
    next hle =>
      refine ⟨List.nil_prefix, fun _ => ?_⟩
      rw [delivered_nil, length_drop_le_zero]
      simp only [Option.some.injEq, exists_eq_left']
      omega
    next hlt =>
      obtain ⟨hsent, hsilent⟩ := walkRange_spec hopens (total - 1) sent none
      refine ⟨hsent.trans (List.take_prefix _ _), fun hs => ?_⟩
      obtain ⟨hall, hend⟩ := hsilent hs
      have hend := hend (by omega)
      rw [hall, List.take_eq_self_iff, List.length_drop]
      simp only [Option.some.injEq, exists_eq_left']
      omega

/-- **Run.** -/
theorem spawnChunks_spec (hopens : ∀ t ∈ tries, Opens file t) (size : Option Nat)
    {pulls : List Pull} {sent : Nat} (hchunks : ChunksOf file pulls sent) :
    (spawnChunks size tries pulls sent).delivered <+: file.drop sent ∧
      ((spawnChunks size tries pulls sent).Silent →
        ((spawnChunks size tries pulls sent).delivered = file.drop sent ↔
          Covered file size pulls sent)) := by
  induction pulls generalizing sent with
  | nil =>
    refine ⟨List.nil_prefix, fun hsilent => ?_⟩
    cases hsilent.1
  | cons pull pulls ih =>
    cases pull with
    | ended =>
      obtain ⟨hsent, hsilent⟩ := handOver_spec hopens size sent
      refine ⟨hsent, fun hs => ?_⟩
      have hall := (hsilent hs).mpr (Or.inl (Nat.le_of_eq hchunks.symm))
      exact iff_of_true hall fun _ hcut => by cases hcut
    | item item received =>
      cases item with
      | ok bytes =>
        obtain ⟨hslice, hrest⟩ := hchunks
        obtain ⟨rest, hfile⟩ := hslice
        have hdrop : file.drop (sent + bytes.length) = rest := by
          rw [← List.drop_drop, ← hfile, List.drop_left]
        cases received with
        | false =>
          refine ⟨List.nil_prefix, fun hsilent => ?_⟩
          cases hsilent.1
        | true =>
          have hih := ih hrest
          rw [hdrop] at hih
          rw [spawnChunks, if_pos rfl, delivered_push, silent_push, ← hfile,
            List.prefix_append_right_inj, List.append_cancel_left_eq]
          exact hih
      | error e =>
        rw [spawnChunks]
        split
        next hpending =>
          obtain ⟨hsent, hsilent⟩ := handOver_spec hopens size sent
          refine ⟨hsent, fun hs => (hsilent hs).trans ?_⟩
          simp [Covered, cutAt, hpending]
        next =>
          rw [delivered_sendError]
          exact ⟨List.nil_prefix, fun hs => absurd hs (not_silent_sendError received e)⟩

/-- Every file, every run: what is sent is a prefix; a range that closes without a word is the
    range, and a file that does is the file just if it was covered. -/
theorem streamed_reads_exact (file : List UInt8) (tries : List Try)
    (hopens : ∀ t ∈ tries, Opens file t) :
    (∀ start last, start ≤ last → last < file.length →
      (spawnRange start last tries).delivered <+: (file.drop start).take (last + 1 - start) ∧
      ((spawnRange start last tries).Silent →
        (spawnRange start last tries).delivered = (file.drop start).take (last + 1 - start))) ∧
    (∀ size pulls, ChunksOf file pulls 0 →
      (spawnChunks size tries pulls 0).delivered <+: file ∧
      ((spawnChunks size tries pulls 0).Silent →
        ((spawnChunks size tries pulls 0).delivered = file ↔ Covered file size pulls 0))) := by
  constructor
  · intro start last _ _
    obtain ⟨hsent, hsilent⟩ := walkRange_spec hopens last start none
    exact ⟨hsent, fun hs => (hsilent hs).1⟩
  · intro size pulls hchunks
    exact spawnChunks_spec hopens size hchunks

/-! ## Three bytes -/

namespace Fixture

/-- `open_range` on the file, which refuses while the grant is pending. -/
def openRange (file : List UInt8) (granted : Bool) (start n : Nat) : Item :=
  if granted then
    if start + n ≤ file.length then .ok ((file.drop start).take n) else .error (.other "range")
  else .error (.unopened .notGranted)

theorem opens (file : List UInt8) (granted : Bool) (now : Nat) (received : Bool) :
    Opens file ⟨openRange file granted, now, received⟩ := by
  intro start n bytes h
  simp only [openRange] at h
  split at h
  · split at h
    next hle =>
      cases h
      exact ⟨hle, rfl⟩
    next => cases h
  · cases h

/-- The grant comes with the second try. -/
def granting : List Try :=
  [⟨openRange [1, 2, 3] false, 0, true⟩, ⟨openRange [1, 2, 3] true, 2, true⟩]

theorem opens_granting : ∀ t ∈ granting, Opens [1, 2, 3] t := by
  intro t ht
  rw [granting, List.mem_cons, List.mem_singleton] at ht
  rcases ht with rfl | rfl
  · exact opens _ _ _ _
  · exact opens _ _ _ _

/-- The first chunk comes, and the grant for the second is pending. -/
def pulls : List Pull := [.item (.ok [1]) true, .item (.error (.unopened .notGranted)) true]

theorem chunks : ChunksOf [1, 2, 3] pulls 0 := ⟨⟨[2, 3], rfl⟩, trivial⟩

end Fixture

/-- A file whose pointer declares no size: the channel closes after its first byte. -/
theorem undeclared_size_ends_early :
    ChunksOf [1, 2, 3] Fixture.pulls 0 ∧ (∀ t ∈ Fixture.granting, Opens [1, 2, 3] t) ∧
      (spawnChunks none Fixture.granting Fixture.pulls 0).Silent ∧
      (spawnChunks none Fixture.granting Fixture.pulls 0).delivered = [1] := by
  refine ⟨Fixture.chunks, Fixture.opens_granting, ⟨rfl, fun e he => ?_⟩, rfl⟩
  have hitems : (spawnChunks none Fixture.granting Fixture.pulls 0).items = [.ok [1]] := rfl
  rw [hitems] at he
  simp at he

theorem streamed_reads_exact_declared :
    (spawnRange 1 2 Fixture.granting).delivered <+: [2, 3] ∧
      (spawnChunks (some 3) Fixture.granting Fixture.pulls 0).delivered = [1, 2, 3] := by
  obtain ⟨hrange, hchunks⟩ := streamed_reads_exact [1, 2, 3] Fixture.granting Fixture.opens_granting
  refine ⟨(hrange 1 2 (by decide) (by decide)).1, ?_⟩
  have hsilent : (spawnChunks (some 3) Fixture.granting Fixture.pulls 0).Silent := by
    refine ⟨rfl, fun e he => ?_⟩
    have hitems : (spawnChunks (some 3) Fixture.granting Fixture.pulls 0).items =
        [.ok [1], .ok [2, 3]] := rfl
    rw [hitems] at he
    simp at he
  refine ((hchunks (some 3) Fixture.pulls Fixture.chunks).2 hsilent).mpr fun at_ _ => ?_
  exact Or.inr ⟨3, rfl, Nat.le_refl 3⟩

end CirisServer.Streaming
