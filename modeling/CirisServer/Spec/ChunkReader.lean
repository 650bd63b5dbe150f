import CirisServer.ForStd.Run
import CirisServer.Native.Streaming

/-!
# The chunk reader delivers what the channel brought

Whatever reads and peeks are made, the reads bring the bytes of the items before the first error,
each byte once, and then report the end or the error for good; a peek shows what the next reads
bring. But `peek` adds what it is asked for to its place in the buffer, and panics where the sum is
no machine word.

Key results:
- `pollRead_spec`, `pollPeek_spec`: one call
- `chunkReader_faithful_iff`: any number of calls
-/

namespace CirisServer.Streaming

open Multipart (Poll)

/-! ## What the channel brings -/

/-- The bytes of the items before the first error. -/
def received : List Recv → List UInt8
  | [] => []
  | .pending :: rx => received rx
  | .item (.ok b) :: rx => b ++ received rx
  | .item (.error _) :: _ => []

/-- The first error. -/
def refusal : List Recv → Option FileError
  | [] => none
  | .pending :: rx => refusal rx
  | .item (.ok _) :: rx => refusal rx
  | .item (.error e) :: _ => some e

namespace ChunkReader

variable {display : FileError → String} {r r' : ChunkReader} {rx rx' : List Recv}

/-- The bytes that the reader has still to deliver. -/
def toCome (r : ChunkReader) (rx : List Recv) : List UInt8 :=
  r.pending.drop r.pos ++ if r.done then [] else received rx

/-- The error that it has to report behind them. -/
def ending (r : ChunkReader) (rx : List Recv) : Option FileError :=
  if r.done then r.failure else refusal rx

/-- The reader has as much to deliver as before, and no more to receive. -/
structure Onward (r : ChunkReader) (rx : List Recv) (r' : ChunkReader) (rx' : List Recv) :
    Prop where
  toCome_eq : r'.toCome rx' = r.toCome rx
  ending_eq : r'.ending rx' = r.ending rx
  length_le : rx'.length ≤ rx.length

theorem Onward.refl (r : ChunkReader) (rx : List Recv) : Onward r rx r rx :=
  ⟨rfl, rfl, Nat.le_refl _⟩

theorem Onward.trans {r'' : ChunkReader} {rx'' : List Recv} (h : Onward r rx r' rx')
    (h' : Onward r' rx' r'' rx'') : Onward r rx r'' rx'' :=
  ⟨h'.toCome_eq.trans h.toCome_eq, h'.ending_eq.trans h.ending_eq,
    Nat.le_trans h'.length_le h.length_le⟩

theorem toCome_of_done (h : r.done = true) : r.toCome rx = r.pending.drop r.pos := by
  rw [toCome, if_pos h, List.append_nil]

/-- A reader that is not done has met no error. -/
theorem failure_eq_none (h : r.done = false) : r.failure = none := by
  cases hfailure : r.failure with
  | none => rfl
  | some e =>
    have hdone := r.done_of_failure (by rw [hfailure]; rfl)
    rw [h] at hdone
    cases hdone

/-! ### What is received -/

theorem onward_pending (h : r.done = false) : Onward r (.pending :: rx) r rx := by
  refine ⟨?_, ?_, Nat.le_succ _⟩
  · simp only [toCome, h, received]
  · simp only [ending, h, refusal]

theorem onward_hold (h : r.done = false) (b : List UInt8) (rx : List Recv) :
    Onward r (.item (.ok b) :: rx) (r.hold (r.pending.drop r.pos ++ b)) rx := by
  refine ⟨?_, ?_, Nat.le_succ _⟩
  · simp [toCome, hold, h, received]
  · simp [ending, hold, h, refusal]

theorem onward_refuse (h : r.done = false) (e : FileError) (rx : List Recv) :
    Onward r (.item (.error e) :: rx) (r.refuse e) rx := by
  refine ⟨?_, ?_, Nat.le_succ _⟩
  · simp [toCome, refuse, h, received]
  · simp [ending, refuse, h, refusal]

theorem onward_finish (h : r.done = false) : Onward r [] r.finish [] := by
  refine ⟨?_, ?_, Nat.le_refl _⟩
  · simp [toCome, finish, h, received]
  · simp [ending, finish, h, refusal, failure_eq_none h]

/-! ### One peek -/

/-- The sum of `peek` is no machine word, and `peek` comes to it. -/
def Overflows (r : ChunkReader) (rx : List Recv) (n : UInt64) : Prop :=
  2 ^ 64 ≤ r.pos + n.toNat ∧ (r.peekReady n = true ∨ rx = [])

/-- What a peek answers: what comes next, or the error. -/
def Peeks (data : List UInt8) (err : Option FileError) (n : UInt64) : Poll Peeked → Prop
  | .pending => True
  | .ready (.shown bytes) => bytes = data.take n.toNat
  | .ready (.refused e) => err = some e
  | .ready .panicked => False

/-- What is shown, once enough is held. -/
theorem peeked_spec {n : UInt64} (hready : r.peekReady n = true) (rx : List Recv) :
    (r.peeked n = .panicked ↔ 2 ^ 64 ≤ r.pos + n.toNat) ∧
      (r.peeked n ≠ .panicked → Peeks (r.toCome rx) (r.ending rx) n (.ready (r.peeked n))) := by
  unfold peeked
  split
  case isTrue hsum => exact ⟨iff_of_true rfl hsum, fun h => absurd rfl h⟩
  case isFalse hsum =>
    have hshown : (r.pending.take (min (r.pos + n.toNat) r.pending.length)).drop r.pos =
        (r.pending.drop r.pos).take n.toNat := by
      rw [List.drop_take, List.take_eq_take_iff, List.length_drop]
      omega
    refine ⟨iff_of_false nofun hsum, fun _ => ?_⟩
    rw [hshown]
    simp only [peekReady, decide_eq_true_eq] at hready
    rcases hready with henough | hdone
    · have hle : n.toNat ≤ (r.pending.drop r.pos).length := by
        rw [List.length_drop]
        exact henough
      show _ = (r.toCome rx).take n.toNat
      rw [toCome, List.take_append_of_le_length hle]
    · show _ = (r.toCome rx).take n.toNat
      rw [toCome_of_done hdone]

theorem not_done_of_peek {n : UInt64} (h : ¬ r.peekReady n = true) : r.done = false := by
  simp only [peekReady, decide_eq_true_eq, not_or] at h
  exact Bool.eq_false_iff.mpr h.2

/-- **A peek.** It takes nothing, and unless its sum is too large it shows what comes next. -/
theorem pollPeek_spec (n : UInt64) (r : ChunkReader) (rx : List Recv) :
    Onward r rx (r.pollPeek n rx).2.1 (r.pollPeek n rx).2.2 ∧
      ((r.pollPeek n rx).1 = .ready .panicked ↔ r.Overflows rx n) ∧
      ((r.pollPeek n rx).1 ≠ .ready .panicked →
        Peeks (r.toCome rx) (r.ending rx) n (r.pollPeek n rx).1) := by
  induction rx generalizing r with
  | nil =>
    rw [pollPeek]
    by_cases hready : r.peekReady n = true
    · obtain ⟨hpanic, hpeeks⟩ := peeked_spec hready []
      rw [if_pos hready]
      refine ⟨.refl r [], ?_, fun h => hpeeks fun heq => h (by rw [heq])⟩
      simp only [Poll.ready.injEq, hpanic, Overflows, or_true, and_true]
    · -- the channel is closed: what is held is all there is
      have hdone := not_done_of_peek hready
      have hfinish : r.finish.peekReady n = true := by simp [peekReady, finish]
      obtain ⟨hpanic, hpeeks⟩ := peeked_spec hfinish []
      have honward := onward_finish hdone
      have hpos : r.finish.pos = r.pos := rfl
      rw [if_neg hready]
      refine ⟨honward, ?_, fun h => ?_⟩
      · simp only [Poll.ready.injEq, hpanic, hpos, Overflows, or_true, and_true]
      · rw [← honward.toCome_eq, ← honward.ending_eq]
        exact hpeeks fun heq => h (by rw [heq])
  | cons recv rx ih =>
    rw [pollPeek.eq_def]
    dsimp only
    by_cases hready : r.peekReady n = true
    · obtain ⟨hpanic, hpeeks⟩ := peeked_spec hready (recv :: rx)
      rw [if_pos hready]
      refine ⟨.refl r _, ?_, fun h => hpeeks fun heq => h (by rw [heq])⟩
      simp only [Poll.ready.injEq, hpanic, Overflows, hready, true_or, and_true]
    · have hdone := not_done_of_peek hready
      have hroom : ¬ r.Overflows (recv :: rx) n := by simp [Overflows, hready]
      rw [if_neg hready]
      cases recv with
      | pending => exact ⟨onward_pending hdone, by simp [hroom], fun _ => trivial⟩
      | item item =>
        cases item with
        | ok b =>
          -- what is held starts the buffer, so that the sum is the word itself
          have honward := onward_hold hdone b rx
          obtain ⟨hnext, hpanic, hpeeks⟩ := ih (r.hold (r.pending.drop r.pos ++ b))
          have hsmall : ¬ (r.hold (r.pending.drop r.pos ++ b)).Overflows rx n := by
            intro hover
            have hword := n.toNat_lt
            have hsum : 2 ^ 64 ≤ 0 + n.toNat := hover.1
            omega
          refine ⟨honward.trans hnext, iff_of_false (fun h => hsmall (hpanic.mp h)) hroom,
            fun h => ?_⟩
          rw [← honward.toCome_eq, ← honward.ending_eq]
          exact hpeeks h
        | error e =>
          -- the peek reports the error; what is held before it is still to be read
          have honward := onward_refuse hdone e rx
          refine ⟨honward, by simp [hroom], fun _ => ?_⟩
          rw [← honward.ending_eq]
          simp [Peeks, ending, refuse]

/-! ### One read -/

/-- Every read from here on fails. -/
structure Stuck (e : FileError) (r : ChunkReader) : Prop where
  failure_eq : r.failure = some e
  consumed : r.pos = r.pending.length

/-- What a read does: it waits, brings what comes next, or reports the end or the error. -/
inductive ReadSpec (display : FileError → String) (size : Nat) (r : ChunkReader) (rx : List Recv) :
    Poll (Except String (List UInt8)) → ChunkReader → List Recv → Prop where
  | pending {s : ChunkReader} {sx : List Recv} (honward : Onward r rx s sx)
      (hlt : sx.length < rx.length) : ReadSpec display size r rx .pending s sx
  | bytes {s : ChunkReader} {sx : List Recv} {b : List UInt8} (hne : b ≠ [])
      (hsize : b.length ≤ size) (htoCome : r.toCome rx = b ++ s.toCome sx)
      (hending : s.ending sx = r.ending rx) (hle : sx.length ≤ rx.length) :
      ReadSpec display size r rx (.ready (.ok b)) s sx
  | eof {s : ChunkReader} {sx : List Recv} (honward : Onward r rx s sx)
      (htoCome : r.toCome rx = []) (hending : r.ending rx = none) :
      ReadSpec display size r rx (.ready (.ok [])) s sx
  | failed {s : ChunkReader} {sx : List Recv} {e : FileError} (htoCome : r.toCome rx = [])
      (hending : r.ending rx = some e) (hstuck : Stuck e s) :
      ReadSpec display size r rx (.ready (.error (display e))) s sx

/-- What is read from where the reader has come to. -/
theorem ReadSpec.of_onward {size : Nat} {a : Poll (Except String (List UInt8))}
    {r'' : ChunkReader} {rx'' : List Recv} (honward : Onward r rx r' rx')
    (h : ReadSpec display size r' rx' a r'' rx'') : ReadSpec display size r rx a r'' rx'' := by
  cases h with
  | pending hnext hlt =>
    exact .pending (honward.trans hnext) (Nat.lt_of_lt_of_le hlt honward.length_le)
  | bytes hne hsize htoCome hending hle =>
    exact .bytes hne hsize (honward.toCome_eq ▸ htoCome) (hending.trans honward.ending_eq)
      (Nat.le_trans hle honward.length_le)
  | eof hnext htoCome hending =>
    exact .eof (honward.trans hnext) (honward.toCome_eq ▸ htoCome) (honward.ending_eq ▸ hending)
  | failed htoCome hending hstuck =>
    exact .failed (honward.toCome_eq ▸ htoCome) (honward.ending_eq ▸ hending) hstuck

/-- What the loop of `poll_read` answers before it receives. -/
theorem serve_spec {size : Nat} (hsize : 0 < size) {a : Except String (List UInt8)}
    (h : r.serve display size = some (a, r')) : ReadSpec display size r rx (.ready a) r' rx := by
  unfold serve at h
  split at h
  -- what is held goes out before the failure, and the failure before the end
  case isTrue hheld =>
    cases h
    have hsplit := List.take_append_drop (min (r.pending.length - r.pos) size)
      (r.pending.drop r.pos)
    have hlength : (r.take size).1.length = min (r.pending.length - r.pos) size := by
      simp [ChunkReader.take]
    refine .bytes ?_ ?_ ?_ rfl (Nat.le_refl _)
    · intro hnil
      rw [hnil, List.length_nil] at hlength
      omega
    · omega
    · simp only [toCome, ChunkReader.take]
      rw [← List.append_assoc, ← List.drop_drop, hsplit]
      rfl
  case isFalse hheld =>
    have hpos : r.pos = r.pending.length := Nat.le_antisymm r.pos_le (Nat.le_of_not_lt hheld)
    have hdrop : r.pending.drop r.pos = [] := List.drop_eq_nil_of_le (Nat.le_of_not_lt hheld)
    split at h
    next e hfailure =>
      cases h
      have hdone := r.done_of_failure (by rw [hfailure]; rfl)
      refine .failed ?_ ?_ ⟨hfailure, hpos⟩
      · rw [toCome_of_done hdone, hdrop]
      · rw [ending, if_pos hdone, hfailure]
    next hfailure =>
      split at h
      case isTrue hdone =>
        cases h
        refine .eof (.refl r rx) ?_ ?_
        · rw [toCome_of_done hdone, hdrop]
        · rw [ending, if_pos hdone, hfailure]
      case isFalse => cases h

theorem serve_eq_none {size : Nat} (h : r.serve display size = none) :
    r.done = false ∧ r.pending.drop r.pos = [] := by
  unfold serve at h
  split at h
  case isTrue => cases h
  case isFalse hheld =>
    refine ⟨?_, List.drop_eq_nil_of_le (Nat.le_of_not_lt hheld)⟩
    split at h
    next => cases h
    next =>
      split at h
      case isTrue => cases h
      case isFalse hdone => exact Bool.eq_false_iff.mpr hdone

/-- **A read.** -/
theorem pollRead_spec (display : FileError → String) {size : Nat} (hsize : 0 < size)
    (r : ChunkReader) (rx : List Recv) :
    ReadSpec display size r rx (r.pollRead display size rx).1 (r.pollRead display size rx).2.1
      (r.pollRead display size rx).2.2 := by
  induction rx generalizing r with
  | nil =>
    rw [pollRead]
    cases hserve : r.serve display size with
    | some s => exact serve_spec hsize hserve
    | none =>
      obtain ⟨hdone, hdrop⟩ := serve_eq_none hserve
      refine .eof (onward_finish hdone) ?_ ?_
      · simp [toCome, hdrop, received]
      · simp [ending, hdone, refusal]
  | cons recv rx ih =>
    rw [pollRead.eq_def]
    dsimp only
    cases hserve : r.serve display size with
    | some s => exact serve_spec hsize hserve
    | none =>
      obtain ⟨hdone, hdrop⟩ := serve_eq_none hserve
      cases recv with
      | pending => exact .pending (onward_pending hdone) (Nat.lt_succ_self _)
      | item item =>
        cases item with
        | ok b =>
          have honward := onward_hold hdone b rx
          rw [hdrop] at honward
          exact (ih (r.hold b)).of_onward honward
        | error e => exact (ih (r.refuse e)).of_onward (onward_refuse hdone e rx)

/-! ## Any number of calls -/

/-- The bytes that the reads brought. -/
def delivered (trace : List (Call × Answer)) : List UInt8 :=
  trace.flatMap fun entry =>
    match entry.2 with
    | .read (.ready (.ok bytes)) => bytes
    | _ => []

/-- What an answer has to be where the channel brought `data` and then `err`. A read brings the
    next bytes, or else it comes behind all of them: to the end if there is no error, and to the
    error for good. A peek shows what comes next. -/
def AnswerSpec (display : FileError → String) (data : List UInt8) (err : Option FileError)
    (before after : List (Call × Answer)) : Call × Answer → Prop
  | (.read _, .read .pending) => True
  | (.read size, .read (.ready (.ok bytes))) => bytes.length ≤ size ∧
      delivered before ++ bytes <+: data ∧ (bytes = [] → err = none ∧ delivered before = data)
  | (.read _, .read (.ready (.error text))) => (∃ e, err = some e ∧ text = display e) ∧
      delivered before = data ∧ ∀ call a, (call, .read a) ∈ after → a = .ready (.error text)
  | (.peek n, .peek a) => Peeks (data.drop (delivered before).length) err n a
  | _ => False

/-- Every answer is what it has to be. -/
def Faithful (display : FileError → String) (data : List UInt8) (err : Option FileError)
    (trace : List (Call × Answer)) : Prop :=
  ∀ before entry after, trace = before ++ entry :: after →
    AnswerSpec display data err before after entry

/-- The read is over: it reports the end or the error. -/
def Answer.ends : Answer → Bool
  | .read (.ready (.ok [])) => true
  | .read (.ready (.error _)) => true
  | _ => false

/-- The number of reads. -/
def reads (calls : List Call) : Nat :=
  calls.countP fun call =>
    match call with
    | .read _ => true
    | .peek _ => false

theorem Faithful.nil {data : List UInt8} {err : Option FileError} :
    Faithful display data err [] := by
  intro before entry after h
  cases before <;> cases h

theorem Faithful.head {data : List UInt8} {err : Option FileError} {entry : Call × Answer}
    {trace : List (Call × Answer)} (h : Faithful display data err (entry :: trace)) :
    AnswerSpec display data err [] trace entry :=
  h [] entry trace rfl

/-- What the first answer brought comes off the front of the data. -/
theorem faithful_cons_iff {bytes data : List UInt8} {err : Option FileError} {entry : Call × Answer}
    {trace : List (Call × Answer)} (hbytes : delivered [entry] = bytes) :
    Faithful display (bytes ++ data) err (entry :: trace) ↔
      AnswerSpec display (bytes ++ data) err [] trace entry ∧ Faithful display data err trace := by
  have hshift (before after : List (Call × Answer)) (e : Call × Answer) :
      AnswerSpec display (bytes ++ data) err (entry :: before) after e ↔
        AnswerSpec display data err before after e := by
    have hdelivered : delivered (entry :: before) = bytes ++ delivered before := by
      rw [← hbytes]
      simp [delivered]
    obtain ⟨call, a⟩ := e
    cases call with
    | read size =>
      cases a with
      | peek a => exact Iff.rfl
      | read a =>
        cases a with
        | pending => exact Iff.rfl
        | ready a => cases a <;> simp [AnswerSpec, hdelivered]
    | peek n =>
      cases a with
      | read a => exact Iff.rfl
      | peek a =>
        have hdrop : (bytes ++ data).drop (delivered (entry :: before)).length =
            data.drop (delivered before).length := by
          rw [hdelivered, List.length_append, List.drop_length_add_append]
        simp only [AnswerSpec, hdrop]
  constructor
  · intro h
    refine ⟨h.head, fun before e after htrace => ?_⟩
    exact (hshift before after e).mp (h (entry :: before) e after (by rw [htrace]; rfl))
  · rintro ⟨hhead, hrest⟩ before e after htrace
    cases before with
    | nil =>
      obtain ⟨rfl, rfl⟩ := List.cons.inj htrace
      exact hhead
    | cons first before =>
      obtain ⟨rfl, hrest'⟩ := List.cons.inj htrace
      exact (hshift before after e).mpr (hrest before e after hrest')

/-- An answer that is what it has to be leaves the rest of the trace to be judged. -/
theorem faithful_iff_cons {bytes data : List UInt8} {err : Option FileError} {entry : Call × Answer}
    {trace : List (Call × Answer)} (hbytes : delivered [entry] = bytes)
    (hentry : AnswerSpec display (bytes ++ data) err [] trace entry) :
    Faithful display data err trace ↔ Faithful display (bytes ++ data) err (entry :: trace) := by
  rw [faithful_cons_iff hbytes]
  exact (and_iff_right hentry).symm

/-- The reader and the channel after a call. -/
def advance (display : FileError → String) (s : ChunkReader × List Recv) (call : Call) :
    ChunkReader × List Recv :=
  (s.1.answer display s.2 call).2

/-- No peek comes to a sum that is no machine word. -/
def Roomy (s : ChunkReader × List Recv) : Call → Prop
  | .read _ => True
  | .peek n => ¬ s.1.Overflows s.2 n

instance decidableRoomy (s : ChunkReader × List Recv) : ∀ call, Decidable (Roomy s call)
  | .read _ => inferInstanceAs (Decidable True)
  | .peek n => inferInstanceAs (Decidable (¬ (2 ^ 64 ≤ s.1.pos + n.toNat ∧
      (s.1.peekReady n = true ∨ s.2 = []))))

theorem run_cons (r : ChunkReader) (rx : List Recv) (call : Call) (calls : List Call) :
    r.run display rx (call :: calls) = (call, (r.answer display rx call).1) ::
      (advance display (r, rx) call).1.run display (advance display (r, rx) call).2 calls := rfl

theorem guarded_read_iff {size : Nat} {calls : List Call} :
    Run.Guarded (advance display) Roomy (r, rx) (.read size :: calls) ↔
      Run.Guarded (advance display) Roomy (r.pollRead display size rx).2 calls :=
  and_iff_right trivial

theorem Stuck.pollRead {e : FileError} (h : Stuck e r) (size : Nat) :
    r.pollRead display size rx = (.ready (.error (display e)), r, rx) := by
  have hserve : r.serve display size = some (.error (display e), r) := by
    unfold serve
    rw [if_neg (by rw [h.consumed]; exact Nat.lt_irrefl _), h.failure_eq]
  rw [pollRead.eq_def]
  cases rx <;> simp only [hserve]

theorem Stuck.pollPeek {e : FileError} (h : Stuck e r) (n : UInt64) :
    (r.pollPeek n rx).2 = (r, rx) := by
  have hdone : r.done = true := r.done_of_failure (by rw [h.failure_eq]; rfl)
  have hready : r.peekReady n = true := by simp [peekReady, hdone]
  rw [pollPeek.eq_def]
  cases rx <;> simp only [hready, if_true]

/-- Once a read has failed, every read fails. -/
theorem Stuck.reads_fail {e : FileError} (h : Stuck e r) {calls : List Call} {call : Call}
    {a : Poll (Except String (List UInt8))} (hmem : (call, .read a) ∈ r.run display rx calls) :
    a = .ready (.error (display e)) := by
  induction calls with
  | nil => cases hmem
  | cons call calls ih =>
    rw [run_cons] at hmem
    cases call with
    | read size =>
      simp only [advance, answer, h.pollRead] at hmem
      rcases List.mem_cons.mp hmem with heq | hrest
      · cases heq
        rfl
      · exact ih hrest
    | peek n =>
      simp only [advance, answer, h.pollPeek] at hmem
      rcases List.mem_cons.mp hmem with heq | hrest
      · cases heq
      · exact ih hrest

theorem Stuck.toCome_eq {e : FileError} (h : Stuck e r) : r.toCome rx = [] := by
  have hdone : r.done = true := r.done_of_failure (by rw [h.failure_eq]; rfl)
  rw [toCome_of_done hdone, h.consumed, List.drop_length]

theorem Stuck.ending_eq {e : FileError} (h : Stuck e r) : r.ending rx = some e := by
  have hdone : r.done = true := r.done_of_failure (by rw [h.failure_eq]; rfl)
  rw [ending, if_pos hdone, h.failure_eq]

/-- **A run of calls.** The answers are what they have to be exactly if no peek overflows. -/
theorem run_faithful_iff {calls : List Call} (hcalls : ∀ size, .read size ∈ calls → 0 < size) :
    Run.Guarded (advance display) Roomy (r, rx) calls ↔
      Faithful display (r.toCome rx) (r.ending rx) (r.run display rx calls) := by
  induction calls generalizing r rx with
  | nil => exact iff_of_true trivial .nil
  | cons call calls ih =>
    have hrest : ∀ size, .read size ∈ calls → 0 < size :=
      fun size h => hcalls size (List.mem_cons_of_mem _ h)
    rw [run_cons]
    cases call with
    | read size =>
      have hread := pollRead_spec display (hcalls size List.mem_cons_self) r rx
      rw [guarded_read_iff]
      simp only [advance, answer]
      generalize r.pollRead display size rx = p at hread ⊢
      obtain ⟨a, r', rx'⟩ := p
      rw [ih hrest]
      cases hread with
      | pending honward hlt =>
        rw [honward.toCome_eq, honward.ending_eq]
        exact faithful_iff_cons (show delivered [_] = [] from rfl) trivial
      | bytes hne hsize htoCome hending hle =>
        rw [htoCome, hending]
        apply faithful_iff_cons (by simp [delivered])
        exact ⟨hsize, List.prefix_append _ _, fun hnil => absurd hnil hne⟩
      | eof honward htoCome hending =>
        rw [honward.toCome_eq, honward.ending_eq, htoCome, hending]
        apply faithful_iff_cons (show delivered [_] = [] from rfl)
        exact ⟨Nat.zero_le _, List.nil_prefix, fun _ => ⟨rfl, rfl⟩⟩
      | failed htoCome hending hstuck =>
        rw [htoCome, hending, hstuck.toCome_eq, hstuck.ending_eq]
        apply faithful_iff_cons (show delivered [_] = [] from rfl)
        exact ⟨⟨_, rfl, rfl⟩, rfl, fun _ _ => hstuck.reads_fail⟩
    | peek n =>
      obtain ⟨honward, hpanic, hpeeks⟩ := pollPeek_spec n r rx
      have hguard : Run.Guarded (advance display) Roomy (r, rx) (.peek n :: calls) ↔
          ¬ r.Overflows rx n ∧ Run.Guarded (advance display) Roomy (r.pollPeek n rx).2 calls :=
        Iff.rfl
      rw [hguard]
      simp only [advance, answer]
      generalize r.pollPeek n rx = p at honward hpanic hpeeks ⊢
      obtain ⟨a, r', rx'⟩ := p
      dsimp only at honward hpanic hpeeks
      rw [ih hrest, honward.toCome_eq, honward.ending_eq]
      have hnothing : delivered [(.peek n, .peek a)] = [] := rfl
      refine ((faithful_cons_iff hnothing).trans (and_congr_left fun _ => ?_)).symm
      show Peeks (r.toCome rx) (r.ending rx) n a ↔ _
      constructor
      · intro hspec hover
        rw [hpanic.mpr hover] at hspec
        exact hspec
      · exact fun hroom => hpeeks fun hpanicked => hroom (hpanic.mp hpanicked)

/-! ## Enough reads -/

theorem delivered_cons (entry : Call × Answer) (trace : List (Call × Answer)) :
    delivered (entry :: trace) = delivered [entry] ++ delivered trace := by
  simp [delivered]

theorem delivered_eq_nil {calls : List Call} (hcalls : ∀ size, .read size ∈ calls → 0 < size)
    (h : r.toCome rx = []) : delivered (r.run display rx calls) = [] := by
  induction calls generalizing r rx with
  | nil => rfl
  | cons call calls ih =>
    have hrest : ∀ size, .read size ∈ calls → 0 < size :=
      fun size h => hcalls size (List.mem_cons_of_mem _ h)
    rw [run_cons, delivered_cons]
    cases call with
    | read size =>
      have hread := pollRead_spec display (hcalls size List.mem_cons_self) r rx
      simp only [advance, answer]
      generalize r.pollRead display size rx = p at hread ⊢
      obtain ⟨a, r', rx'⟩ := p
      cases hread with
      | pending honward hlt => exact ih hrest (honward.toCome_eq.trans h)
      | bytes hne hsize htoCome hending hle =>
        rw [h] at htoCome
        exact absurd (List.append_eq_nil_iff.mp htoCome.symm).1 hne
      | eof honward htoCome hending => exact ih hrest (honward.toCome_eq.trans h)
      | failed htoCome hending hstuck => exact ih hrest hstuck.toCome_eq
    | peek n => exact ih hrest ((pollPeek_spec n r rx).1.toCome_eq.trans h)

theorem reads_cons_read (size : Nat) (calls : List Call) :
    reads (.read size :: calls) = reads calls + 1 := List.countP_cons_of_pos rfl

theorem reads_cons_peek (n : UInt64) (calls : List Call) :
    reads (.peek n :: calls) = reads calls := List.countP_cons_of_neg Bool.false_ne_true

/-- Each read takes something from the channel or brings a byte, until one ends. -/
theorem run_settles {calls : List Call} (hcalls : ∀ size, .read size ∈ calls → 0 < size)
    (henough : (r.toCome rx).length + rx.length < reads calls) :
    delivered (r.run display rx calls) = r.toCome rx ∧
      ∃ entry ∈ r.run display rx calls, entry.2.ends = true := by
  induction calls generalizing r rx with
  | nil => cases henough
  | cons call calls ih =>
    have hrest : ∀ size, .read size ∈ calls → 0 < size :=
      fun size h => hcalls size (List.mem_cons_of_mem _ h)
    rw [run_cons, delivered_cons]
    cases call with
    | read size =>
      have hread := pollRead_spec display (hcalls size List.mem_cons_self) r rx
      rw [reads_cons_read] at henough
      simp only [advance, answer]
      generalize r.pollRead display size rx = p at hread ⊢
      obtain ⟨a, r', rx'⟩ := p
      dsimp only at hread
      cases hread with
      | pending honward hlt =>
        -- one receipt less
        have hleft : (r'.toCome rx').length + rx'.length < reads calls := by
          rw [honward.toCome_eq]
          omega
        obtain ⟨hdelivered, entry, hentry, hends⟩ := ih hrest hleft
        exact ⟨hdelivered.trans honward.toCome_eq, entry, List.mem_cons_of_mem _ hentry, hends⟩
      | @bytes _ _ b hne hsize htoCome hending hle =>
        -- one byte less
        have hpos : 0 < b.length := List.length_pos_iff.mpr hne
        have hlength := congrArg List.length htoCome
        rw [List.length_append] at hlength
        have hleft : (r'.toCome rx').length + rx'.length < reads calls := by omega
        obtain ⟨hdelivered, entry, hentry, hends⟩ := ih hrest hleft
        refine ⟨?_, entry, List.mem_cons_of_mem _ hentry, hends⟩
        rw [hdelivered, htoCome]
        simp [delivered]
      | eof honward htoCome hending =>
        refine ⟨?_, _, List.mem_cons_self, rfl⟩
        rw [delivered_eq_nil hrest (honward.toCome_eq.trans htoCome), htoCome]
        rfl
      | failed htoCome hending hstuck =>
        refine ⟨?_, _, List.mem_cons_self, rfl⟩
        rw [delivered_eq_nil hrest hstuck.toCome_eq, htoCome]
        rfl
    | peek n =>
      have honward := (pollPeek_spec n r rx).1
      have hle := honward.length_le
      rw [reads_cons_peek] at henough
      have hleft : ((r.pollPeek n rx).2.1.toCome (r.pollPeek n rx).2.2).length +
          (r.pollPeek n rx).2.2.length < reads calls := by
        rw [honward.toCome_eq]
        omega
      obtain ⟨hdelivered, entry, hentry, hends⟩ := ih hrest hleft
      exact ⟨hdelivered.trans honward.toCome_eq, entry, List.mem_cons_of_mem _ hentry, hends⟩

/-- **Any calls on a new reader.** The reads bring the bytes of the items before the first error,
    each once, and report the end only if there is none; behind them they fail for good, and each
    peek shows what comes next: exactly if no peek overflows. With enough reads all is brought. -/
theorem chunkReader_faithful_iff (display : FileError → String) (rx : List Recv)
    (calls : List Call) (hcalls : ∀ size, .read size ∈ calls → 0 < size) :
    Run.Guarded (advance display) Roomy (new, rx) calls ↔
      Faithful display (received rx) (refusal rx) (new.run display rx calls) ∧
        ((received rx).length + rx.length < reads calls →
          delivered (new.run display rx calls) = received rx ∧
            ∃ entry ∈ new.run display rx calls, entry.2.ends = true) := by
  have hdata : new.toCome rx = received rx := rfl
  have herr : new.ending rx = refusal rx := rfl
  rw [run_faithful_iff hcalls, hdata, herr]
  exact (and_iff_left fun henough => hdata ▸ run_settles hcalls (hdata ▸ henough)).symm

/-- The theorem at a channel that breaks: what came before the error is delivered behind a peek
    that met it. -/
theorem chunkReader_faithful_iff_broken :
    Faithful (fun _ => "broken") [1, 2, 3] (some (.other "broken"))
      (new.run (fun _ => "broken") [.item (.ok [1, 2]), .pending, .item (.ok [3]),
        .item (.error (.other "broken"))] [.peek 2, .read 1, .peek 9, .peek 9, .read 9, .read 9]) := by
  refine ((chunkReader_faithful_iff _ _ _ ?_).mp ?_).1
  · simp
  · decide

/-- Two bytes, one of which is read, and then a peek as far as a machine word can say. -/
theorem peek_panics :
    new.run (fun _ => "") [.item (.ok [97, 98])] [.read 1, .peek 18446744073709551615] =
        [(.read 1, .read (.ready (.ok [97]))),
          (.peek 18446744073709551615, .peek (.ready .panicked))] ∧
      ¬ Faithful (fun _ => "") [97, 98] none
        (new.run (fun _ => "") [.item (.ok [97, 98])] [.read 1, .peek 18446744073709551615]) := by
  have hrun : new.run (fun _ => "") [.item (.ok [97, 98])] [.read 1, .peek 18446744073709551615] =
      [(.read 1, .read (.ready (.ok [97]))),
        (.peek 18446744073709551615, .peek (.ready .panicked))] := by decide
  refine ⟨hrun, fun hfaithful => ?_⟩
  exact hfaithful [_] _ [] hrun

end ChunkReader

end CirisServer.Streaming
