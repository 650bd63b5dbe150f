import CirisServer.Native.TraceReceipt

/-!
# What an ask owes to status and header

An ask decides by the text of one line, which quotes the reply. What it should do depends on the
status and on `Retry-After` only.

Key results:
- `settles_iff`: when a turn ends the ask as it should
- `asks_safely_iff`: an ask does what status and headers say exactly when its lines are plain
-/

namespace CirisServer.TraceReceipt

/-- What an ask does: the delays that it waits, and how it reports the canonical. -/
structure Conduct where
  waits : List Nat
  unreachable : Bool
deriving DecidableEq

/-- The conduct of an ask that has a result. -/
def conduct (asked : Asked) : Option Conduct :=
  asked.result.map fun result => ⟨asked.waits, unreachable result⟩

def unsent (turn : Turn) : Bool :=
  match turn.sent with
  | .error _ => true
  | .ok _ => false

/-- The delay of a `Retry-After` header, in seconds: one where there is none to read. -/
def headerDelay (retryAfter : Option String) : Nat :=
  max 1 ((retryAfter.bind fun t => parseU64 (trim t)).getD 1)

/-- The delay that a reply of status 429 states, whose body arrives. -/
def statedDelay (c : CanonicalRead) (turn : Turn) : Option Nat :=
  match turn.sent with
  | .error _ => none
  | .ok reply =>
    match boundedBody (c.url ++ receiptRoute) reply with
    | .error _ => none
    | .ok _ => if reply.status = 429 then some (headerDelay reply.retryAfter) else none

def Fits (turn : Turn) (deadline wait : Nat) : Prop := turn.instant + wait * 10 ^ 9 ≤ deadline

instance (turn : Turn) (deadline wait : Nat) : Decidable (Fits turn deadline wait) :=
  inferInstanceAs (Decidable (_ ≤ _))

/-- What status and headers say: a 429 is retried after the delay that it states, if that fits, and
    the canonical is unreachable where the last request could not be sent. -/
def due (c : CanonicalRead) (turns : Nat → Turn) (deadline : Nat) : Nat → Nat → Conduct
  | 0, i => ⟨[], unsent (turns i)⟩
  | left + 1, i =>
    match statedDelay c (turns i) with
    | none => ⟨[], unsent (turns i)⟩
    | some wait =>
      if Fits (turns i) deadline wait then
        let rest := due c turns deadline left (i + 1)
        ⟨wait :: rest.waits, rest.unreachable⟩
      else ⟨[], unsent (turns i)⟩

/-- Two turns that a canonical should be judged alike on: status and headers are the same, and both
    bodies arrive, or neither. -/
def Alike (c : CanonicalRead) (turn turn' : Turn) : Prop :=
  turn.instant = turn'.instant ∧ unsent turn = unsent turn' ∧
    ∀ reply reply', turn.sent = .ok reply → turn'.sent = .ok reply' →
      reply.status = reply'.status ∧ reply.retryAfter = reply'.retryAfter ∧
      ((boundedBody (c.url ++ receiptRoute) reply).isOk =
        (boundedBody (c.url ++ receiptRoute) reply').isOk)

theorem Alike.statedDelay_eq {c : CanonicalRead} {turn turn' : Turn} (h : Alike c turn turn') :
    statedDelay c turn = statedDelay c turn' := by
  obtain ⟨-, hunsent, hsame⟩ := h
  unfold unsent at hunsent
  unfold statedDelay
  cases hsent : turn.sent with
  | error e =>
    cases hsent' : turn'.sent with
    | error e' => rfl
    | ok reply' => simp [hsent, hsent'] at hunsent
  | ok reply =>
    cases hsent' : turn'.sent with
    | error e' => simp [hsent, hsent'] at hunsent
    | ok reply' =>
      obtain ⟨hstatus, hheader, harrives⟩ := hsame reply reply' hsent hsent'
      cases hbody : boundedBody (c.url ++ receiptRoute) reply <;>
        cases hbody' : boundedBody (c.url ++ receiptRoute) reply' <;>
        simp_all [Except.isOk, Except.toBool]

/-- What an ask owes does not depend on the text of a body. -/
theorem due_alike {c : CanonicalRead} {turns turns' : Nat → Turn}
    (h : ∀ i, Alike c (turns i) (turns' i)) (deadline left i : Nat) :
    due c turns deadline left i = due c turns' deadline left i := by
  induction left generalizing i with
  | zero => rw [due, due, (h i).2.1]
  | succ left ih =>
    rw [due, due, (h i).statedDelay_eq, (h i).2.1]
    cases statedDelay c (turns' i) with
    | none => rfl
    | some wait =>
      have hfits : Fits (turns i) deadline wait ↔ Fits (turns' i) deadline wait := by
        unfold Fits
        rw [(h i).1]
      simp only [hfits, ih (i + 1)]

/-! ## Plain lines -/

/-- The line of a result does not ask for a retry, or for one that is too late. -/
def NoRetry (turn : Turn) (deadline : Nat) (result : AskResult) : Prop :=
  ∀ e, limited result = some e →
    ∃ wake, addSeconds turn.instant (retryDelay e) = some wake ∧ deadline < wake

/-- The line of a reply does not say that the request could not be sent. -/
def NotMistaken (turn : Turn) (result : AskResult) : Prop :=
  unsent turn = false → unreachable result = false

/-- The line of a 429 states the delay of the header, and the clock can count so far. -/
def States (turn : Turn) (wait : Nat) (result : AskResult) : Prop :=
  ∃ e, limited result = some e ∧ retryDelay e = wait ∧ addSeconds turn.instant wait ≠ none

/-- The lines of an ask say no more than the status and the header do. -/
def Plain (v : Verifier) (c : CanonicalRead) (agentIdHash : String) (traceId : Option String)
    (turns : Nat → Turn) (deadline : Nat) : Nat → Nat → Prop
  | 0, i => NotMistaken (turns i) (askOnce v c agentIdHash traceId (turns i))
  | left + 1, i =>
    let result := askOnce v c agentIdHash traceId (turns i)
    match statedDelay c (turns i) with
    | none => NoRetry (turns i) deadline result ∧ NotMistaken (turns i) result
    | some wait =>
      if Fits (turns i) deadline wait then
        States (turns i) wait result ∧ Plain v c agentIdHash traceId turns deadline left (i + 1)
      else NoRetry (turns i) deadline result ∧ NotMistaken (turns i) result

section

variable {v : Verifier} {c : CanonicalRead} {agentIdHash : String} {traceId : Option String}
variable {turns : Nat → Turn} {deadline : Nat} {turn : Turn}

/-! ## Lines -/

theorem contains_iff {hay needle : String} (hne : needle.toList ≠ []) :
    contains hay needle = true ↔ needle.toList <:+: hay.toList :=
  List.isSome_firstOccurrence_iff hne

theorem contains_append (before needle after : String) (hne : needle.toList ≠ []) :
    contains (before ++ needle ++ after) needle = true := by
  rw [contains_iff hne, String.toList_append, String.toList_append]
  exact ⟨_, _, rfl⟩

/-- A request that could not be sent is reported so. -/
theorem unreachable_of_unsent (h : unsent turn = true) :
    unreachable (askOnce v c agentIdHash traceId turn) = true := by
  unfold unsent at h
  cases hsent : turn.sent with
  | ok reply =>
    rw [hsent] at h
    cases h
  | error e =>
    have hask : askOnce v c agentIdHash traceId turn =
        .error (.unavailable, c.url ++ receiptRoute ++ ": error sending request: " ++ e) := by
      rw [askOnce, hsent]
      rfl
    have hline : (": error sending request: " : String) = ": error sending request" ++ ": " := by
      decide +kernel
    rw [hask, hline, ← String.append_assoc, String.append_assoc]
    exact contains_append _ _ _ (by decide +kernel)

/-- The remark that a delay does not fit does not make a canonical unreachable. -/
theorem contains_doesNotFit (e : String) :
    contains (doesNotFit e) ": error sending request" = contains e ": error sending request" := by
  have hmark : (": error sending request" : String).toList ≠ [] := by decide +kernel
  rw [Bool.eq_iff_iff, contains_iff hmark, contains_iff hmark, doesNotFit, String.toList_append]
  apply List.isInfix_append_iff
  · decide +kernel
  · decide +kernel

/-- The line of a 429 asks for a retry. -/
theorem limited_of_stated (v : Verifier) (agentIdHash : String) (traceId : Option String)
    {wait : Nat} (h : statedDelay c turn = some wait) :
    ∃ e, limited (askOnce v c agentIdHash traceId turn) = some e := by
  unfold statedDelay at h
  cases hsent : turn.sent with
  | error e =>
    rw [hsent] at h
    cases h
  | ok reply =>
    cases hbody : boundedBody (c.url ++ receiptRoute) reply with
    | error e =>
      simp only [hsent, hbody] at h
      cases h
    | ok body =>
      simp only [hsent, hbody] at h
      have hstatus : reply.status = 429 := by
        by_contra hne
        rw [if_neg hne] at h
        cases h
      have hask : askOnce v c agentIdHash traceId turn =
          .error (.unavailable, statusLine (c.url ++ receiptRoute) reply body) := by
        rw [askOnce, hsent]
        simp only [Except.mapError, bind, Except.bind, hbody, hstatus, ensure]
        rfl
      have hmark : ∃ after, statusLine (c.url ++ receiptRoute) reply body =
          c.url ++ receiptRoute ++ ": HTTP 429" ++ after := by
        have hnumber : (": HTTP " : String) ++ toString 429 = ": HTTP 429" := by decide +kernel
        refine ⟨" " ++ (reply.reason ++ (": " ++ (String.ofList
          ((fromUtf8Lossy body).toList.take 200) ++
            (reply.retryAfter.map (" retry-after=" ++ ·)).getD ""))), ?_⟩
        rw [statusLine, hstatus, ← hnumber]
        simp only [String.append_assoc]
      obtain ⟨after, hafter⟩ := hmark
      refine ⟨statusLine (c.url ++ receiptRoute) reply body, ?_⟩
      rw [hask, limited, if_pos]
      rw [hafter]
      exact contains_append _ _ _ (by decide +kernel)

/-- What a retry is asked for with is the line of the result. -/
theorem eq_of_limited {result : AskResult} {e : String} (h : limited result = some e) :
    result = .error (.unavailable, e) := by
  cases result with
  | ok receipt => cases h
  | error why =>
    obtain ⟨verification, line⟩ := why
    cases verification with
    | verified => cases h
    | failed => cases h
    | unavailable =>
      rw [limited] at h
      by_cases hmark : contains line ": HTTP 429" = true
      · rw [if_pos hmark] at h
        cases h
        rfl
      · rw [if_neg hmark] at h
        cases h

/-! ## One turn -/

/-- **Inversion.** A turn with retries left ends the ask with its result, ends it because the delay
    does not fit, panics, or waits. -/
theorem ask_succ (v : Verifier) (c : CanonicalRead) (agentIdHash : String) (traceId : Option String)
    (turns : Nat → Turn) (deadline left i : Nat) :
    (limited (askOnce v c agentIdHash traceId (turns i)) = none ∧
      ask v c agentIdHash traceId turns deadline (left + 1) i =
        ⟨[], some (askOnce v c agentIdHash traceId (turns i))⟩) ∨
    ∃ e, limited (askOnce v c agentIdHash traceId (turns i)) = some e ∧
      ((addSeconds (turns i).instant (retryDelay e) = none ∧
        ask v c agentIdHash traceId turns deadline (left + 1) i = ⟨[], none⟩) ∨
      ∃ wake, addSeconds (turns i).instant (retryDelay e) = some wake ∧
        ((deadline < wake ∧ ask v c agentIdHash traceId turns deadline (left + 1) i =
          ⟨[], some (.error (.unavailable, doesNotFit e))⟩) ∨
        (wake ≤ deadline ∧ ask v c agentIdHash traceId turns deadline (left + 1) i =
          ⟨retryDelay e :: (ask v c agentIdHash traceId turns deadline left (i + 1)).waits,
            (ask v c agentIdHash traceId turns deadline left (i + 1)).result⟩))) := by
  rw [ask]
  cases hlimited : limited (askOnce v c agentIdHash traceId (turns i)) with
  | none => exact Or.inl ⟨rfl, rfl⟩
  | some e =>
    refine Or.inr ⟨e, rfl, ?_⟩
    simp only
    cases hwake : addSeconds (turns i).instant (retryDelay e) with
    | none => exact Or.inl ⟨rfl, rfl⟩
    | some wake =>
      refine Or.inr ⟨wake, rfl, ?_⟩
      by_cases hlate : wake > deadline
      · exact Or.inl ⟨hlate, if_pos hlate⟩
      · exact Or.inr ⟨Nat.le_of_not_lt hlate, if_neg hlate⟩

/-- A turn ends the ask as it should exactly when its line asks for no retry in time, and does not
    speak of a request that could not be sent. -/
theorem settles_iff (left i : Nat) :
    conduct (ask v c agentIdHash traceId turns deadline (left + 1) i) =
        some ⟨[], unsent (turns i)⟩ ↔
      NoRetry (turns i) deadline (askOnce v c agentIdHash traceId (turns i)) ∧
        NotMistaken (turns i) (askOnce v c agentIdHash traceId (turns i)) := by
  have hreport : unreachable (askOnce v c agentIdHash traceId (turns i)) = unsent (turns i) ↔
      NotMistaken (turns i) (askOnce v c agentIdHash traceId (turns i)) := by
    unfold NotMistaken
    cases hunsent : unsent (turns i) with
    | false => simp
    | true => simp [unreachable_of_unsent hunsent]
  rcases ask_succ v c agentIdHash traceId turns deadline left i with ⟨hnone, heq⟩ |
    ⟨e, he, ⟨hpanic, heq⟩ | ⟨wake, hwake, ⟨hlate, heq⟩ | ⟨hintime, heq⟩⟩⟩
  · have hno : NoRetry (turns i) deadline (askOnce v c agentIdHash traceId (turns i)) := by
      intro e he
      rw [hnone] at he
      cases he
    rw [heq, ← hreport]
    simp [conduct, hno]
  · have hno : ¬ NoRetry (turns i) deadline (askOnce v c agentIdHash traceId (turns i)) := by
      intro hno
      obtain ⟨wake, hwake, -⟩ := hno e he
      rw [hpanic] at hwake
      cases hwake
    rw [heq]
    simp [conduct, hno]
  · have hno : NoRetry (turns i) deadline (askOnce v c agentIdHash traceId (turns i)) := by
      intro e' he'
      rw [he] at he'
      cases he'
      exact ⟨wake, hwake, hlate⟩
    have hsame : unreachable (.error (.unavailable, doesNotFit e)) =
        unreachable (askOnce v c agentIdHash traceId (turns i)) := by
      rw [eq_of_limited he]
      exact contains_doesNotFit e
    rw [heq, ← hreport, ← hsame]
    simp [conduct, hno]
  · have hno : ¬ NoRetry (turns i) deadline (askOnce v c agentIdHash traceId (turns i)) := by
      intro hno
      obtain ⟨wake', hwake', hlate⟩ := hno e he
      rw [hwake] at hwake'
      cases hwake'
      omega
    rw [heq]
    simp only [conduct, hno, false_and, iff_false]
    intro h
    obtain ⟨result, -, hsame⟩ := Option.map_eq_some_iff.mp h
    cases hsame

/-! ## A whole ask -/

/-- No more delays than retries. -/
theorem length_waits (v : Verifier) (c : CanonicalRead) (agentIdHash : String)
    (traceId : Option String) (turns : Nat → Turn) (deadline left i : Nat) :
    (ask v c agentIdHash traceId turns deadline left i).waits.length ≤ left := by
  induction left generalizing i with
  | zero => exact Nat.le_refl 0
  | succ left ih =>
    rcases ask_succ v c agentIdHash traceId turns deadline left i with ⟨-, heq⟩ |
      ⟨e, -, ⟨-, heq⟩ | ⟨wake, -, ⟨-, heq⟩ | ⟨-, heq⟩⟩⟩
    · rw [heq]
      exact Nat.zero_le _
    · rw [heq]
      exact Nat.zero_le _
    · rw [heq]
      exact Nat.zero_le _
    · rw [heq]
      exact Nat.succ_le_succ (ih (i + 1))

/-- A turn that waits, and the ask from the next one. -/
theorem conduct_cons (wait : Nat) (rest : Asked) (next : Conduct) :
    conduct ⟨wait :: rest.waits, rest.result⟩ = some ⟨wait :: next.waits, next.unreachable⟩ ↔
      conduct rest = some next := by
  obtain ⟨waits, unreachable⟩ := next
  unfold conduct
  cases rest.result with
  | none => simp
  | some result => simp

theorem addSeconds_eq {instant secs wake : Nat} (h : addSeconds instant secs = some wake) :
    wake = instant + secs * 10 ^ 9 := by
  rw [addSeconds] at h
  by_cases hcount : instant / 10 ^ 9 + secs < 2 ^ 63
  · rw [if_pos hcount] at h
    exact (Option.some.inj h).symm
  · rw [if_neg hcount] at h
    cases h

/-- A retry that should be made is made exactly when the line states the header's delay. -/
theorem retries_iff {wait : Nat} (left i : Nat) (next : Conduct)
    (hstated : statedDelay c (turns i) = some wait) (hfits : Fits (turns i) deadline wait) :
    conduct (ask v c agentIdHash traceId turns deadline (left + 1) i) =
        some ⟨wait :: next.waits, next.unreachable⟩ ↔
      States (turns i) wait (askOnce v c agentIdHash traceId (turns i)) ∧
        conduct (ask v c agentIdHash traceId turns deadline left (i + 1)) = some next := by
  obtain ⟨line, hline⟩ := limited_of_stated v agentIdHash traceId hstated
  have hstates : States (turns i) wait (askOnce v c agentIdHash traceId (turns i)) ↔
      retryDelay line = wait ∧ addSeconds (turns i).instant wait ≠ none := by
    unfold States
    rw [hline]
    simp
  rcases ask_succ v c agentIdHash traceId turns deadline left i with ⟨hnone, -⟩ |
    ⟨e, he, hways⟩
  · rw [hline] at hnone
    cases hnone
  · obtain rfl : line = e := Option.some.inj (hline.symm.trans he)
    rw [hstates]
    rcases hways with ⟨hpanic, heq⟩ | ⟨wake, hwake, ⟨hlate, heq⟩ | ⟨-, heq⟩⟩
    · rw [heq]
      constructor
      · intro h
        cases h
      · rintro ⟨⟨rfl, hcount⟩, -⟩
        exact absurd hpanic hcount
    · rw [heq]
      constructor
      · intro h
        obtain ⟨result, -, hsame⟩ := Option.map_eq_some_iff.mp h
        cases hsame
      · rintro ⟨⟨rfl, -⟩, -⟩
        have hwake' := addSeconds_eq hwake
        unfold Fits at hfits
        omega
    · rw [heq]
      by_cases hwait : retryDelay line = wait
      · subst hwait
        rw [conduct_cons]
        simp [hwake]
      · constructor
        · intro h
          obtain ⟨result, -, hsame⟩ := Option.map_eq_some_iff.mp h
          exact absurd (List.cons.inj (congrArg Conduct.waits hsame)).1 hwait
        · exact fun h => absurd h.1.1 hwait

/-- The ask from any turn on. -/
theorem conduct_iff (left i : Nat) :
    conduct (ask v c agentIdHash traceId turns deadline left i) =
        some (due c turns deadline left i) ↔
      Plain v c agentIdHash traceId turns deadline left i := by
  induction left generalizing i with
  | zero =>
    unfold Plain NotMistaken
    cases hunsent : unsent (turns i) with
    | false => simp [conduct, ask, due, hunsent]
    | true => simp [conduct, ask, due, hunsent, unreachable_of_unsent hunsent]
  | succ left ih =>
    rw [due, Plain]
    cases hstated : statedDelay c (turns i) with
    | none => exact settles_iff left i
    | some wait =>
      simp only
      by_cases hfits : Fits (turns i) deadline wait
      · rw [if_pos hfits, if_pos hfits, ← ih (i + 1)]
        exact retries_iff left i _ hstated hfits
      · rw [if_neg hfits, if_neg hfits]
        exact settles_iff left i

end

/-! ## Hostile replies -/

/-- A verifier that reads no body. -/
def illiterate : Verifier where
  json _ := .error "expected value at line 1 column 1"
  receipt _ := .error "invalid type: null, expected struct Receipt"
  receiptBytes _ := []
  sha256Hex _ := ""
  lookupPublicKey _ := .ok none
  canonicalize _ := .error ""
  verifyHybrid _ _ _ _ := false
  standing _ _ _ := .ok .stands
  shownTime _ := ""
  debugOption _ := ""

def someCanonical : CanonicalRead := ⟨"canonical-1", "http://10.0.0.5:4243"⟩

/-- The same reply, whenever it is asked for. -/
def always (reply : Reply) (_ : Nat) : Turn := ⟨"nonce", .ok reply, 0, 0, 0, 5 * 10 ^ 9⟩

/-- A server error whose body quotes what an ask says when it could not send. -/
def quotingReply : Reply :=
  ⟨500, "Internal Server Error", none, none, [.ok (utf8 "x: error sending request")]⟩

/-- A 429 whose delay no clock can count. -/
def endlessReply : Reply := ⟨429, "Too Many Requests", some "18446744073709551615", none, []⟩

end CirisServer.TraceReceipt
