import CirisServer.ForStd.Outputs
import CirisServer.ForStd.Tally
import CirisServer.ForStd.Tokens
import CirisServer.Native.LogDedup

/-!
# Log collapsing loses no count

An event that does not print is counted in the entry of its key, and the entry leaves the map only
through a flush that reports it. So what was held back under a key is what the summaries report of
it and what the map still holds, over every run of events, flushes and panics.

The proof is by buckets: the entry under a hash is the business of every event with that hash,
whatever its key. Where no two keys of the run share a hash, a bucket is a key.

Key results:
- `normalize_normalize`: a normalized message is its own key
- `admitEvent_of_tracked`: what admitting an event does to its entry
- `run_balance`, `run_burst`: the accounts of a bucket
- `run_accounted`: the accounts of a key
- `run_counts`: the cumulative counts, which no flush clears
-/

namespace CirisServer.LogDedup

/-! ## Normalizing -/

theorem flushToken_eq (tok out : List Char) : flushToken tok out = out ++ flushToken tok [] := by
  unfold flushToken
  split
  · simp
  · split
    · simp
    · split <;> simp

/-- The loop writes behind what is written already. -/
theorem normalizeLoop_eq (msg tok out : List Char) :
    normalizeLoop msg tok out =
      out ++ List.mapTokensFrom Char.isAlphanum (flushToken · []) msg tok := by
  induction msg generalizing tok out with
  | nil => exact flushToken_eq tok out
  | cons c msg ih =>
    rw [normalizeLoop, List.mapTokensFrom]
    split
    · exact ih _ _
    · rw [ih, flushToken_eq, List.append_assoc, List.append_assoc, List.singleton_append]

theorem toList_normalize (msg : String) :
    (normalize msg).toList = List.mapTokens Char.isAlphanum (flushToken · []) msg.toList := by
  rw [normalize, String.toList_ofList, normalizeLoop_eq, List.nil_append, List.mapTokens]

/-- Neither placeholder has an identifier or a number in it, and any other token is written as it
    is. -/
theorem mapTokens_flushToken {tok : List Char} (h : tok.all Char.isAlphanum = true) :
    List.mapTokens Char.isAlphanum (flushToken · []) (flushToken tok []) = flushToken tok [] := by
  have hself : flushToken tok [] = tok →
      List.mapTokens Char.isAlphanum (flushToken · []) (flushToken tok []) = flushToken tok [] := by
    intro htok
    rw [htok, List.mapTokens_of_all h]
    exact htok
  have hid : List.mapTokens Char.isAlphanum (flushToken · []) "<id>".toList = "<id>".toList := by
    decide
  have hn : List.mapTokens Char.isAlphanum (flushToken · []) "<n>".toList = "<n>".toList := by
    decide
  by_cases hempty : tok.isEmpty = true
  · exact hself (by simp_all [flushToken])
  · by_cases hident : isIdentifier tok = true
    · have hwritten : flushToken tok [] = "<id>".toList := by simp [flushToken, hempty, hident]
      rw [hwritten, hid]
    · by_cases hdigit : tok.all Char.isDigit = true
      · have hwritten : flushToken tok [] = "<n>".toList := by
          rw [flushToken, if_neg hempty, if_neg hident, if_pos hdigit, List.nil_append]
        rw [hwritten, hn]
      · exact hself (by rw [flushToken, if_neg hempty, if_neg hident, if_neg hdigit]; rfl)

/-- `normalize` is idempotent. -/
theorem normalize_normalize (msg : String) : normalize (normalize msg) = normalize msg := by
  apply String.toList_injective
  rw [toList_normalize, toList_normalize]
  exact List.mapTokens_mapTokens (fun _ h => mapTokens_flushToken h) _

/-! ## One event -/

variable {hash : Key → UInt64} {s : DedupState}

/-- The event goes through the map. -/
def isTracked (hash : Key → UInt64) (s : DedupState) (target : String) (level : Level)
    (msg : String) : Bool :=
  !isDiagnostic msg && !s.poisoned && !isFull s (hash (keyOf target level msg))

/-- The entry after another occurrence. -/
def Entry.bump (e : Entry) : Entry :=
  { e with
    seen := e.seen + 1
    suppressed := if e.seen < BURST then e.suppressed else e.suppressed + 1 }

/-- The key the entry was filed under. -/
def Entry.key (e : Entry) : Key := keyOf e.target e.level e.sample

@[simp] theorem Entry.key_bump (e : Entry) : e.bump.key = e.key := rfl

theorem countSuppressed_map (target : String) (level : Level) (s : DedupState) :
    (countSuppressed target level s).map = s.map ∧
      (countSuppressed target level s).poisoned = s.poisoned := by
  unfold countSuppressed
  split <;> exact ⟨rfl, rfl⟩

/-- An event that is not tracked prints and leaves no trace. -/
theorem admitEvent_of_not_tracked {target : String} {level : Level} {msg : String} (now : Nat)
    (h : isTracked hash s target level msg = false) :
    admitEvent hash now target level msg s = (true, s) := by
  unfold admitEvent
  by_cases hdiag : isDiagnostic msg = true
  · rw [if_pos hdiag]
  · by_cases hpoisoned : s.poisoned = true
    · simp only [if_neg hdiag, if_pos hpoisoned]
    · have hfull : isFull s (hash (keyOf target level msg)) = true := by
        simpa [isTracked, hdiag, hpoisoned] using h
      simp only [if_neg hdiag, if_neg hpoisoned, if_pos hfull]

/-- A tracked event puts the next occurrence into its entry, and prints while the burst lasts. -/
theorem admitEvent_of_tracked {target : String} {level : Level} {msg : String} (now : Nat)
    (h : isTracked hash s target level msg = true) :
    let key := hash (keyOf target level msg)
    let e := entryAt s key now target level msg
    (admitEvent hash now target level msg s).1 = decide (e.seen < BURST) ∧
      (admitEvent hash now target level msg s).2.map = Members.insert key e.bump s.map ∧
      (admitEvent hash now target level msg s).2.poisoned = s.poisoned := by
  intro key e
  simp only [isTracked, Bool.and_eq_true, Bool.not_eq_true'] at h
  obtain ⟨⟨hdiag, hpoisoned⟩, hfull⟩ := h
  unfold admitEvent
  rw [if_neg (by simp [hdiag])]
  simp only [hpoisoned, hfull, Bool.false_eq_true, if_false]
  by_cases hburst : e.seen < BURST
  · have hle : e.seen + 1 ≤ BURST := hburst
    have hbump : e.bump = { e with seen := e.seen + 1 } := by
      rw [Entry.bump, if_pos hburst]
    rw [if_pos hle, hbump, decide_eq_true hburst]
    exact ⟨rfl, rfl, rfl⟩
  · have hle : ¬ e.seen + 1 ≤ BURST := hburst
    have hbump : e.bump = { e with seen := e.seen + 1, suppressed := e.suppressed + 1 } := by
      rw [Entry.bump, if_neg hburst]
    rw [if_neg hle, hbump, decide_eq_false hburst]
    have hmap := countSuppressed_map target level
    exact ⟨rfl, (hmap _).1, (hmap _).2⟩

/-! ## The map -/

/-- Every entry is filed once, under the hash of its own key, and there are no more of them than
    the map may hold. -/
structure Filed (hash : Key → UInt64) (map : List (UInt64 × Entry)) : Prop where
  nodup : (map.map Prod.fst).Nodup
  filed : ∀ m ∈ map, m.1 = hash m.2.key
  bounded : map.length ≤ MAX_TRACKED

theorem Filed.nil : Filed hash [] :=
  { nodup := List.nodup_nil
    filed := fun _ hm => absurd hm List.not_mem_nil
    bounded := Nat.zero_le _ }

/-- The entry of an event is in the map, or new. -/
theorem entryAt_cases (s : DedupState) (key : UInt64) (now : Nat) (target : String) (level : Level)
    (msg : String) :
    let e := entryAt s key now target level msg
    (key, e) ∈ s.map ∨ e.key = keyOf target level msg ∧ e.seen = 0 ∧ e.suppressed = 0 := by
  unfold entryAt
  cases hfound : s.map.lookup key with
  | none => exact Or.inr ⟨rfl, rfl, rfl⟩
  | some e => exact Or.inl (Members.mem_of_lookup hfound)

/-- The entry an event finds has the hash of the event. -/
theorem hash_entryAt (hf : Filed hash s.map) (now : Nat) (target : String) (level : Level)
    (msg : String) :
    hash (entryAt s (hash (keyOf target level msg)) now target level msg).key =
      hash (keyOf target level msg) := by
  cases entryAt_cases s (hash (keyOf target level msg)) now target level msg with
  | inl hold => exact (hf.filed _ hold).symm
  | inr hnew => rw [hnew.1]

theorem Filed.insert {map : List (UInt64 × Entry)} {e : Entry} (hf : Filed hash map)
    (hroom : Members.contains (hash e.key) map = true ∨ map.length < MAX_TRACKED) :
    Filed hash (Members.insert (hash e.key) e map) := by
  have hbounded := hf.bounded
  refine ⟨Members.nodup_insert hf.nodup, fun m hm => ?_, ?_⟩
  · cases Members.mem_insert hm with
    | inl hold => exact hf.filed m hold
    | inr hnew => rw [hnew]
  · rw [Members.length_insert]
    split
    · exact hbounded
    · next hout => exact Nat.succ_le_of_lt (hroom.resolve_left hout)

/-- What the loop of `flush` leaves. -/
theorem drain_snd (keys : List UInt64) (map : List (UInt64 × Entry)) (out : List Entry) :
    (drain keys map out).2 = Members.removeAll keys map := by
  induction keys generalizing map out with
  | nil => rfl
  | cons k keys ih =>
    have hcons : Members.removeAll (k :: keys) map =
        Members.removeAll keys (Members.remove k map) := rfl
    rw [drain, hcons]
    split
    · split <;> exact ih _ _
    · exact ih _ _

/-- What the loop takes out and what it leaves weigh what there was, where an entry without a count
    weighs nothing. -/
theorem drain_weigh {f : Entry → Nat} (hzero : ∀ e, e.suppressed = 0 → f e = 0)
    (keys : List UInt64) {map : List (UInt64 × Entry)} (hnodup : (map.map Prod.fst).Nodup)
    (out : List Entry) :
    ((drain keys map out).1.map f).sum + Tally.weigh f (drain keys map out).2 =
      (out.map f).sum + Tally.weigh f map := by
  induction keys generalizing map out with
  | nil => rfl
  | cons k keys ih =>
    have hnodup' : ((Members.remove k map).map Prod.fst).Nodup := Members.nodup_remove hnodup
    have hweigh := Tally.weigh_remove (k := k) (f := f) hnodup
    rw [drain]
    cases hfound : map.lookup k with
    | none =>
      rw [hfound] at hweigh
      have hrest := ih hnodup' out
      simp only [Option.map_none, Option.getD_none] at hweigh
      simp only
      omega
    | some e =>
      rw [hfound] at hweigh
      simp only [Option.map_some, Option.getD_some] at hweigh
      simp only
      split
      · have hrest := ih hnodup' (out ++ [e])
        simp only [List.map_append, List.map_cons, List.map_nil, List.sum_append, List.sum_cons,
          List.sum_nil] at hrest
        omega
      · have hrest := ih hnodup' out
        have he := hzero e (by omega)
        omega

/-- A flush empties the map, whatever order the map gives its keys in. -/
theorem flush_map (order : KeyOrder) (h : s.poisoned = false) : (flush order s).2.map = [] := by
  have hdrained : (flush order s).2.map = (drain (order.keys s.map) s.map []).2 := by
    simp [flush, h]
  rw [hdrained, drain_snd, Members.removeAll_eq_filter, List.filter_eq_nil_iff]
  intro m hm hkey
  have hin : m.1 ∈ order.keys s.map :=
    (order.perm s.map).mem_iff.mpr (List.mem_map_of_mem hm)
  exact of_decide_eq_true hkey hin

/-- What a call does to the map: nothing, or it is emptied by a flush, or a tracked event puts its
    next occurrence in. -/
theorem step_map (hash : Key → UInt64) (s : DedupState) (c : Call) :
    (step hash s c).map = s.map ∨ (step hash s c).map = [] ∨
      ∃ now target level msg, c = .event now target level msg ∧
        isTracked hash s target level msg = true ∧
        (step hash s c).map = Members.insert (hash (keyOf target level msg))
          (entryAt s (hash (keyOf target level msg)) now target level msg).bump s.map := by
  cases c with
  | poison | poisonCounts => exact Or.inl rfl
  | flush now order =>
    by_cases hpoisoned : s.poisoned = true
    · have hsame : flush order s = ([], s) := if_pos hpoisoned
      exact Or.inl (by rw [step, hsame])
    · exact Or.inr (Or.inl (flush_map order (Bool.not_eq_true _ ▸ hpoisoned)))
  | event now target level msg =>
    cases htracked : isTracked hash s target level msg with
    | false => exact Or.inl (by rw [step, admitEvent_of_not_tracked now htracked])
    | true =>
      exact Or.inr (Or.inr ⟨now, target, level, msg, rfl, htracked,
        (admitEvent_of_tracked now htracked).2.1⟩)

/-- **Step.** No call misfiles an entry or outgrows the map. -/
theorem Filed.step (hf : Filed hash s.map) (c : Call) :
    Filed hash (LogDedup.step hash s c).map := by
  obtain hsame | hempty | ⟨now, target, level, msg, -, htracked, hmap⟩ := step_map hash s c
  · rwa [hsame]
  · rw [hempty]
    exact Filed.nil
  · have hkey := hash_entryAt hf now target level msg
    have hfull : isFull s (hash (keyOf target level msg)) = false := by
      simp only [isTracked, Bool.and_eq_true, Bool.not_eq_true'] at htracked
      exact htracked.2
    have hroom : Members.contains (hash (keyOf target level msg)) s.map = true ∨
        s.map.length < MAX_TRACKED := by
      simp only [isFull, Bool.and_eq_false_iff, Bool.not_eq_false', decide_eq_false_iff_not,
        Nat.not_le] at hfull
      exact hfull.symm
    rw [← hkey, ← Entry.key_bump] at hroom
    have hinsert := hf.insert hroom
    rw [Entry.key_bump, hkey] at hinsert
    rwa [hmap]

/-! ## The accounts of a bucket -/

/-- What an event was answered. -/
structure Answer where
  key : Key
  diagnostic : Bool
  tracked : Bool
  printed : Bool

def answers (hash : Key → UInt64) (s : DedupState) : Call → List Answer
  | .event now target level msg =>
    [{ key := keyOf target level msg
       diagnostic := isDiagnostic msg
       tracked := isTracked hash s target level msg
       printed := (admitEvent hash now target level msg s).1 }]
  | _ => []

/-- The summaries a flush emits, each with the entry it reports. -/
def emitted (s : DedupState) : Call → List (Entry × Summary)
  | .flush now order => (flush order s).1.map fun e => (e, summary now e)
  | _ => []

/-- A tracked event adds one occurrence to what its entry weighs. -/
theorem admitEvent_weigh {f : Entry → Nat} (hzero : ∀ e, e.seen = 0 → e.suppressed = 0 → f e = 0)
    (hnodup : (s.map.map Prod.fst).Nodup) (now : Nat) {target : String} {level : Level}
    {msg : String} (h : isTracked hash s target level msg = true) :
    let e := entryAt s (hash (keyOf target level msg)) now target level msg
    Tally.weigh f (admitEvent hash now target level msg s).2.map + f e =
      Tally.weigh f s.map + f e.bump := by
  intro e
  have hold : ((s.map.lookup (hash (keyOf target level msg))).map f).getD 0 = f e := by
    show _ = f (entryAt s _ now target level msg)
    unfold entryAt
    cases s.map.lookup (hash (keyOf target level msg)) with
    | none => exact (hzero _ rfl rfl).symm
    | some e => rfl
  have hweigh := Tally.weigh_insert (k := hash (keyOf target level msg)) (x := e.bump) (f := f)
    hnodup
  rw [(admitEvent_of_tracked now h).2.1, ← hold]
  exact hweigh

section Bucket

variable (hash) (bucket : UInt64)

/-- The occurrences the entry of the bucket stands for. -/
def heldIn (e : Entry) : Nat := if hash e.key = bucket then e.suppressed else 0

/-- The occurrences that printed through the entry of the bucket. -/
def burstIn (e : Entry) : Nat := if hash e.key = bucket then min e.seen BURST else 0

def refusedIn (a : Answer) : Nat := if hash a.key = bucket ∧ a.printed = false then 1 else 0

def printedIn (a : Answer) : Nat :=
  if hash a.key = bucket ∧ a.tracked = true ∧ a.printed = true then 1 else 0

end Bucket

variable {bucket : UInt64}

theorem heldIn_bump (e : Entry) : heldIn hash bucket e.bump =
    heldIn hash bucket e + if hash e.key = bucket ∧ BURST ≤ e.seen then 1 else 0 := by
  unfold heldIn
  rw [Entry.key_bump]
  by_cases hkey : hash e.key = bucket
  · by_cases hburst : e.seen < BURST
    · simp [hkey, Entry.bump, hburst, Nat.not_le.mpr hburst]
    · simp [hkey, Entry.bump, hburst, Nat.not_lt.mp hburst]
  · simp [hkey]

theorem burstIn_bump (e : Entry) : burstIn hash bucket e.bump =
    burstIn hash bucket e + if hash e.key = bucket ∧ e.seen < BURST then 1 else 0 := by
  unfold burstIn
  rw [Entry.key_bump]
  have hseen : e.bump.seen = e.seen + 1 := rfl
  by_cases hkey : hash e.key = bucket
  · by_cases hburst : e.seen < BURST
    · simp only [hkey, hburst, hseen, and_self, if_true]
      omega
    · simp only [hkey, hburst, hseen, and_false, if_true, if_false]
      omega
  · simp [hkey]

/-- **Step.** What a call refuses in a bucket is what it reports and what it leaves there more. -/
theorem step_balance (hf : Filed hash s.map) (c : Call) :
    Tally.weigh (heldIn hash bucket) s.map + ((answers hash s c).map (refusedIn hash bucket)).sum =
      ((emitted s c).map fun p => heldIn hash bucket p.1).sum +
        Tally.weigh (heldIn hash bucket) (step hash s c).map := by
  cases c with
  | poison | poisonCounts => simp [answers, emitted, step]
  | flush now order =>
    by_cases hpoisoned : s.poisoned = true
    · have hsame : flush order s = ([], s) := if_pos hpoisoned
      simp [answers, emitted, step, hsame]
    · have hzero : ∀ e : Entry, e.suppressed = 0 → heldIn hash bucket e = 0 := by
        intro e he
        simp [heldIn, he]
      have hdrain := drain_weigh hzero (order.keys s.map) hf.nodup []
      have hflush : flush order s = ((drain (order.keys s.map) s.map []).1,
          { s with map := (drain (order.keys s.map) s.map []).2 }) := if_neg hpoisoned
      have hsum : ((emitted s (.flush now order)).map fun p => heldIn hash bucket p.1) =
          (drain (order.keys s.map) s.map []).1.map (heldIn hash bucket) := by
        rw [emitted, hflush, List.map_map]
        rfl
      rw [hsum]
      simp only [answers, step, hflush, List.map_nil, List.sum_nil] at hdrain ⊢
      omega
  | event now target level msg =>
    cases htracked : isTracked hash s target level msg with
    | false =>
      simp [answers, emitted, step, admitEvent_of_not_tracked now htracked, refusedIn]
    | true =>
      have hzero : ∀ e : Entry, e.seen = 0 → e.suppressed = 0 → heldIn hash bucket e = 0 := by
        intro e _ he
        simp [heldIn, he]
      have hweigh := admitEvent_weigh hzero hf.nodup now htracked
      have hanswer := (admitEvent_of_tracked now htracked).1
      have hkey := hash_entryAt hf now target level msg
      dsimp only at hweigh
      rw [heldIn_bump, hkey] at hweigh
      simp only [answers, emitted, step, List.map_cons, List.map_nil, List.sum_cons, List.sum_nil,
        refusedIn, hanswer, decide_eq_false_iff_not, Nat.not_lt]
      omega

/-- The call is no flush. -/
def Call.keepsWindow : Call → Bool
  | .flush _ _ => false
  | _ => true

/-- **Step.** What prints through an entry goes into its burst. -/
theorem step_burst (hf : Filed hash s.map) {c : Call} (hc : c.keepsWindow = true) :
    Tally.weigh (burstIn hash bucket) s.map +
        ((answers hash s c).map (printedIn hash bucket)).sum =
      Tally.weigh (burstIn hash bucket) (step hash s c).map := by
  cases c with
  | poison | poisonCounts => simp [answers, step]
  | flush now order => cases hc
  | event now target level msg =>
    cases htracked : isTracked hash s target level msg with
    | false => simp [answers, step, admitEvent_of_not_tracked now htracked, printedIn, htracked]
    | true =>
      have hzero : ∀ e : Entry, e.seen = 0 → e.suppressed = 0 → burstIn hash bucket e = 0 := by
        intro e he _
        simp [burstIn, he]
      have hweigh := admitEvent_weigh hzero hf.nodup now htracked
      have hanswer := (admitEvent_of_tracked now htracked).1
      have hkey := hash_entryAt hf now target level msg
      dsimp only at hweigh
      rw [burstIn_bump, hkey] at hweigh
      simp only [answers, step, List.map_cons, List.map_nil, List.sum_cons, List.sum_nil,
        printedIn, hanswer, htracked, true_and, decide_eq_true_eq]
      omega

/-- A bucket has one entry, and an entry one burst. -/
theorem weigh_burstIn_le (bucket : UInt64) {map : List (UInt64 × Entry)} (hf : Filed hash map) :
    Tally.weigh (burstIn hash bucket) map ≤ BURST := by
  have hrest : Tally.weigh (burstIn hash bucket) (Members.remove bucket map) = 0 := by
    apply Tally.weigh_eq_zero
    intro m hm
    have hne : m.1 ≠ bucket := of_decide_eq_true (List.mem_filter.mp hm).2
    have hkey := hf.filed m (List.mem_filter.mp hm).1
    exact if_neg (hkey ▸ hne)
  rw [Tally.weigh_remove (k := bucket) hf.nodup, hrest, Nat.add_zero]
  cases map.lookup bucket with
  | none => exact Nat.zero_le _
  | some e =>
    show burstIn hash bucket e ≤ BURST
    unfold burstIn
    split <;> omega

/-! ## Runs -/

variable {calls : List Call}

/-- What the events of a run were answered. -/
def answered (hash : Key → UInt64) (s : DedupState) (calls : List Call) : List Answer :=
  Run.outputs (step hash) (answers hash) s calls

/-- The summaries a run emits. -/
def reports (hash : Key → UInt64) (s : DedupState) (calls : List Call) : List (Entry × Summary) :=
  Run.outputs (step hash) emitted s calls

theorem Filed.run (hf : Filed hash s.map) (calls : List Call) :
    Filed hash (Run.after (LogDedup.step hash) s calls).map :=
  Run.after_invariant (I := fun s : DedupState => Filed hash s.map) (fun _ c hs => hs.step c) hf

/-- **Run.** What a run refuses in a bucket is what its flushes report and what it leaves there
    more. -/
theorem run_balance (bucket : UInt64) (hf : Filed hash s.map) (calls : List Call) :
    Tally.weigh (heldIn hash bucket) s.map +
        ((answered hash s calls).map (refusedIn hash bucket)).sum =
      ((reports hash s calls).map fun p => heldIn hash bucket p.1).sum +
        Tally.weigh (heldIn hash bucket) (Run.after (step hash) s calls).map :=
  Run.Guarded.balance (I := fun s : DedupState => Filed hash s.map) (fun _ c hs _ => hs.step c)
    (fun _ c hs _ => step_balance hs c) (Run.Guarded.trivial s calls) hf

/-- **Run.** Between two flushes at most a burst prints through a bucket. -/
theorem run_burst (hf : Filed hash s.map)
    (hcalls : Run.Guarded (step hash) (fun _ c => c.keepsWindow = true) s calls) :
    ((answered hash s calls).map (printedIn hash bucket)).sum ≤ BURST := by
  have hintake : Tally.weigh (burstIn hash bucket) s.map +
      ((answered hash s calls).map (printedIn hash bucket)).sum =
        Tally.weigh (burstIn hash bucket) (Run.after (step hash) s calls).map :=
    Run.Guarded.intake (I := fun s : DedupState => Filed hash s.map) (fun _ c hs _ => hs.step c)
      (fun _ _ hs hc => step_burst hs hc) hcalls hf
  have hle := weigh_burstIn_le bucket (hf.run calls)
  omega

/-- No entry has seen more than `n` events. -/
def SeenAtMost (n : Nat) (s : DedupState) : Prop :=
  ∀ m ∈ s.map, m.2.suppressed ≤ m.2.seen ∧ m.2.seen ≤ n

theorem SeenAtMost.step {n : Nat} (hs : SeenAtMost n s) (c : Call) :
    SeenAtMost (n + 1) (LogDedup.step hash s c) := by
  intro m hm
  have hlater : ∀ m ∈ s.map, m.2.suppressed ≤ m.2.seen ∧ m.2.seen ≤ n + 1 := fun m hm =>
    ⟨(hs m hm).1, Nat.le_succ_of_le (hs m hm).2⟩
  obtain hsame | hempty | ⟨now, target, level, msg, rfl, -, hmap⟩ := step_map hash s c
  · exact hlater m (hsame ▸ hm)
  · rw [hempty] at hm
    cases hm
  · rw [hmap] at hm
    cases Members.mem_insert hm with
    | inl hold => exact hlater m hold
    | inr hnew =>
      rw [hnew]
      have hentry : (entryAt s (hash (keyOf target level msg)) now target level msg).suppressed ≤
            (entryAt s (hash (keyOf target level msg)) now target level msg).seen ∧
          (entryAt s (hash (keyOf target level msg)) now target level msg).seen ≤ n := by
        cases entryAt_cases s (hash (keyOf target level msg)) now target level msg with
        | inl hfound => exact hs _ hfound
        | inr hfresh => omega
      simp only [Entry.bump]
      split <;> omega

/-- **Run.** The counts of the window are at most the calls of the run, so those of fewer than
    `2 ^ 64` calls fit in a `u64`. -/
theorem SeenAtMost.run {n : Nat} (hs : SeenAtMost n s) (calls : List Call) :
    SeenAtMost (n + calls.length) (Run.after (LogDedup.step hash) s calls) := by
  induction calls generalizing s n with
  | nil => exact hs
  | cons c calls ih =>
    rw [List.length_cons, Nat.add_comm calls.length, ← Nat.add_assoc]
    exact ih (hs.step c)

/-! ## The accounts of a key -/

def Call.key? : Call → Option Key
  | .event _ target level msg => some (keyOf target level msg)
  | _ => none

/-- The keys of a run's events. -/
def keysOf (calls : List Call) : List Key := calls.filterMap Call.key?

/-- No two of the keys share a hash. -/
def CollisionFree (hash : Key → UInt64) (keys : List Key) : Prop :=
  ∀ k ∈ keys, ∀ l ∈ keys, hash k = hash l → k = l

/-- The events of the key that did not print. -/
def refused (k : Key) (as : List Answer) : Nat := as.countP fun a => a.key = k ∧ a.printed = false

/-- What the summaries of the key's entries report as suppressed. -/
def reported (k : Key) (rs : List (Entry × Summary)) : Nat :=
  ((rs.filter fun p => p.1.key = k).map fun p => p.2.suppressed).sum

/-- What the map still holds under the key. -/
def held (k : Key) (s : DedupState) : Nat :=
  ((s.map.filter fun m => m.2.key = k).map fun m => m.2.suppressed).sum

/-- The events of the key that printed through the map. -/
def passed (k : Key) (as : List Answer) : Nat :=
  as.countP fun a => a.key = k ∧ a.tracked = true ∧ a.printed = true

variable {keys : List Key}

/-- Every entry is of one of the keys. -/
def Known (keys : List Key) (s : DedupState) : Prop := ∀ m ∈ s.map, m.2.key ∈ keys

theorem mem_of_mem_drain {order : List UInt64} {map : List (UInt64 × Entry)} {out : List Entry}
    {e : Entry} (h : e ∈ (drain order map out).1) : e ∈ out ∨ ∃ m ∈ map, m.2 = e := by
  induction order generalizing map out with
  | nil => exact Or.inl h
  | cons k order ih =>
    have hremove : (∃ m ∈ Members.remove k map, m.2 = e) → ∃ m ∈ map, m.2 = e :=
      fun ⟨m, hm, he⟩ => ⟨m, List.mem_of_mem_filter hm, he⟩
    rw [drain] at h
    cases hfound : map.lookup k with
    | none =>
      rw [hfound] at h
      exact (ih h).imp_right hremove
    | some e' =>
      simp only [hfound] at h
      split at h
      · cases ih h with
        | inr hrest => exact Or.inr (hremove hrest)
        | inl hout =>
          rw [List.mem_append, List.mem_singleton] at hout
          cases hout with
          | inl hold => exact Or.inl hold
          | inr hnew => exact Or.inr ⟨_, Members.mem_of_lookup hfound, hnew.symm⟩
      · exact (ih h).imp_right hremove

/-- A flush reports entries of the map. -/
theorem Known.flush {order : KeyOrder} (hk : Known keys s) :
    ∀ e ∈ (flush order s).1, e.key ∈ keys := by
  intro e he
  by_cases hpoisoned : s.poisoned = true
  · have hsame : LogDedup.flush order s = ([], s) := if_pos hpoisoned
    rw [hsame] at he
    cases he
  · have hdrained : (LogDedup.flush order s).1 = (drain (order.keys s.map) s.map []).1 := by
      rw [LogDedup.flush, if_neg hpoisoned]
    rw [hdrained] at he
    cases mem_of_mem_drain he with
    | inl hnil => cases hnil
    | inr hmem =>
      obtain ⟨m, hm, rfl⟩ := hmem
      exact hk m hm

/-- **Step.** The entry an event finds or founds is of one of the keys. -/
theorem Known.step (hk : Known keys s) {c : Call} (hc : ∀ k ∈ c.key?, k ∈ keys) :
    Known keys (LogDedup.step hash s c) := by
  intro m hm
  obtain hsame | hempty | ⟨now, target, level, msg, rfl, -, hmap⟩ := step_map hash s c
  · exact hk m (hsame ▸ hm)
  · rw [hempty] at hm
    cases hm
  · rw [hmap] at hm
    cases Members.mem_insert hm with
    | inl hold => exact hk m hold
    | inr hnew =>
      rw [hnew, Entry.key_bump]
      cases entryAt_cases s (hash (keyOf target level msg)) now target level msg with
      | inl hfound => exact hk _ hfound
      | inr hfresh =>
        rw [hfresh.1]
        exact hc _ rfl

theorem answers_known {c : Call} (hc : ∀ k ∈ c.key?, k ∈ keys) :
    ∀ a ∈ answers hash s c, a.key ∈ keys := by
  intro a ha
  cases c with
  | event now target level msg =>
    rw [List.mem_singleton.mp ha]
    exact hc _ rfl
  | flush | poison | poisonCounts => cases ha

theorem Known.emitted (hk : Known keys s) (c : Call) : ∀ p ∈ emitted s c, p.1.key ∈ keys := by
  intro p hp
  cases c with
  | flush now order =>
    obtain ⟨e, he, rfl⟩ := List.mem_map.mp hp
    exact hk.flush e he
  | event | poison | poisonCounts => cases hp

/-- A run's answers, reports and entries are of the keys of its events. -/
theorem Known.run (hash : Key → UInt64) (hk : Known (keysOf calls) s) :
    (∀ a ∈ answered hash s calls, a.key ∈ keysOf calls) ∧
      (∀ p ∈ reports hash s calls, p.1.key ∈ keysOf calls) ∧
      Known (keysOf calls) (Run.after (LogDedup.step hash) s calls) := by
  have hcalls : Run.Guarded (LogDedup.step hash) (fun _ c => ∀ k ∈ c.key?, k ∈ keysOf calls) s
      calls :=
    Run.guarded_of_forall fun c hc k hk => List.mem_filterMap.mpr ⟨c, hc, hk⟩
  exact ⟨Run.Guarded.forall_outputs (fun _ _ hs hc => ⟨hs.step hc, answers_known hc⟩) hcalls hk,
    Run.Guarded.forall_outputs (fun _ c hs hc => ⟨hs.step hc, hs.emitted c⟩) hcalls hk,
    Run.Guarded.invariant (fun _ _ hs hc => hs.step hc) hcalls hk⟩

/-- Among answers whose hash tells them apart, a bucket is a key. -/
theorem sum_refusedIn {k : Key} {as : List Answer}
    (h : ∀ a ∈ as, hash a.key = hash k ↔ a.key = k) :
    (as.map (refusedIn hash (hash k))).sum = refused k as := by
  apply Tally.sum_map_eq_countP
  intro a ha
  simp only [refusedIn, h a ha, decide_eq_true_eq]

/-- What prints under a key prints in its bucket. -/
theorem passed_le (k : Key) (as : List Answer) :
    passed k as ≤ (as.map (printedIn hash (hash k))).sum := by
  have hsum : (as.map (printedIn hash (hash k))).sum =
      as.countP fun a => hash a.key = hash k ∧ a.tracked = true ∧ a.printed = true := by
    apply Tally.sum_map_eq_countP
    intro a _
    simp only [printedIn, decide_eq_true_eq]
  rw [hsum]
  apply List.countP_mono_left
  intro a _ ha
  have hpassed := of_decide_eq_true ha
  exact decide_eq_true ⟨congrArg hash hpassed.1, hpassed.2⟩

theorem sum_heldIn {k : Key} {rs : List (Entry × Summary)}
    (h : ∀ p ∈ rs, hash p.1.key = hash k ↔ p.1.key = k)
    (hsummary : ∀ p ∈ rs, p.2.suppressed = p.1.suppressed) :
    (rs.map fun p => heldIn hash (hash k) p.1).sum = reported k rs := by
  apply Tally.sum_map_eq_filter
  intro p hp
  simp only [heldIn, h p hp, hsummary p hp, decide_eq_true_eq]

theorem weigh_heldIn {k : Key} (h : ∀ m ∈ s.map, hash m.2.key = hash k ↔ m.2.key = k) :
    Tally.weigh (heldIn hash (hash k)) s.map = held k s := by
  apply Tally.sum_map_eq_filter
  intro m hm
  simp only [heldIn, h m hm, decide_eq_true_eq]

theorem suppressed_of_mem_reports :
    ∀ p ∈ reports hash s calls, p.2.suppressed = p.1.suppressed := by
  have hstep : ∀ s c, ∀ p ∈ emitted s c, p.2.suppressed = p.1.suppressed := by
    intro s c p hp
    cases c with
    | flush now order =>
      obtain ⟨e, _, rfl⟩ := List.mem_map.mp hp
      rfl
    | event | poison | poisonCounts => cases hp
  exact Run.forall_outputs hstep

theorem printed_of_diagnostic :
    ∀ a ∈ answered hash s calls, a.diagnostic = true → a.printed = true := by
  have hstep : ∀ s c, ∀ a ∈ answers hash s c, a.diagnostic = true → a.printed = true := by
    intro s c a ha hdiag
    cases c with
    | event now target level msg =>
      rw [List.mem_singleton.mp ha] at hdiag ⊢
      have hdiag : isDiagnostic msg = true := hdiag
      have htracked : isTracked hash s target level msg = false := by simp [isTracked, hdiag]
      simp only [admitEvent_of_not_tracked now htracked]
    | flush | poison | poisonCounts => cases ha
  exact Run.forall_outputs hstep

/-- From an empty map, what was held back under a key is what the summaries report of it and what
    the map still holds. -/
theorem refused_eq (hfree : CollisionFree hash (keysOf calls)) (k : Key) :
    refused k (answered hash .default calls) =
      reported k (reports hash .default calls) +
        held k (Run.after (step hash) .default calls) := by
  have hnone : Known (keysOf calls) .default := fun m hm => absurd hm List.not_mem_nil
  obtain ⟨hanswers, hreports, hentries⟩ := hnone.run hash
  by_cases hk : k ∈ keysOf calls
  · have hiff : ∀ l ∈ keysOf calls, hash l = hash k ↔ l = k := fun l hl =>
      ⟨hfree l hl k hk, congrArg hash⟩
    have hfiled : Filed hash DedupState.default.map := Filed.nil
    have hbalance := run_balance (hash k) hfiled calls
    have hempty : Tally.weigh (heldIn hash (hash k)) DedupState.default.map = 0 := rfl
    rwa [hempty, Nat.zero_add, sum_refusedIn fun a ha => hiff _ (hanswers a ha),
      sum_heldIn (fun p hp => hiff _ (hreports p hp)) suppressed_of_mem_reports,
      weigh_heldIn fun m hm => hiff _ (hentries m hm)] at hbalance
  · -- the run knows nothing of the key
    have hrefused : refused k (answered hash .default calls) = 0 := by
      apply List.countP_eq_zero.mpr
      intro a ha hkey
      exact hk ((of_decide_eq_true hkey).1 ▸ hanswers a ha)
    have hreported : reported k (reports hash .default calls) = 0 := by
      have hnil : (reports hash .default calls).filter (fun p => p.1.key = k) = [] :=
        List.filter_eq_nil_iff.mpr fun p hp hkey => hk (of_decide_eq_true hkey ▸ hreports p hp)
      simp [reported, hnil]
    have hheld : held k (Run.after (step hash) .default calls) = 0 := by
      have hnil : (Run.after (step hash) .default calls).map.filter (fun m => m.2.key = k) = [] :=
        List.filter_eq_nil_iff.mpr fun m hm hkey => hk (of_decide_eq_true hkey ▸ hentries m hm)
      simp [held, hnil]
    omega

/-- The accounts of a run from an empty map. -/
structure Accounted (hash : Key → UInt64) (calls : List Call) : Prop where
  /-- What did not print is in a summary or in the map. -/
  conserved : ∀ k, refused k (answered hash .default calls) =
    reported k (reports hash .default calls) + held k (Run.after (step hash) .default calls)
  /-- Between two flushes at most a burst of a key prints through the map. -/
  burst : ∀ k before window, (before ++ window) <+: calls → window.all Call.keepsWindow = true →
    passed k (answered hash (Run.after (step hash) .default before) window) ≤ BURST
  /-- A diagnostic line prints. -/
  diagnostic : ∀ a ∈ answered hash .default calls, a.diagnostic = true → a.printed = true
  /-- The map does not outgrow its bound. -/
  bounded : ∀ before, before <+: calls →
    (Run.after (step hash) .default before).map.length ≤ MAX_TRACKED

/-- Log collapsing loses no count, and a normalized message is its own key. -/
theorem run_accounted (hfree : CollisionFree hash (keysOf calls)) :
    Accounted hash calls ∧ ∀ msg, normalize (normalize msg) = normalize msg := by
  have hfiled : ∀ before, Filed hash (Run.after (step hash) .default before).map := fun before =>
    Filed.run (s := .default) Filed.nil before
  refine ⟨?_, normalize_normalize⟩
  exact
    { conserved := refused_eq hfree
      burst := fun k before window _ hwindow =>
        Nat.le_trans (passed_le k _)
          (run_burst (hfiled before) (Run.guarded_of_forall (List.all_eq_true.mp hwindow)))
      diagnostic := printed_of_diagnostic
      bounded := fun before _ => (hfiled before).bounded }

/-- A hash of the text of a key. -/
def textHash (k : Key) : UInt64 :=
  (k.target ++ k.level.asStr ++ k.message).toList.foldl (fun h c => h * 31 + c.val.toUInt64) 7

/-- The order in which the entries were filed. -/
def filingOrder : KeyOrder := ⟨fun map => map.map Prod.fst, fun _ => .refl _⟩

instance (keys : List Key) : Decidable (CollisionFree hash keys) :=
  inferInstanceAs (Decidable (∀ k ∈ keys, ∀ l ∈ keys, hash k = hash l → k = l))

/-- A storm of one refusal with a hash in each line, another target, a diagnostic and two flushes,
    the second under a poisoned lock. -/
theorem run_accounted_storm :
    Accounted textHash
      [.event 0 "edge" .warn "refused 82ca2908", .event 1 "edge" .warn "refused d0cb3f58",
        .event 2 "edge" .warn "refused 00000001", .event 3 "edge" .warn "refused 00004242",
        .event 4 "persist" .warn "refused 82ca2908", .event 5 "edge" .warn "diag=drop 17",
        .flush 6 filingOrder, .event 7 "edge" .warn "refused d0cb3f58", .poison,
        .flush 8 filingOrder] ∧
      ∀ msg, normalize (normalize msg) = normalize msg :=
  run_accounted (by decide +kernel)

example :
    (answered textHash .default
      [.event 0 "edge" .warn "refused 82ca2908", .event 1 "edge" .warn "refused d0cb3f58",
        .event 2 "edge" .warn "refused 00000001", .event 3 "edge" .warn "refused 00004242",
        .event 4 "edge" .warn "diag=drop 17"]).map (·.printed) =
      [true, true, true, false, true] := by
  decide +kernel

/-! ## The cumulative counts -/

/-- The call leaves the lock of the cumulative counts alone. -/
def Call.keepsCounts : Call → Bool
  | .poisonCounts => false
  | _ => true

/-- An answer that is counted under the name. -/
def countedAs (name : String) (a : Answer) : Bool :=
  countName a.key.target a.key.level = name ∧ a.printed = false

def snapshotAt (name : String) (s : DedupState) : Nat := ((suppressedSnapshot s).lookup name).getD 0

/-- An event that does not print is counted, and nothing else is. -/
theorem admitEvent_cases (hash : Key → UInt64) (s : DedupState) (now : Nat) (target : String)
    (level : Level) (msg : String) :
    ∃ map, admitEvent hash now target level msg s = (true, { s with map := map }) ∨
      admitEvent hash now target level msg s =
        (false, countSuppressed target level { s with map := map }) := by
  unfold admitEvent
  split
  · exact ⟨s.map, Or.inl rfl⟩
  · dsimp only
    split
    · exact ⟨s.map, Or.inl rfl⟩
    · split
      · exact ⟨s.map, Or.inl rfl⟩
      · split
        · exact ⟨_, Or.inl rfl⟩
        · exact ⟨_, Or.inr rfl⟩

/-- A count goes up under its own name only. -/
theorem snapshotAt_countSuppressed (hok : s.countsPoisoned = false) (name target : String)
    (level : Level) : snapshotAt name (countSuppressed target level s) =
      snapshotAt name s + if countName target level = name then 1 else 0 := by
  have hnew : suppressedSnapshot (countSuppressed target level s) =
      Members.insert (countName target level) (snapshotAt (countName target level) s + 1)
        (suppressedSnapshot s) := by
    simp [suppressedSnapshot, countSuppressed, snapshotAt, hok]
  rw [snapshotAt, hnew]
  by_cases hname : countName target level = name
  · rw [if_pos hname, hname, Members.lookup_insert_self, Option.getD_some]
  · rw [if_neg hname, Members.lookup_insert_of_ne (Ne.symm hname), Nat.add_zero, snapshotAt]

/-- **Step.** -/
theorem step_counts (hok : s.countsPoisoned = false) {c : Call} (hc : c.keepsCounts = true)
    (name : String) :
    (step hash s c).countsPoisoned = false ∧
      snapshotAt name s +
          ((answers hash s c).map fun a => if countedAs name a then 1 else 0).sum =
        snapshotAt name (step hash s c) := by
  cases c with
  | poisonCounts => cases hc
  | poison => exact ⟨hok, rfl⟩
  | flush now order =>
    have hkeep : (flush order s).2.countsPoisoned = s.countsPoisoned ∧
        (flush order s).2.counts = s.counts := by
      unfold flush
      split <;> exact ⟨rfl, rfl⟩
    refine ⟨hkeep.1.trans hok, ?_⟩
    simp only [step, answers, snapshotAt, suppressedSnapshot, hkeep, List.map_nil, List.sum_nil,
      Nat.add_zero]
  | event now target level msg =>
    obtain ⟨map, hprints | hcounts⟩ := admitEvent_cases hash s now target level msg
    · simp only [step, answers, hprints, countedAs]
      exact ⟨hok, by simp [snapshotAt, suppressedSnapshot]⟩
    · have hcount := snapshotAt_countSuppressed (s := { s with map := map }) hok name target level
      simp only [step, answers, hcounts, hcount, countedAs, keyOf]
      refine ⟨by simp [countSuppressed, hok], ?_⟩
      simp [snapshotAt, suppressedSnapshot]

/-- While its lock is whole, the cumulative count of a target and level is the number of its events
    that did not print, whatever was flushed. -/
theorem run_counts (hcalls : calls.all Call.keepsCounts = true) (name : String) :
    snapshotAt name (Run.after (step hash) .default calls) =
      (answered hash .default calls).countP (countedAs name) := by
  have hguard : Run.Guarded (step hash) (fun _ c => c.keepsCounts = true) .default calls :=
    Run.guarded_of_forall (List.all_eq_true.mp hcalls)
  have hintake := Run.Guarded.intake (I := fun s : DedupState => s.countsPoisoned = false)
    (fun _ _ hs hc => (step_counts hs hc name).1) (fun _ _ hs hc => (step_counts hs hc name).2)
    hguard rfl
  have hzero : snapshotAt name .default = 0 := rfl
  rw [hzero, Nat.zero_add] at hintake
  rw [← hintake]
  exact Tally.sum_map_eq_countP fun _ _ => rfl

/-! ## The layer -/

variable {event : Event}

/-- The calls an event makes on the state: one event, or none. -/
def Event.toCalls (now : Nat) (event : Event) : List Call :=
  if NEVER_COLLAPSED.contains event.target then []
  else
    match event.record.rendered with
    | some msg => [.event now event.target event.level msg]
    | none => []

/-- The layer lets an event through as its call is answered. -/
theorem eventEnabled_eq (now : Nat) (event : Event) (s : DedupState) :
    eventEnabled hash now event s =
      ((answered hash s (event.toCalls now)).all (·.printed),
        Run.after (step hash) s (event.toCalls now)) := by
  unfold eventEnabled Event.toCalls
  split
  · rfl
  · cases event.record.rendered with
    | none => rfl
    | some msg => simp [answered, answers, step]

/-- What is recorded stays in front. -/
theorem isPrefix_foldl_recordDebug (fields : List (String × String)) (v : MessageVisitor) :
    v.fields.toList <+: (fields.foldl MessageVisitor.recordDebug v).fields.toList := by
  induction fields generalizing v with
  | nil => exact List.prefix_rfl
  | cons field fields ih =>
    have hone : v.fields.toList <+: (v.recordDebug field).fields.toList := by
      unfold MessageVisitor.recordDebug
      split
      · split <;> exact List.prefix_rfl
      · simp only [String.toList_append, List.append_assoc]
        exact List.prefix_append _ _
    exact hone.trans (ih _)

/-- A field is part of what the layer keys. -/
theorem isInfix_foldl_recordDebug {fields : List (String × String)} {field : String × String}
    (hfield : field ∈ fields) (hname : field.1 ≠ "message") (v : MessageVisitor) :
    (field.1 ++ "=").toList <:+:
      (fields.foldl MessageVisitor.recordDebug v).fields.toList := by
  induction fields generalizing v with
  | nil => cases hfield
  | cons first fields ih =>
    rw [List.foldl_cons]
    cases List.mem_cons.mp hfield with
    | inr hrest => exact ih hrest _
    | inl hfirst =>
      have hnow : (v.recordDebug first).fields.toList =
          (v.fields ++ " ").toList ++ (field.1 ++ "=").toList ++ field.2.toList := by
        rw [← hfirst, MessageVisitor.recordDebug, if_neg hname]
        simp [String.toList_append]
      have hinfix : (field.1 ++ "=").toList <:+: (v.recordDebug first).fields.toList :=
        hnow ▸ List.infix_append _ _ _
      exact hinfix.trans (isPrefix_foldl_recordDebug fields _).isInfix

theorem isDiagnostic_of_infix {msg : String} (h : "diag=".toList <:+: msg.toList) :
    isDiagnostic msg = true := by
  have hcontains : contains msg "diag=" = true :=
    (List.isSome_firstOccurrence_iff (by decide)).mpr h
  rw [isDiagnostic, hcontains, Bool.true_or]

/-- An event with a `diag` field prints, whatever its message is. -/
theorem eventEnabled_of_diag (now : Nat) {value : String} (h : ("diag", value) ∈ event.fields)
    (s : DedupState) : eventEnabled hash now event s = (true, s) := by
  have hname : "diag" ≠ "message" := by decide
  have hfields := isInfix_foldl_recordDebug h hname { message := none, fields := "" }
  unfold eventEnabled
  split
  · rfl
  · cases hmessage : event.record.rendered with
    | none => rfl
    | some msg =>
      obtain ⟨message, -, hmsg⟩ := Option.map_eq_some_iff.mp hmessage
      have hdiag : isDiagnostic msg = true := by
        apply isDiagnostic_of_infix
        rw [← hmsg, String.toList_append]
        exact List.IsInfix.trans hfields (List.suffix_append _ _).isInfix
      have htracked : isTracked hash s event.target event.level msg = false := by
        simp [isTracked, hdiag]
      exact admitEvent_of_not_tracked now htracked

end CirisServer.LogDedup
