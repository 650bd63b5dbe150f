import CirisServer.ForStd.Trim
import CirisServer.Native.Drive

/-!
# What a range denotes

A byte range is written with digits, and a position may have any number of them. The parser passes
over more than that, blanks around a position and a plus sign in front of it, and takes a position
that does not fit a `u64` for no position at all.

Key results:
- `looseRange_eq_some_iff`: what is read when blanks and plus signs are passed over
- `parseRange_eq`: the parser reads that, if the positions fit
- `parseRange_iff`: when the parser answers what the range denotes
-/

namespace CirisServer.Drive

open TraceReceipt (parseU64)
open List (trimEnds)

/-! ## Ranges -/

/-- `first-last`, `first-`, or the last bytes. -/
inductive ByteRange where
  | span (first : Nat) (last : Option Nat)
  | suffix (length : Nat)
deriving DecidableEq

/-- The byte is one of those that the range denotes. -/
def ByteRange.Selects (total : Nat) : ByteRange → Nat → Prop
  | span first last, i => first ≤ i ∧ i < total ∧ ∀ e ∈ last, i ≤ e
  | suffix length, i => total - length ≤ i ∧ i < total

/-- The positions are `u64`s. -/
def ByteRange.Fits : ByteRange → Prop
  | span first last => first ≤ u64Max ∧ ∀ e ∈ last, e ≤ u64Max
  | suffix length => length ≤ u64Max

instance : DecidablePred ByteRange.Fits
  | .span first last => inferInstanceAs (Decidable (first ≤ u64Max ∧ ∀ e ∈ last, e ≤ u64Max))
  | .suffix length => inferInstanceAs (Decidable (length ≤ u64Max))

/-- What is served of a range. -/
def ByteRange.resolve (total : Nat) : ByteRange → RangeAsk
  | span first last =>
    if total ≤ first then .unsatisfiable else .part first (min (last.getD u64Max) (total - 1))
  | suffix length =>
    if length = 0 ∨ total = 0 then .unsatisfiable else .part (total - length) (total - 1)

theorem ByteRange.resolve_ne_whole (r : ByteRange) (total : Nat) : r.resolve total ≠ .whole := by
  cases r with
  | span first last =>
    rw [resolve]
    split <;> simp
  | suffix length =>
    rw [resolve]
    split <;> simp

/-- Nothing is served of a range exactly if it selects nothing. -/
theorem ByteRange.resolve_eq_unsatisfiable_iff (r : ByteRange) (total : Nat)
    (h : ∀ first e, r = .span first (some e) → first ≤ e) :
    r.resolve total = .unsatisfiable ↔ ∀ i, ¬ r.Selects total i := by
  cases r with
  | span first last =>
    rw [resolve]
    split
    · next hle =>
      refine iff_of_true rfl fun i hi => ?_
      have hlt := hi.1
      have hi' := hi.2.1
      omega
    · next hlt =>
      refine iff_of_false (by simp) fun hnone => hnone first ⟨Nat.le_refl _, by omega, ?_⟩
      intro e he
      exact h first e (by rw [Option.mem_def.mp he])
  | suffix length =>
    rw [resolve]
    split
    · next hzero =>
      refine iff_of_true rfl fun i hi => ?_
      have hlow := hi.1
      have hhigh := hi.2
      omega
    · next hpos => exact iff_of_false (by simp) fun hnone => hnone (total - 1) ⟨by omega, by omega⟩

/-- A part that is served is what the range selects. -/
theorem ByteRange.part_of_resolve {r : ByteRange} {total s e : Nat} (htotal : total ≤ u64Max)
    (hle : ∀ first last, r = .span first (some last) → first ≤ last)
    (h : r.resolve total = .part s e) :
    s ≤ e ∧ e < total ∧ ∀ i, s ≤ i ∧ i ≤ e ↔ r.Selects total i := by
  cases r with
  | span first last =>
    rw [resolve] at h
    split at h
    · cases h
    · next hlt =>
      cases h
      cases last with
      | none =>
        simp only [Option.getD_none]
        refine ⟨by omega, by omega, fun i => ?_⟩
        simp only [Selects, Option.mem_def, reduceCtorEq, false_imp_iff, implies_true, and_true]
        omega
      | some last =>
        have hbounds := hle s last rfl
        simp only [Option.getD_some]
        refine ⟨by omega, by omega, fun i => ?_⟩
        simp only [Selects, Option.mem_def, Option.some.injEq, forall_eq']
        omega
  | suffix length =>
    rw [resolve] at h
    split at h
    · cases h
    · next hpos =>
      cases h
      refine ⟨by omega, by omega, fun i => ?_⟩
      simp only [Selects]
      omega

/-! ## How ranges are written -/

/-- The number that digits denote. -/
def decimal (digits : List Char) : Nat := digits.foldl (fun n c => n * 10 + (c.toNat - 48)) 0

/-- Digits, and the position that they denote. -/
def Digits (text : List Char) (n : Nat) : Prop :=
  text ≠ [] ∧ (∀ c ∈ text, c.isDigit = true) ∧ n = decimal text

/-- Digits with blanks around them, and perhaps a plus sign before them. -/
def LooseDigits (text : List Char) (n : Nat) : Prop :=
  ∃ pre sign digits post, text = pre ++ (sign ++ digits ++ post) ∧
    (∀ c ∈ pre, isWhiteSpace c = true) ∧ (∀ c ∈ post, isWhiteSpace c = true) ∧
    (sign = [] ∨ sign = ['+']) ∧ Digits digits n

/-- White space. -/
def Blank (text : List Char) : Prop := ∀ c ∈ text, isWhiteSpace c = true

/-- One byte range, with a given way to write a position and to leave it out. -/
inductive Spelled (position : List Char → Nat → Prop) (left : List Char → Prop) :
    List Char → ByteRange → Prop where
  | bounded {a b : List Char} {s e : Nat} (ha : position a s) (hb : position b e) (hle : s ≤ e) :
    Spelled position left ("bytes=".toList ++ (a ++ '-' :: b)) (.span s (some e))
  | opened {a b : List Char} {s : Nat} (ha : position a s) (hb : left b) :
    Spelled position left ("bytes=".toList ++ (a ++ '-' :: b)) (.span s none)
  | suffix {a b : List Char} {n : Nat} (ha : left a) (hb : position b n) :
    Spelled position left ("bytes=".toList ++ (a ++ '-' :: b)) (.suffix n)

/-- The header, up to blanks around it, is one range of the digits-only grammar. -/
def WellFormed (h : Option String) (r : ByteRange) : Prop :=
  ∃ v ∈ h, Spelled Digits (· = []) (trim v).toList r

/-- The header is one range when blanks around the positions and a plus sign before them are passed
    over. -/
def Loose (h : Option String) (r : ByteRange) : Prop :=
  ∃ v ∈ h, Spelled LooseDigits Blank (trim v).toList r

theorem Digits.loose {text : List Char} {n : Nat} (h : Digits text n) : LooseDigits text n :=
  ⟨[], [], text, [], by simp, by simp, by simp, Or.inl rfl, h⟩

theorem WellFormed.loose {h : Option String} {r : ByteRange} (hr : WellFormed h r) : Loose h r := by
  obtain ⟨v, hv, hspelled⟩ := hr
  refine ⟨v, hv, ?_⟩
  generalize (trim v).toList = text at hspelled ⊢
  cases hspelled with
  | bounded ha hb hle => exact .bounded ha.loose hb.loose hle
  | opened ha hb => exact .opened ha.loose (by simp [hb, Blank])
  | suffix ha hb => exact .suffix (by simp [ha, Blank]) hb.loose

theorem WellFormed.le {h : Option String} {first e : Nat}
    (hr : WellFormed h (.span first (some e))) : first ≤ e := by
  obtain ⟨v, -, hspelled⟩ := hr
  generalize (trim v).toList = text at hspelled
  cases hspelled with
  | bounded _ _ hle => exact hle

/-! ## Reading past blanks and plus signs -/

/-- The number that is read where blanks and a plus sign are passed over. -/
def looseNumber (text : List Char) : Option Nat :=
  let kept := trimEnds isWhiteSpace text
  let digits := if kept.head? = some '+' then kept.tail else kept
  if digits ≠ [] ∧ digits.all Char.isDigit then some (decimal digits) else none

/-- The parser reads such a number, if it is a `u64`. -/
theorem parseU64_trim (text : List Char) :
    parseU64 (trim (String.ofList text)) = (looseNumber text).filter (· ≤ u64Max) := by
  have htrim : (trim (String.ofList text)).toList = trimEnds isWhiteSpace text := by
    rw [trim, String.toList_ofList, String.toList_ofList]
    rfl
  simp only [parseU64, looseNumber, htrim]
  generalize (if (trimEnds isWhiteSpace text).head? = some '+' then
    (trimEnds isWhiteSpace text).tail else trimEnds isWhiteSpace text) = digits
  have hmax : decimal digits < 2 ^ 64 ↔ decimal digits ≤ u64Max := by
    rw [u64Max]
    omega
  split
  · simp only [Option.filter_some, decide_eq_true_eq, ← hmax]
    rfl
  · rfl

theorem trim_ofList_eq_empty_iff (text : List Char) :
    trim (String.ofList text) = "" ↔ Blank text := by
  rw [trim, String.toList_ofList, ← String.toList_eq_nil_iff, String.toList_ofList]
  constructor
  · intro h c hc
    obtain ⟨pre, post, htext, hpre, hpost⟩ := List.exists_trimEnds isWhiteSpace text
    have hnil : trimEnds isWhiteSpace text = [] := h
    rw [hnil, List.nil_append] at htext
    rw [htext] at hc
    exact (List.mem_append.mp hc).elim (hpre c) (hpost c)
  · intro h
    have hnil : text.dropWhile isWhiteSpace = [] := List.dropWhile_eq_nil_iff.mpr h
    simp [hnil]

theorem not_space_of_isDigit {c : Char} (h : c.isDigit = true) : isWhiteSpace c = false := by
  have hrange : 48 ≤ c.toNat ∧ c.toNat ≤ 57 := by
    simpa [Char.isDigit, UInt32.le_iff_toNat_le] using h
  simp only [isWhiteSpace, Bool.or_eq_false_iff, Bool.and_eq_false_iff, decide_eq_false_iff_not,
    beq_eq_false_iff_ne]
  omega

theorem looseDigits_iff {text : List Char} {n : Nat} :
    LooseDigits text n ↔ looseNumber text = some n := by
  constructor
  · rintro ⟨pre, sign, digits, post, rfl, hpre, hpost, hsign, hne, hdigits, rfl⟩
    have hnot : ∀ c ∈ digits, isWhiteSpace c = false :=
      fun c hc => not_space_of_isDigit (hdigits c hc)
    have hhead : ∀ c ∈ digits.head?, c.isDigit = true :=
      fun c hc => hdigits c (List.mem_of_mem_head? hc)
    have hkept : trimEnds isWhiteSpace (pre ++ (sign ++ digits ++ post)) = sign ++ digits := by
      apply List.trimEnds_append hpre hpost
      · rcases hsign with rfl | rfl
        · exact fun c hc => not_space_of_isDigit (hhead c hc)
        · simp [isWhiteSpace]
      · -- there is a digit, and the last one is not a blank
        rw [List.getLast?_append_of_ne_nil _ hne]
        exact fun c hc => hnot c (List.mem_of_mem_getLast? hc)
    have hsigned : (if (sign ++ digits).head? = some '+' then (sign ++ digits).tail
        else sign ++ digits) = digits := by
      rcases hsign with rfl | rfl
      · rw [List.nil_append, if_neg]
        intro hplus
        have hdigit := hhead '+' hplus
        simp [Char.isDigit] at hdigit
      · simp
    rw [looseNumber, hkept, hsigned, if_pos ⟨hne, List.all_eq_true.mpr hdigits⟩]
  · intro h
    obtain ⟨pre, post, htext, hpre, hpost⟩ := List.exists_trimEnds isWhiteSpace text
    rw [looseNumber] at h
    generalize trimEnds isWhiteSpace text = kept at h htext
    by_cases hplus : kept.head? = some '+'
    · obtain ⟨digits, rfl⟩ := List.head?_eq_some_iff.mp hplus
      simp only [hplus, if_true, List.tail_cons, Option.ite_none_right_eq_some, List.all_eq_true,
        Option.some.injEq] at h
      obtain ⟨⟨hne, hdigits⟩, rfl⟩ := h
      exact ⟨pre, ['+'], digits, post, htext, hpre, hpost, Or.inr rfl, hne, hdigits, rfl⟩
    · simp only [hplus, if_false, Option.ite_none_right_eq_some, List.all_eq_true,
        Option.some.injEq] at h
      obtain ⟨⟨hne, hdigits⟩, rfl⟩ := h
      exact ⟨pre, [], kept, post, htext, hpre, hpost, Or.inl rfl, hne, hdigits, rfl⟩

theorem LooseDigits.mem {text : List Char} {n : Nat} (h : LooseDigits text n) {c : Char}
    (hc : c ∈ text) : isWhiteSpace c = true ∨ c = '+' ∨ c.isDigit = true := by
  obtain ⟨pre, sign, digits, post, rfl, hpre, hpost, hsign, -, hdigits, -⟩ := h
  simp only [List.mem_append] at hc
  rcases hc with hc | (hc | hc) | hc
  · exact Or.inl (hpre c hc)
  · rcases hsign with rfl | rfl
    · cases hc
    · exact Or.inr (Or.inl (by simpa using hc))
  · exact Or.inr (Or.inr (hdigits c hc))
  · exact Or.inl (hpost c hc)

theorem LooseDigits.not_mem {text : List Char} {n : Nat} (h : LooseDigits text n) {c : Char}
    (hspace : isWhiteSpace c = false) (hplus : c ≠ '+') (hdigit : c.isDigit = false) :
    c ∉ text := by
  intro hc
  rcases h.mem hc with h | h | h
  · simp [hspace] at h
  · exact hplus h
  · simp [hdigit] at h

theorem LooseDigits.not_blank {text : List Char} {n : Nat} (h : LooseDigits text n) :
    ¬ Blank text := by
  obtain ⟨pre, sign, digits, post, rfl, -, -, -, hne, hdigits, -⟩ := h
  intro hblank
  obtain ⟨c, hc⟩ := List.exists_mem_of_ne_nil _ hne
  have hspace := hblank c (by simp [hc])
  rw [not_space_of_isDigit (hdigits c hc)] at hspace
  cases hspace

theorem Blank.not_mem {text : List Char} (h : Blank text) {c : Char}
    (hspace : isWhiteSpace c = false) : c ∉ text := by
  intro hc
  rw [h c hc] at hspace
  cases hspace

instance : DecidablePred Blank := fun text => List.decidableBAll _ text

/-- The range that is read where blanks and plus signs are passed over. -/
def looseRange (text : List Char) : Option ByteRange :=
  (List.stripPrefix? "bytes=".toList text).bind fun spec =>
    (List.splitOnce '-' spec).bind fun (a, b) =>
      if Blank a then (looseNumber b).map .suffix
      else
        (looseNumber a).bind fun s =>
          if Blank b then some (.span s none)
          else ((looseNumber b).filter fun e => s ≤ e).map fun e => .span s (some e)

theorem looseRange_append {a b : List Char} (ha : '-' ∉ a) :
    looseRange ("bytes=".toList ++ (a ++ '-' :: b)) =
      if Blank a then (looseNumber b).map .suffix
      else
        (looseNumber a).bind fun s =>
          if Blank b then some (.span s none)
          else ((looseNumber b).filter fun e => s ≤ e).map fun e => .span s (some e) := by
  rw [looseRange, List.stripPrefix?_eq_some_iff.mpr rfl, Option.bind_some,
    List.splitOnce_eq_some_iff.mpr ⟨rfl, ha⟩, Option.bind_some]

theorem looseRange_eq_some_iff {text : List Char} {r : ByteRange} :
    looseRange text = some r ↔ Spelled LooseDigits Blank text r := by
  constructor
  · intro h
    simp only [looseRange, Option.bind_eq_some_iff] at h
    obtain ⟨spec, hspec, ⟨a, b⟩, hsplit, h⟩ := h
    rw [List.stripPrefix?_eq_some_iff] at hspec
    rw [List.splitOnce_eq_some_iff] at hsplit
    obtain ⟨rfl, -⟩ := hsplit
    subst hspec
    by_cases ha : Blank a
    · rw [if_pos ha, Option.map_eq_some_iff] at h
      obtain ⟨n, hn, rfl⟩ := h
      exact .suffix ha (looseDigits_iff.mpr hn)
    · rw [if_neg ha, Option.bind_eq_some_iff] at h
      obtain ⟨s, hs, h⟩ := h
      by_cases hb : Blank b
      · rw [if_pos hb] at h
        cases h
        exact .opened (looseDigits_iff.mpr hs) hb
      · rw [if_neg hb, Option.map_eq_some_iff] at h
        obtain ⟨e, he, rfl⟩ := h
        rw [Option.filter_eq_some_iff] at he
        exact .bounded (looseDigits_iff.mpr hs) (looseDigits_iff.mpr he.1) (by simpa using he.2)
  · intro h
    cases h with
    | bounded ha hb hle =>
      rw [looseRange_append (ha.not_mem (by decide) (by decide) (by decide)), if_neg ha.not_blank,
        looseDigits_iff.mp ha, Option.bind_some, if_neg hb.not_blank, looseDigits_iff.mp hb]
      simp [hle]
    | opened ha hb =>
      rw [looseRange_append (ha.not_mem (by decide) (by decide) (by decide)), if_neg ha.not_blank,
        looseDigits_iff.mp ha, Option.bind_some, if_pos hb]
    | suffix ha hb =>
      rw [looseRange_append (ha.not_mem (by decide)), if_pos ha, looseDigits_iff.mp hb]
      rfl

/-- A header is read as one range at most. -/
theorem Loose.unique {h : Option String} {r r' : ByteRange} (hr : Loose h r) (hr' : Loose h r') :
    r = r' := by
  obtain ⟨v, hv, hr⟩ := hr
  obtain ⟨v', hv', hr'⟩ := hr'
  cases Option.mem_unique hv hv'
  rw [← looseRange_eq_some_iff] at hr hr'
  exact Option.some.inj (hr.symm.trans hr')

theorem not_mem_comma {a b : List Char} {r : ByteRange}
    (h : looseRange ("bytes=".toList ++ (a ++ '-' :: b)) = some r) (ha : '-' ∉ a) :
    ',' ∉ a ++ '-' :: b := by
  rw [looseRange_append ha] at h
  simp only [List.mem_append, List.mem_cons, not_or]
  have hnumber : ∀ {text : List Char} {n : Nat}, looseNumber text = some n → ',' ∉ text :=
    fun hn => (looseDigits_iff.mpr hn).not_mem (by decide) (by decide) (by decide)
  by_cases hblank : Blank a
  · rw [if_pos hblank, Option.map_eq_some_iff] at h
    obtain ⟨n, hn, -⟩ := h
    exact ⟨hblank.not_mem (by decide), by decide, hnumber hn⟩
  · rw [if_neg hblank, Option.bind_eq_some_iff] at h
    obtain ⟨s, hs, h⟩ := h
    refine ⟨hnumber hs, by decide, ?_⟩
    by_cases hblank' : Blank b
    · exact hblank'.not_mem (by decide)
    · rw [if_neg hblank', Option.map_eq_some_iff] at h
      obtain ⟨e, he, -⟩ := h
      exact hnumber (Option.filter_eq_some_iff.mp he).1

/-! ## What the parser answers -/

/-- What is answered to a range that may have been read. -/
def answerTo (total : Nat) (r : Option ByteRange) : RangeAsk :=
  match r.filter (·.Fits) with
  | some r => r.resolve total
  | none => .whole

theorem lastPosition_trim (first : Nat) (text : List Char) :
    lastPosition first (trim (String.ofList text)) =
      if Blank text then some u64Max
      else ((looseNumber text).filter (· ≤ u64Max)).filter fun e => first ≤ e := by
  simp only [lastPosition, trim_ofList_eq_empty_iff, parseU64_trim]

@[simp]
theorem answerTo_none (total : Nat) : answerTo total none = .whole := rfl

theorem answerTo_some {r : ByteRange} (h : r.Fits) (total : Nat) :
    answerTo total (some r) = r.resolve total := by
  rw [answerTo, Option.filter_some, if_pos (decide_eq_true h)]

theorem answerTo_of_not_fits {read : Option ByteRange} (h : ∀ r ∈ read, ¬ r.Fits) (total : Nat) :
    answerTo total read = .whole := by
  have hnone : read.filter (·.Fits) = none := by
    rw [Option.filter_eq_none_iff]
    simpa using h
  rw [answerTo, hnone]

theorem resolve_suffix (total n : Nat) :
    (if n = 0 ∨ total = 0 then some RangeAsk.unsatisfiable
      else (subU64 total 1).map (.part (total - n))) =
      some ((ByteRange.suffix n).resolve total) := by
  rw [ByteRange.resolve, subU64]
  split
  · rfl
  · rw [if_pos (by omega), Option.map_some]

theorem resolve_span (total first : Nat) (last : Option Nat) :
    (if total ≤ first then some RangeAsk.unsatisfiable
      else (subU64 total 1).map fun l => .part first (min (last.getD u64Max) l)) =
      some ((ByteRange.span first last).resolve total) := by
  rw [ByteRange.resolve, subU64]
  split
  · rfl
  · rw [if_pos (by omega), Option.map_some]

theorem answerTo_bounded (total : Nat) {first : Nat} (last : Option Nat) (h : first ≤ u64Max) :
    (match (last.filter (· ≤ u64Max)).filter fun e => first ≤ e with
      | none => some .whole
      | some e =>
        if total ≤ first then some RangeAsk.unsatisfiable
        else (subU64 total 1).map fun l => .part first (min e l)) =
      some (answerTo total
        ((last.filter fun e => first ≤ e).map fun e => .span first (some e))) := by
  cases last with
  | none => rfl
  | some e =>
    by_cases hle : first ≤ e
    · by_cases hlast : e ≤ u64Max
      · have hfits : (ByteRange.span first (some e)).Fits := ⟨h, by simpa using hlast⟩
        simp only [Option.filter_some, hle, hlast, decide_true, if_true, Option.map_some]
        rw [answerTo_some hfits]
        exact resolve_span _ _ (some e)
      · simp only [Option.filter_some, hle, hlast, decide_true, decide_false, if_true,
          Option.map_some]
        rw [answerTo_of_not_fits (by simpa [ByteRange.Fits] using fun _ => Nat.lt_of_not_le hlast)]
        rfl
    · by_cases hlast : e ≤ u64Max <;> simp [Option.filter_some, hle, hlast]

theorem answerTo_suffix (total : Nat) (n : Option Nat) :
    (match n.filter (· ≤ u64Max) with
      | none => some .whole
      | some n =>
        if n = 0 ∨ total = 0 then some RangeAsk.unsatisfiable
        else (subU64 total 1).map (.part (total - n))) =
      some (answerTo total (n.map .suffix)) := by
  cases n with
  | none => rfl
  | some n =>
    by_cases hn : n ≤ u64Max
    · have hfits : (ByteRange.suffix n).Fits := hn
      simp only [Option.filter_some, hn, decide_true, if_true, Option.map_some]
      rw [answerTo_some hfits]
      exact resolve_suffix _ _
    · simp only [Option.filter_some, hn, decide_false, Option.map_some]
      rw [answerTo_of_not_fits (by simpa [ByteRange.Fits] using hn)]
      rfl

/-- A range whose first position does not fit does not fit, wherever it ends. -/
theorem answerTo_first_not_fits (total : Nat) {first : Nat} (h : ¬ first ≤ u64Max)
    {text : List Char} :
    answerTo total (if Blank text then some (.span first none)
      else ((looseNumber text).filter fun e => first ≤ e).map fun e => .span first (some e)) =
      .whole := by
  apply answerTo_of_not_fits
  intro r hr hfits
  split at hr
  · cases hr
    exact h hfits.1
  · obtain ⟨e, -, rfl⟩ := Option.map_eq_some_iff.mp hr
    exact h hfits.1

theorem answerTo_span (total : Nat) (first : Option Nat) (text : List Char) :
    (match first.filter (· ≤ u64Max) with
      | none => some .whole
      | some s =>
        match if Blank text then some u64Max
          else ((looseNumber text).filter (· ≤ u64Max)).filter fun e => s ≤ e with
        | none => some .whole
        | some e =>
          if total ≤ s then some RangeAsk.unsatisfiable
          else (subU64 total 1).map fun l => .part s (min e l)) =
      some (answerTo total (first.bind fun s => if Blank text then some (.span s none)
        else ((looseNumber text).filter fun e => s ≤ e).map fun e => .span s (some e))) := by
  cases first with
  | none => rfl
  | some s =>
    rw [Option.bind_some]
    by_cases hs : s ≤ u64Max
    · simp only [Option.filter_some, hs, decide_true, if_true]
      by_cases hopen : Blank text
      · have hfits : (ByteRange.span s none).Fits := ⟨hs, by simp⟩
        simp only [hopen, if_true]
        rw [answerTo_some hfits]
        exact resolve_span _ _ none
      · simp only [hopen, if_false]
        exact answerTo_bounded _ _ hs
    · rw [answerTo_first_not_fits _ hs]
      simp only [Option.filter_some, hs, decide_false]
      rfl

/-- The parser answers the range that is read past blanks and plus signs, if its positions fit. -/
theorem parseRange_eq (h : Option String) (total : UInt64) :
    parseRange h total =
      some (answerTo total.toNat (h.bind fun v => looseRange (trim v).toList)) := by
  cases h with
  | none => rfl
  | some v =>
    simp only [Option.bind_some]
    rw [parseRange, Option.bind_some]
    cases hspec : List.stripPrefix? "bytes=".toList (trim v).toList with
    | none =>
      rw [looseRange, hspec]
      rfl
    | some spec =>
      have htext := List.stripPrefix?_eq_some_iff.mp hspec
      rw [htext]
      cases hsplit : List.splitOnce '-' spec with
      | none =>
        rw [looseRange, List.stripPrefix?_eq_some_iff.mpr rfl, Option.bind_some, hsplit]
        simp only [hsplit, ite_self]
        rfl
      | some ab =>
        obtain ⟨a, b⟩ := ab
        obtain ⟨rfl, ha⟩ := List.splitOnce_eq_some_iff.mp hsplit
        have hrange := looseRange_append (b := b) ha
        by_cases hcomma : (a ++ '-' :: b).contains ','
        · -- neither a blank nor a digit nor a plus sign
          have hnone : looseRange ("bytes=".toList ++ (a ++ '-' :: b)) = none := by
            rw [Option.eq_none_iff_forall_ne_some]
            intro r hr
            exact not_mem_comma hr ha (by simpa using hcomma)
          rw [hnone]
          simp only [hcomma, if_true]
          rfl
        simp only [hcomma, hsplit, trim_ofList_eq_empty_iff, parseU64_trim, hrange,
          lastPosition_trim]
        by_cases hblank : Blank a
        · simp only [hblank, if_true]
          exact answerTo_suffix _ _
        · simp only [hblank, if_false]
          exact answerTo_span _ _ _

theorem loose_iff {h : Option String} {r : ByteRange} :
    Loose h r ↔ (h.bind fun v => looseRange (trim v).toList) = some r := by
  cases h with
  | none => simp [Loose]
  | some v => simp [Loose, looseRange_eq_some_iff]

theorem parseRange_of_fits {h : Option String} {r : ByteRange} (hr : Loose h r) (hfits : r.Fits)
    (total : UInt64) : parseRange h total = some (r.resolve total.toNat) := by
  rw [parseRange_eq, loose_iff.mp hr, answerTo_some hfits]

theorem parseRange_of_not_fits {h : Option String} {r : ByteRange} (hr : Loose h r)
    (hfits : ¬ r.Fits) (total : UInt64) : parseRange h total = some .whole := by
  rw [parseRange_eq, loose_iff.mp hr, answerTo_of_not_fits (by simpa using hfits)]

/-- What is not answered whole is a range that fits. -/
theorem loose_of_parseRange {h : Option String} {total : UInt64} {ask : RangeAsk}
    (hask : parseRange h total = some ask) (hne : ask ≠ .whole) :
    ∃ r, Loose h r ∧ r.Fits ∧ ask = r.resolve total.toNat := by
  rw [parseRange_eq] at hask
  cases hread : h.bind fun v => looseRange (trim v).toList with
  | none =>
    rw [hread] at hask
    cases hask
    exact absurd rfl hne
  | some r =>
    have hr := loose_iff.mpr hread
    by_cases hfits : r.Fits
    · rw [hread, answerTo_some hfits] at hask
      exact ⟨r, hr, hfits, (Option.some.inj hask).symm⟩
    · rw [hread, answerTo_of_not_fits (by simpa using hfits)] at hask
      cases hask
      exact absurd rfl hne

/-! ## What should be answered -/

/-- The answer is what the range denotes, and nothing else is taken for a range. -/
structure FollowsRfc (h : Option String) (total : UInt64) : Prop where
  answers : ∃ ask, parseRange h total = some ask
  part : ∀ s e, parseRange h total = some (.part s e) →
    s ≤ e ∧ e < total.toNat ∧ partLength s e = some (e - s + 1) ∧
      ∃ r, WellFormed h r ∧ ∀ i, s ≤ i ∧ i ≤ e ↔ r.Selects total.toNat i
  unsatisfiable : parseRange h total = some .unsatisfiable ↔
    ∃ r, WellFormed h r ∧ ∀ i, ¬ r.Selects total.toNat i
  clamped : ∀ r, WellFormed h r → parseRange h total ≠ some .whole

theorem toNat_le_u64Max (total : UInt64) : total.toNat ≤ u64Max :=
  Nat.le_sub_one_of_lt total.toNat_lt

theorem partLength_eq {s e : Nat} (hle : s ≤ e) (he : e < u64Max) :
    partLength s e = some (e - s + 1) := by
  rw [partLength, subU64, if_pos hle, Option.bind_some, addU64, if_pos (by omega)]

theorem WellFormed.resolve_eq_unsatisfiable_iff {h : Option String} {r : ByteRange}
    (hr : WellFormed h r) (total : Nat) :
    r.resolve total = .unsatisfiable ↔ ∀ i, ¬ r.Selects total i := by
  apply r.resolve_eq_unsatisfiable_iff
  rintro first e rfl
  exact hr.le

/-- **Ranges.** What a range denotes is answered exactly if the header can be read, past blanks and
    plus signs, as a range with positions that fit only where it is well formed, and is well
    formed only with such positions. -/
theorem parseRange_iff (h : Option String) (total : UInt64) :
    FollowsRfc h total ↔ ∀ r, Loose h r → (r.Fits ↔ WellFormed h r) := by
  constructor
  · intro hrfc r hr
    constructor
    · intro hfits
      have hask := parseRange_of_fits hr hfits total
      cases hanswer : r.resolve total.toNat with
      | whole => exact absurd hanswer (r.resolve_ne_whole _)
      | part s e =>
        rw [hanswer] at hask
        obtain ⟨-, -, -, r', hr', -⟩ := hrfc.part s e hask
        rwa [hr.unique hr'.loose]
      | unsatisfiable =>
        rw [hanswer] at hask
        obtain ⟨r', hr', -⟩ := hrfc.unsatisfiable.mp hask
        rwa [hr.unique hr'.loose]
    · intro hwf
      by_contra hfits
      exact hrfc.clamped r hwf (parseRange_of_not_fits hr hfits total)
  · intro hread
    have hwell : ∀ ask, parseRange h total = some ask → ask ≠ .whole →
        ∃ r, WellFormed h r ∧ ask = r.resolve total.toNat := by
      intro ask hask hne
      obtain ⟨r, hr, hfits, heq⟩ := loose_of_parseRange hask hne
      exact ⟨r, (hread r hr).mp hfits, heq⟩
    have hresolved : ∀ r, WellFormed h r → parseRange h total = some (r.resolve total.toNat) :=
      fun r hr => parseRange_of_fits hr.loose ((hread r hr.loose).mpr hr) total
    refine ⟨⟨_, parseRange_eq h total⟩, ?_, ?_, ?_⟩
    · intro s e hask
      obtain ⟨r, hr, heq⟩ := hwell _ hask (by simp)
      have htotal := toNat_le_u64Max total
      obtain ⟨hle, hlast, hselects⟩ := ByteRange.part_of_resolve htotal
        (fun first last hspan => (hspan ▸ hr).le) heq.symm
      exact ⟨hle, hlast, partLength_eq hle (by omega), r, hr, hselects⟩
    · constructor
      · intro hask
        obtain ⟨r, hr, heq⟩ := hwell _ hask (by simp)
        exact ⟨r, hr, (hr.resolve_eq_unsatisfiable_iff _).mp heq.symm⟩
      · rintro ⟨r, hr, hnone⟩
        rw [hresolved r hr, (hr.resolve_eq_unsatisfiable_iff _).mpr hnone]
    · intro r hr hwhole
      rw [hresolved r hr, Option.some.injEq] at hwhole
      exact r.resolve_ne_whole _ hwhole

/-- The last position is `2 ^ 64`: it is past the end of the file, and the file is served whole. -/
theorem parseRange_huge : ¬ FollowsRfc (some "bytes=0-18446744073709551616") 10 := by
  intro hrfc
  have hwell : WellFormed (some "bytes=0-18446744073709551616")
      (.span 0 (some 18446744073709551616)) :=
    ⟨_, rfl, Spelled.bounded (a := ['0']) (b := "18446744073709551616".toList)
      ⟨by decide, List.all_eq_true.mp (by decide), by decide⟩
      ⟨by decide, List.all_eq_true.mp (by decide), by decide⟩ (by decide)⟩
  exact hrfc.clamped _ hwell (by decide +kernel)

/-- A plus sign is not a digit, and the position after it is taken. -/
example : parseRange (some "bytes=+1-5") 10 = some (.part 1 5) := by decide +kernel

end CirisServer.Drive
