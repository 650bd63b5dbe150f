import CirisServer.ForStd.Utf8

/-!
# JSON strings as they are written

Between its quotes a string is a row of pieces, one for each character: the character itself, a
backslash and a letter, a backslash, a `u` and four digits, or two of these for a character beyond
the basic plane. A character that no letter stands for is written as itself or with a `u`.

Key results:
- `Spells.plain_or_unicode`: a text without such characters is written as its bytes, or with a `u`
- `Spells.plain`: a text without controls, quotes and backslashes can be written as its bytes
-/

namespace JsonString

/-- The value of a hexadecimal digit. -/
def hexDigit (b : UInt8) : Option Nat :=
  if 0x30 ≤ b ∧ b ≤ 0x39 then some (b.toNat - 0x30)
  else if 0x41 ≤ b ∧ b ≤ 0x46 then some (b.toNat - 0x41 + 10)
  else if 0x61 ≤ b ∧ b ≤ 0x66 then some (b.toNat - 0x61 + 10)
  else none

/-- The number that four hexadecimal digits denote. -/
def hex4 : List UInt8 → Option Nat
  | [a, b, c, d] =>
    match hexDigit a, hexDigit b, hexDigit c, hexDigit d with
    | some a, some b, some c, some d => some (((a * 16 + b) * 16 + c) * 16 + d)
    | _, _, _, _ => none
  | _ => none

/-- What the letter after a backslash stands for. -/
def shortEscapes : List (UInt8 × Char) :=
  [(0x22, '"'), (0x5c, '\\'), (0x2f, '/'), (0x62, '\x08'), (0x66, '\x0c'), (0x6e, '\n'),
    (0x72, '\r'), (0x74, '\t')]

/-- A backslash and a `u`. -/
def unicodeEscape : List UInt8 := [0x5c, 0x75]

/-- The bytes that stand for one character of a string. -/
inductive Piece : List UInt8 → Char → Prop where
  | plain {c : Char} (hcontrol : 0x20 ≤ c.toNat) (hquote : c ≠ '"') (hbackslash : c ≠ '\\') :
    Piece (String.utf8EncodeChar c) c
  | short {b : UInt8} {c : Char} (h : (b, c) ∈ shortEscapes) : Piece [0x5c, b] c
  | unicode {digits : List UInt8} {c : Char} (h : hex4 digits = some c.toNat) :
    Piece (unicodeEscape ++ digits) c
  | surrogates {digits digits' : List UInt8} {high low : Nat} {c : Char}
    (hhigh : hex4 digits = some (0xd800 + high)) (hhigh' : high < 0x400)
    (hlow : hex4 digits' = some (0xdc00 + low)) (hlow' : low < 0x400)
    (hc : c.toNat = 0x10000 + high * 0x400 + low) :
    Piece (unicodeEscape ++ digits ++ (unicodeEscape ++ digits')) c

/-- The bytes between the quotes of a string. -/
inductive Spells : List UInt8 → List Char → Prop where
  | nil : Spells [] []
  | cons {piece raw : List UInt8} {c : Char} {text : List Char} (hc : Piece piece c)
    (h : Spells raw text) : Spells (piece ++ raw) (c :: text)

/-- No letter after a backslash stands for it. -/
def Unlettered (c : Char) : Prop := ∀ b, (b, c) ∉ shortEscapes

instance : DecidablePred Unlettered := fun c =>
  haveI : Decidable (∀ e ∈ shortEscapes, e.2 ≠ c) := List.decidableBAll _ _
  decidable_of_iff (∀ e ∈ shortEscapes, e.2 ≠ c) (by
    constructor
    · exact fun h b hb => h _ hb rfl
    · rintro h ⟨b, c'⟩ hb rfl
      exact h b hb)

theorem Piece.plain_or_unicode {piece : List UInt8} {c : Char} (h : Piece piece c)
    (hc : Unlettered c) : piece = String.utf8EncodeChar c ∨ unicodeEscape <:+: piece := by
  cases h with
  | plain => exact Or.inl rfl
  | short h => exact absurd h (hc _)
  | unicode h => exact Or.inr (List.prefix_append _ _).isInfix
  | surrogates =>
    rw [List.append_assoc]
    exact Or.inr (List.prefix_append _ _).isInfix

/-- A text that no letter is needed for is written as its bytes, or there is a `u` in it. -/
theorem Spells.plain_or_unicode {raw : List UInt8} {text : List Char} (h : Spells raw text)
    (htext : ∀ c ∈ text, Unlettered c) :
    raw = text.flatMap String.utf8EncodeChar ∨ unicodeEscape <:+: raw := by
  induction h with
  | nil => exact Or.inl rfl
  | cons hc _ ih =>
    rw [List.forall_mem_cons] at htext
    -- the first piece is plain and the rest is, or one of them has the escape
    rcases hc.plain_or_unicode htext.1 with rfl | hunicode
    · rcases ih htext.2 with rfl | hunicode
      · exact Or.inl rfl
      · exact Or.inr (hunicode.trans (List.suffix_append _ _).isInfix)
    · exact Or.inr (hunicode.trans (List.prefix_append _ _).isInfix)

/-- No control, quote or backslash. -/
def isPlain (c : Char) : Bool := 0x20 ≤ c.toNat && c != '"' && c != '\\'

/-- A text can be written as its bytes if it has no controls, quotes and backslashes. -/
theorem Spells.plain {text : List Char} (htext : text.all isPlain = true) :
    Spells (text.flatMap String.utf8EncodeChar) text := by
  induction text with
  | nil => exact .nil
  | cons c text ih =>
    rw [List.all_cons, Bool.and_eq_true] at htext
    obtain ⟨hplain, hrest⟩ := htext
    simp only [isPlain, Bool.and_eq_true, decide_eq_true_eq, bne_iff_ne] at hplain
    obtain ⟨⟨hcontrol, hquote⟩, hbackslash⟩ := hplain
    exact .cons (.plain hcontrol hquote hbackslash) (ih hrest)

theorem Spells.append {raw raw' : List UInt8} {text text' : List Char} (h : Spells raw text)
    (h' : Spells raw' text') : Spells (raw ++ raw') (text ++ text') := by
  induction h with
  | nil => exact h'
  | cons hc _ ih =>
    rw [List.append_assoc, List.cons_append]
    exact .cons hc ih

end JsonString
