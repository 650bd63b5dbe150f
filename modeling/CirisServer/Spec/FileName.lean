import CirisServer.ForStd.Trim
import CirisServer.Native.MediaGate

/-!
# The display name of a file

A name is cut to its last component, rid of what hides how it reads, trimmed in three turns (white
space, dots, white space) and cut at 255 bytes. Two ends of it escape the turns: a rim of more runs
than three, and whatever the cut leaves at the end. Such a name is not one that the cleanup would
leave alone.

Key results:
- `sanitizeFilename_eq_some_iff`: what the cleanup returns
- `sanitizeFilename_normal_iff`: when it is a normal form
-/

namespace CirisServer.MediaGate

open List (Rim trimTurns)

/-! ## The first bytes of a text -/

/-- The number of bytes of a text. -/
def byteSize (text : List Char) : Nat := (text.map Char.utf8Size).sum

theorem length_utf8_ofList (text : List Char) :
    (utf8 (String.ofList text)).length = byteSize text := by
  rw [utf8_eq_flatMap, String.toList_ofList, List.length_flatMap, byteSize]
  simp only [String.length_utf8EncodeChar]

theorem takeBytes_prefix (n : Nat) (text : List Char) : takeBytes n text <+: text := by
  induction text generalizing n with
  | nil => exact List.prefix_refl []
  | cons c text ih =>
    rw [takeBytes]
    split
    · exact (List.prefix_cons_inj c).mpr (ih _)
    · exact List.nil_prefix

theorem byteSize_takeBytes_le (n : Nat) (text : List Char) : byteSize (takeBytes n text) ≤ n := by
  induction text generalizing n with
  | nil => simp [takeBytes, byteSize]
  | cons c text ih =>
    rw [takeBytes]
    split
    · have hrest := ih (n - c.utf8Size)
      simp only [byteSize, List.map_cons, List.sum_cons] at hrest ⊢
      omega
    · simp [byteSize]

/-- What fits is kept, and then what fits of the rest. -/
theorem takeBytes_append {n : Nat} {text : List Char} (h : byteSize text ≤ n) (rest : List Char) :
    takeBytes n (text ++ rest) = text ++ takeBytes (n - byteSize text) rest := by
  induction text generalizing n with
  | nil => simp [byteSize]
  | cons c text ih =>
    simp only [byteSize, List.map_cons, List.sum_cons] at h
    have hrest : byteSize text ≤ n - c.utf8Size := by
      rw [byteSize]
      omega
    rw [List.cons_append, takeBytes, if_pos (by omega), ih hrest]
    simp only [byteSize, List.map_cons, List.sum_cons, List.cons_append, Nat.sub_sub]

theorem takeBytes_of_le {n : Nat} {text : List Char} (h : byteSize text ≤ n) :
    takeBytes n text = text := by
  have happend := takeBytes_append h []
  rwa [List.append_nil, takeBytes, List.append_nil] at happend

/-- Of a text that does not fit, the rest does not matter. -/
theorem takeBytes_append_of_lt {n : Nat} {text : List Char} (h : n < byteSize text)
    (rest : List Char) : takeBytes n (text ++ rest) = takeBytes n text := by
  induction text generalizing n with
  | nil => simp [byteSize] at h
  | cons c text ih =>
    simp only [byteSize, List.map_cons, List.sum_cons] at h
    rw [List.cons_append, takeBytes, takeBytes]
    split
    · rw [ih]
      rw [byteSize]
      omega
    · rfl

/-! ## What the cleanup returns -/

/-- A dot. -/
def isDot (c : Char) : Bool := c == '.'

/-- The last component, without its hostile characters. -/
def shownPart (name : String) : List Char :=
  (lastComponent name.toList).filter fun c => !isHostile c

/-- The name, trimmed. -/
def trimmed (name : String) : List Char := trimTurns isWhiteSpace isDot (shownPart name)

theorem not_dot_of_space (c : Char) (h : isWhiteSpace c = true) : isDot c = false := by
  rw [isDot, beq_eq_false_iff_ne]
  rintro rfl
  revert h
  decide

theorem sanitizeFilename_eq (name : String) : sanitizeFilename name =
    if takeBytes 255 (trimmed name) = [] then none
    else some (String.ofList (takeBytes 255 (trimmed name)),
      decide (String.ofList (takeBytes 255 (trimmed name)) ≠ name)) := by
  have hcut : (if 255 < (utf8 (String.ofList (trimmed name))).length then
      takeBytes 255 (trimmed name) else trimmed name) = takeBytes 255 (trimmed name) := by
    rw [length_utf8_ofList]
    split
    · rfl
    · next hle => exact (takeBytes_of_le (Nat.le_of_not_lt hle)).symm
  have hbody : sanitizeFilename name =
      if (if 255 < (utf8 (String.ofList (trimmed name))).length then
        takeBytes 255 (trimmed name) else trimmed name).isEmpty then none
      else some (String.ofList (if 255 < (utf8 (String.ofList (trimmed name))).length then
        takeBytes 255 (trimmed name) else trimmed name),
          decide (String.ofList (if 255 < (utf8 (String.ofList (trimmed name))).length then
            takeBytes 255 (trimmed name) else trimmed name) ≠ name)) := rfl
  rw [hbody, hcut]
  simp only [List.isEmpty_iff]

theorem sanitizeFilename_eq_some_iff {name out : String} {changed : Bool} :
    sanitizeFilename name = some (out, changed) ↔
      out.toList = takeBytes 255 (trimmed name) ∧ out ≠ "" ∧ changed = decide (out ≠ name) := by
  rw [sanitizeFilename_eq]
  constructor
  · intro h
    split at h
    · cases h
    · next hne =>
      simp only [Option.some.injEq, Prod.mk.injEq] at h
      obtain ⟨rfl, rfl⟩ := h
      refine ⟨String.toList_ofList, ?_, rfl⟩
      intro hempty
      exact hne (by simpa using congrArg String.toList hempty)
  · rintro ⟨htext, hne, rfl⟩
    rw [← htext, if_neg, String.ofList_toList]
    intro hnil
    exact hne (String.toList_eq_nil_iff.mp hnil)

/-! ## Normal names -/

/-- The characters with the Unicode property `Bidi_Control`. -/
def isBidiControl (c : Char) : Bool :=
  c.toNat == 0x061C || c.toNat == 0x200E || c.toNat == 0x200F ||
    (0x202A ≤ c.toNat && c.toNat ≤ 0x202E) || (0x2066 ≤ c.toNat && c.toNat ≤ 0x2069)

/-- The zero-width space, non-joiner, joiner and word joiner, and the zero-width no-break space. -/
def isZeroWidth (c : Char) : Bool :=
  (0x200B ≤ c.toNat && c.toNat ≤ 0x200D) || c.toNat == 0x2060 || c.toNat == 0xFEFF

/-- It neither begins nor ends with white space or a dot. -/
def Solid (text : List Char) : Prop :=
  (∀ c ∈ text.head?, (isWhiteSpace c || isDot c) = false) ∧
    ∀ c ∈ text.getLast?, (isWhiteSpace c || isDot c) = false

/-- A name that the cleanup has nothing to do with. -/
structure NormalName (name : String) : Prop where
  nonempty : name ≠ ""
  short : (utf8 name).length ≤ 255
  clean : ∀ c ∈ name.toList, c ≠ '/' ∧ c ≠ '\\' ∧ isControl c = false ∧ isBidiControl c = false ∧
    isZeroWidth c = false
  solid : Solid name.toList
  cleanup : sanitizeFilename name = some (name, false)
  renamed : renamedName name = .ok name
  moved : ∀ debug mediaType head gated, writeGate debug mediaType head (some name) = .ok gated →
    gated.filename = some name

/-- The part of the name that is shown is between two rims of at most three runs, and what 255
    bytes hold of it neither begins nor ends with white space or a dot. -/
def RimmedThin (name : String) : Prop :=
  ∃ rim text rim', shownPart name = rim ++ (text ++ rim') ∧ Rim isWhiteSpace isDot rim ∧
    Rim isWhiteSpace isDot rim' ∧ Solid (takeBytes 255 text)

theorem Solid.nil : Solid [] := ⟨by simp, by simp⟩

theorem head?_takeBytes (text : List Char) : (takeBytes 255 text).head? = text.head? := by
  cases text with
  | nil => rfl
  | cons c text =>
    have hsize := Char.utf8Size_le_four c
    rw [takeBytes, if_pos (by omega), List.head?_cons, List.head?_cons]

/-- A text that 255 bytes hold up to white space and dots, which it does not end with, is held
    whole. -/
theorem takeBytes_of_solid {text more : List Char} (hmore : ∀ c ∈ more, isWhiteSpace c || isDot c)
    (h : Solid (takeBytes 255 (text ++ more))) :
    takeBytes 255 (text ++ more) = takeBytes 255 text := by
  by_cases hsize : byteSize text ≤ 255
  · rw [takeBytes_append hsize] at h ⊢
    rw [takeBytes_of_le hsize]
    rcases List.eq_nil_or_concat (takeBytes (255 - byteSize text) more) with hnil | ⟨pre, c, hc⟩
    · rw [hnil, List.append_nil]
    · -- it would end with white space or a dot
      have hheld : c ∈ takeBytes (255 - byteSize text) more := by
        rw [hc]
        simp
      have hmem : c ∈ more := ( takeBytes_prefix _ more).mem hheld
      have hlast := h.2 c (by simp [hc])
      rw [hmore c hmem] at hlast
      cases hlast
  · exact takeBytes_append_of_lt (Nat.lt_of_not_le hsize) more

theorem solid_trimmed {name : String} (h : RimmedThin name) :
    Solid (takeBytes 255 (trimmed name)) := by
  obtain ⟨rim, text, rim', hshown, hrim, hrim', hsolid⟩ := h
  have hhead : ∀ c ∈ text.head?, (isWhiteSpace c || isDot c) = false := by
    rw [← head?_takeBytes]
    exact hsolid.1
  obtain ⟨more, htext, hmore⟩ := List.trimTurns_append not_dot_of_space hrim hrim' hhead
  rw [trimmed, hshown]
  generalize trimTurns isWhiteSpace isDot (rim ++ (text ++ rim')) = kept at htext
  subst htext
  rwa [takeBytes_of_solid hmore hsolid] at hsolid

theorem rimmedThin_of_solid {name : String} (h : Solid (takeBytes 255 (trimmed name))) :
    RimmedThin name := by
  obtain ⟨rim, rim', hshown, hrim, hrim'⟩ :=
    List.exists_trimTurns isWhiteSpace isDot (shownPart name)
  exact ⟨rim, trimmed name, rim', hshown, hrim, hrim', h⟩

theorem not_separator_of_mem_lastComponent {name : List Char} {c : Char}
    (h : c ∈ lastComponent name) : c ≠ '/' ∧ c ≠ '\\' := by
  have hc := List.mem_takeWhile_imp (List.mem_reverse.mp h)
  simpa using hc

theorem lastComponent_eq_self {name : List Char} (h : ∀ c ∈ name, c ≠ '/' ∧ c ≠ '\\') :
    lastComponent name = name := by
  rw [lastComponent, List.takeWhile_eq_self_iff.mpr, List.reverse_reverse]
  intro c hc
  simpa using h c (List.mem_reverse.mp hc)

/-- What the cleanup keeps is shown. -/
theorem mem_shownPart_of_mem_trimmed {name : String} {c : Char}
    (h : c ∈ takeBytes 255 (trimmed name)) : c ∈ shownPart name := by
  obtain ⟨rim, rim', hshown, -, -⟩ := List.exists_trimTurns isWhiteSpace isDot (shownPart name)
  rw [hshown]
  apply List.mem_append_right
  exact List.mem_append_left _ (( takeBytes_prefix _ _).mem h)

theorem clean_of_not_hostile {c : Char} (h : isHostile c = false) :
    isControl c = false ∧ isBidiControl c = false ∧ isZeroWidth c = false := by
  simp only [isHostile, isBidiControl, isZeroWidth, Bool.or_eq_false_iff, Bool.and_eq_false_iff,
    beq_eq_false_iff_ne, decide_eq_false_iff_not] at h ⊢
  obtain ⟨⟨⟨⟨⟨hcontrol, harabic⟩, hzero⟩, hembed⟩, hisolate⟩, hbom⟩ := h
  refine ⟨hcontrol, ?_, ?_⟩
  · omega
  · omega

/-- The cleanup leaves a text alone that is short, clean and solid. -/
theorem trimmed_of_solid {name : String} (hshown : shownPart name = name.toList)
    (hsolid : Solid name.toList) : trimmed name = name.toList := by
  obtain ⟨more, htext, hmore⟩ :=
    List.trimTurns_append not_dot_of_space Rim.nil Rim.nil hsolid.1
  rw [List.nil_append, List.append_nil] at htext
  rw [trimmed, hshown]
  rcases List.eq_nil_or_concat more with hnil | ⟨pre, c, hc⟩
  · rw [hnil, List.append_nil] at htext
    exact htext.symm
  · have hlast := hsolid.2 c (by rw [htext, hc]; simp)
    rw [hmore c (by simp [hc])] at hlast
    cases hlast

/-- The trim at the head of `rename_file` leaves it alone, too. -/
theorem trim_of_solid {name : String} (h : Solid name.toList) : trim name = name := by
  have hback : name.toList.rdropWhile isWhiteSpace = name.toList := by
    rw [List.rdropWhile_eq_self_iff]
    intro hne
    have hlast := h.2 _ (List.getLast?_eq_some_getLast hne)
    simp only [Bool.or_eq_false_iff] at hlast
    simp [hlast.1]
  have hfront : name.toList.dropWhile isWhiteSpace = name.toList := by
    cases htext : name.toList with
    | nil => rfl
    | cons c text =>
      have hhead := h.1 c (by simp [htext])
      simp only [Bool.or_eq_false_iff] at hhead
      exact List.dropWhile_cons_of_neg (by simp [hhead.1])
  have htrim : trim name =
      String.ofList ((name.toList.dropWhile isWhiteSpace).rdropWhile isWhiteSpace) := rfl
  rw [htrim, hfront, hback, String.ofList_toList]

theorem normalName_of_solid {name out : String} {changed : Bool}
    (h : sanitizeFilename name = some (out, changed)) (hsolid : Solid out.toList) :
    NormalName out := by
  obtain ⟨htext, hne, -⟩ := sanitizeFilename_eq_some_iff.mp h
  have hmem : ∀ c ∈ out.toList, c ∈ shownPart name := by
    intro c hc
    exact mem_shownPart_of_mem_trimmed (htext ▸ hc)
  have hhostile : ∀ c ∈ out.toList, isHostile c = false := by
    intro c hc
    simpa using (List.mem_filter.mp (hmem c hc)).2
  have hseparator : ∀ c ∈ out.toList, c ≠ '/' ∧ c ≠ '\\' := by
    intro c hc
    exact not_separator_of_mem_lastComponent (List.mem_of_mem_filter (hmem c hc))
  have hsize : byteSize out.toList ≤ 255 := by
    rw [htext]
    exact byteSize_takeBytes_le 255 _
  have hshown : shownPart out = out.toList := by
    rw [shownPart, lastComponent_eq_self hseparator, List.filter_eq_self]
    intro c hc
    simp [hhostile c hc]
  have hcleanup : sanitizeFilename out = some (out, false) := by
    rw [sanitizeFilename_eq_some_iff, trimmed_of_solid hshown hsolid, takeBytes_of_le hsize]
    exact ⟨rfl, hne, by simp⟩
  exact {
    nonempty := hne
    short := by
      rw [← String.ofList_toList (s := out), length_utf8_ofList]
      exact hsize
    clean := fun c hc => ⟨(hseparator c hc).1, (hseparator c hc).2,
      clean_of_not_hostile (hhostile c hc)⟩
    solid := hsolid
    cleanup := hcleanup
    renamed := by rw [renamedName, trim_of_solid hsolid, if_neg hne, hcleanup]
    moved := by
      intro debug mediaType head gated hgate
      rw [writeGate, except_bind_eq_ok_iff] at hgate
      obtain ⟨essence, -, hgate⟩ := hgate
      simp only [hcleanup] at hgate
      cases hgate
      rfl }

/-- **Cleanup.** What it returns is a normal name exactly if what it is given is rimmed thinly. -/
theorem sanitizeFilename_normal_iff (name : String) :
    (∀ out changed, sanitizeFilename name = some (out, changed) → NormalName out) ↔
      RimmedThin name := by
  constructor
  · intro h
    apply rimmedThin_of_solid
    by_cases hnil : takeBytes 255 (trimmed name) = []
    · rw [hnil]
      exact Solid.nil
    · have hsome := sanitizeFilename_eq name
      rw [if_neg hnil] at hsome
      have hsolid := (h _ _ hsome).solid
      rwa [String.toList_ofList] at hsolid
  · intro hthin out changed h
    apply normalName_of_solid h
    rw [(sanitizeFilename_eq_some_iff.mp h).1]
    exact solid_trimmed hthin

/-- The name of a hidden file after an ellipsis: three turns leave its dot, and a second cleanup
    takes it off. -/
theorem sanitizeFilename_env : sanitizeFilename ".. .env" = some (".env", true) ∧
    sanitizeFilename ".env" = some ("env", true) := by
  decide +kernel

end CirisServer.MediaGate
