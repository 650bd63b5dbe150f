import CirisServer.Spec.MultipartParts

/-!
# The names of a part

A part names itself in its `Content-Disposition`. The header is cut at every `;`, also at those
between quotes, so a name with a `;` is never read back; without one it is. A block that does not
fit the cap is refused where the frames bring it byte by byte.

Key results:
- `headOf_clean`: what is read has no `;`
- `headOf_headBlock`: what is read of a block that names its part
- `partHeaders_refuses`: a block that comes byte by byte
- `readsBack_iff`: which names are read back
-/

namespace CirisServer.Multipart

open List (StartsAt FirstAt)

/-! ## What is read has no `;` -/

theorem mem_of_mem_trimMatches {p : Char → Bool} {text : List Char} {c : Char}
    (h : c ∈ trimMatches p text) : c ∈ text := by
  unfold trimMatches at h
  have hback := (List.dropWhile_sublist p).mem (List.mem_reverse.mp h)
  exact (List.dropWhile_sublist p).mem (List.mem_reverse.mp hback)

theorem dispositionParam_clean {value p : List Char} {key : String}
    (h : dispositionParam value key = some p) : ';' ∉ p := by
  unfold dispositionParam at h
  obtain ⟨param, hparam, hread⟩ := List.exists_of_findSome?_eq_some h
  have hclean : ';' ∉ param :=
    List.not_mem_of_mem_splitOn ((List.drop_sublist 1 _).mem hparam)
  split at hread
  · cases hread
  · next k v hsplit =>
    split at hread
    · cases hread
      intro hmem
      have hvalue : ';' ∈ v := mem_of_mem_trimMatches (mem_of_mem_trimMatches hmem)
      apply hclean
      rw [(List.splitOnce_eq_some_iff.mp hsplit).1]
      exact List.mem_append_right k (List.mem_cons_of_mem _ hvalue)
    · cases hread

/-- No name in the head has a `;`. -/
structure PartHead.Clean (head : PartHead) : Prop where
  name : ';' ∉ head.name.toList
  filename : ∀ f ∈ head.filename, ';' ∉ f.toList

theorem headLine_clean {acc : PartHead × Bool} (h : acc.1.Clean) (line : List Char) :
    (headLine acc line).1.Clean := by
  unfold headLine
  split
  · exact h
  · next k v _ =>
    split
    · have hfilename : ∀ f ∈ (dispositionParam v "filename").map String.ofList, ';' ∉ f.toList := by
        intro f hf
        obtain ⟨text, htext, rfl⟩ := Option.map_eq_some_iff.mp hf
        rw [String.toList_ofList]
        exact dispositionParam_clean htext
      cases hname : dispositionParam v "name" with
      | none => exact ⟨h.name, hfilename⟩
      | some n =>
        refine ⟨?_, hfilename⟩
        rw [String.toList_ofList]
        exact dispositionParam_clean hname
    · split
      · exact ⟨h.name, h.filename⟩
      · exact h

theorem parseHead_clean (text : List Char) : (parseHead text).1.Clean := by
  have hfold (lines : List (List Char)) (acc : PartHead × Bool) (hacc : acc.1.Clean) :
      (lines.foldl headLine acc).1.Clean := by
    induction lines generalizing acc with
    | nil => exact hacc
    | cons line lines ih => exact ih _ (headLine_clean hacc line)
  exact hfold _ _ ⟨List.not_mem_nil, nofun⟩

theorem headOf_clean {text : List UInt8} {i : Nat} {head : PartHead}
    (h : headOf text i = some head) : head.Clean := by
  unfold headOf at h
  split at h
  · cases h
  · next text _ =>
    split at h
    · cases h
    · next hparse =>
      cases h
      have hclean := parseHead_clean text.toList
      rw [hparse] at hclean
      exact hclean

/-! ## Reading a disposition -/

/-- `s` between double quotes. -/
def quoted (s : String) : List Char := '"' :: (s.toList ++ ['"'])

/-- The line that names a part and its file. -/
def dispositionLine (name filename : String) : String :=
  "Content-Disposition: form-data; name=\"" ++ name ++ "\"; filename=\"" ++ filename ++ "\""

/-- What may stand between the quotes. -/
structure Quotable (s : String) : Prop where
  quote : '"' ∉ s.toList
  cr : '\r' ∉ s.toList
  lf : '\n' ∉ s.toList

/-- A line for the type of the part. -/
structure ContentTypeLine (line : String) : Prop where
  cr : '\r' ∉ line.toList
  key : ∃ k v, List.splitOnce ':' line.toList = some (k, v) ∧ isKey k "content-type" = true

theorem dropWhile_of_not_mem {c : Char} {text : List Char} (h : c ∉ text) :
    text.dropWhile (· == c) = text := by
  cases text with
  | nil => rfl
  | cons d text =>
    have hd : ¬ (d == c) = true := fun heq => h (beq_iff_eq.mp heq ▸ List.mem_cons_self)
    exact List.dropWhile_cons_of_neg hd

/-- The quotes are trimmed off, and what stands between them stays. -/
theorem trimMatches_quoted {s : String} (h : '"' ∉ s.toList) :
    trimMatches (· == '"') (trimMatches isWhiteSpace (quoted s)) = s.toList := by
  have hspace : trimMatches isWhiteSpace (quoted s) = quoted s := by
    unfold trimMatches quoted
    rw [List.dropWhile_cons_of_neg (by decide), ← List.cons_append, List.reverse_append,
      List.reverse_singleton, List.singleton_append, List.dropWhile_cons_of_neg (by decide)]
    simp
  rw [hspace]
  unfold trimMatches quoted
  have hback : '"' ∉ s.toList.reverse := fun hmem => h (List.mem_reverse.mp hmem)
  rw [List.dropWhile_cons_of_pos (by decide)]
  by_cases hnil : s.toList = []
  · rw [hnil]
    rfl
  · have hfront : (s.toList ++ ['"']).dropWhile (· == '"') = s.toList ++ ['"'] := by
      rw [List.dropWhile_append, dropWhile_of_not_mem h, if_neg (by simpa using hnil)]
    rw [hfront, List.reverse_append, List.reverse_singleton, List.singleton_append,
      List.dropWhile_cons_of_pos (by decide), dropWhile_of_not_mem hback, List.reverse_reverse]

/-- A parameter with its value between quotes. -/
def param (key s : String) : List Char := key.toList ++ '=' :: quoted s

/-- The parameters of the line, behind its colon. -/
def dispositionValue (name filename : String) : List Char :=
  [';'].intercalate [" form-data".toList, param " name" name, param " filename" filename]

theorem toList_dispositionLine (name filename : String) :
    (dispositionLine name filename).toList =
      "Content-Disposition".toList ++ ':' :: dispositionValue name filename := by
  have hfront : "Content-Disposition: form-data; name=\"".toList = "Content-Disposition".toList ++
      ':' :: (" form-data".toList ++ ';' :: (" name".toList ++ ['=', '"'])) := by rfl
  have hmiddle : "\"; filename=\"".toList = '"' :: ';' :: (" filename".toList ++ ['=', '"']) := by
    rfl
  have hback : "\"".toList = ['"'] := by rfl
  show ("Content-Disposition: form-data; name=\"" ++ name ++ "\"; filename=\"" ++ filename ++
    "\"").toList = _
  rw [String.toList_append, String.toList_append, String.toList_append, String.toList_append,
    hfront, hmiddle, hback, dispositionValue, param, param, quoted, quoted]
  generalize "Content-Disposition".toList = a
  generalize " form-data".toList = b
  generalize " name".toList = c
  generalize " filename".toList = d
  simp

theorem not_mem_param {c : Char} {key s : String} (hkey : c ∉ key.toList) (hs : c ∉ s.toList)
    (hc : c ≠ '=' ∧ c ≠ '"') : c ∉ param key s := by
  simp only [param, quoted, List.mem_append, List.mem_cons, List.not_mem_nil, or_false, not_or]
  exact ⟨hkey, hc.1, hc.2, hs, hc.2⟩

/-- Without a `;` in the names, the value is cut at its own. -/
theorem splitOn_dispositionValue {name filename : String} (hname : ';' ∉ name.toList)
    (hfilename : ';' ∉ filename.toList) :
    (dispositionValue name filename).splitOn ';' =
      [" form-data".toList, param " name" name, param " filename" filename] := by
  apply List.splitOn_intercalate
  · simp only [List.forall_mem_cons, List.not_mem_nil, false_implies, implies_true, and_true]
    exact ⟨by decide, not_mem_param (by decide) hname (by decide),
      not_mem_param (by decide) hfilename (by decide)⟩
  · exact List.cons_ne_nil _ _

theorem splitOnce_param {key s : String} (h : '=' ∉ key.toList) :
    List.splitOnce '=' (param key s) = some (key.toList, quoted s) :=
  List.splitOnce_eq_some_iff.mpr ⟨rfl, h⟩

theorem dispositionParam_name {name filename : String} (hname : ';' ∉ name.toList)
    (hfilename : ';' ∉ filename.toList) (hquote : '"' ∉ name.toList) :
    dispositionParam (dispositionValue name filename) "name" = some name.toList := by
  have hkey : isKey " name".toList "name" = true := by decide
  rw [dispositionParam, splitOn_dispositionValue hname hfilename, List.drop_succ_cons,
    List.drop_zero, List.findSome?_cons, splitOnce_param (by decide)]
  simp only [hkey, if_true, trimMatches_quoted hquote]

theorem dispositionParam_filename {name filename : String} (hname : ';' ∉ name.toList)
    (hfilename : ';' ∉ filename.toList) (hquote : '"' ∉ filename.toList) :
    dispositionParam (dispositionValue name filename) "filename" = some filename.toList := by
  have hother : isKey " name".toList "filename" = false := by decide
  have hkey : isKey " filename".toList "filename" = true := by decide
  rw [dispositionParam, splitOn_dispositionValue hname hfilename, List.drop_succ_cons,
    List.drop_zero, List.findSome?_cons, splitOnce_param (by decide)]
  simp only [hother, Bool.false_eq_true, if_false]
  rw [List.findSome?_cons, splitOnce_param (by decide)]
  simp only [hkey, if_true, trimMatches_quoted hquote]

/-! ## Reading a block -/

/-- A line ends at its CRLF. -/
theorem splitCrlf_append {line : List Char} (h : '\r' ∉ line) (rest : List Char) :
    splitCrlf (line ++ '\r' :: '\n' :: rest) = line :: splitCrlf rest := by
  induction line with
  | nil => rfl
  | cons c line ih =>
    rw [List.mem_cons, not_or] at h
    rw [List.cons_append, splitCrlf, ih h.2]
    intro text hc
    exact absurd hc.symm h.1

theorem splitCrlf_eq_singleton {line : List Char} (h : '\r' ∉ line) : splitCrlf line = [line] := by
  induction line with
  | nil => rfl
  | cons c line ih =>
    rw [List.mem_cons, not_or] at h
    rw [splitCrlf, ih h.2]
    intro text hc
    exact absurd hc.symm h.1

/-- The headers of a part, and nothing else. -/
def headText (name filename line : String) : String :=
  dispositionLine name filename ++ "\r\n" ++ line

theorem cr_not_mem_dispositionLine {name filename : String} (hname : Quotable name)
    (hfilename : Quotable filename) : '\r' ∉ (dispositionLine name filename).toList := by
  have hn : '\r' ∉ param " name" name := not_mem_param (by decide) hname.cr (by decide)
  have hf : '\r' ∉ param " filename" filename :=
    not_mem_param (by decide) hfilename.cr (by decide)
  rw [toList_dispositionLine, dispositionValue, List.mem_append, List.mem_cons, not_or, not_or]
  refine ⟨by decide, by decide, ?_⟩
  simp only [List.intercalate_cons_cons, List.intercalate_singleton, List.mem_append,
    List.mem_singleton, not_or]
  exact ⟨⟨by decide, by decide⟩, ⟨hn, by decide⟩, hf⟩

/-- The names are read back from the text. -/
theorem parseHead_headText {name filename line : String} (hname : Quotable name)
    (hfilename : Quotable filename) (hline : ContentTypeLine line) (hcut : ';' ∉ name.toList)
    (hcut' : ';' ∉ filename.toList) :
    ∃ head, parseHead (headText name filename line).toList = (head, true) ∧ head.name = name ∧
      head.filename = some filename := by
  have hcrlf : "\r\n".toList = ['\r', '\n'] := by rfl
  have hsplit : splitCrlf (headText name filename line).toList =
      [(dispositionLine name filename).toList, line.toList] := by
    rw [headText, String.toList_append, String.toList_append, hcrlf, List.append_assoc,
      List.cons_append, List.cons_append, List.nil_append,
      splitCrlf_append (cr_not_mem_dispositionLine hname hfilename),
      splitCrlf_eq_singleton hline.cr]
  have hfirst : List.splitOnce ':' (dispositionLine name filename).toList =
      some ("Content-Disposition".toList, dispositionValue name filename) :=
    List.splitOnce_eq_some_iff.mpr ⟨toList_dispositionLine name filename, by decide⟩
  have hkey : isKey "Content-Disposition".toList "content-disposition" = true := by decide
  obtain ⟨k, v, hsecond, htype⟩ := hline.key
  -- the line for the type is not another disposition
  have hother : isKey k "content-disposition" = false := by
    rw [isKey, beq_iff_eq] at htype
    rw [isKey, htype]
    decide
  rw [parseHead, hsplit, List.foldl_cons, List.foldl_cons, List.foldl_nil, headLine, hsecond]
  dsimp only
  rw [headLine, hfirst]
  dsimp only
  rw [if_pos hkey, dispositionParam_name hcut hcut' hname.quote,
    dispositionParam_filename hcut hcut' hfilename.quote, hother, htype]
  exact ⟨_, rfl, String.ofList_toList, congrArg some String.ofList_toList⟩

/-- What follows the delimiter of a part with these headers. -/
def headBlock (name filename line : String) : List UInt8 :=
  crlf ++ utf8 (headText name filename line) ++ (crlf ++ crlf)

/-- A line that is not empty does not end the headers. -/
theorem firstAt_line {line after : List UInt8} {i : Nat} (hcr : 13 ∉ line) (hne : line ≠ [])
    (h : FirstAt (crlf ++ crlf) after i) :
    FirstAt (crlf ++ crlf) (crlf ++ line ++ after) (2 + line.length + i) := by
  have hdrop : (crlf ++ line ++ after).drop (2 + line.length) = after :=
    List.drop_left' (by rw [List.length_append]; rfl)
  apply FirstAt.of_drop
  · intro j hj hstarts
    cases j with
    | zero =>
      obtain ⟨b, line, rfl⟩ := List.exists_cons_of_ne_nil hne
      obtain ⟨tail, htail⟩ := hstarts
      have hb : (13 : UInt8) = b := (List.cons.inj (List.cons.inj (List.cons.inj htail).2).2).1
      exact hcr (hb ▸ List.mem_cons_self)
    | succ j =>
      have hlf : (13 : UInt8) ∉ 10 :: line := by
        rw [List.mem_cons, not_or]
        exact ⟨by decide, hcr⟩
      have hskip := (List.StartsAt.skip (i := j) hlf hstarts).1
      rw [List.length_cons] at hskip
      omega
  · rw [hdrop]
    exact h

theorem headAt_of_firstAt {text : List UInt8} {i : Nat} (hline : crlf <+: text)
    (h : FirstAt (crlf ++ crlf) text i) : HeadAt text i := by
  obtain ⟨rest, rfl⟩ := hline
  have hpad : padding (crlf ++ rest) = 0 := by rfl
  refine ⟨?_, hpad ▸ Nat.zero_le i, h.starts, fun j _ hlt => h.clean j hlt⟩
  rw [hpad]
  rfl

theorem ContentTypeLine.utf8_ne_nil {line : String} (h : ContentTypeLine line) :
    utf8 line ≠ [] := by
  obtain ⟨k, v, hsplit, -⟩ := h.key
  intro hnil
  have hempty : line = "" := utf8_injective hnil
  rw [hempty] at hsplit
  cases hsplit

theorem utf8_headText (name filename line : String) : utf8 (headText name filename line) =
    utf8 (dispositionLine name filename) ++ crlf ++ utf8 line := by
  rw [headText, utf8_append, utf8_append]
  rfl

/-- The block ends where it says. -/
theorem headAt_headBlock {name filename line : String} (hname : Quotable name)
    (hfilename : Quotable filename) (hline : ContentTypeLine line) (more : List UInt8) :
    HeadAt (headBlock name filename line ++ more)
      (2 + (utf8 (headText name filename line)).length) := by
  have hzero : FirstAt (crlf ++ crlf) (crlf ++ crlf ++ more) 0 :=
    ⟨List.prefix_append _ _, fun j hj => absurd hj (Nat.not_lt_zero j)⟩
  have hdisposition : utf8 (dispositionLine name filename) ≠ [] := by
    intro hnil
    have hempty := congrArg String.toList (utf8_injective (t := "") hnil)
    rw [toList_dispositionLine] at hempty
    cases hempty
  have htype := firstAt_line (cr_not_mem_utf8 hline.cr) hline.utf8_ne_nil hzero
  have hall := firstAt_line (cr_not_mem_utf8 (cr_not_mem_dispositionLine hname hfilename))
    hdisposition htype
  have hblock : headBlock name filename line ++ more = crlf ++ utf8 (dispositionLine name filename)
      ++ (crlf ++ utf8 line ++ (crlf ++ crlf ++ more)) := by
    simp only [headBlock, utf8_headText, List.append_assoc]
  have hplace : 2 + (utf8 (headText name filename line)).length =
      2 + (utf8 (dispositionLine name filename)).length + (2 + (utf8 line).length + 0) := by
    have hcrlf : crlf.length = 2 := by rfl
    rw [utf8_headText, List.length_append, List.length_append, hcrlf]
    omega
  rw [hblock, hplace]
  apply headAt_of_firstAt _ hall
  rw [List.append_assoc]
  exact List.prefix_append _ _

theorem length_headBlock (name filename line : String) : (headBlock name filename line).length =
    2 + (utf8 (headText name filename line)).length + 4 := by
  rw [headBlock, List.length_append, List.length_append]
  rfl

/-- **What is read of a block** that names its part. -/
theorem headOf_headBlock {name filename line : String} (hname : Quotable name)
    (hfilename : Quotable filename) (hline : ContentTypeLine line) (hcut : ';' ∉ name.toList)
    (hcut' : ';' ∉ filename.toList) (more : List UInt8) :
    ∃ head, headOf (headBlock name filename line ++ more)
      (2 + (utf8 (headText name filename line)).length) = some head ∧ head.name = name ∧
      head.filename = some filename := by
  obtain ⟨head, hparse, hnames⟩ := parseHead_headText hname hfilename hline hcut hcut'
  have hpad : padding (headBlock name filename line ++ more) = 0 := by rfl
  have htext : ((headBlock name filename line ++ more).take
      (2 + (utf8 (headText name filename line)).length)).drop 2 =
      utf8 (headText name filename line) := by
    rw [headBlock, List.append_assoc,
      List.take_left' (by rw [List.length_append]; rfl), List.drop_left' (by rfl)]
  refine ⟨head, ?_, hnames⟩
  rw [headOf, hpad, Nat.zero_add, Nat.min_eq_left (Nat.le_add_right _ _), htext, fromUtf8_utf8]
  dsimp only
  rw [hparse]

/-! ## A block that comes byte by byte -/

/-- Frames of one byte each. -/
def bytewise (bytes : List UInt8) : List Event := bytes.map fun b => .frame [b]

/-- There is room for every byte that comes. -/
theorem feed_bytewise (read : Nat) (bytes : List UInt8) :
    feed u64Max read (bytewise bytes) = (bytes, none) := by
  induction bytes generalizing read with
  | nil => rfl
  | cons b bytes ih =>
    have hroom : ¬ u64Max < min (read + [b].length) u64Max := Nat.not_lt.mpr (Nat.min_le_right _ _)
    show feed u64Max read (.frame [b] :: bytewise bytes) = _
    rw [feed, if_neg hroom, ih]
    rfl

/-- A fill brings one byte. -/
theorem fill_bytewise {mp mp' : Multipart} {bytes : List UInt8} {stream' : List Event}
    (h : mp.fill (bytewise bytes) = (.ok true, mp', stream')) :
    mp'.buf.length - mp'.pos = mp.buf.length - mp.pos + 1 ∧ stream' = bytewise bytes.tail := by
  rw [fill] at h
  split at h
  · next hpoll =>
    -- no frame is waited for
    have hwaits := pollFill_waits hpoll
    cases bytes <;> cases hwaits
  · next hpoll =>
    cases h
    obtain ⟨frame, hframe, hlength⟩ := pollFill_frame hpoll
    cases bytes with
    | nil => cases hframe
    | cons b bytes =>
      cases hframe
      exact ⟨hlength, rfl⟩

/-- **Byte by byte.** A block that is longer than the cap is refused where its bytes come one at a
    time. -/
theorem partHeaders_refuses {mp : Multipart} {bytes : List UInt8} {i : Nat}
    (hshort : mp.buf.length - mp.pos ≤ headerCap + 1) (hhead : HeadAt (mp.unread (bytewise bytes)) i)
    (hlong : headerCap + 1 < i + 4) : ∃ f, (mp.partHeaders (bytewise bytes)).1 = .error f := by
  have hloop : ∃ f, (mp.fillLoop headStep (fun _ => .truncated) (bytewise bytes)).1 = .error f := by
    apply fillLoop_rule (Q := fun r _ _ => ∃ f, r = .error f)
      (I := fun mp₁ s => Onward 0 mp (bytewise bytes) mp₁ s ∧
        mp₁.buf.length - mp₁.pos ≤ headerCap + 1 ∧ ∃ rest, s = bytewise rest)
      (J := fun mp₁ s => Onward 0 mp (bytewise bytes) mp₁ s ∧
        mp₁.buf.length - mp₁.pos ≤ headerCap ∧ ∃ rest, s = bytewise rest)
    case hdone =>
      intro mp₁ s mp₂ r ⟨hon, hlen, _⟩ hstep
      rcases headStep_some hstep s with ⟨j, hj, hfit, -, -⟩ | ⟨f, rfl, -⟩
      · -- what is found lies in the buffer, which does not hold the block
        rw [hon.unread_eq, List.drop_zero] at hj
        have hplace := hj.unique hhead
        omega
      · exact ⟨f, rfl⟩
    case hmore =>
      intro mp₁ s mp₂ ⟨hon, hlen, hrest⟩ hstep
      obtain ⟨rfl, -, hcap⟩ := headStep_none hstep
      exact ⟨hon, hcap, hrest⟩
    case hfilled =>
      intro mp₁ s mp₂ s' ⟨hon, hlen, hrest⟩ hfill
      obtain ⟨rest, rfl⟩ := hrest
      obtain ⟨hone, rfl⟩ := fill_bytewise hfill
      exact ⟨hon.trans (fill_filled hfill).onward, by omega, rest.tail, rfl⟩
    case hended =>
      intro mp₁ s mp₂ s' _ _
      exact ⟨_, rfl⟩
    case hfailed =>
      intro mp₁ s mp₂ s' f _ _
      exact ⟨f, rfl⟩
    case h => exact ⟨Onward.refl mp _, hshort, bytes, rfl⟩
  obtain ⟨f, hf⟩ := hloop
  rw [partHeaders]
  generalize mp.fillLoop headStep (fun _ => .truncated) (bytewise bytes) = p at hf
  obtain ⟨r, mp', stream'⟩ := p
  cases hf
  exact ⟨f, rfl⟩

/-! ## Which names are read back -/

/-- A part with these headers is read back as it is named, wherever the reader is in the body and
    however the block comes. -/
def ReadsBack (name filename line : String) : Prop :=
  ∀ (mp : Multipart) (stream : List Event), mp.delim ≠ [] →
    headBlock name filename line <+: mp.unread stream →
    ∃ head, (mp.partHeaders stream).1 = .ok head ∧ head.name = name ∧
      head.filename = some filename

/-- A reader behind the first delimiter of its body. -/
def opened : Multipart :=
  { new "b" u64Max with
    buf := (new "b" u64Max).delim
    pos := (new "b" u64Max).delim.length
    read := 3
    state := .afterDelimiter }

theorem unread_opened (bytes : List UInt8) : opened.unread (bytewise bytes) = bytes := by
  have hcome : opened.toCome (bytewise bytes) = feed u64Max 3 (bytewise bytes) := by rfl
  have hbuf : opened.buf.drop opened.pos = [] := by
    apply List.drop_eq_nil_of_le
    exact Nat.le_refl _
  rw [unread, hcome, feed_bytewise, hbuf]
  rfl

/-- Names that are read back have no `;`. -/
theorem ReadsBack.clean {name filename line : String} (h : ReadsBack name filename line) :
    ';' ∉ name.toList ∧ ';' ∉ filename.toList := by
  have hne : opened.delim ≠ [] := by decide
  obtain ⟨head, hok, rfl, hfilename⟩ := h opened (bytewise (headBlock name filename line)) hne
    ⟨[], by rw [List.append_nil, unread_opened]⟩
  have hspec := partHeaders_spec (bytewise (headBlock head.name filename line)) hne
  rw [hok] at hspec
  cases hspec with
  | part _ hread =>
    have hclean := headOf_clean hread
    exact ⟨hclean.name, hclean.filename filename hfilename⟩

/-- A block that is read back under every cut fits the cap. -/
theorem ReadsBack.length_le {name filename line : String} (hname : Quotable name)
    (hfilename : Quotable filename) (hline : ContentTypeLine line)
    (h : ReadsBack name filename line) :
    (headBlock name filename line).length ≤ headerCap + 1 := by
  by_contra hlong
  obtain ⟨head, hok, -⟩ := h opened (bytewise (headBlock name filename line)) (by decide)
    ⟨[], by rw [List.append_nil, unread_opened]⟩
  have hhead := headAt_headBlock hname hfilename hline []
  rw [List.append_nil, ← unread_opened (headBlock name filename line)] at hhead
  rw [length_headBlock] at hlong
  obtain ⟨f, herror⟩ := partHeaders_refuses (by decide) hhead (by omega)
  rw [hok] at herror
  cases herror

/-- **Rendered and read back.** A part's names are read back if and only if neither has a `;`,
    and the block fits the cap. -/
theorem readsBack_iff {name filename line : String} (hname : Quotable name)
    (hfilename : Quotable filename) (hline : ContentTypeLine line) :
    ReadsBack name filename line ↔ ';' ∉ name.toList ∧ ';' ∉ filename.toList ∧
      (headBlock name filename line).length ≤ headerCap + 1 := by
  constructor
  · intro h
    exact ⟨h.clean.1, h.clean.2, h.length_le hname hfilename hline⟩
  · intro ⟨hcut, hcut', hfits⟩ mp stream hne ⟨more, hmore⟩
    obtain ⟨head, hread, hnames⟩ := headOf_headBlock hname hfilename hline hcut hcut' more
    have hhead := headAt_headBlock hname hfilename hline more
    rw [hmore] at hread hhead
    rw [length_headBlock] at hfits
    have hspec := partHeaders_spec stream hne
    generalize mp.partHeaders stream = p at hspec ⊢
    obtain ⟨r, mp', stream'⟩ := p
    cases hspec with
    | part hhead' hread' =>
      rw [hhead'.unique hhead, hread] at hread'
      cases hread'
      exact ⟨_, rfl, hnames⟩
    | failed _ hlong => exact absurd (hlong _ _ hhead hread).1 (by omega)

theorem readsBack_iff_photo : ReadsBack "file" "a photo: 1=2.png" "Content-Type: image/png" ↔
    ';' ∉ "file".toList ∧ ';' ∉ "a photo: 1=2.png".toList ∧
      (headBlock "file" "a photo: 1=2.png" "Content-Type: image/png").length ≤ headerCap + 1 :=
  readsBack_iff ⟨by decide, by decide, by decide⟩ ⟨by decide, by decide, by decide⟩
    ⟨by decide, "Content-Type".toList, " image/png".toList, by decide, by decide⟩

/-- A name with a `;` between its quotes is cut there. -/
theorem semicolon_cut : Quotable "a;b" ∧ Quotable "f" ∧
    ContentTypeLine "Content-Type: image/png" ∧
    ¬ ReadsBack "a;b" "f" "Content-Type: image/png" := by
  refine ⟨⟨by decide, by decide, by decide⟩, ⟨by decide, by decide, by decide⟩,
    ⟨by decide, "Content-Type".toList, " image/png".toList, by decide, by decide⟩, fun h => ?_⟩
  exact h.clean.1 (by decide)

end CirisServer.Multipart
