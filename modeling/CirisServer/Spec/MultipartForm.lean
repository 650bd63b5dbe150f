import CirisServer.Spec.MultipartEnd

/-!
# A form that is read back

A sender writes a form: a preamble, the parts behind their delimiters, and an epilogue. Whatever
frames it comes in, `next_part` and `read_part` bring the fields and the file's reader its bytes,
if no name has a `;`.

Key results:
- `headAt_block`, `headOf_block`: the headers of a part that was written
- `readFields_eq`: the fields are read back
- `form_read_iff`: when the whole form is
-/

namespace CirisServer.Multipart

open List (StartsAt FirstAt)

/-! ## Writing a form -/

/-- The line that names a part, with or without a file. -/
def disposition (name : String) : Option String → String
  | none => "Content-Disposition: form-data; name=\"" ++ name ++ "\""
  | some filename => dispositionLine name filename

/-- A header line that does not name the part. -/
structure OtherLine (line : String) : Prop where
  cr : '\r' ∉ line.toList
  ne : line ≠ ""
  key : ∀ k v, List.splitOnce ':' line.toList = some (k, v) → isKey k "content-disposition" = false

/-- A part as it is written: its header lines, behind spaces and tabs, and its bytes. -/
structure FormPart where
  lwsp : List UInt8
  before : List String
  name : String
  filename : Option String
  after : List String
  value : List UInt8
  lwsp_blank : ∀ b ∈ lwsp, b = 32 ∨ b = 9
  name_quotable : Quotable name
  filename_quotable : ∀ f ∈ filename, Quotable f
  others : ∀ line ∈ before ++ after, OtherLine line

namespace FormPart

def lines (p : FormPart) : List String := p.before ++ disposition p.name p.filename :: p.after

/-- What stands between the delimiter and the bytes. -/
def block (p : FormPart) : List UInt8 :=
  p.lwsp ++ ((p.lines.flatMap fun line => crlf ++ utf8 line) ++ (crlf ++ crlf))

end FormPart

/-- `CRLF--boundary`. -/
def delimiter (boundary : String) : List UInt8 := crlf ++ dashes ++ utf8 boundary

/-- What follows the delimiter before these parts. -/
def behindDelim (delim epilogue : List UInt8) : List FormPart → List UInt8
  | [] => dashes ++ epilogue
  | p :: parts => p.block ++ (p.value ++ (delim ++ behindDelim delim epilogue parts))

/-- A form. Neither the preamble, at the beginning of the body, nor a value has a delimiter. -/
structure Form where
  boundary : String
  preamble : Option (List UInt8)
  fields : List FormPart
  file : FormPart
  epilogue : List UInt8
  boundary_cr : '\r' ∉ boundary.toList
  preamble_clean : ∀ text ∈ preamble, ¬ delimiter boundary <:+: crlf ++ text
  values_clean : ∀ p ∈ fields ++ [file], ¬ delimiter boundary <:+: p.value

namespace Form

def parts (form : Form) : List FormPart := form.fields ++ [form.file]

/-- The body. Without a preamble it begins with the dashes of its first delimiter. -/
def body (form : Form) : List UInt8 :=
  let parts := behindDelim (delimiter form.boundary) form.epilogue form.parts
  match form.preamble with
  | none => dashes ++ utf8 form.boundary ++ parts
  | some text => text ++ (delimiter form.boundary ++ parts)

end Form

/-- The drive's loop: each field is opened, and read whole up to its cap. -/
def readFields (mp : Multipart) (stream : List Event) :
    List Nat → Option (List (PartHead × List UInt8)) × Multipart × List Event
  | [] => (some [], mp, stream)
  | cap :: caps =>
    match mp.nextPart stream with
    | (.ok (some head), mp, stream) =>
      match mp.readPart stream cap with
      | (.ok value, mp, stream) =>
        let (read, mp, stream) := readFields mp stream caps
        (read.map ((head, value) :: ·), mp, stream)
      | (.error _, mp, stream) => (none, mp, stream)
    | (_, mp, stream) => (none, mp, stream)

/-- The form is read back: the fields by their names and values, then the file by its name and
    bytes, however the body is cut and however the file is read and looked at. -/
def Form.ReadBack (form : Form) (limit : Nat) : Prop :=
  ∀ (stream : List Event) (caps : List Nat) (ops : List FileOp), Framing form.body stream →
    List.Forall₂ (fun cap p => p.value.length ≤ cap) caps form.fields →
    (∀ op ∈ ops, op.Valid) →
    ∃ read mp s head mp' s',
      readFields (new form.boundary limit) stream caps = (some read, mp, s) ∧
      (read.map fun r => (r.1.name, r.2)) = form.fields.map (fun p => (p.name, p.value)) ∧
      mp.nextPart s = (.ok (some head), mp', s') ∧ head.name = form.file.name ∧
      Tells (.eof form.file.value) ops (mp'.runFile s' ops) ∧
      (stream.length + form.body.length + 2 < reads ops → .eof ∈ mp'.runFile s' ops)

/-! ## The line that names a part -/

/-- What stands behind the colon, from its name on. -/
def dispositionTail : Option String → List Char
  | none => []
  | some filename => ';' :: param " filename" filename

theorem toList_disposition (name : String) (filename : Option String) :
    (disposition name filename).toList = "Content-Disposition".toList ++
      ':' :: (" form-data".toList ++ ';' :: (param " name" name ++ dispositionTail filename)) := by
  cases filename with
  | none =>
    have hfront : "Content-Disposition: form-data; name=\"".toList = "Content-Disposition".toList ++
        ':' :: (" form-data".toList ++ ';' :: (" name".toList ++ ['=', '"'])) := by rfl
    have hback : "\"".toList = ['"'] := by rfl
    show ("Content-Disposition: form-data; name=\"" ++ name ++ "\"").toList = _
    rw [String.toList_append, String.toList_append, hfront, hback, dispositionTail, param, quoted]
    generalize "Content-Disposition".toList = a
    generalize " form-data".toList = b
    generalize " name".toList = c
    simp
  | some f =>
    show (dispositionLine name f).toList = _
    rw [toList_dispositionLine, dispositionValue, dispositionTail]
    generalize "Content-Disposition".toList = a
    generalize " form-data".toList = b
    simp

/-- The name is read back, whatever the file is called. -/
theorem dispositionParam_disposition {name : String} (filename : Option String)
    (hcut : ';' ∉ name.toList) (hquote : '"' ∉ name.toList) :
    dispositionParam (" form-data".toList ++ ';' :: (param " name" name ++ dispositionTail filename))
      "name" = some name.toList := by
  have hkey : isKey " name".toList "name" = true := by decide
  have hparam : ';' ∉ param " name" name := not_mem_param (by decide) hcut (by decide)
  have hsplit : ∃ rest, (param " name" name ++ dispositionTail filename).splitOn ';' =
      param " name" name :: rest := by
    cases filename with
    | none =>
      rw [dispositionTail, List.append_nil]
      exact ⟨[], List.splitOn_eq_singleton hparam⟩
    | some f => exact ⟨_, List.splitOn_append_cons_self_of_not_mem hparam _⟩
  obtain ⟨rest, hrest⟩ := hsplit
  rw [dispositionParam, List.splitOn_append_cons_self_of_not_mem (by decide), List.drop_succ_cons,
    List.drop_zero, hrest, List.findSome?_cons, splitOnce_param (by decide)]
  simp only [hkey, if_true, trimMatches_quoted hquote]

theorem headLine_disposition {name : String} (filename : Option String) (hcut : ';' ∉ name.toList)
    (hquote : '"' ∉ name.toList) (acc : PartHead × Bool) :
    (headLine acc (disposition name filename).toList).1.name = name ∧
      (headLine acc (disposition name filename).toList).2 = true := by
  have hsplit : List.splitOnce ':' (disposition name filename).toList = some
      ("Content-Disposition".toList,
        " form-data".toList ++ ';' :: (param " name" name ++ dispositionTail filename)) :=
    List.splitOnce_eq_some_iff.mpr ⟨toList_disposition name filename, by decide⟩
  have hkey : isKey "Content-Disposition".toList "content-disposition" = true := by decide
  rw [headLine, hsplit]
  dsimp only
  rw [if_pos hkey, dispositionParam_disposition filename hcut hquote]
  exact ⟨String.ofList_toList, rfl⟩

theorem cr_not_mem_disposition {name : String} {filename : Option String} (hname : Quotable name)
    (hfilename : ∀ f ∈ filename, Quotable f) : '\r' ∉ (disposition name filename).toList := by
  have hn : '\r' ∉ param " name" name := not_mem_param (by decide) hname.cr (by decide)
  have htail : '\r' ∉ dispositionTail filename := by
    cases filename with
    | none => exact List.not_mem_nil
    | some f =>
      rw [dispositionTail, List.mem_cons, not_or]
      exact ⟨by decide, not_mem_param (by decide) (hfilename f rfl).cr (by decide)⟩
  rw [toList_disposition, List.mem_append, List.mem_cons, List.mem_append, List.mem_cons,
    List.mem_append]
  simp only [not_or]
  exact ⟨by decide, by decide, by decide, by decide, hn, htail⟩

/-! ## The headers that were written -/

theorem headLine_other {line : String} (h : OtherLine line) (acc : PartHead × Bool) :
    (headLine acc line.toList).1.name = acc.1.name ∧ (headLine acc line.toList).2 = acc.2 := by
  rw [headLine]
  split
  · exact ⟨rfl, rfl⟩
  · next k v hsplit =>
    rw [if_neg (by rw [h.key k v hsplit]; decide)]
    split
    · exact ⟨rfl, rfl⟩
    · exact ⟨rfl, rfl⟩

theorem foldl_headLine_others {lines : List String} (h : ∀ line ∈ lines, OtherLine line)
    (acc : PartHead × Bool) :
    ((lines.map String.toList).foldl headLine acc).1.name = acc.1.name ∧
      ((lines.map String.toList).foldl headLine acc).2 = acc.2 := by
  induction lines generalizing acc with
  | nil => exact ⟨rfl, rfl⟩
  | cons line lines ih =>
    obtain ⟨hname, hnamed⟩ := headLine_other (h line List.mem_cons_self) acc
    obtain ⟨hname', hnamed'⟩ :=
      ih (fun l hl => h l (List.mem_cons_of_mem _ hl)) (headLine acc line.toList)
    exact ⟨hname'.trans hname, hnamed'.trans hnamed⟩

/-- Lines that are written one under the other are the lines of the text. -/
theorem exists_text_of_lines {lines : List String} (hne : lines ≠ [])
    (hcr : ∀ line ∈ lines, '\r' ∉ line.toList) :
    ∃ text : String, (lines.flatMap fun line => crlf ++ utf8 line) = crlf ++ utf8 text ∧
      splitCrlf text.toList = lines.map String.toList := by
  induction lines with
  | nil => exact absurd rfl hne
  | cons line lines ih =>
    have hline := hcr line List.mem_cons_self
    by_cases hlast : lines = []
    · subst hlast
      exact ⟨line, by simp, splitCrlf_eq_singleton hline⟩
    · obtain ⟨text, hbytes, hsplit⟩ := ih hlast fun l hl => hcr l (List.mem_cons_of_mem _ hl)
      have hcrlf : "\r\n".toList = ['\r', '\n'] := by rfl
      have hutf8 : utf8 "\r\n" = crlf := by rfl
      refine ⟨line ++ "\r\n" ++ text, ?_, ?_⟩
      · rw [List.flatMap_cons, hbytes, utf8_append, utf8_append, hutf8]
        simp only [List.append_assoc]
      · rw [String.toList_append, String.toList_append, hcrlf, List.append_assoc, List.cons_append,
          List.cons_append, List.nil_append, splitCrlf_append hline, hsplit, List.map_cons]

namespace FormPart

variable {p : FormPart}

theorem cr_not_mem_lines (p : FormPart) : ∀ line ∈ p.lines, '\r' ∉ line.toList := by
  intro line hline
  rcases List.mem_append.mp hline with hbefore | hrest
  · exact (p.others line (List.mem_append_left _ hbefore)).cr
  · rcases List.mem_cons.mp hrest with rfl | hafter
    · exact cr_not_mem_disposition p.name_quotable p.filename_quotable
    · exact (p.others line (List.mem_append_right _ hafter)).cr

theorem lines_ne_nil (p : FormPart) : p.lines ≠ [] := by
  rw [lines]
  simp

theorem utf8_line_ne_nil (p : FormPart) : ∀ line ∈ p.lines, utf8 line ≠ [] := by
  intro line hline hnil
  have hempty : line = "" := utf8_injective hnil
  rcases List.mem_append.mp hline with hbefore | hrest
  · exact (p.others line (List.mem_append_left _ hbefore)).ne hempty
  · rcases List.mem_cons.mp hrest with rfl | hafter
    · have hlist := congrArg String.toList hempty
      rw [toList_disposition] at hlist
      cases hlist
    · exact (p.others line (List.mem_append_right _ hafter)).ne hempty

/-- The header lines, each behind its CRLF. -/
def headers (p : FormPart) : List UInt8 := p.lines.flatMap fun line => crlf ++ utf8 line

theorem length_block (p : FormPart) :
    p.block.length = p.lwsp.length + p.headers.length + 4 := by
  rw [block, List.length_append, List.length_append, Nat.add_assoc]
  rfl

/-- The headers end at the first empty line. -/
theorem firstAt_headers (p : FormPart) (more : List UInt8) :
    FirstAt (crlf ++ crlf) (p.headers ++ (crlf ++ crlf ++ more)) p.headers.length := by
  have hlines (lines : List String) (hcr : ∀ line ∈ lines, '\r' ∉ line.toList)
      (hne : ∀ line ∈ lines, utf8 line ≠ []) :
      FirstAt (crlf ++ crlf)
        ((lines.flatMap fun line => crlf ++ utf8 line) ++ (crlf ++ crlf ++ more))
        (lines.flatMap fun line => crlf ++ utf8 line).length := by
    induction lines with
    | nil => exact ⟨List.prefix_append _ _, fun j hj => absurd hj (Nat.not_lt_zero j)⟩
    | cons line lines ih =>
      have hrest := ih (fun l hl => hcr l (List.mem_cons_of_mem _ hl))
        fun l hl => hne l (List.mem_cons_of_mem _ hl)
      have hfirst := firstAt_line (cr_not_mem_utf8 (hcr line List.mem_cons_self))
        (hne line List.mem_cons_self) hrest
      rw [List.flatMap_cons, List.append_assoc, List.length_append, List.length_append]
      exact hfirst
  exact hlines p.lines p.cr_not_mem_lines p.utf8_line_ne_nil

theorem padding_block (p : FormPart) (more : List UInt8) :
    padding (p.block ++ more) = p.lwsp.length := by
  obtain ⟨text, hbytes, -⟩ := exists_text_of_lines p.lines_ne_nil p.cr_not_mem_lines
  have hblank : ∀ b ∈ p.lwsp, (b == 32 || b == 9) = true := by
    intro b hb
    rcases p.lwsp_blank b hb with rfl | rfl <;> rfl
  rw [padding, block, hbytes, List.append_assoc, List.takeWhile_append_of_pos hblank,
    List.length_append]
  rfl

/-- The header block of a part ends where it was written. -/
theorem headAt_block (p : FormPart) (more : List UInt8) :
    HeadAt (p.block ++ more) (p.lwsp.length + p.headers.length) := by
  have hpadding := p.padding_block more
  have hfirst := p.firstAt_headers more
  have hdrop : (p.block ++ more).drop p.lwsp.length = p.headers ++ (crlf ++ crlf ++ more) := by
    rw [block, List.append_assoc, List.drop_left, List.append_assoc]
    rfl
  refine ⟨?_, ?_, ?_, fun j hj hlt hat => ?_⟩
  · obtain ⟨text, hbytes, -⟩ := exists_text_of_lines p.lines_ne_nil p.cr_not_mem_lines
    rw [hpadding, hdrop, headers, hbytes]
    rfl
  · rw [hpadding]
    exact Nat.le_add_right _ _
  · rw [← List.startsAt_drop, hdrop]
    exact hfirst.starts
  · rw [hpadding] at hj
    rw [← Nat.add_sub_cancel' hj, ← List.startsAt_drop, hdrop] at hat
    exact hfirst.clean (j - p.lwsp.length) (by omega) hat

/-- **What is read of a block** that was written: its name, if there is no `;` in it. -/
theorem headOf_block (p : FormPart) (hcut : ';' ∉ p.name.toList) (more : List UInt8) :
    ∃ head, headOf (p.block ++ more) (p.lwsp.length + p.headers.length) = some head ∧
      head.name = p.name := by
  obtain ⟨text, hbytes, hsplit⟩ := exists_text_of_lines p.lines_ne_nil p.cr_not_mem_lines
  have htext : ((p.block ++ more).take (p.lwsp.length + p.headers.length)).drop
      (p.lwsp.length + 2) = utf8 text := by
    have hblock : p.block ++ more = p.lwsp ++ (p.headers ++ (crlf ++ crlf ++ more)) := by
      rw [block, List.append_assoc, List.append_assoc]
      rfl
    rw [hblock, List.take_length_add_append, List.take_left, List.drop_length_add_append, headers,
      hbytes]
    rfl
  have hlong : p.lwsp.length + 2 ≤ p.lwsp.length + p.headers.length := by
    rw [headers, hbytes, List.length_append]
    exact Nat.add_le_add_left (Nat.le_add_right _ _) _
  have hparse : ∃ head, parseHead text.toList = (head, true) ∧ head.name = p.name := by
    have hbefore := foldl_headLine_others
      (fun l hl => p.others l (List.mem_append_left _ hl)) (({}, false) : PartHead × Bool)
    generalize hacc : (p.before.map String.toList).foldl headLine ({}, false) = acc at hbefore
    obtain ⟨hname, hnamed⟩ :=
      headLine_disposition p.filename hcut p.name_quotable.quote acc
    obtain ⟨hname', hnamed'⟩ := foldl_headLine_others
      (fun l hl => p.others l (List.mem_append_right _ hl))
      (headLine acc (disposition p.name p.filename).toList)
    refine ⟨(parseHead text.toList).1, Prod.ext rfl ?_, ?_⟩
    · rw [parseHead, hsplit, lines, List.map_append, List.map_cons, List.foldl_append,
        List.foldl_cons, hacc]
      exact hnamed'.trans hnamed
    · rw [parseHead, hsplit, lines, List.map_append, List.map_cons, List.foldl_append,
        List.foldl_cons, hacc]
      exact hname'.trans hname
  obtain ⟨head, hhead, hname⟩ := hparse
  refine ⟨head, ?_, hname⟩
  rw [headOf, p.padding_block more, Nat.min_eq_left hlong, htext, fromUtf8_utf8]
  dsimp only
  rw [hhead]

end FormPart

/-! ## Reading a form -/

section Reading

variable {boundary : String} {epilogue : List UInt8} {mp : Multipart} {stream : List Event}
variable {p : FormPart} {parts : List FormPart}

theorem delimiter_ne_nil (boundary : String) : delimiter boundary ≠ [] := List.cons_ne_nil _ _

/-- `CRLF--boundary` is where it was put. -/
theorem firstAt_delimiter (hcr : '\r' ∉ boundary.toList) {before : List UInt8}
    (hclean : ¬ delimiter boundary <:+: before) (after : List UInt8) :
    FirstAt (delimiter boundary) (before ++ (delimiter boundary ++ after)) before.length := by
  have hrest : (13 : UInt8) ∉ 10 :: (dashes ++ utf8 boundary) := by
    simp only [List.mem_cons, List.mem_append, not_or]
    exact ⟨by decide, by decide, cr_not_mem_utf8 hcr⟩
  rw [← List.append_assoc]
  exact FirstAt.of_append hrest hclean after

/-- A part that was opened: its bytes and its delimiter come next. -/
structure OpenedAt (boundary : String) (rest : List UInt8) (p : FormPart) (mp : Multipart)
    (stream : List Event) : Prop where
  state : mp.state = .inPart
  searched : Searched mp stream
  delim_eq : mp.delim = delimiter boundary
  unread_eq : mp.unread stream = p.value ++ (delimiter boundary ++ rest)

/-- `next_part` opens a part that was written. -/
theorem At.opens_part
    (h : At (delimiter boundary) mp stream
      (behindDelim (delimiter boundary) epilogue (p :: parts)))
    (hcut : ';' ∉ p.name.toList) (hfits : p.block.length ≤ headerCap) :
    ∃ head mp' s', mp.nextPart stream = (.ok (some head), mp', s') ∧ head.name = p.name ∧
      OpenedAt boundary (behindDelim (delimiter boundary) epilogue parts) p mp' s' := by
  have hnext := h.next
  rw [behindDelim] at hnext
  generalize hmore : p.value ++ (delimiter boundary ++
    behindDelim (delimiter boundary) epilogue parts) = more at hnext
  have hhead := p.headAt_block more
  obtain ⟨head, hof, hname⟩ := p.headOf_block hcut more
  have hlength := p.length_block
  generalize mp.nextPart stream = q at hnext ⊢
  obtain ⟨r, mp', s'⟩ := q
  cases hnext with
  | closed hdashes => exact absurd hdashes hhead.not_dashes
  | failed _ hlong => exact absurd (hlong _ _ hhead hof).1 (by omega)
  | part _ hhead' hof' hstate hsearched hdelim hunread =>
    rw [hhead'.unique hhead] at hof' hunread
    cases hof.symm.trans hof'
    refine ⟨_, _, _, rfl, hname, hstate, hsearched, hdelim, ?_⟩
    rw [hunread, ← hlength, List.drop_left, hmore]

/-- `read_part` brings its bytes. -/
theorem OpenedAt.reads {rest : List UInt8} {cap : Nat} (h : OpenedAt boundary rest p mp stream)
    (hcr : '\r' ∉ boundary.toList) (hclean : ¬ delimiter boundary <:+: p.value)
    (hcap : p.value.length ≤ cap) :
    ∃ mp' s', mp.readPart stream cap = (.ok p.value, mp', s') ∧
      At (delimiter boundary) mp' s' rest := by
  have hfirst : FirstAt mp.delim (mp.unread stream) p.value.length := by
    rw [h.delim_eq, h.unread_eq]
    exact firstAt_delimiter hcr hclean rest
  have hafter := (usePart_at (.whole cap) h.state h.searched).1 _ hfirst
  have hdrop : (mp.unread stream).drop (p.value.length + mp.delim.length) = rest := by
    rw [h.unread_eq, h.delim_eq, ← List.drop_drop, List.drop_left, List.drop_left]
  rw [hdrop, h.delim_eq] at hafter
  have hspec : ReadPartSpec cap [] mp stream _ _ _ := readPart_spec h.state h.searched
  dsimp only [usePart] at hafter
  generalize mp.readPart stream cap = q at hspec hafter ⊢
  obtain ⟨r, mp', s'⟩ := q
  cases hspec with
  | whole hfirst' =>
    rw [hfirst'.unique hfirst, List.nil_append, h.unread_eq, List.take_left]
    exact ⟨_, _, rfl, hafter⟩
  | aboveCap _ _ _ _ hlong =>
    have habove := hlong _ hfirst
    rw [List.length_nil] at habove
    omega
  | failed _ _ hnone => exact absurd hfirst.starts (hnone _)

/-- **Run.** The fields are read back, and the reader is behind the next delimiter. -/
theorem readFields_eq {fields : List FormPart} {caps : List Nat}
    (hat : At (delimiter boundary) mp stream
      (behindDelim (delimiter boundary) epilogue (fields ++ parts)))
    (hcr : '\r' ∉ boundary.toList) (hclean : ∀ p ∈ fields, ¬ delimiter boundary <:+: p.value)
    (hcut : ∀ p ∈ fields, ';' ∉ p.name.toList) (hfits : ∀ p ∈ fields, p.block.length ≤ headerCap)
    (hcaps : List.Forall₂ (fun cap p => p.value.length ≤ cap) caps fields) :
    ∃ read mp' s', readFields mp stream caps = (some read, mp', s') ∧
      (read.map fun r => (r.1.name, r.2)) = fields.map (fun p => (p.name, p.value)) ∧
      At (delimiter boundary) mp' s' (behindDelim (delimiter boundary) epilogue parts) := by
  induction hcaps generalizing mp stream with
  | nil => exact ⟨[], mp, stream, rfl, rfl, hat⟩
  | @cons cap p caps fields hcap _ ih =>
    rw [List.forall_mem_cons] at hclean hcut hfits
    obtain ⟨head, mp₁, s₁, hnext, hname, hopened⟩ := hat.opens_part hcut.1 hfits.1
    obtain ⟨mp₂, s₂, hread, hat₂⟩ := hopened.reads hcr hclean.1 hcap
    obtain ⟨read, mp', s', hrest, hnames, hat'⟩ := ih hat₂ hclean.2 hcut.2 hfits.2
    refine ⟨(head, p.value) :: read, mp', s', ?_, ?_, hat'⟩
    · rw [readFields, hnext]
      dsimp only
      rw [hread]
      dsimp only
      rw [hrest]
      rfl
    · rw [List.map_cons, List.map_cons, hnames, hname]

/-- The fields that are read keep to calls that do not fail. -/
theorem readFields_driven {limit : Nat} {first : List Event} {caps : List Nat}
    {read : List (PartHead × List UInt8)} {mp' : Multipart} {s' : List Event}
    (hdriven : Driven boundary limit first mp stream)
    (h : readFields mp stream caps = (some read, mp', s')) : Driven boundary limit first mp' s' := by
  induction caps generalizing mp stream read with
  | nil =>
    cases h
    exact hdriven
  | cons cap caps ih =>
    rw [readFields] at h
    split at h
    · next head mp₁ s₁ hnext =>
      split at h
      · next value mp₂ s₂ hread =>
        have hdriven₂ := (hdriven.part hnext).field hread
        generalize hrest : readFields mp₂ s₂ caps = q at h
        obtain ⟨r, mp₃, s₃⟩ := q
        cases r with
        | none => cases h
        | some rest =>
          cases h
          exact ih hdriven₂ hrest
      · cases h
    · cases h

/-- The file's reader tells its bytes and then the end. -/
theorem OpenedAt.view_eq (h : OpenedAt boundary (dashes ++ epilogue) p mp stream)
    (hcr : '\r' ∉ boundary.toList) (hclean : ¬ delimiter boundary <:+: p.value) :
    mp.view stream = .eof p.value := by
  have hfirst := firstAt_delimiter hcr hclean (dashes ++ epilogue)
  have hlong : ¬ (dashes ++ epilogue).length < 2 := by
    rw [List.length_append]
    exact Nat.not_lt.mpr (Nat.le_add_right _ _)
  rw [view, h.state]
  dsimp only
  rw [h.delim_eq, h.unread_eq, fileVerdict_of_firstAt (delimiter_ne_nil boundary) hfirst,
    ← List.drop_drop, List.drop_left, List.drop_left, List.take_left, closing, if_neg hlong,
    if_pos (List.prefix_append _ _), Verdict.prepend, List.append_nil]

end Reading

/-- Every name that is read has no `;`. -/
theorem partHeaders_clean {mp mp' : Multipart} {s s' : List Event} {head : PartHead}
    (h : mp.partHeaders s = (.ok head, mp', s')) : head.Clean := by
  rw [partHeaders] at h
  split at h
  · cases h
  · split at h
    · cases h
    · next text _ =>
      split at h
      · cases h
      · next hparse =>
        cases h
        have hclean := parseHead_clean text.toList
        rw [hparse] at hclean
        exact hclean

theorem nextPart_clean {mp mp' : Multipart} {s s' : List Event} {head : PartHead}
    (h : mp.nextPart s = (.ok (some head), mp', s')) : head.Clean := by
  have hafter {mp₁ : Multipart} {s₁ : List Event}
      (h : mp₁.afterDelim s₁ = (.ok (some head), mp', s')) : head.Clean := by
    rw [afterDelim] at h
    split at h
    · cases h
    · cases h
    · split at h
      · cases h
      · next hheaders =>
        cases h
        exact partHeaders_clean hheaders
  rw [nextPart] at h
  split at h
  · cases h
  · exact hafter h
  · split at h
    · cases h
    · exact hafter h
  · split at h
    · cases h
    · exact hafter h

theorem readFields_clean {mp mp' : Multipart} {s s' : List Event} {caps : List Nat}
    {read : List (PartHead × List UInt8)} (h : readFields mp s caps = (some read, mp', s')) :
    ∀ r ∈ read, r.1.Clean := by
  induction caps generalizing mp s read with
  | nil =>
    cases h
    exact fun r hr => nomatch hr
  | cons cap caps ih =>
    rw [readFields] at h
    split at h
    · next head mp₁ s₁ hnext =>
      split at h
      · next value mp₂ s₂ hread =>
        generalize hrest : readFields mp₂ s₂ caps = q at h
        obtain ⟨r, mp₃, s₃⟩ := q
        cases r with
        | none => cases h
        | some rest =>
          cases h
          rw [List.forall_mem_cons]
          exact ⟨nextPart_clean hnext, ih hrest⟩
      · cases h
    · cases h

/-! ## The whole form -/

/-- The body, behind the CRLF that the buffer starts with. -/
theorem Form.body_eq (form : Form) : ∃ before, ¬ delimiter form.boundary <:+: before ∧
    crlf ++ form.body = before ++ (delimiter form.boundary ++
      behindDelim (delimiter form.boundary) form.epilogue form.parts) := by
  rw [body]
  cases hpreamble : form.preamble with
  | none =>
    refine ⟨[], ?_, ?_⟩
    · rw [List.infix_nil]
      exact delimiter_ne_nil form.boundary
    · dsimp only
      rw [List.nil_append, delimiter, ← List.append_assoc, ← List.append_assoc]
  | some text =>
    refine ⟨crlf ++ text, form.preamble_clean text hpreamble, ?_⟩
    dsimp only
    rw [← List.append_assoc]

/-- Names that are read back have no `;`. -/
theorem Form.ReadBack.clean {form : Form} {limit : Nat} (h : form.ReadBack limit) :
    ∀ p ∈ form.parts, ';' ∉ p.name.toList := by
  have hcaps : List.Forall₂ (fun cap p => p.value.length ≤ cap)
      (form.fields.map fun p => p.value.length) form.fields :=
    List.forall₂_map_left_iff.mpr (List.forall₂_same.mpr fun p _ => Nat.le_refl _)
  obtain ⟨read, mp, s, head, mp', s', hread, hnames, hnext, hname, -⟩ :=
    h [.frame form.body] _ [] (framing_single form.body) hcaps (fun op hop => nomatch hop)
  have hclean := readFields_clean hread
  intro p hp
  rcases List.mem_append.mp hp with hfield | hfile
  · have hmem : (p.name, p.value) ∈ read.map fun r => (r.1.name, r.2) := by
      rw [hnames]
      exact List.mem_map_of_mem hfield
    obtain ⟨r, hr, heq⟩ := List.mem_map.mp hmem
    rw [← (Prod.mk.inj heq).1]
    exact (hclean r hr).name
  · rw [List.mem_singleton.mp hfile, ← hname]
    exact (nextPart_clean hnext).name

/-- The reader of a form goes on behind its first delimiter. -/
theorem Form.at_first (form : Form) {limit : Nat} {stream : List Event} (hlimit : limit ≤ u64Max)
    (hbody : form.body.length ≤ limit) (hframing : Framing form.body stream) :
    At (delimiter form.boundary) (new form.boundary limit) stream
      (behindDelim (delimiter form.boundary) form.epilogue form.parts) := by
  obtain ⟨before, hbefore, hbody_eq⟩ := form.body_eq
  have hfirst := firstAt_delimiter form.boundary_cr hbefore
    (behindDelim (delimiter form.boundary) form.epilogue form.parts)
  have hat := (at_of_searched (Or.inl rfl) (searched_new form.boundary limit stream)).1
    before.length
  have hdelim : (new form.boundary limit).delim = delimiter form.boundary := rfl
  rw [unread_new hbody hlimit hframing, hbody_eq, hdelim, ← List.drop_drop, List.drop_left,
    List.drop_left] at hat
  exact hat hfirst

/-- **When a form is read back.** In every framing, if no name has a `;`, and in none otherwise. -/
theorem form_read_iff (form : Form) {limit : Nat} (hlimit : limit ≤ u64Max)
    (hbody : form.body.length ≤ limit) (hfits : ∀ p ∈ form.parts, p.block.length ≤ headerCap) :
    form.ReadBack limit ↔ ∀ p ∈ form.parts, ';' ∉ p.name.toList := by
  constructor
  · exact fun h => h.clean
  · intro hcut stream caps ops hframing hcaps hops
    have hfields (p : FormPart) (hp : p ∈ form.fields) : p ∈ form.parts :=
      List.mem_append_left _ hp
    have hfile : form.file ∈ form.parts := List.mem_append_right _ List.mem_cons_self
    obtain ⟨read, mp, s, hread, hnames, hat⟩ :=
      readFields_eq (form.at_first hlimit hbody hframing) form.boundary_cr
        (fun p hp => form.values_clean p (hfields p hp)) (fun p hp => hcut p (hfields p hp))
        (fun p hp => hfits p (hfields p hp)) hcaps
    obtain ⟨head, mp', s', hnext, hname, hopened⟩ :=
      hat.opens_part (hcut _ hfile) (hfits _ hfile)
    have hview := hopened.view_eq form.boundary_cr (form.values_clean _ hfile)
    have htells := runFile_tells (fun _ => hopened.searched) hops
    rw [hview] at htells
    refine ⟨read, mp, s, head, mp', s', hread, hnames, hnext, hname, htells, fun henough => ?_⟩
    -- enough reads come to an end, and none of them fails
    obtain ⟨n, hplaced⟩ := ((readFields_driven .new hread).part hnext).placed
    rcases hplaced.settles hframing hopened.state hops henough with heof | ⟨f, hfailed⟩
    · exact heof
    · exact absurd hfailed (htells.of_eof.2.2 f)

/-- A field as a browser writes it. -/
def Fixture.field (name : String) (value : List UInt8) (h : Quotable name) : FormPart where
  lwsp := []
  before := []
  name := name
  filename := none
  after := []
  value := value
  lwsp_blank := nofun
  name_quotable := h
  filename_quotable := nofun
  others := nofun

/-- A form of one field, without a preamble, and a file of three bytes. -/
def Fixture.form (name : String) (h : Quotable name) : Form where
  boundary := "b"
  preamble := none
  fields := [Fixture.field name (utf8 "self") h]
  file := Fixture.field "file" [1, 2, 3] ⟨by decide, by decide, by decide⟩
  epilogue := []
  boundary_cr := by decide
  preamble_clean := nofun
  values_clean := by
    intro p hp
    rcases List.mem_cons.mp hp with rfl | hp
    · show ¬ delimiter "b" <:+: utf8 "self"
      decide
    · rw [List.mem_singleton.mp hp]
      show ¬ delimiter "b" <:+: [1, 2, 3]
      decide

theorem form_read_cohort :
    (Fixture.form "cohort" ⟨by decide, by decide, by decide⟩).ReadBack u64Max ↔
      ∀ p ∈ (Fixture.form "cohort" ⟨by decide, by decide, by decide⟩).parts,
        ';' ∉ p.name.toList :=
  form_read_iff _ (Nat.le_refl _) (by decide) (by decide)

/-- A field with a `;` between the quotes of its name is not read back. -/
theorem semicolon_form_cut :
    (Fixture.form "a;b" ⟨by decide, by decide, by decide⟩).body.length ≤ u64Max ∧
    (∀ p ∈ (Fixture.form "a;b" ⟨by decide, by decide, by decide⟩).parts,
      p.block.length ≤ headerCap) ∧
    ¬ (Fixture.form "a;b" ⟨by decide, by decide, by decide⟩).ReadBack u64Max := by
  refine ⟨by decide, by decide, fun h => ?_⟩
  exact h.clean _ List.mem_cons_self (by decide)

end CirisServer.Multipart
