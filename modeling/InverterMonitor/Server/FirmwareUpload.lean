import InverterMonitor.Server.HeaderFields

/-!
# Firmware uploads

The multipart body that the dashboard sends, and what `/upload_firmware` makes of it.

* `extractPart_prefix`: a part is found with its content, or not at all when the body
  ends too early;
* `window_silent`: the body's first bytes, read for headers, hold none;
* `upload_exact`: so the firmware is written as it is, or not at all.
-/

namespace InverterMonitor.Http
open Text Cxx Json Rules

/-! ## Parts -/

def fieldSearch (fieldName : String) : Bytes := ascii "name=\"" ++ ascii fieldName ++ ascii "\""

/-- The part stands in the data: the field name first at the end of `u`, the end of the
part's headers at `h` behind it, then the content up to the first delimiter. -/
structure PartAt (delimiter data : Bytes) (fieldName : String) (content u v : Bytes) (h : Nat) :
    Prop where
  data_eq : data = u ++ v
  field : find (fieldSearch fieldName) data = some u.length
  mark : find (lineBreak ++ lineBreak) v = some h
  content_eq : content <+: v.drop (h + 4)
  next : find delimiter (v.drop (h + 4)) = some (content.length + 2)

theorem fieldSearch_ne_nil (fieldName : String) : fieldSearch fieldName ≠ [] := by
  simp [fieldSearch, ascii]

theorem extractPart_eq {delimiter data : Bytes} {fieldName : String} {p r h n : Nat}
    (hfield : find (fieldSearch fieldName) data = some p)
    (hstart : rfind delimiter data p = some r)
    (hmark : findFrom (lineBreak ++ lineBreak) data p = some h)
    (hnext : findFrom delimiter data (h + 4) = some n) (hlong : h + 4 + 2 ≤ n) :
    extractPart delimiter data fieldName = some ((data.drop (h + 4)).take (n - (h + 4) - 2)) := by
  unfold fieldSearch at hfield
  simp only [extractPart, hfield, hstart, hmark, hnext, Option.bind_eq_bind, Option.bind_some,
    if_neg (Nat.not_lt.mpr hlong), Option.pure_def]

theorem extractPart_some {delimiter data value : Bytes} {fieldName : String}
    (h : extractPart delimiter data fieldName = some value) :
    ∃ p r m n, find (fieldSearch fieldName) data = some p ∧ rfind delimiter data p = some r ∧
      findFrom (lineBreak ++ lineBreak) data p = some m ∧
      findFrom delimiter data (m + 4) = some n := by
  obtain ⟨p, hfield, h⟩ := Option.bind_eq_some_iff.mp h
  obtain ⟨r, hstart, h⟩ := Option.bind_eq_some_iff.mp h
  obtain ⟨m, hmark, h⟩ := Option.bind_eq_some_iff.mp h
  obtain ⟨n, hnext, -⟩ := Option.bind_eq_some_iff.mp h
  exact ⟨p, r, m, n, hfield, hstart, hmark, hnext⟩

/-- A part is found with its content in every beginning of the data, or not at all. -/
theorem extractPart_prefix {delimiter data content u v : Bytes} {fieldName : String} {h : Nat}
    (hpart : PartAt delimiter data fieldName content u v h) (hdelimiter : delimiter ≠ [])
    {s value : Bytes} (hs : s <+: data) (hvalue : extractPart delimiter s fieldName = some value) :
    value = content := by
  obtain ⟨rest, hrest⟩ := hs
  obtain ⟨p, r, m, n, hfield, hstart, hmark, hnext⟩ := extractPart_some hvalue
  obtain ⟨m', hmark', rfl⟩ := Option.map_eq_some_iff.mp hmark
  obtain ⟨n', hnext', rfl⟩ := Option.map_eq_some_iff.mp hnext
  -- Each position is that of the whole data.
  have hp : p = u.length := by
    have hsame := find_append (fieldSearch_ne_nil fieldName) hfield rest
    rw [hrest, hpart.field] at hsame
    exact (Option.some.inj hsame).symm
  subst hp
  have hle := find_le (fieldSearch_ne_nil fieldName) hfield
  have hv : s.drop u.length ++ rest = v := by
    rw [← List.drop_append_of_le_length (by omega), hrest, hpart.data_eq, List.drop_left]
  have hm : m' = h := by
    have hsame := find_append headerMark_ne_nil hmark' rest
    rw [hv, hpart.mark] at hsame
    exact (Option.some.inj hsame).symm
  subst hm
  have hle' : m' + 4 ≤ (s.drop u.length).length := find_le headerMark_ne_nil hmark'
  have hdrop : s.drop (m' + u.length + 4) = (s.drop u.length).drop (m' + 4) := by
    rw [List.drop_drop]
    congr 1
    omega
  have hv' : s.drop (m' + u.length + 4) ++ rest = v.drop (m' + 4) := by
    rw [hdrop, ← List.drop_append_of_le_length hle', hv]
  have hn : n' = content.length + 2 := by
    have hsame := find_append hdelimiter hnext' rest
    rw [hv', hpart.next] at hsame
    exact (Option.some.inj hsame).symm
  have hlength := find_le hdelimiter hnext'
  have hcontent : content <+: s.drop (m' + u.length + 4) := by
    refine List.prefix_of_prefix_length_le hpart.content_eq ?_ (by omega)
    rw [← hv']
    exact List.prefix_append _ _
  have hcount : n' + (m' + u.length + 4) - (m' + u.length + 4) - 2 = content.length := by omega
  rw [extractPart_eq hfield hstart hmark hnext (by omega), hcount] at hvalue
  rw [← Option.some.inj hvalue]
  exact (List.prefix_iff_eq_take.mp hcontent).symm

theorem rfind_isSome {pattern s : Bytes} (h : pattern <+: s) (start : Nat) :
    ∃ r, rfind pattern s start = some r := by
  induction start with
  | zero => exact ⟨0, by rw [rfind, if_pos (List.isPrefixOf_iff_prefix.mpr h)]⟩
  | succ start ih =>
    unfold rfind
    split
    · exact ⟨_, rfl⟩
    · exact ih

theorem extractPart_whole {delimiter data content u v : Bytes} {fieldName : String} {h : Nat}
    (hpart : PartAt delimiter data fieldName content u v h) (hbegins : delimiter <+: data) :
    extractPart delimiter data fieldName = some content := by
  obtain ⟨r, hstart⟩ := rfind_isSome hbegins u.length
  have hdrop : data.drop u.length = v := by rw [hpart.data_eq, List.drop_left]
  have hdrop' : data.drop (h + u.length + 4) = v.drop (h + 4) := by
    rw [← hdrop, List.drop_drop]
    congr 1
    omega
  have hmark : findFrom (lineBreak ++ lineBreak) data u.length = some (h + u.length) := by
    rw [findFrom, hdrop, hpart.mark, Option.map_some]
  have hnext : findFrom delimiter data (h + u.length + 4) =
      some (content.length + 2 + (h + u.length + 4)) := by
    rw [findFrom, hdrop', hpart.next, Option.map_some]
  rw [extractPart_eq hpart.field hstart hmark hnext (by omega)]
  congr 1
  have hcount : content.length + 2 + (h + u.length + 4) - (h + u.length + 4) - 2 =
      content.length := by omega
  rw [hcount, hdrop']
  exact (List.prefix_iff_eq_take.mp hpart.content_eq).symm

/-! ## Multipart bodies -/

/-- A delimiter behind a line break is the first one when the content holds none. -/
theorem find_delimiter {delimiter content : Bytes} (hne : delimiter ≠ [])
    (hbytes : ∀ b ∈ delimiter, isSpace b = false) (hfree : ¬delimiter <:+: content)
    (rest : Bytes) :
    find delimiter (content ++ (lineBreak ++ (delimiter ++ rest))) = some (content.length + 2) := by
  rw [find_eq_some_iff hne]
  constructor
  · have hdrop : (content ++ (lineBreak ++ (delimiter ++ rest))).drop (content.length + 2) =
        delimiter ++ rest := by
      rw [← List.drop_drop, List.drop_left]
      rfl
    rw [hdrop]
    exact List.prefix_append _ _
  · intro j hj hbegins
    by_cases hinside : j + delimiter.length ≤ content.length
    · apply hfree
      rw [List.drop_append_of_le_length (by omega)] at hbegins
      have hinitial := List.prefix_of_prefix_length_le hbegins (List.prefix_append _ _)
        (by rw [List.length_drop]; omega)
      exact hinitial.isInfix.trans (List.drop_suffix j content).isInfix
    · -- The occurrence would hold a byte of the line break.
      have hbytes' : ∀ i, i < delimiter.length →
          (content ++ (lineBreak ++ (delimiter ++ rest)))[j + i]? ≠ some carriageReturn ∧
            (content ++ (lineBreak ++ (delimiter ++ rest)))[j + i]? ≠ some newline := by
        intro i hi
        obtain ⟨t, ht⟩ := hbegins
        have hget : (content ++ (lineBreak ++ (delimiter ++ rest)))[j + i]? = delimiter[i]? := by
          rw [← List.getElem?_drop, ← ht, List.getElem?_append_left hi]
        rw [hget, List.getElem?_eq_getElem hi]
        have hspace := hbytes _ (List.getElem_mem hi)
        constructor
        · intro heq
          rw [Option.some.inj heq] at hspace
          cases hspace
        · intro heq
          rw [Option.some.inj heq] at hspace
          cases hspace
      have hpos : 0 < delimiter.length := List.length_pos_of_ne_nil hne
      by_cases hfirst : j ≤ content.length
      · refine (hbytes' (content.length - j) (by omega)).1 ?_
        rw [Nat.add_sub_cancel' hfirst, List.getElem?_append_right (Nat.le_refl _), Nat.sub_self]
        rfl
      · refine (hbytes' 0 hpos).2 ?_
        have hj' : j = content.length + 1 := by omega
        rw [hj', Nat.add_zero, List.getElem?_append_right (by omega), Nat.add_sub_cancel_left]
        rfl

/-- What `uploadFirmwareFile` sends, and the boundary that the browser chooses. -/
structure Upload where
  boundary : Bytes
  sessionId : Bytes
  filename : Bytes
  fileType : Bytes
  firmware : Bytes
  boundary_ne_nil : boundary ≠ []
  boundary_bytes : ∀ b ∈ boundary, isSpace b = false ∧ b ≠ ':' ∧ b ≠ '"'
  isSessionId : IsSessionId sessionId
  filename_bytes : ∀ b ∈ filename, b ≠ '"' ∧ b ≠ carriageReturn ∧ b ≠ newline
  fileType_bytes : ∀ b ∈ fileType, b ≠ carriageReturn ∧ b ≠ newline
  firmware_free : ¬ascii "--" ++ boundary <:+: firmware

namespace Upload

variable (upload : Upload)

def delimiter : Bytes := ascii "--" ++ upload.boundary

def contentType : Bytes := ascii "multipart/form-data; boundary=" ++ upload.boundary

/-- The text up to the name of the first field. -/
def sessionStart : Bytes :=
  upload.delimiter ++ (lineBreak ++ ascii "Content-Disposition: form-data; ")

/-- What stands between the names of the two fields. -/
def between : Bytes :=
  lineBreak ++ (lineBreak ++ (upload.sessionId ++ (lineBreak ++
    (upload.delimiter ++ (lineBreak ++ ascii "Content-Disposition: form-data; ")))))

/-- The text from the name of the first field up to that of the second. -/
def sessionRest : Bytes := fieldSearch "sessionId" ++ upload.between

def fileLine : Bytes :=
  fieldSearch "firmware" ++ (ascii "; filename=\"" ++ (upload.filename ++ ascii "\""))

def fileTypeLine : Bytes := ascii "Content-Type: " ++ upload.fileType

def firmwareHeaders : Bytes := upload.fileLine ++ (lineBreak ++ upload.fileTypeLine)

/-- The text from the name of the second field on. -/
def firmwarePart : Bytes :=
  upload.firmwareHeaders ++ (lineBreak ++ (lineBreak ++ (upload.firmware ++ (lineBreak ++
    (upload.delimiter ++ (ascii "--" ++ lineBreak))))))

/-- The body as `FormData` produces it. -/
def body : Bytes := upload.sessionStart ++ (upload.sessionRest ++ upload.firmwarePart)

theorem delimiter_ne_nil : upload.delimiter ≠ [] := by simp [delimiter, ascii]

theorem delimiter_bytes : ∀ b ∈ upload.delimiter, isSpace b = false ∧ b ≠ ':' ∧ b ≠ '"' := by
  have hdash : ∀ b ∈ ascii "--", isSpace b = false ∧ b ≠ ':' ∧ b ≠ '"' := by decide +kernel
  intro b hb
  rcases List.mem_append.mp hb with hb | hb
  · exact hdash b hb
  · exact upload.boundary_bytes b hb

theorem sessionId_bytes : ∀ b ∈ upload.sessionId,
    b ≠ '-' ∧ b ≠ '"' ∧ b ≠ carriageReturn ∧ isSpace b = false := by
  have hdigits : ∀ b ∈ hexDigits, b ≠ '-' ∧ b ≠ '"' ∧ b ≠ carriageReturn ∧ isSpace b = false := by
    decide +kernel
  exact fun b hb => hdigits b (upload.isSessionId.2 b hb)

theorem carriageReturn_not_mem_delimiter : carriageReturn ∉ upload.delimiter := by
  intro hmem
  have hspace := (upload.delimiter_bytes _ hmem).1
  cases hspace

theorem quote_not_mem_sessionStart : ('"' : Byte) ∉ upload.sessionStart := by
  unfold sessionStart
  simp only [List.mem_append, not_or]
  exact ⟨fun hmem => (upload.delimiter_bytes _ hmem).2.2 rfl, by decide, by decide⟩

theorem sessionId_free : ¬upload.delimiter <:+: upload.sessionId := by
  rintro ⟨s, t, ht⟩
  have hmem : ('-' : Byte) ∈ upload.sessionId := by
    rw [← ht]
    simp [delimiter, ascii]
  exact (upload.sessionId_bytes _ hmem).1 rfl

theorem isSpace_delimiter : ∀ b ∈ upload.delimiter, isSpace b = false :=
  fun b hb => (upload.delimiter_bytes b hb).1

theorem drop_headers (u v : Bytes) :
    (u ++ (lineBreak ++ (lineBreak ++ v))).drop (u.length + 4) = v := by
  rw [← List.drop_drop, List.drop_left]
  rfl

/-- The part of the session id. -/
theorem sessionPart : PartAt upload.delimiter upload.body "sessionId" upload.sessionId
    upload.sessionStart (upload.sessionRest ++ upload.firmwarePart)
      (fieldSearch "sessionId").length := by
  have hdrop : (upload.sessionRest ++ upload.firmwarePart).drop
      ((fieldSearch "sessionId").length + 4) = upload.sessionId ++ (lineBreak ++
        (upload.delimiter ++ (lineBreak ++ (ascii "Content-Disposition: form-data; " ++
          upload.firmwarePart)))) := by
    simp only [sessionRest, between, List.append_assoc]
    exact drop_headers _ _
  refine ⟨rfl, ?_, ?_, ?_, ?_⟩
  · have hfield : fieldSearch "sessionId" =
        ascii "name=" ++ ('"' : Byte) :: ascii "sessionId\"" := rfl
    simp only [body, sessionRest, List.append_assoc]
    rw [hfield]
    simp only [List.append_assoc, List.cons_append]
    exact find_here (by decide) upload.quote_not_mem_sessionStart _
  · have hmark : lineBreak ++ lineBreak = [] ++ carriageReturn :: ascii "\n\r\n" := rfl
    simp only [sessionRest, between, List.append_assoc]
    rw [hmark]
    exact find_here List.not_mem_nil (by decide) _
  · rw [hdrop]
    exact List.prefix_append _ _
  · rw [hdrop]
    exact find_delimiter upload.delimiter_ne_nil upload.isSpace_delimiter upload.sessionId_free _

theorem quote_not_mem_between : ('"' : Byte) ∉ upload.between := by
  unfold between
  simp only [List.mem_append, not_or]
  exact ⟨by decide, by decide, fun hmem => (upload.sessionId_bytes _ hmem).2.1 rfl, by decide,
    fun hmem => (upload.delimiter_bytes _ hmem).2.2 rfl, by decide, by decide⟩

/-- The name of the second field is not found in the first part. -/
theorem find_firmware : find (fieldSearch "firmware") upload.body =
    some (upload.sessionStart ++ upload.sessionRest).length := by
  have hfield : fieldSearch "firmware" = ascii "name=" ++ ('"' : Byte) :: ascii "firmware\"" := rfl
  have hstart : ('"' : Byte) ∉ upload.sessionStart ++ ascii "name=" := by
    rw [List.mem_append, not_or]
    exact ⟨upload.quote_not_mem_sessionStart, by decide⟩
  obtain ⟨tail, htail⟩ : ∃ tail, upload.firmwarePart =
      ascii "name=" ++ ('"' : Byte) :: (ascii "firmware\"" ++ tail) := ⟨_, by
    simp only [firmwarePart, firmwareHeaders, fileLine, hfield, List.append_assoc,
      List.cons_append]
    rfl⟩
  have hbody : upload.body = (upload.sessionStart ++ ascii "name=") ++ ('"' : Byte) ::
      (ascii "sessionId" ++ ('"' : Byte) :: (upload.between ++ upload.firmwarePart)) := by
    simp [body, sessionRest, between, fieldSearch, ascii]
  have hsession : ¬ascii "firmware\"" <+: ascii "sessionId" ++
      ('"' : Byte) :: (upload.between ++ upload.firmwarePart) := by
    rintro ⟨t, ht⟩
    exact absurd (List.cons.inj ht).1 (by decide)
  have hquote : ¬ascii "firmware\"" <+: upload.between ++ upload.firmwarePart := by
    rintro ⟨t, ht⟩
    exact absurd (List.cons.inj ht).1 (by decide)
  rw [hbody, hfield, find_past (by decide) hstart hsession, find_past (by decide) (by decide) hquote,
    htail, find_here (by decide) upload.quote_not_mem_between]
  simp only [Option.map_some, sessionRest, List.length_append, Option.some.injEq]
  have hlength : (fieldSearch "sessionId").length =
      (ascii "name=").length + (ascii "sessionId").length + 2 := rfl
  omega

/-- The file type stands in the second line of the headers, behind which they end. -/
theorem find_firmwareHeaders : find (lineBreak ++ lineBreak) upload.firmwarePart =
    some upload.firmwareHeaders.length := by
  have hmark : lineBreak ++ lineBreak = [] ++ carriageReturn :: ascii "\n\r\n" := rfl
  have hfile : carriageReturn ∉ upload.fileLine := by
    unfold fileLine
    simp only [List.mem_append, not_or]
    exact ⟨by decide, by decide, fun hmem => (upload.filename_bytes _ hmem).2.1 rfl, by decide⟩
  have htype : carriageReturn ∉ newline :: upload.fileTypeLine := by
    unfold fileTypeLine
    simp only [List.mem_cons, List.mem_append, not_or]
    exact ⟨by decide, by decide, fun hmem => (upload.fileType_bytes _ hmem).1 rfl⟩
  obtain ⟨tail, htail⟩ : ∃ tail, upload.firmwarePart = upload.fileLine ++ carriageReturn ::
      ((newline :: upload.fileTypeLine) ++ (carriageReturn :: (ascii "\n\r\n" ++ tail))) := ⟨_, by
    simp only [firmwarePart, firmwareHeaders, List.append_assoc]
    rfl⟩
  have hnot : ¬ascii "\n\r\n" <+:
      (newline :: upload.fileTypeLine) ++ (carriageReturn :: (ascii "\n\r\n" ++ tail)) := by
    rintro ⟨t, ht⟩
    exact absurd (List.cons.inj (List.cons.inj ht).2).1 (by decide)
  have hhere := @find_here carriageReturn [] (ascii "\n\r\n") List.not_mem_nil _ htype tail
  rw [List.nil_append, List.nil_append] at hhere
  rw [htail, hmark, List.nil_append, ← List.nil_append (carriageReturn :: ascii "\n\r\n"),
    find_past List.not_mem_nil hfile hnot, List.nil_append, hhere, Option.map_some]
  have hbreak : lineBreak.length = 2 := rfl
  simp only [firmwareHeaders, List.length_append, List.length_cons, hbreak, Option.some.injEq]
  omega

/-- The part of the firmware. -/
theorem firmwarePartAt : PartAt upload.delimiter upload.body "firmware" upload.firmware
    (upload.sessionStart ++ upload.sessionRest) upload.firmwarePart
      upload.firmwareHeaders.length := by
  have hdrop : upload.firmwarePart.drop (upload.firmwareHeaders.length + 4) =
      upload.firmware ++ (lineBreak ++ (upload.delimiter ++ (ascii "--" ++ lineBreak))) :=
    drop_headers _ _
  refine ⟨?_, upload.find_firmware, upload.find_firmwareHeaders, ?_, ?_⟩
  · rw [body, List.append_assoc]
  · rw [hdrop]
    exact List.prefix_append _ _
  · rw [hdrop]
    exact find_delimiter upload.delimiter_ne_nil upload.isSpace_delimiter upload.firmware_free _

theorem trimString_sessionId : trimString upload.sessionId = upload.sessionId := by
  have hdigits : ∀ b ∈ hexDigits, (b == ' ' || b == '\t' || b == '\r' || b == '\n') = false := by
    decide +kernel
  refine trimBy_of_trimmedBy ⟨fun b hb => ?_, fun hne => ?_⟩
  · exact hdigits b (upload.isSessionId.2 b (List.mem_of_mem_head? hb))
  · exact hdigits _ (upload.isSessionId.2 _ (List.getLast_mem hne))

theorem sessionId_ne_nil : upload.sessionId ≠ [] := by
  intro hnil
  have hlength := upload.isSessionId.1
  rw [hnil] at hlength
  cases hlength

theorem boundaryOf_contentType : boundaryOf upload.contentType = some upload.delimiter := by
  have htype : upload.contentType = ascii "multipart/form-data; " ++
      (ascii "boundary" ++ ('=' : Byte) :: ([] ++ upload.boundary)) := by
    have hliteral : ascii "multipart/form-data; boundary=" =
        ascii "multipart/form-data; " ++ (ascii "boundary" ++ [('=' : Byte)]) := rfl
    rw [contentType, hliteral]
    simp only [List.append_assoc, List.cons_append, List.nil_append]
  have hfind : find (ascii "boundary=") upload.contentType = some 21 := by
    have hpattern : ascii "boundary=" = ascii "boundary" ++ [('=' : Byte)] := rfl
    rw [htype, hpattern, find_here (by decide) (by decide)]
    rfl
  have hdrop : upload.contentType.drop (21 + (ascii "boundary=").length) = upload.boundary := rfl
  have hstrip : stripCarriageReturn upload.delimiter = upload.delimiter := by
    rw [stripCarriageReturn, if_neg]
    intro hlast
    exact upload.carriageReturn_not_mem_delimiter (List.mem_of_getLast? hlast)
  unfold boundaryOf
  simp only [hfind, Option.map_some, hdrop]
  exact congrArg some hstrip

/-- What is read from a beginning of the body, if anything. -/
theorem readUpload_prefix {s : Bytes} (hs : s <+: upload.body) {contentLength : Nat}
    {result : Bytes × Bytes} (h : readUpload ⟨contentLength, upload.contentType⟩ s = .ok result) :
    result = (upload.sessionId, upload.firmware) := by
  cases hsession : extractPart upload.delimiter s "sessionId" with
  | none =>
    simp only [readUpload, boundaryOf_contentType, hsession] at h
    cases h
  | some sessionId =>
    cases hfirmware : extractPart upload.delimiter s "firmware" with
    | none =>
      simp only [readUpload, boundaryOf_contentType, hsession, hfirmware] at h
      cases h
    | some fileContent =>
      have hid := extractPart_prefix upload.sessionPart upload.delimiter_ne_nil hs hsession
      have hcontent := extractPart_prefix upload.firmwarePartAt upload.delimiter_ne_nil hs hfirmware
      simp only [readUpload, boundaryOf_contentType, hsession, hfirmware, hid, hcontent,
        trimString_sessionId, if_neg upload.sessionId_ne_nil] at h
      exact (Except.ok.inj h).symm

theorem readUpload_whole (contentLength : Nat) :
    readUpload ⟨contentLength, upload.contentType⟩ upload.body =
      .ok (upload.sessionId, upload.firmware) := by
  have hbegins : upload.delimiter <+: upload.body := by
    simp only [body, sessionStart, List.append_assoc]
    exact List.prefix_append _ _
  simp only [readUpload, boundaryOf_contentType, extractPart_whole upload.sessionPart hbegins,
    extractPart_whole upload.firmwarePartAt hbegins, trimString_sessionId,
    if_neg upload.sessionId_ne_nil]

/-! ## The first bytes of the body -/

theorem headerName_of_not_mem {headerLine : Bytes} (h : (':' : Byte) ∉ headerLine) :
    headerName headerLine = none := by
  have hstrip : (':' : Byte) ∉ stripCarriageReturn headerLine := by
    unfold stripCarriageReturn
    split
    · exact fun hmem => h (List.mem_of_mem_dropLast hmem)
    · exact h
  rw [headerName, cutAt, if_neg hstrip]
  rfl

theorem disposition_silent : ∀ k < 24,
    headerName ((ascii "Content-Disposition: form-data; ").take k) ≠ some contentLengthName ∧
      headerName ((ascii "Content-Disposition: form-data; ").take k) ≠ some contentTypeName := by
  decide +kernel

/-- The bytes of the body that are read for headers are the first delimiter and the beginning
of a line that is named otherwise. -/
theorem window_silent {s : Bytes} (hs : s <+: upload.body) {headerLine : Bytes}
    (hmem : headerLine ∈ getLines (s.take 28)) :
    headerName headerLine ≠ some contentLengthName ∧
      headerName headerLine ≠ some contentTypeName := by
  have hpos := List.length_pos_of_ne_nil upload.boundary_ne_nil
  have hdelimiter : upload.delimiter.length = upload.boundary.length + 2 := by
    simp [delimiter, ascii]
  have hcolon : (':' : Byte) ∉ upload.delimiter ++ [carriageReturn] := by
    rw [List.mem_append, not_or]
    exact ⟨fun hmem => (upload.delimiter_bytes _ hmem).2.1 rfl, by decide⟩
  have hnewline : newline ∉ upload.delimiter ++ [carriageReturn] := by
    rw [List.mem_append, not_or]
    refine ⟨fun hmem => ?_, by decide⟩
    have hspace := upload.isSpace_delimiter _ hmem
    cases hspace
  have hsilent : (':' : Byte) ∉ headerLine → headerName headerLine ≠ some contentLengthName ∧
      headerName headerLine ≠ some contentTypeName := by
    intro h
    rw [headerName_of_not_mem h]
    exact ⟨Option.some_ne_none _ ∘ Eq.symm, Option.some_ne_none _ ∘ Eq.symm⟩
  obtain ⟨tail, htail⟩ : ∃ tail, upload.body = (upload.delimiter ++ [carriageReturn]) ++
      newline :: (ascii "Content-Disposition: form-data; " ++ tail) := ⟨_, by
    simp only [body, sessionStart, List.append_assoc]
    rfl⟩
  have hwindow : s.take 28 <+: (upload.delimiter ++ [carriageReturn]) ++
      newline :: (ascii "Content-Disposition: form-data; " ++ tail) := by
    rw [← htail]
    exact (List.take_prefix 28 s).trans hs
  have hlength := List.length_take_le 28 s
  generalize s.take 28 = text at hmem hwindow hlength
  by_cases hshort : text.length ≤ (upload.delimiter ++ [carriageReturn]).length
  · -- a beginning of the delimiter line
    have hinitial := List.prefix_of_prefix_length_le hwindow (List.prefix_append _ _) hshort
    have hnone : newline ∉ text := fun hmem => hnewline (hinitial.subset hmem)
    rw [getLines, splitLines_unfinished hnone] at hmem
    split at hmem
    · cases hmem
    · have heq : headerLine = text := List.mem_singleton.mp hmem
      rw [heq] at hsilent ⊢
      exact hsilent fun hmem => hcolon (hinitial.subset hmem)
  · -- the delimiter line and the beginning of the next one
    obtain ⟨w, rfl⟩ := List.prefix_of_prefix_length_le (List.prefix_append _ _) hwindow (by omega)
    obtain ⟨r, hr⟩ := hwindow
    rw [List.append_assoc, List.append_cancel_left_eq] at hr
    cases w with
    | nil =>
      rw [List.append_nil] at hshort
      exact absurd (Nat.le_refl _) hshort
    | cons b u =>
      obtain ⟨rfl, hu⟩ := List.cons.inj hr
      simp only [List.length_append, List.length_cons, List.length_nil] at hlength
      have hinitial : u <+: ascii "Content-Disposition: form-data; " := by
        refine List.prefix_of_prefix_length_le ⟨r, hu⟩ (List.prefix_append _ _) ?_
        have : (ascii "Content-Disposition: form-data; ").length = 32 := rfl
        omega
      have hnone : newline ∉ u := by
        have hliteral : newline ∉ ascii "Content-Disposition: form-data; " := by decide
        exact fun hmem => hliteral (hinitial.subset hmem)
      rw [getLines, splitLines_line _ hnewline, splitLines_unfinished hnone] at hmem
      have hcases : headerLine = upload.delimiter ++ [carriageReturn] ∨ headerLine = u := by
        split at hmem
        · exact Or.inl (List.mem_singleton.mp hmem)
        · simpa using hmem
      rcases hcases with rfl | rfl
      · exact hsilent hcolon
      · have hsame := disposition_silent headerLine.length (by omega)
        rwa [← List.prefix_iff_eq_take.mp hinitial] at hsame

/-! ## The request -/

def uploadLine : Bytes := ascii "POST /upload_firmware HTTP/1.1"

/-- The header fields give the length and the type of the body, and possibly more. -/
structure Announced (fields : List Field) : Prop where
  wellFormed : ∀ field ∈ fields, field.WellFormed
  length : ∀ field ∈ fields, lower field.name = contentLengthName →
    field.value = decimal upload.body.length
  type : ∀ field ∈ fields, lower field.name = contentTypeName → field.value = upload.contentType
  has_length : ∃ field ∈ fields, lower field.name = contentLengthName
  has_type : ∃ field ∈ fields, lower field.name = contentTypeName

theorem exists_isHead_upload {fields : List Field} (hfields : upload.Announced fields) :
    ∃ line, IsHead uploadLine (blockText fields) line ∧ line.method = ascii "POST" ∧
      line.path = ascii "/upload_firmware" := by
  have hreturn : carriageReturn ∉ uploadLine := by decide
  have hwords : requestWords uploadLine = (ascii "POST", ascii "/upload_firmware") := by decide
  exact ⟨_, isHead_fields hreturn hfields.wellFormed, congrArg Prod.fst hwords,
    congrArg Prod.snd hwords⟩

theorem blockHeaders_upload {fields : List Field} (hfields : upload.Announced fields)
    (hsize : upload.body.length < 2 ^ 64) :
    blockHeaders uploadLine (blockText fields) =
      .ok ⟨upload.body.length, upload.contentType⟩ := by
  have hlength : ∀ field ∈ fields, lower field.name = contentLengthName →
      stoul field.value = .ok (UInt64.ofNat upload.body.length) := by
    intro field hfield hname
    rw [hfields.length field hfield hname]
    exact stoul_decimal_of_lt hsize
  rw [blockHeaders_fields (by decide) hfields.wellFormed hlength hfields.type hfields.has_length
    hfields.has_type, UInt64.toNat_ofNat_of_lt' hsize]

/-- With the headers in its first piece, the request is received with as much of the body
as arrives. -/
theorem receive_upload {fields : List Field} (hfields : upload.Announced fields)
    (hsize : upload.body.length < 2 ^ 64) {received chunk : Bytes} {chunks : List Bytes}
    (hreceived : received <+: upload.body)
    (hpieces : Pieces (headText uploadLine (blockText fields) ++ received) (chunk :: chunks))
    (hhead : headText uploadLine (blockText fields) <+: chunk) :
    ∃ line, isUpload line = true ∧ receive (fun _ => true) (chunk :: chunks) =
      .ok (.request line ⟨upload.body.length, upload.contentType⟩ received) := by
  obtain ⟨line, hfirst, hmethod, hpath⟩ := upload.exists_isHead_upload hfields
  obtain ⟨s, rfl⟩ := hhead
  have hs : s ++ chunks.flatten = received := by
    have hflatten := hpieces.flatten
    rwa [List.flatten_cons, List.append_assoc, List.append_cancel_left_eq] at hflatten
  have hline := readRequestLine_append hfirst.read s
  -- The beginning of the body changes no header.
  have hheaders : readHeaders (headText uploadLine (blockText fields) ++ s) line =
      .ok ⟨upload.body.length, upload.contentType⟩ := by
    have hinitial : s <+: upload.body := by
      refine List.IsPrefix.trans ?_ hreceived
      rw [← hs]
      exact List.prefix_append _ _
    rw [readHeaders_body hfirst, upload.blockHeaders_upload hfields hsize, ok_bind]
    refine foldlM_same fun headerLine hmem => ?_
    obtain ⟨hlength, htype⟩ := upload.window_silent hinitial hmem
    exact readHeader_other hlength htype _
  have hbody : readBody (headText uploadLine (blockText fields) ++ s) line
      ⟨upload.body.length, upload.contentType⟩ chunks = received := by
    have hend : line.headerEnd + 4 = (headText uploadLine (blockText fields)).length := by
      rw [hfirst.headerEnd, length_headText]
    rw [readBody_flatten hline fun other hother =>
        hpieces.nonempty other (List.mem_cons_of_mem _ hother),
      hpieces.flatten, hend, List.drop_left]
    exact List.take_of_length_le hreceived.length_le
  have hoptions : line.method ≠ ascii "OPTIONS" := by
    rw [hmethod]
    decide
  refine ⟨line, decide_eq_true ⟨hmethod, hpath⟩, ?_⟩
  unfold receive
  simp only [hline, if_neg hoptions, ↓reduceIte, hheaders, ok_map, hbody]

/-! ## Exact or absent -/

theorem body_ne_nil : upload.body ≠ [] := by simp [body, sessionStart, lineBreak, ascii]

theorem find_multipart : find (ascii "multipart/form-data") upload.contentType ≠ none := by
  have hliteral : ascii "multipart/form-data; boundary=" =
      ascii "multipart/form-data" ++ ascii "; boundary=" := rfl
  have hbegins : ascii "multipart/form-data" <+: upload.contentType.drop 0 := by
    rw [List.drop_zero, contentType, hliteral, List.append_assoc]
    exact List.prefix_append _ _
  obtain ⟨i, hi⟩ := find_isSome hbegins
  rw [hi]
  exact Option.some_ne_none i

/-- The handler answers, by what `handleUpload` makes of the part of the body. -/
theorem handleCommandRequest_upload {fields : List Field} (hfields : upload.Announced fields)
    (hsize : upload.body.length < 2 ^ 64) {received chunk : Bytes} {chunks : List Bytes}
    (hreceived : received <+: upload.body)
    (hpieces : Pieces (headText uploadLine (blockText fields) ++ received) (chunk :: chunks))
    (hhead : headText uploadLine (blockText fields) <+: chunk) (env : Environment)
    (server : Server) :
    handleCommandRequest env (chunk :: chunks) server =
      .ok (handleUpload env ⟨upload.body.length, upload.contentType⟩ received server) := by
  obtain ⟨line, hupload, hreceive⟩ :=
    upload.receive_upload hfields hsize hreceived hpieces hhead
  have hlength := List.length_pos_of_ne_nil upload.body_ne_nil
  have hinvalid : ¬(upload.body.length = 0 ∨
      find (ascii "multipart/form-data") upload.contentType = none) :=
    not_or.mpr ⟨by omega, upload.find_multipart⟩
  rw [handleCommandRequest_receive, hreceive, raise_ok, ok_bind, actOn, if_pos hupload,
    if_neg hinvalid]

/-- What can be opened has room for the whole content. -/
def Writable (env : Environment) (fileContent : Bytes) : Prop :=
  ∀ room, env.firmwareRoom = some room → fileContent.length ≤ room

theorem writeFirmware_firmware {env : Environment} {fileContent : Bytes}
    (hwrites : Writable env fileContent) (server : Server) :
    (writeFirmware env fileContent server).server.firmware =
      if env.firmwareRoom = none then server.firmware else some fileContent := by
  unfold writeFirmware
  cases hroom : env.firmwareRoom with
  | none => rw [if_pos rfl]
  | some room =>
    rw [if_neg (Option.some_ne_none room)]
    simp only [List.take_of_length_le (hwrites room hroom)]

/-- The uploaded session id decides what happens to the uploaded firmware. -/
theorem handleUpload_ok {env : Environment} {headers : Headers} {s : Bytes}
    {sessionId fileContent : Bytes} (h : readUpload headers s = .ok (sessionId, fileContent))
    (hwrites : Writable env fileContent) (server : Server) :
    (handleUpload env headers s server).server.firmware =
      if sessionId ∉ (env.cleaned server).validSessions ∨ env.firmwareRoom = none then
        server.firmware
      else some fileContent := by
  unfold handleUpload
  rw [h]
  rcases acceptSession_cases env sessionId server with ⟨hid, haccept⟩ | ⟨hid, haccept⟩
  · simp only [haccept, hid, ↓reduceIte, not_true_eq_false, false_or]
    exact writeFirmware_firmware hwrites _
  · simp only [haccept, if_pos (Or.inl hid), Bool.false_eq_true, ↓reduceIte]

end Upload

/-- However the request is cut into pieces behind its headers and wherever its body ends,
the firmware is written as it was sent or the file keeps its content, and it is written
when the whole body arrives. -/
theorem upload_exact (upload : Upload) {fields : List Field} (hfields : upload.Announced fields)
    (hsize : upload.body.length < 2 ^ 64) {received chunk : Bytes} {chunks : List Bytes}
    (hreceived : received <+: upload.body)
    (hpieces : Pieces (headText Upload.uploadLine (blockText fields) ++ received)
      (chunk :: chunks))
    (hhead : headText Upload.uploadLine (blockText fields) <+: chunk)
    {env : Environment} (hwrites : Upload.Writable env upload.firmware) (server : Server) :
    ∃ outcome, handleCommandRequest env (chunk :: chunks) server = .ok outcome ∧
      (outcome.server.firmware = some upload.firmware ∨
        outcome.server.firmware = server.firmware) ∧
      (received = upload.body → upload.sessionId ∈ (env.cleaned server).validSessions →
        env.firmwareRoom ≠ none → outcome.server.firmware = some upload.firmware) := by
  refine ⟨_, upload.handleCommandRequest_upload hfields hsize hreceived hpieces hhead env server,
    ?_, ?_⟩
  · cases hread : readUpload ⟨upload.body.length, upload.contentType⟩ received with
    | error reply =>
      right
      unfold handleUpload
      rw [hread]
    | ok result =>
      have hresult := upload.readUpload_prefix hreceived hread
      rw [hresult] at hread
      rw [Upload.handleUpload_ok hread hwrites]
      exact (ite_eq_or_eq _ _ _).symm
  · intro hwhole hsession hopens
    rw [hwhole, Upload.handleUpload_ok (upload.readUpload_whole _) hwrites,
      if_neg (not_or.mpr ⟨not_not.mpr hsession, hopens⟩)]

theorem x_ne_nil : ascii "X" ≠ [] := List.cons_ne_nil _ _

theorem x_bytes : ∀ b ∈ ascii "X", isSpace b = false ∧ b ≠ ':' ∧ b ≠ '"' := by decide +kernel

theorem zeroSession_isSessionId : IsSessionId (generateSessionId fun _ => 0) :=
  generateSessionId_isSessionId _

theorem inverterBin_bytes :
    ∀ b ∈ ascii "inverter.bin", b ≠ '"' ∧ b ≠ carriageReturn ∧ b ≠ newline := by
  decide +kernel

theorem octetStream_bytes :
    ∀ b ∈ ascii "application/octet-stream", b ≠ carriageReturn ∧ b ≠ newline := by
  decide +kernel

theorem ab_free : ¬ascii "--" ++ ascii "X" <:+: ascii "AB" := by decide +kernel

/-- A firmware of two bytes, in one piece. -/
def smallUpload : Upload where
  boundary := ascii "X"
  sessionId := generateSessionId fun _ => 0
  filename := ascii "inverter.bin"
  fileType := ascii "application/octet-stream"
  firmware := ascii "AB"
  boundary_ne_nil := x_ne_nil
  boundary_bytes := x_bytes
  isSessionId := zeroSession_isSessionId
  filename_bytes := inverterBin_bytes
  fileType_bytes := octetStream_bytes
  firmware_free := ab_free

def smallUploadFields : List Field :=
  [⟨ascii "Host", ascii "inverter"⟩, ⟨ascii "Content-Length", ascii "319"⟩,
    ⟨ascii "Content-Type", ascii "multipart/form-data; boundary=X"⟩]

theorem smallUpload_announced : smallUpload.Announced smallUploadFields where
  wellFormed := by
    intro field hfield
    simp only [smallUploadFields, List.mem_cons, List.not_mem_nil, or_false] at hfield
    rcases hfield with rfl | rfl | rfl <;> constructor <;> decide +kernel
  length := by decide +kernel
  type := by decide +kernel
  has_length := by decide +kernel
  has_type := by decide +kernel

theorem empty_generated (id : Bytes) (h : id ∈ (∅ : Std.ExtTreeMap Bytes Time)) :
    IsSessionId id :=
  absurd h Std.ExtTreeMap.not_mem_empty

def smallUploadServer : Server where
  sessions := Sessions.touch { generated := empty_generated } smallUpload.sessionId 0
    smallUpload.isSessionId

/-- In two pieces, with its session open and room for two bytes. -/
theorem small_upload_written : ∃ outcome, handleCommandRequest { firmwareRoom := some 2 }
    [headText Upload.uploadLine (blockText smallUploadFields), smallUpload.body] smallUploadServer =
      .ok outcome ∧ outcome.server.firmware = some (ascii "AB") := by
  have hpieces : Pieces (headText Upload.uploadLine (blockText smallUploadFields) ++
      smallUpload.body)
      [headText Upload.uploadLine (blockText smallUploadFields), smallUpload.body] := by
    refine ⟨by simp, ?_, ?_⟩ <;> decide +kernel
  have hwrites : Upload.Writable { firmwareRoom := some 2 } smallUpload.firmware := by
    intro room hroom
    exact Nat.le_of_eq (Option.some.inj hroom)
  have hsize : smallUpload.body.length < 2 ^ 64 := by decide +kernel
  obtain ⟨outcome, hrequest, -, hwritten⟩ := upload_exact smallUpload smallUpload_announced hsize
    (List.prefix_refl _) hpieces (List.prefix_refl _) hwrites smallUploadServer
  have hvalid : smallUpload.sessionId ∈
      (Environment.cleaned { firmwareRoom := some 2 } smallUploadServer).validSessions :=
    Std.ExtTreeMap.mem_insert_self
  exact ⟨outcome, hrequest, hwritten rfl hvalid (Option.some_ne_none 2)⟩

end InverterMonitor.Http
