import InverterMonitor.Server.Segmentation

/-!
# The text that is searched for headers

Both handlers take `headerEnd` bytes behind the request line, counted from the end of
the line instead of the start of the request, so that the first bytes of the body are
read as header lines as well.

* `readHeaders_body`: the body's share of the searched text;
* `headersFixed_iff`: two bodies behind one head make no difference exactly when that
  share is too short for a header.
-/

namespace InverterMonitor.Http
open Text Cxx Json Rules

/-! ## Heads of requests -/

/-- The request line and the header block, with the empty line behind it. -/
def headText (first block : Bytes) : Bytes := first ++ (lineBreak ++ (block ++ lineBreak))

/-- The request line and the header block that the handlers find. -/
structure IsHead (first block : Bytes) (line : RequestLine) : Prop where
  read : readRequestLine (headText first block) = .ok line
  lineEnd : line.lineEnd = first.length
  headerEnd : line.headerEnd = first.length + block.length

theorem length_headText (first block : Bytes) :
    (headText first block).length = first.length + block.length + 4 := by
  simp [headText, lineBreak, ascii]
  omega

theorem find_of_append {pattern s t : Bytes} {i : Nat} (hpattern : pattern ≠ [])
    (h : find pattern (s ++ t) = some i) (hi : i + pattern.length ≤ s.length) :
    find pattern s = some i := by
  obtain ⟨hbegins, hfirst⟩ := (find_eq_some_iff hpattern).mp h
  rw [find_eq_some_iff hpattern]
  constructor
  · rw [List.drop_append_of_le_length (by omega)] at hbegins
    apply List.prefix_of_prefix_length_le hbegins (List.prefix_append _ t)
    rw [List.length_drop]
    omega
  · intro j hj hother
    apply hfirst j hj
    rw [List.drop_append_of_le_length (by omega)]
    exact hother.trans (List.prefix_append _ _)

/-- The request line of a text that holds the empty line is that of every longer text. -/
theorem readRequestLine_of_append {s t : Bytes} {line : RequestLine}
    (h : readRequestLine (s ++ t) = .ok line) (hs : line.headerEnd + 4 ≤ s.length) :
    readRequestLine s = .ok line := by
  obtain ⟨hmark, _⟩ := readRequestLine_ok h
  obtain ⟨other, hother, _⟩ := readRequestLine_found (find_of_append headerMark_ne_nil hmark hs)
  rw [readRequestLine_append hother t] at h
  rw [hother, h]

/-- Every request that is read begins with a head. -/
theorem exists_isHead {request : Bytes} {line : RequestLine}
    (h : readRequestLine request = .ok line) :
    ∃ first block body, IsHead first block line ∧ request = headText first block ++ body := by
  obtain ⟨hmark, hline⟩ := readRequestLine_ok h
  have hend : line.headerEnd + 4 ≤ request.length := find_le headerMark_ne_nil hmark
  obtain ⟨hbegins, hfirst⟩ := (find_eq_some_iff lineBreak_ne_nil).mp hline
  obtain ⟨⟨body, hbody⟩, _⟩ := (find_eq_some_iff headerMark_ne_nil).mp hmark
  obtain ⟨rest, hrest⟩ := hbegins
  have hle : line.lineEnd ≤ line.headerEnd := by
    by_contra hlt
    apply hfirst line.headerEnd (by omega)
    rw [← hbody, List.append_assoc]
    exact List.prefix_append _ _
  have hrest' : rest = request.drop (line.lineEnd + 2) := by
    rw [← List.drop_drop, ← hrest]
    rfl
  have hbody' : lineBreak ++ body = request.drop (line.headerEnd + 2) := by
    rw [← List.drop_drop, ← hbody]
    rfl
  have hsplit : request = headText (request.take line.lineEnd)
      (rest.take (line.headerEnd - line.lineEnd)) ++ body := by
    have hdrop : rest.drop (line.headerEnd - line.lineEnd) = lineBreak ++ body := by
      rw [hrest', List.drop_drop, hbody']
      congr 1
      omega
    calc request = request.take line.lineEnd ++ request.drop line.lineEnd :=
          (List.take_append_drop _ _).symm
      _ = request.take line.lineEnd ++ (lineBreak ++
            (rest.take (line.headerEnd - line.lineEnd) ++ (lineBreak ++ body))) := by
          rw [← hrest, ← hdrop, List.take_append_drop]
      _ = _ := by simp only [headText, List.append_assoc]
  have hfirstLength : (request.take line.lineEnd).length = line.lineEnd := by
    rw [List.length_take]
    omega
  have hblockLength : (rest.take (line.headerEnd - line.lineEnd)).length =
      line.headerEnd - line.lineEnd := by
    rw [List.length_take, hrest', List.length_drop]
    omega
  refine ⟨_, _, body, ⟨?_, hfirstLength.symm, by omega⟩, hsplit⟩
  rw [hsplit] at h
  refine readRequestLine_of_append h ?_
  rw [length_headText]
  omega

/-! ## The searched text -/

theorem rest_append_newline (s : Bytes) : (splitLines (s ++ [newline])).2 = [] := by
  rw [splitLines_append, splitLines_line [] (newline_not_mem_rest s)]
  rfl

theorem getLines_append_newline (s t : Bytes) :
    getLines (s ++ [newline] ++ t) = getLines (s ++ [newline]) ++ getLines t := by
  have hsplit := splitLines_append (s ++ [newline]) t
  have hrest := rest_append_newline s
  rw [hrest, List.nil_append] at hsplit
  unfold getLines
  rw [hsplit, hrest, if_pos rfl]
  simp only
  split
  · rfl
  · rw [List.append_assoc]

/-- The headers of the head alone. -/
def blockHeaders (first block : Bytes) : Except Exception Headers :=
  (getLines ((block ++ lineBreak).take (first.length + block.length))).foldlM readHeader {}

/-- The headers are read on through the first bytes of the body, as many as the request
line has but two. -/
theorem readHeaders_body {first block : Bytes} {line : RequestLine} (h : IsHead first block line)
    (body : Bytes) :
    readHeaders (headText first block ++ body) line =
      blockHeaders first block >>= fun headers =>
        (getLines (body.take (first.length - 2))).foldlM readHeader headers := by
  have hdrop : (headText first block ++ body).drop (line.lineEnd + 2) =
      block ++ lineBreak ++ body := by
    rw [h.lineEnd, ← List.drop_drop, headText, List.append_assoc, List.drop_left]
    rw [List.append_assoc]
    rfl
  have hbreak : (block ++ lineBreak).length = block.length + 2 := by simp [lineBreak, ascii]
  have htake : (block ++ lineBreak ++ body).take line.headerEnd =
      (block ++ lineBreak).take (first.length + block.length) ++ body.take (first.length - 2) := by
    rw [List.take_append, h.headerEnd, hbreak]
    congr 2
    omega
  unfold readHeaders blockHeaders
  rw [hdrop, htake]
  by_cases hshort : first.length < 2
  · have hnone : first.length - 2 = 0 := by omega
    rw [hnone, List.take_zero, List.append_nil]
    exact (bind_pure _).symm
  · have hwhole : (block ++ lineBreak).take (first.length + block.length) =
        block ++ [carriageReturn] ++ [newline] := by
      rw [List.take_of_length_le (by omega), List.append_assoc]
      rfl
    rw [hwhole, getLines_append_newline, List.foldlM_append]

/-! ## Header lines -/

def headerName (headerLine : Bytes) : Option Bytes :=
  (cutAt ':' (stripCarriageReturn headerLine)).map fun header => lower (trimString header.1)

def contentLengthName : Bytes := ascii "content-length"
def contentTypeName : Bytes := ascii "content-type"

theorem readHeader_length {headerLine : Bytes} (h : headerName headerLine ≠ some contentLengthName)
    (headers : Headers) : ∃ after, readHeader headers headerLine = .ok after ∧
      after.contentLength = headers.contentLength := by
  unfold headerName at h
  unfold readHeader
  cases hcut : cutAt ':' (stripCarriageReturn headerLine) with
  | none => exact ⟨headers, rfl, rfl⟩
  | some header =>
    obtain ⟨name, value⟩ := header
    rw [hcut, Option.map_some] at h
    have hname : lower (trimString name) ≠ ascii "content-length" :=
      fun hname => h (congrArg some hname)
    simp only [if_neg hname]
    split
    · exact ⟨_, rfl, rfl⟩
    · exact ⟨_, rfl, rfl⟩

theorem readHeader_other {headerLine : Bytes} (hlength : headerName headerLine ≠ some contentLengthName)
    (htype : headerName headerLine ≠ some contentTypeName) (headers : Headers) :
    readHeader headers headerLine = .ok headers := by
  unfold headerName at hlength htype
  unfold readHeader
  cases hcut : cutAt ':' (stripCarriageReturn headerLine) with
  | none => rfl
  | some header =>
    obtain ⟨name, value⟩ := header
    rw [hcut, Option.map_some] at hlength htype
    have hname : lower (trimString name) ≠ ascii "content-length" :=
      fun hname => hlength (congrArg some hname)
    have hname' : lower (trimString name) ≠ ascii "content-type" :=
      fun hname => htype (congrArg some hname)
    simp only [if_neg hname, if_neg hname']

theorem length_trimString_le (s : Bytes) : (trimString s).length ≤ s.length := by
  obtain ⟨before, after, _, _, heq, _⟩ :=
    exists_trimBy (fun b => b == ' ' || b == '\t' || b == '\r' || b == '\n') s
  have hlength := congrArg List.length heq
  rw [List.length_append, List.length_append] at hlength
  unfold trimString
  omega

/-- A line is as long as its name, its colon and its value. -/
theorem length_header {headerLine name value : Bytes}
    (h : cutAt ':' (stripCarriageReturn headerLine) = some (name, value)) :
    (lower (trimString name)).length + 1 + value.length ≤ headerLine.length := by
  have hname := length_trimString_le name
  have hline : (stripCarriageReturn headerLine).length ≤ headerLine.length := by
    unfold stripCarriageReturn
    split
    · rw [List.length_dropLast]
      omega
    · exact Nat.le_refl _
  have hsplit := congrArg List.length (cutAt_eq_some_iff.mp h).2
  rw [List.length_append, List.length_cons] at hsplit
  rw [lower, List.length_map]
  omega

theorem length_of_headerName {headerLine name : Bytes} (h : headerName headerLine = some name) :
    name.length + 1 ≤ headerLine.length := by
  obtain ⟨⟨front, value⟩, hcut, rfl⟩ := Option.map_eq_some_iff.mp h
  have := length_header hcut
  simp only
  omega

/-- A line that has room for the name of a content type only. -/
theorem readHeader_short {headerLine : Bytes} {headers : Headers} (hline : headerLine.length ≤ 13)
    (htype : headerLine.length = 13 → headers.contentType = []) :
    readHeader headers headerLine = .ok headers := by
  have hlength : headerName headerLine ≠ some contentLengthName := by
    intro h
    have hle : 14 + 1 ≤ headerLine.length := length_of_headerName h
    omega
  by_cases hname : headerName headerLine = some contentTypeName
  · obtain ⟨⟨name, value⟩, hcut, hname⟩ := Option.map_eq_some_iff.mp hname
    simp only at hname
    have hparts := length_header hcut
    rw [hname, show contentTypeName.length = 12 from rfl] at hparts
    have hvalue : value = [] := List.eq_nil_of_length_eq_zero (by omega)
    have hempty := htype (by omega)
    unfold readHeader
    rw [hcut]
    simp only [hname]
    rw [if_neg (by decide), if_pos (show contentTypeName = ascii "content-type" from rfl), hvalue]
    have htrim : trimString [] = headers.contentType := hempty.symm
    rw [htrim]
  · exact readHeader_other hlength hname headers

theorem length_of_mem_splitLines (s : Bytes) :
    (∀ line ∈ (splitLines s).1, line.length ≤ s.length) ∧ (splitLines s).2.length ≤ s.length := by
  induction s with
  | nil => simp
  | cons b s ih =>
    by_cases hb : b = newline
    · rw [hb, splitLines_newline]
      simp only [List.mem_cons, forall_eq_or_imp, List.length_nil, List.length_cons]
      exact ⟨⟨by omega, fun line hline => (ih.1 line hline).trans (Nat.le_succ _)⟩,
        ih.2.trans (Nat.le_succ _)⟩
    · rw [splitLines_cons s hb]
      cases hlines : (splitLines s).1 with
      | nil =>
        rw [hlines] at ih
        simp [ih.2]
      | cons line lines =>
        rw [hlines] at ih
        simp only [List.mem_cons, forall_eq_or_imp, List.length_cons] at ih ⊢
        refine ⟨⟨by omega, fun other hother => ?_⟩, by omega⟩
        have := ih.1.2 other hother
        omega

theorem length_of_mem_getLines {s line : Bytes} (h : line ∈ getLines s) :
    line.length ≤ s.length := by
  have hall := length_of_mem_splitLines s
  unfold getLines at h
  split at h
  · exact hall.1 line h
  · rcases List.mem_append.mp h with h | h
    · exact hall.1 line h
    · rw [List.mem_singleton.mp h]
      exact hall.2

theorem foldlM_same {lines : List Bytes} {headers : Headers}
    (h : ∀ line ∈ lines, readHeader headers line = .ok headers) :
    lines.foldlM readHeader headers = .ok headers := by
  induction lines with
  | nil => rfl
  | cons line lines ih =>
    rw [List.foldlM_cons, h line (by simp)]
    exact ih fun other hother => h other (List.mem_cons_of_mem _ hother)

theorem foldlM_length {lines : List Bytes}
    (h : ∀ line ∈ lines, headerName line ≠ some contentLengthName) (headers : Headers) :
    ∃ after, lines.foldlM readHeader headers = .ok after ∧
      after.contentLength = headers.contentLength := by
  induction lines generalizing headers with
  | nil => exact ⟨headers, rfl, rfl⟩
  | cons line lines ih =>
    obtain ⟨next, hnext, hsame⟩ := readHeader_length (h line (by simp)) headers
    obtain ⟨after, hafter, hlength⟩ := ih (fun other hother => h other (List.mem_cons_of_mem _ hother)) next
    refine ⟨after, ?_, hlength.trans hsame⟩
    rw [List.foldlM_cons, hnext]
    exact hafter

/-! ## Two bodies -/

/-- The headers that a handler has before it acts. -/
def Received.headers : Received → Option Headers
  | .silent => none
  | .refused _ => none
  | .request _ headers _ => some headers

/-- What a handler derives from the headers. -/
def derived {α : Type} (wanted : RequestLine → Bool) (part : Headers → α) (chunks : List Bytes) :
    Except Exception (Option α) :=
  (receive wanted chunks).map fun received => received.headers.map part

/-- A head and a body that are received together. -/
def Together (first block body : Bytes) : Prop :=
  (headText first block ++ body).length ≤ recvBufferSize - 1

/-- Any two bodies that are received with the head leave the same headers. -/
def HeadersFixed {α : Type} (wanted : RequestLine → Bool) (part : Headers → α)
    (first block : Bytes) : Prop :=
  ∀ body body', Together first block body → Together first block body' → ∀ chunks chunks',
    derived wanted part ((headText first block ++ body) :: chunks) =
      derived wanted part ((headText first block ++ body') :: chunks')

/-- The length of the longest text of a body that is read for headers. -/
def reach (first block : Bytes) : Nat :=
  min (first.length - 2) (recvBufferSize - 1 - (headText first block).length)

variable {α : Type} {wanted : RequestLine → Bool} {part : Headers → α} {first block : Bytes}
  {line : RequestLine}

theorem derived_head (h : IsHead first block line) (body : Bytes) (chunks : List Bytes) :
    derived wanted part ((headText first block ++ body) :: chunks) =
      if line.method = ascii "OPTIONS" ∨ wanted line = false then .ok none
      else (blockHeaders first block >>= fun headers =>
        (getLines (body.take (first.length - 2))).foldlM readHeader headers).map
          fun headers => some (part headers) := by
  unfold derived receive
  simp only [readRequestLine_append h.read body, readHeaders_body h body]
  by_cases hoptions : line.method = ascii "OPTIONS"
  · simp only [hoptions, true_or, ↓reduceIte]
    rfl
  by_cases hwanted : wanted line = true
  · simp only [hoptions, hwanted, Bool.true_eq_false, or_self, ↓reduceIte]
    cases (blockHeaders first block >>= fun headers =>
      (getLines (body.take (first.length - 2))).foldlM readHeader headers) <;> rfl
  · simp only [hoptions, Bool.eq_false_iff.mpr hwanted, or_true, ↓reduceIte]
    rfl

/-- A body counts through the text that is read for headers, which can be any short text. -/
theorem headersFixed_iff_texts (h : IsHead first block line)
    (hfits : (headText first block).length ≤ recvBufferSize - 1)
    (hread : ¬(line.method = ascii "OPTIONS" ∨ wanted line = false)) {headers : Headers}
    (hheaders : blockHeaders first block = .ok headers) :
    HeadersFixed wanted part first block ↔ ∀ text : Bytes, text.length ≤ reach first block →
      ((getLines text).foldlM readHeader headers).map part = .ok (part headers) := by
  have hderived : ∀ body chunks,
      derived wanted part ((headText first block ++ body) :: chunks) =
        (((getLines (body.take (first.length - 2))).foldlM readHeader headers).map part).map
          some := by
    intro body chunks
    rw [derived_head h, if_neg hread, hheaders]
    rw [ok_bind]
    cases (getLines (body.take (first.length - 2))).foldlM readHeader headers <;> rfl
  constructor
  · intro hfixed text htext
    have htake : text.take (first.length - 2) = text :=
      List.take_of_length_le (htext.trans (Nat.min_le_left _ _))
    have htogether : Together first block text := by
      have hroom := htext.trans (Nat.min_le_right _ _)
      rw [Together, List.length_append]
      omega
    have hsame := hfixed text [] htogether (by rwa [Together, List.append_nil]) [] []
    rw [hderived, hderived, htake, List.take_nil] at hsame
    cases hresult : ((getLines text).foldlM readHeader headers).map part with
    | error e =>
      rw [hresult] at hsame
      cases hsame
    | ok after =>
      rw [hresult] at hsame
      exact congrArg _ (Option.some.inj (Except.ok.inj hsame))
  · intro htexts body body' htogether htogether' chunks chunks'
    have hreach : ∀ body : Bytes, Together first block body →
        (body.take (first.length - 2)).length ≤ reach first block := by
      intro body hbody
      rw [Together, List.length_append] at hbody
      rw [List.length_take, reach]
      omega
    rw [hderived, hderived, htexts _ (hreach body htogether), htexts _ (hreach body' htogether')]

/-- The headers of the head are not read, or reading them fails. -/
def Unread (wanted : RequestLine → Bool) (first block : Bytes) (line : RequestLine) : Prop :=
  (line.method = ascii "OPTIONS" ∨ wanted line = false) ∨
    ∃ e, blockHeaders first block = .error e

theorem headersFixed_of_unread (h : IsHead first block line)
    (hunread : Unread wanted first block line) : HeadersFixed wanted part first block := by
  intro body body' _ _ chunks chunks'
  rw [derived_head h, derived_head h]
  rcases hunread with hmethod | ⟨e, he⟩
  · rw [if_pos hmethod, if_pos hmethod]
  · rw [he]
    rfl

theorem headersFixed_cases (h : IsHead first block line)
    (hfits : (headText first block).length ≤ recvBufferSize - 1) {p : Headers → Prop}
    (hp : ∀ headers, blockHeaders first block = .ok headers →
      ((∀ text : Bytes, text.length ≤ reach first block →
        ((getLines text).foldlM readHeader headers).map part = .ok (part headers)) ↔ p headers)) :
    HeadersFixed wanted part first block ↔
      Unread wanted first block line ∨ ∃ headers, blockHeaders first block = .ok headers ∧
        p headers := by
  by_cases hread : line.method = ascii "OPTIONS" ∨ wanted line = false
  · exact iff_of_true (headersFixed_of_unread h (Or.inl hread)) (Or.inl (Or.inl hread))
  cases hblock : blockHeaders first block with
  | error e =>
    have hunread : Unread wanted first block line := Or.inr ⟨e, hblock⟩
    exact iff_of_true (headersFixed_of_unread h hunread) (Or.inl hunread)
  | ok headers =>
    rw [headersFixed_iff_texts h hfits hread hblock, hp headers hblock]
    simp [Unread, hread, hblock]

/-- A content type fits into fourteen bytes, an empty one into thirteen. -/
theorem texts_keep_headers (headers : Headers) (n : Nat) :
    (∀ text : Bytes, text.length ≤ n →
        ((getLines text).foldlM readHeader headers).map id = .ok headers) ↔
      n < 13 ∨ n = 13 ∧ headers.contentType = [] := by
  constructor
  · intro hkeep
    have hline : ∀ text : Bytes, getLines text = [text] → text.length ≤ n →
        readHeader headers text = .ok headers := by
      intro text hlines hlength
      have := hkeep text hlength
      rw [hlines, List.foldlM_cons] at this
      cases hread : readHeader headers text with
      | error e =>
        rw [hread] at this
        cases this
      | ok after =>
        rw [hread] at this
        exact this
    by_contra hlong
    rw [not_or, not_and] at hlong
    have hempty : headers.contentType = [] := by
      have hsame := hline (ascii "content-type:") (by decide) (by simp [ascii]; omega)
      exact (congrArg Headers.contentType (Except.ok.inj hsame)).symm
    have hlonger : 14 ≤ n := by
      have := mt hlong.2 (not_not.mpr hempty)
      omega
    have hsame := hline (ascii "content-type:x") (by decide) (by simp [ascii]; omega)
    have htype := congrArg Headers.contentType (Except.ok.inj hsame)
    rw [hempty] at htype
    exact absurd htype (show ascii "x" ≠ [] by decide)
  · intro hn text htext
    have hsame : (getLines text).foldlM readHeader headers = .ok headers := by
      refine foldlM_same fun headerLine hmem => ?_
      have := length_of_mem_getLines hmem
      refine readHeader_short (by omega) fun hfull => ?_
      rcases hn with hshort | ⟨_, hempty⟩
      · omega
      · exact hempty
    rw [hsame]
    rfl

/-- A content length does not fit into fourteen bytes. -/
theorem texts_keep_length (headers : Headers) (n : Nat) :
    (∀ text : Bytes, text.length ≤ n →
        ((getLines text).foldlM readHeader headers).map Headers.contentLength =
          .ok headers.contentLength) ↔
      n < 15 := by
  constructor
  · intro hkeep
    by_contra hlong
    have hthrows : (getLines (ascii "content-length:")).foldlM readHeader headers =
        .error .invalidArgument := rfl
    have := hkeep (ascii "content-length:") (by simp [ascii]; omega)
    rw [hthrows] at this
    cases this
  · intro hn text htext
    obtain ⟨after, hafter, hsame⟩ := @foldlM_length (getLines text) (by
      intro headerLine hmem hname
      have hle := length_of_mem_getLines hmem
      have hlong : 14 + 1 ≤ headerLine.length := length_of_headerName hname
      omega) headers
    rw [hafter, ← hsame]
    rfl

/-- Bodies do not change what is derived from the headers exactly when the headers are not
read or the request line is too short for a header, and two given bodies make no
difference where no header stands in the part that is read. -/
theorem headersFixed_iff {first block : Bytes} {line : RequestLine} (h : IsHead first block line)
    (hfits : (headText first block).length ≤ recvBufferSize - 1) :
    (HeadersFixed (fun _ => true) id first block ↔
        Unread (fun _ => true) first block line ∨
          ∃ headers, blockHeaders first block = .ok headers ∧
            (reach first block < 13 ∨ reach first block = 13 ∧ headers.contentType = [])) ∧
      (HeadersFixed isAuthorization Headers.contentLength first block ↔
        Unread isAuthorization first block line ∨
          ∃ headers, blockHeaders first block = .ok headers ∧ reach first block < 15) ∧
      ∀ body body' : Bytes,
        (∀ text ∈ [body, body'], ∀ headerLine ∈ getLines (text.take (first.length - 2)),
          headerName headerLine ≠ some contentLengthName ∧
            headerName headerLine ≠ some contentTypeName) →
        ∀ wanted chunks chunks',
          derived wanted id ((headText first block ++ body) :: chunks) =
            derived wanted id ((headText first block ++ body') :: chunks') := by
  refine ⟨headersFixed_cases h hfits fun headers _ => texts_keep_headers headers _,
    headersFixed_cases h hfits fun headers _ => texts_keep_length headers _, ?_⟩
  intro body body' hnames wanted chunks chunks'
  have hsilent : ∀ text ∈ [body, body'],
      (fun headers => (getLines (text.take (first.length - 2))).foldlM readHeader headers) =
        Except.ok := by
    intro text htext
    funext headers
    exact foldlM_same fun headerLine hmem =>
      readHeader_other (hnames text htext headerLine hmem).1 (hnames text htext headerLine hmem).2 _
  rw [derived_head h, derived_head h, hsilent body (by simp), hsilent body' (by simp)]

/-- A request line of seven bytes. -/
theorem short_line_fixed :
    HeadersFixed (fun _ => true) id (ascii "POST /a") (ascii "Content-Length: 1\r\n") := by
  have hhead : IsHead (ascii "POST /a") (ascii "Content-Length: 1\r\n")
      ⟨26, 7, ascii "POST", ascii "/a"⟩ := ⟨rfl, by decide, by decide⟩
  exact (headersFixed_iff hhead (by decide)).1.mpr (Or.inr ⟨⟨1, []⟩, rfl, Or.inl (by decide)⟩)

/-- A body that announces its own length. -/
theorem body_sets_length :
    ¬HeadersFixed isAuthorization Headers.contentLength (ascii "POST /authorize HTTP/1.1")
        (ascii "Content-Length: 18\r\n") := by
  intro hfixed
  have hsame := hfixed (ascii "content-length:4\r\n") (ascii "abcdefghijklmnopqr")
    (by unfold Together; decide) (by unfold Together; decide) [] []
  have hheader : derived isAuthorization Headers.contentLength
      [headText (ascii "POST /authorize HTTP/1.1") (ascii "Content-Length: 18\r\n") ++
        ascii "content-length:4\r\n"] = .ok (some 4) := rfl
  have hlength : derived isAuthorization Headers.contentLength
      [headText (ascii "POST /authorize HTTP/1.1") (ascii "Content-Length: 18\r\n") ++
        ascii "abcdefghijklmnopqr"] = .ok (some 18) := rfl
  rw [hheader, hlength] at hsame
  cases hsame

end InverterMonitor.Http
