import InverterMonitor.Server.HeaderExtent

/-!
# Requests with given header fields

A request as a client writes it: the request line and one line for each field.

* `find_past`, `find_here`: where a pattern is found that has a certain byte;
* `isHead_fields`: the head that the handlers find is this text;
* `blockHeaders_fields`: and the fields are the headers that they read.
-/

namespace InverterMonitor.Http
open Text Cxx Json

/-! ## Searching by one byte -/

section

variable {c : Byte} {before after : Bytes}

/-- The first `c` of the text belongs to no occurrence, which would go on behind it. -/
theorem find_past (hbefore : c ∉ before) {u v : Bytes} (hu : c ∉ u) (hafter : ¬after <+: v) :
    find (before ++ c :: after) (u ++ c :: v) =
      (find (before ++ c :: after) v).map (· + (u.length + 1)) := by
  have hnot : ∀ w : Bytes, c ∉ w → ¬before ++ c :: after <+: w ++ c :: v := by
    rintro w hw ⟨t, ht⟩
    have hsame : before ++ c :: (after ++ t) = w ++ c :: v := by simpa using ht
    exact hafter ⟨t, (cut_unique hbefore hw hsame).2⟩
  have hstep : ∀ {b : Byte} {s : Bytes}, ¬before ++ c :: after <+: b :: s →
      find (before ++ c :: after) (b :: s) = (find (before ++ c :: after) s).map (· + 1) := by
    intro b s h
    rw [find, if_neg (mt List.isPrefixOf_iff_prefix.mp h)]
  induction u with
  | nil => exact hstep (hnot [] (by simp))
  | cons b u ih =>
    have hu' : c ∉ u := fun hmem => hu (List.mem_cons_of_mem b hmem)
    have hfirst : ¬before ++ c :: after <+: b :: (u ++ c :: v) := hnot (b :: u) hu
    rw [List.cons_append, hstep hfirst, ih hu', Option.map_map]
    rfl

/-- The first `c` of the text is that of the first occurrence. -/
theorem find_here (hbefore : c ∉ before) {u : Bytes} (hu : c ∉ u) (v : Bytes) :
    find (before ++ c :: after) (u ++ (before ++ c :: (after ++ v))) = some u.length := by
  have hne : before ++ c :: after ≠ [] := by simp
  rw [find_eq_some_iff hne]
  constructor
  · rw [List.drop_left]
    exact ⟨v, by simp⟩
  · rintro j hj ⟨t, ht⟩
    have hdrop : (u ++ (before ++ c :: (after ++ v))).drop j =
        (u.drop j ++ before) ++ c :: (after ++ v) := by
      rw [List.drop_append_of_le_length (by omega)]
      simp
    have hnone : c ∉ u.drop j ++ before := by
      rw [List.mem_append]
      rintro (hmem | hmem)
      · exact hu (List.mem_of_mem_drop hmem)
      · exact hbefore hmem
    have hsame : before ++ c :: (after ++ t) = u.drop j ++ before ++ c :: (after ++ v) := by
      rw [← hdrop, ← ht]
      simp
    have hlength := congrArg List.length (cut_unique hbefore hnone hsame).1
    rw [List.length_append, List.length_drop] at hlength
    omega

end

/-! ## Header fields -/

structure Field where
  name : Bytes
  value : Bytes

namespace Field

def line (field : Field) : Bytes := field.name ++ ascii ": " ++ field.value

/-- The name has no colon, neither part has a line break or outer white space. -/
structure WellFormed (field : Field) : Prop where
  name_bytes : ∀ b ∈ field.name, b ≠ ':' ∧ b ≠ carriageReturn ∧ b ≠ newline
  value_bytes : ∀ b ∈ field.value, b ≠ carriageReturn ∧ b ≠ newline
  name_trimmed : trimString field.name = field.name
  value_trimmed : trimString field.value = field.value

theorem not_mem_line {field : Field} (h : field.WellFormed) :
    carriageReturn ∉ field.line ∧ newline ∉ field.line := by
  have hcolon : carriageReturn ∉ ascii ": " ∧ newline ∉ ascii ": " := by decide
  unfold line
  simp only [List.mem_append, not_or]
  exact ⟨⟨⟨fun hmem => (h.name_bytes _ hmem).2.1 rfl, hcolon.1⟩,
      fun hmem => (h.value_bytes _ hmem).1 rfl⟩,
    ⟨fun hmem => (h.name_bytes _ hmem).2.2 rfl, hcolon.2⟩,
      fun hmem => (h.value_bytes _ hmem).2 rfl⟩

end Field

def blockText (fields : List Field) : Bytes := fields.flatMap fun field => field.line ++ lineBreak

/-- The first line and the fields up to the empty line. -/
theorem find_headerMark {fields : List Field} (hfields : ∀ field ∈ fields, field.WellFormed)
    {u : Bytes} (hu : carriageReturn ∉ u) :
    find (lineBreak ++ lineBreak) (u ++ (lineBreak ++ (blockText fields ++ lineBreak))) =
      some (u.length + (blockText fields).length) := by
  have hmark : lineBreak ++ lineBreak = [] ++ carriageReturn :: ascii "\n\r\n" := rfl
  rw [hmark]
  induction fields generalizing u with
  | nil => exact find_here (List.not_mem_nil) hu []
  | cons field fields ih =>
    obtain ⟨hreturn, -⟩ := Field.not_mem_line (hfields field (by simp))
    have hline : carriageReturn ∉ newline :: field.line := by
      rw [List.mem_cons, not_or]
      exact ⟨by decide, hreturn⟩
    have htext : u ++ (lineBreak ++ (blockText (field :: fields) ++ lineBreak)) =
        u ++ carriageReturn :: ((newline :: field.line) ++
          (lineBreak ++ (blockText fields ++ lineBreak))) := by
      have hbreak : lineBreak = [carriageReturn, newline] := rfl
      simp [blockText, hbreak]
    have hafter : ¬ascii "\n\r\n" <+: (newline :: field.line) ++
        (lineBreak ++ (blockText fields ++ lineBreak)) := by
      rintro ⟨t, ht⟩
      obtain ⟨b, w, hbytes⟩ : ∃ b w, field.line = b :: w := by
        refine List.exists_cons_of_ne_nil ?_
        simp [Field.line, ascii]
      rw [hbytes] at ht hreturn
      have hb := (List.cons.inj (List.cons.inj ht).2).1
      apply hreturn
      rw [← hb]
      exact List.mem_cons_self ..
    rw [htext, find_past List.not_mem_nil hu hafter,
      ih (fun other hother => hfields other (List.mem_cons_of_mem _ hother)) hline, Option.map_some]
    congr 1
    simp only [blockText, List.flatMap_cons, List.length_append, List.length_cons]
    have hbreak : lineBreak.length = 2 := rfl
    omega

theorem find_lineBreak {u : Bytes} (hu : carriageReturn ∉ u) (v : Bytes) :
    find lineBreak (u ++ (lineBreak ++ v)) = some u.length := by
  have hbreak : lineBreak = [] ++ carriageReturn :: ascii "\n" := rfl
  rw [hbreak]
  exact find_here List.not_mem_nil hu v

/-- The two words of a request line. -/
def requestWords (first : Bytes) : Bytes × Bytes :=
  let word := (nextWord first).getD ([], [])
  (word.1, ((nextWord word.2).getD ([], [])).1)

theorem isHead_fields {first : Bytes} {fields : List Field} (hfirst : carriageReturn ∉ first)
    (hfields : ∀ field ∈ fields, field.WellFormed) :
    IsHead first (blockText fields) ⟨first.length + (blockText fields).length, first.length,
      (requestWords first).1, (requestWords first).2⟩ := by
  refine ⟨?_, rfl, rfl⟩
  unfold readRequestLine
  have hmark := find_headerMark hfields hfirst
  have hline := find_lineBreak hfirst (blockText fields ++ lineBreak)
  rw [headText, hmark, hline]
  simp only [List.take_left]
  rfl

/-! ## The headers that are read -/

theorem getLines_fields {fields : List Field} (hfields : ∀ field ∈ fields, field.WellFormed) :
    getLines (blockText fields ++ lineBreak) =
      (fields.map fun field => field.line ++ [carriageReturn]) ++ [[carriageReturn]] := by
  have htext : blockText fields ++ lineBreak =
      ((fields.map fun field => field.line ++ [carriageReturn]) ++ [[carriageReturn]]).flatMap
        fun line => line ++ [newline] := by
    have hbreak : lineBreak = [carriageReturn, newline] := rfl
    simp [blockText, hbreak, List.flatMap_map]
  have hlines : ∀ line ∈ (fields.map fun field => field.line ++ [carriageReturn]) ++
      [[carriageReturn]], newline ∉ line := by
    have hreturn : newline ∉ [carriageReturn] := by decide
    intro line hline
    rcases List.mem_append.mp hline with hline | hline
    · obtain ⟨field, hfield, rfl⟩ := List.mem_map.mp hline
      rw [List.mem_append, not_or]
      exact ⟨(Field.not_mem_line (hfields field hfield)).2, hreturn⟩
    · rw [List.mem_singleton.mp hline]
      exact hreturn
  rw [getLines, htext, splitLines_flatMap hlines, if_pos rfl]

theorem readHeader_field {field : Field} (h : field.WellFormed) (headers : Headers) :
    readHeader headers (field.line ++ [carriageReturn]) =
      if lower field.name = contentLengthName then
        (stoul field.value).map fun n => { headers with contentLength := n.toNat }
      else if lower field.name = contentTypeName then
        .ok { headers with contentType := field.value }
      else .ok headers := by
  have hstrip : stripCarriageReturn (field.line ++ [carriageReturn]) = field.line := by
    simp [stripCarriageReturn]
  have hcut : cutAt ':' field.line = some (field.name, ascii " " ++ field.value) := by
    refine cutAt_eq_some_iff.mpr ⟨fun hmem => (h.name_bytes _ hmem).1 rfl, ?_⟩
    simp [Field.line, ascii]
  have htrim : trimString (ascii " " ++ field.value) = field.value := by
    have hblank : AllBy (fun b => b == ' ' || b == '\t' || b == '\r' || b == '\n') (ascii " ") := by
      intro b hb
      rw [List.mem_singleton.mp hb]
      rfl
    have haround := trimBy_around field.value hblank allBy_nil
    rw [List.append_nil] at haround
    exact haround.trans h.value_trimmed
  unfold readHeader
  rw [hstrip, hcut]
  simp only [h.name_trimmed, htrim]
  rfl

/-- The fields named so agree on a value, which is read; without such a field nothing is. -/
theorem foldlM_fields {fields : List Field} (hfields : ∀ field ∈ fields, field.WellFormed)
    {n : UInt64} {contentType : Bytes}
    (hlength : ∀ field ∈ fields, lower field.name = contentLengthName → stoul field.value = .ok n)
    (htype : ∀ field ∈ fields, lower field.name = contentTypeName → field.value = contentType)
    (headers : Headers) :
    (fields.map fun field => field.line ++ [carriageReturn]).foldlM readHeader headers =
      .ok { contentLength := if ∃ field ∈ fields, lower field.name = contentLengthName then n.toNat
              else headers.contentLength
            contentType := if ∃ field ∈ fields, lower field.name = contentTypeName then contentType
              else headers.contentType } := by
  have hne : contentLengthName ≠ contentTypeName := by decide
  induction fields generalizing headers with
  | nil => simp [pure, Except.pure]
  | cons field fields ih =>
    have hrest := ih (fun other hother => hfields other (List.mem_cons_of_mem _ hother))
      (fun other hother => hlength other (List.mem_cons_of_mem _ hother))
      (fun other hother => htype other (List.mem_cons_of_mem _ hother))
    rw [List.map_cons, List.foldlM_cons, readHeader_field (hfields field (by simp))]
    simp only [List.mem_cons, exists_eq_or_imp]
    by_cases hfield : lower field.name = contentLengthName
    · rw [if_pos hfield, hlength field (by simp) hfield, ok_map, ok_bind, hrest]
      simp [hfield, hne]
    · rw [if_neg hfield]
      by_cases hfield' : lower field.name = contentTypeName
      · rw [if_pos hfield', ok_bind, hrest]
        simp [hfield', hne.symm, htype field (by simp) hfield']
      · rw [if_neg hfield', ok_bind, hrest]
        simp [hfield, hfield']

theorem blockHeaders_fields {first : Bytes} (hfirst : 2 ≤ first.length) {fields : List Field}
    (hfields : ∀ field ∈ fields, field.WellFormed) {n : UInt64} {contentType : Bytes}
    (hlength : ∀ field ∈ fields, lower field.name = contentLengthName → stoul field.value = .ok n)
    (htype : ∀ field ∈ fields, lower field.name = contentTypeName → field.value = contentType)
    (hlengths : ∃ field ∈ fields, lower field.name = contentLengthName)
    (htypes : ∃ field ∈ fields, lower field.name = contentTypeName) :
    blockHeaders first (blockText fields) = .ok ⟨n.toNat, contentType⟩ := by
  have hbreak : lineBreak.length = 2 := rfl
  have htake : (blockText fields ++ lineBreak).take (first.length + (blockText fields).length) =
      blockText fields ++ lineBreak := by
    apply List.take_of_length_le
    rw [List.length_append]
    omega
  have hempty : readHeader ⟨n.toNat, contentType⟩ [carriageReturn] =
      .ok ⟨n.toNat, contentType⟩ := rfl
  rw [blockHeaders, htake, getLines_fields hfields, List.foldlM_append,
    foldlM_fields hfields hlength htype, if_pos hlengths, if_pos htypes, ok_bind,
    List.foldlM_cons, hempty]
  rfl

end InverterMonitor.Http
