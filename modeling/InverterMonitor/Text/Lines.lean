import InverterMonitor.Text.Bytes

/-!
# Cutting a byte stream into lines

`splitLines` gives the complete lines of a text and what follows the last line
break.  A reader that keeps the unfinished line between chunks sees the lines of
the whole stream, however it is cut: `splitLines_append`.
-/

namespace Text

def newline : Byte := 10

/-- The complete lines, without their line breaks, and the unfinished rest. -/
def splitLines : Bytes → List Bytes × Bytes
  | [] => ([], [])
  | b :: s =>
    if b = newline then ([] :: (splitLines s).1, (splitLines s).2)
    else
      match (splitLines s).1 with
      | [] => ([], b :: (splitLines s).2)
      | line :: lines => ((b :: line) :: lines, (splitLines s).2)

@[simp] theorem splitLines_nil : splitLines [] = ([], []) := rfl

theorem splitLines_newline (s : Bytes) :
    splitLines (newline :: s) = ([] :: (splitLines s).1, (splitLines s).2) := by
  simp [splitLines]

theorem splitLines_cons {b : Byte} (s : Bytes) (hb : b ≠ newline) :
    splitLines (b :: s) =
      match (splitLines s).1 with
      | [] => ([], b :: (splitLines s).2)
      | line :: lines => ((b :: line) :: lines, (splitLines s).2) := by
  simp [splitLines, hb]

/-- Text before the first line break belongs to the first line, or to the rest. -/
theorem splitLines_head {start : Bytes} (s : Bytes) (h : newline ∉ start) :
    splitLines (start ++ s) =
      match (splitLines s).1 with
      | [] => ([], start ++ (splitLines s).2)
      | line :: lines => ((start ++ line) :: lines, (splitLines s).2) := by
  induction start with
  | nil =>
    rw [List.nil_append]
    rcases splitLines s with ⟨lines, rest⟩
    cases lines <;> rfl
  | cons b start ih =>
    have hb : b ≠ newline := by
      rintro rfl
      exact h (by simp)
    rw [List.cons_append, splitLines_cons _ hb, ih fun hmem => h (by simp [hmem])]
    cases (splitLines s).1 <;> rfl

theorem splitLines_line {line : Bytes} (s : Bytes) (h : newline ∉ line) :
    splitLines (line ++ newline :: s) = (line :: (splitLines s).1, (splitLines s).2) := by
  rw [splitLines_head _ h, splitLines_newline]
  simp

theorem splitLines_unfinished {s : Bytes} (h : newline ∉ s) : splitLines s = ([], s) := by
  have := splitLines_head [] h
  simpa using this

theorem newline_not_mem_rest (s : Bytes) : newline ∉ (splitLines s).2 := by
  induction s with
  | nil => simp
  | cons b s ih =>
    by_cases hb : b = newline
    · rw [hb, splitLines_newline]
      exact ih
    · rw [splitLines_cons s hb]
      cases (splitLines s).1 with
      | nil => simpa [Ne.symm hb] using ih
      | cons line lines => exact ih

/-- Splitting goes on where it stopped: the unfinished line is put before the
bytes that follow. -/
theorem splitLines_append (s t : Bytes) :
    splitLines (s ++ t) =
      ((splitLines s).1 ++ (splitLines ((splitLines s).2 ++ t)).1,
        (splitLines ((splitLines s).2 ++ t)).2) := by
  induction s with
  | nil => simp
  | cons b s ih =>
    by_cases hb : b = newline
    · rw [hb, List.cons_append, splitLines_newline, splitLines_newline, ih]
      rfl
    · rw [List.cons_append, splitLines_cons _ hb, splitLines_cons _ hb, ih]
      cases hlines : (splitLines s).1 with
      | nil =>
        simp only [List.nil_append, List.cons_append]
        rw [splitLines_cons _ hb]
      | cons line lines => rfl

/-- A stream made of complete lines is cut into these lines. -/
theorem splitLines_flatMap {lines : List Bytes} (h : ∀ line ∈ lines, newline ∉ line) :
    splitLines (lines.flatMap fun line => line ++ [newline]) = (lines, []) := by
  induction lines with
  | nil => rfl
  | cons line lines ih =>
    rw [List.flatMap_cons, List.append_assoc, List.singleton_append,
      splitLines_line _ (h line (by simp)), ih fun l hl => h l (by simp [hl])]

/-- The lines that `std::getline` reads: an unfinished last line counts. -/
def getLines (s : Bytes) : List Bytes :=
  if (splitLines s).2 = [] then (splitLines s).1 else (splitLines s).1 ++ [(splitLines s).2]

def carriageReturn : Byte := 13

def stripCarriageReturn (line : Bytes) : Bytes :=
  if line.getLast? = some carriageReturn then line.dropLast else line

end Text
