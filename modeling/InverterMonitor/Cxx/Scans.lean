import InverterMonitor.Cxx.Conversions
import InverterMonitor.Text.Trimming

/-!
# The shape of scanned texts

What a successful scan says about the text it has scanned:

* `nextWord_eq_some_iff`: a word after white space, up to white space or the end;
* `exists_trim`, `trim_padded`: trimming takes off white space at both ends, and
  no more than that;
* `cutAt_eq_some_iff`: the text is cut at the first occurrence of a byte;
* `extractUnsigned_eq_some_iff`, `strtoul_eq_some_iff`: the text begins with a
  numeral that fits (`Reads`).
-/

namespace Cxx
open Text

/-! ## White space -/

theorem skipSpaces_blank {gap : Bytes} (s : Bytes) (h : Blank gap) :
    skipSpaces (gap ++ s) = skipSpaces s := by
  rw [skipSpaces, List.dropWhile_append_of_pos h]
  rfl

theorem skipSpaces_eq_nil_iff {s : Bytes} : skipSpaces s = [] ↔ Blank s := by
  rw [skipSpaces, List.dropWhile_eq_nil_iff]
  rfl

/-- A text is white space and what is left when it is skipped. -/
theorem exists_gap (s : Bytes) :
    ∃ gap, Blank gap ∧ s = gap ++ skipSpaces s ∧ Stops isSpace (skipSpaces s) :=
  ⟨s.takeWhile isSpace, takeWhile_all isSpace s, List.takeWhile_append_dropWhile.symm,
    stops_dropWhile isSpace s⟩

theorem skipSpaces_of_stops {s : Bytes} (h : Stops isSpace s) : skipSpaces s = s :=
  dropWhile_of_stops h

/-- White space at the end is not skipped while something else is there. -/
theorem skipSpaces_append {s : Bytes} (gap : Bytes) (h : ¬Blank s) :
    skipSpaces (s ++ gap) = skipSpaces s ++ gap := by
  obtain ⟨before, hbefore, heq, hstops⟩ := exists_gap s
  have hne : skipSpaces s ≠ [] := fun hnil => h (skipSpaces_eq_nil_iff.mp hnil)
  have hstops' : Stops isSpace (skipSpaces s ++ gap) := by
    obtain ⟨b, t, ht⟩ := List.exists_cons_of_ne_nil hne
    rw [ht] at hstops ⊢
    simpa using hstops
  calc skipSpaces (s ++ gap)
      = skipSpaces (before ++ (skipSpaces s ++ gap)) := by rw [← List.append_assoc, ← heq]
    _ = skipSpaces (skipSpaces s ++ gap) := skipSpaces_blank _ hbefore
    _ = skipSpaces s ++ gap := skipSpaces_of_stops hstops'

/-! ## Words -/

/-- `word` is the first word of the text, and `rest` follows it. -/
def FirstWord (s word rest : Bytes) : Prop :=
  ∃ gap, Blank gap ∧ isWord word ∧ Stops (fun b => !isSpace b) rest ∧ s = gap ++ (word ++ rest)

theorem nextWord_eq_some_iff {s word rest : Bytes} :
    nextWord s = some (word, rest) ↔ FirstWord s word rest := by
  constructor
  · intro h
    obtain ⟨gap, hgap, heq, _⟩ := exists_gap s
    simp only [nextWord] at h
    split at h
    · cases h
    · next hne =>
      cases h
      refine ⟨gap, hgap, ⟨hne, fun b hb => ?_⟩, stops_dropWhile _ _, ?_⟩
      · simpa using takeWhile_all _ _ b hb
      · rw [List.takeWhile_append_dropWhile]
        exact heq
  · rintro ⟨gap, hgap, hword, hrest, rfl⟩
    have h := nextWord_append hword hrest
    simp only [nextWord, skipSpaces_blank _ hgap] at h ⊢
    exact h

theorem nextWord_eq_none_iff {s : Bytes} : nextWord s = none ↔ Blank s := by
  rw [← skipSpaces_eq_nil_iff]
  obtain ⟨_, _, _, hstops⟩ := exists_gap s
  simp only [nextWord, ite_eq_left_iff, reduceCtorEq, imp_false, not_not]
  cases hs : skipSpaces s with
  | nil => simp
  | cons b t =>
    have hb : isSpace b = false := by simpa [hs] using hstops
    simp [hb]

/-- White space at the end only lengthens what follows the word. -/
theorem nextWord_append_blank {s gap : Bytes} (hgap : Blank gap) :
    nextWord (s ++ gap) = (nextWord s).map fun p => (p.1, p.2 ++ gap) := by
  cases h : nextWord s with
  | none => simpa [nextWord_eq_none_iff, hgap] using nextWord_eq_none_iff.mp h
  | some p =>
    obtain ⟨word, rest⟩ := p
    obtain ⟨before, hbefore, hword, hrest, rfl⟩ := nextWord_eq_some_iff.mp h
    refine nextWord_eq_some_iff.mpr ⟨before, hbefore, hword, ?_, by simp⟩
    cases rest with
    | nil => cases gap <;> simp_all
    | cons b rest => simpa using hrest

/-! ## Trimming -/

/-- White space neither begins nor ends the text. -/
def Trimmed (s : Bytes) : Prop :=
  Stops isSpace s ∧ ∀ h : s ≠ [], isSpace (s.getLast h) = false

theorem exists_trim (s : Bytes) :
    ∃ before after, Blank before ∧ Blank after ∧ s = before ++ (trim s ++ after) ∧
      Trimmed (trim s) := exists_trimBy isSpace s

theorem trim_padded {before text after : Bytes} (hbefore : Blank before) (hafter : Blank after)
    (htext : Trimmed text) : trim (before ++ (text ++ after)) = text :=
  trimBy_padded hbefore hafter htext

/-- White space around a text does not change its trimmed form. -/
theorem trim_blank {before after : Bytes} (s : Bytes) (hbefore : Blank before)
    (hafter : Blank after) : trim (before ++ (s ++ after)) = trim s :=
  trimBy_around s hbefore hafter

@[simp] theorem trim_trim (s : Bytes) : trim (trim s) = trim s := trimBy_trimBy (fun _ h => h) s

theorem trim_eq_nil {s : Bytes} (h : Blank s) : trim s = [] := trimBy_eq_nil_iff.mpr h

theorem blank_of_trim_eq_nil {s : Bytes} (h : trim s = []) : Blank s := trimBy_eq_nil_iff.mp h

/-- Trimming does not reach into the first of two parts while the second is not blank. -/
theorem trim_append {before s t : Bytes} (hbefore : Blank before) (hs : Stops isSpace s)
    (hne : s ≠ []) (ht : ¬Blank t) :
    ∃ t', trim (before ++ (s ++ t)) = s ++ t' ∧ trim t' = trim t :=
  trimBy_append hbefore hs hne ht

/-! ## Cutting -/

/-- The texts before and after the first `c`. -/
def cutAt (c : Byte) (s : Bytes) : Option (Bytes × Bytes) :=
  if c ∈ s then some (s.takeWhile (· != c), (s.dropWhile (· != c)).drop 1) else none

theorem cutAt_eq_some_iff {c : Byte} {s first second : Bytes} :
    cutAt c s = some (first, second) ↔ c ∉ first ∧ s = first ++ c :: second := by
  constructor
  · intro h
    unfold cutAt at h
    split at h
    · next hmem =>
      cases h
      have hnot : ∀ b ∈ s.takeWhile (· != c), b ≠ c := by
        intro b hb
        simpa using takeWhile_all _ _ b hb
      refine ⟨fun hblank => hnot _ hblank rfl, ?_⟩
      have hsplit : s.takeWhile (· != c) ++ s.dropWhile (· != c) = s :=
        List.takeWhile_append_dropWhile
      cases hrest : s.dropWhile (· != c) with
      | nil =>
        rw [List.dropWhile_eq_nil_iff] at hrest
        exact absurd (hrest _ hmem) (by simp)
      | cons b rest =>
        have hb := stops_dropWhile (· != c) s
        rw [hrest, stops_cons] at hb
        have hb : b = c := by simpa using hb
        rw [hrest, hb] at hsplit
        simpa using hsplit.symm
    · cases h
  · rintro ⟨hfirst, rfl⟩
    have hall : ∀ b ∈ first, (b != c) = true := by
      intro b hb
      simp only [bne_iff_ne]
      rintro rfl
      exact hfirst hb
    have hstops : Stops (· != c) (c :: second) := by simp
    unfold cutAt
    rw [if_pos (by simp), takeWhile_append_stop hall hstops, dropWhile_append_stop hall hstops]
    rfl

/-- A text is cut at its first `c` in one way. -/
theorem cut_unique {c : Byte} {u v p q : Bytes} (hu : c ∉ u) (hv : c ∉ v)
    (h : u ++ c :: p = v ++ c :: q) :
    u = v ∧ p = q := by
  have hcut : cutAt c (u ++ c :: p) = some (u, p) := cutAt_eq_some_iff.mpr ⟨hu, rfl⟩
  rw [cutAt_eq_some_iff.mpr ⟨hv, h⟩] at hcut
  cases hcut
  exact ⟨rfl, rfl⟩

/-! ## Numerals -/

/-- A sign that may stand before the digits of an unsigned number. -/
def IsSignText (sign : Bytes) : Prop := sign = [] ∨ sign = ascii "-" ∨ sign = ascii "+"

/-- The text begins, after white space, with a numeral that denotes `n` in an
unsigned type of `bits` bits; `rest` follows its digits. -/
def Reads (bits : Nat) (s : Bytes) (n : Nat) (rest : Bytes) : Prop :=
  ∃ gap sign ds, Blank gap ∧ IsSignText sign ∧ Digits ds ∧ ds ≠ [] ∧ Stops isDigit rest ∧
    numeralValue ds < 2 ^ bits ∧ n = wrapSign bits (sign == ascii "-") (numeralValue ds) ∧
    s = gap ++ (sign ++ (ds ++ rest))

/-- White space before the numeral. -/
theorem Reads.space {bits n : Nat} {b : Byte} {s rest : Bytes} (h : Reads bits s n rest)
    (hb : isSpace b = true) : Reads bits (b :: s) n rest := by
  obtain ⟨gap, sign, ds, hgap, hrest⟩ := h
  obtain ⟨hsign, hds, hne, hstops, hvalue, hn, rfl⟩ := hrest
  exact ⟨b :: gap, sign, ds, by simp [hb, hgap], hsign, hds, hne, hstops, hvalue, hn, rfl⟩

theorem readSign_sign {sign : Bytes} (hsign : IsSignText sign) {ds : Bytes} (hds : Digits ds)
    (hne : ds ≠ []) (rest : Bytes) :
    readSign (sign ++ (ds ++ rest)) = (sign == ascii "-", ds ++ rest) := by
  rcases hsign with rfl | rfl | rfl
  · exact readSign_digits rest hds hne
  · rfl
  · rfl

theorem exists_sign (s : Bytes) :
    ∃ sign, IsSignText sign ∧ readSign s = (sign == ascii "-", (readSign s).2) ∧
      s = sign ++ (readSign s).2 := by
  cases s with
  | nil => exact ⟨[], Or.inl rfl, rfl, rfl⟩
  | cons b s =>
    by_cases hminus : b = '-'
    · exact ⟨ascii "-", Or.inr (Or.inl rfl), by simp [readSign, hminus],
        by simp [readSign, hminus]; rfl⟩
    · by_cases hplus : b = '+'
      · exact ⟨ascii "+", Or.inr (Or.inr rfl), by simp [readSign, hplus]; rfl,
          by simp [readSign, hplus]; rfl⟩
      · refine ⟨[], Or.inl rfl, ?_, by simp [readSign, hminus, hplus]⟩
        rw [readSign, if_neg hminus, if_neg hplus]
        rfl

theorem stops_sign {sign : Bytes} (hsign : IsSignText sign) {ds : Bytes} (hds : Digits ds)
    (hne : ds ≠ []) (rest : Bytes) : Stops isSpace (sign ++ (ds ++ rest)) := by
  rcases hsign with rfl | rfl | rfl
  · obtain ⟨b, t, rfl⟩ := List.exists_cons_of_ne_nil hne
    exact (stops_cons _ _ _).mpr (isSpace_of_isDigit (hds b (by simp)))
  · exact (stops_cons _ _ _).mpr (by decide)
  · exact (stops_cons _ _ _).mpr (by decide)

/-- The scan of a text that begins with a numeral, step by step. -/
theorem scan_numeral {gap sign ds rest : Bytes} (hgap : Blank gap) (hsign : IsSignText sign)
    (hds : Digits ds) (hne : ds ≠ []) (hrest : Stops isDigit rest) :
    readSign (skipSpaces (gap ++ (sign ++ (ds ++ rest)))) = (sign == ascii "-", ds ++ rest) ∧
      digitsOf (ds ++ rest) = ds ∧ afterDigits (ds ++ rest) = rest := by
  rw [skipSpaces_blank _ hgap, skipSpaces_of_stops (stops_sign hsign hds hne rest),
    readSign_sign hsign hds hne]
  exact ⟨rfl, digitsOf_append hds hrest, afterDigits_append hds hrest⟩

/-- Every text is white space, a sign, digits and a rest; possibly without digits. -/
theorem exists_scan (s : Bytes) :
    ∃ gap sign, Blank gap ∧ IsSignText sign ∧
      (readSign (skipSpaces s)).1 = (sign == ascii "-") ∧
      s = gap ++ (sign ++ (digitsOf (readSign (skipSpaces s)).2 ++
        afterDigits (readSign (skipSpaces s)).2)) := by
  obtain ⟨gap, hgap, heq, _⟩ := exists_gap s
  obtain ⟨sign, hsign, hread, hs⟩ := exists_sign (skipSpaces s)
  refine ⟨gap, sign, hgap, hsign, congrArg Prod.fst hread, ?_⟩
  rw [digitsOf_append_afterDigits, ← hs]
  exact heq

theorem extractUnsigned_eq_some_iff {bits n : Nat} {s rest : Bytes} :
    extractUnsigned bits s = some (n, rest) ↔ Reads bits s n rest := by
  constructor
  · intro h
    obtain ⟨gap, sign, hgap, hsign, hneg, heq⟩ := exists_scan s
    simp only [extractUnsigned] at h
    split at h
    · cases h
    · next hcond =>
      cases h
      rw [not_or, Nat.not_le] at hcond
      exact ⟨gap, sign, _, hgap, hsign, digits_digitsOf _, hcond.1, stops_afterDigits _, hcond.2,
        by rw [hneg], heq⟩
  · rintro ⟨gap, sign, ds, hgap, hsign, hds, hne, hrest, hvalue, rfl, rfl⟩
    obtain ⟨hread, hdigits, hafter⟩ := scan_numeral hgap hsign hds hne hrest
    simp only [extractUnsigned, hread, hdigits, hafter, hne, false_or, Nat.not_le.mpr hvalue,
      ↓reduceIte]

theorem strtoul_eq_some_iff {bits n : Nat} {s : Bytes} :
    strtoul bits s = some ⟨n, false⟩ ↔ ∃ rest, Reads bits s n rest := by
  constructor
  · intro h
    obtain ⟨gap, sign, hgap, hsign, hneg, heq⟩ := exists_scan s
    simp only [strtoul] at h
    split at h
    · cases h
    · next hne =>
      split at h
      · cases h
      · next hvalue =>
        cases h
        exact ⟨_, gap, sign, _, hgap, hsign, digits_digitsOf _, hne, stops_afterDigits _,
          Nat.not_le.mp hvalue, by rw [hneg], heq⟩
  · rintro ⟨rest, gap, sign, ds, hgap, hsign, hds, hne, hrest, hvalue, rfl, rfl⟩
    obtain ⟨hread, hdigits, _⟩ := scan_numeral hgap hsign hds hne hrest
    simp only [strtoul, hread, hdigits, hne, Nat.not_le.mpr hvalue, ↓reduceIte]

/-! ## White space after a numeral -/

theorem stops_isDigit_blank {gap : Bytes} (h : Blank gap) : Stops isDigit gap := by
  intro b hb
  have hspace := h b (List.mem_of_mem_head? hb)
  by_contra hdigit
  rw [isSpace_of_isDigit (Bool.not_eq_false _ ▸ hdigit)] at hspace
  cases hspace

theorem digitsOf_append_blank {gap : Bytes} (s : Bytes) (h : Blank gap) :
    digitsOf (s ++ gap) = digitsOf s ∧ afterDigits (s ++ gap) = afterDigits s ++ gap :=
  takeWhile_before s (stops_isDigit_blank h)

theorem readSign_append_blank {s gap : Bytes} (hs : ¬Blank s) :
    readSign (skipSpaces (s ++ gap)) =
      ((readSign (skipSpaces s)).1, (readSign (skipSpaces s)).2 ++ gap) := by
  rw [skipSpaces_append gap hs]
  have hne : skipSpaces s ≠ [] := fun hnil => hs (skipSpaces_eq_nil_iff.mp hnil)
  obtain ⟨b, t, ht⟩ := List.exists_cons_of_ne_nil hne
  simp only [ht, List.cons_append, readSign]
  split
  · rfl
  · split <;> rfl

theorem extractUnsigned_append_blank {bits : Nat} {s gap : Bytes} (hgap : Blank gap) :
    extractUnsigned bits (s ++ gap) =
      (extractUnsigned bits s).map fun p => (p.1, p.2 ++ gap) := by
  by_cases hs : Blank s
  · have hnone : ∀ t, Blank t → extractUnsigned bits t = none := by
      intro t ht
      simp [extractUnsigned, skipSpaces_eq_nil_iff.mpr ht, readSign, digitsOf]
    rw [hnone s hs, hnone _ (by simp [hs, hgap])]
    rfl
  · obtain ⟨hdigits, hafter⟩ := digitsOf_append_blank (readSign (skipSpaces s)).2 hgap
    simp only [extractUnsigned, readSign_append_blank hs, hdigits, hafter]
    split <;> rfl

theorem strtoul_append_blank {bits : Nat} {s gap : Bytes} (hgap : Blank gap) :
    strtoul bits (s ++ gap) = strtoul bits s := by
  by_cases hs : Blank s
  · have hnone : ∀ t, Blank t → strtoul bits t = none := by
      intro t ht
      simp [strtoul, skipSpaces_eq_nil_iff.mpr ht, readSign, digitsOf]
    rw [hnone s hs, hnone _ (by simp [hs, hgap])]
  · simp only [strtoul, readSign_append_blank hs, digitsOf_append_blank _ hgap]

theorem strtoul_trim (bits : Nat) (s : Bytes) : strtoul bits (trim s) = strtoul bits s := by
  obtain ⟨before, after, hbefore, hafter, heq, _⟩ := exists_trim s
  have hskip : strtoul bits (before ++ (trim s ++ after)) = strtoul bits (trim s ++ after) := by
    rw [strtoul, skipSpaces_blank _ hbefore, ← strtoul]
  conv_rhs => rw [heq, hskip, strtoul_append_blank hafter]

end Cxx
