import Mathlib.Data.List.DropRight
import Mathlib.Data.UInt

/-!
# Byte strings

Texts are lists of bytes and a character constant stands for its ASCII code.
The character classes are those of the C locale.  Proved here:

* `takeWhile_append_stop`, `dropWhile_append_stop`: a scan over a run of
  accepted bytes stops exactly at the first refused one;
* `nextWord_append`: the word extraction returns a word that is followed by
  white space or by the end;
* `numeralValue_decimal`: a decimal numeral denotes the number it was printed
  from, and `decimal_digits`, `decimal_ne_nil`: it is a non-empty run of digits.
-/

namespace Text

abbrev Byte := UInt8
abbrev Bytes := List Byte

instance : Coe Char Byte := ⟨Char.toUInt8⟩

def ascii (s : String) : Bytes := s.toList.map Char.toUInt8

/-- A check of the bytes of a text, not one of all 256 values. -/
instance (p : Byte → Prop) [DecidablePred p] (s : Bytes) : Decidable (∀ b ∈ s, p b) :=
  List.decidableBAll p s

/-! ## Character classes -/

def isSpace (b : Byte) : Bool := b == ' ' || (9 ≤ b && b ≤ 13)
def isDigit (b : Byte) : Bool := 48 ≤ b && b ≤ 57
def toLower (b : Byte) : Byte := if 65 ≤ b && b ≤ 90 then b + 32 else b

def lower (s : Bytes) : Bytes := s.map toLower

/-- A digit is no character outside `0` .. `9`. -/
theorem ne_of_isDigit {b c : Byte} (hb : isDigit b = true) (hc : isDigit c = false) : b ≠ c := by
  rintro rfl
  rw [hb] at hc
  cases hc

theorem isSpace_of_isDigit {b : Byte} (h : isDigit b = true) : isSpace b = false := by
  have h32 : (' ' : Byte) = 32 := by decide
  simp only [isDigit, isSpace, h32, Bool.and_eq_true, decide_eq_true_eq, Bool.or_eq_false_iff,
    beq_eq_false_iff_ne, Bool.and_eq_false_iff, decide_eq_false_iff_not] at h ⊢
  grind

theorem toLower_of_isDigit {b : Byte} (h : isDigit b = true) : toLower b = b := by
  simp only [isDigit, Bool.and_eq_true, decide_eq_true_eq] at h
  have h65 : ¬ 65 ≤ b := by grind
  simp [toLower, h65]

/-! ## Scans -/

/-- The remaining text begins outside the class `p`, or is empty. -/
def Stops (p : Byte → Bool) (s : Bytes) : Prop := ∀ b ∈ s.head?, p b = false

@[simp] theorem stops_nil (p : Byte → Bool) : Stops p [] := by simp [Stops]

@[simp] theorem stops_cons (p : Byte → Bool) (b : Byte) (s : Bytes) :
    Stops p (b :: s) ↔ p b = false := by simp [Stops]

theorem stops_dropWhile (p : Byte → Bool) (s : Bytes) : Stops p (s.dropWhile p) := by
  induction s with
  | nil => simp
  | cons b s ih =>
    cases h : p b
    · simp [h]
    · simpa [h] using ih

theorem takeWhile_of_stops {p : Byte → Bool} {s : Bytes} (h : Stops p s) :
    s.takeWhile p = [] := by
  cases s with
  | nil => rfl
  | cons b s => simp_all

theorem dropWhile_of_stops {p : Byte → Bool} {s : Bytes} (h : Stops p s) :
    s.dropWhile p = s := by
  cases s with
  | nil => rfl
  | cons b s => simp_all

theorem takeWhile_append_stop {p : Byte → Bool} {s rest : Bytes} (hs : ∀ b ∈ s, p b = true)
    (hr : Stops p rest) : (s ++ rest).takeWhile p = s := by
  rw [List.takeWhile_append_of_pos hs, takeWhile_of_stops hr, List.append_nil]

theorem dropWhile_append_stop {p : Byte → Bool} {s rest : Bytes} (hs : ∀ b ∈ s, p b = true)
    (hr : Stops p rest) : (s ++ rest).dropWhile p = rest := by
  rw [List.dropWhile_append_of_pos hs, dropWhile_of_stops hr]

/-- What stops `p` may stand behind any text. -/
theorem takeWhile_before {p : Byte → Bool} {t : Bytes} (s : Bytes) (h : Stops p t) :
    (s ++ t).takeWhile p = s.takeWhile p ∧ (s ++ t).dropWhile p = s.dropWhile p ++ t := by
  induction s with
  | nil => exact ⟨takeWhile_of_stops h, dropWhile_of_stops h⟩
  | cons b s ih =>
    cases hb : p b with
    | false => simp [hb]
    | true => simp [hb, ih]

theorem takeWhile_all (p : Byte → Bool) (s : Bytes) : ∀ b ∈ s.takeWhile p, p b = true :=
  fun _ hb => List.mem_takeWhile_imp hb

/-! ## Words and trimming -/

/-- White space only. -/
def Blank (s : Bytes) : Prop := ∀ b ∈ s, isSpace b = true

instance (s : Bytes) : Decidable (Blank s) :=
  decidable_of_iff (s.all isSpace = true) List.all_eq_true

@[simp] theorem blank_nil : Blank [] := by simp [Blank]

@[simp] theorem blank_cons {b : Byte} {s : Bytes} :
    Blank (b :: s) ↔ isSpace b = true ∧ Blank s := by
  simp [Blank]

@[simp] theorem blank_append {s t : Bytes} : Blank (s ++ t) ↔ Blank s ∧ Blank t := by
  simp only [Blank, List.mem_append]
  grind

def skipSpaces (s : Bytes) : Bytes := s.dropWhile isSpace

/-- The next run of bytes other than white space, and what follows it. -/
def nextWord (s : Bytes) : Option (Bytes × Bytes) :=
  let t := skipSpaces s
  let word := t.takeWhile (fun b => !isSpace b)
  if word = [] then none else some (word, t.dropWhile (fun b => !isSpace b))

def isWord (s : Bytes) : Prop := s ≠ [] ∧ ∀ b ∈ s, isSpace b = false

instance (s : Bytes) : Decidable (isWord s) :=
  decidable_of_iff (s ≠ [] ∧ s.all (!isSpace ·) = true) (by simp [isWord])

theorem skipSpaces_cons {b : Byte} (s : Bytes) (h : isSpace b = false) :
    skipSpaces (b :: s) = b :: s := by
  simp [skipSpaces, h]

theorem skipSpaces_word {w : Bytes} (rest : Bytes) (h : isWord w) :
    skipSpaces (w ++ rest) = w ++ rest := by
  obtain ⟨hne, hw⟩ := h
  cases w with
  | nil => exact absurd rfl hne
  | cons b w => exact skipSpaces_cons (w ++ rest) (hw b (by simp))

theorem nextWord_append {w rest : Bytes} (hw : isWord w)
    (hr : Stops (fun b => !isSpace b) rest) : nextWord (w ++ rest) = some (w, rest) := by
  have hall : ∀ b ∈ w, (fun b => !isSpace b) b = true := by
    intro b hb
    simp [hw.2 b hb]
  simp only [nextWord, skipSpaces_word rest hw, takeWhile_append_stop hall hr,
    dropWhile_append_stop hall hr, hw.1, ↓reduceIte]

theorem nextWord_space {b : Byte} (s : Bytes) (h : isSpace b = true) :
    nextWord (b :: s) = nextWord s := by
  simp [nextWord, skipSpaces, h]

/-- Drop the bytes of the class `p` at both ends. -/
def trimBy (p : Byte → Bool) (s : Bytes) : Bytes := (s.dropWhile p).rdropWhile p

def trim (s : Bytes) : Bytes := trimBy isSpace s

/-! ## Decimal numerals -/

def decimal (n : Nat) : Bytes := (Nat.toDigits 10 n).map Char.toUInt8

def digitValue (b : Byte) : Nat := b.toNat - 48

def numeralValue (ds : Bytes) : Nat := ds.foldl (fun v b => v * 10 + digitValue b) 0

private theorem toUInt8_of_isDigit {c : Char} (h : c.isDigit = true) :
    isDigit c.toUInt8 = true ∧ digitValue c.toUInt8 = c.toNat - '0'.toNat := by
  simp only [Char.isDigit, Bool.and_eq_true, decide_eq_true_eq] at h
  have hc : 48 ≤ c.toNat ∧ c.toNat ≤ 57 :=
    ⟨UInt32.le_iff_toNat_le.mp h.1, UInt32.le_iff_toNat_le.mp h.2⟩
  have hn : c.toUInt8.toNat = c.toNat := by
    change c.val.toUInt8.toNat = c.val.toNat
    change 48 ≤ c.val.toNat ∧ c.val.toNat ≤ 57 at hc
    rw [UInt32.toNat_toUInt8]
    omega
  constructor
  · simp only [isDigit, Bool.and_eq_true, decide_eq_true_eq, UInt8.le_iff_toNat_le, hn]
    exact hc
  · rw [digitValue, hn]
    rfl

theorem decimal_ne_nil (n : Nat) : decimal n ≠ [] := by
  simp [decimal, Nat.toDigits_ne_nil]

theorem decimal_digits (n : Nat) : ∀ b ∈ decimal n, isDigit b = true := by
  intro b hb
  obtain ⟨c, hc, rfl⟩ := List.mem_map.mp hb
  exact (toUInt8_of_isDigit (Nat.isDigit_of_mem_toDigits (by omega) (by omega) hc)).1

theorem numeralValue_decimal (n : Nat) : numeralValue (decimal n) = n := by
  have hfold : ∀ (cs : List Char) (v : Nat), (∀ c ∈ cs, c.isDigit = true) →
      (cs.map Char.toUInt8).foldl (fun v b => v * 10 + digitValue b) v =
        Nat.ofDigitChars 10 cs v := by
    intro cs
    induction cs with
    | nil => intro v _; simp
    | cons c cs ih =>
      intro v hcs
      rw [List.map_cons, List.foldl_cons, ih _ (fun c' hc' => hcs c' (by simp [hc'])),
        (toUInt8_of_isDigit (hcs c (by simp))).2, Nat.ofDigitChars_cons, Nat.mul_comm]
  rw [numeralValue, decimal,
    hfold _ 0 (fun c hc => Nat.isDigit_of_mem_toDigits (by omega) (by omega) hc),
    Nat.ofDigitChars_ten_toDigits]

end Text
