import InverterMonitor.Text.Bytes
import Mathlib.Tactic.Linarith

/-!
# Timestamps as text

Dates and times of day in the proleptic Gregorian calendar, from the year 0 to
9999, with their texts of a fixed width.

* `digits_append_lt_iff`: numbers of one width are ordered like their texts;
* `total_lt_iff`: the order of positions in a row of blocks;
* `text_append_lt_iff`: texts that start with timestamps are ordered by their
  instants, then by what follows.
-/

namespace InverterMonitor.Timestamps
open Text

/-! ## Numbers of a fixed width -/

def digits : Nat → Nat → Bytes
  | 0, _ => []
  | width + 1, n => digits width (n / 10) ++ [48 + (n % 10).toUInt8]

@[simp]
theorem length_digits (width n : Nat) : (digits width n).length = width := by
  induction width generalizing n with
  | zero => rfl
  | succ width ih => simp [digits, ih]

theorem append_lt_iff {a b x y : Bytes} (h : a.length = b.length) :
    a ++ x < b ++ y ↔ a < b ∨ a = b ∧ x < y := by
  induction a generalizing b with
  | nil =>
    cases b with
    | nil => simp
    | cons d b => cases h
  | cons c a ih =>
    cases b with
    | nil => cases h
    | cons d b =>
      rw [List.cons_append, List.cons_append, List.cons_lt_cons_iff, List.cons_lt_cons_iff,
        ih (Nat.succ.inj h), List.cons.injEq]
      tauto

theorem toNat_digit (n : Nat) : (48 + (n % 10).toUInt8 : Byte).toNat = 48 + n % 10 := by
  rw [UInt8.toNat_add, Nat.toUInt8, UInt8.toNat_ofNat']
  change (48 + n % 10 % 256) % 256 = 48 + n % 10
  omega

theorem digits_inj {width n m : Nat} (hn : n < 10 ^ width) (hm : m < 10 ^ width) :
    digits width n = digits width m ↔ n = m := by
  refine ⟨fun h => ?_, congrArg _⟩
  induction width generalizing n m with
  | zero =>
    rw [Nat.pow_zero] at hn hm
    omega
  | succ width ih =>
    rw [Nat.pow_succ] at hn hm
    obtain ⟨hfront, hback⟩ := List.append_inj h (by simp)
    have hrest := ih (n := n / 10) (m := m / 10) (by omega) (by omega) hfront
    have hlast := congrArg UInt8.toNat (List.cons.inj hback).1
    rw [toNat_digit, toNat_digit] at hlast
    omega

theorem digits_lt_iff {width n m : Nat} (hn : n < 10 ^ width) (hm : m < 10 ^ width) :
    digits width n < digits width m ↔ n < m := by
  induction width generalizing n m with
  | zero =>
    rw [Nat.pow_zero] at hn hm
    simp only [digits, List.not_lt_nil, false_iff]
    omega
  | succ width ih =>
    rw [Nat.pow_succ] at hn hm
    have hn' : n / 10 < 10 ^ width := by omega
    have hm' : m / 10 < 10 ^ width := by omega
    rw [digits, digits, append_lt_iff (by simp), ih hn' hm', digits_inj hn' hm',
      List.cons_lt_cons_iff, UInt8.lt_iff_toNat_lt, toNat_digit, toNat_digit]
    simp only [List.not_lt_nil, and_false, or_false]
    omega

theorem digits_append_lt_iff {width n m : Nat} (hn : n < 10 ^ width) (hm : m < 10 ^ width)
    {x y : Bytes} : digits width n ++ x < digits width m ++ y ↔ n < m ∨ n = m ∧ x < y := by
  rw [append_lt_iff (by simp), digits_lt_iff hn hm, digits_inj hn hm]

/-! ## The calendar -/

/-- The beginning of block `n` in a row of blocks. -/
def total (size : Nat → Nat) : Nat → Nat
  | 0 => 0
  | n + 1 => total size n + size n

theorem total_le (size : Nat → Nat) {a b : Nat} (h : a < b) :
    total size a + size a ≤ total size b := by
  induction b with
  | zero => cases h
  | succ b ih =>
    rcases Nat.lt_or_eq_of_le (Nat.le_of_lt_succ h) with hlt | rfl
    · exact le_trans (ih hlt) (Nat.le_add_right _ _)
    · exact le_refl _

theorem total_lt_iff {size : Nat → Nat} {a b x y : Nat} (hx : x < size a) (hy : y < size b) :
    total size a + x < total size b + y ↔ a < b ∨ a = b ∧ x < y := by
  rcases Nat.lt_trichotomy a b with h | rfl | h
  · have hle := total_le size h
    simp only [h, true_or, iff_true]
    omega
  · simp
  · have hle := total_le size h
    constructor
    · intro hlt
      omega
    · rintro (hlt | ⟨heq, _⟩) <;> omega

def isLeap (year : Nat) : Bool := year % 4 == 0 && (year % 100 != 0 || year % 400 == 0)

/-- Months are counted from one. -/
def daysInMonth (year : Nat) : Nat → Nat
  | 2 => if isLeap year then 29 else 28
  | 4 | 6 | 9 | 11 => 30
  | 1 | 3 | 5 | 7 | 8 | 10 | 12 => 31
  | _ => 0

def daysInYear (year : Nat) : Nat := total (daysInMonth year) 13

example : daysInYear 1900 = 365 ∧ daysInYear 2000 = 366 := by decide

structure Timestamp where
  year : Nat
  month : Nat
  day : Nat
  hour : Nat
  minute : Nat
  second : Nat
  year_lt : year < 10000
  month_le : month ≤ 12
  day_pos : 0 < day
  day_le : day ≤ daysInMonth year month
  hour_lt : hour < 24
  minute_lt : minute < 60
  second_lt : second < 60

namespace Timestamp

/-- The days since the beginning of the year 0. -/
def days (t : Timestamp) : Nat :=
  total daysInYear t.year + (total (daysInMonth t.year) t.month + (t.day - 1))

/-- The seconds since the beginning of the year 0. -/
def instant (t : Timestamp) : Nat := ((t.days * 24 + t.hour) * 60 + t.minute) * 60 + t.second

/-- `%Y-%m-%dT%H:%M:%S` -/
def text (t : Timestamp) : Bytes :=
  digits 4 t.year ++ (ascii "-" ++ (digits 2 t.month ++ (ascii "-" ++ (digits 2 t.day ++
    (ascii "T" ++ (digits 2 t.hour ++ (ascii ":" ++ (digits 2 t.minute ++ (ascii ":" ++
      digits 2 t.second)))))))))

theorem day_lt (t : Timestamp) : t.day < 100 := by
  have hle : daysInMonth t.year t.month ≤ 31 := by
    unfold daysInMonth
    split <;> first | omega | (split <;> omega)
  have hday := t.day_le
  omega

theorem days_lt_iff (t u : Timestamp) :
    t.days < u.days ↔
      t.year < u.year ∨ t.year = u.year ∧
        (t.month < u.month ∨ t.month = u.month ∧ t.day < u.day) := by
  have hinside : ∀ s : Timestamp, s.day - 1 < daysInMonth s.year s.month := fun s => by
    have := s.day_pos
    have := s.day_le
    omega
  have hyear : ∀ s : Timestamp,
      total (daysInMonth s.year) s.month + (s.day - 1) < daysInYear s.year := fun s => by
    have hmonth : _ ≤ daysInYear s.year :=
      total_le (daysInMonth s.year) (Nat.lt_succ_of_le s.month_le)
    have := hinside s
    omega
  rw [days, days, total_lt_iff (hyear t) (hyear u)]
  refine or_congr_right (and_congr_right fun heq => ?_)
  have hu := hinside u
  rw [← heq] at hu
  rw [← heq, total_lt_iff (hinside t) hu]
  have := t.day_pos
  have := u.day_pos
  omega

theorem days_eq_iff (t u : Timestamp) :
    t.days = u.days ↔ t.year = u.year ∧ t.month = u.month ∧ t.day = u.day := by
  have hlt := days_lt_iff t u
  have hgt := days_lt_iff u t
  omega

theorem instant_lt_iff (t u : Timestamp) :
    t.instant < u.instant ↔
      t.days < u.days ∨ t.days = u.days ∧
        (t.hour < u.hour ∨ t.hour = u.hour ∧
          (t.minute < u.minute ∨ t.minute = u.minute ∧ t.second < u.second)) := by
  have hhour := t.hour_lt
  have hhour' := u.hour_lt
  have hminute := t.minute_lt
  have hminute' := u.minute_lt
  have hsecond := t.second_lt
  have hsecond' := u.second_lt
  unfold instant
  omega

theorem instant_eq_iff (t u : Timestamp) :
    t.instant = u.instant ↔
      t.days = u.days ∧ t.hour = u.hour ∧ t.minute = u.minute ∧ t.second = u.second := by
  have hlt := instant_lt_iff t u
  have hgt := instant_lt_iff u t
  omega

theorem text_append_lt_iff (t u : Timestamp) (x y : Bytes) :
    t.text ++ x < u.text ++ y ↔ t.instant < u.instant ∨ t.instant = u.instant ∧ x < y := by
  have hsep : ∀ (s : String) (a b : Bytes), ascii s ++ a < ascii s ++ b ↔ a < b := fun s a b => by
    rw [append_lt_iff rfl]
    simp
  have hyear : ∀ s : Timestamp, s.year < 10 ^ 4 := fun s => s.year_lt
  have hmonth : ∀ s : Timestamp, s.month < 10 ^ 2 := fun s => by
    have := s.month_le
    omega
  have hday : ∀ s : Timestamp, s.day < 10 ^ 2 := fun s => s.day_lt
  have hhour : ∀ s : Timestamp, s.hour < 10 ^ 2 := fun s => by
    have := s.hour_lt
    omega
  have hminute : ∀ s : Timestamp, s.minute < 10 ^ 2 := fun s => by
    have := s.minute_lt
    omega
  have hsecond : ∀ s : Timestamp, s.second < 10 ^ 2 := fun s => by
    have := s.second_lt
    omega
  simp only [text, List.append_assoc, hsep, digits_append_lt_iff (hyear t) (hyear u),
    digits_append_lt_iff (hmonth t) (hmonth u), digits_append_lt_iff (hday t) (hday u),
    digits_append_lt_iff (hhour t) (hhour u), digits_append_lt_iff (hminute t) (hminute u),
    digits_append_lt_iff (hsecond t) (hsecond u), instant_lt_iff, instant_eq_iff, days_lt_iff,
    days_eq_iff]
  by_cases hxy : x < y
  · simp only [hxy, and_true]
    omega
  · simp only [hxy, and_false, or_false]
    omega

end Timestamp

end InverterMonitor.Timestamps
