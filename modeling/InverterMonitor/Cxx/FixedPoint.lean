import InverterMonitor.Cxx.Scans
import Mathlib.Tactic.Ring

/-!
# Doubles printed with a fixed number of digits

* `formatFixed_eq`: `%.*f` prints a sign, the whole part and the fraction of the
  rounded value;
* `halfEvenDiv_eq`: the rounding, for values that are near an integer;
* `extractUnsigned_formatFixed`: what a stream extracts from such a text into an
  unsigned integer.
-/

namespace Cxx
open Text

/-! ## Numerals of a given length -/

theorem numeralValue_concat (ds : Bytes) (b : Byte) :
    numeralValue (ds ++ [b]) = numeralValue ds * 10 + digitValue b := by
  simp [numeralValue]

theorem numeralValue_append (ds es : Bytes) :
    numeralValue (ds ++ es) = numeralValue ds * 10 ^ es.length + numeralValue es := by
  induction es using List.reverseRecOn with
  | nil => simp [numeralValue]
  | append_singleton es b ih =>
    rw [← List.append_assoc, numeralValue_concat, numeralValue_concat, ih, List.length_append,
      List.length_singleton, pow_succ]
    ring

theorem digitValue_lt {b : Byte} (h : isDigit b = true) : digitValue b < 10 := by
  simp only [isDigit, Bool.and_eq_true, decide_eq_true_eq, UInt8.le_iff_toNat_le] at h
  have hle : b.toNat ≤ 57 := h.2
  unfold digitValue
  omega

theorem numeralValue_lt {ds : Bytes} (h : Digits ds) : numeralValue ds < 10 ^ ds.length := by
  induction ds using List.reverseRecOn with
  | nil => simp [numeralValue]
  | append_singleton ds b ih =>
    have hb := digitValue_lt (h b (by simp))
    have hds := ih fun b' hb' => h b' (by simp [hb'])
    rw [numeralValue_concat, List.length_append, List.length_singleton, pow_succ]
    omega

/-- The digits before the last `p` ones. -/
theorem numeralValue_take {ds : Bytes} (h : Digits ds) (p : Nat) :
    numeralValue (ds.take (ds.length - p)) = numeralValue ds / 10 ^ p := by
  rcases Nat.lt_or_ge ds.length p with hp | hp
  · have hlt : numeralValue ds < 10 ^ p :=
      Nat.lt_of_lt_of_le (numeralValue_lt h) (Nat.pow_le_pow_right (by decide) (by omega))
    rw [Nat.sub_eq_zero_of_le (by omega), Nat.div_eq_of_lt hlt]
    rfl
  · have hsplit := numeralValue_append (ds.take (ds.length - p)) (ds.drop (ds.length - p))
    have hlength : (ds.drop (ds.length - p)).length = p := by
      rw [List.length_drop]
      omega
    have hdrop : Digits (ds.drop (ds.length - p)) := fun b hb => h b (List.mem_of_mem_drop hb)
    have hlt := numeralValue_lt hdrop
    rw [List.take_append_drop, hlength] at hsplit
    rw [hlength] at hlt
    rw [hsplit, Nat.mul_comm, Nat.mul_add_div (Nat.pow_pos (by decide)), Nat.div_eq_of_lt hlt,
      Nat.add_zero]

/-! ## The text -/

theorem digits_zeros (n : Nat) : Digits (List.replicate n ('0' : Byte)) := by
  intro b hb
  rw [List.eq_of_mem_replicate hb]
  decide

theorem numeralValue_zeros (n : Nat) (ds : Bytes) :
    numeralValue (List.replicate n ('0' : Byte) ++ ds) = numeralValue ds := by
  have hzeros : numeralValue (List.replicate n ('0' : Byte)) = 0 := by
    induction n with
    | zero => rfl
    | succ n ih =>
      rw [List.replicate_succ', numeralValue_concat, ih]
      decide
  rw [numeralValue_append, hzeros, Nat.zero_mul, Nat.zero_add]

/-- A finite double is printed as a sign, the digits of the whole part, a point and the rest. -/
theorem formatFixed_eq (p : Nat) {x : Float} {n d : Nat} (h : quotient x = some (n, d)) :
    ∃ whole fraction, Digits whole ∧ whole ≠ [] ∧
      numeralValue whole = halfEvenDiv (n * 10 ^ p) d / 10 ^ p ∧
      formatFixed p x = signText x ++ (whole ++ ('.' : Byte) :: fraction) := by
  simp only [formatFixed, h]
  generalize halfEvenDiv (n * 10 ^ p) d = v
  generalize hpadded :
    List.replicate (p + 1 - (decimal v).length) ('0' : Byte) ++ decimal v = padded
  have hdigits : Digits padded := by
    rw [← hpadded]
    intro b hb
    rcases List.mem_append.mp hb with hb | hb
    · exact digits_zeros _ b hb
    · exact digits_decimal v b hb
  have hlength : p + 1 ≤ padded.length := by
    rw [← hpadded, List.length_append, List.length_replicate]
    omega
  have hvalue : numeralValue padded = v := by
    rw [← hpadded, numeralValue_zeros, numeralValue_decimal]
  refine ⟨padded.take (padded.length - p), padded.drop (padded.length - p), ?_, ?_, ?_, ?_⟩
  · exact fun b hb => hdigits b (List.mem_of_mem_take hb)
  · intro hnil
    have hlen := congrArg List.length hnil
    rw [List.length_take, List.length_nil] at hlen
    omega
  · rw [numeralValue_take hdigits, hvalue]
  · rw [List.append_assoc]

/-- A quotient within half a unit of `v` rounds to `v`. -/
theorem halfEvenDiv_eq {a b v : Nat} (hbelow : 2 * a < (2 * v + 1) * b)
    (habove : 2 * v * b < 2 * a + b) : halfEvenDiv a b = v := by
  rw [Nat.add_mul, Nat.one_mul, Nat.mul_assoc] at hbelow
  rw [Nat.mul_assoc] at habove
  rcases Nat.lt_or_ge a (v * b) with hlt | hge
  · cases v with
    | zero => omega
    | succ u =>
      rw [Nat.add_mul, Nat.one_mul] at hbelow habove hlt
      have hdiv : a / b = u := by
        rw [Nat.div_eq_iff (by omega)]
        omega
      have hmod := Nat.div_add_mod a b
      rw [hdiv, Nat.mul_comm] at hmod
      simp only [halfEvenDiv, hdiv]
      rw [if_neg (by omega), if_pos (by omega)]
  · have hdiv : a / b = v := by
      rw [Nat.div_eq_iff (by omega)]
      omega
    have hmod := Nat.div_add_mod a b
    rw [hdiv, Nat.mul_comm] at hmod
    simp only [halfEvenDiv, hdiv]
    rw [if_pos (by omega)]

/-! ## The text, read as an unsigned integer -/

theorem extractUnsigned_formatFixed (p : Nat) {x : Float} {n d : Nat}
    (h : quotient x = some (n, d)) (hlt : halfEvenDiv (n * 10 ^ p) d / 10 ^ p < 2 ^ 64) :
    ∃ rest, extractUnsigned 64 (formatFixed p x) =
      some (wrapSign 64 (isNegative x) (halfEvenDiv (n * 10 ^ p) d / 10 ^ p), rest) := by
  obtain ⟨whole, fraction, hdigits, hne, hvalue, htext⟩ := formatFixed_eq p h
  refine ⟨('.' : Byte) :: fraction, extractUnsigned_eq_some_iff.mpr ?_⟩
  refine ⟨[], signText x, whole, by simp [Blank], ?_, hdigits, hne, ?_, ?_, ?_, ?_⟩
  · unfold signText IsSignText
    split
    · exact Or.inr (Or.inl rfl)
    · exact Or.inl rfl
  · exact (stops_cons _ _ _).mpr (by decide)
  · rw [hvalue]
    exact hlt
  · rw [hvalue]
    unfold signText
    cases isNegative x <;> rfl
  · rw [htext, List.nil_append]

end Cxx
