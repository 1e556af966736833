import InverterMonitor.Cxx.FixedPoint
import InverterMonitor.Cxx.JsonNumbers
import InverterMonitor.Cxx.Rounding
import Mathlib.Data.Nat.Log

/-!
# Doubles that stand for short decimals

A double near a decimal number of a few digits is printed as that number, and reading the
text back gives a double near it again.

* `IsDecimal`: a double near `z / 10 ^ j`;
* `IsDecimal.formatFixed_eq`: printed with at least `j` digits after the point, it shows `z`;
* `IsDecimal.extractDouble_formatGeneral`: printed with enough significant digits and extracted,
  it is near the same number, whatever the error of the first double was;
* `IsDecimal.extractDouble_fixedText`: so it is when the text has a fixed number of digits.
-/

namespace Cxx
open Text Float.Model UnpackedFloat

/-! ## The sign and the quotient of a double -/

theorem isNegative_eq_unpackSign (x : Float) :
    isNegative x =
      (Sign.ofBitVec (@unpackSign Format.binary64 x.toBits.toBitVec) == .negative) := by
  have hlt := x.toBits.toNat_lt
  have hbit : (@unpackSign Format.binary64 x.toBits.toBitVec).toNat =
      x.toBits.toNat / 2 ^ 63 := by
    unfold unpackSign
    rw [BitVec.toNat_cast, BitVec.extractLsb_toNat, Nat.shiftRight_eq_div_pow]
    change x.toBits.toNat / 2 ^ 63 % 2 = _
    omega
  unfold isNegative
  rw [Sign.ofBitVec]
  by_cases hzero : @unpackSign Format.binary64 x.toBits.toBitVec = 0#1
  · have hsmall : x.toBits.toNat / 2 ^ 63 = 0 := by
      rw [← hbit, hzero]
      rfl
    rw [if_pos hzero, decide_eq_false (by omega)]
    rfl
  · have hlarge : x.toBits.toNat / 2 ^ 63 ≠ 0 := by
      rw [← hbit]
      exact fun h => hzero (BitVec.eq_of_toNat_eq h)
    rw [if_neg hzero, decide_eq_true (by omega)]
    rfl

/-- What the bits of a double may stand for. -/
theorem unpack_cases (x : Float) :
    let s := Sign.ofBitVec (@unpackSign Format.binary64 x.toBits.toBitVec)
    x.toModel.unpack = .infinity s ∨ x.toModel.unpack = .notANumber ∨
      x.toModel.unpack = .zero s ∨ ∃ m e hpos, x.toModel.unpack = .finite s m e hpos := by
  change let s := _; UnpackedFloat.unpack Format.binary64 x.toBits.toBitVec = .infinity s ∨
    UnpackedFloat.unpack Format.binary64 x.toBits.toBitVec = .notANumber ∨
      UnpackedFloat.unpack Format.binary64 x.toBits.toBitVec = .zero s ∨
        ∃ m e hpos, UnpackedFloat.unpack Format.binary64 x.toBits.toBitVec = .finite s m e hpos
  have hfinite : ∀ (s : Sign) (m : Nat) (e : Int) (hpos : 0 < m),
      ∃ m' e' hpos', UnpackedFloat.finite s m e hpos = .finite s m' e' hpos' :=
    fun _ m e hpos => ⟨m, e, hpos, rfl⟩
  unfold UnpackedFloat.unpack
  dsimp only
  by_cases hspecial : @unpackExponent Format.binary64 x.toBits.toBitVec = -1#11
  · rw [if_pos hspecial]
    by_cases hmantissa : @unpackMantissa Format.binary64 x.toBits.toBitVec = 0#52
    · exact Or.inl (if_pos hmantissa)
    · exact Or.inr (Or.inl (if_neg hmantissa))
  · rw [if_neg hspecial]
    by_cases hsmall : @unpackExponent Format.binary64 x.toBits.toBitVec = 0#11
    · rw [if_pos hsmall]
      by_cases hmantissa : @unpackMantissa Format.binary64 x.toBits.toBitVec = 0#52
      · exact Or.inr (Or.inr (Or.inl (dif_pos hmantissa)))
      · rw [dif_neg hmantissa]
        exact Or.inr (Or.inr (Or.inr (hfinite ..)))
    · rw [if_neg hsmall]
      exact Or.inr (Or.inr (Or.inr (hfinite ..)))

theorem isNegative_of_unpack {x : Float} {s : Sign} {m : Nat} {e : Int} {hpos : 0 < m}
    (h : x.toModel.unpack = .finite s m e hpos) : isNegative x = (s == .negative) := by
  rw [isNegative_eq_unpackSign]
  rcases unpack_cases x with hx | hx | hx | ⟨m', e', hpos', hx⟩
  · cases hx.symm.trans h
  · cases hx.symm.trans h
  · cases hx.symm.trans h
  · rw [(UnpackedFloat.finite.inj (hx.symm.trans h)).1]

theorem isNegative_of_zero {x : Float} {s : Sign} (h : x.toModel.unpack = .zero s) :
    isNegative x = (s == .negative) := by
  rw [isNegative_eq_unpackSign]
  rcases unpack_cases x with hx | hx | hx | ⟨m', e', hpos', hx⟩
  · cases hx.symm.trans h
  · cases hx.symm.trans h
  · rw [UnpackedFloat.zero.inj (hx.symm.trans h)]
  · cases hx.symm.trans h

theorem Near.quotient {k w : Nat} {s : Sign} {t : ℚ} {x : Float} (h : Near k w s t x) :
    ∃ n d, quotient x = some (n, d) ∧ 0 < n ∧ 0 < d ∧ Within k ((n : ℚ) / d) t := by
  obtain ⟨m, e, hpos, hux, hm, he, hwithin⟩ := h
  unfold Cxx.quotient
  rw [hux]
  by_cases hsign : e < 0
  · obtain ⟨a, rfl⟩ : ∃ a : Nat, e = -(a : Int) := ⟨e.natAbs, by omega⟩
    have hvalue : (m : ℚ) * 2 ^ (-(a : Int)) = (m : ℚ) / ((2 ^ a : Nat) : ℚ) := by
      rw [zpow_neg, zpow_natCast, Nat.cast_pow, div_eq_mul_inv]
      rfl
    refine ⟨m, 2 ^ a, ?_, hpos, Nat.two_pow_pos a, hvalue ▸ hwithin⟩
    simp only [if_pos hsign, Int.natAbs_neg, Int.natAbs_natCast]
  · obtain ⟨a, rfl⟩ : ∃ a : Nat, e = (a : Int) := ⟨e.natAbs, by omega⟩
    have hvalue : (m : ℚ) * 2 ^ (a : Int) = ((m * 2 ^ a : Nat) : ℚ) / ((1 : Nat) : ℚ) := by
      rw [zpow_natCast]
      push_cast
      ring
    refine ⟨m * 2 ^ a, 1, ?_, Nat.mul_pos hpos (Nat.two_pow_pos a), Nat.one_pos,
      hvalue ▸ hwithin⟩
    simp only [if_neg hsign, Int.natAbs_natCast]

theorem Near.isNegative {k w : Nat} {s : Sign} {t : ℚ} {x : Float} (h : Near k w s t x) :
    isNegative x = (s == .negative) := by
  obtain ⟨m, e, hpos, hux, -⟩ := h
  exact isNegative_of_unpack hux

/-! ## Rounding to a decimal place -/

theorem halfEvenDiv_of_near {a b v : Nat} (hb : 0 < b) (h : |(a : ℚ) / b - v| < 1 / 2) :
    halfEvenDiv a b = v := by
  have hbcast : (0 : ℚ) < b := by exact_mod_cast hb
  obtain ⟨hlow, hhigh⟩ := abs_lt.mp h
  have habove : (a : ℚ) / b * b < (v + 1 / 2) * b :=
    mul_lt_mul_of_pos_right (by linarith) hbcast
  have hbelow : (v - 1 / 2) * b < (a : ℚ) / b * b :=
    mul_lt_mul_of_pos_right (by linarith) hbcast
  rw [div_mul_cancel₀ _ hbcast.ne'] at habove hbelow
  apply halfEvenDiv_eq
  · have hcast : ((2 * a : Nat) : ℚ) < ((2 * v + 1) * b : Nat) := by
      push_cast
      linarith
    exact_mod_cast hcast
  · have hcast : ((2 * v * b : Nat) : ℚ) < (2 * a + b : Nat) := by
      push_cast
      linarith
    exact_mod_cast hcast

/-- The digits of `v` with a point before the last `p` of them. -/
def fixedText (p : Nat) (negative : Bool) (v : Nat) : Bytes :=
  let ds := decimal v
  let padded := List.replicate (p + 1 - ds.length) ('0' : Byte) ++ ds
  (if negative then ascii "-" else []) ++ padded.take (padded.length - p) ++
    ('.' : Byte) :: padded.drop (padded.length - p)

theorem fixedText_eq (p : Nat) (negative : Bool) (v : Nat) :
    ∃ whole fraction, Digits whole ∧ whole ≠ [] ∧ Digits fraction ∧ fraction.length = p ∧
      numeralValue (whole ++ fraction) = v ∧
      fixedText p negative v =
        (if negative then ascii "-" else []) ++ (whole ++ ('.' : Byte) :: fraction) := by
  unfold fixedText
  generalize hpadded :
    List.replicate (p + 1 - (decimal v).length) ('0' : Byte) ++ decimal v = padded
  have hdigits : Digits padded := by
    rw [← hpadded]
    intro b hb
    rcases List.mem_append.mp hb with hb | hb
    · exact digits_zeros _ b hb
    · exact digits_decimal v b hb
  have hlength : p + 1 ≤ padded.length := by
    rw [← hpadded, List.length_append, List.length_replicate]
    omega
  refine ⟨padded.take (padded.length - p), padded.drop (padded.length - p),
    fun b hb => hdigits b (List.mem_of_mem_take hb), ?_,
    fun b hb => hdigits b (List.mem_of_mem_drop hb), ?_, ?_, ?_⟩
  · apply List.ne_nil_of_length_pos
    rw [List.length_take]
    omega
  · rw [List.length_drop]
    omega
  · rw [List.take_append_drop, ← hpadded, numeralValue_zeros, numeralValue_decimal]
  · rw [← List.append_assoc, ← hpadded]

theorem formatFixed_near {p k w v : Nat} {s : Sign} {t : ℚ} {x : Float} (h : Near k w s t x)
    (hv : t * 10 ^ p = v) (hsmall : 2 * k * v < 2 ^ 52) :
    formatFixed p x = fixedText p (s == .negative) v := by
  obtain ⟨n, d, hquotient, -, hd, hwithin⟩ := h.quotient
  have hsmallcast : (2 : ℚ) * k * v < 2 ^ 52 := by exact_mod_cast hsmall
  have hscaled : |((n * 10 ^ p : Nat) : ℚ) / d - v| ≤ k * (1 / 2 ^ 52) * v := by
    have heq : ((n * 10 ^ p : Nat) : ℚ) / d - v = ((n : ℚ) / d - t) * 10 ^ p := by
      rw [← hv]
      push_cast
      ring
    rw [heq, abs_mul, abs_of_nonneg (by positivity : (0 : ℚ) ≤ 10 ^ p), ← hv, ← mul_assoc]
    exact mul_le_mul_of_nonneg_right hwithin (by positivity)
  have hround : halfEvenDiv (n * 10 ^ p) d = v := by
    apply halfEvenDiv_of_near hd
    refine lt_of_le_of_lt hscaled ?_
    linarith
  simp only [formatFixed, hquotient, hround, fixedText, signText, h.isNegative]

/-! ## Significant digits -/

theorem length_decimal_le_iff {n k : Nat} (hk : 0 < k) :
    (decimal n).length ≤ k ↔ n < 10 ^ k := by
  rw [decimal, List.length_map, Nat.length_toDigits_le_iff (by decide) hk]

theorem length_decimal {n k : Nat} (hlow : 10 ^ k ≤ n) (hhigh : n < 10 ^ (k + 1)) :
    (decimal n).length = k + 1 := by
  have hle := (length_decimal_le_iff (Nat.succ_pos k)).mpr hhigh
  rcases Nat.eq_zero_or_pos k with rfl | hk
  · have hpos := List.length_pos_of_ne_nil (decimal_ne_nil n)
    omega
  · have hnot := mt (length_decimal_le_iff (n := n) hk).mp (Nat.not_lt.mpr hlow)
    omega

theorem decimalExponent_eq {n d : Nat} {x : Int} (hn : 0 < n) (hd : 0 < d)
    (hlow : (10 : ℚ) ^ x ≤ n / d) (hhigh : (n : ℚ) / d < 10 ^ (x + 1)) :
    decimalExponent n d = x := by
  have hdcast : (0 : ℚ) < d := by exact_mod_cast hd
  rw [le_div_iff₀ hdcast] at hlow
  rw [div_lt_iff₀ hdcast] at hhigh
  rcases Int.lt_or_le x 0 with hx | hx
  · obtain ⟨a, rfl⟩ : ∃ a : Nat, x = -((a : Int) + 1) := ⟨x.natAbs - 1, by omega⟩
    -- `10 ^ a * n < d ≤ 10 ^ (a + 1) * n`
    have hless : 10 ^ a * n < d := by
      have hpow : (10 : ℚ) ^ (-((a : Int) + 1) + 1) = 1 / 10 ^ a := by
        have hexp : -((a : Int) + 1) + 1 = -(a : Int) := by omega
        rw [hexp, zpow_neg, zpow_natCast, one_div]
      rw [hpow, one_div, ← div_eq_inv_mul, lt_div_iff₀ (by positivity)] at hhigh
      have hcast : ((10 ^ a * n : Nat) : ℚ) < d := by
        push_cast
        linarith
      exact_mod_cast hcast
    have hmore : d ≤ 10 ^ (a + 1) * n := by
      have hpow : (10 : ℚ) ^ (-((a : Int) + 1)) = 1 / 10 ^ (a + 1) := by
        have hexp : ((a : Int) + 1) = ((a + 1 : Nat) : Int) := by push_cast; rfl
        rw [zpow_neg, hexp, zpow_natCast, one_div]
      rw [hpow, one_div, ← div_eq_inv_mul, div_le_iff₀ (by positivity)] at hlow
      have hcast : (d : ℚ) ≤ ((10 ^ (a + 1) * n : Nat) : ℚ) := by
        push_cast
        linarith
      exact_mod_cast hcast
    have hnot : ¬ d ≤ n := by
      have hone : 1 * n ≤ 10 ^ a * n := Nat.mul_le_mul_right n (Nat.pow_pos (by decide))
      omega
    have hlength : (decimal ((d - 1) / n)).length = a + 1 := by
      apply length_decimal
      · rw [Nat.le_div_iff_mul_le hn]
        omega
      · rw [Nat.div_lt_iff_lt_mul hn]
        omega
    rw [decimalExponent, if_neg hnot, hlength]
    push_cast
    rfl
  · obtain ⟨a, rfl⟩ : ∃ a : Nat, x = (a : Int) := ⟨x.natAbs, by omega⟩
    have hleast : 10 ^ a * d ≤ n := by
      rw [zpow_natCast] at hlow
      exact_mod_cast hlow
    have hmost : n < 10 ^ (a + 1) * d := by
      have hexp : ((a : Int) + 1) = ((a + 1 : Nat) : Int) := by push_cast; rfl
      rw [hexp, zpow_natCast] at hhigh
      exact_mod_cast hhigh
    have hle : d ≤ n := by
      have hone : 1 * d ≤ 10 ^ a * d := Nat.mul_le_mul_right d (Nat.pow_pos (by decide))
      omega
    have hlength : (decimal (n / d)).length = a + 1 := by
      apply length_decimal
      · rwa [Nat.le_div_iff_mul_le hd]
      · rwa [Nat.div_lt_iff_lt_mul hd]
    rw [decimalExponent, if_pos hle, hlength]
    push_cast
    omega

theorem halfEvenDiv_scaled {n d v : Nat} {shift : Int} (hd : 0 < d)
    (h : |(n : ℚ) / d * 10 ^ shift - v| < 1 / 2) :
    (if shift < 0 then halfEvenDiv n (d * 10 ^ shift.natAbs)
      else halfEvenDiv (n * 10 ^ shift.natAbs) d) = v := by
  by_cases hshift : shift < 0
  · obtain ⟨a, rfl⟩ : ∃ a : Nat, shift = -(a : Int) := ⟨shift.natAbs, by omega⟩
    rw [if_pos hshift, Int.natAbs_neg, Int.natAbs_natCast]
    apply halfEvenDiv_of_near (Nat.mul_pos hd (Nat.pow_pos (by decide)))
    have heq : (n : ℚ) / ((d * 10 ^ a : Nat) : ℚ) = (n : ℚ) / d * 10 ^ (-(a : Int)) := by
      rw [zpow_neg, zpow_natCast, ← div_eq_mul_inv, div_div]
      push_cast
      rfl
    rwa [heq]
  · obtain ⟨a, rfl⟩ : ∃ a : Nat, shift = (a : Int) := ⟨shift.natAbs, by omega⟩
    rw [if_neg hshift, Int.natAbs_natCast]
    apply halfEvenDiv_of_near hd
    have heq : ((n * 10 ^ a : Nat) : ℚ) / d = (n : ℚ) / d * 10 ^ (a : Int) := by
      rw [zpow_natCast]
      push_cast
      ring
    rwa [heq]

/-- A number of `p` digits is recovered from a quotient near it. -/
theorem significant_near {p k n d ds : Nat} {x : Int} {t : ℚ} (hn : 0 < n) (hd : 0 < d)
    (hlow : 10 ^ p ≤ ds) (hhigh : ds < 10 ^ (p + 1)) (ht : t = ds * 10 ^ (x - p))
    (h : Within k ((n : ℚ) / d) t) (hsmall : 20 * k * ds < 2 ^ 52) :
    significant (p + 1) n d = (ds, x) := by
  have hten : (10 : ℚ) ≠ 0 := by norm_num
  have hunit : (0 : ℚ) < 10 ^ (x - p) := by positivity
  generalize hq : (n : ℚ) / d = q at h
  -- the error is below a twentieth of the last digit
  have herror : |q - ds * 10 ^ (x - p)| < 1 / 20 * 10 ^ (x - p) := by
    have hcast : (20 : ℚ) * k * ds < 2 ^ 52 := by exact_mod_cast hsmall
    have hsmall' : (k : ℚ) * (1 / 2 ^ 52) * ds < 1 / 20 := by linarith
    rw [← ht]
    refine lt_of_le_of_lt h ?_
    rw [ht, ← mul_assoc]
    exact mul_lt_mul_of_pos_right hsmall' hunit
  obtain ⟨hbelow, habove⟩ := abs_lt.mp herror
  have hlowcast : (10 : ℚ) ^ p ≤ ds := by exact_mod_cast hlow
  have hhighcast : (ds : ℚ) + 1 ≤ 10 ^ (p + 1) := by exact_mod_cast hhigh
  have hfirst : (10 : ℚ) ^ x = 10 ^ p * 10 ^ (x - p) := by
    rw [← zpow_natCast, ← zpow_add₀ hten]
    congr 1
    omega
  have hnext : (10 : ℚ) ^ (x + 1) = 10 ^ (p + 1) * 10 ^ (x - p) := by
    rw [zpow_add₀ hten, hfirst, pow_succ]
    ring
  rcases le_or_gt ((10 : ℚ) ^ x) q with hcase | hcase
  · have hexponent : decimalExponent n d = x := by
      apply decimalExponent_eq hn hd (hq ▸ hcase)
      rw [hq, hnext]
      have hscaled := mul_le_mul_of_nonneg_right hhighcast hunit.le
      linarith
    have hdigits := @halfEvenDiv_scaled n d ds ((p + 1 : Nat) - 1 - x) hd (by
      have hinverse : (10 : ℚ) ^ (((p + 1 : Nat) : Int) - 1 - x) = (10 ^ (x - p))⁻¹ := by
        rw [← zpow_neg]
        congr 1
        omega
      rw [hq, hinverse]
      have hquotient : q * (10 ^ (x - p))⁻¹ - ds = (q - ds * 10 ^ (x - p)) / 10 ^ (x - p) := by
        field_simp
      rw [hquotient, abs_div, abs_of_pos hunit, div_lt_iff₀ hunit]
      linarith)
    simp only [significant, hexponent, hdigits]
    rw [if_neg (by omega)]
  -- just below a power of ten
  · have hpower : ds = 10 ^ p := by
      have hlt : (ds : ℚ) < 10 ^ p + 1 := by
        rw [hfirst] at hcase
        have hscaled : (ds : ℚ) * 10 ^ (x - p) < (10 ^ p + 1) * 10 ^ (x - p) := by linarith
        exact lt_of_mul_lt_mul_right hscaled hunit.le
      have hnat : ds < 10 ^ p + 1 := by exact_mod_cast hlt
      omega
    have hexponent : decimalExponent n d = x - 1 := by
      apply decimalExponent_eq hn hd
      · rw [hq, zpow_sub₀ hten, hfirst, zpow_one]
        have hone : (1 : ℚ) ≤ 10 ^ p := one_le_pow₀ (by norm_num)
        have hscaled := mul_le_mul_of_nonneg_right hone hunit.le
        have hsame := mul_le_mul_of_nonneg_right hlowcast hunit.le
        linarith
      · rw [hq, sub_add_cancel]
        exact hcase
    have hdigits := @halfEvenDiv_scaled n d (10 ^ (p + 1)) ((p + 1 : Nat) - 1 - (x - 1)) hd (by
      have hinverse : (10 : ℚ) ^ (((p + 1 : Nat) : Int) - 1 - (x - 1)) = 10 / 10 ^ (x - p) := by
        rw [div_eq_mul_inv, ← zpow_neg, ← zpow_one_add₀ hten]
        congr 1
        omega
      rw [hq, hinverse]
      have hquotient : q * (10 / 10 ^ (x - p)) - ((10 ^ (p + 1) : Nat) : ℚ) =
          10 * (q - ds * 10 ^ (x - p)) / 10 ^ (x - p) := by
        rw [hpower]
        push_cast
        field_simp
        ring
      rw [hquotient, abs_div, abs_of_pos hunit, div_lt_iff₀ hunit, abs_mul,
        abs_of_pos (by norm_num : (0 : ℚ) < 10)]
      linarith)
    simp only [significant, hexponent, hdigits, ↓reduceIte]
    rw [hpower]
    simp

/-! ## The text of a decimal numeral -/

/-- `whole.fraction`, where a fraction without digits has no point either. -/
def pointed (whole fraction : Bytes) : Bytes :=
  if fraction = [] then whole else whole ++ ('.' : Byte) :: fraction

theorem withFraction_eq_pointed (whole fraction : Bytes) :
    withFraction whole fraction = pointed whole (stripZeros fraction) := rfl

/-- Zeros at the end of a fraction count for nothing. -/
theorem stripZeros_eq (fraction : Bytes) :
    ∃ n, fraction = stripZeros fraction ++ List.replicate n ('0' : Byte) := by
  have hsplit : fraction.rdropWhile (· == ('0' : Byte)) ++ fraction.rtakeWhile (· == ('0' : Byte)) =
      fraction := List.rdropWhile_append_rtakeWhile
  have hzeros : ∀ b ∈ fraction.rtakeWhile (· == ('0' : Byte)), b = '0' := fun b hb => by
    simpa using List.mem_rtakeWhile_imp hb
  refine ⟨(fraction.rtakeWhile (· == ('0' : Byte))).length, ?_⟩
  rw [← List.eq_replicate_of_mem hzeros]
  exact hsplit.symm

theorem numeralValue_append_zeros (ds : Bytes) (n : Nat) :
    numeralValue (ds ++ List.replicate n ('0' : Byte)) = numeralValue ds * 10 ^ n := by
  have hzeros := numeralValue_zeros n []
  rw [List.append_nil] at hzeros
  rw [numeralValue_append, hzeros, List.length_replicate]
  rfl

/-- The digits of a number of `p + 1` digits, with the point behind the one of exponent `x`. -/
theorem formatSignificant_fixed {p ds : Nat} {x : Int} (hlow : 10 ^ p ≤ ds)
    (hhigh : ds < 10 ^ (p + 1)) (hx : -4 ≤ x) (hxp : x ≤ p) :
    ∃ whole fraction, Digits whole ∧ whole ≠ [] ∧ Digits fraction ∧
      (fraction.length : Int) = p - x ∧ numeralValue (whole ++ fraction) = ds ∧
      formatSignificant (p + 1) (decimal ds) x = withFraction whole fraction := by
  have hlength := length_decimal hlow hhigh
  have hdigits := digits_decimal ds
  unfold formatSignificant
  rw [if_neg (by push_cast; omega)]
  by_cases hneg : x < 0
  · rw [if_pos hneg]
    refine ⟨ascii "0", List.replicate (x.natAbs - 1) ('0' : Byte) ++ decimal ds, by decide,
      by decide, ?_, ?_, ?_, rfl⟩
    · intro b hb
      rcases List.mem_append.mp hb with hb | hb
      · exact digits_zeros _ b hb
      · exact hdigits b hb
    · rw [List.length_append, List.length_replicate, hlength]
      push_cast
      omega
    · have hzero : ascii "0" = List.replicate 1 ('0' : Byte) := rfl
      rw [hzero, numeralValue_zeros, numeralValue_zeros, numeralValue_decimal]
  · rw [if_neg hneg]
    refine ⟨_, _, fun b hb => hdigits b (List.mem_of_mem_take hb), ?_,
      fun b hb => hdigits b (List.mem_of_mem_drop hb), ?_, ?_, rfl⟩
    · simp [decimal_ne_nil]
    · rw [List.length_drop, hlength]
      push_cast
      omega
    · rw [List.take_append_drop, numeralValue_decimal]

/-! ## Extracting a numeral -/

theorem near_nearestDouble {n e : Nat} (hpos : 0 < n) (hn : n < 2 ^ 53) (he : e ≤ 22) :
    Near 4 207 .positive ((n : ℚ) / 10 ^ e) (nearestDouble n (-(e : Int))) := by
  have hexponent : (-(e : Int)).natAbs = e := by omega
  unfold nearestDouble
  rw [hexponent]
  rcases Nat.eq_zero_or_pos e with rfl | hepos
  · rw [pow_zero, div_one]
    exact near_ofNat hpos hn
  · have hneg : decide (-(e : Int) < 0) = true := decide_eq_true (by omega)
    rw [hneg]
    have hnear := near_ofScientific hpos hn he
    rw [Nat.cast_pow, Nat.cast_ofNat] at hnear
    exact hnear.mono (by positivity) (by decide) (le_refl _)

theorem Near.isFinite {k w : Nat} {s : Sign} {t : ℚ} {x : Float} (h : Near k w s t x) :
    isFinite x = true := by
  obtain ⟨n, d, hquotient, -⟩ := h.quotient
  rw [Cxx.isFinite, hquotient]
  rfl

theorem splitFraction_pointed {fraction : Bytes} (hfraction : Digits fraction) :
    splitFraction isDigit (if fraction = [] then [] else ('.' : Byte) :: fraction) =
      (fraction, []) := by
  by_cases hnil : fraction = []
  · rw [if_pos hnil, hnil]
    rfl
  · rw [if_neg hnil]
    have hstops := stops_nil isDigit
    have htake := takeWhile_append_stop hfraction hstops
    have hdrop := dropWhile_append_stop hfraction hstops
    rw [List.append_nil] at htake hdrop
    simp only [splitFraction, ↓reduceIte, htake, hdrop]

/-- What a stream extracts from a sign, digits, a point and digits. -/
theorem extractDouble_pointed {sign whole fraction : Bytes} {gap : Bytes} (hgap : Blank gap)
    (hsign : IsSignText sign) (hwhole : Digits whole) (hne : whole ≠ [])
    (hfraction : Digits fraction) :
    extractDouble (gap ++ (sign ++ pointed whole fraction)) =
      let x := withSign (sign == ascii "-")
        (nearestDouble (numeralValue (whole ++ fraction)) (-(fraction.length : Int)))
      if !isFinite x then none else some (x, []) := by
  have hpointed : pointed whole fraction =
      whole ++ (if fraction = [] then [] else ('.' : Byte) :: fraction) := by
    unfold pointed
    split
    · rw [List.append_nil]
    · rfl
  have hstops : Stops isDigit (if fraction = [] then [] else ('.' : Byte) :: fraction) := by
    split
    · exact stops_nil isDigit
    · exact (stops_cons _ _ _).mpr (by decide)
  obtain ⟨hread, hdigits, hafter⟩ := scan_numeral hgap hsign hwhole hne hstops
  rw [hpointed]
  unfold extractDouble
  rw [hread]
  simp only [hdigits, hafter, splitFraction_pointed hfraction]
  rw [if_neg (by simp [hne])]
  simp only [extractExponent, Option.bind_eq_bind, Option.bind_some, Int.zero_sub]

/-- The text of a sign. -/
def signOf (s : Sign) : Bytes := if s == .negative then ascii "-" else []

theorem isSignText_signOf (s : Sign) : IsSignText (signOf s) := by
  cases s with
  | positive => exact Or.inl rfl
  | negative => exact Or.inr (Or.inl rfl)

theorem signText_eq {x : Float} {s : Sign} (h : isNegative x = (s == .negative)) :
    signText x = signOf s := by
  rw [signText, h]
  rfl

/-! ## Short decimals -/

def signed : Sign → Nat → Int
  | .positive, n => n
  | .negative, n => -n

/-- A double near `z / 10 ^ j`; zero is exact and has no sign. -/
inductive IsDecimal (j : Nat) : Int → Float → Prop
  | zero {x : Float} : x.toModel.unpack = .zero .positive → IsDecimal j 0 x
  | near (s : Sign) {n : Nat} {x : Float} : 0 < n → Near 10 500 s ((n : ℚ) / 10 ^ j) x →
      IsDecimal j (signed s n) x

theorem signed_lt_zero {s : Sign} {n : Nat} (hn : 0 < n) :
    decide (signed s n < 0) = (s == .negative) := by
  cases s with
  | positive => exact decide_eq_false (by change ¬(n : Int) < 0; omega)
  | negative => exact decide_eq_true (by change -(n : Int) < 0; omega)

@[simp] theorem natAbs_signed (s : Sign) (n : Nat) : (signed s n).natAbs = n := by
  cases s with
  | positive => exact Int.natAbs_natCast n
  | negative =>
    change (-(n : Int)).natAbs = n
    rw [Int.natAbs_neg, Int.natAbs_natCast]

theorem signed_mul_pow (s : Sign) (n c : Nat) : signed s n * 10 ^ c = signed s (n * 10 ^ c) := by
  cases s with
  | positive =>
    change (n : Int) * 10 ^ c = ((n * 10 ^ c : Nat) : Int)
    push_cast
    rfl
  | negative =>
    change -(n : Int) * 10 ^ c = -((n * 10 ^ c : Nat) : Int)
    push_cast
    ring

theorem exists_of_mul_pow_eq {z : Int} {c m : Nat} {s : Sign} (h : z * 10 ^ c = signed s m) :
    ∃ n, z = signed s n ∧ m = n * 10 ^ c := by
  have hten : (0 : Int) < 10 ^ c := by positivity
  have hof : ∀ y : Int, y * 10 ^ c = m → ∃ n : Nat, y = n ∧ m = n * 10 ^ c := by
    intro y hy
    have hnonneg : 0 ≤ y := by
      by_contra hneg
      have hlt := Int.mul_neg_of_neg_of_pos (Int.lt_of_not_ge hneg) hten
      omega
    obtain ⟨n, rfl⟩ := Int.eq_ofNat_of_zero_le hnonneg
    exact ⟨n, rfl, by exact_mod_cast hy.symm⟩
  cases s with
  | positive => exact hof z h
  | negative =>
    obtain ⟨n, hn, hm⟩ := hof (-z) (by rw [Int.neg_mul, h]; exact Int.neg_neg _)
    exact ⟨n, by change z = -(n : Int); omega, hm⟩

theorem div_pow_extend (n j c : Nat) :
    ((n * 10 ^ c : Nat) : ℚ) / 10 ^ (j + c) = (n : ℚ) / 10 ^ j := by
  rw [pow_add, Nat.cast_mul, Nat.cast_pow, Nat.cast_ofNat]
  exact mul_div_mul_right _ _ (by positivity)

theorem quotient_zero {x : Float} {s : Sign} (h : x.toModel.unpack = .zero s) :
    quotient x = some (0, 1) := by
  simp only [quotient, h]

/-! ### Zero -/

def isPositiveZero (x : Float) : Bool :=
  match x.toModel.unpack with
  | .zero .positive => true
  | _ => false

theorem unpack_of_isPositiveZero {x : Float} (h : isPositiveZero x = true) :
    x.toModel.unpack = .zero .positive := by
  unfold isPositiveZero at h
  split at h
  · assumption
  · cases h

theorem nearestDouble_zeros : ∀ e : Fin 23,
    isPositiveZero (nearestDouble 0 (-((e : Nat) : Int))) = true := by
  decide +kernel

namespace IsDecimal

variable {j : Nat} {z : Int} {x : Float}

theorem isNegative_eq (h : IsDecimal j z x) : isNegative x = decide (z < 0) := by
  cases h with
  | zero hzero =>
    rw [isNegative_of_zero hzero]
    rfl
  | near s hn hnear =>
    rw [hnear.isNegative, signed_lt_zero hn]

theorem isFinite (h : IsDecimal j z x) : isFinite x = true := by
  cases h with
  | zero hzero =>
    rw [Cxx.isFinite, quotient_zero hzero]
    rfl
  | near s hn hnear => exact hnear.isFinite

/-- The same number over a larger power of ten. -/
theorem extend (h : IsDecimal j z x) (c : Nat) : IsDecimal (j + c) (z * 10 ^ c) x := by
  cases h with
  | zero hzero =>
    rw [Int.zero_mul]
    exact .zero hzero
  | near s hn hnear =>
    rw [signed_mul_pow]
    refine .near s (Nat.mul_pos hn (Nat.pow_pos (by decide))) ?_
    rw [div_pow_extend]
    exact hnear

theorem reduce {c : Nat} (h : IsDecimal (j + c) (z * 10 ^ c) x) : IsDecimal j z x := by
  generalize hscaled : z * 10 ^ c = scaled at h
  cases h with
  | zero hzero =>
    have hz : z = 0 := by
      rcases Int.mul_eq_zero.mp hscaled with hz | hten
      · exact hz
      · exact absurd hten (by positivity)
    rw [hz]
    exact .zero hzero
  | near s hn hnear =>
    obtain ⟨n, rfl, rfl⟩ := exists_of_mul_pow_eq hscaled
    rw [div_pow_extend] at hnear
    exact .near s (Nat.pos_of_mul_pos_right hn) hnear

/-- With `p` digits after the point, a decimal of fewer is shown as it is. -/
theorem formatFixed_eq (h : IsDecimal j z x) {p : Nat} (hj : j ≤ p)
    (hsmall : z.natAbs * 10 ^ (p - j) < 2 ^ 47) :
    formatFixed p x = fixedText p (decide (z < 0)) (z.natAbs * 10 ^ (p - j)) := by
  have hneg := h.isNegative_eq
  cases h with
  | zero hzero =>
    have hround : halfEvenDiv 0 1 = 0 := rfl
    simp only [formatFixed, quotient_zero hzero, hround, fixedText, signText, hneg, Int.natAbs_zero,
      Nat.zero_mul]
  | near s hn hnear =>
    rw [natAbs_signed] at hsmall ⊢
    rw [signed_lt_zero hn]
    refine formatFixed_near hnear ?_ (by omega)
    have hsplit : (10 : ℚ) ^ p = 10 ^ j * 10 ^ (p - j) := by
      rw [← pow_add, Nat.add_sub_cancel' hj]
    rw [hsplit]
    push_cast
    field_simp

/-- The decimal that a numeral denotes. -/
theorem of_pointed {gap whole fraction : Bytes} (s : Sign) (hgap : Blank gap)
    (hwhole : Digits whole) (hne : whole ≠ []) (hfraction : Digits fraction)
    (hsmall : numeralValue (whole ++ fraction) < 2 ^ 53) (hlength : fraction.length ≤ 22)
    (hzero : numeralValue (whole ++ fraction) = 0 → s = .positive) :
    ∃ x, extractDouble (gap ++ (signOf s ++ pointed whole fraction)) = some (x, []) ∧
      IsDecimal fraction.length (signed s (numeralValue (whole ++ fraction))) x := by
  have hread := extractDouble_pointed hgap (isSignText_signOf s) hwhole hne hfraction
  generalize numeralValue (whole ++ fraction) = n at *
  have hunsigned : IsDecimal fraction.length n (nearestDouble n (-(fraction.length : Int))) := by
    rcases Nat.eq_zero_or_pos n with rfl | hpos
    · exact .zero (unpack_of_isPositiveZero (nearestDouble_zeros ⟨_, Nat.lt_succ_of_le hlength⟩))
    · exact .near .positive hpos ((near_nearestDouble hpos hsmall hlength).mono (by positivity)
        (by decide) (by decide))
  cases s with
  | positive =>
    have hsign : (signOf .positive == ascii "-") = false := by decide
    rw [hsign] at hread
    refine ⟨_, hread.trans ?_, hunsigned⟩
    simp [withSign, hunsigned.isFinite]
  | negative =>
    have hsign : (signOf .negative == ascii "-") = true := by decide
    have hpos : 0 < n := Nat.pos_of_ne_zero fun h => nomatch hzero h
    have hneg : IsDecimal fraction.length (signed .negative n)
        (-nearestDouble n (-(fraction.length : Int))) :=
      .near .negative hpos (((near_nearestDouble hpos hsmall hlength).mono (by positivity)
        (by decide) (by decide)).neg (by decide))
    rw [hsign] at hread
    refine ⟨_, hread.trans ?_, hneg⟩
    simp [withSign, hneg.isFinite]

end IsDecimal

/-! ## Printing and extracting -/

theorem exists_digits {n : Nat} (hn : 0 < n) : ∃ q, 10 ^ q ≤ n ∧ n < 10 ^ (q + 1) :=
  ⟨Nat.log 10 n, Nat.pow_log_le_self 10 hn.ne', Nat.lt_pow_succ_log_self (by decide) n⟩

/-- With `p + 1` significant digits, a number of as many is printed with all of them. -/
theorem Near.formatGeneral_eq {k w n j p : Nat} {s : Sign} {x : Float}
    (h : Near k w s ((n : ℚ) / 10 ^ j) x) (hn : 0 < n) (hj : j ≤ 4) (hlarge : n < 10 ^ (p + 1))
    (hsmall : 20 * k * 10 ^ (p + 1) < 2 ^ 52) :
    ∃ c whole fraction, c ≤ p ∧ n * 10 ^ c < 10 ^ (p + 1) ∧ Digits whole ∧ whole ≠ [] ∧
      Digits fraction ∧ fraction.length = j + c ∧ numeralValue (whole ++ fraction) = n * 10 ^ c ∧
      formatGeneral (p + 1) x = signOf s ++ withFraction whole fraction := by
  obtain ⟨q, hlow, hhigh⟩ := exists_digits hn
  have hqp : q ≤ p :=
    Nat.le_of_lt_succ ((Nat.pow_lt_pow_iff_right (by decide)).mp (hlow.trans_lt hlarge))
  -- the digits are those of `n` with zeros behind them
  have hscale : 10 ^ p = 10 ^ q * 10 ^ (p - q) := by rw [← Nat.pow_add, Nat.add_sub_cancel' hqp]
  have hdslow : 10 ^ p ≤ n * 10 ^ (p - q) := by
    rw [hscale]
    exact Nat.mul_le_mul_right _ hlow
  have hdshigh : n * 10 ^ (p - q) < 10 ^ (p + 1) := by
    rw [Nat.pow_succ, hscale, Nat.mul_right_comm]
    exact Nat.mul_lt_mul_of_pos_right hhigh (Nat.pow_pos (by decide))
  have ht : (n : ℚ) / 10 ^ j = ((n * 10 ^ (p - q) : Nat) : ℚ) * 10 ^ (((q : Int) - j) - p) := by
    have hexponent : ((q : Int) - j) - p = -((p - q : Nat) : Int) + -(j : Int) := by
      push_cast [Nat.cast_sub hqp]
      ring
    rw [hexponent, zpow_add₀ (by norm_num), zpow_neg, zpow_neg, zpow_natCast, zpow_natCast]
    push_cast
    field_simp
  obtain ⟨a, b, hquotient, ha, hb, hwithin⟩ := h.quotient
  have herror : 20 * k * (n * 10 ^ (p - q)) < 2 ^ 52 :=
    (Nat.mul_le_mul_left _ hdshigh.le).trans_lt hsmall
  have hsignificant := significant_near ha hb hdslow hdshigh ht hwithin herror
  obtain ⟨whole, fraction, hwhole, hne, hfraction, hlength, hvalue, htext⟩ :=
    formatSignificant_fixed (x := (q : Int) - j) hdslow hdshigh (by omega) (by omega)
  refine ⟨p - q, whole, fraction, by omega, hdshigh, hwhole, hne, hfraction, by omega, hvalue, ?_⟩
  simp only [formatGeneral, hquotient, if_neg ha.ne', hsignificant, htext, signText_eq h.isNegative]

namespace IsDecimal

variable {j : Nat} {z : Int} {x : Float}

/-- Printed with `p + 1` significant digits and extracted, a decimal of as many digits stays. -/
theorem extractDouble_formatGeneral (h : IsDecimal j z x) {gap : Bytes} (hgap : Blank gap)
    (hj : j ≤ 4) {p : Nat} (hp : p ≤ 12) (hsmall : z.natAbs < 10 ^ (p + 1)) :
    ∃ y, extractDouble (gap ++ formatGeneral (p + 1) x) = some (y, []) ∧ IsDecimal j z y := by
  have hneg := h.isNegative_eq
  cases h with
  | zero hzero =>
    have htext : formatGeneral (p + 1) x = signOf .positive ++ pointed (ascii "0") [] := by
      simp only [formatGeneral, quotient_zero hzero, signText, hneg]
      rfl
    have hwhole : Digits (ascii "0") := by decide
    have hfraction : Digits [] := by decide
    obtain ⟨y, hread, hy⟩ := of_pointed .positive hgap hwhole (by decide) hfraction (by decide)
      (by decide) fun _ => rfl
    rw [htext]
    have hextended := hy.extend j
    have hnone : signed .positive (numeralValue (ascii "0" ++ [])) * 10 ^ j = 0 := Int.zero_mul _
    rw [hnone, List.length_nil, Nat.zero_add] at hextended
    exact ⟨y, hread, hextended⟩
  | near s hn hnear =>
    rename_i n
    rw [natAbs_signed] at hsmall
    have hbound : 10 ^ (p + 1) ≤ 10 ^ 13 := Nat.pow_le_pow_right (by decide) (by omega)
    obtain ⟨c, whole, fraction, hc, hfew, hwhole, hne, hfraction, hlength, hvalue, htext⟩ :=
      hnear.formatGeneral_eq hn hj hsmall (by omega)
    obtain ⟨d, hd⟩ := stripZeros_eq fraction
    have hstrip : Digits (stripZeros fraction) := fun b hb =>
      hfraction b (hd ▸ List.mem_append_left _ hb)
    have hlengths : (stripZeros fraction).length + d = j + c := by
      rw [← hlength]
      conv => rhs; rw [hd]
      rw [List.length_append, List.length_replicate]
    have hscaled : numeralValue (whole ++ stripZeros fraction) * 10 ^ d = n * 10 ^ c := by
      rw [← hvalue, ← numeralValue_append_zeros, List.append_assoc, ← hd]
    generalize hm : numeralValue (whole ++ stripZeros fraction) = m at hscaled
    have hmle : m ≤ m * 10 ^ d := Nat.le_mul_of_pos_right m (Nat.pow_pos (by decide))
    have hmpos : m ≠ 0 := by
      rintro rfl
      have hpos := Nat.mul_pos hn (Nat.pow_pos (n := c) (show 0 < 10 by decide))
      omega
    obtain ⟨y, hread, hy⟩ := of_pointed s hgap hwhole hne hstrip (by omega) (by omega)
      fun h => absurd (hm.symm.trans h) hmpos
    rw [htext, withFraction_eq_pointed]
    refine ⟨y, hread, reduce (c := c) ?_⟩
    rw [signed_mul_pow, ← hscaled, ← hlengths, ← signed_mul_pow, ← hm]
    exact hy.extend d

/-- A text with `p` digits after the point is extracted as the decimal it shows. -/
theorem extractDouble_fixedText {gap : Bytes} (hgap : Blank gap) {p : Nat} (hpos : 0 < p)
    (hp : p ≤ 22) (hsmall : z.natAbs < 2 ^ 53) :
    ∃ y, extractDouble (gap ++ fixedText p (decide (z < 0)) z.natAbs) = some (y, []) ∧
      IsDecimal p z y := by
  obtain ⟨whole, fraction, hwhole, hne, hfraction, hlength, hvalue, htext⟩ :=
    fixedText_eq p (decide (z < 0)) z.natAbs
  have hfractionne : fraction ≠ [] := List.ne_nil_of_length_pos (by omega)
  have hpointed : pointed whole fraction = whole ++ ('.' : Byte) :: fraction := if_neg hfractionne
  have hsmall' : numeralValue (whole ++ fraction) < 2 ^ 53 := by omega
  rcases Int.lt_or_le z 0 with hz | hz
  · obtain ⟨y, hread, hy⟩ := of_pointed .negative hgap hwhole hne hfraction hsmall' (by omega)
      fun h => by omega
    have hsigned : signed .negative z.natAbs = z := by
      change -(z.natAbs : Int) = z
      omega
    rw [hlength, hvalue, hsigned] at hy
    rw [htext, decide_eq_true hz, ← hpointed]
    exact ⟨y, hread, hy⟩
  · obtain ⟨y, hread, hy⟩ := of_pointed .positive hgap hwhole hne hfraction hsmall' (by omega)
      fun _ => rfl
    have hsigned : signed .positive z.natAbs = z := Int.natAbs_of_nonneg hz
    rw [hlength, hvalue, hsigned] at hy
    rw [htext, decide_eq_false (Int.not_lt.mpr hz), ← hpointed]
    exact ⟨y, hread, hy⟩

end IsDecimal

end Cxx
