import InverterMonitor.Cxx.BoundedDoubles
import Mathlib.Algebra.Order.Field.Power
import Mathlib.Data.Nat.Cast.Order.Field
import Mathlib.Data.Rat.Cast.Order
import Mathlib.Tactic.FieldSimp
import Mathlib.Tactic.Linarith
import Mathlib.Tactic.NormNum
import Mathlib.Tactic.Positivity
import Mathlib.Tactic.Ring

/-!
# Errors of double arithmetic

How far a double that was computed is from the exact number.  Errors are relative and
counted in units of `2 ^ -52`.

* `round_near`: rounding to 53 bits costs one unit;
* `Near.mul`, `Near.div_exact`: products, and quotients by an exact divisor;
* `near_ofScientific`: a short decimal numeral.
-/

namespace Cxx
open Text Float.Model UnpackedFloat

/-! ## Relative errors -/

/-- `v` is off `t` by at most `k` units. -/
def Within (k : Nat) (v t : ℚ) : Prop := |v - t| ≤ k * (1 / 2 ^ 52) * t

namespace Within

variable {k l : Nat} {v w t r : ℚ}

theorem rfl' (h : 0 ≤ t) : Within k t t := by
  unfold Within
  rw [sub_self, abs_zero]
  positivity

theorem mono (h : Within k v t) (ht : 0 ≤ t) (hkl : k ≤ l) : Within l v t := by
  have hcast : (k : ℚ) ≤ l := by exact_mod_cast hkl
  have hunit : (0 : ℚ) ≤ 1 / 2 ^ 52 := by norm_num
  exact h.trans (mul_le_mul_of_nonneg_right (mul_le_mul_of_nonneg_right hcast hunit) ht)

/-- Errors add up, with one unit for their product. -/
theorem mul (h : Within k v t) (h' : Within l w r) (ht : 0 ≤ t) (hr : 0 ≤ r)
    (hkl : k * l ≤ 2 ^ 52) : Within (k + l + 1) (v * w) (t * r) := by
  have hproduct : (k : ℚ) * l ≤ 2 ^ 52 := by exact_mod_cast hkl
  have hsplit : v * w - t * r = (v - t) * (w - r) + (v - t) * r + t * (w - r) := by ring
  have hboth : |(v - t) * (w - r)| ≤ 1 / 2 ^ 52 * (t * r) := by
    rw [abs_mul]
    calc |v - t| * |w - r| ≤ (k * (1 / 2 ^ 52) * t) * (l * (1 / 2 ^ 52) * r) :=
          mul_le_mul h h' (abs_nonneg _) (by positivity)
      _ = (k * l) * (1 / 2 ^ 52 * (1 / 2 ^ 52 * (t * r))) := by ring
      _ ≤ 2 ^ 52 * (1 / 2 ^ 52 * (1 / 2 ^ 52 * (t * r))) :=
          mul_le_mul_of_nonneg_right hproduct (by positivity)
      _ = 1 / 2 ^ 52 * (t * r) := by ring
  have hleft : |(v - t) * r| ≤ k * (1 / 2 ^ 52) * (t * r) := by
    rw [abs_mul, abs_of_nonneg hr]
    calc |v - t| * r ≤ k * (1 / 2 ^ 52) * t * r := mul_le_mul_of_nonneg_right h hr
      _ = k * (1 / 2 ^ 52) * (t * r) := by ring
  have hright : |t * (w - r)| ≤ l * (1 / 2 ^ 52) * (t * r) := by
    rw [abs_mul, abs_of_nonneg ht]
    calc t * |w - r| ≤ t * (l * (1 / 2 ^ 52) * r) := mul_le_mul_of_nonneg_left h' ht
      _ = l * (1 / 2 ^ 52) * (t * r) := by ring
  unfold Within
  rw [hsplit]
  push_cast
  calc |(v - t) * (w - r) + (v - t) * r + t * (w - r)|
      ≤ |(v - t) * (w - r)| + |(v - t) * r| + |t * (w - r)| := abs_add_three _ _ _
    _ ≤ (k + l + 1) * (1 / 2 ^ 52) * (t * r) := by linarith

/-- The second number is off the first one, which is off the third. -/
theorem trans (h : Within k v t) (h' : Within l w v) (ht : 0 ≤ t) (hkl : k * l ≤ 2 ^ 52) :
    Within (k + l + 1) w t := by
  have hproduct : (k : ℚ) * l ≤ 2 ^ 52 := by exact_mod_cast hkl
  have hv : v ≤ t + k * (1 / 2 ^ 52) * t := by linarith [(abs_le.mp h).2]
  have hscaled : l * (1 / 2 ^ 52) * v ≤ l * (1 / 2 ^ 52) * (t + k * (1 / 2 ^ 52) * t) :=
    mul_le_mul_of_nonneg_left hv (by positivity)
  have hboth : l * (1 / 2 ^ 52) * (k * (1 / 2 ^ 52) * t) ≤ 1 / 2 ^ 52 * t := by
    calc l * (1 / 2 ^ 52) * (k * (1 / 2 ^ 52) * t)
        = (k * l) * (1 / 2 ^ 52 * (1 / 2 ^ 52 * t)) := by ring
      _ ≤ 2 ^ 52 * (1 / 2 ^ 52 * (1 / 2 ^ 52 * t)) :=
          mul_le_mul_of_nonneg_right hproduct (by positivity)
      _ = 1 / 2 ^ 52 * t := by ring
  unfold Within at h h' ⊢
  push_cast
  calc |w - t| ≤ |w - v| + |v - t| := abs_sub_le _ _ _
    _ ≤ (k + l + 1) * (1 / 2 ^ 52) * t := by linarith

theorem div_exact (h : Within k v t) (hr : 0 < r) : Within k (v / r) (t / r) := by
  unfold Within
  rw [← sub_div, abs_div, abs_of_pos hr, ← mul_div_assoc]
  exact div_le_div_of_nonneg_right h hr.le

/-- The quotient by a number that is off `r`. -/
theorem div_near (h : Within l w r) (ht : 0 ≤ t) (hr : 0 < r) (hl : 2 * l ≤ 2 ^ 52) :
    Within (2 * l) (t / w) (t / r) := by
  have hhalf : (2 : ℚ) * l * (1 / 2 ^ 52) ≤ 1 := by
    have hcast : (2 : ℚ) * l ≤ 2 ^ 52 := by exact_mod_cast hl
    calc (2 : ℚ) * l * (1 / 2 ^ 52) ≤ 2 ^ 52 * (1 / 2 ^ 52) :=
          mul_le_mul_of_nonneg_right hcast (by norm_num)
      _ = 1 := by norm_num
  have hbound : l * (1 / 2 ^ 52) * r ≤ r / 2 := by
    have hscaled := mul_le_mul_of_nonneg_right hhalf hr.le
    linarith
  have hw : r / 2 ≤ w := by linarith [(abs_le.mp h).1]
  have hwpos : 0 < w := by linarith
  have hdiff : t / w - t / r = t / r * ((r - w) / w) := by
    field_simp
  have hratio : |(r - w) / w| ≤ 2 * l * (1 / 2 ^ 52) := by
    rw [abs_div, abs_of_pos hwpos, div_le_iff₀ hwpos, abs_sub_comm]
    calc |w - r| ≤ l * (1 / 2 ^ 52) * r := h
      _ ≤ l * (1 / 2 ^ 52) * (2 * w) := mul_le_mul_of_nonneg_left (by linarith) (by positivity)
      _ = 2 * l * (1 / 2 ^ 52) * w := by ring
  unfold Within
  rw [hdiff, abs_mul, abs_of_nonneg (div_nonneg ht hr.le), mul_comm]
  push_cast
  exact mul_le_mul_of_nonneg_right hratio (div_nonneg ht hr.le)

end Within

/-! ## Rounding to 53 bits -/

theorem shift_mantissa_eq (em : ExtendedMantissa) (n : Nat) :
    (em >>> n).mantissa = em.mantissa / 2 ^ n := by
  induction n with
  | zero => exact (Nat.div_one _).symm
  | succ n ih =>
    have hstep : (em >>> (n + 1)).mantissa = (em >>> n).mantissa / 2 := rfl
    rw [hstep, ih, Nat.div_div_eq_div_mul, Nat.pow_succ]

theorem le_roundedMantissa (em : ExtendedMantissa) : em.mantissa ≤ em.roundedMantissa := by
  obtain ⟨m, roundBit, stickyBit⟩ := em
  cases roundBit <;> cases stickyBit <;>
    simp [ExtendedMantissa.roundedMantissa, ExtendedMantissa.accuracy, Accuracy.roundToNearestEven]

theorem ofMantissaAndAccuracy_mantissa (m : Nat) (accuracy : Accuracy) :
    (ExtendedMantissa.ofMantissaAndAccuracy m accuracy).mantissa = m := by
  cases accuracy with
  | exact => rfl
  | inexact o => cases o <;> rfl

/-- A mantissa of more than 52 bits loses the bits beyond 53. -/
theorem shiftToTargetExponent_eq {m n : Nat} {e : Int} (accuracy : Accuracy)
    (hm : m.log2 = 52 + n) (he : -1074 ≤ e) :
    shiftToTargetExponent Format.binary64 m e accuracy =
      (ExtendedMantissa.ofMantissaAndAccuracy m accuracy >>> n, e + n) := by
  have htarget : Format.binary64.targetExponent (totalExponent m e) = e + n := by
    change max ((m.log2 : Int) + 1 + e - (53 : Nat)) (-1074) = e + n
    omega
  have hamount : (e + n - e).toNat = n := by omega
  simp only [shiftToTargetExponent, shiftToExponent, htarget, hamount]

theorem log2_eq_of_bounds {m n : Nat} (hlow : 2 ^ n ≤ m) (hhigh : m < 2 ^ (n + 1)) :
    m.log2 = n := by
  have hne : m ≠ 0 := fun h => by
    rw [h] at hlow
    exact absurd hlow (by simp)
  exact Nat.le_antisymm (Nat.le_of_lt_succ ((Nat.log2_lt hne).mpr hhigh))
    ((Nat.le_log2 hne).mpr hlow)

/-- What rounding makes of the number `t` between two mantissas. -/
theorem round_near {m n : Nat} {e : Int} {t : ℚ} (s : Sign) (accuracy : Accuracy)
    (hm : m.log2 = 52 + n) (he : -1074 ≤ e) (hlow : (m : ℚ) * 2 ^ e ≤ t)
    (hhigh : t ≤ ((m : ℚ) + 1) * 2 ^ e) :
    ∃ m' e' hpos, roundWithAccuracy Format.binary64 s m e accuracy = .finite s m' e' hpos ∧
      m'.log2 = 52 ∧ e + n ≤ e' ∧ e' ≤ e + n + 1 ∧ Within 1 ((m' : ℚ) * 2 ^ e') t := by
  have hne : m ≠ 0 := fun h => by
    rw [h] at hm
    simp at hm
    omega
  have hleast : 2 ^ (52 + n) ≤ m := hm ▸ Nat.log2_self_le hne
  have hmost : m < 2 ^ (52 + n + 1) := hm ▸ Nat.lt_log2_self
  -- the first shift leaves 53 bits
  generalize hf : m / 2 ^ n = f
  have hfleast : 2 ^ 52 ≤ f := by
    rw [← hf, Nat.le_div_iff_mul_le (Nat.two_pow_pos n), ← Nat.pow_add]
    exact hleast
  have hfmost : f < 2 ^ 53 := by
    rw [← hf, Nat.div_lt_iff_lt_mul (Nat.two_pow_pos n), ← Nat.pow_add]
    exact lt_of_lt_of_eq hmost (congrArg _ (by omega))
  have hshifted :
      (ExtendedMantissa.ofMantissaAndAccuracy m accuracy >>> n).mantissa = f := by
    rw [shift_mantissa_eq, ofMantissaAndAccuracy_mantissa, hf]
  generalize hem : ExtendedMantissa.ofMantissaAndAccuracy m accuracy >>> n = em at hshifted
  have hrleast := le_roundedMantissa em
  have hrmost := roundedMantissa_le em
  rw [hshifted] at hrleast hrmost
  generalize hr : em.roundedMantissa = rounded at hrleast hrmost
  have hround : roundWithAccuracy Format.binary64 s m e accuracy =
      (let final := shiftToTargetExponent Format.binary64 rounded (e + n) .exact
       if h : final.1.mantissa = 0 then .zero s
       else .finite s final.1.mantissa final.2 (Nat.pos_of_ne_zero h)) := by
    rw [roundWithAccuracy, shiftToTargetExponent_eq accuracy hm he, hem, ← hr]
  -- the exact number lies in the unit of the last kept bit
  have hunit : (2 : ℚ) ^ (e + n) = 2 ^ n * 2 ^ e := by
    rw [zpow_add₀ (by norm_num), zpow_natCast]
    ring
  have hpositive : (0 : ℚ) < 2 ^ (e + n) := by positivity
  have hbelow : (f : ℚ) * 2 ^ (e + n) ≤ t := by
    have hmul : f * 2 ^ n ≤ m := hf ▸ Nat.div_mul_le_self m (2 ^ n)
    have hcast : (f : ℚ) * 2 ^ n ≤ m := by exact_mod_cast hmul
    calc (f : ℚ) * 2 ^ (e + n) = f * 2 ^ n * 2 ^ e := by rw [hunit]; ring
      _ ≤ m * 2 ^ e := mul_le_mul_of_nonneg_right hcast (by positivity)
      _ ≤ t := hlow
  have habove : t ≤ ((f : ℚ) + 1) * 2 ^ (e + n) := by
    have hmul : m + 1 ≤ (f + 1) * 2 ^ n := by
      have hmod := Nat.div_add_mod m (2 ^ n)
      have hlt := Nat.mod_lt m (Nat.two_pow_pos n)
      rw [hf] at hmod
      rw [Nat.add_mul, Nat.mul_comm f]
      omega
    have hcast : (m : ℚ) + 1 ≤ (f + 1) * 2 ^ n := by exact_mod_cast hmul
    calc t ≤ ((m : ℚ) + 1) * 2 ^ e := hhigh
      _ ≤ ((f : ℚ) + 1) * 2 ^ n * 2 ^ e := mul_le_mul_of_nonneg_right hcast (by positivity)
      _ = ((f : ℚ) + 1) * 2 ^ (e + n) := by rw [hunit]; ring
  have hwithin : Within 1 ((rounded : ℚ) * 2 ^ (e + n)) t := by
    have hrlow : (f : ℚ) ≤ rounded := by exact_mod_cast hrleast
    have hrhigh : (rounded : ℚ) ≤ f + 1 := by exact_mod_cast hrmost
    have hscaled : (2 : ℚ) ^ (e + n) ≤ 1 / 2 ^ 52 * t := by
      have hfcast : (2 : ℚ) ^ 52 ≤ f := by exact_mod_cast hfleast
      have hprod := mul_le_mul_of_nonneg_right hfcast hpositive.le
      rw [one_div, ← div_eq_inv_mul, le_div_iff₀ (by positivity), mul_comm]
      exact hprod.trans hbelow
    have hvlow := mul_le_mul_of_nonneg_right hrlow hpositive.le
    have hvhigh := mul_le_mul_of_nonneg_right hrhigh hpositive.le
    rw [Within, abs_le]
    push_cast
    constructor <;> linarith
  rcases Nat.lt_or_ge rounded (2 ^ 53) with hsmall | hlarge
  · have hlog : rounded.log2 = 52 + 0 :=
      log2_eq_of_bounds (hfleast.trans hrleast) hsmall
    rw [shiftToTargetExponent_eq .exact hlog (by omega)] at hround
    have hfinal : (ExtendedMantissa.ofMantissaAndAccuracy rounded .exact >>> 0).mantissa =
        rounded := rfl
    dsimp only at hround
    rw [dif_neg (by omega)] at hround
    refine ⟨_, _, _, hround, hfinal ▸ hlog, by omega, by omega, ?_⟩
    rw [hfinal]
    simpa using hwithin
  -- rounding up has made a 54th bit, which is a zero
  · have hexact : rounded = 2 ^ 53 := by omega
    have hlog : rounded.log2 = 52 + 1 := by rw [hexact, Nat.log2_two_pow]
    rw [shiftToTargetExponent_eq .exact hlog (by omega)] at hround
    have hfinal : (ExtendedMantissa.ofMantissaAndAccuracy rounded .exact >>> 1).mantissa =
        2 ^ 52 := by rw [shift_mantissa_eq, ofMantissaAndAccuracy_mantissa, hexact]; rfl
    dsimp only at hround
    rw [dif_neg (by omega)] at hround
    refine ⟨_, _, _, hround, hfinal ▸ Nat.log2_two_pow, by omega, by omega, ?_⟩
    have hvalue : ((2 ^ 52 : Nat) : ℚ) * 2 ^ (e + n + (1 : Nat)) = (rounded : ℚ) * 2 ^ (e + n) := by
      rw [hexact, zpow_add₀ (by norm_num : (2 : ℚ) ≠ 0) (e + n)]
      push_cast
      ring
    rw [hfinal, hvalue]
    exact hwithin

/-! ## Packing -/

theorem bounds_of_log2 {m : Nat} (hm : m.log2 = 52) : 2 ^ 52 ≤ m ∧ m < 2 ^ 53 := by
  have hne : m ≠ 0 := fun h => by simp [h] at hm
  have hmost := Nat.lt_log2_self (n := m)
  rw [hm] at hmost
  exact ⟨hm ▸ Nat.log2_self_le hne, hmost⟩

theorem toNat_implicit {m : Nat} (hm : m.log2 = 52) :
    (1#1 ++ BitVec.ofNat 52 m).toNat = m := by
  obtain ⟨hleast, hmost⟩ := bounds_of_log2 hm
  have hbits : (1#1 ++ BitVec.ofNat 52 m).toNat = 2 ^ 52 * 1 ||| m % 2 ^ 52 := by
    rw [BitVec.toNat_append, BitVec.toNat_ofNat]
    rfl
  rw [hbits, ← Nat.two_pow_add_eq_or_of_lt (Nat.mod_lt _ (by decide))]
  omega

theorem unpackSign_packComponents (s : Sign) (exponent : BitVec 11) (mantissa : BitVec 52) :
    Sign.ofBitVec (unpackSign (packComponents Format.binary64 s exponent mantissa)) = s := by
  have hbit : unpackSign (packComponents Format.binary64 s exponent mantissa) = s.toBitVec := by
    unfold unpackSign packComponents
    rw [BitVec.extractLsb, BitVec.extractLsb'_append_eq_of_le (by decide),
      BitVec.extractLsb'_append_eq_of_le (by decide)]
    cases s <;> rfl
  rw [hbit]
  cases s <;> rfl

theorem finite_eq {s s' : Sign} {m m' : Nat} {e e' : Int} {hpos : 0 < m} {hpos' : 0 < m'}
    (hs : s = s') (hm : m = m') (he : e = e') :
    UnpackedFloat.finite s m e hpos = .finite s' m' e' hpos' := by
  subst hs hm he
  rfl

theorem unpack_pack {s : Sign} {m : Nat} {e : Int} (hpos : 0 < m) (hm : m.log2 = 52)
    (hleast : -1074 ≤ e) (hmost : e ≤ 900) :
    (Float.Model.pack (.finite s m e hpos)).unpack = .finite s m e hpos := by
  change UnpackedFloat.unpack Format.binary64 (UnpackedFloat.pack Format.binary64 _) = _
  have hbiased : (e + Format.binary64.exponentBias +
      Format.binary64.mantissaBitsWithoutImplicit).toNat = (e + 1075).toNat := by
    change (e + (1023 : Nat) + (52 : Nat)).toNat = (e + 1075).toNat
    omega
  have hfits : ¬2 ^ Format.binary64.exponentBits ≤ (e + 1075).toNat + 1 := by
    change ¬2 ^ 11 ≤ (e + 1075).toNat + 1
    omega
  have hnormal : m.log2 + 1 = Format.binary64.mantissaBits := by
    rw [hm]
    rfl
  have hpack : UnpackedFloat.pack Format.binary64 (.finite s m e hpos) =
      packComponents Format.binary64 s (BitVec.ofNat 11 (e + 1075).toNat) (BitVec.ofNat 52 m) := by
    unfold UnpackedFloat.pack
    dsimp only
    rw [hbiased, if_neg hfits, if_pos hnormal]
  have hexponent : (BitVec.ofNat 11 (e + 1075).toNat).toNat = (e + 1075).toNat := by
    rw [BitVec.toNat_ofNat]
    omega
  rw [hpack]
  generalize BitVec.ofNat 11 (e + 1075).toNat = b at hexponent
  have hordinary : b ≠ -1#11 ∧ b ≠ 0#11 := by
    constructor
    · rintro rfl
      simp at hexponent
      omega
    · rintro rfl
      simp at hexponent
      omega
  have hb : unpackExponent (packComponents Format.binary64 s b (BitVec.ofNat 52 m)) = b :=
    unpackExponent_packComponents
  rw [← hb] at hordinary hexponent
  unfold UnpackedFloat.unpack
  dsimp only
  rw [if_neg hordinary.1, if_neg hordinary.2]
  refine finite_eq ?_ ?_ ?_
  · exact unpackSign_packComponents ..
  · rw [unpackMantissa_packComponents]
    exact toNat_implicit hm
  · change _ - (((1023 : Nat) : Int) + (52 : Nat)) = e
    rw [hexponent]
    omega

/-! ## Doubles near exact numbers -/

/-- `x` has the sign `s` and is, up to `k` units, `t` in size; its exponent is within `w`. -/
def Near (k w : Nat) (s : Sign) (t : ℚ) (x : Float) : Prop :=
  ∃ m e hpos, x.toModel.unpack = .finite s m e hpos ∧ m.log2 = 52 ∧ e.natAbs ≤ w ∧
    Within k ((m : ℚ) * 2 ^ e) t

theorem near_pack {k w : Nat} {s : Sign} {m : Nat} {e : Int} {t : ℚ} (hpos : 0 < m)
    (hm : m.log2 = 52) (he : e.natAbs ≤ w) (hw : w ≤ 900)
    (h : Within k ((m : ℚ) * 2 ^ e) t) {x : Float}
    (hx : x.toModel = Float.Model.pack (.finite s m e hpos)) : Near k w s t x :=
  ⟨m, e, hpos, by rw [hx, unpack_pack hpos hm (by omega) (by omega)], hm, he, h⟩

theorem log2_mul {m m' : Nat} (hm : m.log2 = 52) (hm' : m'.log2 = 52) :
    (m * m').log2 = 52 + 52 ∨ (m * m').log2 = 52 + 53 := by
  obtain ⟨hleast, hmost⟩ := bounds_of_log2 hm
  obtain ⟨hleast', hmost'⟩ := bounds_of_log2 hm'
  have hleast := Nat.mul_le_mul hleast hleast'
  have hmost := Nat.mul_lt_mul'' hmost hmost'
  rw [← Nat.pow_add] at hleast hmost
  have hnonzero : m * m' ≠ 0 := by omega
  have hlow := (Nat.le_log2 hnonzero).mpr hleast
  have hhigh := (Nat.log2_lt hnonzero).mpr hmost
  omega

theorem Near.mul {k l w w' : Nat} {s s' : Sign} {t r : ℚ} {x y : Float} (hx : Near k w s t x)
    (hy : Near l w' s' r y) (ht : 0 ≤ t) (hr : 0 ≤ r) (hkl : k + l + 1 ≤ 2 ^ 52)
    (hproduct : k * l ≤ 2 ^ 52) (hw : w + w' + 54 ≤ 900) :
    Near (k + l + 3) (w + w' + 54) (s * s') (t * r) (x * y) := by
  obtain ⟨m, e, hpos, hux, hm, he, hwithin⟩ := hx
  obtain ⟨m', e', hpos', huy, hm', he', hwithin'⟩ := hy
  have hexact : ((m : ℚ) * 2 ^ e) * ((m' : ℚ) * 2 ^ e') = ((m * m' : Nat) : ℚ) * 2 ^ (e + e') := by
    rw [zpow_add₀ (by norm_num)]
    push_cast
    ring
  obtain ⟨n, hn, hlog⟩ : ∃ n, n ≤ 53 ∧ (m * m').log2 = 52 + n := by
    rcases log2_mul hm hm' with h | h
    · exact ⟨52, by omega, h⟩
    · exact ⟨53, by omega, h⟩
  have hunit : (0 : ℚ) ≤ 2 ^ (e + e') := by positivity
  obtain ⟨m'', e'', hpos'', hround, hm'', hlow, hhigh, hnear⟩ :=
    round_near (s * s') .exact hlog (by omega) (le_refl (((m * m' : Nat) : ℚ) * 2 ^ (e + e')))
      (by linarith)
  rw [← hexact] at hnear
  have hall := (hwithin.mul hwithin' ht hr hproduct).trans hnear (mul_nonneg ht hr) (by omega)
  refine near_pack hpos'' hm'' (by omega) hw (hall.mono (mul_nonneg ht hr) (by omega)) ?_
  rw [← hround]
  change Float.Model.pack (UnpackedFloat.mul Format.binary64 x.toModel.unpack y.toModel.unpack) = _
  rw [hux, huy]
  rfl

/-- Zero times a finite double. -/
theorem Near.zero_mul {k w : Nat} {t : ℚ} {x y : Float} (hy : Near k w .positive t y)
    (hx : x.toModel.unpack = .zero .positive) : (x * y).toModel.unpack = .zero .positive := by
  obtain ⟨m, e, hpos, huy, -⟩ := hy
  have hproduct : UnpackedFloat.mul Format.binary64 x.toModel.unpack y.toModel.unpack =
      .zero (.positive * .positive) := by
    rw [hx, huy]
    rfl
  change (Float.Model.pack (UnpackedFloat.mul Format.binary64 x.toModel.unpack
    y.toModel.unpack)).unpack = _
  rw [hproduct]
  rfl

/-- Division by a double that is the exact number `r`. -/
theorem Near.div_exact {k w w' : Nat} {s s' : Sign} {t r : ℚ} {x y : Float} (hx : Near k w s t x)
    (hy : Near 0 w' s' r y) (ht : 0 ≤ t) (hr : 0 < r) (hk : k ≤ 2 ^ 52)
    (hw : w + w' + 54 ≤ 900) : Near (k + 2) (w + w' + 54) (s / s') (t / r) (x / y) := by
  obtain ⟨m, e, hpos, hux, hm, he, hwithin⟩ := hx
  obtain ⟨m', e', hpos', huy, hm', he', hwithin'⟩ := hy
  have hdivisor : (m' : ℚ) * 2 ^ e' = r := by
    unfold Within at hwithin'
    have hzero : |(m' : ℚ) * 2 ^ e' - r| ≤ 0 := by simpa using hwithin'
    exact sub_eq_zero.mp (abs_nonpos_iff.mp hzero)
  obtain ⟨hleast, hmost⟩ := bounds_of_log2 hm
  obtain ⟨hleast', hmost'⟩ := bounds_of_log2 hm'
  -- the quotient of the mantissas, with 53 more bits
  have hcore : divCore Format.binary64 m e m' e' =
      (m * 2 ^ 53 / m', e - e' - 53, accuracyOfFraction (m * 2 ^ 53 % m') m') := by
    have htarget : min (e - e') (Format.binary64.targetExponent
        (totalExponent m e - totalExponent m' e')) = e - e' - 53 := by
      change min (e - e') (max ((m.log2 : Int) + 1 + e - (m'.log2 + 1 + e') - (53 : Nat)) (-1074)) = _
      rw [hm, hm']
      omega
    have hamount : (e - e' - (e - e' - 53)).toNat = 53 := by omega
    simp only [divCore, htarget, hamount, Nat.shiftLeft_eq]
  generalize hq : m * 2 ^ 53 / m' = q at hcore
  have hqleast : 2 ^ 52 ≤ q := by
    rw [← hq, Nat.le_div_iff_mul_le hpos']
    omega
  have hqmost : q < 2 ^ 54 := by
    rw [← hq, Nat.div_lt_iff_lt_mul hpos']
    omega
  obtain ⟨n, hn, hlog⟩ : ∃ n, n ≤ 1 ∧ q.log2 = 52 + n := by
    rcases Nat.lt_or_ge q (2 ^ 53) with h | h
    · exact ⟨0, by omega, log2_eq_of_bounds hqleast h⟩
    · exact ⟨1, by omega, log2_eq_of_bounds h hqmost⟩
  have hm'cast : (0 : ℚ) < m' := by exact_mod_cast hpos'
  have hexact : ((m : ℚ) * 2 ^ e) / ((m' : ℚ) * 2 ^ e') =
      ((m * 2 ^ 53 : Nat) : ℚ) / m' * 2 ^ (e - e' - 53) := by
    have hsplit : (2 : ℚ) ^ (e - e' - 53) = 2 ^ e / 2 ^ e' / 2 ^ 53 := by
      rw [zpow_sub₀ (by norm_num), zpow_sub₀ (by norm_num)]
      rfl
    have hne : (2 : ℚ) ^ e' ≠ 0 := (zpow_pos two_pos e').ne'
    rw [hsplit]
    push_cast
    field_simp
    norm_num
  have hunit : (0 : ℚ) < 2 ^ (e - e' - 53) := by positivity
  have hlow : (q : ℚ) * 2 ^ (e - e' - 53) ≤ ((m : ℚ) * 2 ^ e) / ((m' : ℚ) * 2 ^ e') := by
    rw [hexact]
    refine mul_le_mul_of_nonneg_right ?_ hunit.le
    rw [← hq]
    exact Nat.cast_div_le
  have hhigh : ((m : ℚ) * 2 ^ e) / ((m' : ℚ) * 2 ^ e') ≤ ((q : ℚ) + 1) * 2 ^ (e - e' - 53) := by
    rw [hexact]
    refine mul_le_mul_of_nonneg_right ?_ hunit.le
    rw [div_le_iff₀ hm'cast]
    have hlt : m * 2 ^ 53 ≤ (q + 1) * m' := by
      have hmod := Nat.div_add_mod (m * 2 ^ 53) m'
      have hltmod := Nat.mod_lt (m * 2 ^ 53) hpos'
      rw [hq] at hmod
      rw [Nat.add_mul, Nat.mul_comm q]
      omega
    exact_mod_cast hlt
  obtain ⟨m'', e'', hpos'', hround, hm'', helow, hehigh, hnear⟩ :=
    round_near (s / s') (accuracyOfFraction (m * 2 ^ 53 % m') m') hlog (by omega) hlow hhigh
  rw [hdivisor] at hnear
  have hquotient := (hwithin.div_exact hr).trans hnear (div_nonneg ht hr.le) (by omega)
  refine near_pack hpos'' hm'' (by omega) hw hquotient ?_
  rw [← hround]
  change Float.Model.pack (UnpackedFloat.div Format.binary64 x.toModel.unpack y.toModel.unpack) = _
  rw [hux, huy]
  unfold UnpackedFloat.div
  dsimp only
  rw [hcore]

/-- Division by a double near `r`. -/
theorem Near.div {k l w w' : Nat} {s s' : Sign} {t r : ℚ} {x y : Float} (hx : Near k w s t x)
    (hy : Near l w' s' r y) (ht : 0 ≤ t) (hr : 0 < r) (hkl : 2 * l * (k + 2) ≤ 2 ^ 52)
    (hl : 2 * l < 2 ^ 52) (hk : k ≤ 2 ^ 52) (hw : w + w' + 54 ≤ 900) :
    Near (2 * l + (k + 2) + 1) (w + w' + 54) (s / s') (t / r) (x / y) := by
  obtain ⟨m', e', hpos', huy, hm', he', hwithin'⟩ := hy
  have hvalue : 0 < (m' : ℚ) * 2 ^ e' := by
    have hm'cast : (0 : ℚ) < m' := by exact_mod_cast hpos'
    positivity
  have hself : Near 0 w' s' ((m' : ℚ) * 2 ^ e') y :=
    ⟨m', e', hpos', huy, hm', he', .rfl' hvalue.le⟩
  obtain ⟨m, e, hpos, hu, hm, he, hwithin⟩ := hx.div_exact hself ht hvalue hk hw
  have hdivisor := hwithin'.div_near ht hr hl.le
  exact ⟨m, e, hpos, hu, hm, he, hdivisor.trans hwithin (div_nonneg ht hr.le) hkl⟩

theorem Near.mono {k l w w' : Nat} {s : Sign} {t : ℚ} {x : Float} (h : Near k w s t x)
    (ht : 0 ≤ t) (hkl : k ≤ l) (hw : w ≤ w') : Near l w' s t x := by
  obtain ⟨m, e, hpos, hux, hm, he, hwithin⟩ := h
  exact ⟨m, e, hpos, hux, hm, he.trans hw, hwithin.mono ht hkl⟩

/-! ## Integers and decimal numerals -/

theorem near_toFloat {n : Nat} (hpos : 0 < n) (hn : n < 2 ^ 53) :
    Near 1 53 .positive n n.toUInt64.toFloat := by
  have hword : n.toUInt64.toNat = n := by
    rw [Nat.toUInt64, UInt64.toNat_ofNat']
    exact Nat.mod_eq_of_lt (Nat.lt_trans hn (by decide))
  have hlog : n.log2 ≤ 52 := Nat.le_of_lt_succ ((Nat.log2_lt (by omega)).mpr hn)
  obtain ⟨d, hd⟩ := Nat.exists_eq_add_of_le hlog
  have hdecrease : decreaseExponent n 0 (Format.binary64.targetExponent (totalExponent n 0)) =
      (n * 2 ^ d, -(d : Int)) := by
    have htarget : Format.binary64.targetExponent (totalExponent n 0) = -(d : Int) := by
      change max ((n.log2 : Int) + 1 + 0 - (53 : Nat)) (-1074) = -(d : Int)
      omega
    have hamount : (0 - -(d : Int)).toNat = d := by omega
    simp only [decreaseExponent, htarget, hamount, Nat.shiftLeft_eq]
    simp
  have hshifted : (n * 2 ^ d).log2 = 52 + 0 := by
    have hself := Nat.log2_self_le (n := n) (by omega)
    have hlt := Nat.lt_log2_self (n := n)
    apply log2_eq_of_bounds
    · calc 2 ^ 52 = 2 ^ n.log2 * 2 ^ d := by rw [← Nat.pow_add, ← hd]
        _ ≤ n * 2 ^ d := Nat.mul_le_mul_right _ hself
    · calc n * 2 ^ d < 2 ^ (n.log2 + 1) * 2 ^ d :=
            Nat.mul_lt_mul_of_pos_right hlt (Nat.two_pow_pos d)
        _ = 2 ^ 53 := by rw [← Nat.pow_add]; congr 1; omega
  have hexact : ((n * 2 ^ d : Nat) : ℚ) * 2 ^ (-(d : Int)) = n := by
    rw [zpow_neg, zpow_natCast]
    push_cast
    field_simp
  have hunit : (0 : ℚ) ≤ 2 ^ (-(d : Int)) := by positivity
  obtain ⟨m, e, hpos', hround, hm, hlow, hhigh, hnear⟩ :=
    round_near .positive .exact hshifted (by omega) hexact.le (by linarith)
  refine near_pack hpos' hm (by omega) (by decide) hnear ?_
  rw [← hround]
  change Float.Model.pack (UnpackedFloat.ofNat Format.binary64 n.toUInt64.toNat) = _
  have hcompare : compare (n : Int) 0 = .gt := by
    rw [compare_gt_iff_gt]
    omega
  rw [hword, UnpackedFloat.ofNat, UnpackedFloat.ofInt, UnpackedFloat.normalize, hcompare]
  simp only [UnpackedFloat.round, Int.toNat_natCast, hdecrease]

/-- The double is a number without a sign, exactly. -/
def isExactly (x : Float) (n : Nat) : Bool :=
  match x.toModel.unpack with
  | .finite .positive m e _ =>
    m.log2 == 52 && e.natAbs ≤ 100 && m * 2 ^ e.toNat == n * 2 ^ (-e).toNat
  | _ => false

theorem near_of_isExactly {x : Float} {n : Nat} (h : isExactly x n = true) :
    Near 0 100 .positive n x := by
  unfold isExactly at h
  split at h
  · next m e hpos hunpack =>
    simp only [Bool.and_eq_true, beq_iff_eq, decide_eq_true_eq] at h
    obtain ⟨⟨hm, he⟩, hvalue⟩ := h
    refine ⟨m, e, hpos, hunpack, hm, he, ?_⟩
    have hcast : (m : ℚ) * 2 ^ e.toNat = n * 2 ^ (-e).toNat := by exact_mod_cast hvalue
    have hsplit : (2 : ℚ) ^ e = 2 ^ e.toNat / 2 ^ (-e).toNat := by
      rw [← zpow_natCast, ← zpow_natCast, ← zpow_sub₀ (by norm_num)]
      congr 1
      omega
    have hexact : (m : ℚ) * 2 ^ e = n := by
      rw [hsplit, ← mul_div_assoc, hcast, mul_div_assoc, div_self (by positivity), mul_one]
    rw [hexact]
    exact Within.rfl' (Nat.cast_nonneg n)
  · cases h

theorem powersOfTen_exact : ∀ i : Fin Float.exactlyRepresentablePowersOfTen.size,
    isExactly Float.exactlyRepresentablePowersOfTen[i] (10 ^ (i : Nat)) = true := by decide

theorem near_powerOfTen (e : Nat) (he : e < Float.exactlyRepresentablePowersOfTen.size) :
    Near 0 100 .positive ((10 ^ e : Nat) : ℚ) Float.exactlyRepresentablePowersOfTen[e] :=
  near_of_isExactly (powersOfTen_exact ⟨e, he⟩)

theorem near_ofNat {n : Nat} (hpos : 0 < n) (hn : n < 2 ^ 53) :
    Near 4 207 .positive n (Float.ofNat n) := by
  have hvalue : Float.ofNat n = n.toUInt64.toFloat * Float.exactlyRepresentablePowersOfTen[0] :=
    dif_pos ⟨hn, Nat.zero_le 22⟩
  have hone := near_powerOfTen 0 (by decide)
  have hproduct := (near_toFloat hpos hn).mul hone (Nat.cast_nonneg n) (Nat.cast_nonneg _)
    (by decide) (by decide) (by decide)
  rw [Nat.pow_zero, Nat.cast_one, mul_one] at hproduct
  rw [hvalue]
  exact hproduct

/-- `n / 10 ^ e` as a numeral with a fraction denotes it. -/
theorem near_ofScientific {n e : Nat} (hpos : 0 < n) (hn : n < 2 ^ 53) (he : e ≤ 22) :
    Near 3 207 .positive ((n : ℚ) / ((10 ^ e : Nat) : ℚ)) (Float.ofScientific n true e) := by
  have hsize : e < Float.exactlyRepresentablePowersOfTen.size := Nat.lt_succ_of_le he
  have hvalue : Float.ofScientific n true e =
      n.toUInt64.toFloat / Float.exactlyRepresentablePowersOfTen[e] := dif_pos ⟨hn, he⟩
  have hten : (0 : ℚ) < ((10 ^ e : Nat) : ℚ) := by positivity
  have hquotient := (near_toFloat hpos hn).div_exact (near_powerOfTen e hsize)
    (Nat.cast_nonneg n) hten (by decide) (by decide)
  rw [hvalue]
  exact hquotient

theorem Near.neg {k w : Nat} {s : Sign} {t : ℚ} {x : Float} (h : Near k w s t x) (hw : w ≤ 900) :
    Near k w (-s) t (-x) := by
  obtain ⟨m, e, hpos, hux, hm, he, hwithin⟩ := h
  refine near_pack hpos hm he hw hwithin ?_
  change Float.Model.pack x.toModel.unpack.neg = _
  rw [hux]
  rfl

end Cxx
