import InverterMonitor.Cxx.Conversions

/-!
# Products of small doubles

`Below.mul`: a product does not overflow when the exponents of its factors are far from
the largest one.  The bounds are coarse.
-/

namespace Cxx
open Text Float.Model UnpackedFloat

/-- Not infinite, with an exponent up to `k`. -/
def ExponentLe (k : Int) : UnpackedFloat → Prop
  | .zero _ => True
  | .finite _ _ e _ => e ≤ k
  | .infinity _ => False
  | .notANumber => False

/-- The same with a mantissa of 53 bits. -/
def Bounded (k : Int) : UnpackedFloat → Prop
  | .zero _ => True
  | .finite _ m e _ => m < 2 ^ 53 ∧ e ≤ k
  | .infinity _ => False
  | .notANumber => False

/-- A finite double with an exponent up to `k`. -/
def Below (k : Int) (x : Float) : Prop := Bounded k x.toModel.unpack

theorem Below.isFinite {k : Int} {x : Float} (h : Below k x) : isFinite x = true := by
  unfold Below at h
  rw [Cxx.isFinite, quotient]
  cases hx : x.toModel.unpack with
  | zero | finite => rfl
  | infinity | notANumber =>
    rw [hx] at h
    exact h.elim

theorem Below.mono {k l : Int} {x : Float} (h : Below k x) (hkl : k ≤ l) : Below l x := by
  unfold Below at h ⊢
  cases hx : x.toModel.unpack with
  | infinity | notANumber =>
    rw [hx] at h
    exact h.elim
  | zero => trivial
  | finite =>
    rw [hx] at h
    exact ⟨h.1, Int.le_trans h.2 hkl⟩

/-! ## Packing -/

theorem toNat_one_append (mantissa : BitVec 52) : (1#1 ++ mantissa).toNat < 2 ^ 53 :=
  (1#1 ++ mantissa).isLt

theorem bounded_unpack {k : Int} (b : BitVec Format.binary64.numBits)
    (hexponent : ((unpackExponent b).toNat : Int) - 1074 ≤ k)
    (hmost : (unpackExponent b).toNat < 2047) :
    Bounded k (UnpackedFloat.unpack Format.binary64 b) := by
  have hfinite : unpackExponent b ≠ -1#_ := by
    intro heq
    rw [heq] at hmost
    simp at hmost
  unfold UnpackedFloat.unpack
  dsimp only
  rw [if_neg hfinite]
  by_cases hsubnormal : unpackExponent b = 0#_
  · rw [if_pos hsubnormal]
    by_cases hzero : unpackMantissa b = 0#_
    · rw [dif_pos hzero]
      trivial
    · rw [dif_neg hzero]
      refine ⟨Nat.lt_trans (unpackMantissa b).isLt (by decide), ?_⟩
      change ((unpackExponent b).toNat : Int) - ((1023 : Nat) + (52 : Nat)) + 1 ≤ k
      omega
  · rw [if_neg hsubnormal]
    refine ⟨toNat_one_append (unpackMantissa b), ?_⟩
    change ((unpackExponent b).toNat : Int) - ((1023 : Nat) + (52 : Nat)) ≤ k
    omega

theorem bounded_components {k : Int} (sign : Sign) (exponent : BitVec 11) (mantissa : BitVec 52)
    (hexponent : (exponent.toNat : Int) - 1074 ≤ k) (hmost : exponent.toNat < 2047) :
    Bounded k (UnpackedFloat.unpack Format.binary64
      (packComponents Format.binary64 sign exponent mantissa)) := by
  apply bounded_unpack
  · rw [unpackExponent_packComponents]
    exact hexponent
  · rw [unpackExponent_packComponents]
    exact hmost

theorem bounded_pack {k : Int} {u : UnpackedFloat} (h : ExponentLe k u) (hleast : -1074 ≤ k)
    (hmost : k ≤ 900) : Bounded (k + 1) (Float.Model.pack u).unpack := by
  change Bounded (k + 1) (UnpackedFloat.unpack Format.binary64
    (UnpackedFloat.pack Format.binary64 u))
  cases u with
  | infinity | notANumber => exact h.elim
  | zero sign =>
    refine bounded_components sign 0 0 ?_ (by decide)
    simp
    omega
  | finite sign m e hm =>
    have he : e ≤ k := h
    have hbiased : (e + Format.binary64.exponentBias +
        Format.binary64.mantissaBitsWithoutImplicit).toNat = (e + 1075).toNat := by
      change (e + (1023 : Nat) + (52 : Nat)).toNat = (e + 1075).toNat
      omega
    have hfits : ¬2 ^ Format.binary64.exponentBits ≤ (e + 1075).toNat + 1 := by
      change ¬2 ^ 11 ≤ (e + 1075).toNat + 1
      omega
    have hexponent := Nat.mod_le (e + 1075).toNat (2 ^ 11)
    unfold UnpackedFloat.pack
    dsimp only
    rw [hbiased, if_neg hfits]
    split
    · refine bounded_components sign (BitVec.ofNat 11 _) _ ?_ ?_
      · rw [BitVec.toNat_ofNat]
        omega
      · rw [BitVec.toNat_ofNat]
        omega
    · refine bounded_components sign 0#_ _ ?_ (by decide)
      simp
      omega

/-! ## Rounding -/

theorem shift_mantissa (em : ExtendedMantissa) (n : Nat) : (em >>> n).mantissa ≤ em.mantissa := by
  induction n with
  | zero => exact Nat.le_refl _
  | succ n ih => exact (Nat.div_le_self _ 2).trans ih

theorem roundedMantissa_le (em : ExtendedMantissa) : em.roundedMantissa ≤ em.mantissa + 1 := by
  obtain ⟨m, roundBit, stickyBit⟩ := em
  have hodd : m % 2 ≤ 1 := by omega
  cases roundBit <;> cases stickyBit <;>
    simp [ExtendedMantissa.roundedMantissa, ExtendedMantissa.accuracy, Accuracy.roundToNearestEven]
  omega

theorem log2_le_of_le {m m' : Nat} (h : m ≤ m') : m.log2 ≤ m'.log2 := by
  rcases Nat.eq_zero_or_pos m with rfl | hm
  · simp
  · exact (Nat.le_log2 (by omega)).mpr ((Nat.log2_self_le (by omega)).trans h)

theorem log2_succ_le (m : Nat) : (m + 1).log2 ≤ m.log2 + 1 := by
  have hlt : m + 1 < 2 ^ (m.log2 + 2) := by
    have hself := Nat.lt_log2_self (n := m)
    rw [Nat.pow_succ]
    omega
  exact Nat.le_of_lt_succ ((Nat.log2_lt (Nat.succ_ne_zero m)).mpr hlt)

theorem shiftToTargetExponent_le {m : Nat} {e k : Int} {n : Nat} (accuracy : Accuracy)
    (hm : m.log2 ≤ n) (he : e ≤ k) (hk : -1074 ≤ k) :
    (shiftToTargetExponent Format.binary64 m e accuracy).1.mantissa ≤ m ∧
      (shiftToTargetExponent Format.binary64 m e accuracy).2 ≤ k + n := by
  have htarget : Format.binary64.targetExponent (totalExponent m e) =
      max (m.log2 + 1 + e - 53) (-1074) := rfl
  have hmantissa : (ExtendedMantissa.ofMantissaAndAccuracy m accuracy).mantissa = m := by
    cases accuracy with
    | exact => rfl
    | inexact o => cases o <;> rfl
  constructor
  · exact (shift_mantissa _ _).trans (Nat.le_of_eq hmantissa)
  · simp only [shiftToTargetExponent, shiftToExponent, htarget]
    omega

theorem exponentLe_of_mantissa {k : Int} (sign : Sign) (m : Nat) {e : Int} (he : e ≤ k) :
    ExponentLe k (if h : m = 0 then .zero sign else .finite sign m e (Nat.pos_of_ne_zero h)) := by
  by_cases hzero : m = 0
  · rw [dif_pos hzero]
    trivial
  · rw [dif_neg hzero]
    exact he

theorem exponentLe_round {m : Nat} {e k : Int} {n : Nat} (sign : Sign) (accuracy : Accuracy)
    (hm : m.log2 ≤ n) (he : e ≤ k) (hk : -1074 ≤ k) :
    ExponentLe (k + 2 * n + 1) (roundWithAccuracy Format.binary64 sign m e accuracy) := by
  obtain ⟨hfirst, he₁⟩ := shiftToTargetExponent_le accuracy hm he hk
  have hrounded := roundedMantissa_le (shiftToTargetExponent Format.binary64 m e accuracy).1
  have hlog : (shiftToTargetExponent Format.binary64 m e accuracy).1.roundedMantissa.log2 ≤ n + 1 :=
    calc _ ≤ (m + 1).log2 := log2_le_of_le (by omega)
      _ ≤ m.log2 + 1 := log2_succ_le m
      _ ≤ n + 1 := by omega
  obtain ⟨-, he₂⟩ := shiftToTargetExponent_le .exact hlog he₁ (by omega)
  unfold roundWithAccuracy
  refine exponentLe_of_mantissa sign _ (he₂.trans ?_)
  omega

theorem exponentLe_mul {k l : Int} {u v : UnpackedFloat} (hu : Bounded k u) (hv : Bounded l v)
    (hkl : -1074 ≤ k + l) : ExponentLe (k + l + 211) (UnpackedFloat.mul Format.binary64 u v) := by
  cases u with
  | infinity | notANumber => exact hu.elim
  | zero sign =>
    cases v with
    | infinity | notANumber => exact hv.elim
    | zero | finite => trivial
  | finite sign m e hm =>
    cases v with
    | infinity | notANumber => exact hv.elim
    | zero => trivial
    | finite sign' m' e' hm' =>
      obtain ⟨hm, he⟩ := hu
      obtain ⟨hm', he'⟩ := hv
      have hproduct : m * m' < 2 ^ 53 * 2 ^ 53 := Nat.mul_lt_mul'' hm hm'
      have hlog : (m * m').log2 ≤ 105 := by
        have hpos : m * m' ≠ 0 := by simp only [ne_eq, Nat.mul_eq_zero]; omega
        rw [← Nat.pow_add] at hproduct
        exact Nat.le_of_lt_succ ((Nat.log2_lt hpos).mpr hproduct)
      have hround := exponentLe_round (sign * sign') .exact hlog (Int.add_le_add he he') hkl
      have hsum : k + l + 211 = k + l + 2 * (105 : Nat) + 1 := by omega
      rw [hsum]
      exact hround

/-- A product of doubles with small exponents has a small exponent. -/
theorem Below.mul {k l : Int} {x y : Float} (hx : Below k x) (hy : Below l y)
    (hleast : -1074 ≤ k + l) (hmost : k + l ≤ 600) : Below (k + l + 212) (x * y) := by
  have hpack := bounded_pack (exponentLe_mul hx hy hleast) (by omega) (by omega)
  rwa [Int.add_assoc] at hpack

theorem Below.neg {k : Int} {x : Float} (hx : Below k x) (hleast : -1074 ≤ k) (hmost : k ≤ 900) :
    Below (k + 1) (-x) := by
  refine bounded_pack ?_ hleast hmost
  unfold Below at hx
  cases hu : x.toModel.unpack with
  | infinity | notANumber =>
    rw [hu] at hx
    exact hx.elim
  | zero => trivial
  | finite =>
    rw [hu] at hx
    exact hx.2

/-! ## Integers -/

theorem exponentLe_ofNat {n : Nat} (hn : n < 2 ^ 53) :
    ExponentLe 105 (UnpackedFloat.ofNat Format.binary64 n) := by
  have htarget : Format.binary64.targetExponent (totalExponent n 0) =
      max ((n.log2 : Int) + 1 + 0 - 53) (-1074) := rfl
  unfold UnpackedFloat.ofNat UnpackedFloat.ofInt UnpackedFloat.normalize
  rcases Nat.eq_zero_or_pos n with rfl | hpos
  · trivial
  · have hcompare : compare (n : Int) 0 = .gt := by
      rw [compare_gt_iff_gt]
      omega
    have hlog : n.log2 ≤ 52 := Nat.le_of_lt_succ ((Nat.log2_lt (by omega)).mpr hn)
    obtain ⟨d, hd, hdecrease⟩ : ∃ d, n.log2 + d ≤ 52 ∧
        decreaseExponent n 0 (Format.binary64.targetExponent (totalExponent n 0)) =
          (n <<< d, 0 - (d : Int)) := by
      refine ⟨_, ?_, rfl⟩
      rw [htarget]
      omega
    have hshift : (n <<< d).log2 ≤ 52 := by
      have hself := Nat.lt_log2_self (n := n)
      have hpower : 2 ^ (n.log2 + 1) * 2 ^ d ≤ 2 ^ 53 := by
        rw [← Nat.pow_add]
        exact Nat.pow_le_pow_right (by decide) (by omega)
      have hproduct : n * 2 ^ d < 2 ^ 53 :=
        Nat.lt_of_lt_of_le (Nat.mul_lt_mul_of_pos_right hself (Nat.two_pow_pos d)) hpower
      have hne : n * 2 ^ d ≠ 0 := (Nat.mul_pos hpos (Nat.two_pow_pos d)).ne'
      rw [Nat.shiftLeft_eq]
      exact Nat.le_of_lt_succ ((Nat.log2_lt hne).mpr hproduct)
    have hexponent : 0 - (d : Int) ≤ 0 := by omega
    rw [hcompare]
    simp only [UnpackedFloat.round, Int.toNat_natCast, hdecrease]
    exact exponentLe_round .positive .exact hshift hexponent (by decide)

theorem below_one : Below 0 (Float.ofBits 0x3FF0000000000000) := by
  refine ⟨?_, ?_⟩ <;> decide

/-- A small integer, which is made a double by way of a product with one. -/
theorem below_ofNat {n : Nat} (hn : n < 2 ^ 53) : Below 318 (Float.ofNat n) := by
  have hword : n.toUInt64.toNat = n := by
    rw [Nat.toUInt64, UInt64.toNat_ofNat']
    exact Nat.mod_eq_of_lt (Nat.lt_trans hn (by decide))
  have hfloat : Below 106 n.toUInt64.toFloat := by
    have hinteger := exponentLe_ofNat hn
    rw [← hword] at hinteger
    exact bounded_pack hinteger (by decide) (by decide)
  have hvalue : Float.ofNat n = n.toUInt64.toFloat * Float.ofBits 0x3FF0000000000000 :=
    dif_pos ⟨hn, Nat.zero_le 22⟩
  rw [hvalue]
  exact hfloat.mul below_one (by decide) (by decide)

end Cxx
