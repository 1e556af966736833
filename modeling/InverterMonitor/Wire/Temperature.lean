import InverterMonitor.Cxx.FixedPoint
import InverterMonitor.Wire.Telemetry

/-!
# From the temperature sensors to the server

`printTemperature` of `temperature.ino` sends a signed number with two decimals,
and `updateAddressValue` of the server extracts an unsigned integer.  Extraction
stops at the point, and a minus sign wraps.

* `extractUnsigned_reading`: what is extracted from a reading;
* `temperature_arrives_iff`: a reading arrives, as whole degrees, exactly when it
  is above -1.00 degrees.
-/

namespace InverterMonitor.Wire
open Text Cxx Monitor

/-! ## What the sensors send -/

def sensorRegisterBase : Nat := 10000

/-- The number of the register of a sensor. -/
def sensorRegister (sensorIndex : Fin 4) : UInt16 := (sensorRegisterBase + sensorIndex).toUInt16

/-- `"%u %.2f\\n"`, without the line break. -/
def temperatureLine (address : UInt16) (value : Float) : Bytes :=
  decimal address.toNat ++ (' ' : Byte) :: formatFixed 2 value

/-- `value` is nearer than half a hundredth of a degree to `t` hundredths. -/
def IsReading (value : Float) (t : Int) : Prop :=
  ∃ n d : Nat, quotient value = some (n, d) ∧
    2 * (100 * (if isNegative value then -(n : Int) else n) - t * d).natAbs < d

/-- Hundredths of a degree, truncated to whole degrees. -/
def wholeDegrees (t : Int) : Int16 := Int16.ofInt (t.tdiv 100)

/-! ## What the server extracts -/

/-- A quotient near `v` hundredths is rounded to them. -/
theorem hundredths_near {n d v : Nat} (h : 2 * (100 * (n : Int) - v * d).natAbs < d) :
    halfEvenDiv (n * 10 ^ 2) d = v := by
  have hcast : ((v * d : Nat) : Int) = (v : Int) * d := Int.natCast_mul v d
  rw [← hcast] at h
  have hdouble : 2 * v * d = 2 * (v * d) := Nat.mul_assoc 2 v d
  apply halfEvenDiv_eq
  · rw [Nat.add_mul, hdouble, Nat.one_mul]
    omega
  · rw [hdouble]
    omega

/-- Only zero is near numbers of both signs. -/
theorem hundredths_opposite {n d v : Nat} (h : 2 * (100 * (n : Int) + v * d).natAbs < d) : v = 0 := by
  have hcast : ((v * d : Nat) : Int) = (v : Int) * d := Int.natCast_mul v d
  rw [← hcast] at h
  cases v with
  | zero => rfl
  | succ u =>
    rw [Nat.add_mul, Nat.one_mul] at h
    omega

/-- Rounding to hundredths recovers the reading, with its sign. -/
theorem IsReading.rounded {value : Float} {t : Int} (h : IsReading value t) :
    ∃ n d : Nat, quotient value = some (n, d) ∧ halfEvenDiv (n * 10 ^ 2) d = t.natAbs ∧
      (t ≠ 0 → isNegative value = decide (t < 0)) := by
  obtain ⟨n, d, hquotient, hnear⟩ := h
  refine ⟨n, d, hquotient, ?_⟩
  obtain ⟨v, rfl | rfl⟩ := t.eq_nat_or_neg
  · rw [Int.natAbs_natCast]
    cases hsign : isNegative value with
    | false =>
      rw [hsign, if_neg (by simp)] at hnear
      exact ⟨hundredths_near hnear, fun _ => by simp⟩
    | true =>
      have heq : 100 * -(n : Int) - v * d = -(100 * n + v * d) := by ring
      rw [hsign, if_pos rfl, heq, Int.natAbs_neg] at hnear
      obtain rfl := hundredths_opposite hnear
      exact ⟨hundredths_near (by simpa using hnear), fun hne => absurd rfl hne⟩
  · rw [Int.natAbs_neg, Int.natAbs_natCast]
    cases hsign : isNegative value with
    | false =>
      have heq : 100 * (n : Int) - -v * d = 100 * n + v * d := by ring
      rw [hsign, if_neg (by simp), heq] at hnear
      obtain rfl := hundredths_opposite hnear
      exact ⟨hundredths_near (by simpa using hnear), fun hne => absurd rfl hne⟩
    | true =>
      have heq : 100 * -(n : Int) - -v * d = -(100 * n - v * d) := by ring
      rw [hsign, if_pos rfl, heq, Int.natAbs_neg] at hnear
      refine ⟨hundredths_near hnear, fun hne => ?_⟩
      simp only [true_eq_decide_iff]
      omega

theorem extractUnsigned_reading {value : Float} {t : Int} (h : IsReading value t)
    (ht : t.natAbs < 2 ^ 64) :
    ∃ rest, extractUnsigned 64 (formatFixed 2 value) =
      some (wrapSign 64 (decide (t < 0)) (t.natAbs / 100), rest) := by
  obtain ⟨n, d, hquotient, hrounded, hsign⟩ := h.rounded
  obtain ⟨rest, hextract⟩ := extractUnsigned_formatFixed 2 hquotient (by
    rw [hrounded]
    omega)
  rw [hrounded] at hextract
  refine ⟨rest, hextract.trans ?_⟩
  by_cases hzero : t = 0
  · subst hzero
    cases isNegative value <;> rfl
  · rw [hsign hzero]
    rfl

/-! ## The line -/

/-- Above -1.00 degrees, truncation drops the sign with the fraction. -/
theorem tdiv_hundred {t : Int} (h : -100 < t) : t.tdiv 100 = (t.natAbs / 100 : Nat) := by
  obtain ⟨v, rfl | rfl⟩ := t.eq_nat_or_neg
  · rw [Int.natAbs_natCast, Int.ofNat_tdiv]
    rfl
  · have hsmall : v / 100 = 0 := by omega
    have hdiv : (v : Int).tdiv 100 = (v / 100 : Nat) := (Int.ofNat_tdiv v 100).symm
    rw [Int.neg_tdiv, hdiv, Int.natAbs_neg, Int.natAbs_natCast, hsmall]
    rfl

theorem handleLine_temperatureLine {value : Float} {t : Int} (h : IsReading value t)
    (ht : t.natAbs ≤ 0xFFFF) (address : UInt16) (tables : Tables) :
    (handleLine (temperatureLine address value) tables).2 =
      if t ≤ -100 then tables else tables.recordValue address (wholeDegrees t) := by
  obtain ⟨rest, hextract⟩ := extractUnsigned_reading h (by omega)
  have hupdate := updateAddressValue_field address hextract tables
  rw [handleLine, temperatureLine, not_relayLine, hupdate]
  by_cases hneg : t ≤ -100
  · have hwrapped : 0xFFFF < wrapSign 64 (decide (t < 0)) (t.natAbs / 100) := by
      rw [wrapSign, if_pos (by simp; omega)]
      omega
    rw [if_pos hwrapped, if_pos hneg]
  · have hvalue : wrapSign 64 (decide (t < 0)) (t.natAbs / 100) = t.natAbs / 100 := by
      unfold wrapSign
      split
      · next hsign =>
        have hsmall : t.natAbs / 100 = 0 := by
          have := of_decide_eq_true hsign
          omega
        rw [hsmall]
        decide
      · rfl
    have htruncated : Int16.ofNat (t.natAbs / 100) = wholeDegrees t := by
      rw [wholeDegrees, tdiv_hundred (by omega)]
      rfl
    rw [hvalue, if_neg (by omega), if_neg hneg, htruncated]

theorem temperature_arrives_iff (sensorIndex : Fin 4) {t : Int} (hlow : -5500 ≤ t)
    (hhigh : t ≤ 12500) {value : Float} (h : IsReading value t) :
    (∀ tables : Tables,
      (handleLine (temperatureLine (sensorRegister sensorIndex) value)
        tables).2.lastValues[sensorRegister sensorIndex]? = some (wholeDegrees t)) ↔ -100 < t := by
  have hline := handleLine_temperatureLine h (by omega) (sensorRegister sensorIndex)
  constructor
  · intro harrives
    by_contra hcold
    have hempty := harrives {}
    rw [hline, if_pos (by omega)] at hempty
    simp at hempty
  · intro hwarm tables
    rw [hline, if_neg (by omega), Tables.recordValue_lastValues, if_pos rfl]

/-- -5.00 degrees: the line is dropped. -/
theorem cold_reading_lost :
    ¬ ∀ (sensorIndex : Fin 4) (t : Int) (value : Float), -5500 ≤ t → t ≤ 12500 →
      IsReading value t → ∀ tables : Tables,
        (handleLine (temperatureLine (sensorRegister sensorIndex) value)
          tables).2.lastValues[sensorRegister sensorIndex]? = some (wholeDegrees t) := by
  intro h
  have hreading : IsReading (-5.0) (-500) :=
    ⟨5629499534213120, 1125899906842624, by decide, by decide⟩
  have hstored := h 0 (-500) (-5.0) (by omega) (by omega) hreading {}
  rw [handleLine_temperatureLine hreading (by omega), if_pos (by omega)] at hstored
  simp at hstored

theorem temperature_arrives_warm :
    (∀ tables : Tables,
      (handleLine (temperatureLine (sensorRegister 1) 21.5)
        tables).2.lastValues[sensorRegister 1]? = some (wholeDegrees 2150)) ↔ -100 < (2150 : Int) :=
  temperature_arrives_iff 1 (by omega) (by omega)
    ⟨6051711999279104, 281474976710656, by decide, by decide⟩

end InverterMonitor.Wire
