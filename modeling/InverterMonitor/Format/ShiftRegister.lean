import Mathlib.Data.BitVec
import Mathlib.Logic.Function.Iterate

/-!
# Feedback shift registers

A register of `w` bits that moves to the right and takes in `feedback` for every
one that falls out.  Bits are fed at the low end.

* `feed_xor`: feeding is linear;
* `feed_eq`: up to `w` bits may be put into the register at once;
* `feed_confined`: when `feedback` has the top bit, an empty register remembers every
  nonzero burst of at most `w` bits.
-/

namespace InverterMonitor.ShiftRegister

variable {w : Nat}

def shift (feedback c : BitVec w) : BitVec w :=
  if c.getLsbD 0 then (c >>> 1) ^^^ feedback else c >>> 1

/-- The register with one bit, at its low end. -/
def lowBit (b : Bool) : BitVec w := (BitVec.ofBool b).setWidth w

def feed (feedback c : BitVec w) (bits : List Bool) : BitVec w :=
  bits.foldl (fun c b => shift feedback (c ^^^ lowBit b)) c

/-- The bits side by side, the first at the low end. -/
def load : List Bool → BitVec w
  | [] => 0#w
  | b :: bits => lowBit b ^^^ (load bits <<< 1)

/-- All the set bits lie within `n` positions. -/
def Confined (n : Nat) (bits : List Bool) : Prop :=
  ∃ start, ∀ i, bits.getD i false = true → start ≤ i ∧ i < start + n

/-! ## One shift -/

@[simp]
theorem lowBit_false : (lowBit false : BitVec w) = 0#w := by
  simp [lowBit]

theorem getLsbD_lowBit (b : Bool) (i : Nat) :
    (lowBit b : BitVec w).getLsbD i = (decide (i < w) && (decide (i = 0) && b)) := by
  simp [lowBit, BitVec.getLsbD_ofBool]

theorem shift_zero (feedback : BitVec w) : shift feedback 0#w = 0#w := by
  simp [shift]

theorem shift_xor (feedback c d : BitVec w) :
    shift feedback (c ^^^ d) = shift feedback c ^^^ shift feedback d := by
  simp only [shift, BitVec.getLsbD_xor, BitVec.ushiftRight_xor_distrib]
  cases c.getLsbD 0 <;> cases d.getLsbD 0
  · simp
  · simp [BitVec.xor_assoc]
  · simp only [Bool.xor_false, ↓reduceIte, Bool.false_eq_true]
    ac_rfl
  · have hcancel : feedback ^^^ feedback = 0#w := BitVec.xor_self
    calc (c >>> 1) ^^^ (d >>> 1)
        = ((c >>> 1) ^^^ (d >>> 1)) ^^^ (feedback ^^^ feedback) := by
          rw [hcancel, BitVec.xor_zero]
      _ = (c >>> 1 ^^^ feedback) ^^^ (d >>> 1 ^^^ feedback) := by ac_rfl

/-- With the top bit in the feedback, nothing is lost. -/
theorem shift_eq_zero {feedback : BitVec w} (htop : feedback.msb = true) {c : BitVec w}
    (h : shift feedback c = 0#w) : c = 0#w := by
  have hw : 0 < w := by
    rcases Nat.eq_zero_or_pos w with rfl | hw
    · rw [BitVec.eq_nil feedback] at htop
      cases htop
    · exact hw
  have hmsb : feedback.getLsbD (w - 1) = true := by
    rwa [BitVec.msb_eq_getLsbD_last] at htop
  cases hlow : c.getLsbD 0 with
  | true =>
    -- The bit that is taken in cannot be cancelled by the shifted register.
    have hbit := congrArg (fun x : BitVec w => x.getLsbD (w - 1)) h
    simp [shift, hlow, hmsb, show 1 + (w - 1) = w by omega] at hbit
  | false =>
    rw [shift, hlow, if_neg Bool.false_ne_true] at h
    refine BitVec.eq_of_getLsbD_eq fun i hi => ?_
    cases i with
    | zero => simpa using hlow
    | succ i =>
      have hbit := congrArg (fun x : BitVec w => x.getLsbD i) h
      simpa [Nat.add_comm] using hbit

theorem iterate_shift_zero (feedback : BitVec w) (n : Nat) :
    (shift feedback)^[n] 0#w = 0#w := by
  induction n with
  | zero => rfl
  | succ n ih => rw [Function.iterate_succ_apply, shift_zero, ih]

theorem iterate_shift_eq_zero {feedback : BitVec w} (htop : feedback.msb = true) {n : Nat}
    {c : BitVec w} (h : (shift feedback)^[n] c = 0#w) : c = 0#w := by
  induction n generalizing c with
  | zero => exact h
  | succ n ih => exact shift_eq_zero htop (ih h)

/-! ## Many bits -/

@[simp]
theorem feed_nil (feedback c : BitVec w) : feed feedback c [] = c := rfl

@[simp]
theorem feed_cons (feedback c : BitVec w) (b : Bool) (bits : List Bool) :
    feed feedback c (b :: bits) = feed feedback (shift feedback (c ^^^ lowBit b)) bits := rfl

theorem feed_append (feedback c : BitVec w) (bits bits' : List Bool) :
    feed feedback c (bits ++ bits') = feed feedback (feed feedback c bits) bits' :=
  List.foldl_append

theorem lowBit_xor (b b' : Bool) : (lowBit (b ^^ b') : BitVec w) = lowBit b ^^^ lowBit b' := by
  cases b <;> cases b' <;> simp

theorem feed_xor (feedback c d : BitVec w) {bits bits' : List Bool}
    (h : bits.length = bits'.length) :
    feed feedback (c ^^^ d) (List.zipWith (· ^^ ·) bits bits') =
      feed feedback c bits ^^^ feed feedback d bits' := by
  induction bits generalizing bits' c d with
  | nil =>
    cases bits' with
    | nil => rfl
    | cons b' bits' => cases h
  | cons b bits ih =>
    cases bits' with
    | nil => cases h
    | cons b' bits' =>
      have hin : c ^^^ d ^^^ lowBit (b ^^ b') = (c ^^^ lowBit b) ^^^ (d ^^^ lowBit b') := by
        rw [lowBit_xor]
        ac_rfl
      rw [List.zipWith_cons_cons, feed_cons, hin, shift_xor, ih _ _ (Nat.succ.inj h), feed_cons,
        feed_cons]

/-- Zeros only move the register. -/
theorem feed_zeros {bits : List Bool} (h : ∀ b ∈ bits, b = false) (feedback c : BitVec w) :
    feed feedback c bits = (shift feedback)^[bits.length] c := by
  induction bits generalizing c with
  | nil => rfl
  | cons b bits ih =>
    rw [feed_cons, h b (by simp), lowBit_false, BitVec.xor_zero, List.length_cons,
      Function.iterate_succ_apply, ih fun b hb => h b (List.mem_cons_of_mem _ hb)]

theorem getLsbD_load {bits : List Bool} (h : bits.length ≤ w) (i : Nat) :
    (load bits : BitVec w).getLsbD i = bits.getD i false := by
  induction bits generalizing i with
  | nil => simp [load]
  | cons b bits ih =>
    have ih := ih (by simp at h; omega)
    rw [load, BitVec.getLsbD_xor, getLsbD_lowBit, BitVec.getLsbD_shiftLeft]
    cases i with
    | zero => simp at h ⊢; omega
    | succ i =>
      rw [Nat.add_sub_cancel, ih]
      by_cases hi : i + 1 < w
      · simp [hi]
      · have hlen : bits.length ≤ i := by simp at h; omega
        simp [hi, hlen]

/-- A register that the bits fit into may take them at once. -/
theorem feed_eq {bits : List Bool} (h : bits.length ≤ w) (feedback c : BitVec w) :
    feed feedback c bits = (shift feedback)^[bits.length] (c ^^^ load bits) := by
  induction bits generalizing c with
  | nil => simp [load]
  | cons b bits ih =>
    have hlen : bits.length + 1 ≤ w := h
    -- The other bits come to the low end without any feedback.
    have hload : shift feedback (load bits <<< 1) = (load bits : BitVec w) := by
      have hlow : (load bits <<< 1 : BitVec w).getLsbD 0 = false := by simp
      rw [shift, hlow, if_neg Bool.false_ne_true]
      refine BitVec.eq_of_getLsbD_eq fun i hi => ?_
      rw [BitVec.getLsbD_ushiftRight, BitVec.getLsbD_shiftLeft, Nat.add_sub_cancel_left,
        getLsbD_load (by omega)]
      by_cases hi' : 1 + i < w
      · simp [hi']
      · simp [hi', show bits.length ≤ i by omega]
    rw [feed_cons, ih (by omega), List.length_cons, Function.iterate_succ_apply, load,
      ← BitVec.xor_assoc, shift_xor feedback _ (load bits <<< 1), hload]

theorem feed_burst {feedback : BitVec w} (htop : feedback.msb = true) {before burst after : List Bool}
    (hbefore : ∀ b ∈ before, b = false) (hafter : ∀ b ∈ after, b = false)
    (hlen : burst.length ≤ w) (hburst : true ∈ burst) :
    feed feedback 0#w (before ++ (burst ++ after)) ≠ 0#w := by
  intro h
  rw [feed_append, feed_append, feed_zeros hbefore, iterate_shift_zero, feed_zeros hafter,
    feed_eq hlen, BitVec.zero_xor] at h
  have hload := iterate_shift_eq_zero htop (iterate_shift_eq_zero htop h)
  obtain ⟨i, hi, hbit⟩ := List.getElem_of_mem hburst
  have hzero := getLsbD_load hlen i
  rw [hload, BitVec.getLsbD_zero, List.getD_eq_getElem?_getD, List.getElem?_eq_getElem hi,
    Option.getD_some, hbit] at hzero
  cases hzero

theorem feed_confined {feedback : BitVec w} (htop : feedback.msb = true) {bits : List Bool}
    (h : Confined w bits) (hbit : true ∈ bits) : feed feedback 0#w bits ≠ 0#w := by
  obtain ⟨start, hstart⟩ := h
  -- What lies outside of the window is zero.
  have hzero : ∀ {i : Nat} {b : Bool}, bits[i]? = some b → ¬(start ≤ i ∧ i < start + w) →
      b = false := by
    intro i b hi hout
    cases b with
    | false => rfl
    | true => exact absurd (hstart i (by rw [List.getD_eq_getElem?_getD, hi]; rfl)) hout
  have hbefore : ∀ b ∈ bits.take start, b = false := by
    intro b hb
    obtain ⟨i, hi, rfl⟩ := List.getElem_of_mem hb
    rw [List.length_take] at hi
    refine hzero (i := i) ?_ (by omega)
    rw [List.getElem_take, List.getElem?_eq_getElem (by omega)]
  have hafter : ∀ b ∈ (bits.drop start).drop w, b = false := by
    intro b hb
    obtain ⟨i, hi, rfl⟩ := List.getElem_of_mem hb
    rw [List.length_drop, List.length_drop] at hi
    refine hzero (i := start + (w + i)) ?_ (by omega)
    rw [List.getElem_drop, List.getElem_drop, List.getElem?_eq_getElem (by omega)]
  have hsplit : bits.take start ++ ((bits.drop start).take w ++ (bits.drop start).drop w) =
      bits := by
    rw [List.take_append_drop, List.take_append_drop]
  have hburst : true ∈ (bits.drop start).take w := by
    rw [← hsplit] at hbit
    rcases List.mem_append.mp hbit with hb | hb
    · cases hbefore _ hb
    rcases List.mem_append.mp hb with hb | hb
    · exact hb
    · cases hafter _ hb
  rw [← hsplit]
  exact feed_burst htop hbefore hafter (by simp) hburst

end InverterMonitor.ShiftRegister
