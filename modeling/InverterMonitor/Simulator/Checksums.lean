import InverterMonitor.Format.ShiftRegister
import InverterMonitor.Simulator.Modbus
import Mathlib.Data.List.GetD

/-!
# What the checksum detects

`computeCrc` feeds a shift register with the bits of the frame, each byte with its
low bit first.

* `computeCrc_eq`: the register it computes;
* `validCrc_iff`: a frame is valid when it leaves the register empty, since the
  low byte of the checksum comes first;
* `burst_detected`: no burst of at most 16 bits does.
-/

namespace InverterMonitor.Modbus
open Text ShiftRegister

/-- The bits of a byte in the order of transmission. -/
def byteBits (b : Byte) : List Bool := (List.range 8).map b.toBitVec.getLsbD

def frameBits (frame : Bytes) : List Bool := frame.flatMap byteBits

@[simp]
theorem frameBits_cons (b : Byte) (frame : Bytes) :
    frameBits (b :: frame) = byteBits b ++ frameBits frame := rfl

theorem frameBits_append (frame frame' : Bytes) :
    frameBits (frame ++ frame') = frameBits frame ++ frameBits frame' :=
  List.flatMap_append

def feedback : BitVec 16 := 0xA001

theorem toBitVec_shiftCrc (crc : UInt16) :
    (shiftCrc crc).toBitVec = shift feedback crc.toBitVec := by
  have hlow : crc &&& 0x0001 ≠ 0 ↔ crc.toBitVec.getLsbD 0 = true := by
    rw [Ne, ← UInt16.toBitVec_inj, UInt16.toBitVec_and]
    have hone := BitVec.and_one_eq_setWidth_ofBool_getLsbD (x := crc.toBitVec)
    change crc.toBitVec &&& 1#16 ≠ 0#16 ↔ _
    rw [hone]
    cases crc.toBitVec.getLsbD 0 <;> decide
  unfold shiftCrc shift
  by_cases h : crc.toBitVec.getLsbD 0 = true
  · rw [if_pos (hlow.mpr h), if_pos h]
    rfl
  · rw [if_neg (mt hlow.mp h), if_neg h]
    rfl

theorem toBitVec_iterate (n : Nat) (crc : UInt16) :
    (shiftCrc^[n] crc).toBitVec = (shift feedback)^[n] crc.toBitVec := by
  induction n generalizing crc with
  | zero => rfl
  | succ n ih =>
    rw [Function.iterate_succ_apply, Function.iterate_succ_apply, ih, toBitVec_shiftCrc]

@[simp]
theorem length_byteBits (b : Byte) : (byteBits b).length = 8 := by
  simp [byteBits]

theorem getD_byteBits (b : Byte) (i : Nat) : (byteBits b).getD i false = b.toBitVec.getLsbD i := by
  by_cases h : i < 8
  · simp [byteBits, h]
  · simp [byteBits, h, BitVec.getLsbD_of_ge b.toBitVec i (by omega)]

theorem load_byteBits (b : Byte) : (load (byteBits b) : BitVec 16) = b.toUInt16.toBitVec := by
  refine BitVec.eq_of_getLsbD_eq fun i hi => ?_
  rw [getLsbD_load (by simp), getD_byteBits]
  simp [hi]

/-- One byte of the outer loop. -/
theorem feed_byteBits (crc : UInt16) (b : Byte) :
    feed feedback crc.toBitVec (byteBits b) = (shiftCrc^[8] (crc ^^^ b.toUInt16)).toBitVec := by
  rw [feed_eq (by simp), load_byteBits, toBitVec_iterate, length_byteBits, UInt16.toBitVec_xor]

theorem computeCrc_eq (frame : Bytes) :
    (computeCrc frame).toBitVec = feed feedback 0xFFFF#16 (frameBits frame) := by
  have hloop : ∀ crc : UInt16,
      (frame.foldl (fun crc b => shiftCrc^[8] (crc ^^^ b.toUInt16)) crc).toBitVec =
        feed feedback crc.toBitVec (frameBits frame) := by
    induction frame with
    | nil => exact fun crc => rfl
    | cons b frame ih =>
      intro crc
      rw [List.foldl_cons, ih, frameBits_cons, feed_append, feed_byteBits]
  exact hloop 0xFFFF

theorem load_word (low high : Byte) :
    (load (byteBits low ++ byteBits high) : BitVec 16) = (word high low).toBitVec := by
  refine BitVec.eq_of_getLsbD_eq fun i hi => ?_
  rw [getLsbD_load (by simp)]
  by_cases hlow : i < 8
  · rw [List.getD_append _ _ _ _ (by simpa using hlow), getD_byteBits]
    simp [word, hi, hlow]
  · rw [List.getD_append_right _ _ _ _ (by simp; omega), getD_byteBits, length_byteBits]
    simp [word, hi, hlow, BitVec.getLsbD_of_ge low.toBitVec i (by omega)]

/-- Behind its checksum, a register is empty. -/
theorem feed_checksum (crc : UInt16) (low high : Byte) :
    feed feedback crc.toBitVec (frameBits [low, high]) = 0#16 ↔ crc = word high low := by
  have hbits : frameBits [low, high] = byteBits low ++ byteBits high := by
    simp [frameBits]
  rw [hbits, feed_eq (by simp), load_word]
  constructor
  · intro h
    have hzero := iterate_shift_eq_zero (by decide) h
    exact UInt16.toBitVec_inj.mp (BitVec.xor_eq_zero_iff.mp hzero)
  · rintro rfl
    rw [BitVec.xor_self, iterate_shift_zero]

theorem validCrc_iff {frame : Bytes} (h : 3 ≤ frame.length) :
    validCrc frame frame.length = true ↔ feed feedback 0xFFFF#16 (frameBits frame) = 0#16 := by
  obtain ⟨low, high, htail⟩ : ∃ low high, frame.drop (frame.length - 2) = [low, high] :=
    List.length_eq_two.mp (by rw [List.length_drop]; omega)
  have hframe : frame = frame.take (frame.length - 2) ++ [low, high] := by
    rw [← htail, List.take_append_drop]
  generalize frame.take (frame.length - 2) = data at hframe
  subst hframe
  have hlen : (data ++ [low, high]).length = data.length + 2 := by simp
  rw [frameBits_append, feed_append, ← computeCrc_eq, feed_checksum, validCrc, if_neg (by omega),
    hlen, beq_iff_eq]
  simp

theorem length_frameBits (frame : Bytes) : (frameBits frame).length = 8 * frame.length := by
  induction frame with
  | nil => rfl
  | cons b frame ih =>
    rw [frameBits_cons, List.length_append, length_byteBits, ih, List.length_cons]
    omega

/-! ## Errors -/

/-- The frame with the bits of the error flipped. -/
def flip (frame error : Bytes) : Bytes := List.zipWith (· ^^^ ·) frame error

theorem byteBits_xor (b e : Byte) :
    byteBits (b ^^^ e) = List.zipWith (· ^^ ·) (byteBits b) (byteBits e) := by
  simp [byteBits, List.range, List.range.loop]

theorem frameBits_flip {frame error : Bytes} (h : frame.length = error.length) :
    frameBits (flip frame error) =
      List.zipWith (· ^^ ·) (frameBits frame) (frameBits error) := by
  induction frame generalizing error with
  | nil => rfl
  | cons b frame ih =>
    cases error with
    | nil => cases h
    | cons e error =>
      have ih := ih (Nat.succ.inj h)
      rw [flip, List.zipWith_cons_cons, frameBits_cons, ← flip, ih, byteBits_xor, frameBits_cons,
        frameBits_cons, List.zipWith_append (by simp)]

theorem mem_frameBits {error : Bytes} (h : ∃ e ∈ error, e ≠ 0) : true ∈ frameBits error := by
  obtain ⟨e, he, hne⟩ := h
  refine List.mem_flatMap.mpr ⟨e, he, ?_⟩
  by_contra hnone
  refine hne (UInt8.toBitVec_inj.mp (BitVec.eq_of_getLsbD_eq fun i hi => ?_))
  cases hbit : e.toBitVec.getLsbD i with
  | false => simp
  | true => exact absurd (List.mem_map.mpr ⟨i, List.mem_range.mpr hi, hbit⟩) hnone

/-- No nonzero burst of at most 16 bits goes unseen, and an appended checksum is valid. -/
theorem burst_detected :
    (∀ frame error : Bytes, validCrc frame frame.length = true → error.length = frame.length →
        (∃ e ∈ error, e ≠ 0) → Confined 16 (frameBits error) →
        validCrc (flip frame error) (flip frame error).length = false) ∧
      ∀ frame : Bytes, frame ≠ [] → validCrc (appendCrc frame) (appendCrc frame).length = true := by
  refine ⟨fun frame error hvalid hlen hne hconfined => ?_, fun frame h => validCrc_appendCrc h⟩
  have hlong : 3 ≤ frame.length := by
    by_contra hshort
    rw [validCrc, if_pos (by omega)] at hvalid
    cases hvalid
  have hflip : (flip frame error).length = frame.length := by
    rw [flip, List.length_zipWith, hlen, Nat.min_self]
  have htop : feedback.msb = true := by decide
  have herror := feed_confined htop hconfined (mem_frameBits hne)
  rw [validCrc_iff hlong] at hvalid
  rw [← Bool.not_eq_true, validCrc_iff (by omega), frameBits_flip hlen.symm]
  have hxor := feed_xor feedback 0xFFFF#16 0#16
    (show (frameBits frame).length = (frameBits error).length by
      rw [length_frameBits, length_frameBits, hlen])
  rw [BitVec.xor_zero, hvalid, BitVec.zero_xor] at hxor
  rwa [hxor]

/-- A burst that reaches from the data into the checksum. -/
theorem burst_over_checksum :
    validCrc (flip (appendCrc [0x04, 0x03, 0x4E, 0x86, 0x00, 0x01]) [0, 0, 0, 0, 0, 0x80, 0x01, 0])
      8 = false := by
  have hwindow : ∀ i < 64,
      (frameBits [0, 0, 0, 0, 0, 0x80, 0x01, 0]).getD i false = true → 47 ≤ i ∧ i < 63 := by
    decide +kernel
  have hconfined : Confined 16 (frameBits [0, 0, 0, 0, 0, 0x80, 0x01, 0]) := by
    refine ⟨47, fun i hi => ?_⟩
    by_cases hlong : i < 64
    · exact hwindow i hlong hi
    · rw [List.getD_eq_default _ _ (by rw [length_frameBits]; exact Nat.le_of_not_lt hlong)] at hi
      cases hi
  have hlen : (flip (appendCrc [0x04, 0x03, 0x4E, 0x86, 0x00, 0x01])
      [0, 0, 0, 0, 0, 0x80, 0x01, 0]).length = 8 := by
    simp [flip, appendCrc_length]
  have h := burst_detected.1 (appendCrc [0x04, 0x03, 0x4E, 0x86, 0x00, 0x01])
    [0, 0, 0, 0, 0, 0x80, 0x01, 0] (by decide +kernel) (by simp [appendCrc_length])
    ⟨0x80, by decide, by decide⟩ hconfined
  rwa [hlen] at h

end InverterMonitor.Modbus
