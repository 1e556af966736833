import Mathlib.Data.BitVec

/-!
# Clocks that wrap

* `Elapsed`: the comparison of two readings of a counter of `w` bits by the sign
  of their difference.  It is right within half the range of the counter:
  `elapsed_of_le` after the due time, `elapsed_early` before it.
-/

namespace Runs

/-! ## Wrapping counters -/

variable {w : Nat}

/-- The signed difference says that `now` is not before `due`. -/
def Elapsed (now due : BitVec w) : Prop := 0 ≤ (now - due).toInt

theorem elapsed_iff {now due : BitVec w} : Elapsed now due ↔ 2 * (now - due).toNat < 2 ^ w := by
  have hneg := BitVec.toInt_neg_iff (x := now - due)
  unfold Elapsed
  omega

theorem elapsed_self (now : BitVec w) : Elapsed now now := by
  rw [elapsed_iff, BitVec.sub_self, BitVec.toNat_ofNat, Nat.zero_mod, Nat.mul_zero]
  exact Nat.two_pow_pos w

theorem toNat_ofNat_sub {now due : Nat} (h : due ≤ now) :
    (BitVec.ofNat w now - BitVec.ofNat w due).toNat = (now - due) % 2 ^ w := by
  have hnow : now = now - due + due := (Nat.sub_add_cancel h).symm
  rw [hnow, BitVec.ofNat_add, BitVec.add_sub_cancel, BitVec.toNat_ofNat, ← hnow]

/-- From the due time on, for half the range of the counter. -/
theorem elapsed_of_le {now due : Nat} (hdue : due ≤ now) (hnow : 2 * (now - due) < 2 ^ w) :
    Elapsed (BitVec.ofNat w now) (BitVec.ofNat w due) := by
  rw [elapsed_iff, toNat_ofNat_sub hdue, Nat.mod_eq_of_lt (by omega)]
  exact hnow

/-- Before the due time, which is less than a turn of the counter away. -/
theorem elapsed_early {now due : Nat} (hnow : now < due) (hdue : due < now + 2 ^ w) :
    Elapsed (BitVec.ofNat w now) (BitVec.ofNat w due) ↔ 2 ^ w < 2 * (due - now) := by
  have hturn : BitVec.ofNat w now = BitVec.ofNat w (now + 2 ^ w) := by
    apply BitVec.eq_of_toNat_eq
    simp
  rw [hturn, elapsed_iff, toNat_ofNat_sub (by omega), Nat.mod_eq_of_lt (by omega)]
  omega

end Runs
