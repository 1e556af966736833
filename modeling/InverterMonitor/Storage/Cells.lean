import Mathlib.Logic.Function.Basic

/-!
# Cells of a storage

A storage is a function from offsets to cells.  `store` writes a list of values
from an offset on, `slice` reads as many cells as asked for:

* `slice_store`: what is read back is what was written;
* `slice_store_apart`: writing does not change cells elsewhere.
-/

namespace Storage

variable {α : Type}

abbrev Cells (α : Type) := Nat → α

def store (cells : Cells α) (start : Nat) : List α → Cells α
  | [] => cells
  | value :: values => store (Function.update cells start value) (start + 1) values

def slice (cells : Cells α) (start : Nat) : Nat → List α
  | 0 => []
  | n + 1 => cells start :: slice cells (start + 1) n

@[simp] theorem length_slice (cells : Cells α) (start n : Nat) :
    (slice cells start n).length = n := by
  induction n generalizing start with
  | zero => rfl
  | succ n ih => rw [slice, List.length_cons, ih]

theorem slice_congr {cells cells' : Cells α} {start n : Nat}
    (h : ∀ i, start ≤ i → i < start + n → cells i = cells' i) :
    slice cells start n = slice cells' start n := by
  induction n generalizing start with
  | zero => rfl
  | succ n ih =>
    rw [slice, slice, h start (by omega) (by omega),
      ih fun i hlow hhigh => h i (by omega) (by omega)]

theorem slice_add (cells : Cells α) (start n m : Nat) :
    slice cells start (n + m) = slice cells start n ++ slice cells (start + n) m := by
  induction n generalizing start with
  | zero => rw [Nat.zero_add, slice, List.nil_append, Nat.add_zero]
  | succ n ih =>
    rw [Nat.add_right_comm, slice, slice, ih, List.cons_append, Nat.add_right_comm, Nat.add_assoc]

/-- The cells outside the written ones stay. -/
theorem store_apart (cells : Cells α) {start i : Nat} (values : List α)
    (h : i < start ∨ start + values.length ≤ i) : store cells start values i = cells i := by
  induction values generalizing cells start with
  | nil => rfl
  | cons value values ih =>
    rw [List.length_cons] at h
    rw [store, ih _ (by omega), Function.update_of_ne (by omega)]

theorem store_singleton (cells : Cells α) (start : Nat) (value : α) :
    store cells start [value] start = value := by
  rw [store, store, Function.update_self]

theorem slice_store (cells : Cells α) (start : Nat) (values : List α) :
    slice (store cells start values) start values.length = values := by
  induction values generalizing cells start with
  | nil => rfl
  | cons value values ih =>
    rw [store, List.length_cons, slice, ih, store_apart _ values (by omega),
      Function.update_self]

theorem slice_store_apart (cells : Cells α) {start start' n : Nat} (values : List α)
    (h : start' + n ≤ start ∨ start + values.length ≤ start') :
    slice (store cells start values) start' n = slice cells start' n := by
  apply slice_congr
  intro i hlow hhigh
  exact store_apart cells values (by omega)

end Storage
