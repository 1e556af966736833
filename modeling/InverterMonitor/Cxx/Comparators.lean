import Mathlib.Data.List.Sort

/-!
# Sorting by a comparator

What `qsort` does with an array, and comparators of arrays of one length.

* `Sorts.eq_of_perm`: a comparator that tells elements apart leaves one result for all the
  orders of the elements;
* `Compares.isComparator`: a comparator that follows a linear order is one for `qsort`;
* `compares_compareLists`: the first difference gives the lexicographic order.
-/

namespace Cxx

variable {α β κ : Type*}

/-- What `qsort` asks of the function that it compares with. -/
structure IsComparator (cmp : α → α → Int) : Prop where
  swap : ∀ a b, cmp a b < 0 ↔ 0 < cmp b a
  trans : ∀ a b c, cmp a b ≤ 0 → cmp b c ≤ 0 → cmp a c ≤ 0

/-- The elements come in the order of the comparator. Nothing is said about the order of equal
elements. -/
def Sorts (sort : (α → α → Int) → List α → List α) : Prop :=
  ∀ cmp, IsComparator cmp → ∀ xs,
    (sort cmp xs).Perm xs ∧ (sort cmp xs).Pairwise fun a b => cmp a b ≤ 0

/-! ## One result -/

theorem IsComparator.eq_zero {cmp : α → α → Int} (hcmp : IsComparator cmp) {a b : α}
    (hab : cmp a b ≤ 0) (hba : cmp b a ≤ 0) : cmp a b = 0 := by
  have hnot : ¬ cmp a b < 0 := fun hlt => absurd ((hcmp.swap a b).mp hlt) (Int.not_lt.mpr hba)
  omega

theorem Sorts.eq_of_perm {sort : (α → α → Int) → List α → List α} (hsort : Sorts sort)
    {cmp : α → α → Int} (hcmp : IsComparator cmp) (hstrict : ∀ a b, cmp a b = 0 → a = b)
    {xs ys : List α} (h : xs.Perm ys) : sort cmp xs = sort cmp ys := by
  obtain ⟨hperm, hsorted⟩ := hsort cmp hcmp xs
  obtain ⟨hperm', hsorted'⟩ := hsort cmp hcmp ys
  have hantisymm : ∀ a b, a ∈ sort cmp xs → b ∈ sort cmp ys →
      cmp a b ≤ 0 → cmp b a ≤ 0 → a = b :=
    fun a b _ _ hab hba => hstrict a b (hcmp.eq_zero hab hba)
  exact List.Perm.eq_of_pairwise hantisymm hsorted hsorted' (hperm.trans (h.trans hperm'.symm))

/-- A list of at most one element is sorted. -/
theorem Sorts.eq_self {sort : (α → α → Int) → List α → List α} (hsort : Sorts sort)
    {cmp : α → α → Int} (hcmp : IsComparator cmp) {xs : List α} (h : xs.length ≤ 1) :
    sort cmp xs = xs := by
  have hperm := (hsort cmp hcmp xs).1
  cases xs with
  | nil => exact hperm.eq_nil
  | cons x xs =>
    obtain rfl : xs = [] := List.eq_nil_of_length_eq_zero (by rw [List.length_cons] at h; omega)
    exact List.perm_singleton.mp hperm

/-- A function that sorts. -/
def mergeSortBy (cmp : α → α → Int) (xs : List α) : List α :=
  xs.mergeSort fun a b => decide (cmp a b ≤ 0)

theorem sorts_mergeSortBy : Sorts (@mergeSortBy α) := by
  intro cmp hcmp xs
  have htrans : ∀ a b c, decide (cmp a b ≤ 0) = true → decide (cmp b c ≤ 0) = true →
      decide (cmp a c ≤ 0) = true := by
    intro a b c hab hbc
    exact decide_eq_true (hcmp.trans a b c (of_decide_eq_true hab) (of_decide_eq_true hbc))
  have htotal : ∀ a b, (decide (cmp a b ≤ 0) || decide (cmp b a ≤ 0)) = true := by
    intro a b
    have hswap := hcmp.swap b a
    rw [Bool.or_eq_true, decide_eq_true_eq, decide_eq_true_eq]
    omega
  refine ⟨List.mergeSort_perm xs _, ?_⟩
  exact (List.pairwise_mergeSort htrans htotal xs).imp of_decide_eq_true

/-! ## Comparators of a linear order -/

section Orders
variable [LT κ] [LE κ] [Std.IsLinearOrder κ] [Std.LawfulOrderLT κ]

/-- The comparator follows the order of the keys. -/
structure Compares (cmp : β → β → Int) (key : β → κ) : Prop where
  neg_iff : ∀ a b, cmp a b < 0 ↔ key a < key b
  pos_iff : ∀ a b, 0 < cmp a b ↔ key b < key a

theorem Compares.nonpos_iff {cmp : β → β → Int} {key : β → κ} (h : Compares cmp key) (a b : β) :
    cmp a b ≤ 0 ↔ key a ≤ key b := by
  rw [← Int.not_lt, h.pos_iff, Std.not_lt]

theorem Compares.isComparator {cmp : β → β → Int} {key : β → κ} (h : Compares cmp key) :
    IsComparator cmp where
  swap a b := (h.neg_iff a b).trans (h.pos_iff b a).symm
  trans a b c hab hbc := by
    rw [h.nonpos_iff] at hab hbc ⊢
    exact Std.le_trans hab hbc

theorem Compares.eq_of_eq_zero {cmp : β → β → Int} {key : β → κ} (h : Compares cmp key) {a b : β}
    (hzero : cmp a b = 0) : key a = key b := by
  have hle := (h.nonpos_iff a b).mp (Int.le_of_eq hzero)
  have hnot : ¬ key a < key b := fun hlt => Int.ne_of_lt ((h.neg_iff a b).mpr hlt) hzero
  exact Std.le_antisymm hle (Std.not_lt.mp hnot)

end Orders

/-! ## The first difference -/

section Lex
variable [LT α] [DecidableLT α]

def compareLists : List α → List α → Int
  | a :: as, b :: bs => if a < b then -1 else if b < a then 1 else compareLists as bs
  | _, _ => 0

variable [LE α] [Std.IsLinearOrder α] [Std.LawfulOrderLT α]

theorem compareLists_sign {as bs : List α} (h : as.length = bs.length) :
    (compareLists as bs < 0 ↔ as < bs) ∧ (0 < compareLists as bs ↔ bs < as) := by
  induction as generalizing bs with
  | nil =>
    obtain rfl := List.eq_nil_of_length_eq_zero h.symm
    simp [compareLists]
  | cons a as ih =>
    cases bs with
    | nil => cases h
    | cons b bs =>
      obtain ⟨hneg, hpos⟩ := ih (Nat.succ.inj h)
      rw [List.cons_lt_cons_iff, List.cons_lt_cons_iff, compareLists]
      by_cases hab : a < b
      · have hba : ¬ b < a := Std.not_gt_of_lt hab
        have hne : ¬ b = a := fun heq => Std.lt_irrefl (heq ▸ hab)
        simp [hab, hba, hne]
      · by_cases hba : b < a
        · have hne : ¬ a = b := fun heq => Std.lt_irrefl (heq ▸ hba)
          simp [hab, hba, hne]
        · obtain rfl : a = b := Std.le_antisymm (Std.not_lt.mp hba) (Std.not_lt.mp hab)
          simp [hab, hneg, hpos]

/-- Keys of one length are compared by their first difference. -/
theorem compares_compareLists {key : β → List α} (h : ∀ a b, (key a).length = (key b).length) :
    Compares (fun a b => compareLists (key a) (key b)) key where
  neg_iff a b := (compareLists_sign (h a b)).1
  pos_iff a b := (compareLists_sign (h a b)).2

end Lex

end Cxx
