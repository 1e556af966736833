import InverterMonitor.Server.Requests
import Mathlib.Data.Rat.Floor
import Mathlib.Tactic.Linarith
import Mathlib.Tactic.FieldSimp

/-!
# The points of a chart

`readDataFilePointsInRange` reduces the points of a data file to a number that
was asked for, at the multiples of a step.  Here the step and its multiples are
exact rationals.

* `roundRat_lt`: rounding keeps two numbers apart that differ by one;
* `selectedIndex_lt`, `selectedIndex_last`: so no point is taken twice, and the last
  index is the last point;
* `points_selected`: for every file, bounds and number of points.
-/

namespace InverterMonitor.Http
open Text Cxx

/-! ## Rounding -/

/-- `std::round`: halves go away from zero. -/
def roundRat (x : ℚ) : ℤ := if 0 ≤ x then ⌊x + 1 / 2⌋ else ⌈x - 1 / 2⌉

@[simp]
theorem roundRat_natCast (n : Nat) : roundRat n = n := by
  have hfloor : ⌊(n : ℚ) + 1 / 2⌋ = (n : ℤ) := by
    rw [Int.floor_eq_iff]
    constructor
    · push_cast
      linarith
    · push_cast
      linarith
  rw [roundRat, if_pos n.cast_nonneg, hfloor]

theorem roundRat_nonneg {x : ℚ} (h : 0 ≤ x) : 0 ≤ roundRat x := by
  rw [roundRat, if_pos h]
  exact Int.floor_nonneg.mpr (by linarith)

theorem roundRat_lt {x y : ℚ} (hx : 0 ≤ x) (h : x + 1 ≤ y) : roundRat x < roundRat y := by
  rw [roundRat, roundRat, if_pos hx, if_pos (by linarith)]
  have hstep : ⌊x + 1 / 2⌋ + 1 = ⌊x + 1 / 2 + 1⌋ := (Int.floor_add_one _).symm
  have hmono : ⌊x + 1 / 2 + 1⌋ ≤ ⌊y + 1 / 2⌋ := Int.floor_le_floor (by linarith)
  omega

/-! ## Indices -/

def selectedIndex (count maxPoints index : Nat) : Nat :=
  (roundRat ((index : ℚ) * (((count - 1 : Nat) : ℚ) / ((maxPoints - 1 : Nat) : ℚ)))).toNat

/-- `selectPoints` with exact numbers. -/
def selectExactly (filtered : List (Bytes × Float)) (maxPoints : Nat) : List (Bytes × Float) :=
  (List.range maxPoints).filterMap fun index =>
    filtered[min (selectedIndex filtered.length maxPoints index) (filtered.length - 1)]?

section

variable {count maxPoints : Nat}

theorem step_ge (hmany : maxPoints < count) (htwo : 2 ≤ maxPoints) :
    (1 : ℚ) ≤ ((count - 1 : Nat) : ℚ) / ((maxPoints - 1 : Nat) : ℚ) := by
  have hpos : (0 : ℚ) < ((maxPoints - 1 : Nat) : ℚ) := by
    exact_mod_cast (show 0 < maxPoints - 1 by omega)
  rw [le_div_iff₀ hpos, one_mul]
  exact_mod_cast (show maxPoints - 1 ≤ count - 1 by omega)

theorem selectedIndex_lt (hmany : maxPoints < count) (htwo : 2 ≤ maxPoints) {i j : Nat}
    (h : i < j) : selectedIndex count maxPoints i < selectedIndex count maxPoints j := by
  have hstep := step_ge hmany htwo
  have hij : (i : ℚ) + 1 ≤ j := by exact_mod_cast h
  have hi : (0 : ℚ) ≤ i := i.cast_nonneg
  have hx : 0 ≤ (i : ℚ) * (((count - 1 : Nat) : ℚ) / ((maxPoints - 1 : Nat) : ℚ)) :=
    mul_nonneg hi (by linarith)
  have hgap : (i : ℚ) * (((count - 1 : Nat) : ℚ) / ((maxPoints - 1 : Nat) : ℚ)) + 1 ≤
      (j : ℚ) * (((count - 1 : Nat) : ℚ) / ((maxPoints - 1 : Nat) : ℚ)) := by
    nlinarith
  have hround := roundRat_lt hx hgap
  have hnonneg := roundRat_nonneg hx
  unfold selectedIndex
  omega

@[simp]
theorem selectedIndex_zero : selectedIndex count maxPoints 0 = 0 := by
  have hzero := roundRat_natCast 0
  simp only [Nat.cast_zero] at hzero
  simp [selectedIndex, hzero]

theorem selectedIndex_last (htwo : 2 ≤ maxPoints) :
    selectedIndex count maxPoints (maxPoints - 1) = count - 1 := by
  have hpos : ((maxPoints - 1 : Nat) : ℚ) ≠ 0 := by
    exact_mod_cast (show maxPoints - 1 ≠ 0 by omega)
  rw [selectedIndex, mul_div_cancel₀ _ hpos, roundRat_natCast, Int.toNat_natCast]

theorem selectedIndex_le (hmany : maxPoints < count) (htwo : 2 ≤ maxPoints) {i : Nat}
    (h : i < maxPoints) : selectedIndex count maxPoints i ≤ count - 1 := by
  rcases Nat.lt_or_eq_of_le (Nat.le_sub_one_of_lt h) with hlt | rfl
  · have hlast : selectedIndex count maxPoints (maxPoints - 1) = count - 1 :=
      selectedIndex_last htwo
    rw [← hlast]
    exact (selectedIndex_lt hmany htwo hlt).le
  · exact (selectedIndex_last htwo).le

end

/-! ## Selections -/

/-- The points at some positions, in order and without repetition. -/
structure TakenAt {α : Type} (points : List α) (positions : List Nat) (chosen : List α) : Prop where
  increasing : positions.Pairwise (· < ·)
  inside : ∀ p ∈ positions, p < points.length
  taken : chosen = positions.filterMap (points[·]?)

namespace TakenAt

variable {α : Type} {points chosen : List α} {positions : List Nat}

theorem map_eq (h : TakenAt points positions chosen) :
    chosen.map some = positions.map (points[·]?) := by
  obtain ⟨hincreasing, hinside, rfl⟩ := h
  clear hincreasing
  induction positions with
  | nil => rfl
  | cons p positions ih =>
    have hp := List.getElem?_eq_getElem (hinside p (by simp))
    rw [List.filterMap_cons_some hp, List.map_cons, List.map_cons, hp,
      ih fun q hq => hinside q (List.mem_cons_of_mem p hq)]

theorem length_eq (h : TakenAt points positions chosen) : chosen.length = positions.length := by
  simpa using congrArg List.length h.map_eq

/-- All points are taken at all positions. -/
theorem all (points : List α) : TakenAt points (List.range points.length) points where
  increasing := List.pairwise_lt_range
  inside := fun p hp => List.mem_range.mp hp
  taken := by
    induction points using List.reverseRecOn with
    | nil => rfl
    | append_singleton points a ih =>
      rw [List.length_append, List.length_singleton, List.range_succ, List.filterMap_append]
      have hbefore : (List.range points.length).filterMap ((points ++ [a])[·]?) = points := by
        conv => rhs; rw [ih]
        refine List.filterMap_congr fun p hp => ?_
        rw [List.getElem?_append_left (List.mem_range.mp hp)]
      rw [hbefore]
      simp

theorem head_eq (h : TakenAt points positions chosen) (hfirst : positions.head? = some 0) :
    chosen.head? = points.head? := by
  have hmap := congrArg List.head? h.map_eq
  rw [List.head?_map, List.head?_map, hfirst, Option.map_some, ← List.head?_eq_getElem?] at hmap
  cases hc : chosen.head? with
  | none =>
    rw [hc] at hmap
    cases hmap
  | some a =>
    rw [hc] at hmap
    exact Option.some.inj hmap

theorem last_eq (h : TakenAt points positions chosen)
    (hlast : positions.getLast? = some (points.length - 1)) :
    chosen.getLast? = points.getLast? := by
  have hmap := congrArg List.getLast? h.map_eq
  rw [List.getLast?_map, List.getLast?_map, hlast, Option.map_some,
    ← List.getLast?_eq_getElem?] at hmap
  cases hc : chosen.getLast? with
  | none =>
    rw [hc] at hmap
    cases hmap
  | some a =>
    rw [hc] at hmap
    exact Option.some.inj hmap

end TakenAt

theorem selectExactly_takenAt {filtered : List (Bytes × Float)} {maxPoints : Nat}
    (hmany : maxPoints < filtered.length) (htwo : 2 ≤ maxPoints) :
    TakenAt filtered ((List.range maxPoints).map (selectedIndex filtered.length maxPoints))
      (selectExactly filtered maxPoints) where
  increasing := by
    rw [List.pairwise_map]
    exact List.pairwise_lt_range.imp fun h => selectedIndex_lt hmany htwo h
  inside := by
    intro p hp
    obtain ⟨i, hi, rfl⟩ := List.mem_map.mp hp
    have hle := selectedIndex_le hmany htwo (List.mem_range.mp hi)
    omega
  taken := by
    rw [selectExactly, List.filterMap_map]
    refine List.filterMap_congr fun i hi => ?_
    rw [Nat.min_eq_left (selectedIndex_le hmany htwo (List.mem_range.mp hi))]
    rfl

/-! ## Requests for a chart -/

/-- The points of the file that lie within the bounds. -/
def pointsInRange (file : Option Bytes) (fromTimestamp toTimestamp : Bytes) :
    List (Bytes × Float) :=
  match file with
  | none => []
  | some content => (getLines content).filterMap (readPoint fromTimestamp toTimestamp)

/-- `readDataFilePointsInRange` with a way to reduce the points. -/
def readPointsInRange (select : List (Bytes × Float) → Nat → List (Bytes × Float))
    (file : Option Bytes) (fromTimestamp toTimestamp : Bytes) (maxPoints : Nat) :
    List (Bytes × Float) :=
  if fromTimestamp = [] ∨ toTimestamp = [] ∨ maxPoints = 0 then []
  else
    match file with
    | none => []
    | some content =>
      let filtered := (getLines content).filterMap (readPoint fromTimestamp toTimestamp)
      if filtered.length ≤ maxPoints then filtered
      else if maxPoints = 1 then filtered.getLast?.toList
      else select filtered maxPoints

theorem readDataFilePointsInRange_eq :
    readDataFilePointsInRange = readPointsInRange selectPoints := rfl

theorem readPointsInRange_eq (select : List (Bytes × Float) → Nat → List (Bytes × Float))
    (file : Option Bytes) {fromTimestamp toTimestamp : Bytes} (hfrom : fromTimestamp ≠ [])
    (hto : toTimestamp ≠ []) {maxPoints : Nat} (htwo : 2 ≤ maxPoints) :
    readPointsInRange select file fromTimestamp toTimestamp maxPoints =
      if (pointsInRange file fromTimestamp toTimestamp).length ≤ maxPoints then
        pointsInRange file fromTimestamp toTimestamp
      else select (pointsInRange file fromTimestamp toTimestamp) maxPoints := by
  have hguard : ¬(fromTimestamp = [] ∨ toTimestamp = [] ∨ maxPoints = 0) := by
    rintro (h | h | h)
    · exact hfrom h
    · exact hto h
    · omega
  unfold readPointsInRange
  rw [if_neg hguard]
  cases file with
  | none => simp [pointsInRange]
  | some content =>
    dsimp only
    rw [if_neg (show maxPoints ≠ 1 by omega)]
    rfl

/-- As many points as asked for, in order, each once, from the first to the last. -/
theorem points_selected (file : Option Bytes) {fromTimestamp toTimestamp : Bytes}
    (hfrom : fromTimestamp ≠ []) (hto : toTimestamp ≠ []) {maxPoints : Nat}
    (htwo : 2 ≤ maxPoints) :
    ∃ positions : List Nat,
      TakenAt (pointsInRange file fromTimestamp toTimestamp) positions
          (readPointsInRange selectExactly file fromTimestamp toTimestamp maxPoints) ∧
        (readPointsInRange selectExactly file fromTimestamp toTimestamp maxPoints).length =
          min (pointsInRange file fromTimestamp toTimestamp).length maxPoints ∧
        (pointsInRange file fromTimestamp toTimestamp ≠ [] →
          (readPointsInRange selectExactly file fromTimestamp toTimestamp maxPoints).head? =
              (pointsInRange file fromTimestamp toTimestamp).head? ∧
            (readPointsInRange selectExactly file fromTimestamp toTimestamp maxPoints).getLast? =
              (pointsInRange file fromTimestamp toTimestamp).getLast?) := by
  rw [readPointsInRange_eq selectExactly file hfrom hto htwo]
  generalize pointsInRange file fromTimestamp toTimestamp = points
  split
  case isTrue hfew =>
    exact ⟨_, .all points, by omega, fun _ => ⟨rfl, rfl⟩⟩
  case isFalse hmany =>
    have htaken := selectExactly_takenAt (Nat.lt_of_not_le hmany) htwo
    refine ⟨_, htaken, ?_, fun _ => ⟨htaken.head_eq ?_, htaken.last_eq ?_⟩⟩
    · rw [htaken.length_eq, List.length_map, List.length_range]
      omega
    · rw [List.head?_map, List.head?_range, if_neg (by omega), Option.map_some, selectedIndex_zero]
    · rw [List.getLast?_map, List.getLast?_range, if_neg (by omega), Option.map_some,
        selectedIndex_last htwo]

/-- Two points of three: the first and the last. -/
theorem two_of_three :
    (readPointsInRange selectExactly
      (some (ascii "2024-01-01T00:00:00Z 1\n2024-01-01T00:00:05Z 2\n2024-01-01T00:00:10Z 3\n"))
      (ascii "2024") (ascii "2025") 2).length = 2 := by
  obtain ⟨_, _, hlength, _⟩ := points_selected
    (some (ascii "2024-01-01T00:00:00Z 1\n2024-01-01T00:00:05Z 2\n2024-01-01T00:00:10Z 3\n"))
    (show ascii "2024" ≠ [] by decide) (show ascii "2025" ≠ [] by decide) (show 2 ≤ 2 by decide)
  rw [hlength]
  decide +kernel

end InverterMonitor.Http
