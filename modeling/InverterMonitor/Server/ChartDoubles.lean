import InverterMonitor.Cxx.Decimals
import InverterMonitor.Server.ChartSelection
import Mathlib.Algebra.Order.Floor.Semifield

/-!
# The points of a chart, with a step of type double

`selectPoints` takes the points at the rounded multiples of a double.

* `near_multiple`: a multiple is near the exact one;
* `roundHalfAway_lt`, `roundHalfAway_eq`: rounding after errors that are small against the
  number of points;
* `chart_reply_selected`: so the reply has the first and the last point, takes none twice and
  stays within one index of the exact multiples.
-/

namespace InverterMonitor.Http
open Text Cxx Float.Model.UnpackedFloat

/-! ## Rounding to an index -/

/-- The double is not negative and off `t` by at most `e`. -/
def Close (e t : ℚ) (x : Float) : Prop :=
  ∃ n d, quotient x = some (n, d) ∧ 0 < d ∧ |(n : ℚ) / d - t| ≤ e

section

variable {e t u : ℚ} {x y : Float}

/-- `std::round` of a quotient. -/
theorem roundHalfAway_floor {n d : Nat} (h : quotient x = some (n, d)) (hd : 0 < d) :
    roundHalfAway x = ⌊(n : ℚ) / d + 1 / 2⌋₊ := by
  have hdcast : (0 : ℚ) < d := by exact_mod_cast hd
  have hhalf : (n : ℚ) / d + 1 / 2 = ((2 * n + d : Nat) : ℚ) / (2 * d : Nat) := by
    push_cast
    field_simp
  rw [roundHalfAway, h, hhalf, Nat.floor_div_eq_div]

theorem roundHalfAway_bounds (h : Close e t x) :
    (roundHalfAway x : ℚ) ≤ t + e + 1 / 2 ∧ t - e - 1 / 2 < roundHalfAway x := by
  obtain ⟨n, d, hquotient, hd, hclose⟩ := h
  obtain ⟨hlow, hhigh⟩ := abs_le.mp hclose
  have hnonneg : (0 : ℚ) ≤ (n : ℚ) / d + 1 / 2 := by positivity
  have hbelow := Nat.floor_le hnonneg
  have habove := Nat.lt_floor_add_one ((n : ℚ) / d + 1 / 2)
  rw [roundHalfAway_floor hquotient hd]
  constructor
  · linarith
  · linarith

/-- Numbers whose distance makes up for the errors are kept apart. -/
theorem roundHalfAway_lt (hx : Close e t x) (hy : Close e u y) (h : t + 1 + 2 * e ≤ u) :
    roundHalfAway x < roundHalfAway y := by
  obtain ⟨n, d, hquotient, hd, hclose⟩ := hx
  obtain ⟨n', d', hquotient', hd', hclose'⟩ := hy
  obtain ⟨-, hhigh⟩ := abs_le.mp hclose
  obtain ⟨hlow', -⟩ := abs_le.mp hclose'
  have hnonneg : (0 : ℚ) ≤ (n : ℚ) / d + 1 / 2 := by positivity
  rw [roundHalfAway_floor hquotient hd, roundHalfAway_floor hquotient' hd', Nat.lt_iff_add_one_le,
    ← Nat.floor_add_one hnonneg]
  exact Nat.floor_le_floor (by linarith)

theorem roundHalfAway_eq {n : Nat} (h : Close e n x) (he : e < 1 / 2) : roundHalfAway x = n := by
  obtain ⟨hhigh, hlow⟩ := roundHalfAway_bounds h
  have hmost : (roundHalfAway x : ℚ) < n + 1 := by linarith
  have hleast : (n : ℚ) < roundHalfAway x + 1 := by linarith
  have hmost' : roundHalfAway x < n + 1 := by exact_mod_cast hmost
  have hleast' : n < roundHalfAway x + 1 := by exact_mod_cast hleast
  omega

end

/-! ## Multiples of the step -/

theorem close_of_near {k w : Nat} {e t : ℚ} {x : Float} (h : Near k w .positive t x)
    (he : k * (1 / 2 ^ 52) * t ≤ e) : Close e t x := by
  obtain ⟨n, d, hquotient, -, hd, hwithin⟩ := h.quotient
  exact ⟨n, d, hquotient, hd, le_trans hwithin he⟩

/-- The double that is rounded for an index, for `n + 1` points of which `m + 1` are taken. -/
def multiple (n m index : Nat) : Float :=
  Float.ofNat index * (Float.ofNat n / Float.ofNat m)

/-- The error of all multiples. -/
def multipleError (n : Nat) : ℚ := 22 * (1 / 2 ^ 52) * n

theorem near_multiple {n m index : Nat} (hn : 0 < n) (hm : 0 < m) (hindex : 0 < index)
    (hn' : n < 2 ^ 53) (hm' : m < 2 ^ 53) (hindex' : index < 2 ^ 53) :
    Near 22 729 .positive ((index : ℚ) * ((n : ℚ) / m)) (multiple n m index) := by
  have hmcast : (0 : ℚ) < m := by exact_mod_cast hm
  have hstep := (near_ofNat hn hn').div (near_ofNat hm hm') (Nat.cast_nonneg n) hmcast (by decide)
    (by decide) (by decide) (by decide)
  exact (near_ofNat hindex hindex').mul hstep (Nat.cast_nonneg index) (by positivity) (by decide)
    (by decide) (by decide)

theorem close_multiple {n m index : Nat} (hn : 0 < n) (hm : 0 < m) (hindex : index ≤ m)
    (hn' : n < 2 ^ 53) (hm' : m < 2 ^ 53) :
    Close (multipleError n) ((index : ℚ) * ((n : ℚ) / m)) (multiple n m index) := by
  have hmcast : (0 : ℚ) < m := by exact_mod_cast hm
  rcases Nat.eq_zero_or_pos index with rfl | hpos
  · have hstep := (near_ofNat hn hn').div (near_ofNat hm hm') (Nat.cast_nonneg n) hmcast (by decide)
      (by decide) (by decide) (by decide)
    refine ⟨0, 1, quotient_zero (hstep.zero_mul rfl), Nat.one_pos, ?_⟩
    rw [Nat.cast_zero, zero_mul, zero_div, sub_self, abs_zero]
    unfold multipleError
    positivity
  · refine close_of_near (near_multiple hn hm hpos hn' hm' (by omega)) ?_
    have hle : (index : ℚ) * ((n : ℚ) / m) ≤ n := by
      have hcast : (index : ℚ) ≤ m := by exact_mod_cast hindex
      rw [← mul_div_assoc, div_le_iff₀ hmcast, mul_comm (n : ℚ)]
      exact mul_le_mul_of_nonneg_right hcast (Nat.cast_nonneg n)
    exact mul_le_mul_of_nonneg_left hle (by norm_num)

/-! ## Indices -/

/-- The index that is taken, before the bound by the last one. -/
def doubleIndex (n m index : Nat) : Nat := roundHalfAway (multiple n m index)

section

variable {n m : Nat}

/-- Twice the error is less than what the step is above one. -/
theorem multipleError_lt (hm : 0 < m) (hsmall : n * m ≤ 2 ^ 46) :
    2 * multipleError n < 1 / m := by
  have hmcast : (0 : ℚ) < m := by exact_mod_cast hm
  have hcast : (n : ℚ) * m ≤ 2 ^ 46 := by exact_mod_cast hsmall
  rw [lt_div_iff₀ hmcast, multipleError]
  calc 2 * (22 * (1 / 2 ^ 52) * (n : ℚ)) * m = 44 * (1 / 2 ^ 52) * (n * m) := by ring
    _ ≤ 44 * (1 / 2 ^ 52) * 2 ^ 46 := mul_le_mul_of_nonneg_left hcast (by norm_num)
    _ < 1 := by norm_num

theorem multipleError_lt_half (hm : 0 < m) (hsmall : n * m ≤ 2 ^ 46) :
    multipleError n < 1 / 2 := by
  have hlt := multipleError_lt hm hsmall
  have hone : (1 : ℚ) / m ≤ 1 := by
    rw [div_le_one (by exact_mod_cast hm)]
    exact_mod_cast hm
  linarith

theorem close_index (hm : 0 < m) (hmn : m < n) (hsmall : n * m ≤ 2 ^ 46) {index : Nat}
    (hindex : index ≤ m) :
    Close (multipleError n) ((index : ℚ) * ((n : ℚ) / m)) (multiple n m index) := by
  have hn : n ≤ n * m := Nat.le_mul_of_pos_right n hm
  exact close_multiple (by omega) hm hindex (by omega) (by omega)

theorem doubleIndex_lt (hm : 0 < m) (hmn : m < n) (hsmall : n * m ≤ 2 ^ 46) {i j : Nat}
    (hij : i < j) (hj : j ≤ m) : doubleIndex n m i < doubleIndex n m j := by
  refine roundHalfAway_lt (close_index hm hmn hsmall (by omega)) (close_index hm hmn hsmall hj) ?_
  have hmcast : (0 : ℚ) < m := by exact_mod_cast hm
  have hstep : 1 + 1 / (m : ℚ) ≤ n / m := by
    have hcast : (m : ℚ) + 1 ≤ n := by exact_mod_cast hmn
    rw [le_div_iff₀ hmcast, add_mul, one_div, inv_mul_cancel₀ hmcast.ne', one_mul]
    exact hcast
  have hnext : (i : ℚ) + 1 ≤ j := by exact_mod_cast hij
  have hscaled := mul_le_mul_of_nonneg_right hnext (show (0 : ℚ) ≤ n / m by positivity)
  have herror := multipleError_lt hm hsmall
  rw [add_mul, one_mul] at hscaled
  linarith

theorem doubleIndex_last (hm : 0 < m) (hmn : m < n) (hsmall : n * m ≤ 2 ^ 46) :
    doubleIndex n m m = n := by
  have hclose := close_index hm hmn hsmall (le_refl m)
  have hmcast : (m : ℚ) ≠ 0 := by exact_mod_cast hm.ne'
  rw [mul_div_cancel₀ _ hmcast] at hclose
  exact roundHalfAway_eq hclose (multipleError_lt_half hm hsmall)

theorem doubleIndex_le (hm : 0 < m) (hmn : m < n) (hsmall : n * m ≤ 2 ^ 46) {i : Nat}
    (hi : i ≤ m) : doubleIndex n m i ≤ n := by
  rcases Nat.lt_or_eq_of_le hi with hlt | rfl
  · have hbelow := doubleIndex_lt hm hmn hsmall hlt (le_refl m)
    rw [doubleIndex_last hm hmn hsmall] at hbelow
    exact hbelow.le
  · exact (doubleIndex_last hm hmn hsmall).le

theorem doubleIndex_zero (hm : 0 < m) (hmn : m < n) (hsmall : n * m ≤ 2 ^ 46) :
    doubleIndex n m 0 = 0 := by
  have hclose := close_index hm hmn hsmall (Nat.zero_le m)
  rw [Nat.cast_zero, zero_mul, ← Nat.cast_zero] at hclose
  exact roundHalfAway_eq hclose (multipleError_lt_half hm hsmall)

/-- An index is less than one off the exact multiple of the step. -/
theorem doubleIndex_near (hm : 0 < m) (hmn : m < n) (hsmall : n * m ≤ 2 ^ 46) {i : Nat}
    (hi : i ≤ m) : |(doubleIndex n m i : ℚ) - i * ((n : ℚ) / m)| < 1 := by
  obtain ⟨hhigh, hlow⟩ := roundHalfAway_bounds (close_index hm hmn hsmall hi)
  have herror := multipleError_lt_half hm hsmall
  rw [abs_lt, doubleIndex]
  constructor
  · linarith
  · linarith

end

/-! ## Selections -/

/-- As many positions as asked for: the first, the last and evenly spread ones between. -/
structure Spread (count maxPoints : Nat) (positions : List Nat) : Prop where
  length_eq : positions.length = min count maxPoints
  first : 0 < count → positions.head? = some 0
  last : 0 < count → positions.getLast? = some (count - 1)
  near : maxPoints < count → ∀ i p : Nat, positions[i]? = some p →
    |(p : ℚ) - i * (((count - 1 : Nat) : ℚ) / ((maxPoints - 1 : Nat) : ℚ))| < 1

theorem spread_all {count maxPoints : Nat} (hfew : count ≤ maxPoints) :
    Spread count maxPoints (List.range count) where
  length_eq := by
    rw [List.length_range]
    omega
  first := fun h => by rw [List.head?_range, if_neg (by omega)]
  last := fun h => by rw [List.getLast?_range, if_neg (by omega)]
  near := fun h => absurd hfew (Nat.not_le.mpr h)

theorem spread_doubleIndex {count maxPoints : Nat} (hmany : maxPoints < count)
    (htwo : 2 ≤ maxPoints) (hsmall : count * maxPoints ≤ 2 ^ 46) :
    Spread count maxPoints
      ((List.range maxPoints).map (doubleIndex (count - 1) (maxPoints - 1))) := by
  have hm : 0 < maxPoints - 1 := by omega
  have hmn : maxPoints - 1 < count - 1 := by omega
  have hproduct : (count - 1) * (maxPoints - 1) ≤ 2 ^ 46 :=
    (Nat.mul_le_mul (Nat.sub_le _ 1) (Nat.sub_le _ 1)).trans hsmall
  refine ⟨?_, fun _ => ?_, fun _ => ?_, fun _ i p hp => ?_⟩
  · rw [List.length_map, List.length_range]
    omega
  · rw [List.head?_map, List.head?_range, if_neg (by omega), Option.map_some,
      doubleIndex_zero hm hmn hproduct]
  · rw [List.getLast?_map, List.getLast?_range, if_neg (by omega), Option.map_some,
      doubleIndex_last hm hmn hproduct]
  · rw [List.getElem?_map] at hp
    obtain ⟨j, hj, rfl⟩ := Option.map_eq_some_iff.mp hp
    obtain ⟨hi, rfl⟩ := List.getElem?_eq_some_iff.mp hj
    rw [List.length_range] at hi
    rw [List.getElem_range]
    exact doubleIndex_near hm hmn hproduct (Nat.le_sub_one_of_lt hi)

theorem selectPoints_takenAt {filtered : List (Bytes × Float)} {maxPoints : Nat}
    (hmany : maxPoints < filtered.length) (htwo : 2 ≤ maxPoints)
    (hsmall : filtered.length * maxPoints ≤ 2 ^ 46) :
    TakenAt filtered ((List.range maxPoints).map
      (doubleIndex (filtered.length - 1) (maxPoints - 1))) (selectPoints filtered maxPoints) := by
  have hm : 0 < maxPoints - 1 := by omega
  have hmn : maxPoints - 1 < filtered.length - 1 := by omega
  have hproduct : (filtered.length - 1) * (maxPoints - 1) ≤ 2 ^ 46 :=
    (Nat.mul_le_mul (Nat.sub_le _ 1) (Nat.sub_le _ 1)).trans hsmall
  refine ⟨?_, ?_, ?_⟩
  · rw [List.pairwise_map]
    refine List.pairwise_lt_range.imp_of_mem fun hi hj hij => ?_
    exact doubleIndex_lt hm hmn hproduct hij (Nat.le_sub_one_of_lt (List.mem_range.mp hj))
  · intro p hp
    obtain ⟨i, hi, rfl⟩ := List.mem_map.mp hp
    have hle := doubleIndex_le hm hmn hproduct (Nat.le_sub_one_of_lt (List.mem_range.mp hi))
    omega
  · rw [selectPoints, List.filterMap_map]
    refine List.filterMap_congr fun i hi => ?_
    have hle := doubleIndex_le hm hmn hproduct (Nat.le_sub_one_of_lt (List.mem_range.mp hi))
    change filtered[min (doubleIndex (filtered.length - 1) (maxPoints - 1) i) _]? = _
    rw [Nat.min_eq_left hle]
    rfl

/-- For every file and bounds: with fewer than `2 ^ 46` pairs of a point in range and a point
asked for, the errors of the double change no more than the rounding of single positions. -/
theorem read_points_selected (file : Option Bytes) {fromTimestamp toTimestamp : Bytes}
    (hfrom : fromTimestamp ≠ []) (hto : toTimestamp ≠ []) {maxPoints : Nat} (htwo : 2 ≤ maxPoints)
    (hsmall : (pointsInRange file fromTimestamp toTimestamp).length * maxPoints ≤ 2 ^ 46) :
    ∃ positions,
      TakenAt (pointsInRange file fromTimestamp toTimestamp) positions
          (readDataFilePointsInRange file fromTimestamp toTimestamp maxPoints) ∧
        Spread (pointsInRange file fromTimestamp toTimestamp).length maxPoints positions := by
  rw [readDataFilePointsInRange_eq, readPointsInRange_eq selectPoints file hfrom hto htwo]
  generalize pointsInRange file fromTimestamp toTimestamp = points at *
  split
  case isTrue hfew => exact ⟨_, .all points, spread_all hfew⟩
  case isFalse hfew =>
    have hmany := Nat.lt_of_not_le hfew
    exact ⟨_, selectPoints_takenAt hmany htwo hsmall, spread_doubleIndex hmany htwo hsmall⟩

/-! ## Requests -/

/-- The request of the dashboard. -/
def chartRequest (chartNo pointsCount : Nat) (fromTimestamp toTimestamp : Bytes) : Bytes :=
  ascii "REQ" ++ (ascii " " ++ (decimal chartNo ++ (ascii " " ++ (decimal pointsCount ++ (ascii " " ++
    (fromTimestamp ++ (ascii " " ++ (toTimestamp ++ ascii "|"))))))))

theorem nextWord_gap {word rest : Bytes} (hword : isWord word)
    (hrest : Stops (fun b => !isSpace b) rest) :
    nextWord (ascii " " ++ (word ++ rest)) = some (word, rest) := by
  change nextWord (' ' :: (word ++ rest)) = _
  rw [nextWord_space _ (by decide), nextWord_append hword hrest]

theorem extractUnsigned_gap {bits n : Nat} {rest : Bytes} (hn : n < 2 ^ bits)
    (hrest : Stops isDigit rest) :
    extractUnsigned bits (ascii " " ++ (decimal n ++ rest)) = some (n, rest) := by
  refine extractUnsigned_eq_some_iff.mpr
    ⟨ascii " ", [], decimal n, ?_, Or.inl rfl, digits_decimal n, decimal_ne_nil n, hrest, ?_, ?_, rfl⟩
  · unfold Blank
    decide
  · rwa [numeralValue_decimal]
  · rw [numeralValue_decimal]
    rfl

theorem isWord_barred {s : Bytes} (h : isWord s) : isWord (s ++ ascii "|") := by
  refine ⟨List.append_ne_nil_of_left_ne_nil h.1 _, fun b hb => ?_⟩
  rcases List.mem_append.mp hb with hb | hb
  · exact h.2 b hb
  · rw [List.mem_singleton.mp hb]
    decide

theorem upperBound_barred {s : Bytes} (h : s ≠ []) : upperBound (s ++ ascii "|") = s := by
  have hlast : (s ++ ascii "|").getLast? = some ('|' : Byte) := List.getLast?_concat
  have hfront : (s ++ ascii "|").dropLast = s := List.dropLast_concat
  simp only [upperBound, hlast, hfront, ↓reduceIte, h]

theorem chartFile_lt {chartNo : Nat} {filename : Bytes} (h : chartFile chartNo = some filename) :
    chartNo < 2 ^ 32 := by
  unfold chartFile at h
  split at h
  case h_10 => cases h
  all_goals decide

/-- The request is answered with the selected points of the chart's file. -/
theorem handleHttpReqCommand_chart (env : Environment) (authorized : Bool) (engine : Rules.Engine)
    {chartNo pointsCount : Nat} {filename fromTimestamp toTimestamp : Bytes}
    (hfile : chartFile chartNo = some filename) (hnumber : chartNo < 2 ^ 32)
    (hpositive : 0 < pointsCount) (hcount : pointsCount < 2 ^ 64) (hfrom : isWord fromTimestamp)
    (hto : isWord toTimestamp) :
    handleHttpReqCommand env authorized
        (chartRequest chartNo pointsCount fromTimestamp toTimestamp) engine =
      .ok { success := true
            responseBody := (readDataFilePointsInRange (env.dataFile filename) fromTimestamp
              toTimestamp pointsCount).flatMap pointText
            engine := engine } := by
  have hspace : ∀ rest, Stops (fun b => !isSpace b) (ascii " " ++ rest) := fun rest =>
    (stops_cons _ _ _).mpr (by decide)
  have hdigit : ∀ rest, Stops isDigit (ascii " " ++ rest) := fun rest =>
    (stops_cons _ _ _).mpr (by decide)
  have hbar := isWord_barred hto
  have hlastword := nextWord_gap hbar (stops_nil _)
  rw [List.append_nil] at hlastword
  have hdata : chartData env (ascii " " ++ (decimal chartNo ++ (ascii " " ++ (decimal pointsCount ++
      (ascii " " ++ (fromTimestamp ++ (ascii " " ++ (toTimestamp ++ ascii "|")))))))) =
      some ((readDataFilePointsInRange (env.dataFile filename) fromTimestamp toTimestamp
        pointsCount).flatMap pointText) := by
    simp only [chartData, extractUnsigned_gap hnumber (hdigit _),
      extractUnsigned_gap hcount (hdigit _), nextWord_gap hfrom (hspace _), hlastword, hfile,
      upperBound_barred hto.1, Option.bind_eq_bind, Option.bind_some, if_neg hpositive.ne']
    rfl
  have hline : (chartRequest chartNo pointsCount fromTimestamp toTimestamp).getLast? ≠
      some newline := by
    have hlast : (chartRequest chartNo pointsCount fromTimestamp toTimestamp).getLast? =
        some ('|' : Byte) := by
      simp [chartRequest, ascii, List.getLast?_append, List.getLast?_cons]
    rw [hlast]
    decide
  have htoken : nextWord (chartRequest chartNo pointsCount fromTimestamp toTimestamp) =
      some (ascii "REQ", _) := nextWord_append (by decide) (hspace _)
  unfold handleHttpReqCommand
  rw [if_neg hline]
  dsimp only
  rw [htoken]
  simp only [answerChart, hdata]
  rfl

/-- For every data file, and as long as fewer than `2 ^ 46` pairs of a point in range and a point
asked for exist: the reply has the first and the last point, no point twice, and points less
than one position off an even spread, though the positions are multiples of a double. -/
theorem chart_reply_selected (env : Environment) (authorized : Bool) (engine : Rules.Engine)
    {chartNo pointsCount : Nat} {filename fromTimestamp toTimestamp : Bytes}
    (hfile : chartFile chartNo = some filename) (hfrom : isWord fromTimestamp)
    (hto : isWord toTimestamp) (htwo : 2 ≤ pointsCount) (hcount : pointsCount < 2 ^ 64)
    (hsmall : (pointsInRange (env.dataFile filename) fromTimestamp toTimestamp).length *
      pointsCount ≤ 2 ^ 46) :
    ∃ positions chosen,
      Spread (pointsInRange (env.dataFile filename) fromTimestamp toTimestamp).length pointsCount
          positions ∧
        TakenAt (pointsInRange (env.dataFile filename) fromTimestamp toTimestamp) positions
          chosen ∧
        handleHttpReqCommand env authorized
            (chartRequest chartNo pointsCount fromTimestamp toTimestamp) engine =
          .ok { success := true, responseBody := chosen.flatMap pointText, engine := engine } := by
  obtain ⟨positions, htaken, hspread⟩ := read_points_selected (env.dataFile filename) hfrom.1 hto.1
    htwo hsmall
  exact ⟨positions, _, hspread, htaken, handleHttpReqCommand_chart env authorized engine hfile
    (chartFile_lt hfile) (by omega) hcount hfrom hto⟩

/-- A server with three lines in each data file. -/
def threeLines : Environment where
  dataFile _ := some
    (ascii "2024-01-01T00:00:00Z 1\n2024-01-01T00:00:05Z 2\n2024-01-01T00:00:10Z 3\n")

theorem three_lines_in_range :
    (pointsInRange (threeLines.dataFile (ascii "power.dat")) (ascii "2024")
      (ascii "2025")).length = 3 := by
  decide +kernel

/-- Two points of three. -/
theorem two_points_replied :
    ∃ chosen : List (Bytes × Float), chosen.length = 2 ∧
      handleHttpReqCommand threeLines false (ascii "REQ 1 2 2024 2025|") {} =
        .ok { success := true, responseBody := chosen.flatMap pointText, engine := {} } := by
  obtain ⟨positions, chosen, hspread, htaken, hreply⟩ := chart_reply_selected threeLines false {}
    (show chartFile 1 = some (ascii "power.dat") from rfl) (show isWord (ascii "2024") by decide)
    (show isWord (ascii "2025") by decide) (show 2 ≤ 2 by decide) (by decide)
    (by rw [three_lines_in_range]; decide)
  refine ⟨chosen, ?_, hreply⟩
  rw [htaken.length_eq, hspread.length_eq, three_lines_in_range]
  rfl

end InverterMonitor.Http
