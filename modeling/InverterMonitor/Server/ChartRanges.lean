import InverterMonitor.Format.Timestamps
import InverterMonitor.Server.ChartSelection

/-!
# The bounds of a chart

`readDataFilePointsInRange` compares texts: a stored timestamp ends in `Z` behind
its seconds, a bound of the dashboard has milliseconds there.

* `stored_lt_bound`, `bound_lt_stored`: what the comparisons say about the instants;
* `point_in_range_iff`: when the filter keeps the points that lie in the range.
-/

namespace InverterMonitor.Http
open Text Cxx Timestamps

/-- A timestamp as `strftime` writes it for a data file. -/
def storedText (t : Timestamp) : Bytes := t.text ++ ascii "Z"

/-- A bound as `toISOString` writes it. -/
structure ChartBound where
  time : Timestamp
  millis : Nat
  millis_lt : millis < 1000

namespace ChartBound

def text (b : ChartBound) : Bytes := b.time.text ++ (ascii "." ++ (digits 3 b.millis ++ ascii "Z"))

/-- In milliseconds. -/
def instant (b : ChartBound) : Nat := b.time.instant * 1000 + b.millis

end ChartBound

theorem stored_lt_bound (t : Timestamp) (b : ChartBound) :
    storedText t < b.text ↔ t.instant < b.time.instant := by
  have hsuffix : ¬ascii "Z" < ascii "." ++ (digits 3 b.millis ++ ascii "Z") := by
    change ¬([90] : Bytes) < 46 :: (digits 3 b.millis ++ ascii "Z")
    simp [List.cons_lt_cons_iff]
  rw [storedText, ChartBound.text, Timestamp.text_append_lt_iff]
  simp [hsuffix]

/-- In the same second, the bound is the smaller text. -/
theorem bound_lt_stored (t : Timestamp) (b : ChartBound) :
    b.text < storedText t ↔ b.time.instant ≤ t.instant := by
  have hsuffix : ascii "." ++ (digits 3 b.millis ++ ascii "Z") < ascii "Z" := by
    change (46 :: (digits 3 b.millis ++ ascii "Z") : Bytes) < [90]
    simp [List.cons_lt_cons_iff]
  rw [storedText, ChartBound.text, Timestamp.text_append_lt_iff]
  simp only [hsuffix, and_true]
  omega

/-- A line of a data file with this timestamp and a value. -/
def StoredPoint (line : Bytes) (t : Timestamp) : Prop :=
  ∃ s value, nextWord (trimString line) = some (storedText t, s) ∧ extractDouble s = some value

theorem readPoint_isSome {line : Bytes} {t : Timestamp} (h : StoredPoint line t)
    (fromBound toBound : ChartBound) :
    (readPoint fromBound.text toBound.text line).isSome = true ↔
      fromBound.time.instant ≤ t.instant ∧ t.instant < toBound.time.instant := by
  obtain ⟨s, ⟨value, rest⟩, hword, hvalue⟩ := h
  have hread : readPoint fromBound.text toBound.text line =
      if storedText t < fromBound.text ∨ toBound.text < storedText t then none
      else some (storedText t, value) := by
    simp [readPoint, hword, hvalue]
  rw [hread]
  split
  case isTrue hout =>
    rw [stored_lt_bound, bound_lt_stored] at hout
    simp only [Option.isSome_none, Bool.false_eq_true, false_iff]
    omega
  case isFalse hin =>
    rw [stored_lt_bound, bound_lt_stored] at hin
    simp only [Option.isSome_some, true_iff]
    omega

/-- The filter errs on points in the second of a bound: it drops those that the range
includes at its end, and keeps those before the milliseconds of its beginning. -/
theorem point_in_range_iff {line : Bytes} {t : Timestamp} (h : StoredPoint line t)
    (fromBound toBound : ChartBound) :
    ((readPoint fromBound.text toBound.text line).isSome = true ↔
        fromBound.instant ≤ t.instant * 1000 ∧ t.instant * 1000 ≤ toBound.instant) ↔
      ¬(t.instant = toBound.time.instant ∧ fromBound.instant ≤ t.instant * 1000) ∧
        ¬(t.instant = fromBound.time.instant ∧ 0 < fromBound.millis ∧
          t.instant < toBound.time.instant) := by
  have hfrom := fromBound.millis_lt
  have hto := toBound.millis_lt
  rw [readPoint_isSome h]
  unfold ChartBound.instant
  omega

theorem ChartBound.instant_le {b : ChartBound} {t : Timestamp} (h : b.time.instant < t.instant) :
    b.instant ≤ t.instant * 1000 := by
  have hmillis := b.millis_lt
  unfold instant
  omega

theorem ChartBound.le_instant {b : ChartBound} {t : Timestamp} (h : t.instant ≤ b.time.instant) :
    t.instant * 1000 ≤ b.instant := by
  unfold instant
  omega

/-- A time on the first of January. -/
def newYear (hour minute second : Nat) (hh : hour < 24) (hm : minute < 60) (hs : second < 60) :
    Timestamp :=
  ⟨2024, 1, 1, hour, minute, second, by decide, by decide, by decide, by decide, hh, hm, hs⟩

theorem newYear_lt {h m s h' m' s' : Nat} (hh : h < 24) (hm : m < 60) (hs : s < 60)
    (hh' : h' < 24) (hm' : m' < 60) (hs' : s' < 60) (hlt : h < h') :
    (newYear h m s hh hm hs).instant < (newYear h' m' s' hh' hm' hs').instant :=
  (Timestamp.instant_lt_iff _ _).mpr
    (Or.inr ⟨(Timestamp.days_eq_iff _ _).mpr ⟨rfl, rfl, rfl⟩, Or.inl hlt⟩)

def dayStart : ChartBound := ⟨newYear 0 0 0 (by decide) (by decide) (by decide), 0, by decide⟩
def dayEnd : ChartBound := ⟨newYear 23 59 59 (by decide) (by decide) (by decide), 0, by decide⟩

/-- A point at noon lies in the day, and is kept. -/
theorem noon_in_range :
    (readPoint dayStart.text dayEnd.text (ascii "2024-01-01T12:00:00Z 5")).isSome = true := by
  have hstored : StoredPoint (ascii "2024-01-01T12:00:00Z 5")
      (newYear 12 0 0 (by decide) (by decide) (by decide)) :=
    ⟨ascii " 5", _, by decide +kernel, Option.some_get (by decide +kernel) |>.symm⟩
  have hmorning : dayStart.time.instant < (newYear 12 0 0 _ _ _).instant :=
    newYear_lt _ _ _ (by decide) (by decide) (by decide) (by decide)
  have hevening : (newYear 12 0 0 _ _ _).instant < dayEnd.time.instant :=
    newYear_lt (by decide) (by decide) (by decide) _ _ _ (by decide)
  refine ((point_in_range_iff hstored dayStart dayEnd).mpr ⟨?_, ?_⟩).mpr
    ⟨ChartBound.instant_le hmorning, ChartBound.le_instant hevening.le⟩
  · exact fun h => hevening.ne h.1
  · exact fun h => hmorning.ne' h.1

/-- A point in the last second of the day is dropped. -/
theorem last_second_dropped :
    StoredPoint (ascii "2024-01-01T23:59:59Z 5") dayEnd.time ∧
      dayEnd.text = ascii "2024-01-01T23:59:59.000Z" ∧
      dayStart.instant ≤ dayEnd.time.instant * 1000 ∧
      dayEnd.time.instant * 1000 ≤ dayEnd.instant ∧
      (readPoint dayStart.text dayEnd.text (ascii "2024-01-01T23:59:59Z 5")).isSome = false := by
  have hstored : StoredPoint (ascii "2024-01-01T23:59:59Z 5") dayEnd.time :=
    ⟨ascii " 5", _, by decide +kernel, Option.some_get (by decide +kernel) |>.symm⟩
  have hday : dayStart.time.instant < dayEnd.time.instant :=
    newYear_lt _ _ _ _ _ _ (by decide)
  have htext : dayEnd.text = ascii "2024-01-01T23:59:59.000Z" := by decide +kernel
  exact ⟨hstored, htext, ChartBound.instant_le hday, ChartBound.le_instant (le_refl _),
    by decide +kernel⟩

end InverterMonitor.Http
