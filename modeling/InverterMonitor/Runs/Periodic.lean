import InverterMonitor.Runs.History
import Mathlib.Data.List.Induction
import Mathlib.Order.Nat

/-!
# Timers that are looked at now and then

A timer keeps the reading at which it last fired.  It fires at a reading when its period has
passed since then, or when it is forced to.

* `Kept`: such a timer over a history;
* `Kept.apart`: without force, it runs at times that are a period apart;
* `Kept.punctual`: when the readings are at most `gap` apart, it never waits longer than its
  period and a gap;
* `Kept.mul_length_le`, `Punctual.lt_mul_length`: so how often it runs in a given time.
-/

namespace Runs

/-! ## Firings -/

structure Reading where
  now : Nat
  forced : Bool := false

/-- Whether a timer that last fired at `last` fires at the reading. -/
def fires (period last : Nat) (reading : Reading) : Bool :=
  reading.forced || decide (period ≤ reading.now - last)

/-- The time of the last firing after a reading. -/
def fired (period : Nat) (reading : Reading) (last : Nat) : Nat :=
  if fires period last reading then reading.now else last

def lastFired (period : Nat) (readings : List Reading) (last : Nat) : Nat :=
  follow (fired period) readings last

/-- The times at which the timer fires. -/
def firings (period : Nat) : List Reading → Nat → List Nat
  | [], _ => []
  | reading :: readings, last =>
    (if fires period last reading then [reading.now] else []) ++
      firings period readings (fired period reading last)

theorem firings_append (period : Nat) (before after : List Reading) (last : Nat) :
    firings period (before ++ after) last =
      firings period before last ++ firings period after (lastFired period before last) := by
  induction before generalizing last with
  | nil => rfl
  | cons reading before ih =>
    rw [List.cons_append, firings, firings, ih, List.append_assoc]
    rfl

theorem firings_concat (period : Nat) (readings : List Reading) (reading : Reading) (last : Nat) :
    firings period (readings ++ [reading]) last =
      firings period readings last ++
        if fires period (lastFired period readings last) reading then [reading.now] else [] := by
  rw [firings_append, firings, firings, List.append_nil]

theorem lastFired_concat (period : Nat) (readings : List Reading) (reading : Reading)
    (last : Nat) :
    lastFired period (readings ++ [reading]) last =
      fired period reading (lastFired period readings last) := by
  rw [lastFired, follow_append]
  rfl

/-- A timer over a history: the times at which it ran are its firings. -/
structure Kept (period start : Nat) (readings : List Reading) (ran : List Nat) (last : Nat) :
    Prop where
  last_eq : last = lastFired period readings start
  ran_eq : ran = firings period readings start

namespace Kept

variable {period start last : Nat} {readings : List Reading} {ran : List Nat}

theorem nil (period start : Nat) : Kept period start [] [] start := ⟨rfl, rfl⟩

theorem concat (h : Kept period start readings ran last) (reading : Reading) :
    Kept period start (readings ++ [reading])
      (ran ++ if fires period last reading then [reading.now] else []) (fired period reading last) where
  last_eq := by rw [lastFired_concat, h.last_eq]
  ran_eq := by rw [firings_concat, h.ran_eq, h.last_eq]

end Kept

/-! ## Times in order -/

/-- The last of some times. -/
def lastTime (start : Nat) (times : List Nat) : Nat := times.getLast?.getD start

@[simp] theorem lastTime_nil (start : Nat) : lastTime start [] = start := rfl

@[simp] theorem lastTime_concat (start : Nat) (times : List Nat) (time : Nat) :
    lastTime start (times ++ [time]) = time := by
  simp [lastTime]

/-- No time is before the one before it. -/
def Ordered (start : Nat) (times : List Nat) : Prop :=
  Lawful (fun before time => lastTime start before ≤ time) times

/-- No time is more than `gap` after the one before it. -/
def Frequent (gap start : Nat) (times : List Nat) : Prop :=
  Lawful (fun before time => time ≤ lastTime start before + gap) times

section

variable {period gap start last end' : Nat} {readings : List Reading} {ran : List Nat}

/-- The last firing is not after the last reading. -/
theorem lastFired_le (hlast : last ≤ start) (h : Ordered start (readings.map Reading.now)) :
    lastFired period readings last ≤ lastTime start (readings.map Reading.now) := by
  induction readings using List.reverseRecOn with
  | nil => exact hlast
  | append_singleton readings reading ih =>
    rw [List.map_append, List.map_singleton] at h ⊢
    have horder := Lawful.at_end h
    have hbefore := ih h.of_append
    rw [lastFired_concat, lastTime_concat, fired]
    split
    · exact Nat.le_refl _
    · exact hbefore.trans horder

/-- After a reading the period has not passed. -/
theorem lastTime_lt (readings : List Reading) (hperiod : 0 < period)
    (hstart : start < last + period) :
    lastTime start (readings.map Reading.now) < lastFired period readings last + period := by
  induction readings using List.reverseRecOn with
  | nil => exact hstart
  | append_singleton readings reading ih =>
    rw [List.map_append, List.map_singleton, lastFired_concat, lastTime_concat, fired]
    split
    · omega
    · next hquiet =>
      simp only [fires, Bool.or_eq_true, decide_eq_true_eq, not_or, Nat.not_le] at hquiet
      omega

/-! ## How often a timer fires -/

/-- Nothing forces the timer. -/
def Unforced (readings : List Reading) : Prop := ∀ reading ∈ readings, reading.forced = false

theorem period_le_of_fires {reading : Reading} (hforced : reading.forced = false)
    (hperiod : 0 < period) (h : fires period last reading = true) :
    last + period ≤ reading.now := by
  rw [fires, hforced, Bool.false_or, decide_eq_true_eq] at h
  omega

/-- The firings are a period apart, the first one from `last`. -/
theorem firings_apart (hperiod : 0 < period) (hunforced : Unforced readings) :
    (firings period readings last).Pairwise (fun early late => early + period ≤ late) ∧
      (∀ time ∈ firings period readings last, time ≤ lastFired period readings last) ∧
      last + period * (firings period readings last).length ≤ lastFired period readings last := by
  induction readings using List.reverseRecOn with
  | nil => exact ⟨.nil, by simp [firings], le_refl last⟩
  | append_singleton readings reading ih =>
    obtain ⟨hpairs, hlast, hcount⟩ := ih fun r hr => hunforced r (List.mem_append_left _ hr)
    rw [firings_concat, lastFired_concat, fired]
    split
    · next hfires =>
      have happart := period_le_of_fires (hunforced reading (by simp)) hperiod hfires
      refine ⟨?_, ?_, ?_⟩
      · rw [List.pairwise_append]
        refine ⟨hpairs, List.pairwise_singleton _ _, fun early hearly late hlate => ?_⟩
        have hle := hlast early hearly
        rw [List.mem_singleton.mp hlate]
        omega
      · intro time htime
        rcases List.mem_append.mp htime with hbefore | hnow
        · have hle := hlast time hbefore
          omega
        · exact (List.mem_singleton.mp hnow).le
      · rw [List.length_append, List.length_singleton, Nat.mul_succ]
        omega
    · rw [List.append_nil]
      exact ⟨hpairs, hlast, hcount⟩

theorem lastTime_firings (period last : Nat) (readings : List Reading) :
    lastTime last (firings period readings last) = lastFired period readings last := by
  induction readings using List.reverseRecOn with
  | nil => rfl
  | append_singleton readings reading ih =>
    rw [firings_concat, lastFired_concat, fired]
    split
    · rw [lastTime_concat]
    · rw [List.append_nil]
      exact ih

/-- A firing comes at most a gap after its period has passed. -/
theorem firings_frequent (hperiod : 0 < period) (hstart : start < last + period)
    (hfrequent : Frequent gap start (readings.map Reading.now)) :
    Frequent (period + gap) last (firings period readings last) := by
  induction readings using List.reverseRecOn with
  | nil => exact .nil
  | append_singleton readings reading ih =>
    rw [List.map_append, List.map_singleton] at hfrequent
    have hgap := Lawful.at_end hfrequent
    have hquiet := lastTime_lt readings hperiod hstart
    have hbefore := ih hfrequent.of_append
    rw [firings_concat]
    split
    · refine hbefore.concat ?_
      rw [lastTime_firings]
      omega
    · rw [List.append_nil]
      exact hbefore

/-- Times that are at most `gap` apart come a gap further with each of them. -/
theorem Frequent.lastTime_le {times : List Nat} (h : Frequent gap start times) :
    lastTime start times ≤ start + gap * times.length := by
  induction times using List.reverseRecOn with
  | nil => exact Nat.le_add_right _ _
  | append_singleton times time ih =>
    have hlast := Lawful.at_end h
    have hbefore := ih h.of_append
    rw [lastTime_concat, List.length_append, List.length_singleton, Nat.mul_succ]
    omega

/-- What ran at these times never waited longer than `period + gap`, and at `now` it waits for
less than `period`. -/
structure Punctual (period gap start : Nat) (ran : List Nat) (now : Nat) : Prop where
  frequent : Frequent (period + gap) start ran
  waiting : now < lastTime start ran + period

namespace Kept

/-- How often an unforced timer ran at most. -/
theorem mul_length_le (h : Kept period last readings ran end') (hperiod : 0 < period)
    (hlast : last ≤ start) (hordered : Ordered start (readings.map Reading.now))
    (hunforced : Unforced readings) :
    last + period * ran.length ≤ lastTime start (readings.map Reading.now) := by
  rw [h.ran_eq]
  exact (firings_apart hperiod hunforced).2.2.trans (lastFired_le hlast hordered)

/-- An unforced timer ran at times that are a period apart. -/
theorem apart (h : Kept period last readings ran end') (hperiod : 0 < period)
    (hunforced : Unforced readings) : ran.Pairwise (fun early late => early + period ≤ late) := by
  rw [h.ran_eq]
  exact (firings_apart hperiod hunforced).1

/-- With readings at most `gap` apart, the timer is punctual, forced or not. -/
theorem punctual (h : Kept period last readings ran end') (hperiod : 0 < period)
    (hstart : start < last + period)
    (hfrequent : Frequent gap start (readings.map Reading.now)) :
    Punctual period gap last ran (lastTime start (readings.map Reading.now)) where
  frequent := by
    rw [h.ran_eq]
    exact firings_frequent hperiod hstart hfrequent
  waiting := by
    rw [h.ran_eq, lastTime_firings]
    exact lastTime_lt readings hperiod hstart

end Kept

/-- How often it ran at least. -/
theorem Punctual.lt_mul_length {now : Nat} (h : Punctual period gap start ran now) :
    now < start + (period + gap) * (ran.length + 1) := by
  have hlast := h.frequent.lastTime_le
  have hwaiting := h.waiting
  rw [Nat.mul_succ]
  omega

end

end Runs
