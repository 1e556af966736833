import InverterMonitor.Firmware.Scheduler

/-!
# The spacing of register reads

* `Paced`: between reads, the pass in progress is due at the last read plus the
  spacing; `Paced.scan` keeps it;
* `reads_spaced_iff`: the reads of a run are spaced exactly when its iterations
  are undisturbed.  A pass that begins reads its first register at once, whatever
  was read before it.
-/

namespace InverterMonitor.Firmware
open Scheduler

/-- `registerReadSpacingMs` as a real time. -/
def Scheduler.spacing (s : Scheduler) : Nat := s.timing.registerReadSpacingMs.toNat

/-- Consecutive reads are at least `spacing` apart. -/
def Spaced (spacing : Nat) (reads : List Read) : Prop :=
  reads.IsChain fun r r' => r.time + spacing ≤ r'.time

instance (spacing : Nat) (reads : List Read) : Decidable (Spaced spacing reads) := by
  unfold Spaced
  infer_instance

/-- The iteration at `now` reads the first register of a pass it begins. -/
def StartsPass (now : UInt32) (s : Scheduler) : Prop :=
  MonitorStarts now s ∨ (monitorRegisterCount ≤ s.monitorScanIndex ∧ ControlStarts now s)

def InProgress (s : Scheduler) : Prop :=
  s.monitorScanIndex < monitorRegisterCount ∨ s.controlScanIndex < controlRegisterCount

/-- When the spacing after the last read is not over at `time`, no pass begins,
and the end of the spacing is at most half a turn of the clock away. -/
def Undisturbed (last : Option Read) (s : Scheduler) (time : Nat) : Prop :=
  ∀ read ∈ last, time < read.time + s.spacing →
    ¬ StartsPass (UInt32.ofNat time) s ∧
      (InProgress s → read.time + s.spacing ≤ time + 2 ^ 31)

/-- Every iteration of a run is undisturbed. -/
def UndisturbedRun : Option Read → Scheduler → List Iteration → Prop
  | _, _, [] => True
  | last, s, i :: iterations =>
    Undisturbed last s i.time ∧ UndisturbedRun ((i.read s).or last) (i.scheduler s) iterations

/-! ## What is due after a read -/

/-- The pass in progress is due at the last read plus the spacing. -/
def Paced (last : Option Read) (s : Scheduler) : Prop :=
  ∀ read ∈ last,
    (s.monitorScanIndex < monitorRegisterCount →
      s.nextMonitorScanTime = UInt32.ofNat (read.time + s.spacing)) ∧
    (monitorRegisterCount ≤ s.monitorScanIndex → s.controlScanIndex < controlRegisterCount →
      s.nextControlScanTime = UInt32.ofNat (read.time + s.spacing))

theorem monitorRead_paced (reading : Reading) (time : Nat) (s : Scheduler) :
    Paced (some ⟨reading, time⟩) (s.monitorRead (UInt32.ofNat time)) := by
  intro read hread
  obtain rfl := Option.some.inj hread
  simp only [monitorRead_monitorScanIndex, monitorRead_controlScanIndex, spacing,
    monitorRead_timing, monitorRead_nextMonitorScanTime, monitorRead_nextControlScanTime]
  constructor
  · intro hindex
    rw [if_pos hindex, ofNat_add_interval]
  · intro hindex hpass
    rw [if_neg (by omega), ofNat_add_interval]

theorem controlRead_paced (reading : Reading) (time : Nat) {s : Scheduler}
    (hindex : monitorRegisterCount ≤ s.monitorScanIndex) :
    Paced (some ⟨reading, time⟩) (s.controlRead (UInt32.ofNat time)) := by
  intro read hread
  obtain rfl := Option.some.inj hread
  simp only [controlRead_monitorScanIndex, controlRead_controlScanIndex, spacing,
    controlRead_timing, controlRead_nextMonitorScanTime, controlRead_nextControlScanTime]
  constructor
  · intro h
    omega
  · intro _ hpass
    rw [if_pos hpass, ofNat_add_interval]

@[simp] theorem scan_timing (now : UInt32) (s : Scheduler) : (s.scan now).1.timing = s.timing := by
  have h := scan_scans now s
  cases hscan : s.scan now with
  | mk t reading =>
    rw [hscan] at h
    cases h <;> simp [beginMonitor, beginControl]

theorem Paced.scan {last : Option Read} {s : Scheduler} (h : Paced last s) (time : Nat) :
    Paced (((s.scan (UInt32.ofNat time)).2.map (⟨·, time⟩)).or last)
      (s.scan (UInt32.ofNat time)).1 := by
  have hscan := scan_scans (UInt32.ofNat time) s
  generalize s.scan (UInt32.ofNat time) = result at hscan ⊢
  cases hscan with
  | monitorStart => exact monitorRead_paced _ _ _
  | monitor => exact monitorRead_paced _ _ _
  | monitorWait hindex =>
    intro read hread
    obtain ⟨hmonitor, _⟩ := h read hread
    simp only [startControlPass_monitorScanIndex, startControlPass_nextMonitorScanTime, spacing,
      startControlPass_timing]
    exact ⟨hmonitor, fun hidle => absurd hindex (Nat.not_lt.mpr hidle)⟩
  | controlStart hindex => exact controlRead_paced _ _ hindex
  | control hindex => exact controlRead_paced _ _ hindex
  | wait => exact h

/-! ## When reads are spaced -/

theorem spacing_lt (s : Scheduler) : s.spacing < 2 ^ 32 := s.timing.registerReadSpacingMs.toNat_lt

section

variable {now due : Nat} {starts progress : Prop} {reading : Option Reading}

/-- The first register of a pass is read whatever was read before. -/
theorem start_spaced_iff (hstarts : starts) (hreading : reading ≠ none) :
    (now < due → ¬starts ∧ (progress → due ≤ now + 2 ^ 31)) ↔ (reading ≠ none → due ≤ now) := by
  constructor
  · intro h _
    by_contra hnow
    exact (h (Nat.lt_of_not_le hnow)).1 hstarts
  · intro h hnow
    exact absurd hnow (Nat.not_lt.mpr (h hreading))

/-- A register of the pass in progress is read early only when its due time is more
than half a turn of the clock away. -/
theorem progress_spaced_iff (hprogress : progress) (hreading : reading ≠ none)
    (hearly : now < due → now + 2 ^ 31 < due) :
    (now < due → ¬starts ∧ (progress → due ≤ now + 2 ^ 31)) ↔ (reading ≠ none → due ≤ now) := by
  constructor
  · intro h _
    by_contra hnow
    have hnow := Nat.lt_of_not_le hnow
    have hhalf := (h hnow).2 hprogress
    have := hearly hnow
    omega
  · intro h hnow
    exact absurd hnow (Nat.not_lt.mpr (h hreading))

theorem wait_spaced_iff (hstarts : ¬starts)
    (hwaits : progress → now < due → ¬now + 2 ^ 31 < due) :
    (now < due → ¬starts ∧ (progress → due ≤ now + 2 ^ 31)) ↔
      ((none : Option Reading) ≠ none → due ≤ now) := by
  constructor
  · exact fun _ hnone => absurd rfl hnone
  · intro _ hnow
    exact ⟨hstarts, fun hprogress => Nat.le_of_not_lt (hwaits hprogress hnow)⟩

end

/-- One iteration keeps the spacing exactly when it is undisturbed. -/
theorem Paced.undisturbed_iff {last : Option Read} {s : Scheduler} (h : Paced last s) {time : Nat}
    (htime : ∀ read ∈ last, read.time ≤ time) :
    Undisturbed last s time ↔ ∀ read ∈ last, (s.scan (UInt32.ofNat time)).2 ≠ none →
      read.time + s.spacing ≤ time := by
  have hscan := scan_scans (UInt32.ofNat time) s
  have hspacing := spacing_lt s
  generalize s.scan (UInt32.ofNat time) = result at hscan ⊢
  refine forall₂_congr fun read hread => ?_
  have hle := htime read hread
  obtain ⟨hmonitor, hcontrol⟩ := h read hread
  have hearly (hnow : time < read.time + s.spacing) :=
    timeHasElapsed_early hnow (Nat.lt_of_le_of_lt (Nat.add_le_add_right hle _)
      (Nat.add_lt_add_left hspacing _))
  cases hscan with
  | monitorStart hstart => exact start_spaced_iff (Or.inl hstart) (Option.some_ne_none _)
  | monitor hindex hdue =>
    rw [hmonitor hindex] at hdue
    exact progress_spaced_iff (Or.inl hindex) (Option.some_ne_none _) fun hnow =>
      (hearly hnow).mp hdue
  | monitorWait hindex hdue =>
    rw [hmonitor hindex] at hdue
    refine wait_spaced_iff ?_ fun _ hnow => mt (hearly hnow).mpr hdue
    rintro (hstart | hstart)
    · exact absurd hindex (Nat.not_lt.mpr hstart.1)
    · exact absurd hindex (Nat.not_lt.mpr hstart.1)
  | controlStart hindex _ hstart =>
    exact start_spaced_iff (Or.inr ⟨hindex, hstart⟩) (Option.some_ne_none _)
  | control hindex _ hpass hdue =>
    rw [hcontrol hindex hpass] at hdue
    exact progress_spaced_iff (Or.inr hpass) (Option.some_ne_none _) fun hnow =>
      (hearly hnow).mp hdue
  | wait hindex hmonitorStart hcontrolStart hdue =>
    refine wait_spaced_iff ?_ ?_
    · rintro (hstart | hstart)
      · exact hmonitorStart hstart
      · exact hcontrolStart hstart.2
    · rintro (hpass | hpass) hnow
      · omega
      · have hdue := hdue hpass
        rw [hcontrol hindex hpass] at hdue
        exact mt (hearly hnow).mpr hdue

/-- The run lemma: reads after `last` are spaced exactly in undisturbed runs. -/
theorem Paced.spaced_iff {iterations : List Iteration} (hquiet : Quiet iterations)
    (horder : InOrder iterations) {last : Option Read} {s : Scheduler} (h : Paced last s)
    (hlast : ∀ read ∈ last, ∀ i ∈ iterations, read.time ≤ i.time) :
    Spaced s.spacing (last.toList ++ readsOf iterations s) ↔ UndisturbedRun last s iterations := by
  induction iterations generalizing last s with
  | nil => cases last <;> simp [Spaced, readsOf, UndisturbedRun]
  | cons i iterations ih =>
    obtain ⟨hfirst, horder⟩ := List.pairwise_cons.mp horder
    have hlines : i.lines = [] := hquiet i (by simp)
    have hquiet : Quiet iterations := fun j hj => hquiet j (by simp [hj])
    have hnext := h.scan i.time
    have hspacing : (i.scheduler s).spacing = s.spacing := by
      rw [quiet_scheduler hlines, spacing, scan_timing, spacing]
    have hstep := h.undisturbed_iff fun read hread => hlast read hread i (by simp)
    rw [← quiet_read hlines, ← quiet_scheduler hlines] at hnext
    have htime : ∀ read ∈ i.read s, read.time = i.time := by
      intro read hread
      obtain ⟨reading, _, rfl⟩ := Option.map_eq_some_iff.mp hread
      rfl
    have hrun := ih hquiet horder hnext (by
      intro read hread j hj
      cases hnew : i.read s with
      | none =>
        rw [hnew, Option.none_or] at hread
        exact hlast read hread j (by simp [hj])
      | some new =>
        rw [hnew, Option.some_or, Option.mem_some_iff] at hread
        rw [← hread, htime new hnew]
        exact hfirst j hj)
    rw [UndisturbedRun, hstep, ← hrun, hspacing, readsOf]
    have hscan := quiet_read hlines s
    cases hnew : i.read s with
    | none =>
      rw [hnew] at hscan
      have hnone := Option.map_eq_none_iff.mp hscan.symm
      simp [hnone]
    | some new =>
      rw [hnew] at hscan
      obtain ⟨reading, hreading, _⟩ := Option.map_eq_some_iff.mp hscan.symm
      rw [hreading, ← htime new hnew]
      cases last with
      | none => simp
      | some read => simp [Spaced, List.isChain_cons_cons]

theorem reads_spaced_iff {iterations : List Iteration} (hquiet : Quiet iterations)
    (horder : InOrder iterations) (s : Scheduler) :
    Spaced s.timing.registerReadSpacingMs.toNat (readsOf iterations s) ↔
      UndisturbedRun none s iterations := by
  have hpaced : Paced none s := by simp [Paced]
  exact hpaced.spaced_iff hquiet horder (by simp)

/-- Boot, with the default intervals, and the loop at `time` when the monitor pass that is
due 5 s after the first one begins. -/
def firstSeconds (time : Nat) : List Iteration :=
  (List.range 22).map (fun i => { time := 300 * i }) ++ [{ time := time }]

theorem firstSeconds_quiet (time : Nat) : Quiet (firstSeconds time) := by
  intro i hi
  rcases List.mem_append.mp hi with hi | hi
  · obtain ⟨_, _, rfl⟩ := List.mem_map.mp hi
    rfl
  · rw [List.mem_singleton.mp hi]

/-- The pass begins 200 ms after a control register was read. -/
theorem default_reads_not_spaced :
    ¬ ∀ (iterations : List Iteration) (s : Scheduler), Quiet iterations → InOrder iterations →
      Spaced s.timing.registerReadSpacingMs.toNat (readsOf iterations s) := by
  intro h
  have hspaced := h (firstSeconds 6500) {} (firstSeconds_quiet 6500) (by decide)
  revert hspaced
  decide

/-- A monitor pass, a control pass and the beginning of the next monitor pass. -/
theorem reads_spaced_iff_start :
    (readsOf (firstSeconds 6600) {}).map Read.reading =
        (List.range 6).map Reading.monitor ++ (List.range 16).map Reading.control ++
          [.monitor 0] ∧
      UndisturbedRun none {} (firstSeconds 6600) :=
  ⟨by decide, (reads_spaced_iff (firstSeconds_quiet 6600) (by decide) {}).mp (by decide)⟩

end InverterMonitor.Firmware
