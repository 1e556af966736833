import InverterMonitor.Firmware.ScanSpacing

/-!
# Scanning after a reset

`resetScanTime` sets the due times to zero.  A pass in progress compares zero
like any other due time, so the first read after a reset waits when the clock is
in the upper half of its range.

* `Resumed`: what is due at which time, once a register was read after a reset;
  `Resumed.scan` keeps it;
* `Resumed.prompt`: the next reads come when the spacing or the interval is over;
* `scanning_resumes_iff`: scanning resumes exactly below half the range.
-/

namespace InverterMonitor.Firmware
open Text Scheduler Runs

/-! ## Times of the last reads -/

def Read.monitorTime (read : Read) : Option Nat :=
  match read.reading with
  | .monitor _ => some read.time
  | .control _ => none

def Read.controlTime (read : Read) : Option Nat :=
  match read.reading with
  | .monitor _ => none
  | .control _ => some read.time

/-- `time` is one at which `due` counts as reached: within half a turn of the clock after it. -/
def Reached (due time : Nat) : Prop := due ≤ time ∧ time < due + 2 ^ 31

/-- The next reads of a scheduler after some reads: the pass in progress goes on
after the spacing, and an idle pass begins after its interval. -/
structure Prompt (reads : List Read) (s : Scheduler) : Prop where
  read : ∃ read, last some reads = some read ∧ ∀ time, Reached (read.time + s.spacing) time →
    (s.monitorScanIndex < monitorRegisterCount →
      (s.scan (UInt32.ofNat time)).2 = some (.monitor s.monitorScanIndex)) ∧
    (monitorRegisterCount ≤ s.monitorScanIndex → s.controlScanIndex < controlRegisterCount →
      (s.scan (UInt32.ofNat time)).2 = some (.monitor 0) ∨
        (s.scan (UInt32.ofNat time)).2 = some (.control s.controlScanIndex))
  monitor : monitorRegisterCount ≤ s.monitorScanIndex →
    ∃ lastTime, last Read.monitorTime reads = some lastTime ∧
      ∀ time, Reached (lastTime + s.timing.monitorScanIntervalMs.toNat) time →
        (s.scan (UInt32.ofNat time)).2 = some (.monitor 0)
  control : controlRegisterCount ≤ s.controlScanIndex →
    ∃ lastTime, last Read.controlTime reads = some lastTime ∧
      ∀ time, Reached (lastTime + s.timing.controlScanIntervalMs.toNat) time →
        (s.scan (UInt32.ofNat time)).1.controlScanIndex < controlRegisterCount

/-! ## What is due -/

structure Resumed (reads : List Read) (s : Scheduler) : Prop where
  nonempty : last some reads ≠ none
  paced : Paced (last some reads) s
  monitor : monitorRegisterCount ≤ s.monitorScanIndex →
    ∃ lastTime, last Read.monitorTime reads = some lastTime ∧
      s.nextMonitorScanTime = UInt32.ofNat (lastTime + s.timing.monitorScanIntervalMs.toNat)
  control : controlRegisterCount ≤ s.controlScanIndex →
    ∃ lastTime, last Read.controlTime reads = some lastTime ∧
      s.nextControlScanTime = UInt32.ofNat (lastTime + s.timing.controlScanIntervalMs.toNat)

/-- The control pass during a monitor read: not idle, or as it was. -/
theorem monitorRead_control {now : UInt32} {s : Scheduler}
    (hidle : controlRegisterCount ≤ ((s.startControlPass now).monitorRead now).controlScanIndex) :
    controlRegisterCount ≤ s.controlScanIndex ∧
      ((s.startControlPass now).monitorRead now).nextControlScanTime = s.nextControlScanTime := by
  rw [monitorRead_controlScanIndex] at hidle
  by_cases hstart : ControlStarts now s
  · have hbegin : s.startControlPass now = beginControl now s := if_pos hstart
    rw [hbegin] at hidle
    exact absurd controlRegisterCount_pos (Nat.not_lt.mpr hidle)
  · have hkeep : s.startControlPass now = s := if_neg hstart
    rw [hkeep] at hidle ⊢
    exact ⟨hidle, (monitorRead_nextControlScanTime now s).trans (if_pos (Or.inr hidle))⟩

theorem monitorRead_resumed {reads : List Read} {s : Scheduler} {time : Nat} (index : Nat)
    (hcontrol : controlRegisterCount ≤ s.controlScanIndex →
      ∃ lastTime, last Read.controlTime reads = some lastTime ∧
        s.nextControlScanTime = UInt32.ofNat (lastTime + s.timing.controlScanIntervalMs.toNat)) :
    Resumed (reads ++ [⟨.monitor index, time⟩])
      ((s.startControlPass (UInt32.ofNat time)).monitorRead (UInt32.ofNat time)) where
  nonempty := by simp [last_concat]
  paced := by
    rw [last_concat]
    exact monitorRead_paced _ _ _
  monitor := by
    intro hidle
    refine ⟨time, by simp [last_concat, Read.monitorTime], ?_⟩
    rw [monitorRead_monitorScanIndex] at hidle
    rw [monitorRead_nextMonitorScanTime, if_neg (by omega), monitorRead_timing, ofNat_add_interval]
  control := by
    intro hidle
    obtain ⟨hbefore, hnext⟩ := monitorRead_control hidle
    obtain ⟨lastTime, hlast, hdue⟩ := hcontrol hbefore
    refine ⟨lastTime, by simpa [last_concat, Read.controlTime] using hlast, ?_⟩
    rw [hnext, hdue, monitorRead_timing, startControlPass_timing]

theorem controlRead_resumed {reads : List Read} {s : Scheduler} {time : Nat} (index : Nat)
    (hindex : monitorRegisterCount ≤ s.monitorScanIndex)
    (hmonitor : monitorRegisterCount ≤ s.monitorScanIndex →
      ∃ lastTime, last Read.monitorTime reads = some lastTime ∧
        s.nextMonitorScanTime = UInt32.ofNat (lastTime + s.timing.monitorScanIntervalMs.toNat)) :
    Resumed (reads ++ [⟨.control index, time⟩]) (s.controlRead (UInt32.ofNat time)) where
  nonempty := by simp [last_concat]
  paced := by
    rw [last_concat]
    exact controlRead_paced _ _ hindex
  monitor := by
    intro _
    obtain ⟨lastTime, hlast, hdue⟩ := hmonitor hindex
    refine ⟨lastTime, by simpa [last_concat, Read.monitorTime] using hlast, ?_⟩
    rw [controlRead_nextMonitorScanTime, hdue, controlRead_timing]
  control := by
    intro hidle
    refine ⟨time, by simp [last_concat, Read.controlTime], ?_⟩
    rw [controlRead_controlScanIndex] at hidle
    rw [controlRead_nextControlScanTime, if_neg (by omega), controlRead_timing, ofNat_add_interval]

/-- The step lemma. -/
theorem Resumed.scan {reads : List Read} {s : Scheduler} (h : Resumed reads s) (time : Nat) :
    Resumed (reads ++ ((s.scan (UInt32.ofNat time)).2.map (⟨·, time⟩)).toList)
      (s.scan (UInt32.ofNat time)).1 := by
  have hscan := scan_scans (UInt32.ofNat time) s
  generalize s.scan (UInt32.ofNat time) = result at hscan ⊢
  cases hscan with
  | monitorStart => exact monitorRead_resumed 0 h.control
  | monitor => exact monitorRead_resumed _ h.control
  | monitorWait hindex =>
    simp only [Option.map_none, Option.toList_none, List.append_nil]
    refine ⟨h.nonempty, ?_, ?_, ?_⟩
    · intro read hread
      obtain ⟨hnext, _⟩ := h.paced read hread
      simp only [startControlPass_monitorScanIndex, startControlPass_nextMonitorScanTime, spacing,
        startControlPass_timing]
      exact ⟨hnext, fun hidle => absurd hindex (Nat.not_lt.mpr hidle)⟩
    · rw [startControlPass_monitorScanIndex]
      intro hidle
      omega
    · by_cases hstart : ControlStarts (UInt32.ofNat time) s
      · have hbegin : s.startControlPass (UInt32.ofNat time) = beginControl (UInt32.ofNat time) s :=
          if_pos hstart
        rw [hbegin]
        exact fun hidle => absurd controlRegisterCount_pos (Nat.not_lt.mpr hidle)
      · have hkeep : s.startControlPass (UInt32.ofNat time) = s := if_neg hstart
        rw [hkeep]
        exact h.control
  | controlStart hindex => exact controlRead_resumed (s := beginControl _ s) 0 hindex h.monitor
  | control hindex => exact controlRead_resumed _ hindex h.monitor
  | wait =>
    simp only [Option.map_none, Option.toList_none, List.append_nil]
    exact h

/-- The run lemma. -/
theorem Resumed.run {iterations : List Iteration} (hquiet : Quiet iterations) {reads : List Read}
    {s : Scheduler} (h : Resumed reads s) :
    Resumed (reads ++ readsOf iterations s) (schedulerAfter iterations s) := by
  induction iterations generalizing reads s with
  | nil => simpa [readsOf, schedulerAfter] using h
  | cons i iterations ih =>
    have hlines : i.lines = [] := hquiet i (by simp)
    have hnext := h.scan i.time
    rw [← quiet_read hlines, ← quiet_scheduler hlines] at hnext
    have hrun := ih (fun j hj => hquiet j (by simp [hj])) hnext
    rwa [List.append_assoc] at hrun

/-- A control pass that begins is in progress after the iteration. -/
theorem scan_controlStarts {now : UInt32} {s : Scheduler} (hstart : ControlStarts now s) :
    (s.scan now).1.controlScanIndex < controlRegisterCount := by
  have hbegin : s.startControlPass now = beginControl now s := if_pos hstart
  have hscan := scan_scans now s
  generalize s.scan now = result at hscan ⊢
  cases hscan with
  | monitorStart =>
    have hbegin : (beginMonitor now s).startControlPass now = beginControl now (beginMonitor now s) :=
      if_pos hstart
    simpa [hbegin, beginControl] using controlRegisterCount_pos
  | monitor => simpa [hbegin, beginControl] using controlRegisterCount_pos
  | monitorWait => simpa [hbegin, beginControl] using controlRegisterCount_pos
  | controlStart =>
    rw [controlRead_controlScanIndex]
    show 0 + 1 < controlRegisterCount
    decide
  | control _ _ hpass => exact absurd hpass (Nat.not_lt.mpr hstart.1)
  | wait _ _ hcontrol => exact absurd hstart hcontrol

theorem passDue_of_reached {due time : Nat} (h : Reached due time) :
    PassDue (UInt32.ofNat time) (UInt32.ofNat due) := Or.inr (timeHasElapsed_of_le h.1 h.2)

theorem Resumed.prompt {reads : List Read} {s : Scheduler} (h : Resumed reads s) :
    Prompt reads s := by
  constructor
  · obtain ⟨read, hread⟩ := Option.ne_none_iff_exists'.mp h.nonempty
    refine ⟨read, hread, fun time htime => ?_⟩
    obtain ⟨hmonitor, hcontrol⟩ := h.paced read hread
    have helapsed := timeHasElapsed_of_le htime.1 htime.2
    constructor
    · intro hindex
      rw [scan_monitor hindex (hmonitor hindex ▸ helapsed)]
    · intro hidle hpass
      have hscan := scan_scans (UInt32.ofNat time) s
      generalize s.scan (UInt32.ofNat time) = result at hscan ⊢
      rw [← hcontrol hidle hpass] at helapsed
      cases hscan with
      | monitorStart => exact Or.inl rfl
      | monitor hindex => omega
      | monitorWait hindex => omega
      | controlStart _ _ hstart => exact absurd hpass (Nat.not_lt.mpr hstart.1)
      | control => exact Or.inr rfl
      | wait _ _ _ hdue => exact absurd helapsed (hdue hpass)
  · intro hidle
    obtain ⟨lastTime, hlast, hdue⟩ := h.monitor hidle
    refine ⟨lastTime, hlast, fun time htime => ?_⟩
    rw [scan_monitorStart ⟨hidle, hdue ▸ passDue_of_reached htime⟩]
  · intro hidle
    obtain ⟨lastTime, hlast, hdue⟩ := h.control hidle
    refine ⟨lastTime, hlast, fun time htime => ?_⟩
    exact scan_controlStarts ⟨hidle, hdue ▸ passDue_of_reached htime⟩

/-! ## The reset -/

theorem timeHasElapsed_zero (time : Nat) :
    timeHasElapsed (UInt32.ofNat time) 0 = true ↔ time % 2 ^ 32 < 2 ^ 31 := by
  rw [timeHasElapsed_iff, elapsed_iff]
  show 2 * (BitVec.ofNat 32 time - 0#32).toNat < 2 ^ 32 ↔ _
  rw [BitVec.sub_zero, BitVec.toNat_ofNat]
  omega

/-- The first scan after a reset. -/
theorem resetScanTime_scan (time : Nat) (s : Scheduler) :
    (time % 2 ^ 32 < 2 ^ 31 ∧
      s.resetScanTime.scan (UInt32.ofNat time) =
        ((s.resetScanTime.startControlPass (UInt32.ofNat time)).monitorRead (UInt32.ofNat time),
          some (.monitor 0))) ∨
      (¬ time % 2 ^ 32 < 2 ^ 31 ∧ (s.resetScanTime.scan (UInt32.ofNat time)).2 = none) := by
  have hindex : s.resetScanTime.monitorScanIndex < monitorRegisterCount := monitorRegisterCount_pos
  by_cases htime : time % 2 ^ 32 < 2 ^ 31
  · exact Or.inl ⟨htime, scan_monitor hindex ((timeHasElapsed_zero time).mpr htime)⟩
  · have hdue : ¬ timeHasElapsed (UInt32.ofNat time) s.resetScanTime.nextMonitorScanTime = true :=
      mt (timeHasElapsed_zero time).mp htime
    have hscan := scan_scans (UInt32.ofNat time) s.resetScanTime
    generalize s.resetScanTime.scan (UInt32.ofNat time) = result at hscan ⊢
    refine Or.inr ⟨htime, ?_⟩
    cases hscan with
    | monitorStart hstart => exact absurd hindex (Nat.not_lt.mpr hstart.1)
    | monitor _ h => exact absurd h hdue
    | monitorWait => rfl
    | controlStart hidle => omega
    | control hidle => omega
    | wait hidle => omega

/-- The line is a `WIFI` command that is saved, so that the scan is reset. -/
def IsReset (line : Bytes × Outcome) : Prop :=
  (∃ newSsid newPass, parseCommandLine line.1 = .ok (.wifi newSsid newPass)) ∧
    line.2.committed = true

theorem loop_reset {line : Bytes × Outcome} (hreset : IsReset line) (now : UInt32) (s : Scheduler) :
    loop now [line] s = s.resetScanTime.scan now := by
  obtain ⟨⟨newSsid, newPass, hparse⟩, hcommitted⟩ := hreset
  have hline : scheduleLine line.1 line.2 s = s.resetScanTime := by
    rw [scheduleLine, hparse]
    exact if_pos hcommitted
  rw [loop, List.foldl_cons, List.foldl_nil, hline]

theorem scanning_resumes_iff {line : Bytes × Outcome} (hreset : IsReset line) (time : Nat)
    (s : Scheduler) :
    (Iteration.read ⟨time, [line]⟩ s = some ⟨.monitor 0, time⟩ ∧
      ∀ iterations, Quiet iterations →
        Prompt (readsOf (⟨time, [line]⟩ :: iterations) s)
          (schedulerAfter (⟨time, [line]⟩ :: iterations) s)) ↔
      time % 2 ^ 32 < 2 ^ 31 := by
  have hread : Iteration.read ⟨time, [line]⟩ s =
      (s.resetScanTime.scan (UInt32.ofNat time)).2.map (⟨·, time⟩) := by
    rw [Iteration.read, loop_reset hreset]
  have hscheduler : Iteration.scheduler ⟨time, [line]⟩ s =
      (s.resetScanTime.scan (UInt32.ofNat time)).1 := by
    rw [Iteration.scheduler, loop_reset hreset]
  rcases resetScanTime_scan time s with ⟨htime, hscan⟩ | ⟨htime, hnone⟩
  · refine iff_of_true ⟨by rw [hread, hscan]; rfl, fun iterations hquiet => ?_⟩ htime
    have hfirst : Resumed ([] ++ [⟨.monitor 0, time⟩])
        ((s.resetScanTime.startControlPass (UInt32.ofNat time)).monitorRead (UInt32.ofNat time)) :=
      monitorRead_resumed 0 fun hidle => absurd controlRegisterCount_pos (Nat.not_lt.mpr hidle)
    have hrun := hfirst.run hquiet
    rw [readsOf, schedulerAfter, hread, hscheduler, hscan]
    exact hrun.prompt
  · refine iff_of_false (fun h => ?_) htime
    rw [hread, hnone] at h
    cases h.1

/-- A reset when the clock reads `2 ^ 31`: nothing is read. -/
theorem scanning_not_resumed :
    ¬ ∀ (line : Bytes × Outcome) (time : Nat) (s : Scheduler), IsReset line →
      Iteration.read ⟨time, [line]⟩ s = some ⟨.monitor 0, time⟩ := by
  intro h
  have hread := h (ascii "WIFI net pass", ⟨true, true, 0⟩) (2 ^ 31) {}
    ⟨⟨ascii "net", ascii "pass", rfl⟩, rfl⟩
  revert hread
  decide

/-- The fourth monitor and the second control register are due later, and the line comes
before them: the passes begin again. -/
def scanning : Scheduler where
  nextControlScanTime := 5200
  nextMonitorScanTime := 5100
  controlScanIndex := 1
  monitorScanIndex := 3

theorem scanning_resumes_iff_default :
    (Iteration.read ⟨5000, [(ascii "WIFI net pass", ⟨true, true, 5001⟩)]⟩ scanning =
        some ⟨.monitor 0, 5000⟩ ∧
      ∀ iterations, Quiet iterations →
        Prompt (readsOf (⟨5000, [(ascii "WIFI net pass", ⟨true, true, 5001⟩)]⟩ :: iterations)
            scanning)
          (schedulerAfter
            (⟨5000, [(ascii "WIFI net pass", ⟨true, true, 5001⟩)]⟩ :: iterations) scanning)) ↔
      5000 % 2 ^ 32 < 2 ^ 31 :=
  scanning_resumes_iff ⟨⟨ascii "net", ascii "pass", rfl⟩, rfl⟩ 5000 scanning

end InverterMonitor.Firmware
