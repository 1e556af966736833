import InverterMonitor.Firmware.Commands
import InverterMonitor.Runs.Clock
import InverterMonitor.Runs.History

/-!
# The scan scheduler of the inverter firmware

The part of `loop()` in `inverter.ino` that reads registers: two passes, over the
monitor and over the control registers, with their indices and due times, and
what command lines do to them.  `millis()` is a real time modulo `2 ^ 32`.
Proved here:

* `scan_scans`: what an iteration does, with a case for each read and for waiting;
* `timeHasElapsed_of_le`, `timeHasElapsed_early`: what the comparison of clock
  readings says about real times.
-/

namespace InverterMonitor.Firmware
open Text Cxx Runs

/-! ## State -/

def defaultControlScanIntervalMs : UInt32 := 60000
def defaultMonitorScanIntervalMs : UInt32 := 5000
def defaultRegisterReadSpacingMs : UInt32 := 300

structure TimingConfig where
  controlScanIntervalMs : UInt32 := defaultControlScanIntervalMs
  monitorScanIntervalMs : UInt32 := defaultMonitorScanIntervalMs
  registerReadSpacingMs : UInt32 := defaultRegisterReadSpacingMs
  deriving DecidableEq, Repr

structure Scheduler where
  timing : TimingConfig := {}
  nextControlScanTime : UInt32 := 0
  nextMonitorScanTime : UInt32 := 0
  controlScanIndex : Nat := 0
  monitorScanIndex : Nat := 0
  deriving DecidableEq, Repr

def controlRegisterCount : Nat := controlRegisters.length
def monitorRegisterCount : Nat := monitorRegisters.length

/-- A register read, by its index in the table of its kind. -/
inductive Reading
  | monitor (index : Nat)
  | control (index : Nat)
  deriving DecidableEq, Repr

def timeHasElapsed (now targetTime : UInt32) : Bool := 0 ≤ (now - targetTime).toInt32

namespace Scheduler

/-! ## The scan in `loop` -/

def resetScanTime (s : Scheduler) : Scheduler :=
  { s with
    nextControlScanTime := 0, nextMonitorScanTime := 0, controlScanIndex := 0,
    monitorScanIndex := 0 }

/-- `nextScanTime` is due, where zero stands for any time. -/
def PassDue (now nextScanTime : UInt32) : Prop :=
  nextScanTime = 0 ∨ timeHasElapsed now nextScanTime = true

instance (now nextScanTime : UInt32) : Decidable (PassDue now nextScanTime) := by
  unfold PassDue
  infer_instance

/-- The iteration at `now` begins a pass over the monitor registers. -/
def MonitorStarts (now : UInt32) (s : Scheduler) : Prop :=
  monitorRegisterCount ≤ s.monitorScanIndex ∧ PassDue now s.nextMonitorScanTime

/-- The iteration at `now` begins a pass over the control registers. -/
def ControlStarts (now : UInt32) (s : Scheduler) : Prop :=
  controlRegisterCount ≤ s.controlScanIndex ∧ PassDue now s.nextControlScanTime

instance (now : UInt32) (s : Scheduler) : Decidable (MonitorStarts now s) := by
  unfold MonitorStarts
  infer_instance

instance (now : UInt32) (s : Scheduler) : Decidable (ControlStarts now s) := by
  unfold ControlStarts
  infer_instance

def startMonitorPass (now : UInt32) (s : Scheduler) : Scheduler :=
  if MonitorStarts now s then { s with monitorScanIndex := 0, nextMonitorScanTime := now } else s

def startControlPass (now : UInt32) (s : Scheduler) : Scheduler :=
  if ControlStarts now s then { s with controlScanIndex := 0, nextControlScanTime := now } else s

/-- The state after a monitor register was read. -/
def monitorRead (now : UInt32) (s : Scheduler) : Scheduler :=
  let s := { s with monitorScanIndex := s.monitorScanIndex + 1 }
  if s.monitorScanIndex < monitorRegisterCount then
    { s with nextMonitorScanTime := now + s.timing.registerReadSpacingMs }
  else
    let s := { s with nextMonitorScanTime := now + s.timing.monitorScanIntervalMs }
    if s.controlScanIndex < controlRegisterCount then
      { s with nextControlScanTime := now + s.timing.registerReadSpacingMs }
    else s

/-- The state after a control register was read. -/
def controlRead (now : UInt32) (s : Scheduler) : Scheduler :=
  let s := { s with controlScanIndex := s.controlScanIndex + 1 }
  if s.controlScanIndex < controlRegisterCount then
    { s with nextControlScanTime := now + s.timing.registerReadSpacingMs }
  else { s with nextControlScanTime := now + s.timing.controlScanIntervalMs }

/-- Monitor registers go before control registers. -/
def readDue (now : UInt32) (s : Scheduler) : Scheduler × Option Reading :=
  if s.monitorScanIndex < monitorRegisterCount then
    if timeHasElapsed now s.nextMonitorScanTime then
      (s.monitorRead now, some (.monitor s.monitorScanIndex))
    else (s, none)
  else if s.controlScanIndex < controlRegisterCount then
    if timeHasElapsed now s.nextControlScanTime then
      (s.controlRead now, some (.control s.controlScanIndex))
    else (s, none)
  else (s, none)

def scan (now : UInt32) (s : Scheduler) : Scheduler × Option Reading :=
  ((s.startMonitorPass now).startControlPass now).readDue now

end Scheduler

/-! ## Commands -/

/-- What happens while a command line is handled: the result of `EEPROM.commit`,
whether the inverter acknowledges a write, and `millis()` after it. -/
structure Outcome where
  committed : Bool
  written : Bool
  now : UInt32

def Command.schedule (outcome : Outcome) (command : Command) (s : Scheduler) : Scheduler :=
  match command with
  | .wifi _ _ => if outcome.committed then s.resetScanTime else s
  | .ctrlScanMs rawValue => { s with timing.controlScanIntervalMs := rawValue }
  | .monScanMs rawValue => { s with timing.monitorScanIntervalMs := rawValue }
  | .regSpacingMs rawValue => { s with timing.registerReadSpacingMs := rawValue }
  | .write _ _ =>
    if outcome.written then { s with controlScanIndex := 0, nextControlScanTime := outcome.now }
    else s
  | _ => s

def scheduleLine (rawLine : Bytes) (outcome : Outcome) (s : Scheduler) : Scheduler :=
  match parseCommandLine rawLine with
  | .ok command => command.schedule outcome s
  | .error _ => s

/-- An iteration of `loop()` that began at `now`, with the lines it handles. -/
def loop (now : UInt32) (lines : List (Bytes × Outcome)) (s : Scheduler) :
    Scheduler × Option Reading :=
  Scheduler.scan now (lines.foldl (fun s line => scheduleLine line.1 line.2 s) s)

/-! ## Clock readings -/

theorem timeHasElapsed_iff {now targetTime : UInt32} :
    timeHasElapsed now targetTime = true ↔ Elapsed now.toBitVec targetTime.toBitVec := by
  rw [timeHasElapsed, decide_eq_true_iff, Int32.le_iff_toInt_le]
  rfl

theorem timeHasElapsed_self (now : UInt32) : timeHasElapsed now now = true :=
  timeHasElapsed_iff.mpr (elapsed_self _)

theorem timeHasElapsed_of_le {now due : Nat} (hdue : due ≤ now) (hnow : now < due + 2 ^ 31) :
    timeHasElapsed (UInt32.ofNat now) (UInt32.ofNat due) = true := by
  apply timeHasElapsed_iff.mpr
  exact elapsed_of_le hdue (by omega)

theorem timeHasElapsed_early {now due : Nat} (hnow : now < due) (hdue : due < now + 2 ^ 32) :
    timeHasElapsed (UInt32.ofNat now) (UInt32.ofNat due) = true ↔ now + 2 ^ 31 < due := by
  have h := elapsed_early (w := 32) hnow hdue
  rw [timeHasElapsed_iff]
  show Elapsed (BitVec.ofNat 32 now) (BitVec.ofNat 32 due) ↔ _
  rw [h]
  omega

theorem ofNat_add_interval (now : Nat) (interval : UInt32) :
    UInt32.ofNat now + interval = UInt32.ofNat (now + interval.toNat) := by
  rw [UInt32.ofNat_add, UInt32.ofNat_toNat]

namespace Scheduler

/-! ## What a scan does -/

section Fields

variable (now : UInt32) (s : Scheduler)

@[simp] theorem monitorRead_timing : (s.monitorRead now).timing = s.timing := by
  simp only [monitorRead]
  split <;> [rfl; split <;> rfl]

@[simp] theorem monitorRead_monitorScanIndex :
    (s.monitorRead now).monitorScanIndex = s.monitorScanIndex + 1 := by
  simp only [monitorRead]
  split <;> [rfl; split <;> rfl]

@[simp] theorem monitorRead_controlScanIndex :
    (s.monitorRead now).controlScanIndex = s.controlScanIndex := by
  simp only [monitorRead]
  split <;> [rfl; split <;> rfl]

theorem monitorRead_nextMonitorScanTime : (s.monitorRead now).nextMonitorScanTime =
    now + if s.monitorScanIndex + 1 < monitorRegisterCount then s.timing.registerReadSpacingMs
      else s.timing.monitorScanIntervalMs := by
  simp only [monitorRead]
  split <;> [rfl; split <;> rfl]

theorem monitorRead_nextControlScanTime : (s.monitorRead now).nextControlScanTime =
    if s.monitorScanIndex + 1 < monitorRegisterCount ∨ controlRegisterCount ≤ s.controlScanIndex
    then s.nextControlScanTime else now + s.timing.registerReadSpacingMs := by
  simp only [monitorRead]
  split
  · next h => rw [if_pos (Or.inl h)]
  · next h =>
    split
    · next hcontrol => rw [if_neg (by omega)]
    · next hcontrol => rw [if_pos (Or.inr (Nat.le_of_not_lt hcontrol))]

@[simp] theorem controlRead_timing : (s.controlRead now).timing = s.timing := by
  simp only [controlRead]
  split <;> rfl

@[simp] theorem controlRead_monitorScanIndex :
    (s.controlRead now).monitorScanIndex = s.monitorScanIndex := by
  simp only [controlRead]
  split <;> rfl

@[simp] theorem controlRead_nextMonitorScanTime :
    (s.controlRead now).nextMonitorScanTime = s.nextMonitorScanTime := by
  simp only [controlRead]
  split <;> rfl

@[simp] theorem controlRead_controlScanIndex :
    (s.controlRead now).controlScanIndex = s.controlScanIndex + 1 := by
  simp only [controlRead]
  split <;> rfl

theorem controlRead_nextControlScanTime : (s.controlRead now).nextControlScanTime =
    now + if s.controlScanIndex + 1 < controlRegisterCount then s.timing.registerReadSpacingMs
      else s.timing.controlScanIntervalMs := by
  simp only [controlRead]
  split <;> rfl

end Fields

/-- The state in which a monitor pass has begun. -/
def beginMonitor (now : UInt32) (s : Scheduler) : Scheduler :=
  { s with monitorScanIndex := 0, nextMonitorScanTime := now }

/-- The state in which a control pass has begun. -/
def beginControl (now : UInt32) (s : Scheduler) : Scheduler :=
  { s with controlScanIndex := 0, nextControlScanTime := now }

/-- The cases of an iteration at `now`. -/
inductive Scans (now : UInt32) (s : Scheduler) : Scheduler × Option Reading → Prop
  | monitorStart (hstart : MonitorStarts now s) :
      Scans now s (((beginMonitor now s).startControlPass now).monitorRead now, some (.monitor 0))
  | monitor (hindex : s.monitorScanIndex < monitorRegisterCount)
      (hdue : timeHasElapsed now s.nextMonitorScanTime = true) :
      Scans now s ((s.startControlPass now).monitorRead now, some (.monitor s.monitorScanIndex))
  | monitorWait (hindex : s.monitorScanIndex < monitorRegisterCount)
      (hdue : ¬ timeHasElapsed now s.nextMonitorScanTime = true) :
      Scans now s (s.startControlPass now, none)
  | controlStart (hindex : monitorRegisterCount ≤ s.monitorScanIndex)
      (hmonitor : ¬ MonitorStarts now s) (hstart : ControlStarts now s) :
      Scans now s ((beginControl now s).controlRead now, some (.control 0))
  | control (hindex : monitorRegisterCount ≤ s.monitorScanIndex)
      (hmonitor : ¬ MonitorStarts now s) (hpass : s.controlScanIndex < controlRegisterCount)
      (hdue : timeHasElapsed now s.nextControlScanTime = true) :
      Scans now s (s.controlRead now, some (.control s.controlScanIndex))
  | wait (hindex : monitorRegisterCount ≤ s.monitorScanIndex) (hmonitor : ¬ MonitorStarts now s)
      (hcontrol : ¬ ControlStarts now s)
      (hdue : s.controlScanIndex < controlRegisterCount →
        ¬ timeHasElapsed now s.nextControlScanTime = true) :
      Scans now s (s, none)

@[simp] theorem startControlPass_timing (now : UInt32) (s : Scheduler) :
    (s.startControlPass now).timing = s.timing := by
  unfold startControlPass
  split <;> rfl

@[simp] theorem startControlPass_monitorScanIndex (now : UInt32) (s : Scheduler) :
    (s.startControlPass now).monitorScanIndex = s.monitorScanIndex := by
  unfold startControlPass
  split <;> rfl

@[simp] theorem startControlPass_nextMonitorScanTime (now : UInt32) (s : Scheduler) :
    (s.startControlPass now).nextMonitorScanTime = s.nextMonitorScanTime := by
  unfold startControlPass
  split <;> rfl

theorem monitorRegisterCount_pos : 0 < monitorRegisterCount := by decide

theorem controlRegisterCount_pos : 0 < controlRegisterCount := by decide

theorem readDue_monitor {now : UInt32} {s : Scheduler}
    (hindex : s.monitorScanIndex < monitorRegisterCount)
    (hdue : timeHasElapsed now s.nextMonitorScanTime = true) :
    readDue now s = (s.monitorRead now, some (.monitor s.monitorScanIndex)) := by
  rw [readDue, if_pos hindex, if_pos hdue]

theorem readDue_control {now : UInt32} {s : Scheduler}
    (hindex : monitorRegisterCount ≤ s.monitorScanIndex)
    (hpass : s.controlScanIndex < controlRegisterCount)
    (hdue : timeHasElapsed now s.nextControlScanTime = true) :
    readDue now s = (s.controlRead now, some (.control s.controlScanIndex)) := by
  rw [readDue, if_neg (by omega), if_pos hpass, if_pos hdue]

theorem scan_monitorStart {now : UInt32} {s : Scheduler} (hstart : MonitorStarts now s) :
    s.scan now =
      (((beginMonitor now s).startControlPass now).monitorRead now, some (.monitor 0)) := by
  have hbegin : s.startMonitorPass now = beginMonitor now s := if_pos hstart
  rw [scan, hbegin, readDue_monitor, startControlPass_monitorScanIndex]
  · rfl
  · simpa [beginMonitor] using monitorRegisterCount_pos
  · simpa [beginMonitor] using timeHasElapsed_self now

theorem scan_monitor {now : UInt32} {s : Scheduler}
    (hindex : s.monitorScanIndex < monitorRegisterCount)
    (hdue : timeHasElapsed now s.nextMonitorScanTime = true) :
    s.scan now =
      ((s.startControlPass now).monitorRead now, some (.monitor s.monitorScanIndex)) := by
  have hstart : ¬ MonitorStarts now s := fun hstart => absurd hindex (Nat.not_lt.mpr hstart.1)
  have hkeep : s.startMonitorPass now = s := if_neg hstart
  rw [scan, hkeep, readDue_monitor, startControlPass_monitorScanIndex]
  · simpa using hindex
  · simpa using hdue

theorem scan_scans (now : UInt32) (s : Scheduler) : Scans now s (scan now s) := by
  by_cases hstart : MonitorStarts now s
  · rw [scan_monitorStart hstart]
    exact .monitorStart hstart
  · have hkeep : s.startMonitorPass now = s := if_neg hstart
    rcases Nat.lt_or_ge s.monitorScanIndex monitorRegisterCount with hindex | hindex
    · by_cases hdue : timeHasElapsed now s.nextMonitorScanTime = true
      · rw [scan_monitor hindex hdue]
        exact .monitor hindex hdue
      · rw [scan, hkeep, readDue, if_pos (by simpa using hindex), if_neg (by simpa using hdue)]
        exact .monitorWait hindex hdue
    · by_cases hcontrol : ControlStarts now s
      · have hbegin : s.startControlPass now = beginControl now s := if_pos hcontrol
        rw [scan, hkeep, hbegin, readDue_control (s := beginControl now s) hindex
          controlRegisterCount_pos (timeHasElapsed_self now)]
        exact .controlStart hindex hstart hcontrol
      · have hbegin : s.startControlPass now = s := if_neg hcontrol
        rw [scan, hkeep, hbegin]
        by_cases hpass : s.controlScanIndex < controlRegisterCount
        · by_cases hdue : timeHasElapsed now s.nextControlScanTime = true
          · rw [readDue_control hindex hpass hdue]
            exact .control hindex hstart hpass hdue
          · rw [readDue, if_neg (by omega), if_pos hpass, if_neg hdue]
            exact .wait hindex hstart hcontrol fun _ => hdue
        · rw [readDue, if_neg (by omega), if_neg hpass]
          exact .wait hindex hstart hcontrol fun h => absurd h hpass

end Scheduler

/-! ## Runs -/

/-- A register read at a real time. -/
structure Read where
  reading : Reading
  time : Nat
  deriving DecidableEq, Repr

/-- An iteration of `loop()` that begins at a real time, with the lines it handles. -/
structure Iteration where
  time : Nat
  lines : List (Bytes × Outcome) := []

namespace Iteration

def scheduler (i : Iteration) (s : Scheduler) : Scheduler :=
  (loop (UInt32.ofNat i.time) i.lines s).1

def read (i : Iteration) (s : Scheduler) : Option Read :=
  (loop (UInt32.ofNat i.time) i.lines s).2.map (⟨·, i.time⟩)

end Iteration

def schedulerAfter : List Iteration → Scheduler → Scheduler
  | [], s => s
  | i :: iterations, s => schedulerAfter iterations (i.scheduler s)

def readsOf : List Iteration → Scheduler → List Read
  | [], _ => []
  | i :: iterations, s => (i.read s).toList ++ readsOf iterations (i.scheduler s)

/-- The times of the iterations do not decrease. -/
def InOrder (iterations : List Iteration) : Prop :=
  iterations.Pairwise fun i j => i.time ≤ j.time

instance (iterations : List Iteration) : Decidable (InOrder iterations) := by
  unfold InOrder
  infer_instance

/-- No iteration handles a line. -/
def Quiet (iterations : List Iteration) : Prop := ∀ i ∈ iterations, i.lines = []

theorem quiet_scheduler {i : Iteration} (h : i.lines = []) (s : Scheduler) :
    i.scheduler s = (s.scan (UInt32.ofNat i.time)).1 := by
  rw [Iteration.scheduler, h]
  rfl

theorem quiet_read {i : Iteration} (h : i.lines = []) (s : Scheduler) :
    i.read s = (s.scan (UInt32.ofNat i.time)).2.map (⟨·, i.time⟩) := by
  rw [Iteration.read, h]
  rfl

end InverterMonitor.Firmware
