import Mathlib.Data.List.Chain
import InverterMonitor.Firmware.ScanReset
import InverterMonitor.Runs.Procedures

/-!
# The order of register reads

The scan of `loop()` statement by statement, and the reads of its runs between
the command lines that they handle.

* `loopScan_execute`: the statements do what `Scheduler.scan` says;
* `InTurn`: the indices are those that come next; `InTurn.line` and
  `InTurn.scan` keep it;
* `reads_in_order`: each pass reads every register in turn, a reset starts its
  scan anew, and no control register is read inside a monitor pass.
-/

namespace InverterMonitor.Firmware
open Text Scheduler Runs

/-! ## The scan, statement by statement -/

abbrev ScanStep := Procedure Scheduler Reading Unit

namespace ScanStep

def startMonitorPass (now : UInt32) : ScanStep := do
  let s ← .get
  if MonitorStarts now s then
    .modify fun s => { s with monitorScanIndex := 0, nextMonitorScanTime := now }

def startControlPass (now : UInt32) : ScanStep := do
  let s ← .get
  if ControlStarts now s then
    .modify fun s => { s with controlScanIndex := 0, nextControlScanTime := now }

def readMonitorRegister (now : UInt32) : ScanStep := do
  let s ← .get
  .log (.monitor s.monitorScanIndex)
  .modify fun s => { s with monitorScanIndex := s.monitorScanIndex + 1 }
  let s ← .get
  if s.monitorScanIndex < monitorRegisterCount then
    .modify fun s => { s with nextMonitorScanTime := now + s.timing.registerReadSpacingMs }
  else
    .modify fun s => { s with nextMonitorScanTime := now + s.timing.monitorScanIntervalMs }
    let s ← .get
    -- no control scan immediately after a monitor scan
    if s.controlScanIndex < controlRegisterCount then
      .modify fun s => { s with nextControlScanTime := now + s.timing.registerReadSpacingMs }

def readControlRegister (now : UInt32) : ScanStep := do
  let s ← .get
  .log (.control s.controlScanIndex)
  .modify fun s => { s with controlScanIndex := s.controlScanIndex + 1 }
  let s ← .get
  if s.controlScanIndex < controlRegisterCount then
    .modify fun s => { s with nextControlScanTime := now + s.timing.registerReadSpacingMs }
  else
    .modify fun s => { s with nextControlScanTime := now + s.timing.controlScanIntervalMs }

/-- Monitor registers go before control registers. -/
def readRegister (now : UInt32) : ScanStep := do
  let s ← .get
  if s.monitorScanIndex < monitorRegisterCount then
    if timeHasElapsed now s.nextMonitorScanTime then readMonitorRegister now
  else if s.controlScanIndex < controlRegisterCount then
    if timeHasElapsed now s.nextControlScanTime then readControlRegister now

end ScanStep

/-- The part of `loop()` after the commands; what it logs are its reads. -/
def loopScan (now : UInt32) : ScanStep := do
  ScanStep.startMonitorPass now
  ScanStep.startControlPass now
  ScanStep.readRegister now

namespace ScanStep

variable (now : UInt32) (s : Scheduler)

theorem run_startMonitorPass : (startMonitorPass now).run { state := s } =
    (some (), { state := s.startMonitorPass now }) := by
  unfold startMonitorPass Scheduler.startMonitorPass
  simp only [Procedure.run_bind, Procedure.run_get]
  split <;> rfl

theorem run_startControlPass : (startControlPass now).run { state := s } =
    (some (), { state := s.startControlPass now }) := by
  unfold startControlPass Scheduler.startControlPass
  simp only [Procedure.run_bind, Procedure.run_get]
  split <;> rfl

theorem run_readMonitorRegister : (readMonitorRegister now).run { state := s } =
    (some (), { state := s.monitorRead now, log := [.monitor s.monitorScanIndex] }) := by
  unfold readMonitorRegister monitorRead
  simp only [Procedure.run_bind, Procedure.run_get, Procedure.run_log, Procedure.run_modify]
  split
  · rfl
  · simp only [Procedure.run_bind, Procedure.run_get, Procedure.run_modify]
    split <;> rfl

theorem run_readControlRegister : (readControlRegister now).run { state := s } =
    (some (), { state := s.controlRead now, log := [.control s.controlScanIndex] }) := by
  unfold readControlRegister controlRead
  simp only [Procedure.run_bind, Procedure.run_get, Procedure.run_log, Procedure.run_modify]
  split <;> rfl

theorem run_readRegister : (readRegister now).run { state := s } =
    (some (), { state := (s.readDue now).1, log := (s.readDue now).2.toList }) := by
  unfold readRegister readDue
  simp only [Procedure.run_bind, Procedure.run_get]
  split
  · split
    · exact run_readMonitorRegister now s
    · rfl
  · split
    · split
      · exact run_readControlRegister now s
      · rfl
    · rfl

end ScanStep

/-- The statements do what `scan` says. -/
theorem loopScan_execute (now : UInt32) (s : Scheduler) :
    (loopScan now).execute s = { state := (s.scan now).1, log := (s.scan now).2.toList } := by
  unfold loopScan Procedure.execute scan
  rw [Procedure.bind_finished (ScanStep.run_startMonitorPass now s),
    Procedure.bind_finished (ScanStep.run_startControlPass now _),
    ScanStep.run_readRegister now]

/-! ## Runs -/

/-- A `WIFI` command that is saved restarts the monitor scan. -/
def Command.restartsMonitor (outcome : Outcome) : Command → Bool
  | .wifi _ _ => outcome.committed
  | _ => false

/-- So it does the control scan, and so does a register write that is acknowledged. -/
def Command.restartsControl (outcome : Outcome) : Command → Bool
  | .wifi _ _ => outcome.committed
  | .write _ _ => outcome.written
  | _ => false

inductive ScanEvent
  | line (rawLine : Bytes) (outcome : Outcome)
  | read (reading : Reading)

namespace ScanEvent

def restartsMonitor : ScanEvent → Bool
  | .line rawLine outcome =>
    match parseCommandLine rawLine with
    | .ok command => command.restartsMonitor outcome
    | .error _ => false
  | .read _ => false

def restartsControl : ScanEvent → Bool
  | .line rawLine outcome =>
    match parseCommandLine rawLine with
    | .ok command => command.restartsControl outcome
    | .error _ => false
  | .read _ => false

def monitorIndex : ScanEvent → Option Nat
  | .read (.monitor index) => some index
  | _ => none

def controlIndex : ScanEvent → Option Nat
  | .read (.control index) => some index
  | _ => none

end ScanEvent

/-- What an iteration does: its lines, then the reads of its scan. -/
def Iteration.events (i : Iteration) (s : Scheduler) : List ScanEvent :=
  i.lines.map (fun line => .line line.1 line.2) ++
    ((loopScan (UInt32.ofNat i.time)).execute
      (i.lines.foldl (fun s line => scheduleLine line.1 line.2 s) s)).log.map .read

def historyOf : List Iteration → Scheduler → List ScanEvent
  | [], _ => []
  | i :: iterations, s => i.events s ++ historyOf iterations (i.scheduler s)

/-! ## Turns -/

/-- The index in turn after an event, in a scan of `count` registers. -/
def turn (count : Nat) (indexOf : ScanEvent → Option Nat) (restarts : ScanEvent → Bool)
    (event : ScanEvent) (next : Nat) : Nat :=
  if restarts event then 0
  else
    match indexOf event with
    | some index => (index + 1) % count
    | none => next

/-- The monitor register whose turn it is. -/
def nextMonitorIndex (history : List ScanEvent) : Nat :=
  follow (turn monitorRegisterCount ScanEvent.monitorIndex ScanEvent.restartsMonitor) history 0

/-- The control register whose turn it is. -/
def nextControlIndex (history : List ScanEvent) : Nat :=
  follow (turn controlRegisterCount ScanEvent.controlIndex ScanEvent.restartsControl) history 0

/-- A read is of the register whose turn it is, and a control register is read only
when the last monitor read was the last of its pass. -/
def ReadInOrder (before : List ScanEvent) : ScanEvent → Prop
  | .line _ _ => True
  | .read (.monitor index) => index = nextMonitorIndex before
  | .read (.control index) => index = nextControlIndex before ∧
    last ScanEvent.monitorIndex before = some (monitorRegisterCount - 1)

/-- The indices of a scheduler are those whose turn it is. -/
structure InTurn (history : List ScanEvent) (s : Scheduler) : Prop where
  monitor_le : s.monitorScanIndex ≤ monitorRegisterCount
  control_le : s.controlScanIndex ≤ controlRegisterCount
  monitor : nextMonitorIndex history = s.monitorScanIndex % monitorRegisterCount
  control : nextControlIndex history = s.controlScanIndex % controlRegisterCount
  complete : s.monitorScanIndex = monitorRegisterCount →
    last ScanEvent.monitorIndex history = some (monitorRegisterCount - 1)

theorem Command.schedule_indices (outcome : Outcome) (command : Command) (s : Scheduler) :
    (command.schedule outcome s).monitorScanIndex =
        (if command.restartsMonitor outcome then 0 else s.monitorScanIndex) ∧
      (command.schedule outcome s).controlScanIndex =
        if command.restartsControl outcome then 0 else s.controlScanIndex := by
  cases command with
  | wifi newSsid newPass =>
    cases hcommitted : outcome.committed <;>
      simp [Command.schedule, Command.restartsMonitor, Command.restartsControl, hcommitted,
        resetScanTime]
  | write reg value =>
    cases hwritten : outcome.written <;>
      simp [Command.schedule, Command.restartsMonitor, Command.restartsControl, hwritten]
  | _ => exact ⟨rfl, rfl⟩

/-- The indices after a line. -/
theorem scheduleLine_indices (rawLine : Bytes) (outcome : Outcome) (s : Scheduler) :
    (scheduleLine rawLine outcome s).monitorScanIndex =
        (if (ScanEvent.line rawLine outcome).restartsMonitor then 0 else s.monitorScanIndex) ∧
      (scheduleLine rawLine outcome s).controlScanIndex =
        if (ScanEvent.line rawLine outcome).restartsControl then 0 else s.controlScanIndex := by
  unfold scheduleLine
  cases hparse : parseCommandLine rawLine with
  | error message => simp [ScanEvent.restartsMonitor, ScanEvent.restartsControl, hparse]
  | ok command =>
    simpa [ScanEvent.restartsMonitor, ScanEvent.restartsControl, hparse] using
      command.schedule_indices outcome s

theorem InTurn.line {history : List ScanEvent} {s : Scheduler} (h : InTurn history s)
    (rawLine : Bytes) (outcome : Outcome) :
    InTurn (history ++ [.line rawLine outcome]) (scheduleLine rawLine outcome s) := by
  obtain ⟨hmonitor, hcontrol⟩ := scheduleLine_indices rawLine outcome s
  have hlast : last ScanEvent.monitorIndex (history ++ [.line rawLine outcome]) =
      last ScanEvent.monitorIndex history := last_concat _ _ _
  constructor
  · rw [hmonitor]
    split
    · exact Nat.zero_le _
    · exact h.monitor_le
  · rw [hcontrol]
    split
    · exact Nat.zero_le _
    · exact h.control_le
  · rw [hmonitor, nextMonitorIndex, follow_append, ← nextMonitorIndex, h.monitor]
    simp only [follow_cons, follow_nil, turn, ScanEvent.monitorIndex]
    split
    · exact (Nat.zero_mod _).symm
    · rfl
  · rw [hcontrol, nextControlIndex, follow_append, ← nextControlIndex, h.control]
    simp only [follow_cons, follow_nil, turn, ScanEvent.controlIndex]
    split
    · exact (Nat.zero_mod _).symm
    · rfl
  · rw [hmonitor, hlast]
    split
    · intro hzero
      exact absurd monitorRegisterCount_pos (by omega)
    · exact h.complete

theorem InTurn.lines {history : List ScanEvent} {s : Scheduler} (h : InTurn history s)
    (lines : List (Bytes × Outcome)) :
    InTurn (history ++ lines.map fun line => .line line.1 line.2)
      (lines.foldl (fun s line => scheduleLine line.1 line.2 s) s) := by
  induction lines generalizing history s with
  | nil => simpa using h
  | cons line lines ih =>
    have hnext := ih (h.line line.1 line.2)
    rwa [List.append_assoc] at hnext

/-- A pass that begins leaves the control register whose turn it is. -/
theorem startControlPass_mod (now : UInt32) {s : Scheduler}
    (h : s.controlScanIndex ≤ controlRegisterCount) :
    (s.startControlPass now).controlScanIndex % controlRegisterCount =
        s.controlScanIndex % controlRegisterCount ∧
      (s.startControlPass now).controlScanIndex ≤ controlRegisterCount := by
  unfold Scheduler.startControlPass
  split
  · next hstart =>
    have hidle : s.controlScanIndex = controlRegisterCount := Nat.le_antisymm h hstart.1
    rw [hidle, Nat.mod_self]
    exact ⟨rfl, Nat.zero_le _⟩
  · exact ⟨rfl, h⟩

theorem nextMonitorIndex_read (history : List ScanEvent) (reading : Reading) :
    nextMonitorIndex (history ++ [.read reading]) =
      match reading with
      | .monitor index => (index + 1) % monitorRegisterCount
      | .control _ => nextMonitorIndex history := by
  rw [nextMonitorIndex, follow_append, ← nextMonitorIndex]
  cases reading <;> rfl

theorem nextControlIndex_read (history : List ScanEvent) (reading : Reading) :
    nextControlIndex (history ++ [.read reading]) =
      match reading with
      | .monitor _ => nextControlIndex history
      | .control index => (index + 1) % controlRegisterCount := by
  rw [nextControlIndex, follow_append, ← nextControlIndex]
  cases reading <;> rfl

theorem monitorRead_inTurn {history : List ScanEvent} {s : Scheduler} (now : UInt32)
    (hindex : s.monitorScanIndex < monitorRegisterCount)
    (hcontrol : s.controlScanIndex ≤ controlRegisterCount)
    (hnext : nextControlIndex history = s.controlScanIndex % controlRegisterCount) :
    InTurn (history ++ [.read (.monitor s.monitorScanIndex)])
      ((s.startControlPass now).monitorRead now) where
  monitor_le := by simpa using Nat.succ_le_of_lt hindex
  control_le := by simpa using (startControlPass_mod now hcontrol).2
  monitor := by simp [nextMonitorIndex_read]
  control := by
    rw [nextControlIndex_read, hnext, monitorRead_controlScanIndex]
    exact (startControlPass_mod now hcontrol).1.symm
  complete := by
    intro hlast
    rw [monitorRead_monitorScanIndex, startControlPass_monitorScanIndex] at hlast
    rw [last_concat]
    show some s.monitorScanIndex = some (monitorRegisterCount - 1)
    rw [← hlast, Nat.add_sub_cancel]

theorem controlRead_inTurn {history : List ScanEvent} {s : Scheduler} (now : UInt32)
    (h : InTurn history s) (hindex : s.controlScanIndex < controlRegisterCount) :
    InTurn (history ++ [.read (.control s.controlScanIndex)]) (s.controlRead now) where
  monitor_le := by simpa using h.monitor_le
  control_le := by simpa using Nat.succ_le_of_lt hindex
  monitor := by
    rw [nextMonitorIndex_read, controlRead_monitorScanIndex]
    exact h.monitor
  control := by simp [nextControlIndex_read]
  complete := by
    rw [controlRead_monitorScanIndex, last_concat]
    exact h.complete

/-- The step lemma. -/
theorem InTurn.scan {history : List ScanEvent} {s : Scheduler} (h : InTurn history s)
    (now : UInt32) :
    InTurn (history ++ (s.scan now).2.toList.map .read) (s.scan now).1 ∧
      ∀ reading ∈ (s.scan now).2, ReadInOrder history (.read reading) := by
  have hscan := scan_scans now s
  generalize s.scan now = result at hscan ⊢
  cases hscan with
  | monitorStart hstart =>
    have hidle : s.monitorScanIndex = monitorRegisterCount :=
      Nat.le_antisymm h.monitor_le hstart.1
    refine ⟨monitorRead_inTurn (s := beginMonitor now s) now monitorRegisterCount_pos
      h.control_le h.control, ?_⟩
    rintro _ ⟨⟩
    show 0 = nextMonitorIndex history
    rw [h.monitor, hidle, Nat.mod_self]
  | monitor hindex =>
    refine ⟨monitorRead_inTurn now hindex h.control_le h.control, ?_⟩
    rintro _ ⟨⟩
    show s.monitorScanIndex = nextMonitorIndex history
    rw [h.monitor, Nat.mod_eq_of_lt hindex]
  | monitorWait hindex =>
    obtain ⟨hmod, hle⟩ := startControlPass_mod now h.control_le
    refine ⟨?_, nofun⟩
    simp only [Option.toList_none, List.map_nil, List.append_nil]
    constructor
    · simpa using h.monitor_le
    · exact hle
    · simpa using h.monitor
    · rw [hmod, h.control]
    · simpa using h.complete
  | controlStart hindex _ hstart =>
    have hidle : s.controlScanIndex = controlRegisterCount :=
      Nat.le_antisymm h.control_le hstart.1
    have hmonitor : s.monitorScanIndex = monitorRegisterCount :=
      Nat.le_antisymm h.monitor_le hindex
    have hzero : nextControlIndex history = 0 := by rw [h.control, hidle, Nat.mod_self]
    have hbegin : InTurn history (beginControl now s) :=
      ⟨h.monitor_le, Nat.zero_le _, h.monitor, hzero.trans (Nat.zero_mod _).symm, h.complete⟩
    refine ⟨controlRead_inTurn now hbegin controlRegisterCount_pos, ?_⟩
    rintro _ ⟨⟩
    exact ⟨hzero.symm, h.complete hmonitor⟩
  | control hindex _ hpass =>
    have hmonitor : s.monitorScanIndex = monitorRegisterCount :=
      Nat.le_antisymm h.monitor_le hindex
    refine ⟨controlRead_inTurn now h hpass, ?_⟩
    rintro _ ⟨⟩
    exact ⟨by rw [h.control, Nat.mod_eq_of_lt hpass], h.complete hmonitor⟩
  | wait =>
    refine ⟨?_, nofun⟩
    simpa using h

theorem loopScan_log (now : UInt32) (s : Scheduler) :
    ((loopScan now).execute s).log = (s.scan now).2.toList := by rw [loopScan_execute]

/-- The lines of an iteration are in order. -/
theorem lawful_lines {history : List ScanEvent} (h : Lawful ReadInOrder history)
    (lines : List (Bytes × Outcome)) :
    Lawful ReadInOrder (history ++ lines.map fun line => .line line.1 line.2) := by
  induction lines generalizing history with
  | nil => simpa using h
  | cons line lines ih =>
    have hnext := ih (@Lawful.concat _ ReadInOrder _ (.line line.1 line.2) h trivial)
    rwa [List.append_assoc] at hnext

theorem InTurn.iteration {history : List ScanEvent} {s : Scheduler} (h : InTurn history s)
    (hlawful : Lawful ReadInOrder history) (i : Iteration) :
    InTurn (history ++ i.events s) (i.scheduler s) ∧
      Lawful ReadInOrder (history ++ i.events s) := by
  have hlines := h.lines i.lines
  have hlawful' := lawful_lines hlawful i.lines
  rw [Iteration.events, loopScan_log, ← List.append_assoc, Iteration.scheduler, loop]
  generalize (history ++ i.lines.map fun line => .line line.1 line.2) = history' at hlines hlawful' ⊢
  generalize i.lines.foldl (fun s line => scheduleLine line.1 line.2 s) s = s' at hlines ⊢
  obtain ⟨hturn, hread⟩ := hlines.scan (UInt32.ofNat i.time)
  refine ⟨hturn, ?_⟩
  cases hreading : (s'.scan (UInt32.ofNat i.time)).2 with
  | none => simpa using hlawful'
  | some reading => exact hlawful'.concat (hread reading hreading)

/-- The run lemma. -/
theorem InTurn.run {history : List ScanEvent} {s : Scheduler} (h : InTurn history s)
    (hlawful : Lawful ReadInOrder history) (iterations : List Iteration) :
    Lawful ReadInOrder (history ++ historyOf iterations s) := by
  induction iterations generalizing history s with
  | nil => simpa [historyOf] using hlawful
  | cons i iterations ih =>
    obtain ⟨hturn, hnext⟩ := h.iteration hlawful i
    have hrun := ih hturn hnext
    rwa [List.append_assoc] at hrun

theorem boot_inTurn (timing : TimingConfig) : InTurn [] { timing := timing } :=
  ⟨Nat.zero_le _, Nat.zero_le _, rfl, rfl, fun hzero => absurd hzero monitorRegisterCount_pos.ne⟩

/-! ## Cycles -/

/-- Each index is the one after the index before it. -/
def Cyclic (count : Nat) (indices : List Nat) : Prop :=
  indices.IsChain fun i j => j = (i + 1) % count

section

variable {count : Nat} {indexOf : ScanEvent → Option Nat} {restarts : ScanEvent → Bool}

/-- Without a restart the index in turn is the one after the last. -/
theorem follow_turn {segment : List ScanEvent} (hquiet : ∀ e ∈ segment, restarts e = false)
    (next : Nat) : follow (turn count indexOf restarts) segment next =
      ((last indexOf segment).map fun i => (i + 1) % count).getD next := by
  induction segment using List.reverseRecOn with
  | nil => rfl
  | append_singleton segment e ih =>
    rw [follow_append, ih fun e he => hquiet e (by simp [he]), last_concat]
    simp only [follow_cons, follow_nil, turn, hquiet e (by simp), Bool.false_eq_true, ↓reduceIte]
    cases indexOf e <;> rfl

/-- Reads that are in turn are in cyclic order. -/
theorem cyclic_of_turns {before segment : List ScanEvent}
    (h : Lawful (fun before e =>
      ∀ i ∈ indexOf e, i = follow (turn count indexOf restarts) before 0) (before ++ segment))
    (hquiet : ∀ e ∈ segment, restarts e = false) : Cyclic count (segment.filterMap indexOf) := by
  induction segment using List.reverseRecOn with
  | nil => exact .nil
  | append_singleton segment e ih =>
    have hquiet' : ∀ e ∈ segment, restarts e = false := fun e he => hquiet e (by simp [he])
    rw [← List.append_assoc, Lawful.concat_iff] at h
    obtain ⟨hbefore, hlast⟩ := h
    have hcyclic := ih hbefore hquiet'
    rw [List.filterMap_append]
    cases hindex : indexOf e with
    | none => simpa [hindex] using hcyclic
    | some j =>
      have hj := hlast j hindex
      rw [follow_append, follow_turn hquiet'] at hj
      rw [List.filterMap_cons_some hindex, List.filterMap_nil]
      refine hcyclic.append (.singleton _) ?_
      intro i hi j' hj'
      obtain rfl : j = j' := by simpa using hj'
      have hlast' : last indexOf segment = some i := hi
      rw [hj, hlast']
      rfl

end

theorem monitor_cyclic {before segment : List ScanEvent}
    (h : Lawful ReadInOrder (before ++ segment))
    (hquiet : ∀ e ∈ segment, e.restartsMonitor = false) :
    Cyclic monitorRegisterCount (segment.filterMap ScanEvent.monitorIndex) := by
  refine @cyclic_of_turns _ _ ScanEvent.restartsMonitor before segment ?_ hquiet
  intro early e late heq i hi
  have hread := h early e late heq
  cases e with
  | line => cases hi
  | read reading =>
    cases reading with
    | monitor index =>
      cases hi
      exact hread
    | control => cases hi

theorem control_cyclic {before segment : List ScanEvent}
    (h : Lawful ReadInOrder (before ++ segment))
    (hquiet : ∀ e ∈ segment, e.restartsControl = false) :
    Cyclic controlRegisterCount (segment.filterMap ScanEvent.controlIndex) := by
  refine @cyclic_of_turns _ _ ScanEvent.restartsControl before segment ?_ hquiet
  intro early e late heq i hi
  have hread := h early e late heq
  cases e with
  | line => cases hi
  | read reading =>
    cases reading with
    | monitor => cases hi
    | control index =>
      cases hi
      exact hread.1

/-- Every run of `loop()` from the start: each read is of the register whose turn
it is, which is the first one after a restart; without a restart the reads are in
cyclic order; no control register is read inside a monitor pass; and an iteration
reads at most one register. -/
theorem reads_in_order (timing : TimingConfig) (iterations : List Iteration) :
    Lawful ReadInOrder (historyOf iterations { timing := timing }) ∧
      (∀ before segment after,
        historyOf iterations { timing := timing } = (before ++ segment) ++ after →
        ((∀ e ∈ segment, e.restartsMonitor = false) →
          Cyclic monitorRegisterCount (segment.filterMap ScanEvent.monitorIndex)) ∧
        ((∀ e ∈ segment, e.restartsControl = false) →
          Cyclic controlRegisterCount (segment.filterMap ScanEvent.controlIndex))) ∧
      ∀ now s, ((loopScan now).execute s).log.length ≤ 1 := by
  have hlawful := (boot_inTurn timing).run Lawful.nil iterations
  rw [List.nil_append] at hlawful
  refine ⟨hlawful, fun before segment after hhistory => ?_, ?_⟩
  · rw [hhistory] at hlawful
    exact ⟨monitor_cyclic hlawful.of_append, control_cyclic hlawful.of_append⟩
  · intro now s
    rw [loopScan_log]
    exact Option.length_toList_le

end InverterMonitor.Firmware
