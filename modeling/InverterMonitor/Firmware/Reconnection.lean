import InverterMonitor.Firmware.Connections

/-!
# The connections of the inverter

`setup` and `loop` of `inverter.ino`: the lines of the serial port, of the log client and of the
server, the check of the connection, and the scan of the registers, after which a device that is
its own access point tries the station again.  The connection may break at any time.

* `handleCommand_connecting`: which lines connect;
* `InverterStep.tracked`: one statement of the loop;
* `server_followed`: to which server the inverter is connected;
* `reconnections_timed`: when it tries to connect.
-/

namespace InverterMonitor.Firmware
open Text Runs

/-! ## The loop -/

namespace Device

def network (d : Device) : NetworkSettings where
  wifiSSID := d.board.memory.wifiSSID
  server := ⟨d.board.memory.monitorHost, d.board.memory.monitorPort⟩

def setScheduler (d : Device) (s : Scheduler) : Device :=
  { d with
    nextControlScanTime := s.nextControlScanTime, nextMonitorScanTime := s.nextMonitorScanTime,
    controlScanIndex := s.controlScanIndex, monitorScanIndex := s.monitorScanIndex }

end Device

/-- What comes next. -/
inductive LoopPhase
  | setup
  | idle
  /-- The lines of the serial port. -/
  | serial
  /-- The lines of the log client. -/
  | log
  /-- The lines of the server. -/
  | monitor
  deriving DecidableEq, Repr

/-- A line can be handled now. -/
def LoopPhase.Takes (c : Connections) : LoopPhase → Prop
  | .serial => True
  | .log => c.logClient = true
  | .monitor => c.monitorClient ≠ none
  | _ => False

/-- The inverter, the real time at which its loop began, and the time now. -/
structure Inverter where
  device : Device
  connections : Connections := {}
  began : Nat
  time : Nat
  phase : LoopPhase := .setup

namespace Inverter

/-- `setup` -/
def setup (s : Inverter) (wifi : WifiAnswers) : Inverter × List ConnectionEvent :=
  let device : Device := { board := Board.boot s.device.flash }
  let connected := Connections.connectToWiFi device.network wifi {}
  ({ device, connections := connected.1, began := s.time, time := wifi.millis, phase := .idle },
    .booted device.network :: .attempted .setup :: connected.2)

def handleCommand (s : Inverter) (rawLine : Bytes) (answers : Answers) (wifi : WifiAnswers) :
    Inverter × List ConnectionEvent :=
  let handled := s.device.handleCommand answers rawLine
  let network := handled.state.network
  let connected := s.connections.actAll network wifi handled.log
  ({ s with device := handled.state, connections := connected.1, time := wifi.millis },
    .handled rawLine answers.committed network :: connected.2)

def check (s : Inverter) (wifi : WifiAnswers) : Inverter × List ConnectionEvent :=
  let checked := s.connections.check s.device.network s.began wifi
  ({ s with connections := checked.1, time := wifi.millis, phase := .monitor }, checked.2)

end Inverter

/-- The register that was read is the last one of a pass over the control registers. -/
def endsControlPass : Option Reading → Bool
  | some (.control index) => controlRegisterCount ≤ index + 1
  | _ => false

/-- The end of a pass over the control registers. -/
def Connections.endControlPass (network : NetworkSettings) (now : Nat) (wifi : WifiAnswers)
    (c : Connections) : Connections × List ConnectionEvent :=
  if c.mode = .accessPoint ∧ network.wifiSSID ≠ [] ∧
      timeHasElapsed (UInt32.ofNat now) c.nextWifiStationRetryTime = true then
    let connected := c.connectToWiFi network wifi
    (connected.1, .attempted (.retry now) :: connected.2)
  else (c, [.controlPassEnded now])

/-- The scan of the registers, with which the loop ends. -/
def Inverter.scan (s : Inverter) (wifi : WifiAnswers) : Inverter × List ConnectionEvent :=
  let scanned := s.device.scheduler.scan (UInt32.ofNat s.began)
  let device := s.device.setScheduler scanned.1
  let ended :=
    if endsControlPass scanned.2 then
      s.connections.endControlPass device.network s.began wifi
    else (s.connections, [])
  ({ s with device, connections := ended.1, time := wifi.millis, phase := .idle }, ended.2)

/-- The statements of `setup` and `loop`, with passes of the loop that take no longer than
`gap`. -/
inductive InverterStep (gap : Nat) (s : Inverter) : Inverter → List ConnectionEvent → Prop
  | setup (hphase : s.phase = .setup) (wifi : WifiAnswers) (hmillis : s.time ≤ wifi.millis)
      (hgap : wifi.millis ≤ s.time + gap) :
      InverterStep gap s (s.setup wifi).1 (s.setup wifi).2
  | begin (hphase : s.phase = .idle) {now : Nat} (hnow : s.time ≤ now) :
      InverterStep gap s { s with began := now, time := now, phase := .serial } []
  | line (htakes : s.phase.Takes s.connections) (rawLine : Bytes) (answers : Answers) (wifi : WifiAnswers)
      (hmillis : s.time ≤ wifi.millis) (hgap : wifi.millis ≤ s.began + gap) :
      InverterStep gap s (s.handleCommand rawLine answers wifi).1
        (s.handleCommand rawLine answers wifi).2
  | acceptLog (hphase : s.phase = .serial) (waiting : Bool) :
      InverterStep gap s
        { s with
          connections :=
            { s.connections with logClient := s.connections.logClient || waiting }
          phase := .log } []
  | check (hphase : s.phase = .log) (wifi : WifiAnswers) (hmillis : s.time ≤ wifi.millis)
      (hgap : wifi.millis ≤ s.began + gap) :
      InverterStep gap s (s.check wifi).1 (s.check wifi).2
  | scan (hphase : s.phase = .monitor) (wifi : WifiAnswers) (hmillis : s.time ≤ wifi.millis)
      (hgap : wifi.millis ≤ s.began + gap) :
      InverterStep gap s (s.scan wifi).1 (s.scan wifi).2
  | lose (hphase : s.phase ≠ .setup) :
      InverterStep gap s
        { s with connections := { s.connections with monitorClient := none } } [.lost]
  | loseLog (hphase : s.phase ≠ .setup) :
      InverterStep gap s
        { s with connections := { s.connections with logClient := false } } []

/-! ## Which lines connect -/

theorem TableReads.quiet {looked : List Action} (h : TableReads looked) :
    ∀ action ∈ looked, ¬action.Connects := by
  intro action haction
  obtain ⟨array, i, rfl, -⟩ := h action haction
  simp [Action.Connects]

theorem savedOr_quiet (answers : Answers) (saved failed : Bytes) :
    ∀ action ∈ savedOr answers saved failed, ¬action.Connects := by
  unfold savedOr
  split <;> simp [Action.Connects]

theorem Connecting.append {wifi wifi' : Prop} {looked log : List Action}
    (h : Connecting wifi log) (hlooked : ∀ action ∈ looked, ¬action.Connects)
    (hwifi : wifi → wifi') : Connecting wifi' (looked ++ log) := by
  have hquiet : ∀ {log : List Action}, (∀ action ∈ log, ¬action.Connects) →
      ∀ action ∈ looked ++ log, ¬action.Connects := by
    intro log hlog action haction
    exact (List.mem_append.mp haction).elim (hlooked action) (hlog action)
  cases h with
  | quiet hlog => exact .quiet (hquiet hlog)
  | network hlog h =>
    rw [← List.append_assoc]
    exact .network (hquiet hlog) (hwifi h)
  | server hlog =>
    rw [← List.append_assoc]
    exact .server (hquiet hlog)

theorem actions_connecting (answers : Answers) (d : Device) (command : Command) :
    Connecting
      (answers.committed = true ∧ ∃ newSsid newPass, command = .wifi newSsid newPass)
      (command.actions answers d) := by
  cases command with
  | empty => exact .quiet (by simp [Command.actions])
  | wifi newSsid newPass =>
    have hcopies : ∀ action ∈ [Action.copy .wifiSSID (cString newSsid),
        .copy .wifiPassword (cString newPass)], ¬action.Connects := by simp [Action.Connects]
    rw [Command.actions]
    refine Connecting.append ?_ hcopies id
    split
    · next hcommitted =>
      exact .network (List.forall_mem_singleton.mpr (by simp [Action.Connects]))
        ⟨hcommitted, newSsid, newPass, rfl⟩
    · exact .quiet (by simp [Action.Connects])
  | host newHost newPort rawPort =>
    have hcopies : ∀ action ∈ [Action.copy .monitorHost (cString newHost),
        .copy .monitorPortString (cString newPort)], ¬action.Connects := by simp [Action.Connects]
    rw [Command.actions]
    refine Connecting.append ?_ hcopies id
    split
    · exact .server (List.forall_mem_singleton.mpr (by simp [Action.Connects]))
    · exact .quiet (by simp [Action.Connects])
  | sim enabled => exact .quiet (savedOr_quiet _ _ _)
  | ctrlScanMs rawValue => exact .quiet (savedOr_quiet _ _ _)
  | monScanMs rawValue => exact .quiet (savedOr_quiet _ _ _)
  | regSpacingMs rawValue => exact .quiet (savedOr_quiet _ _ _)
  | relay relayIndex active => exact .quiet (by simp [Command.actions, Action.Connects])
  | clearIp relayIndex =>
    refine .quiet ?_
    have hsaved := savedOr_quiet answers
      (tcpCmd "SETIP " ++ decimal (relayIndex + 1) ++ ascii " cleared")
      (tcpCmd "failed to clear relay IP in EEPROM")
    simpa [Command.actions, Action.Connects] using hsaved
  | setIp relayIndex ip =>
    refine .quiet ?_
    have hsaved := savedOr_quiet answers
      (tcpCmd "SETIP " ++ decimal (relayIndex + 1) ++ ascii " " ++ ip.text)
      (tcpCmd "failed to save relay IP to EEPROM")
    simpa [Command.actions, Action.Connects] using hsaved
  | read reg =>
    refine .quiet ?_
    rw [Command.actions]
    split
    · simp [Action.Connects]
    · cases answers.readResult <;> simp [Action.Connects]
  | otaUrl url =>
    refine .quiet ?_
    rw [Command.actions]
    cases answers.updateResult <;> simp [Action.Connects]
  | relayValue address value =>
    refine .quiet ?_
    rw [Command.actions]
    cases setRelayState (address - 1).toUInt8 (value ≠ 0) <;> simp [Action.Connects]
  | write reg value =>
    refine .quiet ?_
    rw [Command.actions]
    split <;> simp [Action.Connects]

/-- A line connects when its settings were saved. -/
theorem handleCommand_connecting (answers : Answers) (d : Device) (rawLine : Bytes) :
    Connecting (SavedWifi rawLine answers.committed) (d.handleCommand answers rawLine).log := by
  have hcarries := handleCommand_carries answers d rawLine
  generalize hparse : parseCommandLine rawLine = parsed at hcarries
  generalize d.handleCommand answers rawLine = execution at hcarries
  cases hcarries with
  | rejected message hlooked =>
    have hprint : Connecting (SavedWifi rawLine answers.committed) [.print message] :=
      .quiet (by simp [Action.Connects])
    exact hprint.append hlooked.quiet id
  | performed command hlooked =>
    refine (actions_connecting answers d command).append hlooked.quiet ?_
    rintro ⟨hcommitted, newSsid, newPass, rfl⟩
    exact ⟨hcommitted, newSsid, newPass, hparse⟩

/-! ## Runs -/

theorem Linked.canRetry_iff {start gap began time : Nat} {settings : NetworkSettings}
    {c : Connections} {history : List ConnectionEvent}
    (h : Linked start gap settings c began time history) :
    CanRetry history ↔ c.mode = .accessPoint ∧ settings.wifiSSID ≠ [] := by
  rw [CanRetry, ← h.mode, h.settings]
  simp

/-- The end of a pass over the control registers. -/
theorem Linked.afterControlPass {start gap began time : Nat} {settings : NetworkSettings}
    {c : Connections} {history : List ConnectionEvent}
    (h : Linked start gap settings c began time history) {wifi : WifiAnswers}
    (hmillis : wifi.millis = time) :
    Linked start gap settings (c.endControlPass settings began wifi).1 began time
      (history ++ (c.endControlPass settings began wifi).2) := by
  have hdue : Brisk gap → ∀ fallback, fallback ≤ time →
      Due (fallback + wifiStationRetryInterval) began (timeHasElapsed (UInt32.ofNat began)
        (UInt32.ofNat (fallback + wifiStationRetryInterval))) := by
    intro hbrisk fallback hpast
    have hlate := h.le_began
    have hnear : fallback + wifiStationRetryInterval ≤ began + 2 ^ 31 := by
      unfold Brisk at hbrisk
      omega
    exact due_of_elapsed hnear
  unfold Connections.endControlPass
  by_cases hretry : c.mode = .accessPoint ∧ settings.wifiSSID ≠ [] ∧
      timeHasElapsed (UInt32.ofNat began) c.nextWifiStationRetryTime = true
  · obtain ⟨hpoint, hssid, helapsed⟩ := hretry
    obtain ⟨fallback, hfallback, hnext, hspaced, hpast⟩ := h.retry hpoint
    have helapsed' := helapsed
    rw [hnext] at helapsed'
    have hpassed := fun hbrisk => (hdue hbrisk fallback hpast).notEarly helapsed'
    have hcause : Brisk gap → AttemptLaw history (.attempted (.retry began)) := by
      intro hbrisk
      refine ⟨h.canRetry_iff.mpr ⟨hpoint, hssid⟩, fun last hlast => ?_⟩
      rw [Option.some.inj (hlast.symm.trans hfallback)]
      exact hpassed hbrisk
    have hlater : Brisk gap →
        start + wifiStationRetryInterval * (retries history + 1) ≤ time := by
      intro hbrisk
      have hbegan := h.began_le
      have hfirst := hspaced hbrisk
      have hsecond := hpassed hbrisk
      rw [Nat.mul_add_one]
      omega
    rw [if_pos ⟨hpoint, hssid, helapsed⟩]
    exact h.afterWiFi hcause (fun _ => hlater) hmillis
  · rw [if_neg hretry]
    refine h.plain (.controlPassEnded began) c rfl rfl h.station id rfl rfl ⟨rfl, rfl, rfl⟩ trivial
      trivial ?_
    intro hbrisk hcan time htime hpassed
    obtain ⟨hpoint, hssid⟩ := h.canRetry_iff.mp hcan
    obtain ⟨fallback, hfallback, hnext, -, hpast⟩ := h.retry hpoint
    obtain rfl : time = fallback := Option.some.inj (htime.symm.trans hfallback)
    by_contra hlate
    have hsoon : began < time + wifiStationRetryInterval + 2 ^ 31 := Nat.lt_of_not_le hlate
    have helapsed := (hdue hbrisk time hpast).notLate hpassed hsoon
    rw [← hnext] at helapsed
    exact hretry ⟨hpoint, hssid, helapsed⟩

variable {gap : Nat} {start s s' : Inverter} {history events : List ConnectionEvent}

/-- The connections of the inverter are in order. -/
def Inverter.InOrder (gap start : Nat) (s : Inverter) (history : List ConnectionEvent) : Prop :=
  s.phase ≠ .setup ∧ Linked start gap s.device.network s.connections s.began s.time history

theorem setup_inOrder (s : Inverter) {wifi : WifiAnswers} (hmillis : s.time ≤ wifi.millis)
    (hgap : wifi.millis ≤ s.time + gap) :
    (s.setup wifi).1.InOrder gap s.time (s.setup wifi).2 := by
  have hbooted : Linked s.time gap (Device.network { board := Board.boot s.device.flash })
      {} s.time wifi.millis _ := Linked.booted _ hmillis hmillis hgap
  refine ⟨LoopPhase.noConfusion, ?_⟩
  have hcause : AttemptLaw [.booted (Device.network { board := Board.boot s.device.flash })]
      (.attempted .setup) := ⟨_, rfl⟩
  exact hbooted.afterWiFi (fun _ => hcause) (fun hretry => absurd hretry Bool.false_ne_true) rfl

/-- The step lemma. -/
theorem InverterStep.inOrder {origin : Nat} (hstep : InverterStep gap s s' events)
    (h : s.InOrder gap origin history) : s'.InOrder gap origin (history ++ events) := by
  obtain ⟨hphase, hlinked⟩ := h
  cases hstep with
  | setup hsetup => exact absurd hsetup hphase
  | begin _ hnow =>
    rw [List.append_nil]
    exact ⟨LoopPhase.noConfusion, hlinked.begin hnow⟩
  | line htakes rawLine answers wifi hmillis hlate =>
    have hlater := hlinked.later hmillis hlate
    exact ⟨hphase, hlater.afterLine (handleCommand_connecting answers s.device rawLine) rfl⟩
  | acceptLog _ waiting =>
    rw [List.append_nil]
    exact ⟨LoopPhase.noConfusion, hlinked.log _⟩
  | check _ wifi hmillis hlate =>
    exact ⟨LoopPhase.noConfusion, (hlinked.later hmillis hlate).afterCheck wifi⟩
  | scan _ wifi hmillis hlate =>
    have hlater := hlinked.later hmillis hlate
    refine ⟨LoopPhase.noConfusion, ?_⟩
    unfold Inverter.scan
    dsimp only
    split
    · exact hlater.afterControlPass rfl
    · rw [List.append_nil]
      exact hlater
  | lose => exact ⟨hphase, hlinked.lost⟩
  | loseLog =>
    rw [List.append_nil]
    exact ⟨hphase, hlinked.log false⟩

/-- An inverter that is about to start. -/
def Inverter.Starts (s : Inverter) : Prop := s.phase = .setup ∧ s.connections = {}

/-- The run lemma. -/
theorem run_inOrder (hstart : start.Starts) (hrun : Run (InverterStep gap) start s history) :
    s = start ∧ history = [] ∨ s.InOrder gap start.time history := by
  refine hrun.invariant (P := fun s history =>
    s = start ∧ history = [] ∨ s.InOrder gap start.time history) (Or.inl ⟨rfl, rfl⟩) ?_
  intro s s' history events h hstep
  rcases h with ⟨rfl, rfl⟩ | h
  · cases hstep with
    | setup _ wifi hmillis hlate => exact Or.inr (setup_inOrder s hmillis hlate)
    | begin hphase => cases hstart.1.symm.trans hphase
    | line htakes =>
      rw [hstart.1] at htakes
      exact htakes.elim
    | acceptLog hphase => cases hstart.1.symm.trans hphase
    | check hphase => cases hstart.1.symm.trans hphase
    | scan hphase => cases hstart.1.symm.trans hphase
    | lose hphase => exact absurd hstart.1 hphase
    | loseLog hphase => exact absurd hstart.1 hphase
  · exact Or.inr (hstep.inOrder h)

/-- In every run of the inverter: a connection is made by a station that has none, to the server of
its settings; and an inverter that is connected has been so ever since, whatever its settings have
become. -/
theorem server_followed (hstart : start.Starts)
    (hrun : Run (InverterStep gap) start s history) :
    Lawful ServerLaw history ∧ ∀ server, s.connections.monitorClient = some server →
      s.connections.mode = .station ∧ ∃ before after wifiSSID,
        history = before ++ .connected server :: after ∧
          settingsAfter before = some ⟨wifiSSID, server⟩ ∧ ∀ event ∈ after, event.Spares := by
  rcases run_inOrder hstart hrun with ⟨rfl, rfl⟩ | ⟨-, h⟩
  · rw [hstart.2]
    exact ⟨.nil, fun server hclient => by cases hclient⟩
  · refine ⟨h.server_lawful, fun server hclient => ?_⟩
    have hstation := h.station (by simp [hclient])
    obtain ⟨before, after, rfl, hafter⟩ := holding_of_standing (h.client.symm.trans hclient)
    obtain ⟨-, -, -, -, wifiSSID, hsettings⟩ := h.server_lawful _ _ _ rfl
    exact ⟨hstation, before, after, wifiSSID, rfl, hsettings, hafter⟩

/-- The settings of an inverter in use. -/
def homeEeprom : Eeprom :=
  saveMonitorServerToEEPROM (ascii "home") (ascii "16670")
    (saveWiFiCredentialsToEEPROM (ascii "net") (ascii "pass") fun _ => 0xFF)

def homeInverter : Inverter where
  device := { board := Board.boot homeEeprom }
  began := 0
  time := 0

/-- The network answers, and so does the server. -/
def online (millis : Nat) : WifiAnswers := ⟨fun _ => true, true, millis⟩

def offline (millis : Nat) : WifiAnswers := ⟨fun _ => false, false, millis⟩

/-- What the rest of the world answers. -/
def answered : Answers := { committed := true, written := true, now := 0 }

/-- The server changes in the settings, but not at the other end of the connection. -/
theorem host_follows_later :
    let first := homeInverter.setup (online 1000)
    let serial : Inverter := { first.1 with began := first.1.time, phase := .serial }
    let second := serial.handleCommand (ascii "HOST other 5000") answered (online 1000)
    second.1.device.network.server = ⟨ascii "other", 5000⟩ ∧
      ∃ before after wifiSSID,
        [] ++ first.2 ++ [] ++ second.2 = before ++ .connected ⟨ascii "home", 16670⟩ :: after ∧
          settingsAfter before = some ⟨wifiSSID, ascii "home", 16670⟩ ∧
            ∀ event ∈ after, event.Spares := by
  intro first serial second
  have hfirst : InverterStep 100000 homeInverter first.1 first.2 :=
    .setup rfl (online 1000) (by decide) (by decide)
  have hserial : InverterStep 100000 first.1 serial [] := .begin rfl (Nat.le_refl _)
  have htakes : serial.phase.Takes serial.connections := trivial
  have htime : serial.time = (online 1000).millis := rfl
  have hsecond : InverterStep 100000 serial second.1 second.2 :=
    .line htakes _ _ _ (Nat.le_of_eq htime) (htime ▸ Nat.le_add_right _ _)
  have hrun := ((Run.start.next hfirst).next hserial).next hsecond
  have hserver : second.1.connections.monitorClient = some ⟨ascii "home", 16670⟩ := by
    decide +kernel
  obtain ⟨-, hclient⟩ := server_followed ⟨rfl, rfl⟩ hrun
  exact ⟨by decide +kernel, (hclient _ hserver).2⟩

/-- In every run of the inverter: a station is tried at the start, after saved credentials, and
where a pass over the control registers ends five minutes or more after the last fallback, if a
network is known, and nowhere else; the connection is checked when a minute has passed since the
last check. So there is at most one retry in five minutes. -/
theorem reconnections_timed (hgap : gap + wifiStationRetryInterval ≤ 2 ^ 31)
    (hstart : start.Starts) (hrun : Run (InverterStep gap) start s history) :
    Lawful AttemptLaw history ∧ Lawful CheckLaw history ∧
      start.time + wifiStationRetryInterval * retries history ≤ s.time := by
  rcases run_inOrder hstart hrun with ⟨rfl, rfl⟩ | ⟨-, h⟩
  · exact ⟨.nil, .nil, Nat.le_refl _⟩
  · exact ⟨h.attempt_lawful hgap, h.check_lawful, h.spaced hgap⟩

/-- A pass of the loop without lines. -/
def Inverter.pass (s : Inverter) (wifi : WifiAnswers) : Inverter × List ConnectionEvent :=
  let logged : Inverter :=
    { s with
      connections := { s.connections with logClient := s.connections.logClient || false }
      began := wifi.millis, time := wifi.millis, phase := .log }
  let checked := logged.check wifi
  let scanned := checked.1.scan wifi
  (scanned.1, checked.2 ++ scanned.2)

theorem run_pass (s : Inverter) (hphase : s.phase = .idle) (wifi : WifiAnswers)
    (hmillis : s.time ≤ wifi.millis) :
    Run (InverterStep gap) s (s.pass wifi).1 (s.pass wifi).2 ∧ (s.pass wifi).1.phase = .idle ∧
      (s.pass wifi).1.time = wifi.millis := by
  refine ⟨?_, rfl, rfl⟩
  have hstart : Run (InverterStep gap) s s [] := .start
  have hbegin := hstart.next (.begin hphase hmillis)
  have hlog := hbegin.next (.acceptLog rfl false)
  have hcheck := hlog.next (.check rfl wifi (Nat.le_refl _) (Nat.le_add_right _ _))
  exact hcheck.next (.scan rfl wifi (Nat.le_refl _) (Nat.le_add_right _ _))

/-- Passes of the loop without a network, three a second from `now` on. -/
def Inverter.passes (s : Inverter) (now : Nat) : Nat → Inverter × List ConnectionEvent
  | 0 => (s, [])
  | count + 1 =>
    let passed := s.pass (offline now)
    let later := passed.1.passes (now + 300) count
    (later.1, passed.2 ++ later.2)

theorem run_passes (s : Inverter) (hphase : s.phase = .idle) {now : Nat} (hnow : s.time ≤ now)
    (count : Nat) : Run (InverterStep gap) s (s.passes now count).1 (s.passes now count).2 := by
  induction count generalizing s now with
  | zero => exact .start
  | succ count ih =>
    obtain ⟨hpass, hidle, htime⟩ := run_pass s hphase (offline now) hnow
    refine hpass.trans (ih _ hidle ?_)
    rw [htime]
    exact Nat.le_add_right _ _

/-- An inverter that has fallen back tries the station again after its first pass over the
registers. -/
theorem station_retried :
    let first := homeInverter.setup (offline 11000)
    let second := first.1.passes 400000 40
    Lawful AttemptLaw ([] ++ first.2 ++ second.2) ∧
      Lawful CheckLaw ([] ++ first.2 ++ second.2) ∧
      0 + wifiStationRetryInterval * 1 ≤ second.1.time := by
  intro first second
  have hfirst : InverterStep 100000 homeInverter first.1 first.2 :=
    .setup rfl (offline 11000) (by decide) (by decide)
  have hlater : first.1.time ≤ 400000 := by decide
  have hsecond : Run (InverterStep 100000) first.1 second.1 second.2 :=
    run_passes first.1 rfl hlater 40
  have hrun := (Run.start.next hfirst).trans hsecond
  have hretried : retries ([] ++ first.2 ++ second.2) = 1 := by decide +kernel
  obtain ⟨hattempts, hchecks, htime⟩ := reconnections_timed (by decide) ⟨rfl, rfl⟩ hrun
  rw [hretried] at htime
  exact ⟨hattempts, hchecks, htime⟩

end InverterMonitor.Firmware
