import InverterMonitor.Firmware.Reconnection
import InverterMonitor.Temperature.Scans

/-!
# The connections of the temperature monitor

`setup` and `loop` of `temperature.ino` make the same connections as the inverter, but where the
inverter tries the station again, the monitor does not: it sets the time of the next retry and
never reads it.

* `handleCommand_connecting`: which lines connect;
* `NetworkedStep.inOrder`, `NetworkedStep.alone`: one statement of the loop;
* `fallback_stays`: a monitor that is its own access point remains one.
-/

namespace InverterMonitor.Temperature
open Text Cxx Runs Firmware Wire

/-! ## The loop -/

def Settings.network (s : Settings) : NetworkSettings where
  wifiSSID := s.wifiSSID
  server := ⟨s.monitorHost, s.monitorPort⟩

/-- The monitor, the real time at which its loop began, and the time now. -/
structure Networked where
  monitor : Monitor
  connections : Connections := {}
  began : Nat
  time : Nat
  phase : LoopPhase := .setup

namespace Networked

/-- `setup` -/
def setup (s : Networked) (world : World) (wifi : WifiAnswers) :
    Networked × List ConnectionEvent :=
  let monitor := Monitor.boot s.monitor.flash world
  let connected := Connections.connectToWiFi monitor.settings.network wifi {}
  ({ monitor, connections := connected.1, began := s.time, time := wifi.millis, phase := .idle },
    .booted monitor.settings.network :: .attempted .setup :: connected.2)

def handleCommand (s : Networked) (rawLine : Bytes) (world : World) (wifi : WifiAnswers) :
    Networked × List ConnectionEvent :=
  let handled := s.monitor.handleCommand world rawLine
  let network := handled.state.settings.network
  let connected := s.connections.actAll network wifi handled.log
  ({ s with monitor := handled.state, connections := connected.1, time := wifi.millis },
    .handled rawLine world.committed network :: connected.2)

def check (s : Networked) (wifi : WifiAnswers) : Networked × List ConnectionEvent :=
  let checked := s.connections.check s.monitor.settings.network s.began wifi
  ({ s with connections := checked.1, time := wifi.millis, phase := .monitor }, checked.2)

end Networked

/-- The statements of `setup` and `loop`, with passes of the loop that take no longer than
`gap`. -/
inductive NetworkedStep (gap : Nat) (s : Networked) : Networked → List ConnectionEvent → Prop
  | setup (hphase : s.phase = .setup) (world : World) (wifi : WifiAnswers)
      (hmillis : s.time ≤ wifi.millis) (hgap : wifi.millis ≤ s.time + gap) :
      NetworkedStep gap s (s.setup world wifi).1 (s.setup world wifi).2
  | begin (hphase : s.phase = .idle) {now : Nat} (hnow : s.time ≤ now) (waiting : Bool) :
      NetworkedStep gap s
        { s with
          connections :=
            { s.connections with logClient := s.connections.logClient || waiting }
          began := now, time := now, phase := .log } []
  | line (htakes : s.phase.Takes s.connections) (rawLine : Bytes) (world : World)
      (wifi : WifiAnswers) (hmillis : s.time ≤ wifi.millis)
      (hgap : wifi.millis ≤ s.began + gap) :
      NetworkedStep gap s (s.handleCommand rawLine world wifi).1
        (s.handleCommand rawLine world wifi).2
  | check (hphase : s.phase = .log) (wifi : WifiAnswers) (hmillis : s.time ≤ wifi.millis)
      (hgap : wifi.millis ≤ s.began + gap) :
      NetworkedStep gap s (s.check wifi).1 (s.check wifi).2
  | scan (hphase : s.phase = .monitor) (getTempC : DeviceAddress → Float) {later : Nat}
      (hlater : s.time ≤ later) (hgap : later ≤ s.began + gap) :
      NetworkedStep gap s
        { s with
          monitor := (s.monitor.scan (UInt32.ofNat s.began) getTempC).1
          time := later, phase := .idle } []
  | lose (hphase : s.phase ≠ .setup) :
      NetworkedStep gap s
        { s with connections := { s.connections with monitorClient := none } } [.lost]
  | loseLog (hphase : s.phase ≠ .setup) :
      NetworkedStep gap s
        { s with connections := { s.connections with logClient := false } } []

/-! ## Which lines connect -/

theorem handleWifi_connecting (m : Monitor) (world : World) (remainder : Bytes) :
    Connecting ((isWifi (parseWifi remainder) && world.committed) = true)
      ((handleWifi world remainder).execute m).log := by
  unfold handleWifi parseWifi Procedure.execute
  cases twoArguments "invalid WIFI format, expected 'WIFI [ssid] [password]'" remainder with
  | error message => exact .quiet (List.forall_mem_singleton.mpr (by simp [Action.Connects]))
  | ok args =>
    obtain ⟨newSsid, newPass⟩ := args
    simp only [TemperatureHandler.check, Procedure.run_bind, Procedure.run_check_ok, ok_bind]
    split
    · exact .quiet (List.forall_mem_singleton.mpr (by simp [Action.Connects]))
    · next hlength =>
      have hfits := cString_fits hlength
      cases hcommit : world.committed with
      | false =>
        refine .quiet ?_
        simp [TemperatureHandler.saveWiFiCredentials, Procedure.run_bind, hcommit, hfits,
          Action.Connects]
      | true =>
        have hlog : Connecting ((isWifi (.ok (.wifi newSsid newPass)) && true) = true)
            ([.copy .wifiSSID (cString newSsid), .copy .wifiPassword (cString newPass),
              .print (tcpCmd "WIFI credentials updated, reconnecting...")] ++
              [.connectToWiFi]) :=
          .network (by simp [Action.Connects]) rfl
        simpa [TemperatureHandler.saveWiFiCredentials, Procedure.run_bind, hcommit, hfits] using hlog

theorem handleHost_connecting (wifi : Prop) (m : Monitor) (world : World) (remainder : Bytes) :
    Connecting wifi ((handleHost world remainder).execute m).log := by
  unfold handleHost Procedure.execute
  cases twoArguments "invalid HOST format, expected 'HOST [address] [port]'" remainder with
  | error message => exact .quiet (List.forall_mem_singleton.mpr (by simp [Action.Connects]))
  | ok args =>
    obtain ⟨newHost, newPort⟩ := args
    simp only [TemperatureHandler.check, Procedure.run_bind, Procedure.run_check_ok]
    split
    · exact .quiet (List.forall_mem_singleton.mpr (by simp [Action.Connects]))
    · next hlength =>
      cases strtoul32 newPort with
      | none => exact .quiet (List.forall_mem_singleton.mpr (by simp [Action.Connects]))
      | some rawPort =>
        simp only
        split
        · exact .quiet (List.forall_mem_singleton.mpr (by simp [Action.Connects]))
        · have hfits := cString_fits hlength
          cases hcommit : world.committed with
          | false =>
            refine .quiet ?_
            simp [TemperatureHandler.saveMonitorServer, Procedure.run_bind, hcommit, hfits,
              Action.Connects]
          | true =>
            have hlog : Connecting wifi
                ([.copy .monitorHost (cString newHost), .copy .monitorPortString (cString newPort),
                  .print (printed (tcpCmd "monitor host updated to " ++ cString newHost ++
                    ascii ":" ++ cString newPort))] ++ [.connectToMonitorServer]) :=
              .server (by simp [Action.Connects])
            simpa [TemperatureHandler.saveMonitorServer, Procedure.run_bind, hcommit, hfits]
              using hlog

/-- A line connects when its settings were saved. -/
theorem handleCommand_connecting (m : Monitor) (world : World) (rawLine : Bytes) :
    Connecting (resets world rawLine = true) (m.handleCommand world rawLine).log := by
  unfold Monitor.handleCommand handleCommandLine resets settingsCommand
  simp only
  by_cases hempty : trim rawLine = []
  · simp only [hempty, ↓reduceIte]
    exact .quiet (List.forall_mem_nil _)
  · simp only [hempty, ↓reduceIte]
    cases hwifi : afterStart (ascii "WIFI ") (trim rawLine) with
    | some remainder => exact handleWifi_connecting m world remainder
    | none =>
      cases hhost : afterStart (ascii "HOST ") (trim rawLine) with
      | some remainder => exact handleHost_connecting _ m world remainder
      | none =>
        refine .quiet ?_
        change ∀ action ∈ (Procedure.execute
          (if trim rawLine = ascii "DETECT" then handleDetect world else pure ()) m).log,
            ¬action.Connects
        by_cases hdetect : trim rawLine = ascii "DETECT"
        · rw [if_pos hdetect]
          simp [handleDetect, Procedure.execute, Procedure.run_bind, Action.Connects]
        · rw [if_neg hdetect]
          exact List.forall_mem_nil _

/-- The inverter takes the line in the same way. -/
theorem savedWifi_of_resets {world : World} {rawLine : Bytes} (h : resets world rawLine = true) :
    SavedWifi rawLine world.committed := by
  have hsame := parseCommandLine_settings rawLine
  rw [resets, Bool.and_eq_true] at h
  obtain ⟨hwifi, hcommitted⟩ := h
  cases hcommand : settingsCommand rawLine with
  | none =>
    rw [hcommand] at hwifi
    cases hwifi
  | some parsed =>
    rw [hcommand] at hwifi hsame
    rw [Option.any_some] at hwifi
    unfold isWifi at hwifi
    split at hwifi
    · exact ⟨hcommitted, _, _, hsame⟩
    · cases hwifi

/-! ## Runs -/

variable {gap : Nat} {start s s' : Networked} {history events : List ConnectionEvent}

/-- The connections of the monitor are in order. -/
def Networked.InOrder (gap start : Nat) (s : Networked) (history : List ConnectionEvent) : Prop :=
  s.phase ≠ .setup ∧
    Linked start gap s.monitor.settings.network s.connections s.began s.time history

theorem setup_inOrder (s : Networked) (world : World) {wifi : WifiAnswers}
    (hmillis : s.time ≤ wifi.millis) (hgap : wifi.millis ≤ s.time + gap) :
    (s.setup world wifi).1.InOrder gap s.time (s.setup world wifi).2 := by
  let network := (Monitor.boot s.monitor.flash world).settings.network
  have hbooted : Linked s.time gap network {} s.time wifi.millis _ :=
    Linked.booted network hmillis hmillis hgap
  have hcause : AttemptLaw [.booted network] (.attempted .setup) := ⟨network, rfl⟩
  exact ⟨LoopPhase.noConfusion,
    hbooted.afterWiFi (fun _ => hcause) (fun hretry => absurd hretry Bool.false_ne_true) rfl⟩

/-- The step lemma. -/
theorem NetworkedStep.inOrder {origin : Nat} (hstep : NetworkedStep gap s s' events)
    (h : s.InOrder gap origin history) : s'.InOrder gap origin (history ++ events) := by
  obtain ⟨hphase, hlinked⟩ := h
  cases hstep with
  | setup hsetup => exact absurd hsetup hphase
  | begin _ hnow waiting =>
    rw [List.append_nil]
    exact ⟨LoopPhase.noConfusion, (hlinked.begin hnow).log _⟩
  | line htakes rawLine world wifi hmillis hlate =>
    have hconnects : Connecting (SavedWifi rawLine world.committed)
        (s.monitor.handleCommand world rawLine).log :=
      (handleCommand_connecting s.monitor world rawLine).append (List.forall_mem_nil _)
        savedWifi_of_resets
    exact ⟨hphase, (hlinked.later hmillis hlate).afterLine hconnects rfl⟩
  | check _ wifi hmillis hlate =>
    exact ⟨LoopPhase.noConfusion, (hlinked.later hmillis hlate).afterCheck wifi⟩
  | scan _ getTempC hlater hlate =>
    rw [List.append_nil]
    have hsettings : (s.monitor.scan (UInt32.ofNat s.began) getTempC).1.settings =
        s.monitor.settings := by
      unfold Monitor.scan
      split <;> rfl
    refine ⟨LoopPhase.noConfusion, ?_⟩
    change Linked _ _ (s.monitor.scan (UInt32.ofNat s.began) getTempC).1.settings.network _ _ _ _
    rw [hsettings]
    exact hlinked.later hlater hlate
  | lose => exact ⟨hphase, hlinked.lost⟩
  | loseLog =>
    rw [List.append_nil]
    exact ⟨hphase, hlinked.log false⟩

/-- A monitor that is about to start. -/
def Networked.Starts (s : Networked) : Prop := s.phase = .setup ∧ s.connections = {}

/-- The run lemma. -/
theorem run_inOrder (hstart : start.Starts) (hrun : Run (NetworkedStep gap) start s history) :
    s = start ∧ history = [] ∨ s.InOrder gap start.time history := by
  refine hrun.invariant (P := fun s history =>
    s = start ∧ history = [] ∨ s.InOrder gap start.time history) (Or.inl ⟨rfl, rfl⟩) ?_
  intro s s' history events h hstep
  rcases h with ⟨rfl, rfl⟩ | h
  · cases hstep with
    | setup _ world wifi hmillis hlate => exact Or.inr (setup_inOrder s world hmillis hlate)
    | begin hphase => cases hstart.1.symm.trans hphase
    | line htakes =>
      rw [hstart.1] at htakes
      exact htakes.elim
    | check hphase => cases hstart.1.symm.trans hphase
    | scan hphase => cases hstart.1.symm.trans hphase
    | lose hphase => exact absurd hstart.1 hphase
    | loseLog hphase => exact absurd hstart.1 hphase
  · exact Or.inr (hstep.inOrder h)

/-- The monitor is its own access point, and no server can be connected. -/
def Networked.Alone (s : Networked) : Prop :=
  s.phase ≠ .setup ∧ s.connections.mode = .accessPoint ∧ s.connections.monitorClient = none

/-- Saved credentials among the lines that were handled. -/
def JoinsAgain (history : List ConnectionEvent) : Prop :=
  ∃ rawLine committed network, .handled rawLine committed network ∈ history ∧
    SavedWifi rawLine committed

theorem joinsAgain_append :
    JoinsAgain (history ++ events) ↔ JoinsAgain history ∨ JoinsAgain events := by
  simp only [JoinsAgain, List.mem_append, or_and_right, exists_or]

theorem NetworkedStep.alone (hstep : NetworkedStep gap s s' events) (h : s.Alone)
    (hquiet : ¬JoinsAgain events) : s'.Alone := by
  obtain ⟨hphase, hpoint, hnone⟩ := h
  have hstatus : ∀ reading, s.connections.status reading = false := by
    intro reading
    rw [Connections.status, hpoint]
    rfl
  cases hstep with
  | setup hsetup => exact absurd hsetup hphase
  | begin => exact ⟨LoopPhase.noConfusion, hpoint, hnone⟩
  | line htakes rawLine world wifi =>
    have hconnects := handleCommand_connecting s.monitor world rawLine
    have hnot : ¬resets world rawLine = true := fun hresets =>
      hquiet ⟨rawLine, world.committed, _, List.mem_cons_self .., savedWifi_of_resets hresets⟩
    refine ⟨hphase, ?_⟩
    unfold Networked.handleCommand
    dsimp only
    generalize (s.monitor.handleCommand world rawLine).log = log at hconnects
    cases hconnects with
    | quiet hlog =>
      rw [← List.append_nil log, Connections.actAll_append hlog]
      exact ⟨hpoint, hnone⟩
    | network _ hwifi => exact absurd hwifi hnot
    | server hlog =>
      rw [Connections.actAll_append hlog, Connections.actAll_single, Connections.act,
        Connections.connectToMonitorServer_offline (hstatus _)]
      exact ⟨hpoint, hnone⟩
  | check _ wifi =>
    refine ⟨LoopPhase.noConfusion, ?_⟩
    unfold Networked.check Connections.check
    rw [hstatus]
    exact ⟨hpoint, hnone⟩
  | scan => exact ⟨LoopPhase.noConfusion, hpoint, hnone⟩
  | lose => exact ⟨hphase, hpoint, rfl⟩
  | loseLog => exact ⟨hphase, hpoint, hnone⟩

/-- A monitor that is its own access point remains one, without a connection, until credentials
are saved. -/
theorem run_alone (h : s.Alone) (hrun : Run (NetworkedStep gap) s s' events)
    (hquiet : ¬JoinsAgain events) : s'.Alone := by
  have hstays : ¬JoinsAgain events → s'.Alone := by
    refine hrun.invariant (P := fun s events => ¬JoinsAgain events → s.Alone) (fun _ => h) ?_
    intro s s' history events ih hstep hquiet
    rw [joinsAgain_append, not_or] at hquiet
    exact hstep.alone (ih hquiet.1) hquiet.2
  exact hstays hquiet

/-- In every run of the monitor: a connection is made by a station that has none, to the server of
its settings; and when the monitor has become its own access point, it remains one, without a
connection, until credentials are saved. -/
theorem fallback_stays (hstart : start.Starts) (hrun : Run (NetworkedStep gap) start s history) :
    Lawful ServerLaw history ∧
      (s.connections.mode = .accessPoint → ∀ s' events, Run (NetworkedStep gap) s s' events →
        ¬JoinsAgain events →
          s'.connections.mode = .accessPoint ∧ s'.connections.monitorClient = none) := by
  rcases run_inOrder hstart hrun with ⟨rfl, rfl⟩ | ⟨hphase, h⟩
  · refine ⟨.nil, fun hpoint => ?_⟩
    rw [hstart.2] at hpoint
    cases hpoint
  · refine ⟨h.server_lawful, fun hpoint s' events hrest hquiet => ?_⟩
    have hnone : s.connections.monitorClient = none := by
      by_contra hclient
      cases hpoint.symm.trans (h.station hclient)
    exact (run_alone ⟨hphase, hpoint, hnone⟩ hrest hquiet).2

/-- A monitor that knows a network and a server. -/
def atHome : Networked where
  monitor := .boot homeEeprom (emptyBus true)
  began := 0
  time := 0

/-- The monitor is connected, falls back after a `WIFI` command, and does not join its new network
when that appears. -/
theorem network_returns :
    let first := atHome.setup (emptyBus true) (online 1000)
    let log : Networked :=
      { first.1 with
        connections := { first.1.connections with logClient := first.1.connections.logClient || true }
        began := first.1.time, time := first.1.time, phase := .log }
    let second := log.handleCommand (ascii "WIFI other secret") (emptyBus true) (offline 12000)
    let third := second.1.check (online 13000)
    let history := [] ++ first.2 ++ [] ++ second.2
    .connected ⟨ascii "home", 16670⟩ ∈ history ∧ Lawful ServerLaw history ∧
      third.1.connections.mode = .accessPoint ∧ third.1.connections.monitorClient = none := by
  intro first log second third history
  have hfirst : NetworkedStep 100000 atHome first.1 first.2 :=
    .setup rfl (emptyBus true) (online 1000) (by decide) (by decide)
  have hlog : NetworkedStep 100000 first.1 log [] := .begin rfl (Nat.le_refl _) true
  have htakes : log.phase.Takes log.connections := by simp [log, LoopPhase.Takes]
  have hlate : (offline 12000).millis ≤ log.began + 100000 := by
    change 12000 ≤ 1000 + 100000
    decide
  have hsecond : NetworkedStep 100000 log second.1 second.2 :=
    .line htakes _ _ _ (by decide) hlate
  have hlater : (online 13000).millis ≤ second.1.began + 100000 := by
    change 13000 ≤ 1000 + 100000
    decide
  have hthird : NetworkedStep 100000 second.1 third.1 third.2 := .check rfl _ (by decide) hlater
  have hevents : third.2 = [] := by decide +kernel
  have hquiet : ¬JoinsAgain ([] ++ third.2) := by
    rw [hevents]
    rintro ⟨rawLine, committed, network, hmem, -⟩
    cases hmem
  obtain ⟨hlawful, hstays⟩ :=
    fallback_stays ⟨rfl, rfl⟩ (((Run.start.next hfirst).next hlog).next hsecond)
  exact ⟨by decide +kernel, hlawful,
    hstays (by decide +kernel) _ _ (Run.start.next hthird) hquiet⟩

end InverterMonitor.Temperature
