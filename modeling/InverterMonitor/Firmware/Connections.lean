import InverterMonitor.Firmware.Device

/-!
# The connections of the firmwares

`connectToWiFi` and `connectToMonitorServer`, which stand in both sketches with the same text, and
the check of the connection in their loops.  The WiFi library tells whether the station is
connected, whether a server takes a connection, and when a call has ended.

* `due_of_elapsed`: what a timer says that may be checked late;
* `Linked`: what the connections have to do with the events so far;
* `Linked.actAll`, `Linked.check`: lines and checks keep it.
-/

namespace InverterMonitor.Firmware
open Text Runs

/-! ## State and events -/

/-- `WiFi.getMode()` -/
inductive WifiMode
  | off
  | station
  | accessPoint
  deriving DecidableEq, Repr

structure MonitorServer where
  host : Bytes
  port : UInt16
  deriving DecidableEq, Repr

/-- The settings that a connection needs. -/
structure NetworkSettings where
  wifiSSID : Bytes
  server : MonitorServer
  deriving DecidableEq, Repr

/-- The global variables; `monitorClient` is the server that it is connected to. -/
structure Connections where
  mode : WifiMode := .off
  logClient : Bool := false
  monitorClient : Option MonitorServer := none
  nextMonitorConnectionCheckTime : UInt32 := 0
  nextWifiStationRetryTime : UInt32 := 0
  deriving DecidableEq, Repr

/-- What the library answers during a call. -/
structure WifiAnswers where
  /-- The readings of `WiFi.status()`, in a station. -/
  connected : Nat → Bool
  /-- The result of `connect`. -/
  connects : Bool
  /-- The real time at the end, of which `millis()` is the remainder. -/
  millis : Nat

/-- Why `connectToWiFi` is called. -/
inductive Cause
  | setup
  | command
  | retry (now : Nat)
  deriving DecidableEq, Repr

inductive ConnectionEvent
  /-- `setup` has loaded the settings. -/
  | booted (settings : NetworkSettings)
  /-- A line was handled, with this result of `EEPROM.commit`. -/
  | handled (rawLine : Bytes) (committed : Bool) (settings : NetworkSettings)
  | attempted (cause : Cause)
  | joined
  | fellBack (time : Nat)
  | connected (server : MonitorServer)
  | refused (server : MonitorServer)
  | lost
  /-- A connected station came to the check, and it was due or not. -/
  | checked (now : Nat) (due : Bool)
  /-- A pass over the control registers ended, and no station was tried. -/
  | controlPassEnded (now : Nat)
  deriving DecidableEq, Repr

/-! ## The functions -/

def maxWifiAttempts : Nat := 20
def wifiStationRetryInterval : Nat := 300000
def monitorConnectionCheckInterval : Nat := 60000

namespace Connections

/-- `WiFi.status() == WL_CONNECTED`, which no other mode reads. -/
def status (c : Connections) (reading : Bool) : Bool := decide (c.mode = .station) && reading

def connectToMonitorServer (server : MonitorServer) (reading connects : Bool) (c : Connections) :
    Connections × List ConnectionEvent :=
  if server.host = [] ∨ server.port = 0 then (c, [])
  else if c.monitorClient.isSome then (c, [])
  else if c.status reading = false then (c, [])
  else if connects then ({ c with monitorClient := some server }, [.connected server])
  else ({ c with monitorClient := none }, [.refused server])

/-- The loop that waits for the station: how many readings it takes. -/
def awaitStation (connected : Nat → Bool) : Nat → Nat → Nat
  | 0, reading => reading + 1
  | attempts + 1, reading =>
    if connected reading then reading + 1 else awaitStation connected attempts (reading + 1)

def connectToWiFi (settings : NetworkSettings) (wifi : WifiAnswers) (c : Connections) :
    Connections × List ConnectionEvent :=
  -- Both clients are stopped, and the station is switched off.
  let c := { c with mode := .off, logClient := false, monitorClient := none }
  let readings := awaitStation wifi.connected maxWifiAttempts 0
  if settings.wifiSSID ≠ [] ∧ wifi.connected readings = true then
    let connected := connectToMonitorServer settings.server (wifi.connected (readings + 1))
      wifi.connects { c with mode := .station }
    (connected.1, .joined :: connected.2)
  else
    ({ c with
        mode := .accessPoint
        nextWifiStationRetryTime :=
          UInt32.ofNat wifi.millis + wifiStationRetryInterval.toUInt32 },
      [.fellBack wifi.millis])

/-- The check in `loop`, which began at `now`. -/
def check (settings : NetworkSettings) (now : Nat) (wifi : WifiAnswers) (c : Connections) :
    Connections × List ConnectionEvent :=
  if c.status (wifi.connected 0) then
    if timeHasElapsed (UInt32.ofNat now) c.nextMonitorConnectionCheckTime then
      let c := { c with
        nextMonitorConnectionCheckTime :=
          UInt32.ofNat now + monitorConnectionCheckInterval.toUInt32 }
      if c.monitorClient.isSome then (c, [.checked now true])
      else
        let connected :=
          connectToMonitorServer settings.server (wifi.connected 1) wifi.connects c
        (connected.1, .checked now true :: connected.2)
    else (c, [.checked now false])
  else (c, [])

/-- What an action of `handleCommand` does to the connections. -/
def act (settings : NetworkSettings) (wifi : WifiAnswers) (c : Connections) :
    Action → Connections × List ConnectionEvent
  | .connectToWiFi =>
    let connected := c.connectToWiFi settings wifi
    (connected.1, .attempted .command :: connected.2)
  | .connectToMonitorServer =>
    c.connectToMonitorServer settings.server (wifi.connected 0) wifi.connects
  | _ => (c, [])

def actAll (settings : NetworkSettings) (wifi : WifiAnswers) (c : Connections) :
    List Action → Connections × List ConnectionEvent
  | [] => (c, [])
  | action :: actions =>
    let acted := c.act settings wifi action
    let later := acted.1.actAll settings wifi actions
    (later.1, acted.2 ++ later.2)

end Connections

/-! ## What the events tell -/

namespace ConnectionEvent

def settings? : ConnectionEvent → Option NetworkSettings
  | .booted settings => some settings
  | .handled _ _ settings => some settings
  | _ => none

def mode : ConnectionEvent → WifiMode → WifiMode
  | .attempted _, _ => .off
  | .joined, _ => .station
  | .fellBack _, _ => .accessPoint
  | _, mode => mode

def standing : ConnectionEvent → Option MonitorServer → Option MonitorServer
  | .connected server, _ => some server
  | .attempted _, _ => none
  | .refused _, _ => none
  | .lost, _ => none
  | _, standing => standing

def fallback? : ConnectionEvent → Option Nat
  | .fellBack time => some time
  | _ => none

def check? : ConnectionEvent → Option Nat
  | .checked now true => some now
  | _ => none

def isRetry : ConnectionEvent → Bool
  | .attempted (.retry _) => true
  | _ => false

end ConnectionEvent

section After

variable (history : List ConnectionEvent)

def settingsAfter : Option NetworkSettings := last ConnectionEvent.settings? history

def modeAfter : WifiMode := follow ConnectionEvent.mode history .off

/-- The server at the other end of the standing connection. -/
def standingAfter : Option MonitorServer := follow ConnectionEvent.standing history none

def lastFallback : Option Nat := last ConnectionEvent.fallback? history

/-- When the next check is due. -/
def checkDue : Nat :=
  (last ConnectionEvent.check? history).elim 0 (· + monitorConnectionCheckInterval)

/-- How often the station was tried again after a fallback. -/
def retries : Nat := history.countP ConnectionEvent.isRetry

variable {history} (event : ConnectionEvent)

theorem settingsAfter_concat :
    settingsAfter (history ++ [event]) = event.settings?.or (settingsAfter history) :=
  last_concat ..

theorem modeAfter_concat : modeAfter (history ++ [event]) = event.mode (modeAfter history) :=
  follow_append ..

theorem standingAfter_concat :
    standingAfter (history ++ [event]) = event.standing (standingAfter history) :=
  follow_append ..

theorem lastFallback_concat :
    lastFallback (history ++ [event]) = event.fallback?.or (lastFallback history) :=
  last_concat ..

theorem checkDue_concat : checkDue (history ++ [event]) =
    event.check?.elim (checkDue history) (· + monitorConnectionCheckInterval) := by
  rw [checkDue, last_concat]
  cases event.check? <;> rfl

theorem retries_concat :
    retries (history ++ [event]) = retries history + if event.isRetry then 1 else 0 := by
  rw [retries, List.countP_append, List.countP_singleton]
  rfl

theorem retries_other {event : ConnectionEvent} (h : event.isRetry = false) :
    retries (history ++ [event]) = retries history := by
  rw [retries_concat, h]
  rfl

end After

/-- The event leaves a standing connection alone. -/
def ConnectionEvent.Spares (event : ConnectionEvent) : Prop :=
  ∀ standing, event.standing standing = standing

/-- A connection to the server was made, and has not been touched since. -/
def Holding (server : MonitorServer) (history : List ConnectionEvent) : Prop :=
  ∃ before after, history = before ++ .connected server :: after ∧ ∀ event ∈ after, event.Spares

theorem Holding.concat {server : MonitorServer} {history : List ConnectionEvent}
    (h : Holding server history) {event : ConnectionEvent} (hspares : event.Spares) :
    Holding server (history ++ [event]) := by
  obtain ⟨before, after, rfl, hafter⟩ := h
  refine ⟨before, after ++ [event], by simp, fun e he => ?_⟩
  rcases List.mem_append.mp he with he | he
  · exact hafter e he
  · rw [List.mem_singleton.mp he]
    exact hspares

theorem holding_of_standing {history : List ConnectionEvent} {server : MonitorServer}
    (h : standingAfter history = some server) : Holding server history := by
  induction history using List.reverseRecOn with
  | nil => cases h
  | append_singleton history event ih =>
    rw [standingAfter_concat] at h
    cases event with
    | connected connected =>
      cases h
      exact ⟨history, [], rfl, List.forall_mem_nil _⟩
    | attempted cause => cases h
    | refused refused => cases h
    | lost => cases h
    | booted settings => exact (ih h).concat fun _ => rfl
    | handled rawLine committed settings => exact (ih h).concat fun _ => rfl
    | joined => exact (ih h).concat fun _ => rfl
    | fellBack time => exact (ih h).concat fun _ => rfl
    | checked now due => exact (ih h).concat fun _ => rfl
    | controlPassEnded now => exact (ih h).concat fun _ => rfl

/-! ## Laws -/

/-- What a timer says that is due at `due` and read at `now`: nothing before, and that it is due
for half a turn of the clock. -/
structure Due (due now : Nat) (elapsed : Bool) : Prop where
  notEarly : elapsed = true → due ≤ now
  notLate : due ≤ now → now < due + 2 ^ 31 → elapsed = true

theorem due_of_elapsed {due now : Nat} (hnear : due ≤ now + 2 ^ 31) :
    Due due now (timeHasElapsed (UInt32.ofNat now) (UInt32.ofNat due)) := by
  refine ⟨fun helapsed => ?_, fun hdue hlate => timeHasElapsed_of_le hdue hlate⟩
  by_contra hearly
  have hwrong := (timeHasElapsed_early (by omega) (by omega)).mp helapsed
  omega

/-- A station that has no connection makes one to the server of its settings. -/
def ServerLaw (before : List ConnectionEvent) : ConnectionEvent → Prop
  | .connected server =>
    standingAfter before = none ∧ modeAfter before = .station ∧
      server.host ≠ [] ∧ server.port ≠ 0 ∧
      ∃ wifiSSID, settingsAfter before = some ⟨wifiSSID, server⟩
  | _ => True

def CheckLaw (before : List ConnectionEvent) : ConnectionEvent → Prop
  | .checked now due => Due (checkDue before) now due
  | _ => True

/-- The device is its own access point although it knows a network. -/
def CanRetry (before : List ConnectionEvent) : Prop :=
  modeAfter before = .accessPoint ∧ ∃ settings ∈ settingsAfter before, settings.wifiSSID ≠ []

def SavedWifi (rawLine : Bytes) (committed : Bool) : Prop :=
  committed = true ∧ ∃ newSsid newPass, parseCommandLine rawLine = .ok (.wifi newSsid newPass)

/-- Why a station is tried, and when it is not. -/
def AttemptLaw (before : List ConnectionEvent) : ConnectionEvent → Prop
  | .attempted .setup => ∃ settings, before = [.booted settings]
  | .attempted .command => ∃ rawLine committed settings,
      before.getLast? = some (.handled rawLine committed settings) ∧ SavedWifi rawLine committed
  | .attempted (.retry now) =>
    CanRetry before ∧ ∀ time ∈ lastFallback before, time + wifiStationRetryInterval ≤ now
  | .controlPassEnded now =>
    CanRetry before → ∀ time ∈ lastFallback before, time + wifiStationRetryInterval ≤ now →
      time + wifiStationRetryInterval + 2 ^ 31 ≤ now
  | _ => True

/-! ## The invariant -/

/-- In passes of the loop no longer than `gap` the time of the next retry is read before the clock
has made half a turn. -/
def Brisk (gap : Nat) : Prop := gap + wifiStationRetryInterval ≤ 2 ^ 31

/-- What the connections have to do with the events since `start`; the loop began at `began`, it
is `time`, and no pass of the loop takes longer than `gap`. -/
structure Linked (start gap : Nat) (settings : NetworkSettings) (c : Connections)
    (began time : Nat) (history : List ConnectionEvent) : Prop where
  settings : settingsAfter history = some settings
  mode : c.mode = modeAfter history
  client : c.monitorClient = standingAfter history
  station : c.monitorClient ≠ none → c.mode = .station
  check : c.nextMonitorConnectionCheckTime = UInt32.ofNat (checkDue history)
  checked : checkDue history ≤ began + monitorConnectionCheckInterval
  retry : c.mode = .accessPoint → ∃ fallback ∈ lastFallback history,
    c.nextWifiStationRetryTime = UInt32.ofNat (fallback + wifiStationRetryInterval) ∧
      (Brisk gap → start + wifiStationRetryInterval * retries history ≤ fallback) ∧
      fallback ≤ time
  spaced : Brisk gap → start + wifiStationRetryInterval * retries history ≤ time
  began_le : began ≤ time
  le_began : time ≤ began + gap
  server_lawful : Lawful ServerLaw history
  check_lawful : Lawful CheckLaw history
  attempt_lawful : Brisk gap → Lawful AttemptLaw history

namespace Linked

variable {start gap began time : Nat} {settings : NetworkSettings} {c : Connections}
  {history : List ConnectionEvent}

/-- Time passes in a pass of the loop. -/
theorem later (h : Linked start gap settings c began time history) {later : Nat}
    (htime : time ≤ later) (hlate : later ≤ began + gap) :
    Linked start gap settings c began later history where
  settings := h.settings
  mode := h.mode
  client := h.client
  station := h.station
  check := h.check
  checked := h.checked
  retry hmode := by
    obtain ⟨fallback, hfallback, hnext, hspaced, hpast⟩ := h.retry hmode
    exact ⟨fallback, hfallback, hnext, hspaced, hpast.trans htime⟩
  spaced hbrisk := (h.spaced hbrisk).trans htime
  began_le := h.began_le.trans htime
  le_began := hlate
  server_lawful := h.server_lawful
  check_lawful := h.check_lawful
  attempt_lawful := h.attempt_lawful

/-- The next pass of the loop begins. -/
theorem begin (h : Linked start gap settings c began time history) {now : Nat}
    (hnow : time ≤ now) : Linked start gap settings c now now history where
  settings := h.settings
  mode := h.mode
  client := h.client
  station := h.station
  check := h.check
  checked := h.checked.trans (Nat.add_le_add_right (h.began_le.trans hnow) _)
  retry hmode := by
    obtain ⟨fallback, hfallback, hnext, hspaced, hpast⟩ := h.retry hmode
    exact ⟨fallback, hfallback, hnext, hspaced, hpast.trans hnow⟩
  spaced hbrisk := (h.spaced hbrisk).trans hnow
  began_le := Nat.le_refl _
  le_began := Nat.le_add_right _ _
  server_lawful := h.server_lawful
  check_lawful := h.check_lawful
  attempt_lawful := h.attempt_lawful

/-- The step lemma for one event. -/
theorem concat (h : Linked start gap settings c began time history) (event : ConnectionEvent)
    (c' : Connections) (hmode : c'.mode = event.mode c.mode)
    (hclient : c'.monitorClient = event.standing c.monitorClient)
    (hstation : c'.monitorClient ≠ none → c'.mode = .station)
    (hcheck : c'.nextMonitorConnectionCheckTime = event.check?.elim
      c.nextMonitorConnectionCheckTime
      fun now => UInt32.ofNat (now + monitorConnectionCheckInterval))
    (hchecked : event.check?.getD 0 ≤ began)
    (hretry : c'.mode = .accessPoint →
      event.fallback? = some time ∧
          c'.nextWifiStationRetryTime = UInt32.ofNat (time + wifiStationRetryInterval) ∨
        event.fallback? = none ∧ c.mode = .accessPoint ∧
          c'.nextWifiStationRetryTime = c.nextWifiStationRetryTime)
    (hisRetry : event.isRetry = true → c'.mode = .off ∧
      (Brisk gap → start + wifiStationRetryInterval * (retries history + 1) ≤ time))
    (hserver : ServerLaw history event) (hlaw : CheckLaw history event)
    (hattempt : Brisk gap → AttemptLaw history event) :
    Linked start gap (event.settings?.getD settings) c' began time (history ++ [event]) where
  settings := by
    rw [settingsAfter_concat, h.settings]
    cases event.settings? <;> rfl
  mode := by rw [modeAfter_concat, hmode, h.mode]
  client := by rw [standingAfter_concat, hclient, h.client]
  station := hstation
  check := by
    rw [checkDue_concat, hcheck, h.check]
    cases event.check? <;> rfl
  checked := by
    rw [checkDue_concat]
    cases hevent : event.check? with
    | none => exact h.checked
    | some now =>
      rw [hevent, Option.getD_some] at hchecked
      rw [Option.elim_some]
      exact Nat.add_le_add_right hchecked _
  retry hpoint := by
    have hquiet : event.isRetry = false := by
      cases hevent : event.isRetry with
      | false => rfl
      | true => cases hpoint.symm.trans (hisRetry hevent).1
    rw [lastFallback_concat, retries_other hquiet]
    rcases hretry hpoint with ⟨hevent, hnext⟩ | ⟨hevent, hbefore, hnext⟩
    · rw [hevent]
      exact ⟨time, rfl, hnext, h.spaced, Nat.le_refl _⟩
    · rw [hevent, hnext]
      exact h.retry hbefore
  spaced hbrisk := by
    cases hevent : event.isRetry with
    | false =>
      rw [retries_other hevent]
      exact h.spaced hbrisk
    | true =>
      rw [retries_concat, hevent, if_pos rfl]
      exact (hisRetry hevent).2 hbrisk
  began_le := h.began_le
  le_began := h.le_began
  server_lawful := h.server_lawful.concat hserver
  check_lawful := h.check_lawful.concat hlaw
  attempt_lawful hbrisk := (h.attempt_lawful hbrisk).concat (hattempt hbrisk)

/-- An event that sets no timer. -/
theorem plain (h : Linked start gap settings c began time history) (event : ConnectionEvent)
    (c' : Connections) (hmode : c'.mode = event.mode c.mode)
    (hclient : c'.monitorClient = event.standing c.monitorClient)
    (hstation : c'.monitorClient ≠ none → c'.mode = .station)
    (hpoint : c'.mode = .accessPoint → c.mode = .accessPoint)
    (hcheck : c'.nextMonitorConnectionCheckTime = c.nextMonitorConnectionCheckTime)
    (hretry : c'.nextWifiStationRetryTime = c.nextWifiStationRetryTime)
    (hevent : event.check? = none ∧ event.fallback? = none ∧ event.isRetry = false)
    (hserver : ServerLaw history event) (hlaw : CheckLaw history event)
    (hattempt : Brisk gap → AttemptLaw history event) :
    Linked start gap (event.settings?.getD settings) c' began time (history ++ [event]) := by
  obtain ⟨hnocheck, hnofallback, hnoretry⟩ := hevent
  refine h.concat event c' hmode hclient hstation ?_ ?_ ?_ ?_ hserver hlaw hattempt
  · rw [hnocheck]
    exact hcheck
  · rw [hnocheck]
    exact Nat.zero_le _
  · exact fun hmode => Or.inr ⟨hnofallback, hpoint hmode, hretry⟩
  · intro hisRetry
    rw [hnoretry] at hisRetry
    cases hisRetry

/-- The settings are loaded. -/
theorem booted (settings : NetworkSettings) {start gap began time : Nat} (hstart : start ≤ time)
    (hbegan : began ≤ time) (hlate : time ≤ began + gap) :
    Linked start gap settings {} began time [.booted settings] where
  settings := rfl
  mode := rfl
  client := rfl
  station hclient := absurd rfl hclient
  check := rfl
  checked := Nat.zero_le _
  retry hmode := by cases hmode
  spaced _ := hstart
  began_le := hbegan
  le_began := hlate
  server_lawful := Lawful.nil.concat trivial
  check_lawful := Lawful.nil.concat trivial
  attempt_lawful _ := Lawful.nil.concat trivial

/-- The connection breaks. -/
theorem lost (h : Linked start gap settings c began time history) :
    Linked start gap settings { c with monitorClient := none } began time
      (history ++ [.lost]) :=
  h.plain .lost _ rfl rfl (fun hclient => absurd rfl hclient) id rfl rfl ⟨rfl, rfl, rfl⟩ trivial
    trivial fun _ => trivial

/-- Log clients come and go. -/
theorem log (h : Linked start gap settings c began time history) (logClient : Bool) :
    Linked start gap settings { c with logClient := logClient } began time history where
  settings := h.settings
  mode := h.mode
  client := h.client
  station := h.station
  check := h.check
  checked := h.checked
  retry := h.retry
  spaced := h.spaced
  began_le := h.began_le
  le_began := h.le_began
  server_lawful := h.server_lawful
  check_lawful := h.check_lawful
  attempt_lawful := h.attempt_lawful

theorem afterServer (h : Linked start gap settings c began time history)
    (reading connects : Bool) :
    Linked start gap settings (c.connectToMonitorServer settings.server reading connects).1 began
      time (history ++ (c.connectToMonitorServer settings.server reading connects).2) := by
  unfold Connections.connectToMonitorServer
  by_cases hserver : settings.server.host = [] ∨ settings.server.port = 0
  · rw [if_pos hserver, List.append_nil]
    exact h
  rw [if_neg hserver]
  by_cases hopen : c.monitorClient.isSome = true
  · rw [if_pos hopen, List.append_nil]
    exact h
  rw [if_neg hopen]
  by_cases hstatus : c.status reading = false
  · rw [if_pos hstatus, List.append_nil]
    exact h
  rw [if_neg hstatus]
  have hnone : c.monitorClient = none := by simpa using hopen
  have hstation : c.mode = .station := by
    simp only [Connections.status, Bool.and_eq_false_iff, decide_eq_false_iff_not, not_or,
      Decidable.not_not] at hstatus
    exact hstatus.1
  cases connects with
  | true =>
    rw [not_or] at hserver
    exact h.plain (.connected settings.server) _ rfl rfl (fun _ => hstation) id rfl rfl
      ⟨rfl, rfl, rfl⟩
      ⟨h.client ▸ hnone, h.mode ▸ hstation, hserver.1, hserver.2, _, h.settings⟩ trivial
      fun _ => trivial
  | false =>
    exact h.plain (.refused settings.server) _ rfl rfl (fun hclient => absurd rfl hclient) id rfl
      rfl ⟨rfl, rfl, rfl⟩ trivial trivial fun _ => trivial

/-- `connectToWiFi`, which has ended. -/
theorem afterWiFi (h : Linked start gap settings c began time history) {cause : Cause}
    (hcause : Brisk gap → AttemptLaw history (.attempted cause))
    (hspaced : (ConnectionEvent.attempted cause).isRetry = true → Brisk gap →
      start + wifiStationRetryInterval * (retries history + 1) ≤ time)
    {wifi : WifiAnswers} (hmillis : wifi.millis = time) :
    Linked start gap settings (c.connectToWiFi settings wifi).1 began time
      (history ++ .attempted cause :: (c.connectToWiFi settings wifi).2) := by
  have hoff : Linked start gap settings
      { c with mode := .off, logClient := false, monitorClient := none } began time
      (history ++ [.attempted cause]) :=
    h.concat (.attempted cause) _ rfl rfl (fun hclient => absurd rfl hclient) rfl (Nat.zero_le _)
      (fun hmode => by cases hmode) (fun hretry => ⟨rfl, hspaced hretry⟩) trivial trivial hcause
  rw [List.append_cons]
  unfold Connections.connectToWiFi
  dsimp only
  split
  · -- the station has joined the network
    have hstation := hoff.plain .joined
      { c with mode := .station, logClient := false, monitorClient := none }
      rfl rfl (fun _ => rfl) (fun hmode => by cases hmode) rfl rfl ⟨rfl, rfl, rfl⟩ trivial trivial
      fun _ => trivial
    rw [List.append_cons]
    exact hstation.afterServer _ _
  · refine hoff.concat (.fellBack wifi.millis) _ rfl rfl (fun hclient => absurd rfl hclient) rfl
      (Nat.zero_le _) (fun _ => Or.inl ⟨congrArg some hmillis, ?_⟩)
      (fun hretry => absurd hretry Bool.false_ne_true) trivial trivial fun _ => trivial
    rw [← hmillis]
    exact ofNat_add_interval ..

/-- The check in `loop`. -/
theorem afterCheck (h : Linked start gap settings c began time history) (wifi : WifiAnswers) :
    Linked start gap settings (c.check settings began wifi).1 began time
      (history ++ (c.check settings began wifi).2) := by
  have hdue : Due (checkDue history) began
      (timeHasElapsed (UInt32.ofNat began) c.nextMonitorConnectionCheckTime) := by
    rw [h.check]
    refine due_of_elapsed (h.checked.trans ?_)
    exact Nat.add_le_add_left (by decide) _
  unfold Connections.check
  by_cases hstatus : c.status (wifi.connected 0) = true
  swap
  · rw [if_neg hstatus, List.append_nil]
    exact h
  rw [if_pos hstatus]
  cases helapsed :
      timeHasElapsed (UInt32.ofNat began) c.nextMonitorConnectionCheckTime with
  | false =>
    rw [helapsed] at hdue
    exact h.plain (.checked began false) _ rfl rfl h.station id rfl rfl ⟨rfl, rfl, rfl⟩ trivial
      hdue fun _ => trivial
  | true =>
    rw [helapsed] at hdue
    have hnext : UInt32.ofNat began + monitorConnectionCheckInterval.toUInt32 =
        UInt32.ofNat (began + monitorConnectionCheckInterval) := ofNat_add_interval ..
    have hchecked := h.concat (.checked began true)
      { c with
        nextMonitorConnectionCheckTime :=
          UInt32.ofNat began + monitorConnectionCheckInterval.toUInt32 }
      rfl rfl h.station hnext (Nat.le_refl _) (fun hmode => Or.inr ⟨rfl, hmode, rfl⟩)
      (fun hretry => absurd hretry Bool.false_ne_true) trivial hdue fun _ => trivial
    rw [if_pos rfl]
    dsimp only
    split
    · exact hchecked
    · rw [List.append_cons]
      exact hchecked.afterServer _ _

end Linked

/-! ## Lines -/

/-- The action is a call of a connection function. -/
def Action.Connects (action : Action) : Prop :=
  action = .connectToWiFi ∨ action = .connectToMonitorServer

/-- The log of a line: it connects at its end, if at all, and to a network only when `wifi`. -/
inductive Connecting (wifi : Prop) : List Action → Prop
  | quiet {log : List Action} (hlog : ∀ action ∈ log, ¬action.Connects) : Connecting wifi log
  | network {log : List Action} (hlog : ∀ action ∈ log, ¬action.Connects) (hwifi : wifi) :
      Connecting wifi (log ++ [.connectToWiFi])
  | server {log : List Action} (hlog : ∀ action ∈ log, ¬action.Connects) :
      Connecting wifi (log ++ [.connectToMonitorServer])

namespace Connections

variable {settings : NetworkSettings} {wifi : WifiAnswers} {c : Connections}

/-- Nothing is connected but a station. -/
theorem connectToMonitorServer_offline {reading : Bool} (h : c.status reading = false)
    (server : MonitorServer) (connects : Bool) :
    c.connectToMonitorServer server reading connects = (c, []) := by
  unfold connectToMonitorServer
  rw [if_pos h, ite_self, ite_self]

theorem act_quiet {action : Action} (h : ¬action.Connects) :
    c.act settings wifi action = (c, []) := by
  unfold act
  split
  · exact absurd (Or.inl rfl) h
  · exact absurd (Or.inr rfl) h
  · rfl

theorem actAll_append {log later : List Action} (hlog : ∀ action ∈ log, ¬action.Connects) :
    c.actAll settings wifi (log ++ later) = c.actAll settings wifi later := by
  induction log with
  | nil => rfl
  | cons action log ih =>
    rw [List.cons_append, actAll, act_quiet (hlog action (by simp))]
    exact ih fun a ha => hlog a (by simp [ha])

theorem actAll_single (action : Action) :
    c.actAll settings wifi [action] = c.act settings wifi action := by
  simp [actAll]

end Connections

/-- A line that has been handled. -/
theorem Linked.afterLine {start gap began time : Nat} {settings settings' : NetworkSettings}
    {c : Connections} {history : List ConnectionEvent}
    (h : Linked start gap settings c began time history) {rawLine : Bytes} {committed : Bool}
    {log : List Action} (hlog : Connecting (SavedWifi rawLine committed) log)
    {wifi : WifiAnswers} (hmillis : wifi.millis = time) :
    Linked start gap settings' (c.actAll settings' wifi log).1 began time
      (history ++ .handled rawLine committed settings' :: (c.actAll settings' wifi log).2) := by
  have hhandled : Linked start gap settings' c began time
      (history ++ [.handled rawLine committed settings']) :=
    h.plain (.handled rawLine committed settings') c rfl rfl h.station id rfl rfl ⟨rfl, rfl, rfl⟩
      trivial trivial fun _ => trivial
  rw [List.append_cons]
  cases hlog with
  | quiet hquiet =>
    rw [← List.append_nil log, Connections.actAll_append hquiet]
    exact (List.append_nil _).symm ▸ hhandled
  | network hquiet hwifi =>
    rw [Connections.actAll_append hquiet, Connections.actAll_single]
    have hcause : AttemptLaw (history ++ [.handled rawLine committed settings'])
        (.attempted .command) :=
      ⟨rawLine, committed, settings', List.getLast?_concat .., hwifi⟩
    exact hhandled.afterWiFi (fun _ => hcause) (fun hretry => absurd hretry Bool.false_ne_true)
      hmillis
  | server hquiet =>
    rw [Connections.actAll_append hquiet, Connections.actAll_single]
    exact hhandled.afterServer _ _

end InverterMonitor.Firmware
