import InverterMonitor.Wire.SensorNumbering

/-!
# The command handler of the temperature firmware

`handleCommand` of `temperature.ino`, branch by branch, with its settings, the EEPROM and the
table of sensors.  The layout of the EEPROM, the load and save functions and the checks of
arguments have the same text as in `inverter.ino`.

* `handleCommand_configured`: what a line makes of the settings, the EEPROM and the flash.
-/

namespace InverterMonitor.Temperature
open Text Cxx Runs Firmware Wire

/-! ## The monitor -/

/-- The settings that are kept in the EEPROM. -/
@[ext] structure Settings where
  wifiSSID : Bytes
  wifiPassword : Bytes
  monitorHost : Bytes
  monitorPortString : Bytes
  monitorPort : UInt16

/-- The global variables, the copy of the EEPROM that reads and writes go to, and the flash. -/
structure Monitor where
  settings : Settings
  eeprom : Eeprom
  /-- What was committed. -/
  flash : Eeprom := eeprom
  sensors : SensorTable
  nextTemperatureScanTime : UInt32 := 0

/-- The load functions that `setup` calls. -/
def loadSettings (eeprom : Eeprom) : Settings where
  wifiSSID := (loadWiFiCredentialsFromEEPROM eeprom).1
  wifiPassword := (loadWiFiCredentialsFromEEPROM eeprom).2
  monitorHost := (loadMonitorServerFromEEPROM eeprom).1
  monitorPortString := (loadMonitorServerFromEEPROM eeprom).2.1
  monitorPort := (loadMonitorServerFromEEPROM eeprom).2.2

/-- What the world answers while a line is handled. -/
structure World where
  /-- The result of `EEPROM.commit`. -/
  committed : Bool
  bus : DallasTemperature
  qsort : (DeviceAddress → DeviceAddress → Int) → List DeviceAddress → List DeviceAddress

/-- `EEPROM.commit()`; a commit that fails leaves the flash as it was. -/
def Monitor.commit (m : Monitor) (committed : Bool) : Monitor :=
  { m with flash := if committed then m.eeprom else m.flash }

/-- `setup` -/
def Monitor.boot (eeprom : Eeprom) (world : World) : Monitor where
  settings := loadSettings eeprom
  eeprom := eeprom
  sensors :=
    (detectTemperatureSensors world.qsort world.bus
      ⟨0, List.replicate maxTemperatureSensors noAddress⟩).1

/-! ## The branches -/

abbrev TemperatureHandler := Procedure Monitor Action

namespace TemperatureHandler

def print (message : Bytes) : TemperatureHandler Unit := .log (.print message)

/-- A message, and `return`. -/
def fail {α : Type} (message : Bytes) : TemperatureHandler α := .stop (.print message)

def check {α : Type} (x : Except Bytes α) : TemperatureHandler α := Procedure.check Action.print x

/-- `strcpy(dest, text.c_str())` -/
def strcpy (dest : StringBuffer) (text : Bytes) (set : Settings → Bytes → Settings) :
    TemperatureHandler Unit := do
  .log (.copy dest (cString text))
  .modify fun m => { m with settings := set m.settings (cString text) }

/-- A save function: `false` for what does not fit, else the result of the commit. -/
def save (world : World) (fits : Settings → Bool) (write : Settings → Eeprom → Eeprom) :
    TemperatureHandler Bool := do
  let m ← .get
  if fits m.settings then
    .modify fun m => { m with eeprom := write m.settings m.eeprom }
    .modify fun m => m.commit world.committed
    return world.committed
  else return false

def saveWiFiCredentials (world : World) : TemperatureHandler Bool :=
  save world
    (fun s => s.wifiSSID.length ≤ wifiSsidMaxLen ∧ s.wifiPassword.length ≤ wifiPasswordMaxLen)
    fun s => saveWiFiCredentialsToEEPROM s.wifiSSID s.wifiPassword

def saveMonitorServer (world : World) : TemperatureHandler Bool :=
  save world
    (fun s =>
      s.monitorHost.length ≤ monitorHostMaxLen ∧ s.monitorPortString.length ≤ monitorPortMaxLen)
    fun s => saveMonitorServerToEEPROM s.monitorHost s.monitorPortString

end TemperatureHandler

open TemperatureHandler

section Branches

variable (world : World)

def handleWifi (remainder : Bytes) : TemperatureHandler Unit := do
  let (newSsid, newPass) ←
    check (twoArguments "invalid WIFI format, expected 'WIFI [ssid] [password]'" remainder)
  if wifiSsidMaxLen < newSsid.length ∨ wifiPasswordMaxLen < newPass.length then
    fail (tcpCmd "WIFI SSID or password too long")
  strcpy .wifiSSID newSsid fun s text => { s with wifiSSID := text }
  strcpy .wifiPassword newPass fun s text => { s with wifiPassword := text }
  if !(← saveWiFiCredentials world) then
    fail (tcpCmd "failed to save WiFi credentials to EEPROM")
  print (tcpCmd "WIFI credentials updated, reconnecting...")
  .log .connectToWiFi
  .modify fun m => { m with nextTemperatureScanTime := 0 }

def handleHost (remainder : Bytes) : TemperatureHandler Unit := do
  let (newHost, newPort) ←
    check (twoArguments "invalid HOST format, expected 'HOST [address] [port]'" remainder)
  if monitorHostMaxLen < newHost.length ∨ monitorPortMaxLen < newPort.length then
    fail (tcpCmd "monitor host or port too long")
  match strtoul32 newPort with
  | none => fail (tcpCmd "invalid HOST port")
  | some rawPort =>
    if rawPort = 0 ∨ 0xFFFF < rawPort then fail (tcpCmd "invalid HOST port")
    strcpy .monitorHost newHost fun s text => { s with monitorHost := text }
    strcpy .monitorPortString newPort fun s text => { s with monitorPortString := text }
    .modify fun m => { m with settings := { m.settings with monitorPort := rawPort.toUInt16 } }
    if !(← saveMonitorServer world) then
      fail (tcpCmd "failed to save monitor host to EEPROM")
    print (printed (tcpCmd "monitor host updated to " ++ cString newHost ++ ascii ":" ++
      cString newPort))
    .log .connectToMonitorServer

def handleDetect : TemperatureHandler Unit := do
  print (tcpCmd "DETECT received, scanning for temperature sensors...")
  let m ← .get
  let (sensors, messages) := detectTemperatureSensors world.qsort world.bus m.sensors
  .logAll (messages.map .print)
  .modify fun m => { m with sensors := sensors }

def handleCommandLine (rawLine : Bytes) : TemperatureHandler Unit := do
  let line := trim rawLine
  if line = [] then .return'
  match afterStart (ascii "WIFI ") line with
  | some remainder => handleWifi world remainder
  | none =>
    match afterStart (ascii "HOST ") line with
    | some remainder => handleHost world remainder
    | none => if line = ascii "DETECT" then handleDetect world

end Branches

/-- `handleCommand`: the monitor afterwards, and what was done. -/
def Monitor.handleCommand (m : Monitor) (world : World) (rawLine : Bytes) :
    Execution Monitor Action :=
  (handleCommandLine world rawLine).execute m

/-! ## What a line does -/

/-- The command for the settings that a line reads as, if it has one of their names. -/
def settingsCommand (rawLine : Bytes) : Option (Except Bytes Command) :=
  let line := trim rawLine
  if line = [] then none
  else
    match afterStart (ascii "WIFI ") line with
    | some remainder => some (parseWifi remainder)
    | none => (afterStart (ascii "HOST ") line).map parseHost

namespace TemperatureHandler

variable (x : Execution Monitor Action)

@[simp] theorem run_print (message : Bytes) : (print message).run x =
    (some (), { x with log := x.log ++ [.print message] }) := rfl

@[simp] theorem run_fail {α : Type} (message : Bytes) :
    (fail message : TemperatureHandler α).run x =
      (none, { x with log := x.log ++ [.print message] }) := rfl

@[simp] theorem run_strcpy (dest : StringBuffer) (text : Bytes)
    (set : Settings → Bytes → Settings) : (strcpy dest text set).run x =
    (some (),
      { state := { x.state with settings := set x.state.settings (cString text) }
        log := x.log ++ [.copy dest (cString text)] }) := rfl

@[simp] theorem run_save (world : World) (fits : Settings → Bool)
    (write : Settings → Eeprom → Eeprom) : (save world fits write).run x =
    if fits x.state.settings then
      (some world.committed,
        { state := { x.state with
            eeprom := write x.state.settings x.state.eeprom }.commit world.committed
          log := x.log })
    else (some false, x) := by
  unfold save
  rw [Procedure.bind_finished (Procedure.run_get x)]
  split <;> rfl

end TemperatureHandler

/-- What a command does to the settings and the EEPROM. -/
def configure (command : Command) (settings : Settings) (eeprom : Eeprom) : Settings × Eeprom :=
  match command with
  | .wifi newSsid newPass =>
    ({ settings with wifiSSID := cString newSsid, wifiPassword := cString newPass },
      saveWiFiCredentialsToEEPROM (cString newSsid) (cString newPass) eeprom)
  | .host newHost newPort rawPort =>
    ({ settings with
        monitorHost := cString newHost, monitorPortString := cString newPort,
        monitorPort := rawPort },
      saveMonitorServerToEEPROM (cString newHost) (cString newPort) eeprom)
  | _ => (settings, eeprom)

/-- The settings are kept as they were. -/
def Untouched (m m' : Monitor) : Prop :=
  m'.settings = m.settings ∧ m'.eeprom = m.eeprom ∧ m'.flash = m.flash

/-- The settings, the EEPROM and the flash after a line that reads as `parsed`. -/
def Configured (world : World) (m m' : Monitor) (parsed : Except Bytes Command) : Prop :=
  match parsed with
  | .ok command =>
    (m'.settings, m'.eeprom) = configure command m.settings m.eeprom ∧
      m'.flash = if world.committed then m'.eeprom else m.flash
  | .error _ => Untouched m m'

theorem handleWifi_configured (m : Monitor) (world : World) (remainder : Bytes) :
    Configured world m ((handleWifi world remainder).execute m).state (parseWifi remainder) := by
  unfold handleWifi parseWifi Procedure.execute
  cases twoArguments "invalid WIFI format, expected 'WIFI [ssid] [password]'" remainder with
  | error message => exact ⟨rfl, rfl, rfl⟩
  | ok args =>
    obtain ⟨newSsid, newPass⟩ := args
    simp only [TemperatureHandler.check, Procedure.run_bind, Procedure.run_check_ok, ok_bind]
    split
    · exact ⟨rfl, rfl, rfl⟩
    · next hlength =>
      have hfits := cString_fits hlength
      cases hcommit : world.committed <;>
        simp [Configured, configure, saveWiFiCredentials, Monitor.commit, Procedure.run_bind, hcommit,
          hfits]

theorem handleHost_configured (m : Monitor) (world : World) (remainder : Bytes) :
    Configured world m ((handleHost world remainder).execute m).state (parseHost remainder) := by
  unfold handleHost parseHost Procedure.execute
  cases twoArguments "invalid HOST format, expected 'HOST [address] [port]'" remainder with
  | error message => exact ⟨rfl, rfl, rfl⟩
  | ok args =>
    obtain ⟨newHost, newPort⟩ := args
    simp only [TemperatureHandler.check, Procedure.run_bind, Procedure.run_check_ok, ok_bind]
    split
    · exact ⟨rfl, rfl, rfl⟩
    · next hlength =>
      cases strtoul32 newPort with
      | none => exact ⟨rfl, rfl, rfl⟩
      | some rawPort =>
        simp only
        split
        · exact ⟨rfl, rfl, rfl⟩
        · have hfits := cString_fits hlength
          cases hcommit : world.committed <;>
            simp [Configured, configure, saveMonitorServer, Monitor.commit, Procedure.run_bind, hcommit,
              hfits]

theorem handleCommand_configured (m : Monitor) (world : World) (rawLine : Bytes) :
    match settingsCommand rawLine with
    | some parsed => Configured world m (m.handleCommand world rawLine).state parsed
    | none => Untouched m (m.handleCommand world rawLine).state := by
  unfold Monitor.handleCommand handleCommandLine settingsCommand
  simp only
  by_cases hempty : trim rawLine = []
  · simp only [hempty, ↓reduceIte]
    exact ⟨rfl, rfl, rfl⟩
  · simp only [hempty, ↓reduceIte]
    cases hwifi : afterStart (ascii "WIFI ") (trim rawLine) with
    | some remainder => exact handleWifi_configured m world remainder
    | none =>
      cases hhost : afterStart (ascii "HOST ") (trim rawLine) with
      | some remainder => exact handleHost_configured m world remainder
      | none =>
        change Untouched m
          (Procedure.execute (if trim rawLine = ascii "DETECT" then handleDetect world else pure ())
            m).state
        split
        · exact ⟨rfl, rfl, rfl⟩
        · exact ⟨rfl, rfl, rfl⟩

end InverterMonitor.Temperature
