import InverterMonitor.Firmware.Configuration
import InverterMonitor.Runs.Procedures

/-!
# The command handler of the inverter firmware, branch by branch

`handleCommand` of `inverter.ino` with everything it reads and changes: each
branch is a procedure whose checks, assignments, saves and messages stand in the
order of the source.

* `handleCommand_carries`: a line is rejected with a message and changes nothing,
  or its command is carried out, which changes what `Board.handleCommand`,
  `Relays.set` and `scheduleLine` say;
* `handleCommand_flash`: which lines reach the flash.
-/

namespace InverterMonitor.Firmware
open Text Cxx Runs

/-! ## Device and actions -/

/-- The global variables that commands change, and the flash behind the EEPROM. -/
structure Device where
  board : Board
  /-- What was committed; `board.eeprom` is the copy that reads and writes go to. -/
  flash : Eeprom := board.eeprom
  relayStates : Fin 4 → Bool := fun _ => false
  nextControlScanTime : UInt32 := 0
  nextMonitorScanTime : UInt32 := 0
  controlScanIndex : Nat := 0
  monitorScanIndex : Nat := 0

namespace Device

def scheduler (d : Device) : Scheduler where
  timing := d.board.memory.timing
  nextControlScanTime := d.nextControlScanTime
  nextMonitorScanTime := d.nextMonitorScanTime
  controlScanIndex := d.controlScanIndex
  monitorScanIndex := d.monitorScanIndex

def relays (d : Device) : Relays := { states := d.relayStates }

def setMemory (d : Device) (memory : Configuration) : Device :=
  { d with board := { d.board with memory := memory } }

def setEeprom (d : Device) (eeprom : Eeprom) : Device :=
  { d with board := { d.board with eeprom := eeprom } }

/-- `EEPROM.commit()`; a commit that fails leaves the flash as it was. -/
def commit (d : Device) (committed : Bool) : Device :=
  { d with flash := if committed then d.board.eeprom else d.flash }

def setRelay (d : Device) (relayIndex : Fin 4) (active : Bool) : Device :=
  { d with relayStates := Function.update d.relayStates relayIndex active }

def resetScanTime (d : Device) : Device :=
  { d with
    nextControlScanTime := 0, nextMonitorScanTime := 0, controlScanIndex := 0,
    monitorScanIndex := 0 }

def restartControlScan (d : Device) (now : UInt32) : Device :=
  { d with controlScanIndex := 0, nextControlScanTime := now }

end Device

/-- The arrays that commands index. -/
inductive DeviceArray
  | relayPins | relayStates | relayIpAddresses | controlRegisters | monitorRegisters
  deriving DecidableEq, Repr

def DeviceArray.length : DeviceArray → Nat
  | .relayPins => relayPinCount
  | .relayStates => relayPinCount
  | .relayIpAddresses => relayPinCount
  | .controlRegisters => controlRegisterCount
  | .monitorRegisters => monitorRegisterCount

/-- The buffers that `strcpy` writes to. -/
inductive StringBuffer
  | wifiSSID | wifiPassword | monitorHost | monitorPortString | relayIpAddress
  deriving DecidableEq, Repr

def StringBuffer.size : StringBuffer → Nat
  | .wifiSSID => wifiSsidMaxLen + 1
  | .wifiPassword => wifiPasswordMaxLen + 1
  | .monitorHost => monitorHostMaxLen + 1
  | .monitorPortString => monitorPortMaxLen + 1
  | .relayIpAddress => relayIpAddressMaxLen + 1

/-- What the handler does besides changing its variables. -/
inductive Action
  /-- `array[i]` is read or written. -/
  | index (array : DeviceArray) (i : Nat)
  /-- The string and a terminator are copied. -/
  | copy (dest : StringBuffer) (text : Bytes)
  | print (message : Bytes)
  | writeSingleRegister (address value : UInt16)
  | readHoldingRegisters (address : UInt16)
  | printRegisterResult (reg : RegItem) (value : UInt16)
  | printReadError (reg : RegItem) (result : UInt8)
  | connectToWiFi
  | connectToMonitorServer
  | update (url : Bytes)

inductive UpdateResult
  | failed (error : Bytes)
  | noUpdates
  | ok

/-- What the world answers while a line is handled. -/
structure Answers extends Outcome where
  /-- The result of a write that the inverter does not acknowledge. -/
  writeError : UInt8 := 0xE2
  readResult : Except UInt8 UInt16 := .error 0xE2
  updateResult : UpdateResult := .noUpdates
  /-- What is read where `relayStates` ends. -/
  beyondRelayStates : Bool := false

abbrev Handler := Procedure Device Action

/-! ## Parts of the branches -/

namespace Handler

def print (message : Bytes) : Handler Unit := .log (.print message)

/-- A message, and `return`. -/
def fail {α : Type} (message : Bytes) : Handler α := .stop (.print message)

def check {α : Type} (x : Except Bytes α) : Handler α := Procedure.check Action.print x

/-- `strcpy(dest, text.c_str())` -/
def strcpy (dest : StringBuffer) (text : Bytes)
    (set : Configuration → Bytes → Configuration) : Handler Unit := do
  .log (.copy dest (cString text))
  .modify fun d => d.setMemory (set d.board.memory (cString text))

def assign (set : Configuration → Configuration) : Handler Unit :=
  .modify fun d => d.setMemory (set d.board.memory)

/-- A save function: `false` for what does not fit, else the result of the commit. -/
def save (answers : Answers) (fits : Configuration → Bool)
    (write : Configuration → Eeprom → Eeprom) : Handler Bool := do
  let d ← .get
  if fits d.board.memory then
    .modify fun d => d.setEeprom (write d.board.memory d.board.eeprom)
    .modify fun d => d.commit answers.committed
    return answers.committed
  else return false

def saveWiFiCredentials (answers : Answers) : Handler Bool :=
  save answers
    (fun c => c.wifiSSID.length ≤ wifiSsidMaxLen ∧ c.wifiPassword.length ≤ wifiPasswordMaxLen)
    fun c => saveWiFiCredentialsToEEPROM c.wifiSSID c.wifiPassword

def saveMonitorServer (answers : Answers) : Handler Bool :=
  save answers
    (fun c =>
      c.monitorHost.length ≤ monitorHostMaxLen ∧ c.monitorPortString.length ≤ monitorPortMaxLen)
    fun c => saveMonitorServerToEEPROM c.monitorHost c.monitorPortString

def saveSimulationMode (answers : Answers) : Handler Bool :=
  save answers (fun _ => true) fun c => saveSimulationModeToEEPROM c.simulationMode

def saveTimingConfig (answers : Answers) : Handler Bool :=
  save answers (fun _ => true) fun c => saveTimingConfigToEEPROM c.timing

def saveRelayIpAddress (answers : Answers) (relayIndex : UInt8) (ip : Bytes) : Handler Bool :=
  save answers (fun _ => relayIndex.toNat < relayPinCount ∧ ip.length ≤ relayIpAddressMaxLen)
    fun _ eeprom =>
      if h : relayIndex.toNat < relayPinCount then
        saveRelayIpAddressToEEPROM ⟨relayIndex.toNat, h⟩ ip eeprom
      else eeprom

/-- An assignment to `relayIpAddresses[relayIndex]`. -/
def setRelayIp (relayIndex : UInt8) (ip : Bytes) : Handler Unit := do
  .log (.index .relayIpAddresses relayIndex.toNat)
  .modify fun d =>
    if h : relayIndex.toNat < relayPinCount then
      d.setMemory { d.board.memory with
        relayIpAddresses :=
          Function.update d.board.memory.relayIpAddresses ⟨relayIndex.toNat, h⟩ ip }
    else d

def setRelayState (relayIndex : UInt8) (active : Bool) : Handler Bool := do
  if h : relayIndex.toNat < relayPinCount then
    .log (.index .relayPins relayIndex.toNat)
    .log (.index .relayStates relayIndex.toNat)
    .modify fun d => d.setRelay ⟨relayIndex.toNat, h⟩ active
    return true
  else return false

/-- `relayStates[relayIndex]` -/
def relayState (answers : Answers) (relayIndex : UInt8) : Handler Bool := do
  .log (.index .relayStates relayIndex.toNat)
  let d ← .get
  return if h : relayIndex.toNat < relayPinCount then d.relayStates ⟨relayIndex.toNat, h⟩
    else answers.beyondRelayStates

/-- The relay number of `RELAY` and `SETIP`. -/
def relayNumber (relayText : Bytes) : Handler Nat :=
  match strtoul32 relayText with
  | none => fail (tcpCmd "invalid relay number, expected 1-4")
  | some relayNumber =>
    if relayNumber < 1 ∨ relayPinCount < relayNumber then
      fail (tcpCmd "invalid relay number, expected 1-4")
    else return relayNumber

/-- A loop over a table: the items it looks at, and the one it finds. -/
def scanTable (array : DeviceArray) (address : UInt16) :
    List RegItem → Nat → List Action × Option RegItem
  | [], _ => ([], none)
  | reg :: regs, i =>
    if reg.address = address then ([.index array i], some reg)
    else (.index array i :: (scanTable array address regs (i + 1)).1,
      (scanTable array address regs (i + 1)).2)

def findRegister (address : UInt16) : Handler (Option RegItem) := do
  let (looked, found) := scanTable .controlRegisters address controlRegisters 0
  .logAll looked
  match found with
  | some reg => return some reg
  | none =>
    let (looked, found) := scanTable .monitorRegisters address monitorRegisters 0
    .logAll looked
    return found

end Handler

def relayStateText (active : Bool) : Bytes := if active then ascii "ON" else ascii "OFF"

def hexDigit (n : Nat) : Byte := if n < 10 then UInt8.ofNat (48 + n) else UInt8.ofNat (55 + n)

/-- `%02X` -/
def hexByte (b : UInt8) : Bytes := [hexDigit (b.toNat / 16), hexDigit (b.toNat % 16)]

/-- What `vsnprintf` leaves of a text in the buffer of `printMessage`. -/
def printed (text : Bytes) : Bytes := text.take 255

/-! ## The branches -/

open Handler

section Branches

variable (answers : Answers)

def handleWifi (remainder : Bytes) : Handler Unit := do
  let (newSsid, newPass) ←
    check (twoArguments "invalid WIFI format, expected 'WIFI [ssid] [password]'" remainder)
  if wifiSsidMaxLen < newSsid.length ∨ wifiPasswordMaxLen < newPass.length then
    fail (tcpCmd "WIFI SSID or password too long")
  strcpy .wifiSSID newSsid fun c text => { c with wifiSSID := text }
  strcpy .wifiPassword newPass fun c text => { c with wifiPassword := text }
  if !(← saveWiFiCredentials answers) then
    fail (tcpCmd "failed to save WiFi credentials to EEPROM")
  print (tcpCmd "WIFI credentials updated, reconnecting...")
  .log .connectToWiFi
  .modify Device.resetScanTime

def handleHost (remainder : Bytes) : Handler Unit := do
  let (newHost, newPort) ←
    check (twoArguments "invalid HOST format, expected 'HOST [address] [port]'" remainder)
  if monitorHostMaxLen < newHost.length ∨ monitorPortMaxLen < newPort.length then
    fail (tcpCmd "monitor host or port too long")
  match strtoul32 newPort with
  | none => fail (tcpCmd "invalid HOST port")
  | some rawPort =>
    if rawPort = 0 ∨ 0xFFFF < rawPort then fail (tcpCmd "invalid HOST port")
    strcpy .monitorHost newHost fun c text => { c with monitorHost := text }
    strcpy .monitorPortString newPort fun c text => { c with monitorPortString := text }
    assign fun c => { c with monitorPort := rawPort.toUInt16 }
    if !(← saveMonitorServer answers) then
      fail (tcpCmd "failed to save monitor host to EEPROM")
    print (printed (tcpCmd "monitor host updated to " ++ cString newHost ++ ascii ":" ++
      cString newPort))
    .log .connectToMonitorServer

def handleSim (remainder : Bytes) : Handler Unit := do
  let valueText := trim remainder
  if valueText = [] then fail (tcpCmd "invalid SIM format, expected 'SIM [ON|OFF|1|0]'")
  match readState valueText with
  | none => fail (tcpCmd "invalid SIM value, expected ON/OFF/1/0")
  | some enabled =>
    assign fun c => { c with simulationMode := enabled }
    if !(← saveSimulationMode answers) then
      fail (tcpCmd "failed to save simulation mode to EEPROM")
    print (tcpCmd "SIM " ++ relayStateText enabled)

/-- The three timing commands. -/
def handleInterval (name : String) (set : TimingConfig → UInt32 → TimingConfig)
    (remainder : Bytes) : Handler Unit := do
  let valueText := trim remainder
  if valueText = [] then
    fail (tcpCmd ("invalid " ++ name ++ " format, expected '" ++ name ++ " [value]' "))
  match strtoul32 valueText with
  | none => fail (tcpCmd ("invalid " ++ name ++ " value"))
  | some rawValue =>
    if rawValue = 0 then fail (tcpCmd ("invalid " ++ name ++ " value"))
    assign fun c => { c with timing := set c.timing rawValue.toUInt32 }
    if !(← saveTimingConfig answers) then
      fail (tcpCmd "failed to save timing config to EEPROM")
    print (tcpCmd (name ++ " ") ++ decimal rawValue)

def handleCtrlScanMs : Bytes → Handler Unit :=
  handleInterval answers "CTRL_SCAN_MS" fun timing v => { timing with controlScanIntervalMs := v }

def handleMonScanMs : Bytes → Handler Unit :=
  handleInterval answers "MON_SCAN_MS" fun timing v => { timing with monitorScanIntervalMs := v }

def handleRegSpacingMs : Bytes → Handler Unit :=
  handleInterval answers "REG_SPACING_MS" fun timing v => { timing with registerReadSpacingMs := v }

def handleRelay (remainder : Bytes) : Handler Unit := do
  let (relayText, stateText) ←
    check (twoArguments "invalid RELAY format, expected 'RELAY [number] [state]' " remainder)
  let relayNumber ← Handler.relayNumber relayText
  match readState stateText with
  | none => fail (tcpCmd "invalid relay state, expected ON/OFF or 1/0")
  | some active =>
    let relayIndex := (relayNumber - 1).toUInt8
    if !(← Handler.setRelayState relayIndex active) then
      fail (tcpCmd "failed to set relay " ++ decimal relayNumber)
    print (tcpCmd "RELAY " ++ decimal relayNumber ++ ascii " " ++ relayStateText active)

def handleSetIp (remainder : Bytes) : Handler Unit := do
  let remainder := trim remainder
  if remainder = [] then
    fail (tcpCmd
      "invalid SETIP format, expected 'SETIP [relayNumber]' or 'SETIP [relayNumber] [ip]' ")
  let (relayText, ipText) := (splitAtIndex ' ' remainder).getD (remainder, [])
  let relayText := trim relayText
  let ipText := trim ipText
  if relayText = [] then
    fail (tcpCmd
      "invalid SETIP format, expected 'SETIP [relayNumber]' or 'SETIP [relayNumber] [ip]' ")
  let relayNumber ← Handler.relayNumber relayText
  let relayIndex := (relayNumber - 1).toUInt8
  if ipText = [] then
    setRelayIp relayIndex []
    if !(← saveRelayIpAddress answers relayIndex []) then
      fail (tcpCmd "failed to clear relay IP in EEPROM")
    print (tcpCmd "SETIP " ++ decimal relayNumber ++ ascii " cleared")
  else
    match parseIpAddress ipText with
    | none => fail (tcpCmd "invalid IP address format, expected IPv4 like 192.168.1.100")
    | some ipBuffer =>
      .log (.copy .relayIpAddress ipBuffer)
      setRelayIp relayIndex ipBuffer
      if !(← saveRelayIpAddress answers relayIndex ipBuffer) then
        fail (tcpCmd "failed to save relay IP to EEPROM")
      print (tcpCmd "SETIP " ++ decimal relayNumber ++ ascii " " ++ ipBuffer)

def handleRead (remainder : Bytes) : Handler Unit := do
  let addrText := trim remainder
  if addrText = [] then fail (tcpCmd "invalid READ format, expected 'READ [address]'")
  let address ← check (parseAddress addrText)
  match ← Handler.findRegister address with
  | none => fail (unknownRegister address)
  | some reg =>
    let d ← .get
    if d.board.memory.simulationMode then .log (.printRegisterResult reg 0)
    else
      .log (.readHoldingRegisters address)
      match answers.readResult with
      | .ok value => .log (.printRegisterResult reg value)
      | .error result => .log (.printReadError reg result)

def handleOtaUrl (remainder : Bytes) : Handler Unit := do
  let url := trim remainder
  if url = [] then fail (tcpCmd "invalid OTA_URL format, expected 'OTA_URL [url]'")
  print (printed (tcpCmd "OTA_URL starting update from " ++ url))
  .log (.update url)
  match answers.updateResult with
  | .failed error => print (printed (tcpCmd "OTA failed - error " ++ error))
  | .noUpdates => print (tcpCmd "OTA no update available")
  | .ok => print (tcpCmd "OTA update successful, rebooting")

/-- The form without a name. -/
def handleWrite (line : Bytes) : Handler Unit := do
  let (addrText, valueText) ←
    check (twoArguments "invalid format, expected '[regAddr] [uintValue]'" line)
  let address ← check (parseAddress addrText)
  match strtoul32 valueText with
  | none => fail (tcpCmd "invalid register value")
  | some rawValue =>
    if 0xFFFF < rawValue then fail (tcpCmd "invalid register value")
    let value := rawValue.toUInt16
    if address.toNat ≤ relayPinCount then
      let relayIndex := (address - 1).toUInt8
      let _ ← Handler.setRelayState relayIndex (value ≠ 0)
      let active ← relayState answers relayIndex
      print (tcpCmd "RELAY " ++ decimal address.toNat ++ ascii " " ++ relayStateText active)
    else
      match ← Handler.findRegister address with
      | none => fail (unknownRegister address)
      | some reg =>
        if reg.access ≠ .readWrite then
          fail (tcpCmd "register " ++ decimal address.toNat ++ ascii " is read-only")
        .log (.writeSingleRegister address value)
        if answers.written then
          print (tcpCmd "wrote " ++ decimal address.toNat ++ ascii " = " ++ decimal value.toNat)
          .modify fun d => d.restartControlScan answers.now
        else
          print (tcpCmd "write failed for " ++ decimal address.toNat ++ ascii ", error 0x" ++
            hexByte answers.writeError ++ ascii "\n")

/-- The named branches in the order in which `handleCommand` tries them. -/
def namedBranches : List (Bytes × (Bytes → Handler Unit)) :=
  [(ascii "WIFI ", handleWifi answers), (ascii "HOST ", handleHost answers),
    (ascii "SIM ", handleSim answers), (ascii "CTRL_SCAN_MS", handleCtrlScanMs answers),
    (ascii "MON_SCAN_MS", handleMonScanMs answers),
    (ascii "REG_SPACING_MS", handleRegSpacingMs answers), (ascii "RELAY ", handleRelay),
    (ascii "SETIP ", handleSetIp answers), (ascii "READ ", handleRead answers),
    (ascii "OTA_URL ", handleOtaUrl answers)]

/-- The first branch whose name begins the line. -/
def handleNamed (line : Bytes) : List (Bytes × (Bytes → Handler Unit)) → Handler Unit
  | [] => handleWrite answers line
  | (name, handle) :: branches =>
    match afterStart name line with
    | some remainder => handle remainder
    | none => handleNamed line branches

def handleCommandLine (rawLine : Bytes) : Handler Unit := do
  let line := trim rawLine
  if line = [] then .return'
  handleNamed answers line (namedBranches answers)

end Branches

/-- `handleCommand`: the device afterwards, and what was done. -/
def Device.handleCommand (d : Device) (answers : Answers) (rawLine : Bytes) :
    Execution Device Action :=
  (handleCommandLine answers rawLine).execute d

/-! ## How the parts run -/

namespace Handler

variable (x : Execution Device Action)

@[simp] theorem run_print (message : Bytes) : (print message).run x =
    (some (), { x with log := x.log ++ [.print message] }) := rfl

@[simp] theorem run_fail {α : Type} (message : Bytes) : (fail message : Handler α).run x =
    (none, { x with log := x.log ++ [.print message] }) := rfl

@[simp] theorem run_strcpy (dest : StringBuffer) (text : Bytes)
    (set : Configuration → Bytes → Configuration) : (strcpy dest text set).run x =
    (some (),
      { state := x.state.setMemory (set x.state.board.memory (cString text))
        log := x.log ++ [.copy dest (cString text)] }) := rfl

@[simp] theorem run_assign (set : Configuration → Configuration) : (assign set).run x =
    (some (), { x with state := x.state.setMemory (set x.state.board.memory) }) := rfl

@[simp] theorem run_save (answers : Answers) (fits : Configuration → Bool)
    (write : Configuration → Eeprom → Eeprom) : (save answers fits write).run x =
    if fits x.state.board.memory then
      (some answers.committed,
        { state := (x.state.setEeprom (write x.state.board.memory x.state.board.eeprom)).commit
            answers.committed
          log := x.log })
    else (some false, x) := by
  unfold save
  rw [Procedure.bind_finished (Procedure.run_get x)]
  split <;> rfl

theorem run_relayNumber_ok {relayText : Bytes} {i : Fin 4}
    (h : parseRelayNumber relayText = .ok i) :
    (relayNumber relayText).run x = (some (i + 1 : Nat), x) := by
  have hrange : ¬((i : Nat) + 1 < 1 ∨ relayPinCount < (i : Nat) + 1) := by
    unfold relayPinCount
    omega
  simp only [relayNumber, parseRelayNumber_eq_ok_iff.mp h, hrange, ↓reduceIte,
    Procedure.run_pure]

theorem run_relayNumber_error {relayText message : Bytes}
    (h : parseRelayNumber relayText = .error message) :
    (relayNumber relayText).run x = (none, { x with log := x.log ++ [.print message] }) := by
  unfold relayNumber
  cases hvalue : strtoul32 relayText with
  | none =>
    simp only [parseRelayNumber, hvalue, Except.error.injEq] at h
    rw [← h]
    rfl
  | some n =>
    simp only [parseRelayNumber, hvalue] at h
    split at h
    · cases h
    · next hrange =>
      cases h
      have hrange' : n < 1 ∨ relayPinCount < n := by omega
      simp only [hrange', ↓reduceIte, run_fail]

/-- The index that a relay number is cast to. -/
@[simp] theorem relayIndex_toNat (i : Fin 4) : ((i : Nat) + 1 - 1).toUInt8.toNat = i := by
  rw [Nat.add_sub_cancel, Nat.toUInt8, UInt8.toNat_ofNat']
  omega

theorem run_setRelayState {relayIndex : UInt8} {i : Fin 4} (h : relayIndex.toNat = i)
    (active : Bool) : (Handler.setRelayState relayIndex active).run x =
      (some true,
        { state := x.state.setRelay i active
          log := x.log ++ [.index .relayPins i, .index .relayStates i] }) := by
  have hlt : relayIndex.toNat < relayPinCount := by
    unfold relayPinCount
    omega
  obtain rfl : i = ⟨relayIndex.toNat, hlt⟩ := Fin.ext h.symm
  rw [Handler.setRelayState, dif_pos hlt]
  simp only [Procedure.run_bind, Procedure.run_log, Procedure.run_modify, Procedure.run_pure,
    List.append_assoc, List.cons_append, List.nil_append]

theorem run_setRelayState_outside {relayIndex : UInt8} (h : ¬relayIndex.toNat < relayPinCount)
    (active : Bool) : (Handler.setRelayState relayIndex active).run x = (some false, x) := by
  simp only [Handler.setRelayState, h, ↓reduceDIte, Procedure.run_pure]

theorem run_relayState (answers : Answers) (relayIndex : UInt8) :
    (relayState answers relayIndex).run x =
      (some (if h : relayIndex.toNat < relayPinCount then
          x.state.relayStates ⟨relayIndex.toNat, h⟩ else answers.beyondRelayStates),
        { x with log := x.log ++ [.index .relayStates relayIndex.toNat] }) := rfl

theorem run_setRelayIp {relayIndex : UInt8} {i : Fin 4} (h : relayIndex.toNat = i)
    (ip : Bytes) : (setRelayIp relayIndex ip).run x =
      (some (),
        { state := x.state.setMemory { x.state.board.memory with
            relayIpAddresses := Function.update x.state.board.memory.relayIpAddresses i ip }
          log := x.log ++ [.index .relayIpAddresses i] }) := by
  have hlt : relayIndex.toNat < relayPinCount := by
    unfold relayPinCount
    omega
  obtain rfl : i = ⟨relayIndex.toNat, hlt⟩ := Fin.ext h.symm
  simp only [setRelayIp, hlt, ↓reduceDIte, Procedure.run_bind, Procedure.run_log,
    Procedure.run_modify]

theorem run_saveRelayIpAddress (answers : Answers) {relayIndex : UInt8} {i : Fin 4}
    (h : relayIndex.toNat = i) {ip : Bytes} (hip : ip.length ≤ relayIpAddressMaxLen) :
    (saveRelayIpAddress answers relayIndex ip).run x =
      (some answers.committed,
        { state := (x.state.setEeprom
            (saveRelayIpAddressToEEPROM i ip x.state.board.eeprom)).commit answers.committed
          log := x.log }) := by
  have hlt : relayIndex.toNat < relayPinCount := by
    unfold relayPinCount
    omega
  obtain rfl : i = ⟨relayIndex.toNat, hlt⟩ := Fin.ext h.symm
  simp only [saveRelayIpAddress, run_save, hlt, hip, and_self, decide_true, ↓reduceIte, ↓reduceDIte]

end Handler

/-! ## What a command does -/

/-- The device after a command: its settings, its relays and its scans. -/
def Command.carryOut (answers : Answers) (command : Command) (d : Device) : Device where
  board := command.configure d.board
  flash := if command.setting.isSome && answers.committed then (command.configure d.board).eeprom
    else d.flash
  relayStates := (d.relays.set command.relaySet).states
  nextControlScanTime := (command.schedule answers.toOutcome d.scheduler).nextControlScanTime
  nextMonitorScanTime := (command.schedule answers.toOutcome d.scheduler).nextMonitorScanTime
  controlScanIndex := (command.schedule answers.toOutcome d.scheduler).controlScanIndex
  monitorScanIndex := (command.schedule answers.toOutcome d.scheduler).monitorScanIndex

/-- The message of a command that saves. -/
def savedOr (answers : Answers) (saved failed : Bytes) : List Action :=
  if answers.committed then [.print saved] else [.print failed]

namespace Command

def intervalActions (answers : Answers) (name : String) (rawValue : UInt32) : List Action :=
  savedOr answers (tcpCmd (name ++ " ") ++ decimal rawValue.toNat)
    (tcpCmd "failed to save timing config to EEPROM")

/-- What a command does besides changing the device. -/
def actions (answers : Answers) (d : Device) : Command → List Action
  | .empty => []
  | .wifi newSsid newPass =>
    [.copy .wifiSSID (cString newSsid), .copy .wifiPassword (cString newPass)] ++
      if answers.committed then
        [.print (tcpCmd "WIFI credentials updated, reconnecting..."), .connectToWiFi]
      else [.print (tcpCmd "failed to save WiFi credentials to EEPROM")]
  | .host newHost newPort _ =>
    [.copy .monitorHost (cString newHost), .copy .monitorPortString (cString newPort)] ++
      if answers.committed then
        [.print (printed (tcpCmd "monitor host updated to " ++ cString newHost ++ ascii ":" ++
          cString newPort)), .connectToMonitorServer]
      else [.print (tcpCmd "failed to save monitor host to EEPROM")]
  | .sim enabled =>
    savedOr answers (tcpCmd "SIM " ++ relayStateText enabled)
      (tcpCmd "failed to save simulation mode to EEPROM")
  | .ctrlScanMs rawValue => intervalActions answers "CTRL_SCAN_MS" rawValue
  | .monScanMs rawValue => intervalActions answers "MON_SCAN_MS" rawValue
  | .regSpacingMs rawValue => intervalActions answers "REG_SPACING_MS" rawValue
  | .relay relayIndex active =>
    [.index .relayPins relayIndex, .index .relayStates relayIndex,
      .print (tcpCmd "RELAY " ++ decimal (relayIndex + 1) ++ ascii " " ++ relayStateText active)]
  | .clearIp relayIndex =>
    .index .relayIpAddresses relayIndex ::
      savedOr answers (tcpCmd "SETIP " ++ decimal (relayIndex + 1) ++ ascii " cleared")
        (tcpCmd "failed to clear relay IP in EEPROM")
  | .setIp relayIndex ip =>
    [.copy .relayIpAddress ip.text, .index .relayIpAddresses relayIndex] ++
      savedOr answers (tcpCmd "SETIP " ++ decimal (relayIndex + 1) ++ ascii " " ++ ip.text)
        (tcpCmd "failed to save relay IP to EEPROM")
  | .read reg =>
    if d.board.memory.simulationMode then [.printRegisterResult reg 0]
    else
      [.readHoldingRegisters reg.address,
        match answers.readResult with
        | .ok value => .printRegisterResult reg value
        | .error result => .printReadError reg result]
  | .otaUrl url =>
    [.print (printed (tcpCmd "OTA_URL starting update from " ++ url)), .update url,
      match answers.updateResult with
      | .failed error => .print (printed (tcpCmd "OTA failed - error " ++ error))
      | .noUpdates => .print (tcpCmd "OTA no update available")
      | .ok => .print (tcpCmd "OTA update successful, rebooting")]
  | .relayValue address value =>
    (match setRelayState (address - 1).toUInt8 (value ≠ 0) with
      | some set => [.index .relayPins set.1, .index .relayStates set.1]
      | none => []) ++
    [.index .relayStates (address - 1).toUInt8.toNat,
      .print (tcpCmd "RELAY " ++ decimal address.toNat ++ ascii " " ++
        relayStateText
          (if (address - 1).toUInt8.toNat < relayPinCount then decide (value ≠ 0)
          else answers.beyondRelayStates))]
  | .write reg value =>
    [.writeSingleRegister reg.address value,
      if answers.written then
        .print (tcpCmd "wrote " ++ decimal reg.address.toNat ++ ascii " = " ++
          decimal value.toNat)
      else
        .print (tcpCmd "write failed for " ++ decimal reg.address.toNat ++ ascii ", error 0x" ++
          hexByte answers.writeError ++ ascii "\n")]

end Command

/-- Reads of the register tables inside their bounds. -/
def TableReads (looked : List Action) : Prop :=
  ∀ action ∈ looked, ∃ array i, action = .index array i ∧
    (array = .controlRegisters ∨ array = .monitorRegisters) ∧ i < array.length

/-- How a branch whose text reads as `parsed` ends. -/
inductive Carries (answers : Answers) (d : Device) :
    Except Bytes Command → Execution Device Action → Prop
  | rejected (message : Bytes) {looked : List Action} (hlooked : TableReads looked) :
      Carries answers d (.error message) { state := d, log := looked ++ [.print message] }
  | performed (command : Command) {looked : List Action} (hlooked : TableReads looked) :
      Carries answers d (.ok command)
        { state := command.carryOut answers d, log := looked ++ command.actions answers d }

theorem tableReads_nil : TableReads [] := nofun

namespace Carries

variable {answers : Answers} {d : Device}

theorem fails (message : Bytes) :
    Carries answers d (.error message) { state := d, log := [.print message] } :=
  .rejected message tableReads_nil

theorem carries (command : Command) :
    Carries answers d (.ok command)
      { state := command.carryOut answers d, log := command.actions answers d } :=
  .performed command tableReads_nil

end Carries

theorem cString_length (s : Bytes) : (cString s).length ≤ s.length :=
  (List.takeWhile_sublist _).length_le

theorem cString_fits {s t : Bytes} {n m : Nat} (h : ¬(n < s.length ∨ m < t.length)) :
    (cString s).length ≤ n ∧ (cString t).length ≤ m := by
  have hs := cString_length s
  have ht := cString_length t
  omega

section Branches

variable (answers : Answers) (d : Device)

theorem handleWifi_carries (remainder : Bytes) :
    Carries answers d (parseWifi remainder) ((handleWifi answers remainder).execute d) := by
  unfold handleWifi parseWifi Procedure.execute
  cases hargs : twoArguments "invalid WIFI format, expected 'WIFI [ssid] [password]'" remainder with
  | error message => exact Carries.fails message
  | ok args =>
    obtain ⟨newSsid, newPass⟩ := args
    simp only [Handler.check, Procedure.run_bind, Procedure.run_check_ok, ok_bind]
    split
    · exact Carries.fails _
    · next hlength =>
      have hfits := cString_fits hlength
      have h := @Carries.carries answers d (.wifi newSsid newPass)
      simp only [Command.carryOut, Command.schedule] at h
      cases hcommit : answers.committed <;>
        simpa [saveWiFiCredentials, Procedure.run_bind, Device.setMemory, Device.setEeprom,
          Device.resetScanTime, Device.scheduler, Scheduler.resetScanTime, Command.configure,
          Command.relaySet, Relays.set, Device.relays, Command.actions, Command.setting,
          Device.commit, hcommit, hfits] using h

theorem handleHost_carries (remainder : Bytes) :
    Carries answers d (parseHost remainder) ((handleHost answers remainder).execute d) := by
  unfold handleHost parseHost Procedure.execute
  cases hargs : twoArguments "invalid HOST format, expected 'HOST [address] [port]'" remainder with
  | error message => exact Carries.fails message
  | ok args =>
    obtain ⟨newHost, newPort⟩ := args
    simp only [Handler.check, Procedure.run_bind, Procedure.run_check_ok, ok_bind]
    split
    · exact Carries.fails _
    · next hlength =>
      cases strtoul32 newPort with
      | none => exact Carries.fails _
      | some rawPort =>
        simp only
        split
        · exact Carries.fails _
        · have hfits := cString_fits hlength
          have h := @Carries.carries answers d (.host newHost newPort rawPort.toUInt16)
          simp only [Command.carryOut, Command.schedule] at h
          cases hcommit : answers.committed <;>
            simpa [saveMonitorServer, Procedure.run_bind, Device.setMemory, Device.setEeprom,
              Device.scheduler, Command.configure, Command.relaySet, Relays.set, Device.relays,
              Command.actions, Command.setting, Device.commit, hcommit, hfits] using h

theorem handleSim_carries (remainder : Bytes) :
    Carries answers d (parseSim remainder) ((handleSim answers remainder).execute d) := by
  unfold handleSim parseSim Procedure.execute
  simp only
  split
  · exact Carries.fails _
  · cases readState (trim remainder) with
    | none => exact Carries.fails _
    | some enabled =>
      have h := @Carries.carries answers d (.sim enabled)
      simp only [Command.carryOut, Command.schedule] at h
      cases hcommit : answers.committed <;>
        simpa [saveSimulationMode, Procedure.run_bind, Device.setMemory, Device.setEeprom,
          Device.scheduler, Command.configure, Command.relaySet, Relays.set, Device.relays,
          Command.actions, Command.setting, Device.commit, savedOr, hcommit] using h

theorem handleInterval_carries (name : String) (set : TimingConfig → UInt32 → TimingConfig)
    (command : UInt32 → Command)
    (hcarry : ∀ v, (command v).carryOut answers d =
      { d with board := d.board.setTiming (set d.board.memory.timing v) }.commit answers.committed)
    (hactions : ∀ v, (command v).actions answers d = Command.intervalActions answers name v)
    (remainder : Bytes) :
    Carries answers d (parseInterval name command remainder)
      ((handleInterval answers name set remainder).execute d) := by
  unfold handleInterval parseInterval Procedure.execute
  simp only
  split
  · exact Carries.fails _
  · cases hvalue : strtoul32 (trim remainder) with
    | none => exact Carries.fails _
    | some rawValue =>
      simp only
      split
      · exact Carries.fails _
      · have hword : rawValue.toUInt32.toNat = rawValue := by
          rw [Nat.toUInt32, UInt32.toNat_ofNat', Nat.mod_eq_of_lt (strtoul32_lt hvalue)]
        have h := @Carries.carries answers d (command rawValue.toUInt32)
        rw [hcarry, hactions] at h
        unfold Command.intervalActions at h
        rw [hword] at h
        cases hcommit : answers.committed <;>
          simpa [saveTimingConfig, Procedure.run_bind, Device.setMemory, Device.setEeprom,
            Device.commit, Board.setTiming, savedOr, hcommit] using h

theorem handleRelay_carries (remainder : Bytes) :
    Carries answers d (parseRelay remainder) ((handleRelay remainder).execute d) := by
  unfold handleRelay parseRelay Procedure.execute
  cases hargs :
      twoArguments "invalid RELAY format, expected 'RELAY [number] [state]' " remainder with
  | error message => exact Carries.fails message
  | ok args =>
    obtain ⟨relayText, stateText⟩ := args
    simp only [Handler.check, Procedure.run_bind, Procedure.run_check_ok, ok_bind]
    cases hnumber : parseRelayNumber relayText with
    | error message =>
      rw [Handler.run_relayNumber_error _ hnumber]
      exact Carries.fails message
    | ok relayIndex =>
      rw [Handler.run_relayNumber_ok _ hnumber]
      simp only [ok_bind]
      cases readState stateText with
      | none => exact Carries.fails _
      | some active =>
        have h := @Carries.carries answers d (.relay relayIndex active)
        simp only [Command.carryOut, Command.schedule, Command.relaySet, setRelayState_ofNat] at h
        simp only [Procedure.run_bind,
          Handler.run_setRelayState _ (Handler.relayIndex_toNat relayIndex)]
        simpa [Device.setRelay, Device.scheduler, Command.configure, Relays.set, Device.relays,
          Command.actions, Command.setting] using h

/-- Both parts of `SETIP`: the text that is saved, and the message. -/
theorem setIp_carries (relayIndex : Fin 4) {ip : Bytes} (saved failed : Bytes)
    (command : Command) (before : List Action) (hip : ip.length ≤ relayIpAddressMaxLen)
    (hcarry : command.carryOut answers d =
      { d with board := d.board.setRelayIp relayIndex ip }.commit answers.committed)
    (hactions : command.actions answers d =
      before ++ .index .relayIpAddresses relayIndex :: savedOr answers saved failed) :
    Carries answers d (.ok command)
      (Procedure.run (do
        setRelayIp ((relayIndex : Nat) + 1 - 1).toUInt8 ip
        if !(← saveRelayIpAddress answers ((relayIndex : Nat) + 1 - 1).toUInt8 ip) then fail failed
        print saved) { state := d, log := before }).2 := by
  have h := @Carries.carries answers d command
  have hindex := Handler.relayIndex_toNat relayIndex
  rw [hcarry, hactions] at h
  simp only [Procedure.run_bind, Handler.run_setRelayIp _ hindex,
    Handler.run_saveRelayIpAddress _ answers hindex hip]
  cases hcommit : answers.committed <;>
    simpa [Device.setMemory, Device.setEeprom, Device.commit, Board.setRelayIp, savedOr, hcommit,
      Procedure.run_bind] using h

theorem handleSetIp_carries (remainder : Bytes) :
    Carries answers d (parseSetIp remainder) ((handleSetIp answers remainder).execute d) := by
  unfold handleSetIp parseSetIp Procedure.execute
  simp only
  by_cases hremainder : trim remainder = []
  · simp only [hremainder, true_or, ↓reduceIte]
    exact Carries.fails _
  · simp only [hremainder, false_or, ↓reduceIte]
    split
    · exact Carries.fails _
    · cases hnumber : parseRelayNumber
          (trim ((splitAtIndex ' ' (trim remainder)).getD (trim remainder, [])).1) with
      | error message =>
        rw [Procedure.bind_returned (Handler.run_relayNumber_error _ hnumber)]
        exact Carries.fails message
      | ok relayIndex =>
        rw [Procedure.bind_finished (Handler.run_relayNumber_ok _ hnumber)]
        simp only [ok_bind]
        split
        · exact setIp_carries answers d relayIndex _ _ (.clearIp relayIndex) [] (Nat.zero_le _) rfl rfl
        · split
          · next text hparse =>
            have hstored : ∃ ipText, parseIpAddress ipText = some text := ⟨_, hparse⟩
            change Carries answers d (.ok (.setIp relayIndex ⟨text, hstored⟩)) _
            simp only [hparse]
            exact setIp_carries answers d relayIndex _ _ (.setIp relayIndex ⟨text, hstored⟩)
              [.copy .relayIpAddress text] (IpAddress.spec ⟨text, hstored⟩).2 rfl rfl
          · next hparse =>
            simp only [hparse]
            exact Carries.fails _

/-- A loop over a table looks at its items in turn. -/
theorem scanTable_spec (array : DeviceArray) (address : UInt16) (regs : List RegItem) (i : Nat) :
    (Handler.scanTable array address regs i).2 = regs.find? (·.address = address) ∧
      ∀ action ∈ (Handler.scanTable array address regs i).1,
        ∃ j, action = .index array j ∧ j < i + regs.length := by
  induction regs generalizing i with
  | nil => exact ⟨rfl, nofun⟩
  | cons reg regs ih =>
    obtain ⟨hfound, hlooked⟩ := ih (i + 1)
    unfold Handler.scanTable
    by_cases haddress : reg.address = address
    · simp [haddress]
    · simp only [haddress, ↓reduceIte, decide_false, Bool.false_eq_true, not_false_eq_true,
        List.find?_cons_of_neg, List.mem_cons, List.length_cons, forall_eq_or_imp]
      refine ⟨hfound, ⟨i, rfl, by omega⟩, fun action haction => ?_⟩
      obtain ⟨j, hj, hlt⟩ := hlooked action haction
      exact ⟨j, hj, by omega⟩

theorem run_findRegister (address : UInt16) (x : Execution Device Action) :
    ∃ looked, TableReads looked ∧ (Handler.findRegister address).run x =
      (some (findRegister address), { x with log := x.log ++ looked }) := by
  obtain ⟨hcontrol, hcontrolReads⟩ :=
    scanTable_spec .controlRegisters address controlRegisters 0
  obtain ⟨hmonitor, hmonitorReads⟩ :=
    scanTable_spec .monitorRegisters address monitorRegisters 0
  have hcontrolTable : TableReads
      (Handler.scanTable .controlRegisters address controlRegisters 0).1 := by
    intro action haction
    obtain ⟨j, rfl, hj⟩ := hcontrolReads action haction
    exact ⟨_, j, rfl, Or.inl rfl, hj.trans_eq (Nat.zero_add _)⟩
  have hmonitorTable : TableReads
      (Handler.scanTable .monitorRegisters address monitorRegisters 0).1 := by
    intro action haction
    obtain ⟨j, rfl, hj⟩ := hmonitorReads action haction
    exact ⟨_, j, rfl, Or.inr rfl, hj.trans_eq (Nat.zero_add _)⟩
  unfold Handler.findRegister findRegister
  rw [List.find?_append]
  simp only [hcontrol, hmonitor, Procedure.run_bind, Procedure.run_logAll]
  cases controlRegisters.find? (·.address = address) with
  | some reg => exact ⟨_, hcontrolTable, rfl⟩
  | none =>
    refine ⟨_, ?_, by
      simp only [Procedure.run_bind, Procedure.run_logAll, Procedure.run_pure,
        Option.none_or, List.append_assoc]
      rfl⟩
    intro action haction
    rcases List.mem_append.mp haction with h | h
    · exact hcontrolTable action h
    · exact hmonitorTable action h

theorem findRegister_address {address : UInt16} {reg : RegItem}
    (h : findRegister address = some reg) : reg.address = address := by
  simpa using List.find?_some h

theorem handleRead_carries (remainder : Bytes) :
    Carries answers d (parseRead remainder) ((handleRead answers remainder).execute d) := by
  unfold handleRead parseRead Procedure.execute
  simp only
  split
  · exact Carries.fails _
  · cases haddress : parseAddress (trim remainder) with
    | error message => exact Carries.fails message
    | ok address =>
      obtain ⟨looked, hlooked, hrun⟩ := run_findRegister address { state := d }
      simp only [Handler.check, Procedure.run_bind, Procedure.run_check_ok, ok_bind, hrun]
      cases hfound : findRegister address with
      | none => exact .rejected _ hlooked
      | some reg =>
        have h := @Carries.performed answers d (.read reg) looked hlooked
        have hsame : (Command.read reg).carryOut answers d = d := rfl
        have haddress' := findRegister_address hfound
        subst haddress'
        rw [hsame] at h
        simp only [Procedure.run_bind, Procedure.run_get]
        cases hsimulated : d.board.memory.simulationMode with
        | true => simpa [Command.actions, hsimulated] using h
        | false =>
          cases hresult : answers.readResult <;>
            simpa [Command.actions, Procedure.run_bind, hsimulated, hresult] using h

theorem handleOtaUrl_carries (remainder : Bytes) :
    Carries answers d (parseOtaUrl remainder) ((handleOtaUrl answers remainder).execute d) := by
  unfold handleOtaUrl parseOtaUrl Procedure.execute
  simp only
  split
  · exact Carries.fails _
  · have h := @Carries.carries answers d (.otaUrl (trim remainder))
    have hsame : (Command.otaUrl (trim remainder)).carryOut answers d = d := rfl
    rw [hsame] at h
    cases hresult : answers.updateResult <;>
      simpa [Command.actions, Procedure.run_bind, hresult] using h

theorem relayValue_carries (address value : UInt16) :
    Carries answers d (.ok (.relayValue address value))
      (Procedure.run (do
        let _ ← Handler.setRelayState (address - 1).toUInt8 (value ≠ 0)
        let active ← Handler.relayState answers (address - 1).toUInt8
        print (tcpCmd "RELAY " ++ decimal address.toNat ++ ascii " " ++ relayStateText active))
        { state := d }).2 := by
  have h := @Carries.carries answers d (.relayValue address value)
  simp only [Command.carryOut, Command.schedule, Command.relaySet, Command.actions] at h
  by_cases hindex : (address - 1).toUInt8.toNat < relayPinCount
  · have hset : setRelayState (address - 1).toUInt8 (value ≠ 0) =
        some (⟨(address - 1).toUInt8.toNat, hindex⟩, decide (value ≠ 0)) := dif_pos hindex
    have hrun := @Handler.run_setRelayState { state := d } (address - 1).toUInt8
      ⟨(address - 1).toUInt8.toNat, hindex⟩ rfl (decide (value ≠ 0))
    rw [hset] at h
    rw [Procedure.bind_finished hrun, Procedure.bind_finished (Handler.run_relayState _ _ _)]
    simp only [hindex, ↓reduceIte, ↓reduceDIte, Device.setRelay, Function.update_self,
      Handler.run_print] at h ⊢
    simpa [Device.scheduler, Device.relays, Relays.set, Command.configure, Command.setting] using h
  · have hset : setRelayState (address - 1).toUInt8 (value ≠ 0) = none := dif_neg hindex
    rw [hset] at h
    rw [Procedure.bind_finished (Handler.run_setRelayState_outside _ hindex _),
      Procedure.bind_finished (Handler.run_relayState _ _ _)]
    simp only [hindex, ↓reduceIte, ↓reduceDIte, Handler.run_print] at h ⊢
    exact h

theorem handleWrite_carries (line : Bytes) :
    Carries answers d (parseWrite line) ((handleWrite answers line).execute d) := by
  unfold handleWrite parseWrite Procedure.execute
  cases hargs : twoArguments "invalid format, expected '[regAddr] [uintValue]'" line with
  | error message => exact Carries.fails message
  | ok args =>
    obtain ⟨addrText, valueText⟩ := args
    simp only [Handler.check, Procedure.run_bind, Procedure.run_check_ok, ok_bind]
    cases haddress : parseAddress addrText with
    | error message => exact Carries.fails message
    | ok address =>
      simp only [Procedure.run_check_ok, ok_bind]
      cases strtoul32 valueText with
      | none => exact Carries.fails _
      | some rawValue =>
        simp only
        split
        · exact Carries.fails _
        · split
          · exact relayValue_carries answers d address rawValue.toUInt16
          · obtain ⟨looked, hlooked, hrun⟩ := run_findRegister address { state := d }
            simp only [Procedure.run_bind, hrun]
            cases hfound : findRegister address with
            | none => exact .rejected _ hlooked
            | some reg =>
              simp only
              split
              · exact .rejected _ hlooked
              · have h := @Carries.performed answers d (.write reg rawValue.toUInt16) looked hlooked
                have haddress' := findRegister_address hfound
                subst haddress'
                simp only [Command.carryOut, Command.schedule, Command.relaySet] at h
                cases hwritten : answers.written <;>
                  simpa [Procedure.run_bind, Device.scheduler, Device.relays, Relays.set,
                    Device.restartControlScan, Command.configure, Command.setting, Command.actions,
                    hwritten] using h

/-- The branches and the readers of their texts go together. -/
theorem handleNamed_carries {branches : List (Bytes × (Bytes → Handler Unit))}
    {forms : List (Bytes × (Bytes → Except Bytes Command))}
    (h : List.Forall₂ (fun branch form => branch.1 = form.1 ∧ ∀ remainder,
      Carries answers d (form.2 remainder) ((branch.2 remainder).execute d)) branches forms)
    (line : Bytes) :
    Carries answers d (parseNamed line forms) ((handleNamed answers line branches).execute d) := by
  induction h with
  | nil => exact handleWrite_carries answers d line
  | @cons branch form branches forms hform _ ih =>
    obtain ⟨name, handle⟩ := branch
    obtain ⟨name', parse⟩ := form
    obtain ⟨rfl, hcarries⟩ := hform
    unfold handleNamed parseNamed
    cases afterStart name line with
    | some remainder => exact hcarries remainder
    | none => exact ih

theorem namedBranches_carry : List.Forall₂ (fun branch form => branch.1 = form.1 ∧ ∀ remainder,
    Carries answers d (form.2 remainder) ((branch.2 remainder).execute d))
    (namedBranches answers) namedForms := by
  unfold namedBranches namedForms
  refine .cons ⟨rfl, handleWifi_carries answers d⟩ (.cons ⟨rfl, handleHost_carries answers d⟩
    (.cons ⟨rfl, handleSim_carries answers d⟩ (.cons ⟨rfl, ?_⟩ (.cons ⟨rfl, ?_⟩ (.cons ⟨rfl, ?_⟩
    (.cons ⟨rfl, handleRelay_carries answers d⟩ (.cons ⟨rfl, handleSetIp_carries answers d⟩
    (.cons ⟨rfl, handleRead_carries answers d⟩ (.cons ⟨rfl, handleOtaUrl_carries answers d⟩
    .nil)))))))))
  · exact handleInterval_carries answers d _ _ .ctrlScanMs (fun _ => rfl) fun _ => rfl
  · exact handleInterval_carries answers d _ _ .monScanMs (fun _ => rfl) fun _ => rfl
  · exact handleInterval_carries answers d _ _ .regSpacingMs (fun _ => rfl) fun _ => rfl

end Branches

/-- A line is rejected with a message and changes nothing, or its command is carried out. -/
theorem handleCommand_carries (answers : Answers) (d : Device) (rawLine : Bytes) :
    Carries answers d (parseCommandLine rawLine) (d.handleCommand answers rawLine) := by
  unfold Device.handleCommand handleCommandLine parseCommandLine
  simp only
  by_cases hempty : trim rawLine = []
  · simp only [hempty, ↓reduceIte]
    exact @Carries.carries answers d .empty
  · simp only [hempty, ↓reduceIte]
    exact handleNamed_carries answers d (namedBranches_carry answers d) (trim rawLine)

theorem board_handleCommand (d : Device) (answers : Answers) (rawLine : Bytes) :
    (d.handleCommand answers rawLine).state.board = d.board.handleCommand rawLine := by
  have hcarries := handleCommand_carries answers d rawLine
  unfold Board.handleCommand
  generalize d.handleCommand answers rawLine = result at hcarries ⊢
  generalize parseCommandLine rawLine = parsed at hcarries ⊢
  cases hcarries with
  | rejected message hlooked => rfl
  | performed command hlooked => rfl

/-- A line that saves a setting commits the whole copy of the EEPROM. -/
theorem handleCommand_flash (answers : Answers) (d : Device) (rawLine : Bytes) :
    (d.handleCommand answers rawLine).state.flash =
      if (lineSetting rawLine).isSome && answers.committed then
        (d.handleCommand answers rawLine).state.board.eeprom
      else d.flash := by
  have hcarries := handleCommand_carries answers d rawLine
  unfold lineSetting
  generalize d.handleCommand answers rawLine = x at hcarries ⊢
  generalize parseCommandLine rawLine = parsed at hcarries ⊢
  cases hcarries with
  | rejected message hlooked => rfl
  | performed command hlooked => rfl

end InverterMonitor.Firmware
