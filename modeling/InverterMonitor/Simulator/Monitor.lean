import InverterMonitor.Cxx.Arguments
import InverterMonitor.Firmware.Configuration

/-!
# The monitor simulator

The commands of `main.cpp` of `simulator_monitor`, which stands in for the
firmware: a command line is read with the functions of the C++ library, whose
exceptions escape, and the configuration is kept in a file with the layout of
the EEPROM.  Reading and writing the file succeed.

* `parseServerCommand_wifi`, `parseServerCommand_host`: how the lines with these
  names are read;
* `load_saveWiFiCredentials`, `load_saveMonitorServer`: what is saved is loaded.
-/

namespace InverterMonitor.MonitorSimulator
open Text Cxx Storage

/-! ## Constants -/

def wifiSsidMaxLen : Nat := 32
def wifiPasswordMaxLen : Nat := 64
def wifiSsidEepromOffset : Nat := 0
def wifiPasswordEepromOffset : Nat := wifiSsidEepromOffset + wifiSsidMaxLen + 1
def monitorHostMaxLen : Nat := 64
def monitorPortMaxLen : Nat := 6
def monitorHostEepromOffset : Nat := wifiPasswordEepromOffset + wifiPasswordMaxLen + 1
def monitorPortEepromOffset : Nat := monitorHostEepromOffset + monitorHostMaxLen + 1
def eepromSize : Nat := monitorPortEepromOffset + monitorPortMaxLen + 1

/-- The addresses of `controlRegisters`. -/
def controlRegisters : List UInt16 :=
  [20101, 20102, 20103, 20104, 20108, 20109, 20111, 20112, 20113, 20118, 20119, 10103, 10104,
    10105, 10107, 20125, 20127, 20128, 20132, 20142, 20143, 20144]

/-! ## The EEPROM file -/

abbrev EepromFile := Cells Byte

def readBytes (eeprom : EepromFile) (offset count : Nat) : Option Bytes :=
  if eepromSize < offset + count then none else some (slice eeprom offset count)

def writeBytes (eeprom : EepromFile) (offset : Nat) (src : Bytes) : EepromFile :=
  if eepromSize < offset + src.length then eeprom else store eeprom offset src

/-- The string that is left in a buffer of `maxLen` bytes. -/
def readEEPROMString (eeprom : EepromFile) (start maxLen : Nat) : Bytes :=
  match readBytes eeprom start maxLen with
  | none => []
  | some buffer => (buffer.takeWhile Firmware.isStringByte).take (maxLen - 1)

/-- No byte is written behind the `maxLen` bytes of a string. -/
def writeEEPROMString (eeprom : EepromFile) (start maxLen : Nat) (src : Bytes) : EepromFile :=
  writeBytes eeprom start (src.take maxLen ++ List.replicate (maxLen - (src.take maxLen).length) 0)

/-- The global variables that commands change, and the EEPROM file. -/
structure Simulator where
  wifiSSID : Bytes := []
  wifiPassword : Bytes := []
  monitorHost : Bytes := []
  monitorPortString : Bytes := []
  monitorPort : UInt16 := 0
  eeprom : EepromFile
  controlRegisterValues : UInt16 → Option UInt16 := fun _ => none

def loadMonitorServerFromEEPROM (s : Simulator) : Simulator × Bool :=
  let monitorHost := readEEPROMString s.eeprom monitorHostEepromOffset (monitorHostMaxLen + 1)
  let monitorPortString := readEEPROMString s.eeprom monitorPortEepromOffset (monitorPortMaxLen + 1)
  let monitorPort := (((strtoul 64 monitorPortString).map Converted.value).getD 0).toUInt16
  ({ s with
      monitorHost := monitorHost, monitorPortString := monitorPortString,
      monitorPort := monitorPort },
    monitorHost ≠ [] ∧ monitorPort ≠ 0)

def loadWiFiCredentialsFromEEPROM (s : Simulator) : Simulator × Bool :=
  let wifiSSID := readEEPROMString s.eeprom wifiSsidEepromOffset (wifiSsidMaxLen + 1)
  let wifiPassword := readEEPROMString s.eeprom wifiPasswordEepromOffset (wifiPasswordMaxLen + 1)
  ({ s with wifiSSID := wifiSSID, wifiPassword := wifiPassword }, wifiSSID ≠ [] ∧ wifiPassword ≠ [])

/-- `none` when the function returns false. -/
def saveWiFiCredentialsToEEPROM (ssid password : Bytes) (eeprom : EepromFile) :
    Option EepromFile :=
  if wifiSsidMaxLen < ssid.length ∨ wifiPasswordMaxLen < password.length then none
  else
    some (writeEEPROMString (writeEEPROMString eeprom wifiSsidEepromOffset wifiSsidMaxLen ssid)
      wifiPasswordEepromOffset wifiPasswordMaxLen password)

def saveMonitorServerToEEPROM (host portString : Bytes) (eeprom : EepromFile) :
    Option EepromFile :=
  if monitorHostMaxLen < host.length ∨ monitorPortMaxLen < portString.length then none
  else
    some (writeEEPROMString (writeEEPROMString eeprom monitorHostEepromOffset monitorHostMaxLen host)
      monitorPortEepromOffset monitorPortMaxLen portString)

/-! ## Commands -/

def isBlank (b : Byte) : Bool := b == ' ' || b == '\t' || b == '\r' || b == '\n'

def trimString (value : Bytes) : Bytes := trimBy isBlank value

inductive ServerCommand
  | empty
  | wifi (newSsid newPass : Bytes)
  | host (newHost : Bytes) (rawPort : UInt16)
  | write (address value : UInt16)

/-- A line is answered with a message, or an exception escapes. -/
inductive Refusal
  | message (text : Bytes)
  | raised (exception : Exception)

def refuse {α : Type} (text : String) : Except Refusal α :=
  .error (.message (ascii "TCP CMD: " ++ ascii text))

/-- The two arguments of a command. -/
def twoArguments (text : String) (remainder : Bytes) : Except Refusal (Bytes × Bytes) :=
  match cutAt ' ' (trimString remainder) with
  | none => refuse text
  | some (first, second) =>
    if trimString first = [] ∨ trimString second = [] then refuse text
    else .ok (trimString first, trimString second)

def parseWifi (remainder : Bytes) : Except Refusal ServerCommand := do
  let (newSsid, newPass) ← twoArguments "invalid WIFI format, expected 'WIFI [ssid] [password]'"
    remainder
  return .wifi newSsid newPass

/-- The two arguments of `HOST`; `stoul` may throw. -/
def hostCommand (newHost newPort : Bytes) : Except Refusal ServerCommand := do
  let rawPort ← (stoul newPort).mapError .raised
  if rawPort = 0 ∨ 0xFFFF < rawPort then refuse "invalid HOST port"
  else .ok (.host newHost rawPort.toUInt16)

def parseHost (remainder : Bytes) : Except Refusal ServerCommand := do
  let (newHost, newPort) ← twoArguments "invalid HOST format, expected 'HOST [address] [port]'"
    remainder
  hostCommand newHost newPort

/-- The form without a name, which catches the exceptions of both conversions. -/
def parseWrite (line : Bytes) : Except Refusal ServerCommand := do
  let (addrText, valueText) ← twoArguments "invalid format, expected '[regAddr] [uintValue]'" line
  match stoul addrText, stoul valueText with
  | .ok rawAddr, .ok rawValue =>
    if 0xFFFF < rawAddr ∨ 0xFFFF < rawValue then refuse "invalid register address or value"
    else if rawAddr.toUInt16 ∉ controlRegisters then
      .error (.message (ascii "TCP CMD: unknown register " ++ decimal rawAddr.toNat))
    else .ok (.write rawAddr.toUInt16 rawValue.toUInt16)
  | _, _ => refuse "invalid register address or value"

def parseServerCommand (rawLine : Bytes) : Except Refusal ServerCommand :=
  let line := trimString rawLine
  if line = [] then .ok .empty
  else
    match Firmware.afterStart (ascii "WIFI ") line with
    | some remainder => parseWifi remainder
    | none =>
      match Firmware.afterStart (ascii "HOST ") line with
      | some remainder => parseHost remainder
      | none => parseWrite line

/-- `strncpy` of `c_str()` into a buffer, and a terminator. -/
def strncpy (size : Nat) (s : Bytes) : Bytes := (Firmware.cString s).take (size - 1)

/-- What a command does, and what it prints. -/
def ServerCommand.perform (command : ServerCommand) (s : Simulator) : Simulator × Bytes :=
  match command with
  | .empty => (s, [])
  | .wifi newSsid newPass =>
    let s := { s with
      wifiSSID := strncpy (wifiSsidMaxLen + 1) newSsid
      wifiPassword := strncpy (wifiPasswordMaxLen + 1) newPass }
    match saveWiFiCredentialsToEEPROM s.wifiSSID s.wifiPassword s.eeprom with
    | none => (s, ascii "TCP CMD: failed to save WiFi credentials to EEPROM")
    | some eeprom =>
      ({ s with eeprom := eeprom },
        ascii "TCP CMD: WIFI credentials updated to: " ++ s.wifiSSID ++ ascii " / " ++
          s.wifiPassword)
  | .host newHost rawPort =>
    let s := { s with
      monitorHost := strncpy (monitorHostMaxLen + 1) newHost
      monitorPortString := (decimal rawPort.toNat).take monitorPortMaxLen
      monitorPort := rawPort }
    match saveMonitorServerToEEPROM s.monitorHost s.monitorPortString s.eeprom with
    | none => (s, ascii "TCP CMD: failed to save monitor host to EEPROM")
    | some eeprom =>
      ({ s with eeprom := eeprom },
        ascii "TCP CMD: monitor host updated to " ++ s.monitorHost ++ ascii ":" ++
          decimal s.monitorPort.toNat)
  | .write address value =>
    ({ s with
        controlRegisterValues := Function.update s.controlRegisterValues address (some value) },
      ascii "TCP CMD: wrote " ++ decimal address.toNat ++ ascii " = " ++ decimal value.toNat)

/-- `handleServerCommand`: the state and what was printed, or the exception that escapes. -/
def Simulator.handleServerCommand (s : Simulator) (rawLine : Bytes) :
    Except Exception (Simulator × Bytes) :=
  match parseServerCommand rawLine with
  | .ok command => .ok (command.perform s)
  | .error (.message text) => .ok (s, text)
  | .error (.raised exception) => .error exception

/-! ## Lines with a name -/

/-- What makes of two arguments the answer to a line. -/
def answer {α : Type} (text : String) (next : Bytes → Bytes → Except Refusal α)
    (arguments : Option (Bytes × Bytes)) : Except Refusal α :=
  arguments.elim (refuse text) fun p => next p.1 p.2

theorem twoArguments_bind {α : Type} (text : String) (remainder : Bytes)
    (next : Bytes × Bytes → Except Refusal α) :
    (twoArguments text remainder >>= next) =
      answer text (fun a b => next (a, b)) (argumentsBy isBlank remainder) := by
  unfold twoArguments argumentsBy trimString
  cases cutAt ' ' (trimBy isBlank remainder) with
  | none => rfl
  | some parts =>
    by_cases hempty : trimBy isBlank parts.1 = [] ∨ trimBy isBlank parts.2 = []
    · simp only [hempty, ↓reduceIte]
      rfl
    · simp only [hempty, ↓reduceIte]
      rfl

/-- A name alone is refused as a number. -/
theorem parseWrite_name {name : Bytes} (h : argumentsBy isBlank name = none) :
    parseWrite name = refuse "invalid format, expected '[regAddr] [uintValue]'" := by
  rw [parseWrite, twoArguments_bind, h]
  rfl

theorem parseServerCommand_wifi (rest : Bytes) :
    (argumentsBy isBlank rest = none ∧
      ∃ text, parseServerCommand (ascii "WIFI " ++ rest) = .error (.message text)) ∨
    ∃ newSsid newPass, argumentsBy isBlank rest = some (newSsid, newPass) ∧
      parseServerCommand (ascii "WIFI " ++ rest) = .ok (.wifi newSsid newPass) := by
  rcases @trimBy_named isBlank (ascii "WIFI") rest (by decide) (by decide) (by decide) with
    ⟨htrim, hname, hnone⟩ | ⟨rest', htrim, hrest'⟩
  · have hline : trimString (ascii "WIFI " ++ rest) = ascii "WIFI" := htrim
    have hparse : parseServerCommand (ascii "WIFI " ++ rest) = parseWrite (ascii "WIFI") := by
      simp only [parseServerCommand, hline]
      rfl
    exact Or.inl ⟨hnone, _, hparse.trans (parseWrite_name hname)⟩
  · have hline : trimString (ascii "WIFI " ++ rest) = ascii "WIFI " ++ rest' := htrim
    have hparse : parseServerCommand (ascii "WIFI " ++ rest) = parseWifi rest' := by
      simp only [parseServerCommand, hline]
      rfl
    rw [hparse, parseWifi, twoArguments_bind, hrest']
    cases argumentsBy isBlank rest with
    | none => exact Or.inl ⟨rfl, _, rfl⟩
    | some arguments => exact Or.inr ⟨arguments.1, arguments.2, rfl, rfl⟩

theorem parseServerCommand_host (rest : Bytes) :
    (argumentsBy isBlank rest = none ∧
      ∃ text, parseServerCommand (ascii "HOST " ++ rest) = .error (.message text)) ∨
    ∃ newHost newPort, argumentsBy isBlank rest = some (newHost, newPort) ∧
      parseServerCommand (ascii "HOST " ++ rest) = hostCommand newHost newPort := by
  rcases @trimBy_named isBlank (ascii "HOST") rest (by decide) (by decide) (by decide) with
    ⟨htrim, hname, hnone⟩ | ⟨rest', htrim, hrest'⟩
  · have hline : trimString (ascii "HOST " ++ rest) = ascii "HOST" := htrim
    have hparse : parseServerCommand (ascii "HOST " ++ rest) = parseWrite (ascii "HOST") := by
      simp only [parseServerCommand, hline]
      rfl
    exact Or.inl ⟨hnone, _, hparse.trans (parseWrite_name hname)⟩
  · have hline : trimString (ascii "HOST " ++ rest) = ascii "HOST " ++ rest' := htrim
    have hparse : parseServerCommand (ascii "HOST " ++ rest) = parseHost rest' := by
      simp only [parseServerCommand, hline]
      rfl
    rw [hparse, parseHost, twoArguments_bind, hrest']
    cases argumentsBy isBlank rest with
    | none => exact Or.inl ⟨rfl, _, rfl⟩
    | some arguments => exact Or.inr ⟨arguments.1, arguments.2, rfl, rfl⟩

/-! ## Saving and loading -/

theorem length_padded (src : Bytes) (maxLen : Nat) :
    (src.take maxLen ++ List.replicate (maxLen - (src.take maxLen).length) 0 : Bytes).length =
      maxLen := by
  rw [List.length_append, List.length_replicate, List.length_take]
  omega

/-- A string of the greatest length is read back, whatever the cell behind it holds. -/
theorem read_writeEEPROMString (eeprom : EepromFile) {start maxLen : Nat} {src : Bytes}
    (hfits : start + maxLen + 1 ≤ eepromSize) (hlength : src.length ≤ maxLen)
    (hbytes : ∀ c ∈ src, Firmware.isStringByte c = true) :
    readEEPROMString (writeEEPROMString eeprom start maxLen src) start (maxLen + 1) = src := by
  have hpadded := length_padded src maxLen
  have hwrite : writeEEPROMString eeprom start maxLen src =
      store eeprom start
        (src.take maxLen ++ List.replicate (maxLen - (src.take maxLen).length) 0) := by
    unfold writeEEPROMString writeBytes
    rw [hpadded, if_neg (by omega)]
  have hread := slice_store eeprom start
    (src.take maxLen ++ List.replicate (maxLen - (src.take maxLen).length) 0)
  rw [hpadded, List.take_of_length_le hlength] at hread
  rw [hwrite, List.take_of_length_le hlength]
  simp only [readEEPROMString, readBytes, if_neg (show ¬eepromSize < start + (maxLen + 1) by omega)]
  rw [slice_add, hread, Nat.add_sub_cancel, List.append_assoc,
    List.takeWhile_append_of_pos hbytes]
  rcases Nat.eq_or_lt_of_le hlength with hfull | hshort
  · rw [List.take_append_of_le_length (by omega), List.take_of_length_le hlength]
  · rw [Nat.sub_eq_iff_eq_add hlength |>.mpr
      (show maxLen = (maxLen - src.length - 1 + 1) + src.length by omega), List.replicate_succ,
      List.cons_append, takeWhile_of_stops ((stops_cons _ _ _).mpr (by decide)), List.append_nil,
      List.take_of_length_le hlength]

theorem readEEPROMString_apart (eeprom : EepromFile) {start maxLen start' maxLen' : Nat}
    (src : Bytes) (h : start' + maxLen' ≤ start ∨ start + maxLen ≤ start') :
    readEEPROMString (writeEEPROMString eeprom start maxLen src) start' maxLen' =
      readEEPROMString eeprom start' maxLen' := by
  have hslice : slice (writeEEPROMString eeprom start maxLen src) start' maxLen' =
      slice eeprom start' maxLen' := by
    unfold writeEEPROMString writeBytes
    split
    · rfl
    · rw [slice_store_apart]
      rwa [length_padded]
  unfold readEEPROMString readBytes
  rw [hslice]

theorem eepromLayout : wifiSsidEepromOffset + wifiSsidMaxLen + 1 = wifiPasswordEepromOffset ∧
    wifiPasswordEepromOffset + wifiPasswordMaxLen + 1 = monitorHostEepromOffset ∧
    monitorHostEepromOffset + monitorHostMaxLen + 1 = monitorPortEepromOffset ∧
    monitorPortEepromOffset + monitorPortMaxLen + 1 = eepromSize := ⟨rfl, rfl, rfl, rfl⟩

section Saved

variable {s : Simulator} {eeprom : EepromFile}

theorem load_saveWiFiCredentials {ssid password : Bytes} (hssid : ssid.length ≤ wifiSsidMaxLen)
    (hpassword : password.length ≤ wifiPasswordMaxLen)
    (hssidBytes : ∀ c ∈ ssid, Firmware.isStringByte c = true)
    (hpasswordBytes : ∀ c ∈ password, Firmware.isStringByte c = true)
    (hsaved : saveWiFiCredentialsToEEPROM ssid password eeprom = some s.eeprom) :
    (loadWiFiCredentialsFromEEPROM s).1.wifiSSID = ssid ∧
      (loadWiFiCredentialsFromEEPROM s).1.wifiPassword = password := by
  have hlayout := eepromLayout
  unfold saveWiFiCredentialsToEEPROM at hsaved
  rw [if_neg (by omega), Option.some.injEq] at hsaved
  simp only [loadWiFiCredentialsFromEEPROM, ← hsaved]
  constructor
  · rw [readEEPROMString_apart _ _ (by omega),
      read_writeEEPROMString _ (by omega) hssid hssidBytes]
  · rw [read_writeEEPROMString _ (by omega) hpassword hpasswordBytes]

theorem load_saveMonitorServer {host portString : Bytes} (hhost : host.length ≤ monitorHostMaxLen)
    (hport : portString.length ≤ monitorPortMaxLen)
    (hhostBytes : ∀ c ∈ host, Firmware.isStringByte c = true)
    (hportBytes : ∀ c ∈ portString, Firmware.isStringByte c = true)
    (hsaved : saveMonitorServerToEEPROM host portString eeprom = some s.eeprom) :
    (loadMonitorServerFromEEPROM s).1.monitorHost = host ∧
      (loadMonitorServerFromEEPROM s).1.monitorPort =
        (((strtoul 64 portString).map Converted.value).getD 0).toUInt16 := by
  have hlayout := eepromLayout
  unfold saveMonitorServerToEEPROM at hsaved
  rw [if_neg (by omega), Option.some.injEq] at hsaved
  simp only [loadMonitorServerFromEEPROM, ← hsaved]
  constructor
  · rw [readEEPROMString_apart _ _ (by omega),
      read_writeEEPROMString _ (by omega) hhost hhostBytes]
  · rw [read_writeEEPROMString _ (by omega) hport hportBytes]

end Saved

end InverterMonitor.MonitorSimulator
