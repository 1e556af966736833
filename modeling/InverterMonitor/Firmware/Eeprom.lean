import InverterMonitor.Firmware.Scheduler
import InverterMonitor.Storage.Cells

/-!
# The EEPROM of the inverter firmware

The layout constants, and the functions of `inverter.ino` that load and save the
configuration.  Commits succeed.

* `read_writeEEPROMString`, `read_writeEEPROMUint32`: what is written is read back;
* `load_saveWiFiCredentials` and its siblings: after a save, loading gives what
  was saved, and the other settings as before.
-/

namespace InverterMonitor.Firmware
open Text Cxx Storage

/-! ## Layout -/

def relayIpEepromStride : Nat := relayIpAddressMaxLen + 1
def wifiSsidEepromOffset : Nat := 0
def wifiPasswordEepromOffset : Nat := wifiSsidEepromOffset + wifiSsidMaxLen + 1
def monitorHostEepromOffset : Nat := wifiPasswordEepromOffset + wifiPasswordMaxLen + 1
def monitorPortEepromOffset : Nat := monitorHostEepromOffset + monitorHostMaxLen + 1
def simulationModeEepromOffset : Nat := monitorPortEepromOffset + monitorPortMaxLen + 1
def timingConfigValidOffset : Nat := simulationModeEepromOffset + 1
def controlScanIntervalEepromOffset : Nat := timingConfigValidOffset + 1
def monitorScanIntervalEepromOffset : Nat := controlScanIntervalEepromOffset + 4
def registerReadSpacingEepromOffset : Nat := monitorScanIntervalEepromOffset + 4
def relayIpEepromOffset : Nat := registerReadSpacingEepromOffset + 4
def eepromSize : Nat := relayIpEepromOffset + relayPinCount * relayIpEepromStride

abbrev Eeprom := Cells Byte

/-! ## Strings and words -/

/-- Zero ends a string, and so does an erased cell. -/
def isStringByte (c : Byte) : Bool := c ≠ 0 ∧ c ≠ 255

/-- The string that is left in a buffer of `maxLen` bytes. -/
def readEEPROMString (eeprom : Eeprom) (start maxLen : Nat) : Bytes :=
  ((slice eeprom start maxLen).takeWhile isStringByte).take (maxLen - 1)

/-- The bytes of a string are followed by zeros up to `start + maxLen`. -/
def writeEEPROMString (eeprom : Eeprom) (start maxLen : Nat) (src : Bytes) : Eeprom :=
  store eeprom start
    (src.take maxLen ++ List.replicate (maxLen + 1 - (src.take maxLen).length) 0)

def readEEPROMUint32 (eeprom : Eeprom) (start : Nat) : UInt32 :=
  (eeprom start).toUInt32 ||| (eeprom (start + 1)).toUInt32 <<< 8 |||
    (eeprom (start + 2)).toUInt32 <<< 16 ||| (eeprom (start + 3)).toUInt32 <<< 24

def uint32Bytes (value : UInt32) : Bytes :=
  [(value &&& 0xFF).toUInt8, ((value >>> 8) &&& 0xFF).toUInt8, ((value >>> 16) &&& 0xFF).toUInt8,
    ((value >>> 24) &&& 0xFF).toUInt8]

def writeEEPROMUint32 (eeprom : Eeprom) (start : Nat) (value : UInt32) : Eeprom :=
  store eeprom start (uint32Bytes value)

/-! ## Loading -/

/-- The variables that are kept in the EEPROM. -/
@[ext] structure Configuration where
  wifiSSID : Bytes
  wifiPassword : Bytes
  monitorHost : Bytes
  monitorPortString : Bytes
  monitorPort : UInt16
  simulationMode : Bool
  timing : TimingConfig
  relayIpAddresses : Fin 4 → Bytes

def loadWiFiCredentialsFromEEPROM (eeprom : Eeprom) : Bytes × Bytes :=
  (readEEPROMString eeprom wifiSsidEepromOffset (wifiSsidMaxLen + 1),
    readEEPROMString eeprom wifiPasswordEepromOffset (wifiPasswordMaxLen + 1))

/-- Host, port string and port; none of them is kept without the others. -/
def loadMonitorServerFromEEPROM (eeprom : Eeprom) : Bytes × Bytes × UInt16 :=
  let monitorHost := readEEPROMString eeprom monitorHostEepromOffset (monitorHostMaxLen + 1)
  let monitorPortString := readEEPROMString eeprom monitorPortEepromOffset (monitorPortMaxLen + 1)
  let monitorPort := ((strtoul32 monitorPortString).getD 0).toUInt16
  if monitorHost = [] ∨ monitorPort = 0 then ([], [], 0)
  else (monitorHost, monitorPortString, monitorPort)

def loadSimulationModeFromEEPROM (eeprom : Eeprom) : Bool :=
  let storedValue := eeprom simulationModeEepromOffset
  if storedValue = 0xFF then true else storedValue ≠ 0

def loadTimingConfigFromEEPROM (eeprom : Eeprom) : TimingConfig :=
  if eeprom timingConfigValidOffset ≠ 0xAA then {}
  else
    let controlValue := readEEPROMUint32 eeprom controlScanIntervalEepromOffset
    let monitorValue := readEEPROMUint32 eeprom monitorScanIntervalEepromOffset
    let spacingValue := readEEPROMUint32 eeprom registerReadSpacingEepromOffset
    { controlScanIntervalMs :=
        if controlValue = 0 then defaultControlScanIntervalMs else controlValue
      monitorScanIntervalMs :=
        if monitorValue = 0 then defaultMonitorScanIntervalMs else monitorValue
      registerReadSpacingMs :=
        if spacingValue = 0 then defaultRegisterReadSpacingMs else spacingValue }

def loadRelayIpAddressesFromEEPROM (eeprom : Eeprom) (i : Fin 4) : Bytes :=
  readEEPROMString eeprom (relayIpEepromOffset + i * relayIpEepromStride) relayIpEepromStride

/-- The load functions that `setup` calls. -/
def loadConfiguration (eeprom : Eeprom) : Configuration where
  wifiSSID := (loadWiFiCredentialsFromEEPROM eeprom).1
  wifiPassword := (loadWiFiCredentialsFromEEPROM eeprom).2
  monitorHost := (loadMonitorServerFromEEPROM eeprom).1
  monitorPortString := (loadMonitorServerFromEEPROM eeprom).2.1
  monitorPort := (loadMonitorServerFromEEPROM eeprom).2.2
  simulationMode := loadSimulationModeFromEEPROM eeprom
  timing := loadTimingConfigFromEEPROM eeprom
  relayIpAddresses := loadRelayIpAddressesFromEEPROM eeprom

/-! ## Saving -/

def saveWiFiCredentialsToEEPROM (ssid password : Bytes) (eeprom : Eeprom) : Eeprom :=
  if wifiSsidMaxLen < ssid.length ∨ wifiPasswordMaxLen < password.length then eeprom
  else
    writeEEPROMString (writeEEPROMString eeprom wifiSsidEepromOffset wifiSsidMaxLen ssid)
      wifiPasswordEepromOffset wifiPasswordMaxLen password

def saveMonitorServerToEEPROM (host portString : Bytes) (eeprom : Eeprom) : Eeprom :=
  if monitorHostMaxLen < host.length ∨ monitorPortMaxLen < portString.length then eeprom
  else
    writeEEPROMString (writeEEPROMString eeprom monitorHostEepromOffset monitorHostMaxLen host)
      monitorPortEepromOffset monitorPortMaxLen portString

def saveRelayIpAddressToEEPROM (relayIndex : Fin 4) (ip : Bytes) (eeprom : Eeprom) : Eeprom :=
  if relayIpAddressMaxLen < ip.length then eeprom
  else
    writeEEPROMString eeprom (relayIpEepromOffset + relayIndex * relayIpEepromStride)
      relayIpAddressMaxLen ip

def saveTimingConfigToEEPROM (timing : TimingConfig) (eeprom : Eeprom) : Eeprom :=
  let eeprom := store eeprom timingConfigValidOffset [0xAA]
  let eeprom :=
    writeEEPROMUint32 eeprom controlScanIntervalEepromOffset timing.controlScanIntervalMs
  let eeprom :=
    writeEEPROMUint32 eeprom monitorScanIntervalEepromOffset timing.monitorScanIntervalMs
  writeEEPROMUint32 eeprom registerReadSpacingEepromOffset timing.registerReadSpacingMs

def saveSimulationModeToEEPROM (enabled : Bool) (eeprom : Eeprom) : Eeprom :=
  store eeprom simulationModeEepromOffset [if enabled then 1 else 0]

/-! ## Strings and words, read back -/

theorem length_padded (src : Bytes) (maxLen : Nat) :
    (src.take maxLen ++ List.replicate (maxLen + 1 - (src.take maxLen).length) 0 : Bytes).length =
      maxLen + 1 := by
  rw [List.length_append, List.length_replicate, List.length_take]
  omega

theorem read_writeEEPROMString (eeprom : Eeprom) (start : Nat) {maxLen : Nat} {src : Bytes}
    (hlength : src.length ≤ maxLen) (hbytes : ∀ c ∈ src, isStringByte c = true) :
    readEEPROMString (writeEEPROMString eeprom start maxLen src) start (maxLen + 1) = src := by
  have hslice := slice_store eeprom start
    (src.take maxLen ++ List.replicate (maxLen + 1 - (src.take maxLen).length) 0)
  rw [length_padded, List.take_of_length_le hlength] at hslice
  rw [readEEPROMString, writeEEPROMString, List.take_of_length_le hlength, hslice,
    takeWhile_append_stop hbytes, Nat.add_sub_cancel, List.take_of_length_le hlength]
  rw [show maxLen + 1 - src.length = (maxLen - src.length) + 1 by omega, List.replicate_succ]
  exact (stops_cons _ _ _).mpr (by decide)

theorem or_shiftLeft {a b i : Nat} (h : a < 2 ^ i) : a ||| b <<< i = a + b * 2 ^ i := by
  rw [Nat.or_comm, ← Nat.shiftLeft_add_eq_or_of_lt h, Nat.shiftLeft_eq, Nat.add_comm]

/-- A byte at its place in a word. -/
theorem toNat_shiftedByte (b : UInt8) {n : Nat} (hn : n ≤ 24) :
    (b.toUInt32 <<< UInt32.ofNat n).toNat = b.toNat <<< n := by
  have hb := b.toNat_lt
  have hlt : b.toNat * 2 ^ n < 2 ^ 32 := by
    have hpow : 2 ^ n ≤ 2 ^ 24 := Nat.pow_le_pow_right (by decide) hn
    calc b.toNat * 2 ^ n ≤ b.toNat * 2 ^ 24 := Nat.mul_le_mul_left _ hpow
      _ < 2 ^ 32 := by omega
  rw [UInt32.toNat_shiftLeft, UInt8.toNat_toUInt32, UInt32.toNat_ofNat', Nat.mod_eq_of_lt (a := n)
    (by omega), Nat.mod_eq_of_lt (a := n) (by omega), Nat.shiftLeft_eq, Nat.mod_eq_of_lt hlt]

theorem toNat_byteOf (value : UInt32) {n : Nat} (hn : n < 32) :
    ((value >>> UInt32.ofNat n) &&& 0xFF).toUInt8.toNat = value.toNat / 2 ^ n % 256 := by
  have hmask (m : Nat) : m &&& 255 = m % 256 := Nat.and_two_pow_sub_one_eq_mod m 8
  have hconst : (255 : UInt32).toNat = 255 := rfl
  rw [UInt32.toNat_toUInt8, UInt32.toNat_and, UInt32.toNat_shiftRight, hconst, hmask, Nat.mod_mod,
    Nat.shiftRight_eq_div_pow, UInt32.toNat_ofNat', Nat.mod_eq_of_lt (a := n) (by omega),
    Nat.mod_eq_of_lt hn]

/-- The four bytes of a word at their places. -/
theorem toNat_wordOf (b₀ b₁ b₂ b₃ : UInt8) :
    (b₀.toUInt32 ||| b₁.toUInt32 <<< 8 ||| b₂.toUInt32 <<< 16 ||| b₃.toUInt32 <<< 24).toNat =
      b₀.toNat + b₁.toNat * 2 ^ 8 + b₂.toNat * 2 ^ 16 + b₃.toNat * 2 ^ 24 := by
  have h₁ := toNat_shiftedByte b₁ (n := 8) (by decide)
  have h₂ := toNat_shiftedByte b₂ (n := 16) (by decide)
  have h₃ := toNat_shiftedByte b₃ (n := 24) (by decide)
  have hlt₀ := b₀.toNat_lt
  have hlt₁ := b₁.toNat_lt
  have hlt₂ := b₂.toNat_lt
  change (b₁.toUInt32 <<< 8).toNat = _ at h₁
  change (b₂.toUInt32 <<< 16).toNat = _ at h₂
  change (b₃.toUInt32 <<< 24).toNat = _ at h₃
  rw [UInt32.toNat_or, UInt32.toNat_or, UInt32.toNat_or, h₁, h₂, h₃, UInt8.toNat_toUInt32,
    or_shiftLeft (a := b₀.toNat) (by omega), or_shiftLeft (b := b₂.toNat) (by omega),
    or_shiftLeft (by omega)]

theorem read_writeEEPROMUint32 (eeprom : Eeprom) (start : Nat) (value : UInt32) :
    readEEPROMUint32 (writeEEPROMUint32 eeprom start value) start = value := by
  have hslice : slice (writeEEPROMUint32 eeprom start value) start 4 = uint32Bytes value :=
    slice_store eeprom start (uint32Bytes value)
  simp only [slice, uint32Bytes, List.cons.injEq, and_true, Nat.add_assoc, Nat.reduceAdd] at hslice
  obtain ⟨h₀, h₁, h₂, h₃⟩ := hslice
  have hbyte₀ : (value &&& 0xFF).toUInt8.toNat = value.toNat % 256 := by
    have h := toNat_byteOf value (n := 0) (by decide)
    have hzero : UInt32.ofNat 0 = 0 := rfl
    rwa [hzero, UInt32.shiftRight_zero, Nat.pow_zero, Nat.div_one] at h
  have hbyte₁ := toNat_byteOf value (n := 8) (by decide)
  have hbyte₂ := toNat_byteOf value (n := 16) (by decide)
  have hbyte₃ := toNat_byteOf value (n := 24) (by decide)
  change ((value >>> 8) &&& 0xFF).toUInt8.toNat = _ at hbyte₁
  change ((value >>> 16) &&& 0xFF).toUInt8.toNat = _ at hbyte₂
  change ((value >>> 24) &&& 0xFF).toUInt8.toNat = _ at hbyte₃
  have hlt := value.toNat_lt
  apply UInt32.toNat_inj.mp
  rw [readEEPROMUint32, toNat_wordOf, h₀, h₁, h₂, h₃, hbyte₀, hbyte₁, hbyte₂, hbyte₃]
  omega

/-! ## The parts of the layout -/

theorem eepromLayout :
    wifiSsidEepromOffset = 0 ∧ wifiPasswordEepromOffset = 33 ∧ monitorHostEepromOffset = 98 ∧
      monitorPortEepromOffset = 163 ∧ simulationModeEepromOffset = 170 ∧
      timingConfigValidOffset = 171 ∧ controlScanIntervalEepromOffset = 172 ∧
      monitorScanIntervalEepromOffset = 176 ∧ registerReadSpacingEepromOffset = 180 ∧
      relayIpEepromOffset = 184 ∧ relayIpEepromStride = 16 ∧ eepromSize = 248 := by
  decide

theorem maxLengths :
    wifiSsidMaxLen = 32 ∧ wifiPasswordMaxLen = 64 ∧ monitorHostMaxLen = 64 ∧
      monitorPortMaxLen = 6 ∧ relayIpAddressMaxLen = 15 := by
  decide

/-- The cells from `start` up to `stop` are the same. -/
def AgreeOn (start stop : Nat) (eeprom eeprom' : Eeprom) : Prop :=
  ∀ i, start ≤ i → i < stop → eeprom i = eeprom' i

/-- Saving changed no cells but those from `start` up to `stop`. -/
def ChangesOnly (start stop : Nat) (saved eeprom : Eeprom) : Prop :=
  ∀ i, i < start ∨ stop ≤ i → saved i = eeprom i

theorem ChangesOnly.agreeOn {start stop low high : Nat} {saved eeprom : Eeprom}
    (h : ChangesOnly start stop saved eeprom) (hapart : high ≤ start ∨ stop ≤ low) :
    AgreeOn low high saved eeprom := by
  intro i hlow hhigh
  exact h i (by omega)

theorem AgreeOn.readEEPROMString {start stop : Nat} {eeprom eeprom' : Eeprom}
    (h : AgreeOn start stop eeprom eeprom') (offset : Nat) {maxLen : Nat} (hstart : start ≤ offset)
    (hstop : offset + maxLen ≤ stop) :
    readEEPROMString eeprom offset maxLen = readEEPROMString eeprom' offset maxLen := by
  have hslice : slice eeprom offset maxLen = slice eeprom' offset maxLen :=
    slice_congr fun i hlow hhigh => h i (by omega) (by omega)
  unfold Firmware.readEEPROMString
  rw [hslice]

theorem AgreeOn.readEEPROMUint32 {start stop : Nat} {eeprom eeprom' : Eeprom}
    (h : AgreeOn start stop eeprom eeprom') (offset : Nat) (hstart : start ≤ offset)
    (hstop : offset + 4 ≤ stop) :
    readEEPROMUint32 eeprom offset = readEEPROMUint32 eeprom' offset := by
  unfold Firmware.readEEPROMUint32
  rw [h offset (by omega) (by omega), h (offset + 1) (by omega) (by omega),
    h (offset + 2) (by omega) (by omega), h (offset + 3) (by omega) (by omega)]

section Parts

variable {eeprom eeprom' : Eeprom}

theorem loadWiFi_congr (h : AgreeOn wifiSsidEepromOffset monitorHostEepromOffset eeprom eeprom') :
    loadWiFiCredentialsFromEEPROM eeprom = loadWiFiCredentialsFromEEPROM eeprom' := by
  have hlayout := eepromLayout
  have hlengths := maxLengths
  unfold loadWiFiCredentialsFromEEPROM
  rw [h.readEEPROMString _ (by omega) (by omega), h.readEEPROMString _ (by omega) (by omega)]

theorem loadMonitorServer_congr
    (h : AgreeOn monitorHostEepromOffset simulationModeEepromOffset eeprom eeprom') :
    loadMonitorServerFromEEPROM eeprom = loadMonitorServerFromEEPROM eeprom' := by
  have hlayout := eepromLayout
  have hlengths := maxLengths
  unfold loadMonitorServerFromEEPROM
  rw [h.readEEPROMString monitorHostEepromOffset (by omega) (by omega),
    h.readEEPROMString monitorPortEepromOffset (by omega) (by omega)]

theorem loadSimulationMode_congr
    (h : AgreeOn simulationModeEepromOffset timingConfigValidOffset eeprom eeprom') :
    loadSimulationModeFromEEPROM eeprom = loadSimulationModeFromEEPROM eeprom' := by
  have hlayout := eepromLayout
  unfold loadSimulationModeFromEEPROM
  rw [h simulationModeEepromOffset (by omega) (by omega)]

theorem loadTimingConfig_congr
    (h : AgreeOn timingConfigValidOffset relayIpEepromOffset eeprom eeprom') :
    loadTimingConfigFromEEPROM eeprom = loadTimingConfigFromEEPROM eeprom' := by
  have hlayout := eepromLayout
  unfold loadTimingConfigFromEEPROM
  rw [h timingConfigValidOffset (by omega) (by omega),
    h.readEEPROMUint32 controlScanIntervalEepromOffset (by omega) (by omega),
    h.readEEPROMUint32 monitorScanIntervalEepromOffset (by omega) (by omega),
    h.readEEPROMUint32 registerReadSpacingEepromOffset (by omega) (by omega)]

theorem loadRelayIpAddresses_congr {i : Fin 4}
    (h : AgreeOn (relayIpEepromOffset + i * relayIpEepromStride)
      (relayIpEepromOffset + i * relayIpEepromStride + relayIpEepromStride) eeprom eeprom') :
    loadRelayIpAddressesFromEEPROM eeprom i = loadRelayIpAddressesFromEEPROM eeprom' i :=
  h.readEEPROMString _ (Nat.le_refl _) (Nat.le_refl _)

end Parts

theorem writeEEPROMString_apart (eeprom : Eeprom) {start maxLen i : Nat} (src : Bytes)
    (h : i < start ∨ start + maxLen < i) : writeEEPROMString eeprom start maxLen src i = eeprom i := by
  apply store_apart
  rw [length_padded]
  omega

theorem writeEEPROMUint32_apart (eeprom : Eeprom) {start i : Nat} (value : UInt32)
    (h : i < start ∨ start + 4 ≤ i) : writeEEPROMUint32 eeprom start value i = eeprom i :=
  store_apart eeprom (uint32Bytes value) h

theorem writeEEPROMString_changes (eeprom : Eeprom) (start maxLen : Nat) (src : Bytes) :
    ChangesOnly start (start + maxLen + 1) (writeEEPROMString eeprom start maxLen src) eeprom :=
  fun _ hi => writeEEPROMString_apart eeprom src (by omega)

theorem writeEEPROMUint32_changes (eeprom : Eeprom) (start : Nat) (value : UInt32) :
    ChangesOnly start (start + 4) (writeEEPROMUint32 eeprom start value) eeprom :=
  fun _ hi => writeEEPROMUint32_apart eeprom value hi

/-! ## Loading what was saved -/

section Saved

variable (eeprom : Eeprom)

theorem load_saveWiFiCredentials {ssid password : Bytes} (hssid : ssid.length ≤ wifiSsidMaxLen)
    (hpassword : password.length ≤ wifiPasswordMaxLen)
    (hssidBytes : ∀ c ∈ ssid, isStringByte c = true)
    (hpasswordBytes : ∀ c ∈ password, isStringByte c = true) :
    loadConfiguration (saveWiFiCredentialsToEEPROM ssid password eeprom) =
      { loadConfiguration eeprom with wifiSSID := ssid, wifiPassword := password } := by
  have hlayout := eepromLayout
  have hlengths := maxLengths
  have hsave : saveWiFiCredentialsToEEPROM ssid password eeprom =
      writeEEPROMString (writeEEPROMString eeprom wifiSsidEepromOffset wifiSsidMaxLen ssid)
        wifiPasswordEepromOffset wifiPasswordMaxLen password := if_neg (by omega)
  have hwifi : loadWiFiCredentialsFromEEPROM (saveWiFiCredentialsToEEPROM ssid password eeprom) =
      (ssid, password) := by
    have hwrite := writeEEPROMString_changes
      (writeEEPROMString eeprom wifiSsidEepromOffset wifiSsidMaxLen ssid)
      wifiPasswordEepromOffset wifiPasswordMaxLen password
    have hkeep : AgreeOn wifiSsidEepromOffset wifiPasswordEepromOffset _ _ :=
      hwrite.agreeOn (by omega)
    rw [hsave, loadWiFiCredentialsFromEEPROM, hkeep.readEEPROMString _ (by omega) (by omega),
      read_writeEEPROMString _ _ hssid hssidBytes,
      read_writeEEPROMString _ _ hpassword hpasswordBytes]
  have hchanges : ChangesOnly wifiSsidEepromOffset monitorHostEepromOffset
      (saveWiFiCredentialsToEEPROM ssid password eeprom) eeprom := by
    intro i hi
    rw [hsave, writeEEPROMString_apart _ _ (by omega), writeEEPROMString_apart _ _ (by omega)]
  have hmonitor := loadMonitorServer_congr (hchanges.agreeOn (by omega))
  have hsimulation := loadSimulationMode_congr (hchanges.agreeOn (by omega))
  have htiming := loadTimingConfig_congr (hchanges.agreeOn (by omega))
  have hrelays := funext fun i : Fin 4 =>
    loadRelayIpAddresses_congr (i := i) (hchanges.agreeOn (by omega))
  simp only [loadConfiguration, hwifi, hmonitor, hsimulation, htiming, hrelays]

theorem load_saveMonitorServer {host portString : Bytes} {rawPort : Nat}
    (hhost : host.length ≤ monitorHostMaxLen) (hport : portString.length ≤ monitorPortMaxLen)
    (hhostBytes : ∀ c ∈ host, isStringByte c = true)
    (hportBytes : ∀ c ∈ portString, isStringByte c = true)
    (hnonempty : host ≠ []) (hparse : strtoul32 portString = some rawPort)
    (hrange : rawPort.toUInt16 ≠ 0) :
    loadConfiguration (saveMonitorServerToEEPROM host portString eeprom) =
      { loadConfiguration eeprom with
        monitorHost := host, monitorPortString := portString,
        monitorPort := rawPort.toUInt16 } := by
  have hlayout := eepromLayout
  have hlengths := maxLengths
  have hsave : saveMonitorServerToEEPROM host portString eeprom =
      writeEEPROMString (writeEEPROMString eeprom monitorHostEepromOffset monitorHostMaxLen host)
        monitorPortEepromOffset monitorPortMaxLen portString := if_neg (by omega)
  have hmonitor : loadMonitorServerFromEEPROM
      (saveMonitorServerToEEPROM host portString eeprom) =
        (host, portString, rawPort.toUInt16) := by
    have hwrite := writeEEPROMString_changes
      (writeEEPROMString eeprom monitorHostEepromOffset monitorHostMaxLen host)
      monitorPortEepromOffset monitorPortMaxLen portString
    have hkeep : AgreeOn monitorHostEepromOffset monitorPortEepromOffset _ _ :=
      hwrite.agreeOn (by omega)
    rw [hsave]
    simp only [loadMonitorServerFromEEPROM]
    rw [hkeep.readEEPROMString _ (by omega) (by omega), read_writeEEPROMString _ _ hhost hhostBytes,
      read_writeEEPROMString _ _ hport hportBytes, hparse]
    exact if_neg (not_or.mpr ⟨hnonempty, hrange⟩)
  have hchanges : ChangesOnly monitorHostEepromOffset simulationModeEepromOffset
      (saveMonitorServerToEEPROM host portString eeprom) eeprom := by
    intro i hi
    rw [hsave, writeEEPROMString_apart _ _ (by omega), writeEEPROMString_apart _ _ (by omega)]
  have hwifi := loadWiFi_congr (hchanges.agreeOn (by omega))
  have hsimulation := loadSimulationMode_congr (hchanges.agreeOn (by omega))
  have htiming := loadTimingConfig_congr (hchanges.agreeOn (by omega))
  have hrelays := funext fun i : Fin 4 =>
    loadRelayIpAddresses_congr (i := i) (hchanges.agreeOn (by omega))
  simp only [loadConfiguration, hwifi, hmonitor, hsimulation, htiming, hrelays]

theorem load_saveSimulationMode (enabled : Bool) :
    loadConfiguration (saveSimulationModeToEEPROM enabled eeprom) =
      { loadConfiguration eeprom with simulationMode := enabled } := by
  have hlayout := eepromLayout
  have hsimulation :
      loadSimulationModeFromEEPROM (saveSimulationModeToEEPROM enabled eeprom) = enabled := by
    have hcell : saveSimulationModeToEEPROM enabled eeprom simulationModeEepromOffset =
        if enabled then 1 else 0 := store_singleton _ _ _
    rw [loadSimulationModeFromEEPROM, hcell]
    cases enabled <;> rfl
  have hchanges : ChangesOnly simulationModeEepromOffset timingConfigValidOffset
      (saveSimulationModeToEEPROM enabled eeprom) eeprom := by
    intro i hi
    apply store_apart
    rw [List.length_singleton]
    omega
  have hwifi := loadWiFi_congr (hchanges.agreeOn (by omega))
  have hmonitor := loadMonitorServer_congr (hchanges.agreeOn (by omega))
  have htiming := loadTimingConfig_congr (hchanges.agreeOn (by omega))
  have hrelays := funext fun i : Fin 4 =>
    loadRelayIpAddresses_congr (i := i) (hchanges.agreeOn (by omega))
  simp only [loadConfiguration, hwifi, hmonitor, hsimulation, htiming, hrelays]

theorem load_saveTimingConfig {timing : TimingConfig} (hcontrol : timing.controlScanIntervalMs ≠ 0)
    (hmonitor : timing.monitorScanIntervalMs ≠ 0) (hspacing : timing.registerReadSpacingMs ≠ 0) :
    loadConfiguration (saveTimingConfigToEEPROM timing eeprom) =
      { loadConfiguration eeprom with timing := timing } := by
  have hlayout := eepromLayout
  let marked := store eeprom timingConfigValidOffset [0xAA]
  let withControl :=
    writeEEPROMUint32 marked controlScanIntervalEepromOffset timing.controlScanIntervalMs
  let withMonitor :=
    writeEEPROMUint32 withControl monitorScanIntervalEepromOffset timing.monitorScanIntervalMs
  have hsave : saveTimingConfigToEEPROM timing eeprom =
      writeEEPROMUint32 withMonitor registerReadSpacingEepromOffset
        timing.registerReadSpacingMs := rfl
  have hmarked : ChangesOnly timingConfigValidOffset controlScanIntervalEepromOffset
      marked eeprom := fun i hi => store_apart eeprom _ (by rw [List.length_singleton]; omega)
  have hcontrols : ChangesOnly controlScanIntervalEepromOffset monitorScanIntervalEepromOffset
      withControl marked := writeEEPROMUint32_changes _ _ _
  have hmonitors : ChangesOnly monitorScanIntervalEepromOffset registerReadSpacingEepromOffset
      withMonitor withControl := writeEEPROMUint32_changes _ _ _
  have hspacings : ChangesOnly registerReadSpacingEepromOffset relayIpEepromOffset
      (saveTimingConfigToEEPROM timing eeprom) withMonitor := writeEEPROMUint32_changes _ _ _
  have hmarker : saveTimingConfigToEEPROM timing eeprom timingConfigValidOffset = 0xAA := by
    rw [hspacings _ (by omega), hmonitors _ (by omega), hcontrols _ (by omega)]
    exact store_singleton eeprom _ _
  have hreadControl : readEEPROMUint32 (saveTimingConfigToEEPROM timing eeprom)
      controlScanIntervalEepromOffset = timing.controlScanIntervalMs := by
    have hlast : AgreeOn controlScanIntervalEepromOffset monitorScanIntervalEepromOffset _ _ :=
      hspacings.agreeOn (by omega)
    have hmiddle : AgreeOn controlScanIntervalEepromOffset monitorScanIntervalEepromOffset _ _ :=
      hmonitors.agreeOn (by omega)
    rw [hlast.readEEPROMUint32 _ (by omega) (by omega),
      hmiddle.readEEPROMUint32 _ (by omega) (by omega)]
    exact read_writeEEPROMUint32 _ _ _
  have hreadMonitor : readEEPROMUint32 (saveTimingConfigToEEPROM timing eeprom)
      monitorScanIntervalEepromOffset = timing.monitorScanIntervalMs := by
    have hlast : AgreeOn monitorScanIntervalEepromOffset registerReadSpacingEepromOffset _ _ :=
      hspacings.agreeOn (by omega)
    rw [hlast.readEEPROMUint32 _ (by omega) (by omega)]
    exact read_writeEEPROMUint32 _ _ _
  have hreadSpacing : readEEPROMUint32 (saveTimingConfigToEEPROM timing eeprom)
      registerReadSpacingEepromOffset = timing.registerReadSpacingMs := by
    rw [hsave, read_writeEEPROMUint32]
  have htiming : loadTimingConfigFromEEPROM (saveTimingConfigToEEPROM timing eeprom) = timing := by
    unfold loadTimingConfigFromEEPROM
    simp only [hmarker, hreadControl, hreadMonitor, hreadSpacing, if_neg hcontrol, if_neg hmonitor,
      if_neg hspacing, ne_eq, not_true_eq_false, ↓reduceIte]
  have hchanges : ChangesOnly timingConfigValidOffset relayIpEepromOffset
      (saveTimingConfigToEEPROM timing eeprom) eeprom := by
    intro i hi
    rw [hspacings i (by omega), hmonitors i (by omega), hcontrols i (by omega),
      hmarked i (by omega)]
  have hwifi := loadWiFi_congr (hchanges.agreeOn (by omega))
  have hserver := loadMonitorServer_congr (hchanges.agreeOn (by omega))
  have hsimulation := loadSimulationMode_congr (hchanges.agreeOn (by omega))
  have hrelays := funext fun i : Fin 4 =>
    loadRelayIpAddresses_congr (i := i) (hchanges.agreeOn (by omega))
  simp only [loadConfiguration, hwifi, hserver, hsimulation, htiming, hrelays]

theorem load_saveRelayIpAddress (relayIndex : Fin 4) {ip : Bytes}
    (hlength : ip.length ≤ relayIpAddressMaxLen) (hbytes : ∀ c ∈ ip, isStringByte c = true) :
    loadConfiguration (saveRelayIpAddressToEEPROM relayIndex ip eeprom) =
      { loadConfiguration eeprom with
        relayIpAddresses :=
          Function.update (loadConfiguration eeprom).relayIpAddresses relayIndex ip } := by
  have hlayout := eepromLayout
  have hlengths := maxLengths
  have hsave : saveRelayIpAddressToEEPROM relayIndex ip eeprom =
      writeEEPROMString eeprom (relayIpEepromOffset + relayIndex * relayIpEepromStride)
        relayIpAddressMaxLen ip := if_neg (by omega)
  have hwrite := writeEEPROMString_changes eeprom
    (relayIpEepromOffset + relayIndex * relayIpEepromStride) relayIpAddressMaxLen ip
  rw [← hsave] at hwrite
  have hindex := relayIndex.isLt
  have hchanges : ChangesOnly relayIpEepromOffset eepromSize
      (saveRelayIpAddressToEEPROM relayIndex ip eeprom) eeprom := by
    intro i hi
    apply hwrite
    rw [hlayout.2.2.2.2.2.2.2.2.2.2.1]
    omega
  have hrelays : loadRelayIpAddressesFromEEPROM (saveRelayIpAddressToEEPROM relayIndex ip eeprom) =
      Function.update (loadRelayIpAddressesFromEEPROM eeprom) relayIndex ip := by
    funext i
    rcases eq_or_ne i relayIndex with rfl | hne
    · rw [Function.update_self, hsave]
      exact read_writeEEPROMString eeprom _ hlength hbytes
    · rw [Function.update_of_ne hne]
      apply loadRelayIpAddresses_congr
      apply hwrite.agreeOn
      have hvalue : (i : Nat) ≠ relayIndex := fun heq => hne (Fin.ext heq)
      rw [hlayout.2.2.2.2.2.2.2.2.2.2.1]
      omega
  have hwifi := loadWiFi_congr (hchanges.agreeOn (by omega))
  have hmonitor := loadMonitorServer_congr (hchanges.agreeOn (by omega))
  have hsimulation := loadSimulationMode_congr (hchanges.agreeOn (by omega))
  have htiming := loadTimingConfig_congr (hchanges.agreeOn (by omega))
  simp only [loadConfiguration, hwifi, hmonitor, hsimulation, htiming, hrelays]

end Saved

end InverterMonitor.Firmware
