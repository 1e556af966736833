import InverterMonitor.Firmware.Eeprom

/-!
# The configuration of the inverter firmware

What command lines do to the configuration in memory and to the EEPROM.

* `parseCommandLine_accepts`: what the arguments of an accepted line satisfy;
* `Board.handleCommand_load`: a line keeps memory and EEPROM in agreement;
* `configuration_survives`: after setup and any lines, loading gives the
  configuration in memory, and no line changes the stored value of a setting
  other than its own.
-/

namespace InverterMonitor.Firmware
open Text Cxx Storage

/-! ## The board -/

/-- The memory variables that are kept in the EEPROM, and the copy of the EEPROM that reads and
writes go to. -/
structure Board where
  memory : Configuration
  eeprom : Eeprom

namespace Board

/-- The loads in `setup`. -/
def boot (eeprom : Eeprom) : Board := ⟨loadConfiguration eeprom, eeprom⟩

def setTiming (b : Board) (timing : TimingConfig) : Board :=
  ⟨{ b.memory with timing := timing }, saveTimingConfigToEEPROM timing b.eeprom⟩

def setRelayIp (b : Board) (relayIndex : Fin 4) (ip : Bytes) : Board :=
  ⟨{ b.memory with
      relayIpAddresses := Function.update b.memory.relayIpAddresses relayIndex ip },
    saveRelayIpAddressToEEPROM relayIndex ip b.eeprom⟩

end Board

/-- What a command does to the configuration. -/
def Command.configure (command : Command) (b : Board) : Board :=
  match command with
  | .wifi newSsid newPass =>
    ⟨{ b.memory with wifiSSID := cString newSsid, wifiPassword := cString newPass },
      saveWiFiCredentialsToEEPROM (cString newSsid) (cString newPass) b.eeprom⟩
  | .host newHost newPort rawPort =>
    ⟨{ b.memory with
        monitorHost := cString newHost, monitorPortString := cString newPort,
        monitorPort := rawPort },
      saveMonitorServerToEEPROM (cString newHost) (cString newPort) b.eeprom⟩
  | .sim enabled =>
    ⟨{ b.memory with simulationMode := enabled }, saveSimulationModeToEEPROM enabled b.eeprom⟩
  | .ctrlScanMs rawValue => b.setTiming { b.memory.timing with controlScanIntervalMs := rawValue }
  | .monScanMs rawValue => b.setTiming { b.memory.timing with monitorScanIntervalMs := rawValue }
  | .regSpacingMs rawValue =>
    b.setTiming { b.memory.timing with registerReadSpacingMs := rawValue }
  | .clearIp relayIndex => b.setRelayIp relayIndex []
  | .setIp relayIndex ip => b.setRelayIp relayIndex ip.text
  | _ => b

def Board.handleCommand (b : Board) (rawLine : Bytes) : Board :=
  match parseCommandLine rawLine with
  | .ok command => command.configure b
  | .error _ => b

/-! ## Accepted arguments -/

/-- What `handleCommand` has checked of a command's arguments. -/
def Command.Accepted : Command → Prop
  | .wifi newSsid newPass =>
    newSsid.length ≤ wifiSsidMaxLen ∧ newPass.length ≤ wifiPasswordMaxLen
  | .host newHost newPort rawPort =>
    newHost ≠ [] ∧ newHost.length ≤ monitorHostMaxLen ∧ newPort.length ≤ monitorPortMaxLen ∧
      ∃ n, strtoul32 newPort = some n ∧ n ≠ 0 ∧ n ≤ 0xFFFF ∧ rawPort = n.toUInt16
  | .ctrlScanMs rawValue => rawValue ≠ 0
  | .monScanMs rawValue => rawValue ≠ 0
  | .regSpacingMs rawValue => rawValue ≠ 0
  | _ => True

theorem namedForms_accepted {name : Bytes} {parse : Bytes → Except Bytes Command}
    (h : (name, parse) ∈ namedForms) (remainder : Bytes) :
    Yields Command.Accepted (parse remainder) := by
  simp only [namedForms, List.mem_cons, Prod.mk.injEq, List.not_mem_nil, or_false] at h
  rcases h with ⟨rfl, rfl⟩ | ⟨rfl, rfl⟩ | ⟨rfl, rfl⟩ | ⟨rfl, rfl⟩ | ⟨rfl, rfl⟩ | ⟨rfl, rfl⟩ |
    ⟨rfl, rfl⟩ | ⟨rfl, rfl⟩ | ⟨rfl, rfl⟩ | ⟨rfl, rfl⟩
  · refine (parseWifi_yields remainder).mono ?_
    rintro _ ⟨_, _, rfl, haccepted⟩
    exact haccepted
  · refine (parseHost_yields remainder).mono ?_
    rintro _ ⟨_, _, rawPort, rfl, hhost, hlength, hport, hparse, hne, hrange⟩
    exact ⟨hhost, hlength, hport, rawPort, hparse, hne, hrange, rfl⟩
  · refine (parseSim_yields remainder).mono ?_
    rintro _ ⟨_, rfl⟩
    trivial
  · refine (parseInterval_yields _ _ remainder).mono (Q := Command.Accepted) ?_
    rintro _ ⟨_, hne, rfl⟩
    exact hne
  · refine (parseInterval_yields _ _ remainder).mono (Q := Command.Accepted) ?_
    rintro _ ⟨_, hne, rfl⟩
    exact hne
  · refine (parseInterval_yields _ _ remainder).mono (Q := Command.Accepted) ?_
    rintro _ ⟨_, hne, rfl⟩
    exact hne
  · refine (parseRelay_yields remainder).mono ?_
    rintro _ ⟨_, _, rfl⟩
    trivial
  · refine (parseSetIp_yields remainder).mono ?_
    rintro _ (⟨_, rfl⟩ | ⟨_, _, rfl⟩) <;> trivial
  · refine (parseRead_yields remainder).mono ?_
    rintro _ ⟨_, rfl⟩
    trivial
  · refine (parseOtaUrl_yields remainder).mono ?_
    rintro _ ⟨_, rfl⟩
    trivial

theorem parseCommandLine_accepts (rawLine : Bytes) :
    Yields Command.Accepted (parseCommandLine rawLine) := by
  simp only [parseCommandLine]
  split
  · exact yields_ok trivial
  · rcases parseNamed_cases (trim rawLine) namedForms with
      ⟨name, parse, remainder, hmem, _, hparse⟩ | hwrite
    · rw [hparse]
      exact namedForms_accepted hmem remainder
    · rw [hwrite]
      refine (parseWrite_yields (trim rawLine)).mono ?_
      rintro _ (⟨_, _, rfl⟩ | ⟨_, _, rfl⟩) <;> trivial

/-! ## Memory and EEPROM agree -/

/-- The string arguments of a line are free of the bytes that end a stored string. -/
def PlainLine (rawLine : Bytes) : Prop :=
  match parseCommandLine rawLine with
  | .ok (.wifi newSsid newPass) =>
    (∀ c ∈ newSsid, isStringByte c = true) ∧ ∀ c ∈ newPass, isStringByte c = true
  | .ok (.host newHost newPort _) =>
    (∀ c ∈ newHost, isStringByte c = true) ∧ ∀ c ∈ newPort, isStringByte c = true
  | _ => True

theorem cString_plain {s : Bytes} (h : ∀ c ∈ s, isStringByte c = true) : cString s = s := by
  apply List.takeWhile_eq_self_iff.mpr
  intro c hc
  have hc := h c hc
  simp only [isStringByte, decide_eq_true_eq] at hc ⊢
  exact hc.1

namespace Board

/-- Loading again gives the configuration in memory. -/
def Saved (b : Board) : Prop := loadConfiguration b.eeprom = b.memory

theorem load_timing_ne_zero (eeprom : Eeprom) :
    (loadConfiguration eeprom).timing.controlScanIntervalMs ≠ 0 ∧
      (loadConfiguration eeprom).timing.monitorScanIntervalMs ≠ 0 ∧
      (loadConfiguration eeprom).timing.registerReadSpacingMs ≠ 0 := by
  show (loadTimingConfigFromEEPROM eeprom).controlScanIntervalMs ≠ 0 ∧
    (loadTimingConfigFromEEPROM eeprom).monitorScanIntervalMs ≠ 0 ∧
    (loadTimingConfigFromEEPROM eeprom).registerReadSpacingMs ≠ 0
  have hdefault {value default : UInt32} (h : default ≠ 0) :
      (if value = 0 then default else value) ≠ 0 := by
    split
    · exact h
    · assumption
  unfold loadTimingConfigFromEEPROM
  split
  · exact ⟨by decide, by decide, by decide⟩
  · exact ⟨hdefault (by decide), hdefault (by decide), hdefault (by decide)⟩

theorem Saved.setTiming {b : Board} (h : b.Saved) {timing : TimingConfig}
    (hcontrol : timing.controlScanIntervalMs ≠ 0) (hmonitor : timing.monitorScanIntervalMs ≠ 0)
    (hspacing : timing.registerReadSpacingMs ≠ 0) : (b.setTiming timing).Saved := by
  unfold Saved Board.setTiming
  rw [load_saveTimingConfig _ hcontrol hmonitor hspacing, h]

theorem Saved.setRelayIp {b : Board} (h : b.Saved) (relayIndex : Fin 4) {ip : Bytes}
    (hlength : ip.length ≤ relayIpAddressMaxLen) (hbytes : ∀ c ∈ ip, isStringByte c = true) :
    (b.setRelayIp relayIndex ip).Saved := by
  unfold Saved Board.setRelayIp
  rw [load_saveRelayIpAddress _ relayIndex hlength hbytes, h]

theorem ipAddress_plain (ip : IpAddress) : ∀ c ∈ ip.text, isStringByte c = true := by
  intro c hc
  rcases ip.bytes c hc with hdigit | rfl
  · have hzero := ne_of_isDigit hdigit (show isDigit 0 = false by decide)
    have hones := ne_of_isDigit hdigit (show isDigit 255 = false by decide)
    simp [isStringByte, hzero, hones]
  · decide

/-- The step lemma. -/
theorem Saved.handleCommand {b : Board} (h : b.Saved) {rawLine : Bytes} (hplain : PlainLine rawLine) :
    (b.handleCommand rawLine).Saved := by
  unfold Board.handleCommand
  unfold PlainLine at hplain
  cases hparse : parseCommandLine rawLine with
  | error message => exact h
  | ok command =>
    rw [hparse] at hplain
    have haccepted := parseCommandLine_accepts rawLine command hparse
    have htiming := load_timing_ne_zero b.eeprom
    rw [h] at htiming
    obtain ⟨hcontrol, hmonitor, hspacing⟩ := htiming
    cases command with
    | wifi newSsid newPass =>
      obtain ⟨hssid, hpass⟩ := haccepted
      show loadConfiguration
        (saveWiFiCredentialsToEEPROM (cString newSsid) (cString newPass) b.eeprom) =
          { b.memory with wifiSSID := cString newSsid, wifiPassword := cString newPass }
      rw [cString_plain hplain.1, cString_plain hplain.2,
        load_saveWiFiCredentials _ hssid hpass hplain.1 hplain.2, h]
    | host newHost newPort rawPort =>
      obtain ⟨hnonempty, hhost, hport, n, hn, hne, hrange, rfl⟩ := haccepted
      have hvalue : n.toUInt16 ≠ 0 := by
        intro hzero
        have hmod := congrArg UInt16.toNat hzero
        rw [Nat.toUInt16, UInt16.toNat_ofNat', Nat.mod_eq_of_lt (by omega)] at hmod
        exact hne hmod
      show loadConfiguration
        (saveMonitorServerToEEPROM (cString newHost) (cString newPort) b.eeprom) =
          { b.memory with
            monitorHost := cString newHost, monitorPortString := cString newPort,
            monitorPort := n.toUInt16 }
      rw [cString_plain hplain.1, cString_plain hplain.2,
        load_saveMonitorServer _ hhost hport hplain.1 hplain.2 hnonempty hn hvalue, h]
    | sim enabled =>
      show loadConfiguration (saveSimulationModeToEEPROM enabled b.eeprom) =
        { b.memory with simulationMode := enabled }
      rw [load_saveSimulationMode, h]
    | ctrlScanMs rawValue => exact h.setTiming haccepted hmonitor hspacing
    | monScanMs rawValue => exact h.setTiming hcontrol haccepted hspacing
    | regSpacingMs rawValue => exact h.setTiming hcontrol hmonitor haccepted
    | clearIp relayIndex => exact h.setRelayIp relayIndex (by simp) (by simp)
    | setIp relayIndex ip => exact h.setRelayIp relayIndex ip.spec.2 (ipAddress_plain ip)
    | _ => exact h

/-- The run lemma. -/
theorem Saved.run {b : Board} (h : b.Saved) {lines : List Bytes}
    (hplain : ∀ line ∈ lines, PlainLine line) : (lines.foldl Board.handleCommand b).Saved := by
  induction lines generalizing b with
  | nil => exact h
  | cons line lines ih =>
    rw [List.foldl_cons]
    exact ih (h.handleCommand (hplain line (by simp))) fun l hl => hplain l (by simp [hl])

end Board

/-! ## Settings -/

inductive Setting
  | wifi
  | monitorServer
  | simulationMode
  | controlScanInterval
  | monitorScanInterval
  | registerReadSpacing
  | relayIp (relayIndex : Fin 4)

/-- The setting that a command is for. -/
def Command.setting : Command → Option Setting
  | .wifi _ _ => some .wifi
  | .host _ _ _ => some .monitorServer
  | .sim _ => some .simulationMode
  | .ctrlScanMs _ => some .controlScanInterval
  | .monScanMs _ => some .monitorScanInterval
  | .regSpacingMs _ => some .registerReadSpacing
  | .clearIp relayIndex => some (.relayIp relayIndex)
  | .setIp relayIndex _ => some (.relayIp relayIndex)
  | _ => none

def lineSetting (rawLine : Bytes) : Option Setting :=
  match parseCommandLine rawLine with
  | .ok command => command.setting
  | .error _ => none

/-- A line for no setting leaves the configuration and the EEPROM alone. -/
theorem handleCommand_idle {b : Board} {rawLine : Bytes} (h : lineSetting rawLine = none) :
    b.handleCommand rawLine = b := by
  unfold lineSetting at h
  unfold Board.handleCommand
  cases hparse : parseCommandLine rawLine with
  | error message => rfl
  | ok command =>
    rw [hparse] at h
    cases command with
    | wifi | host | sim | ctrlScanMs | monScanMs | regSpacingMs | clearIp | setIp => cases h
    | _ => rfl

/-- Two configurations have the same value of a setting. -/
def Setting.Same (c c' : Configuration) : Setting → Prop
  | .wifi => c.wifiSSID = c'.wifiSSID ∧ c.wifiPassword = c'.wifiPassword
  | .monitorServer => c.monitorHost = c'.monitorHost ∧
    c.monitorPortString = c'.monitorPortString ∧ c.monitorPort = c'.monitorPort
  | .simulationMode => c.simulationMode = c'.simulationMode
  | .controlScanInterval => c.timing.controlScanIntervalMs = c'.timing.controlScanIntervalMs
  | .monitorScanInterval => c.timing.monitorScanIntervalMs = c'.timing.monitorScanIntervalMs
  | .registerReadSpacing => c.timing.registerReadSpacingMs = c'.timing.registerReadSpacingMs
  | .relayIp relayIndex => c.relayIpAddresses relayIndex = c'.relayIpAddresses relayIndex

theorem Setting.same_refl (c : Configuration) (setting : Setting) : setting.Same c c := by
  cases setting <;> simp [Setting.Same]

/-- A line changes no setting in memory but its own. -/
theorem handleCommand_same {b : Board} {rawLine : Bytes} {setting : Setting}
    (h : lineSetting rawLine ≠ some setting) :
    setting.Same (b.handleCommand rawLine).memory b.memory := by
  unfold Board.handleCommand
  unfold lineSetting at h
  cases hparse : parseCommandLine rawLine with
  | error message => exact setting.same_refl _
  | ok command =>
    rw [hparse] at h
    have hrelay (relayIndex : Fin 4) (ip : Bytes)
        (hother : some (Setting.relayIp relayIndex) ≠ some setting) :
        setting.Same (b.setRelayIp relayIndex ip).memory b.memory := by
      cases setting with
      | relayIp i =>
        have hne : i ≠ relayIndex := fun heq => hother (by rw [heq])
        simp [Setting.Same, Board.setRelayIp, Function.update_of_ne hne]
      | _ => simp [Setting.Same, Board.setRelayIp]
    cases command with
    | clearIp relayIndex => exact hrelay relayIndex [] h
    | setIp relayIndex ip => exact hrelay relayIndex ip.text h
    | wifi | host | sim | ctrlScanMs | monScanMs | regSpacingMs =>
      cases setting with
      | wifi => first | exact absurd rfl h | exact ⟨rfl, rfl⟩
      | monitorServer => first | exact absurd rfl h | exact ⟨rfl, rfl, rfl⟩
      | _ => first | exact absurd rfl h | rfl
    | _ => exact setting.same_refl _

/-! ## After a reboot -/

theorem configuration_survives (eeprom : Eeprom) {lines : List Bytes}
    (hplain : ∀ line ∈ lines, PlainLine line) :
    loadConfiguration (lines.foldl Board.handleCommand (Board.boot eeprom)).eeprom =
        (lines.foldl Board.handleCommand (Board.boot eeprom)).memory ∧
      ∀ line, PlainLine line → ∀ setting, lineSetting line ≠ some setting →
        setting.Same
          (loadConfiguration
            ((lines.foldl Board.handleCommand (Board.boot eeprom)).handleCommand line).eeprom)
          (loadConfiguration (lines.foldl Board.handleCommand (Board.boot eeprom)).eeprom) := by
  have hboot : (Board.boot eeprom).Saved := rfl
  have hsaved := hboot.run hplain
  refine ⟨hsaved, fun line hline setting hother => ?_⟩
  have hnext := hsaved.handleCommand hline
  rw [hnext, hsaved]
  exact handleCommand_same hother

theorem configuration_survives_lines :
    loadConfiguration ([ascii "WIFI net pass", ascii "SETIP 2 10.0.0.7"].foldl
        Board.handleCommand (Board.boot fun _ => 0xFF)).eeprom =
      ([ascii "WIFI net pass", ascii "SETIP 2 10.0.0.7"].foldl
        Board.handleCommand (Board.boot fun _ => 0xFF)).memory :=
  (configuration_survives (fun _ => 0xFF) (by
    intro line hline
    simp only [List.mem_cons, List.not_mem_nil, or_false] at hline
    rcases hline with rfl | rfl
    · show (∀ c ∈ ascii "net", isStringByte c = true) ∧ ∀ c ∈ ascii "pass", isStringByte c = true
      exact ⟨List.all_eq_true.mp (by decide), List.all_eq_true.mp (by decide)⟩
    · exact trivial)).1

end InverterMonitor.Firmware
