import InverterMonitor.Storage.Commits
import InverterMonitor.Temperature.Commands

/-!
# Two firmwares with the same settings

The server broadcasts its commands to the inverter and to the temperature monitor, and both keep
the network and the server to connect to.

* `parseCommandLine_settings`: which lines the inverter reads as commands for these settings;
* `Agree.handleCommand`: a line keeps the two in agreement, whatever else it does to the inverter;
* `inverter_commits`, `monitor_commits`: which lines reach the flash;
* `settings_agree`: so they agree after any lines, and again after a restart unless a last
  commit has failed;
* `settings_survive`: what the monitor loads after a restart is what it last committed.
-/

namespace InverterMonitor.Temperature
open Text Cxx Runs Storage Firmware Wire

/-! ## The commands of the inverter -/

/-- The command is not for the settings that both firmwares keep. -/
def Other (command : Command) : Prop :=
  (∀ newSsid newPass, command ≠ .wifi newSsid newPass) ∧
    ∀ newHost newPort rawPort, command ≠ .host newHost newPort rawPort

theorem namedForms_other {name : Bytes} {parse : Bytes → Except Bytes Command}
    (h : (name, parse) ∈ namedForms.drop 2) (remainder : Bytes) : Yields Other (parse remainder) := by
  have hinterval : ∀ name set, (∀ v, Other (set v)) →
      Yields Other (parseInterval name set remainder) := by
    intro name set hset
    refine (parseInterval_yields name set remainder).mono ?_
    rintro _ ⟨rawValue, _, rfl⟩
    exact hset rawValue
  simp only [namedForms, List.drop_succ_cons, List.drop_zero, List.mem_cons, Prod.mk.injEq,
    List.not_mem_nil, or_false] at h
  rcases h with ⟨rfl, rfl⟩ | ⟨rfl, rfl⟩ | ⟨rfl, rfl⟩ | ⟨rfl, rfl⟩ | ⟨rfl, rfl⟩ | ⟨rfl, rfl⟩ |
    ⟨rfl, rfl⟩ | ⟨rfl, rfl⟩
  · refine (parseSim_yields remainder).mono ?_
    rintro _ ⟨_, rfl⟩
    simp [Other]
  · exact hinterval _ _ fun _ => by simp [Other]
  · exact hinterval _ _ fun _ => by simp [Other]
  · exact hinterval _ _ fun _ => by simp [Other]
  · refine (parseRelay_yields remainder).mono ?_
    rintro _ ⟨_, _, rfl⟩
    simp [Other]
  · refine (parseSetIp_yields remainder).mono ?_
    rintro _ (⟨_, rfl⟩ | ⟨_, _, rfl⟩) <;> simp [Other]
  · refine (parseRead_yields remainder).mono ?_
    rintro _ ⟨_, rfl⟩
    simp [Other]
  · refine (parseOtaUrl_yields remainder).mono ?_
    rintro _ ⟨_, rfl⟩
    simp [Other]

/-- The inverter reads the same lines as commands for the settings. -/
theorem parseCommandLine_settings (rawLine : Bytes) :
    match settingsCommand rawLine with
    | some parsed => parseCommandLine rawLine = parsed
    | none => Yields Other (parseCommandLine rawLine) := by
  unfold parseCommandLine settingsCommand
  simp only
  by_cases hempty : trim rawLine = []
  · simp only [hempty, ↓reduceIte]
    exact yields_ok ⟨nofun, nofun⟩
  · simp only [hempty, ↓reduceIte, namedForms, parseNamed]
    cases hwifi : afterStart (ascii "WIFI ") (trim rawLine) with
    | some remainder => rfl
    | none =>
      cases hhost : afterStart (ascii "HOST ") (trim rawLine) with
      | some remainder => rfl
      | none =>
        rcases parseNamed_cases (trim rawLine) (namedForms.drop 2) with
          ⟨name, parse, remainder, hmem, -, hparse⟩ | hwrite
        · change Yields Other (parseNamed (trim rawLine) (namedForms.drop 2))
          rw [hparse]
          exact namedForms_other hmem remainder
        · change Yields Other (parseNamed (trim rawLine) (namedForms.drop 2))
          rw [hwrite]
          refine (parseWrite_yields (trim rawLine)).mono ?_
          rintro _ (⟨_, _, rfl⟩ | ⟨_, _, rfl⟩) <;> exact ⟨nofun, nofun⟩

/-! ## The EEPROMs -/

/-- The settings that the inverter shares with the monitor. -/
def shared (c : Configuration) : Settings where
  wifiSSID := c.wifiSSID
  wifiPassword := c.wifiPassword
  monitorHost := c.monitorHost
  monitorPortString := c.monitorPortString
  monitorPort := c.monitorPort

/-- The cells that hold them. -/
def SharedCells (eeprom eeprom' : Eeprom) : Prop :=
  AgreeOn wifiSsidEepromOffset simulationModeEepromOffset eeprom eeprom'

theorem loadSettings_congr {eeprom eeprom' : Eeprom} (h : SharedCells eeprom eeprom') :
    shared (loadConfiguration eeprom) = loadSettings eeprom' := by
  have hlayout := eepromLayout
  have hwifi : loadWiFiCredentialsFromEEPROM eeprom = loadWiFiCredentialsFromEEPROM eeprom' :=
    loadWiFi_congr fun i hlow hhigh => h i (by omega) (by omega)
  have hserver : loadMonitorServerFromEEPROM eeprom = loadMonitorServerFromEEPROM eeprom' :=
    loadMonitorServer_congr fun i hlow hhigh => h i (by omega) (by omega)
  simp only [shared, loadConfiguration, loadSettings, hwifi, hserver]

theorem sharedCells_store {eeprom eeprom' : Eeprom} (h : SharedCells eeprom eeprom') (start : Nat)
    (values : Bytes) : SharedCells (store eeprom start values) (store eeprom' start values) := by
  induction values generalizing eeprom eeprom' start with
  | nil => exact h
  | cons value values ih =>
    refine ih (fun i hlow hhigh => ?_) (start + 1)
    by_cases hi : i = start
    · rw [hi, Function.update_self, Function.update_self]
    · rw [Function.update_of_ne hi, Function.update_of_ne hi]
      exact h i hlow hhigh

theorem sharedCells_saveWiFi {eeprom eeprom' : Eeprom} (h : SharedCells eeprom eeprom')
    (ssid password : Bytes) :
    SharedCells (saveWiFiCredentialsToEEPROM ssid password eeprom)
      (saveWiFiCredentialsToEEPROM ssid password eeprom') := by
  unfold saveWiFiCredentialsToEEPROM
  split
  · exact h
  · exact sharedCells_store (sharedCells_store h _ _) _ _

theorem sharedCells_saveMonitorServer {eeprom eeprom' : Eeprom} (h : SharedCells eeprom eeprom')
    (host portString : Bytes) :
    SharedCells (saveMonitorServerToEEPROM host portString eeprom)
      (saveMonitorServerToEEPROM host portString eeprom') := by
  unfold saveMonitorServerToEEPROM
  split
  · exact h
  · exact sharedCells_store (sharedCells_store h _ _) _ _

theorem sharedCells_apart {saved eeprom : Eeprom}
    (h : ∀ i, i < simulationModeEepromOffset → saved i = eeprom i) : SharedCells saved eeprom :=
  fun i _ hhigh => h i hhigh

/-- What a command for other settings writes lies behind the shared cells. -/
theorem configure_other {command : Command} (h : Other command) (b : Board) :
    shared (command.configure b).memory = shared b.memory ∧
      SharedCells (command.configure b).eeprom b.eeprom := by
  have hlayout := eepromLayout
  have htiming : ∀ timing, SharedCells (saveTimingConfigToEEPROM timing b.eeprom) b.eeprom := by
    refine fun timing => sharedCells_apart fun i hi => ?_
    unfold saveTimingConfigToEEPROM
    rw [writeEEPROMUint32_apart _ _ (by omega), writeEEPROMUint32_apart _ _ (by omega),
      writeEEPROMUint32_apart _ _ (by omega), store_apart _ _ (by omega)]
  have hrelay : ∀ (relayIndex : Fin 4) ip,
      SharedCells (saveRelayIpAddressToEEPROM relayIndex ip b.eeprom) b.eeprom := by
    refine fun relayIndex ip => sharedCells_apart fun i hi => ?_
    unfold saveRelayIpAddressToEEPROM
    split
    · rfl
    · exact writeEEPROMString_apart _ _ (by omega)
  cases command with
  | wifi newSsid newPass => exact absurd rfl (h.1 newSsid newPass)
  | host newHost newPort rawPort => exact absurd rfl (h.2 newHost newPort rawPort)
  | sim enabled =>
    exact ⟨rfl, sharedCells_apart fun i hi => store_apart _ _ (by omega)⟩
  | ctrlScanMs rawValue => exact ⟨rfl, htiming _⟩
  | monScanMs rawValue => exact ⟨rfl, htiming _⟩
  | regSpacingMs rawValue => exact ⟨rfl, htiming _⟩
  | clearIp relayIndex => exact ⟨rfl, hrelay relayIndex []⟩
  | setIp relayIndex ip => exact ⟨rfl, hrelay relayIndex ip.text⟩
  | _ => exact ⟨rfl, fun _ _ _ => rfl⟩

/-! ## Agreement -/

/-- Inverter and monitor have the same settings, in memory and in the EEPROM. -/
structure Agree (b : Board) (m : Monitor) : Prop where
  memory : shared b.memory = m.settings
  eeprom : SharedCells b.eeprom m.eeprom

theorem Agree.configure {b : Board} {m m' : Monitor} {command : Command} (h : Agree b m)
    (hm : (m'.settings, m'.eeprom) = Temperature.configure command m.settings m.eeprom) :
    Agree (command.configure b) m' := by
  by_cases hother : Other command
  · obtain ⟨hmemory, hcells⟩ := configure_other hother b
    have hsame : Temperature.configure command m.settings m.eeprom = (m.settings, m.eeprom) := by
      cases command with
      | wifi newSsid newPass => exact absurd rfl (hother.1 newSsid newPass)
      | host newHost newPort rawPort => exact absurd rfl (hother.2 newHost newPort rawPort)
      | _ => rfl
    obtain ⟨hsettings, heeprom⟩ := Prod.mk.inj (hm.trans hsame)
    refine ⟨by rw [hmemory, hsettings, h.memory], fun i hlow hhigh => ?_⟩
    rw [hcells i hlow hhigh, heeprom, h.eeprom i hlow hhigh]
  · cases command with
    | wifi newSsid newPass =>
      obtain ⟨hsettings, heeprom⟩ := Prod.mk.inj hm
      refine ⟨by rw [hsettings, ← h.memory]; rfl, ?_⟩
      rw [heeprom]
      exact sharedCells_saveWiFi h.eeprom _ _
    | host newHost newPort rawPort =>
      obtain ⟨hsettings, heeprom⟩ := Prod.mk.inj hm
      refine ⟨by rw [hsettings, ← h.memory]; rfl, ?_⟩
      rw [heeprom]
      exact sharedCells_saveMonitorServer h.eeprom _ _
    | _ => exact absurd ⟨nofun, nofun⟩ hother

/-- A line that is rejected changes neither, and one that is carried out changes both alike. -/
theorem Agree.handleCommand {b : Board} {m : Monitor} (h : Agree b m) (world : World)
    (rawLine : Bytes) : Agree (b.handleCommand rawLine) (m.handleCommand world rawLine).state := by
  have hinverter := parseCommandLine_settings rawLine
  have hmonitor := handleCommand_configured m world rawLine
  unfold Board.handleCommand
  cases hline : settingsCommand rawLine with
  | none =>
    rw [hline] at hinverter hmonitor
    obtain ⟨hsettings, heeprom, -⟩ := hmonitor
    have hsame : Agree b (m.handleCommand world rawLine).state :=
      ⟨h.memory.trans hsettings.symm, heeprom ▸ h.eeprom⟩
    cases hparse : parseCommandLine rawLine with
    | error message => exact hsame
    | ok command =>
      obtain ⟨hmemory, hcells⟩ := configure_other (hinverter command hparse) b
      exact ⟨hmemory.trans hsame.memory, fun i hlow hhigh =>
        (hcells i hlow hhigh).trans (hsame.eeprom i hlow hhigh)⟩
  | some parsed =>
    rw [hline] at hinverter hmonitor
    dsimp only at hinverter hmonitor
    rw [hinverter]
    cases parsed with
    | error message => exact ⟨h.memory.trans hmonitor.1.symm, hmonitor.2.1 ▸ h.eeprom⟩
    | ok command => exact h.configure hmonitor.1

/-! ## Runs -/

/-- The inverter after lines, each with what the world answers it. -/
def inverterAfter (d : Device) (lines : List (Bytes × Answers)) : Device :=
  lines.foldl (fun d line => (d.handleCommand line.2 line.1).state) d

def monitorAfter (m : Monitor) (lines : List (Bytes × World)) : Monitor :=
  lines.foldl (fun m line => (m.handleCommand line.2 line.1).state) m

/-- The run lemma: the lines are the same, what the world answers need not be. -/
theorem Agree.run {d : Device} {m : Monitor} (h : Agree d.board m)
    (lines : List (Bytes × Answers × World)) :
    Agree (inverterAfter d (lines.map fun line => (line.1, line.2.1))).board
      (monitorAfter m (lines.map fun line => (line.1, line.2.2))) := by
  induction lines generalizing d m with
  | nil => exact h
  | cons line lines ih =>
    obtain ⟨rawLine, answers, world⟩ := line
    have hstep := h.handleCommand world rawLine
    rw [← board_handleCommand d answers rawLine] at hstep
    exact ih hstep

/-! ## Commits -/

/-- The result of the commit that a line tries. -/
def inverterCommit (line : Bytes × Answers) : Option Bool :=
  if (lineSetting line.1).isSome then some line.2.committed else none

def monitorCommit (line : Bytes × World) : Option Bool :=
  match settingsCommand line.1 with
  | some (.ok _) => some line.2.committed
  | _ => none

theorem inverter_commits :
    Commits (fun (d : Device) (line : Bytes × Answers) => (d.handleCommand line.2 line.1).state)
      (fun d => d.board.eeprom) (fun d => d.flash) inverterCommit := by
  unfold inverterCommit
  constructor
  · intro d line h
    have hnone : lineSetting line.1 = none := by simpa using h
    have hflash := handleCommand_flash line.2 d line.1
    rw [hnone] at hflash
    rw [board_handleCommand, handleCommand_idle hnone]
    exact ⟨rfl, hflash⟩
  · intro d line h
    obtain ⟨hsome, hcommitted⟩ := Option.ite_none_right_eq_some.mp h
    rw [handleCommand_flash, hsome, Option.some.inj hcommitted]
    rfl
  · intro d line h
    obtain ⟨-, hcommitted⟩ := Option.ite_none_right_eq_some.mp h
    rw [handleCommand_flash, Option.some.inj hcommitted, Bool.and_false]
    rfl

theorem monitor_commits :
    Commits (fun (m : Monitor) (line : Bytes × World) => (m.handleCommand line.2 line.1).state)
      (fun m => m.eeprom) (fun m => m.flash) monitorCommit := by
  have hconfigured (m : Monitor) (line : Bytes × World) :=
    handleCommand_configured m line.2 line.1
  unfold monitorCommit
  constructor
  · intro m line h
    have hline := hconfigured m line
    split at h
    · cases h
    · next hother =>
      cases hsettings : settingsCommand line.1 with
      | none =>
        rw [hsettings] at hline
        exact hline.2
      | some parsed =>
        cases parsed with
        | ok command => exact absurd hsettings (hother command)
        | error message =>
          rw [hsettings] at hline
          exact hline.2
  · intro m line h
    have hline := hconfigured m line
    split at h
    · next command hsettings =>
      rw [hsettings] at hline
      rw [hline.2, if_pos (Option.some.inj h)]
    · cases h
  · intro m line h
    have hline := hconfigured m line
    split at h
    · next command hsettings =>
      rw [hsettings] at hline
      rw [hline.2, Option.some.inj h]
      rfl
    · cases h

/-! ## Restarts -/

/-- For every sequence of lines that both get, and every answer of the two worlds: an inverter
and a monitor that start with the same settings have the same ones afterwards, and if the last
commit of each has not failed, they load the same ones after a restart. -/
theorem settings_agree {d : Device} {m : Monitor} (h : Agree d.board m)
    (hd : d.flash = d.board.eeprom) (hm : m.flash = m.eeprom)
    (lines : List (Bytes × Answers × World)) :
    let inverterLines := lines.map fun line => (line.1, line.2.1)
    let monitorLines := lines.map fun line => (line.1, line.2.2)
    shared (inverterAfter d inverterLines).board.memory =
        (monitorAfter m monitorLines).settings ∧
      (last inverterCommit inverterLines ≠ some false →
        last monitorCommit monitorLines ≠ some false →
        shared (Board.boot (inverterAfter d inverterLines).flash).memory =
          loadSettings (monitorAfter m monitorLines).flash) := by
  intro inverterLines monitorLines
  have hagree := h.run lines
  refine ⟨hagree.memory, fun hinverter hmonitor => ?_⟩
  have hflash : (inverterAfter d inverterLines).flash =
      (inverterAfter d inverterLines).board.eeprom := inverter_commits.synced_foldl hd hinverter
  have hflash' : (monitorAfter m monitorLines).flash = (monitorAfter m monitorLines).eeprom :=
    monitor_commits.synced_foldl hm hmonitor
  rw [hflash, hflash']
  exact loadSettings_congr hagree.eeprom

/-- Plain lines keep memory and EEPROM of the inverter in agreement. -/
theorem inverterAfter_saved {lines : List (Bytes × Answers)} {d : Device} (h : d.board.Saved)
    (hplain : ∀ line ∈ lines, PlainLine line.1) : (inverterAfter d lines).board.Saved := by
  induction lines generalizing d with
  | nil => exact h
  | cons line lines ih =>
    refine ih ?_ fun l hl => hplain l (List.mem_cons_of_mem _ hl)
    rw [board_handleCommand]
    exact h.handleCommand (hplain line (by simp))

/-- An inverter and a monitor with the same EEPROM. -/
theorem Agree.boot (eeprom : Eeprom) (world : World) :
    Agree (Board.boot eeprom) (.boot eeprom world) :=
  ⟨loadSettings_congr fun _ _ _ => rfl, fun _ _ _ => rfl⟩

/-- Plain lines keep memory and EEPROM of the monitor in agreement. -/
theorem monitorAfter_saved (eeprom : Eeprom) (world : World) {lines : List (Bytes × World)}
    (hplain : ∀ line ∈ lines, PlainLine line.1) :
    loadSettings (monitorAfter (.boot eeprom world) lines).eeprom =
      (monitorAfter (.boot eeprom world) lines).settings := by
  -- an inverter with the same EEPROM gets the same lines
  let answers : Answers := { committed := true, written := true, now := 0 }
  let both := lines.map fun line => (line.1, answers, line.2)
  have hlines : both.map (fun line => (line.1, line.2.2)) = lines := by
    rw [List.map_map]
    exact List.map_id lines
  have hagree := Agree.run (d := { board := Board.boot eeprom }) (.boot eeprom world) both
  rw [hlines] at hagree
  have hsaved : (inverterAfter { board := Board.boot eeprom }
      (both.map fun line => (line.1, line.2.1))).board.Saved := by
    refine inverterAfter_saved (d := { board := Board.boot eeprom }) rfl ?_
    intro line hline
    rw [List.map_map] at hline
    obtain ⟨original, horiginal, rfl⟩ := List.mem_map.mp hline
    exact hplain original horiginal
  rw [← loadSettings_congr hagree.eeprom, hsaved]
  exact hagree.memory

/-- For every content of the flash, every sequence of plain lines and every outcome of their
commits: what the temperature monitor loads after a restart are the settings that it had at the
last commit that succeeded, and unless the last commit failed, those that it has. -/
theorem settings_survive (eeprom : Eeprom) (world : World) {lines : List (Bytes × World)}
    (hplain : ∀ line ∈ lines, PlainLine line.1) :
    let monitor := monitorAfter (.boot eeprom world) lines
    loadSettings monitor.flash =
        (monitorAfter (.boot eeprom world) (Commits.committed monitorCommit lines)).settings ∧
      (last monitorCommit lines ≠ some false →
        loadSettings monitor.flash = monitor.settings) := by
  intro monitor
  constructor
  · have hflash : monitor.flash =
        (monitorAfter (.boot eeprom world) (Commits.committed monitorCommit lines)).eeprom :=
      monitor_commits.stored_foldl rfl lines
    rw [hflash]
    exact monitorAfter_saved eeprom world fun line hline =>
      hplain line ((List.rdropWhile_prefix _ _).subset hline)
  · intro hlast
    have hflash : monitor.flash = monitor.eeprom := monitor_commits.synced_foldl rfl hlast
    rw [hflash]
    exact monitorAfter_saved eeprom world hplain

/-! ## A commit that fails -/

/-- A bus without sensors, and the result of a commit. -/
def emptyBus (committed : Bool) : World where
  committed := committed
  bus := ⟨0, fun _ => none, fun _ => false⟩
  qsort := fun _ addresses => addresses

def acknowledged (committed : Bool) : Answers :=
  { committed := committed, written := true, now := 0 }

/-- The first commit fails on the inverter, and the last one writes what it had missed. -/
theorem wifi_agrees :
    shared (Board.boot (inverterAfter { board := Board.boot fun _ => 0xFF }
      [(ascii "WIFI net pass", acknowledged false),
        (ascii "HOST server 16670", acknowledged true)]).flash).memory =
    loadSettings (monitorAfter (.boot (fun _ => 0xFF) (emptyBus true))
      [(ascii "WIFI net pass", emptyBus true),
        (ascii "HOST server 16670", emptyBus true)]).flash :=
  (settings_agree (d := { board := Board.boot fun _ => 0xFF })
    (.boot (fun _ => 0xFF) (emptyBus true)) rfl rfl
    [(ascii "WIFI net pass", acknowledged false, emptyBus true),
      (ascii "HOST server 16670", acknowledged true, emptyBus true)]).2 (by decide) (by decide)

/-- The second commit fails, so the restart is back at the first network. -/
theorem wifi_survives :
    loadSettings (monitorAfter (.boot (fun _ => 0xFF) (emptyBus true))
      [(ascii "WIFI net pass", emptyBus true), (ascii "WIFI other word", emptyBus false)]).flash =
    (monitorAfter (.boot (fun _ => 0xFF) (emptyBus true))
      [(ascii "WIFI net pass", emptyBus true)]).settings := by
  refine (settings_survive (fun _ => 0xFF) (emptyBus true) ?_).1
  intro line hline
  simp only [List.mem_cons, List.not_mem_nil, or_false] at hline
  rcases hline with rfl | rfl
  · show (∀ c ∈ ascii "net", isStringByte c = true) ∧ ∀ c ∈ ascii "pass", isStringByte c = true
    exact ⟨List.all_eq_true.mp (by decide), List.all_eq_true.mp (by decide)⟩
  · show (∀ c ∈ ascii "other", isStringByte c = true) ∧ ∀ c ∈ ascii "word", isStringByte c = true
    exact ⟨List.all_eq_true.mp (by decide), List.all_eq_true.mp (by decide)⟩

end InverterMonitor.Temperature
