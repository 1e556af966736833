import InverterMonitor.Cxx.FixedPoint
import InverterMonitor.Simulator.Monitor

/-!
# The simulator of the monitor and the firmware

On which `WIFI` and `HOST` lines the simulator behaves like the firmware.  The
two differ in the white space that they trim, in what they do with an argument
that is too long, and in how they read a port.

* `parseCommandLine_wifi`, `parseCommandLine_host`: the lines the firmware accepts;
* `behavesAlike_accepted`, `behavesAlike_rejected`: alike on one line;
* `simulator_agrees_iff`: the lines on which they are alike.
-/

namespace InverterMonitor.Firmware
open Text Cxx

/-! ## What the firmware accepts -/

/-- Without a NUL nothing is hidden from `indexOf`. -/
theorem splitAtIndex_eq_cutAt {c : Byte} {s : Bytes} (h : (0 : Byte) ∉ s) :
    splitAtIndex c s = cutAt c s := by
  have hwhole : cString s = s := by
    have happend := cString_append [] h
    rwa [List.append_nil, show cString [] = [] from rfl, List.append_nil] at happend
  unfold splitAtIndex
  rw [hwhole]
  split
  · rfl
  · next hc => exact (cutAt_eq_none_iff.mpr hc).symm

theorem twoArguments_bind {α : Type} (text : String) {remainder : Bytes}
    (next : Bytes × Bytes → Except Bytes α) (h : (0 : Byte) ∉ remainder) :
    (twoArguments text remainder >>= next) =
      (argumentsBy isSpace remainder).elim (.error (tcpCmd text)) next := by
  unfold twoArguments argumentsBy trim
  rw [splitAtIndex_eq_cutAt fun hmem => h (mem_of_mem_trimBy hmem)]
  cases cutAt ' ' (trimBy isSpace remainder) with
  | none => rfl
  | some parts =>
    by_cases hempty : trimBy isSpace parts.1 = [] ∨ trimBy isSpace parts.2 = []
    · simp only [hempty, ↓reduceIte]
      rfl
    · simp only [hempty, ↓reduceIte]
      rfl

/-- A name alone is answered as a number. -/
theorem parseWrite_name {name : Bytes} (h : argumentsBy isSpace name = none)
    (hnul : (0 : Byte) ∉ name) :
    parseWrite name = .error (tcpCmd "invalid format, expected '[regAddr] [uintValue]'") := by
  rw [parseWrite, twoArguments_bind _ _ hnul, h]
  rfl

theorem zero_not_mem {s : Bytes} (h : ∀ c ∈ s, isStringByte c = true) : (0 : Byte) ∉ s :=
  fun hmem => absurd (h 0 hmem) (by decide)

/-- What trimming leaves behind a name. -/
theorem zero_not_mem_rest {name rest rest' : Bytes} (hnul : (0 : Byte) ∉ rest)
    (hname : (0 : Byte) ∉ name)
    (htrim : trimBy isSpace (name ++ (' ' : Byte) :: rest) = name ++ (' ' : Byte) :: rest') :
    (0 : Byte) ∉ rest' := by
  intro hmem
  have hline : (0 : Byte) ∈ name ++ (' ' : Byte) :: rest :=
    mem_of_mem_trimBy (htrim ▸ List.mem_append_right _ (List.mem_cons_of_mem _ hmem))
  rcases List.mem_append.mp hline with hmem | hmem
  · exact hname hmem
  · rcases List.mem_cons.mp hmem with heq | hmem
    · exact absurd heq (by decide)
    · exact hnul hmem

theorem parseCommandLine_wifi {rest : Bytes} {command : Command} (hnul : (0 : Byte) ∉ rest) :
    parseCommandLine (ascii "WIFI " ++ rest) = .ok command ↔
      ∃ newSsid newPass, argumentsBy isSpace rest = some (newSsid, newPass) ∧
        newSsid.length ≤ wifiSsidMaxLen ∧ newPass.length ≤ wifiPasswordMaxLen ∧
        command = .wifi newSsid newPass := by
  rcases @trimBy_named isSpace (ascii "WIFI") rest (by decide) (by decide) (by decide) with
    ⟨htrim, hname, hnone⟩ | ⟨rest', htrim, hrest'⟩
  · have hline : trim (ascii "WIFI " ++ rest) = ascii "WIFI" := htrim
    have hparse : parseCommandLine (ascii "WIFI " ++ rest) = parseWrite (ascii "WIFI") := by
      simp only [parseCommandLine, hline]
      rfl
    rw [hparse, hnone, parseWrite_name hname (by decide)]
    simp
  · have hline : trim (ascii "WIFI " ++ rest) = ascii "WIFI " ++ rest' := htrim
    have hparse : parseCommandLine (ascii "WIFI " ++ rest) = parseWifi rest' := by
      simp only [parseCommandLine, hline]
      rfl
    rw [hparse, parseWifi, twoArguments_bind _ _ (zero_not_mem_rest hnul (by decide) htrim), hrest']
    cases argumentsBy isSpace rest with
    | none => simp
    | some arguments =>
      obtain ⟨newSsid, newPass⟩ := arguments
      simp only [Option.elim_some]
      split
      · next hlong =>
        simp only [reduceCtorEq, false_iff, not_exists]
        rintro _ _ ⟨heq, hssid, hpass, _⟩
        cases heq
        omega
      · next hfits =>
        rw [not_or, Nat.not_lt, Nat.not_lt] at hfits
        simp only [Except.ok.injEq, Option.some.injEq, Prod.mk.injEq]
        constructor
        · rintro rfl
          exact ⟨newSsid, newPass, ⟨rfl, rfl⟩, hfits.1, hfits.2, rfl⟩
        · rintro ⟨_, _, ⟨rfl, rfl⟩, _, _, rfl⟩
          rfl

theorem parseCommandLine_host {rest : Bytes} {command : Command} (hnul : (0 : Byte) ∉ rest) :
    parseCommandLine (ascii "HOST " ++ rest) = .ok command ↔
      ∃ newHost newPort n, argumentsBy isSpace rest = some (newHost, newPort) ∧
        newHost.length ≤ monitorHostMaxLen ∧ newPort.length ≤ monitorPortMaxLen ∧
        strtoul32 newPort = some n ∧ n ≠ 0 ∧ n ≤ 0xFFFF ∧
        command = .host newHost newPort n.toUInt16 := by
  rcases @trimBy_named isSpace (ascii "HOST") rest (by decide) (by decide) (by decide) with
    ⟨htrim, hname, hnone⟩ | ⟨rest', htrim, hrest'⟩
  · have hline : trim (ascii "HOST " ++ rest) = ascii "HOST" := htrim
    have hparse : parseCommandLine (ascii "HOST " ++ rest) = parseWrite (ascii "HOST") := by
      simp only [parseCommandLine, hline]
      rfl
    rw [hparse, hnone, parseWrite_name hname (by decide)]
    simp
  · have hline : trim (ascii "HOST " ++ rest) = ascii "HOST " ++ rest' := htrim
    have hparse : parseCommandLine (ascii "HOST " ++ rest) = parseHost rest' := by
      simp only [parseCommandLine, hline]
      rfl
    rw [hparse, parseHost, twoArguments_bind _ _ (zero_not_mem_rest hnul (by decide) htrim), hrest']
    cases argumentsBy isSpace rest with
    | none => simp
    | some arguments =>
      obtain ⟨newHost, newPort⟩ := arguments
      simp only [Option.elim_some, Option.some.injEq, Prod.mk.injEq]
      constructor
      · intro h
        split at h
        · cases h
        · next hfits =>
          rw [not_or, Nat.not_lt, Nat.not_lt] at hfits
          split at h
          · cases h
          · next n hn =>
            split at h
            · cases h
            · next hrange =>
              cases h
              exact ⟨newHost, newPort, n, ⟨rfl, rfl⟩, hfits.1, hfits.2, hn, by omega, by omega, rfl⟩
      · rintro ⟨_, _, n, ⟨rfl, rfl⟩, hhost, hport, hn, hne, hrange, rfl⟩
        rw [if_neg (by omega), hn]
        exact if_neg (by omega)

end InverterMonitor.Firmware

namespace InverterMonitor.MonitorSimulator
open Text Cxx Storage

/-! ## Alike on a line -/

/-- The variables that are kept in the EEPROM file, and the file. -/
def Simulator.configuration (s : Simulator) :
    (Bytes × Bytes) × (Bytes × Bytes × UInt16) × EepromFile :=
  ((s.wifiSSID, s.wifiPassword), (s.monitorHost, s.monitorPortString, s.monitorPort), s.eeprom)

/-- The firmware accepts a line that changes its configuration. -/
def FirmwareAccepts (line : Bytes) : Prop := ∃ b : Firmware.Board, b.handleCommand line ≠ b

def SimulatorAccepts (line : Bytes) : Prop :=
  ∃ (s s' : Simulator) (printed : Bytes), s.handleServerCommand line = .ok (s', printed) ∧
    s'.configuration ≠ s.configuration

/-- SSID and password in the memory of both, and after loading again. -/
structure SameWifi (b : Firmware.Board) (s : Simulator) : Prop where
  memory : (b.memory.wifiSSID, b.memory.wifiPassword) = (s.wifiSSID, s.wifiPassword)
  firmware : ((Firmware.loadConfiguration b.eeprom).wifiSSID,
    (Firmware.loadConfiguration b.eeprom).wifiPassword) = (s.wifiSSID, s.wifiPassword)
  simulator : ((loadWiFiCredentialsFromEEPROM s).1.wifiSSID,
    (loadWiFiCredentialsFromEEPROM s).1.wifiPassword) = (s.wifiSSID, s.wifiPassword)

/-- Host and numeric port in the memory of both, and after loading again. -/
structure SameHost (b : Firmware.Board) (s : Simulator) : Prop where
  memory : (b.memory.monitorHost, b.memory.monitorPort) = (s.monitorHost, s.monitorPort)
  firmware : ((Firmware.loadConfiguration b.eeprom).monitorHost,
    (Firmware.loadConfiguration b.eeprom).monitorPort) = (s.monitorHost, s.monitorPort)
  simulator : ((loadMonitorServerFromEEPROM s).1.monitorHost,
    (loadMonitorServerFromEEPROM s).1.monitorPort) = (s.monitorHost, s.monitorPort)

/-- Both accept the line and leave the same values, or both reject it without an effect. -/
structure BehavesAlike (line : Bytes) (Same : Firmware.Board → Simulator → Prop) : Prop where
  accepts : SimulatorAccepts line ↔ FirmwareAccepts line
  accepted : FirmwareAccepts line → ∀ (b : Firmware.Board) (s : Simulator),
    ∃ s' printed, s.handleServerCommand line = .ok (s', printed) ∧ Same (b.handleCommand line) s'
  rejected : ¬FirmwareAccepts line → ∀ s : Simulator,
    ∃ s' printed, s.handleServerCommand line = .ok (s', printed) ∧
      s'.configuration = s.configuration

section Lines

variable {line : Bytes} {Same : Firmware.Board → Simulator → Prop}

theorem FirmwareAccepts.parsed (h : FirmwareAccepts line) :
    ∃ command, Firmware.parseCommandLine line = .ok command := by
  obtain ⟨b, hb⟩ := h
  cases hparse : Firmware.parseCommandLine line with
  | ok command => exact ⟨command, rfl⟩
  | error message =>
    exfalso
    apply hb
    rw [Firmware.Board.handleCommand, hparse]

theorem firmwareAccepts_wifi {newSsid newPass : Bytes}
    (h : Firmware.parseCommandLine line = .ok (.wifi newSsid newPass)) : FirmwareAccepts line := by
  let configuration := Firmware.loadConfiguration fun _ => 0
  refine ⟨⟨{ configuration with wifiSSID := 0 :: Firmware.cString newSsid }, fun _ => 0⟩, ?_⟩
  intro heq
  have hssid := congrArg (fun b => b.memory.wifiSSID) heq
  simp only [Firmware.Board.handleCommand, h, Firmware.Command.configure] at hssid
  exact List.cons_ne_self _ _ hssid.symm

theorem firmwareAccepts_host {newHost newPort : Bytes} {rawPort : UInt16}
    (h : Firmware.parseCommandLine line = .ok (.host newHost newPort rawPort)) :
    FirmwareAccepts line := by
  let configuration := Firmware.loadConfiguration fun _ => 0
  refine ⟨⟨{ configuration with monitorHost := 0 :: Firmware.cString newHost }, fun _ => 0⟩, ?_⟩
  intro heq
  have hhost := congrArg (fun b => b.memory.monitorHost) heq
  simp only [Firmware.Board.handleCommand, h, Firmware.Command.configure] at hhost
  exact List.cons_ne_self _ _ hhost.symm

/-- What the simulator does with credentials that it has read. -/
theorem handleServerCommand_wifi {newSsid newPass : Bytes}
    (h : parseServerCommand line = .ok (.wifi newSsid newPass)) (s : Simulator) :
    ∃ s' printed, s.handleServerCommand line = .ok (s', printed) ∧
      s'.wifiSSID = strncpy (wifiSsidMaxLen + 1) newSsid ∧
      s'.wifiPassword = strncpy (wifiPasswordMaxLen + 1) newPass ∧
      saveWiFiCredentialsToEEPROM s'.wifiSSID s'.wifiPassword s.eeprom = some s'.eeprom := by
  have hfits : ¬(wifiSsidMaxLen < (strncpy (wifiSsidMaxLen + 1) newSsid).length ∨
      wifiPasswordMaxLen < (strncpy (wifiPasswordMaxLen + 1) newPass).length) := by
    simp only [strncpy, List.length_take]
    omega
  rw [Simulator.handleServerCommand, h]
  simp only [ServerCommand.perform, saveWiFiCredentialsToEEPROM, if_neg hfits]
  exact ⟨_, _, rfl, rfl, rfl, if_neg hfits⟩

theorem handleServerCommand_host {newHost : Bytes} {rawPort : UInt16}
    (h : parseServerCommand line = .ok (.host newHost rawPort)) (s : Simulator) :
    ∃ s' printed, s.handleServerCommand line = .ok (s', printed) ∧
      s'.monitorHost = strncpy (monitorHostMaxLen + 1) newHost ∧ s'.monitorPort = rawPort ∧
      saveMonitorServerToEEPROM s'.monitorHost (decimal rawPort.toNat) s.eeprom =
        some s'.eeprom := by
  have hport : (decimal rawPort.toNat).length ≤ monitorPortMaxLen :=
    Firmware.length_decimal_le (by decide) (Nat.lt_trans rawPort.toNat_lt (by decide))
  have hfits : ¬(monitorHostMaxLen < (strncpy (monitorHostMaxLen + 1) newHost).length ∨
      monitorPortMaxLen < (decimal rawPort.toNat).length) := by
    simp only [strncpy, List.length_take]
    omega
  rw [Simulator.handleServerCommand, h]
  simp only [ServerCommand.perform, List.take_of_length_le hport, saveMonitorServerToEEPROM,
    if_neg hfits]
  exact ⟨_, _, rfl, rfl, rfl, if_neg hfits⟩

theorem simulatorAccepts_wifi {newSsid newPass : Bytes}
    (h : parseServerCommand line = .ok (.wifi newSsid newPass)) : SimulatorAccepts line := by
  let s : Simulator :=
    { wifiSSID := 0 :: strncpy (wifiSsidMaxLen + 1) newSsid, eeprom := fun _ => 0 }
  obtain ⟨s', printed, hhandle, hssid, _, _⟩ := handleServerCommand_wifi h s
  refine ⟨s, s', printed, hhandle, fun heq => ?_⟩
  have hsame := congrArg (fun c => c.1.1) heq
  rw [Simulator.configuration, Simulator.configuration, hssid] at hsame
  exact List.cons_ne_self _ _ hsame.symm

theorem simulatorAccepts_host {newHost : Bytes} {rawPort : UInt16}
    (h : parseServerCommand line = .ok (.host newHost rawPort)) : SimulatorAccepts line := by
  let s : Simulator :=
    { monitorHost := 0 :: strncpy (monitorHostMaxLen + 1) newHost, eeprom := fun _ => 0 }
  obtain ⟨s', printed, hhandle, hhost, _, _⟩ := handleServerCommand_host h s
  refine ⟨s, s', printed, hhandle, fun heq => ?_⟩
  have hsame := congrArg (fun c => c.2.1.1) heq
  rw [Simulator.configuration, Simulator.configuration, hhost] at hsame
  exact List.cons_ne_self _ _ hsame.symm

/-- Neither reads a command. -/
theorem behavesAlike_rejected {text : Bytes}
    (hfirmware : ¬FirmwareAccepts line)
    (hsimulator : parseServerCommand line = .error (.message text)) : BehavesAlike line Same := by
  have hhandle (s : Simulator) : s.handleServerCommand line = .ok (s, text) := by
    rw [Simulator.handleServerCommand, hsimulator]
  refine ⟨⟨?_, fun h => absurd h hfirmware⟩, fun h => absurd h hfirmware,
    fun _ s => ⟨s, text, hhandle s, rfl⟩⟩
  rintro ⟨s, s', printed, hs, hne⟩
  rw [hhandle] at hs
  cases hs
  exact absurd rfl hne

/-- No exception escapes where both behave alike. -/
theorem BehavesAlike.not_raised (h : BehavesAlike line Same) (exception : Exception) :
    parseServerCommand line ≠ .error (.raised exception) := by
  intro hparse
  have hhandle (s : Simulator) : s.handleServerCommand line = .error exception := by
    rw [Simulator.handleServerCommand, hparse]
  let s : Simulator := { eeprom := fun _ => 0 }
  by_cases haccepts : FirmwareAccepts line
  · obtain ⟨s', printed, hs, _⟩ :=
      h.accepted haccepts ⟨Firmware.loadConfiguration fun _ => 0, fun _ => 0⟩ s
    rw [hhandle] at hs
    cases hs
  · obtain ⟨s', printed, hs, _⟩ := h.rejected haccepts s
    rw [hhandle] at hs
    cases hs

/-- Both accept the line, with the same effect from every state. -/
theorem behavesAlike_accepted (hfirmware : FirmwareAccepts line)
    (hsimulator : SimulatorAccepts line)
    (hsame : ∀ (b : Firmware.Board) (s : Simulator), ∃ s' printed,
      s.handleServerCommand line = .ok (s', printed) ∧ Same (b.handleCommand line) s') :
    BehavesAlike line Same :=
  ⟨iff_of_true hsimulator hfirmware, fun _ => hsame, fun h => absurd hfirmware h⟩

end Lines

/-! ## Arguments that fit -/

/-- The argument fits, without white space at its ends; or white space is all that
follows its first `max` bytes. -/
def Fits (max : Nat) (s : Bytes) : Prop :=
  ∃ text tail, s = text ++ tail ∧ Trimmed text ∧ Blank tail ∧ text.length ≤ max ∧
    (tail = [] ∨ text.length = max)

/-- The firmware's trimming leaves what the simulator copies. -/
theorem fits_iff {max : Nat} {s : Bytes} : Fits max s ↔ trim s = s.take max := by
  constructor
  · rintro ⟨text, tail, rfl, htext, htail, hlength, hfull⟩
    have htrim := trim_padded blank_nil htail htext
    rw [List.nil_append] at htrim
    rw [htrim]
    rcases hfull with rfl | rfl
    · rw [List.append_nil, List.take_of_length_le hlength]
    · exact List.take_left.symm
  · intro h
    obtain ⟨before, after, hbefore, hafter, heq, htrimmed⟩ := exists_trim s
    by_cases hnil : trim s = []
    · refine ⟨[], s, rfl, ⟨stops_nil _, fun hne => absurd rfl hne⟩, blank_of_trim_eq_nil hnil,
        Nat.zero_le _, ?_⟩
      have htake := h.symm.trans hnil
      rw [List.take_eq_nil_iff] at htake
      rcases htake with hzero | hempty
      · exact Or.inr hzero.symm
      · exact Or.inl hempty
    · -- a text that is kept from its first byte on has no white space before it
      have hstart : before = [] := by
        cases before with
        | nil => rfl
        | cons b before =>
          exfalso
          obtain ⟨c, t, hc⟩ := List.exists_cons_of_ne_nil hnil
          have hprefix : trim s ++ s.drop max = s := by
            rw [h]
            exact List.take_append_drop max s
          have hfirst : (c :: (t ++ s.drop max)).head? =
              (b :: (before ++ (trim s ++ after))).head? := by
            rw [← List.cons_append, ← hc, hprefix, ← List.cons_append]
            exact congrArg List.head? heq
          have hspace := hbefore b (by simp)
          rw [← Option.some.inj hfirst, htrimmed.1 c (by simp [hc])] at hspace
          cases hspace
      rw [hstart, List.nil_append] at heq
      refine ⟨trim s, after, heq, htrimmed, hafter, ?_, ?_⟩
      · rw [h, List.length_take]
        omega
      · have hlength := congrArg List.length h
        have hwhole := congrArg List.length heq
        rw [List.length_take] at hlength
        rw [List.length_append] at hwhole
        rw [← List.length_eq_zero_iff]
        omega

theorem isSpace_of_isBlank {b : Byte} (h : isBlank b = true) : isSpace b = true := by
  simp only [isBlank, Bool.or_eq_true, beq_iff_eq] at h
  rcases h with ((rfl | rfl) | rfl) | rfl <;> decide

theorem strncpy_plain {size : Nat} {s : Bytes} (h : ∀ c ∈ s, Firmware.isStringByte c = true) :
    strncpy (size + 1) s = s.take size := by
  rw [strncpy, Firmware.cString_plain h, Nat.add_sub_cancel]

theorem take_ne_nil {max : Nat} {s : Bytes} (hmax : max ≠ 0) (hs : s ≠ []) : s.take max ≠ [] := by
  simp [List.take_eq_nil_iff, hmax, hs]

/-- A first argument of nothing but white space is never what the firmware stores. -/
theorem take_ne_of_blank {max : Nat} {s a b host : Bytes} (hhost : trim host = [])
    (h : argumentsBy isSpace s = some (a, b)) : a ≠ host.take max := by
  rintro rfl
  obtain ⟨_, _, hne, _⟩ := argumentsBy_parts h
  obtain ⟨⟨hstops, _⟩, _⟩ := argumentsBy_trimmed h
  obtain ⟨c, t, hc⟩ := List.exists_cons_of_ne_nil hne
  have hspace := blank_of_trim_eq_nil hhost c (List.mem_of_mem_take (hc ▸ List.mem_cons_self))
  rw [hstops c (by simp [hc])] at hspace
  cases hspace

/-- How the firmware reads the arguments that the simulator reads. -/
theorem argumentsBy_isSpace {rest first second : Bytes}
    (h : argumentsBy isBlank rest = some (first, second)) :
    argumentsBy isSpace rest =
      if trim first = [] then argumentsBy isSpace second
      else if trim second = [] then none else some (trim first, trim second) :=
  argumentsBy_of_some (fun _ => isSpace_of_isBlank) (by decide) h

/-! ## `WIFI` -/

/-- The credentials that the simulator reads fit. -/
def WifiAgrees (rest : Bytes) : Prop :=
  ∀ newSsid newPass, argumentsBy isBlank rest = some (newSsid, newPass) →
    Fits wifiSsidMaxLen newSsid ∧ Fits wifiPasswordMaxLen newPass

theorem handleCommand_wifi {line newSsid newPass : Bytes}
    (h : Firmware.parseCommandLine line = .ok (.wifi newSsid newPass))
    (hssid : ∀ c ∈ newSsid, Firmware.isStringByte c = true)
    (hpass : ∀ c ∈ newPass, Firmware.isStringByte c = true) (b : Firmware.Board) :
    ((b.handleCommand line).memory.wifiSSID, (b.handleCommand line).memory.wifiPassword) =
      (newSsid, newPass) ∧
    (b.handleCommand line).eeprom =
      Firmware.saveWiFiCredentialsToEEPROM newSsid newPass b.eeprom := by
  simp only [Firmware.Board.handleCommand, h, Firmware.Command.configure,
    Firmware.cString_plain hssid, Firmware.cString_plain hpass, and_self]

theorem sameWifi_handled {line newSsid newPass : Bytes}
    (hfirmware : Firmware.parseCommandLine line =
      .ok (.wifi (newSsid.take wifiSsidMaxLen) (newPass.take wifiPasswordMaxLen)))
    (hsimulator : parseServerCommand line = .ok (.wifi newSsid newPass))
    (hssid : ∀ c ∈ newSsid, Firmware.isStringByte c = true)
    (hpass : ∀ c ∈ newPass, Firmware.isStringByte c = true) (b : Firmware.Board) (s : Simulator) :
    ∃ s' printed, s.handleServerCommand line = .ok (s', printed) ∧
      SameWifi (b.handleCommand line) s' := by
  have hssid' : ∀ c ∈ newSsid.take wifiSsidMaxLen, Firmware.isStringByte c = true :=
    fun c hc => hssid c (List.mem_of_mem_take hc)
  have hpass' : ∀ c ∈ newPass.take wifiPasswordMaxLen, Firmware.isStringByte c = true :=
    fun c hc => hpass c (List.mem_of_mem_take hc)
  have hssidLength : (newSsid.take wifiSsidMaxLen).length ≤ wifiSsidMaxLen :=
    List.length_take_le _ _
  have hpassLength : (newPass.take wifiPasswordMaxLen).length ≤ wifiPasswordMaxLen :=
    List.length_take_le _ _
  obtain ⟨s', printed, hhandle, hs, hp, hsaved⟩ := handleServerCommand_wifi hsimulator s
  rw [strncpy_plain hssid] at hs
  rw [strncpy_plain hpass] at hp
  obtain ⟨hmemory, heeprom⟩ := handleCommand_wifi hfirmware hssid' hpass' b
  refine ⟨s', printed, hhandle, ?_, ?_, ?_⟩
  · rw [hmemory, hs, hp]
  · rw [heeprom, Firmware.load_saveWiFiCredentials _ hssidLength hpassLength hssid' hpass', hs, hp]
  · rw [hs, hp] at hsaved ⊢
    obtain ⟨hloaded, hloaded'⟩ :=
      load_saveWiFiCredentials hssidLength hpassLength hssid' hpass' hsaved
    rw [hloaded, hloaded']

theorem wifi_behavesAlike_iff {rest : Bytes} (hplain : ∀ c ∈ rest, Firmware.isStringByte c = true) :
    BehavesAlike (ascii "WIFI " ++ rest) SameWifi ↔ WifiAgrees rest := by
  have hnul := Firmware.zero_not_mem hplain
  rcases parseServerCommand_wifi rest with
    ⟨hnone, text, hsimulator⟩ | ⟨newSsid, newPass, hsome, hsimulator⟩
  · refine iff_of_true (behavesAlike_rejected (fun haccepts => ?_) hsimulator) fun a b h => ?_
    · obtain ⟨command, hparse⟩ := haccepts.parsed
      obtain ⟨a, b, hargs, _⟩ := (Firmware.parseCommandLine_wifi hnul).mp hparse
      rw [argumentsBy_of_none (fun _ => isSpace_of_isBlank) (by decide) hnone] at hargs
      cases hargs
    · rw [hnone] at h
      cases h
  · have hargs := argumentsBy_isSpace hsome
    obtain ⟨hssidMem, hpassMem, hssidNe, hpassNe⟩ := argumentsBy_parts hsome
    have hssid : ∀ c ∈ newSsid, Firmware.isStringByte c = true :=
      fun c hc => hplain c (hssidMem c hc)
    have hpass : ∀ c ∈ newPass, Firmware.isStringByte c = true :=
      fun c hc => hplain c (hpassMem c hc)
    have hagrees : WifiAgrees rest ↔ trim newSsid = newSsid.take wifiSsidMaxLen ∧
        trim newPass = newPass.take wifiPasswordMaxLen := by
      rw [← fits_iff, ← fits_iff]
      constructor
      · exact fun h => h _ _ hsome
      · intro h a b hargs
        rw [hsome] at hargs
        cases hargs
        exact h
    rw [hagrees]
    constructor
    · intro halike
      have haccepts := halike.accepts.mp (simulatorAccepts_wifi hsimulator)
      obtain ⟨command, hparse⟩ := haccepts.parsed
      obtain ⟨a, b, hab, _, _, rfl⟩ := (Firmware.parseCommandLine_wifi hnul).mp hparse
      have hvalues : a = newSsid.take wifiSsidMaxLen ∧ b = newPass.take wifiPasswordMaxLen := by
        obtain ⟨haMem, hbMem, _, _⟩ := argumentsBy_parts hab
        let board : Firmware.Board := ⟨Firmware.loadConfiguration fun _ => 0, fun _ => 0⟩
        let s : Simulator := { eeprom := fun _ => 0 }
        obtain ⟨hmemory, _⟩ := handleCommand_wifi hparse (fun c hc => hplain c (haMem c hc))
          (fun c hc => hplain c (hbMem c hc)) board
        obtain ⟨s', printed, hhandle, hsame⟩ := halike.accepted haccepts board s
        obtain ⟨t, _, hhandle', hs, hp, _⟩ := handleServerCommand_wifi hsimulator s
        rw [hhandle] at hhandle'
        cases hhandle'
        have heq := hsame.memory
        rw [hmemory, hs, hp, strncpy_plain hssid, strncpy_plain hpass, Prod.mk.injEq] at heq
        exact heq
      rw [hab] at hargs
      split at hargs
      · next hblank => exact absurd hvalues.1 (take_ne_of_blank hblank hargs.symm)
      · split at hargs
        · cases hargs
        · cases hargs
          exact hvalues
    · rintro ⟨htrimSsid, htrimPass⟩
      rw [htrimSsid, htrimPass, if_neg (take_ne_nil (by decide) hssidNe),
        if_neg (take_ne_nil (by decide) hpassNe)] at hargs
      have hparse : Firmware.parseCommandLine (ascii "WIFI " ++ rest) =
          .ok (.wifi (newSsid.take wifiSsidMaxLen) (newPass.take wifiPasswordMaxLen)) :=
        (Firmware.parseCommandLine_wifi hnul).mpr ⟨_, _, hargs, List.length_take_le _ _,
          List.length_take_le _ _, rfl⟩
      exact behavesAlike_accepted (firmwareAccepts_wifi hparse) (simulatorAccepts_wifi hsimulator)
        (sameWifi_handled hparse hsimulator hssid hpass)

/-! ## Ports -/

/-- In a short text the width of the type does not matter for a number in range. -/
theorem reads_short {s tail : Bytes} {n : Nat} (hlength : s.length ≤ monitorPortMaxLen)
    (hrange : n ≤ 0xFFFF) : Reads 32 s n tail ↔ Reads 64 s n tail := by
  have hvalue {gap sign ds : Bytes} (hds : Digits ds) (hs : s = gap ++ (sign ++ (ds ++ tail))) :
      numeralValue ds < 10 ^ 6 := by
    refine Nat.lt_of_lt_of_le (numeralValue_lt hds) (Nat.pow_le_pow_right (by decide) ?_)
    have hwhole := congrArg List.length hs
    simp only [List.length_append] at hwhole
    unfold monitorPortMaxLen at hlength
    omega
  -- a negative number is out of range in both types
  have hwrap {v : Nat} (hv : v < 10 ^ 6) (negative : Bool) :
      n = wrapSign 32 negative v ↔ n = wrapSign 64 negative v := by
    cases negative with
    | false => rfl
    | true =>
      simp only [wrapSign, ↓reduceIte]
      omega
  constructor
  · rintro ⟨gap, sign, ds, hgap, hsign, hds, hdsne, htail, _, hn, hs⟩
    exact ⟨gap, sign, ds, hgap, hsign, hds, hdsne, htail,
      Nat.lt_trans (hvalue hds hs) (by decide), (hwrap (hvalue hds hs) _).mp hn, hs⟩
  · rintro ⟨gap, sign, ds, hgap, hsign, hds, hdsne, htail, _, hn, hs⟩
    exact ⟨gap, sign, ds, hgap, hsign, hds, hdsne, htail,
      Nat.lt_trans (hvalue hds hs) (by decide), (hwrap (hvalue hds hs) _).mpr hn, hs⟩

/-- `stoul` reads a numeral that fits, and throws otherwise. -/
theorem stoul_cases (s : Bytes) :
    (∃ n tail, Reads 64 s n tail ∧ n < 2 ^ 64 ∧ stoul s = .ok (UInt64.ofNat n)) ∨
    ∃ exception, stoul s = .error exception ∧ ∀ n tail, ¬Reads 64 s n tail := by
  have hreads {n : Nat} {tail : Bytes} (h : Reads 64 s n tail) : strtoul 64 s = some ⟨n, false⟩ :=
    strtoul_eq_some_iff.mpr ⟨tail, h⟩
  unfold stoul
  cases hread : strtoul 64 s with
  | none =>
    refine Or.inr ⟨_, rfl, fun n tail h => ?_⟩
    have hsome := hreads h
    rw [hread] at hsome
    cases hsome
  | some converted =>
    obtain ⟨n, overflow⟩ := converted
    cases overflow with
    | true =>
      refine Or.inr ⟨_, rfl, fun m tail h => ?_⟩
      have hsome := hreads h
      rw [hread] at hsome
      cases hsome
    | false =>
      obtain ⟨tail, h⟩ := strtoul_eq_some_iff.mp hread
      refine Or.inl ⟨n, tail, h, ?_, rfl⟩
      obtain ⟨_, sign, ds, _, _, _, _, _, hvalue, rfl, _⟩ := h
      unfold wrapSign
      split
      · exact Nat.mod_lt _ (by decide)
      · exact hvalue

theorem hostCommand_eq {newHost newPort : Bytes} {n : Nat} (hn : n < 2 ^ 64)
    (h : stoul newPort = .ok (UInt64.ofNat n)) :
    hostCommand newHost newPort =
      if n ≠ 0 ∧ n ≤ 0xFFFF then .ok (.host newHost n.toUInt16)
      else refuse "invalid HOST port" := by
  have hvalue : (UInt64.ofNat n).toNat = n := UInt64.toNat_ofNat_of_lt hn
  have hzero : UInt64.ofNat n = 0 ↔ n = 0 := by
    rw [← UInt64.toNat_inj, hvalue]
    rfl
  have hlarge : 0xFFFF < UInt64.ofNat n ↔ 0xFFFF < n := by
    rw [UInt64.lt_iff_toNat_lt, hvalue]
    rfl
  have hport : (UInt64.ofNat n).toUInt16 = n.toUInt16 := by
    rw [← UInt16.toNat_inj, UInt64.toNat_toUInt16, hvalue, Nat.toUInt16, UInt16.toNat_ofNat']
  have hcommand : hostCommand newHost newPort =
      if UInt64.ofNat n = 0 ∨ 0xFFFF < UInt64.ofNat n then refuse "invalid HOST port"
      else .ok (.host newHost (UInt64.ofNat n).toUInt16) := by
    unfold hostCommand
    rw [h]
    rfl
  rw [hcommand, hport]
  by_cases hrange : n ≠ 0 ∧ n ≤ 0xFFFF
  · rw [if_neg (by rw [hzero, hlarge]; omega), if_pos hrange]
  · rw [if_pos (by rw [hzero, hlarge]; omega), if_neg hrange]

/-- Trimming a port does not change what is read. -/
theorem reads_trim {bits n : Nat} {s : Bytes} :
    (∃ tail, Reads bits (trim s) n tail) ↔ ∃ tail, Reads bits s n tail := by
  rw [← strtoul_eq_some_iff, ← strtoul_eq_some_iff, strtoul_trim]

/-! ## `HOST` -/

/-- The arguments of a line that the firmware accepts. -/
def NamesServer (s : Bytes) : Prop :=
  ∃ newHost newPort n tail, argumentsBy isSpace s = some (newHost, newPort) ∧
    newHost.length ≤ monitorHostMaxLen ∧ newPort.length ≤ monitorPortMaxLen ∧
    Reads 32 newPort n tail ∧ n ≠ 0 ∧ n ≤ 0xFFFF

/-- The port that the simulator reads is a number.  If it is in range, host and port
fit; if it is not, the host is not white space before another host and port. -/
def HostAgrees (rest : Bytes) : Prop :=
  ∀ newHost newPort, argumentsBy isBlank rest = some (newHost, newPort) →
    ∃ n tail, Reads 64 newPort n tail ∧
      if n ≠ 0 ∧ n ≤ 0xFFFF then
        Fits monitorHostMaxLen newHost ∧ (trim newPort).length ≤ monitorPortMaxLen
      else ¬(Blank newHost ∧ NamesServer newPort)

theorem firmwareAccepts_host_iff {rest : Bytes} (hnul : (0 : Byte) ∉ rest) :
    FirmwareAccepts (ascii "HOST " ++ rest) ↔ NamesServer rest := by
  constructor
  · intro h
    obtain ⟨command, hparse⟩ := h.parsed
    obtain ⟨newHost, newPort, n, hargs, hhost, hport, hn, hne, hrange, _⟩ :=
      (Firmware.parseCommandLine_host hnul).mp hparse
    obtain ⟨tail, hreads⟩ := (Firmware.strtoul32_eq_some_iff (by omega)).mp hn
    exact ⟨newHost, newPort, n, tail, hargs, hhost, hport, hreads, hne, hrange⟩
  · rintro ⟨newHost, newPort, n, tail, hargs, hhost, hport, hreads, hne, hrange⟩
    exact firmwareAccepts_host ((Firmware.parseCommandLine_host hnul).mpr
      ⟨newHost, newPort, n, hargs, hhost, hport,
        (Firmware.strtoul32_eq_some_iff (by omega)).mpr ⟨tail, hreads⟩, hne, hrange, rfl⟩)

theorem handleCommand_host {line newHost newPort : Bytes} {rawPort : UInt16}
    (h : Firmware.parseCommandLine line = .ok (.host newHost newPort rawPort))
    (hhost : ∀ c ∈ newHost, Firmware.isStringByte c = true)
    (hport : ∀ c ∈ newPort, Firmware.isStringByte c = true) (b : Firmware.Board) :
    ((b.handleCommand line).memory.monitorHost, (b.handleCommand line).memory.monitorPort) =
      (newHost, rawPort) ∧
    (b.handleCommand line).eeprom =
      Firmware.saveMonitorServerToEEPROM newHost newPort b.eeprom := by
  simp only [Firmware.Board.handleCommand, h, Firmware.Command.configure,
    Firmware.cString_plain hhost, Firmware.cString_plain hport, and_self]

theorem sameHost_handled {line newHost newPort : Bytes} {n : Nat} (hne : n ≠ 0)
    (hrange : n ≤ 0xFFFF) (hnonempty : newHost ≠ [])
    (hlength : newPort.length ≤ monitorPortMaxLen) (hn : Firmware.strtoul32 newPort = some n)
    (hfirmware : Firmware.parseCommandLine line =
      .ok (.host (newHost.take monitorHostMaxLen) newPort n.toUInt16))
    (hsimulator : parseServerCommand line = .ok (.host newHost n.toUInt16))
    (hhost : ∀ c ∈ newHost, Firmware.isStringByte c = true)
    (hport : ∀ c ∈ newPort, Firmware.isStringByte c = true) (b : Firmware.Board) (s : Simulator) :
    ∃ s' printed, s.handleServerCommand line = .ok (s', printed) ∧
      SameHost (b.handleCommand line) s' := by
  have hvalue : n.toUInt16.toNat = n := 
    UInt16.toNat_ofNat_of_lt (Nat.lt_of_le_of_lt hrange (by decide))
  have hport16 : n.toUInt16 ≠ 0 := by
    rw [Ne, ← UInt16.toNat_inj, hvalue]
    exact hne
  have hhost' : ∀ c ∈ newHost.take monitorHostMaxLen, Firmware.isStringByte c = true :=
    fun c hc => hhost c (List.mem_of_mem_take hc)
  have hhostLength : (newHost.take monitorHostMaxLen).length ≤ monitorHostMaxLen :=
    List.length_take_le _ _
  obtain ⟨s', printed, hhandle, hs, hp, hsaved⟩ := handleServerCommand_host hsimulator s
  rw [strncpy_plain hhost] at hs
  rw [hvalue, hs] at hsaved
  obtain ⟨hmemory, heeprom⟩ := handleCommand_host hfirmware hhost' hport b
  refine ⟨s', printed, hhandle, ?_, ?_, ?_⟩
  · rw [hmemory, hs, hp]
  · rw [heeprom, Firmware.load_saveMonitorServer _ hhostLength hlength hhost' hport
      (take_ne_nil (by decide) hnonempty) hn hport16, hs, hp]
  · have hdecimal : ∀ c ∈ decimal n, Firmware.isStringByte c = true := by
      intro c hc
      have hdigit := decimal_digits n c hc
      simp [Firmware.isStringByte, ne_of_isDigit hdigit (show isDigit 0 = false by decide),
        ne_of_isDigit hdigit (show isDigit 255 = false by decide)]
    have hread : strtoul 64 (decimal n) = some ⟨n, false⟩ := by
      have h := @strtoul_decimal 64 n [] (by omega) (stops_nil isDigit)
      rwa [List.append_nil] at h
    obtain ⟨hloaded, hloaded'⟩ := load_saveMonitorServer hhostLength
      (Firmware.length_decimal_le (by decide) (show n < 10 ^ 6 by omega)) hhost' hdecimal hsaved
    rw [hloaded, hloaded', hread, hs, hp]
    rfl

section Host

variable {rest newHost newPort tail : Bytes} {n : Nat}

theorem reads_value {bits m : Nat} {s t t' : Bytes} (h : Reads bits s n t)
    (h' : Reads bits s m t') : n = m := by
  have hn := strtoul_eq_some_iff.mpr ⟨t, h⟩
  rw [strtoul_eq_some_iff.mpr ⟨t', h'⟩] at hn
  cases hn
  rfl

theorem trim_ne_nil_of_reads {bits : Nat} {s : Bytes} (h : Reads bits s n tail) :
    trim s ≠ [] := by
  intro hnil
  obtain ⟨t, ht⟩ := reads_trim.mpr ⟨tail, h⟩
  rw [hnil] at ht
  obtain ⟨gap, sign, ds, _, _, _, hne, _, _, _, heq⟩ := ht
  simp [hne] at heq

/-- A line whose port is out of range for the simulator may name another server to
the firmware. -/
theorem namesServer_iff (hsome : argumentsBy isBlank rest = some (newHost, newPort))
    (hreads : Reads 64 newPort n tail) (hrange : ¬(n ≠ 0 ∧ n ≤ 0xFFFF)) :
    NamesServer rest ↔ Blank newHost ∧ NamesServer newPort := by
  have hargs := argumentsBy_isSpace hsome
  constructor
  · rintro ⟨host, port, m, t, hrest, hhost, hport, hm, hne, hmax⟩
    rw [hargs] at hrest
    split at hrest
    · next hblank =>
      exact ⟨blank_of_trim_eq_nil hblank, host, port, m, t, hrest, hhost, hport, hm, hne, hmax⟩
    · split at hrest
      · cases hrest
      · cases hrest
        exfalso
        apply hrange
        obtain ⟨t', ht'⟩ := reads_trim.mp ⟨t, (reads_short hport hmax).mp hm⟩
        rw [reads_value hreads ht']
        exact ⟨hne, hmax⟩
  · rintro ⟨hblank, hnames⟩
    rw [if_pos (trim_eq_nil hblank)] at hargs
    unfold NamesServer
    rw [hargs]
    exact hnames

/-- A line that the simulator accepts. -/
theorem host_behavesAlike_accepted (hplain : ∀ c ∈ rest, Firmware.isStringByte c = true)
    (hsome : argumentsBy isBlank rest = some (newHost, newPort)) (hreads : Reads 64 newPort n tail)
    (hne : n ≠ 0) (hrange : n ≤ 0xFFFF)
    (hsimulator : parseServerCommand (ascii "HOST " ++ rest) = .ok (.host newHost n.toUInt16)) :
    BehavesAlike (ascii "HOST " ++ rest) SameHost ↔
      Fits monitorHostMaxLen newHost ∧ (trim newPort).length ≤ monitorPortMaxLen := by
  have hnul := Firmware.zero_not_mem hplain
  have hargs := argumentsBy_isSpace hsome
  obtain ⟨hhostMem, hportMem, hhostNe, _⟩ := argumentsBy_parts hsome
  have hhost : ∀ c ∈ newHost, Firmware.isStringByte c = true :=
    fun c hc => hplain c (hhostMem c hc)
  rw [fits_iff]
  constructor
  · intro halike
    have haccepts := halike.accepts.mp (simulatorAccepts_host hsimulator)
    obtain ⟨command, hparse⟩ := haccepts.parsed
    obtain ⟨host, port, m, hrest, _, hport, _, _, _, rfl⟩ :=
      (Firmware.parseCommandLine_host hnul).mp hparse
    have hvalue : host = newHost.take monitorHostMaxLen := by
      obtain ⟨hmem, hmem', _, _⟩ := argumentsBy_parts hrest
      let board : Firmware.Board := ⟨Firmware.loadConfiguration fun _ => 0, fun _ => 0⟩
      let s : Simulator := { eeprom := fun _ => 0 }
      obtain ⟨hmemory, _⟩ := handleCommand_host hparse (fun c hc => hplain c (hmem c hc))
        (fun c hc => hplain c (hmem' c hc)) board
      obtain ⟨s', printed, hhandle, hsame⟩ := halike.accepted haccepts board s
      obtain ⟨t, _, hhandle', hs, _⟩ := handleServerCommand_host hsimulator s
      rw [hhandle] at hhandle'
      cases hhandle'
      have heq := hsame.memory
      rw [hmemory, hs, strncpy_plain hhost, Prod.mk.injEq] at heq
      exact heq.1
    rw [hrest] at hargs
    split at hargs
    · next hblank => exact absurd hvalue (take_ne_of_blank hblank hargs.symm)
    · split at hargs
      · cases hargs
      · cases hargs
        exact ⟨hvalue, hport⟩
  · rintro ⟨htrim, hport⟩
    rw [htrim, if_neg (take_ne_nil (by decide) hhostNe), if_neg (trim_ne_nil_of_reads hreads)]
      at hargs
    obtain ⟨t, ht⟩ := reads_trim.mpr ⟨tail, hreads⟩
    have hread : Firmware.strtoul32 (trim newPort) = some n :=
      (Firmware.strtoul32_eq_some_iff (by omega)).mpr ⟨t, (reads_short hport hrange).mpr ht⟩
    have hparse : Firmware.parseCommandLine (ascii "HOST " ++ rest) =
        .ok (.host (newHost.take monitorHostMaxLen) (trim newPort) n.toUInt16) :=
      (Firmware.parseCommandLine_host hnul).mpr ⟨_, _, n, hargs, List.length_take_le _ _, hport, hread,
        hne, hrange, rfl⟩
    have hportPlain : ∀ c ∈ trim newPort, Firmware.isStringByte c = true :=
      fun c hc => hplain c (hportMem c (mem_of_mem_trimBy hc))
    exact behavesAlike_accepted (firmwareAccepts_host hparse) (simulatorAccepts_host hsimulator)
      (sameHost_handled hne hrange hhostNe hport hread hparse hsimulator hhost hportPlain)

theorem host_behavesAlike_iff (hplain : ∀ c ∈ rest, Firmware.isStringByte c = true) :
    BehavesAlike (ascii "HOST " ++ rest) SameHost ↔ HostAgrees rest := by
  have hnul := Firmware.zero_not_mem hplain
  rcases parseServerCommand_host rest with
    ⟨hnone, text, hsimulator⟩ | ⟨newHost, newPort, hsome, hsimulator⟩
  · refine iff_of_true (behavesAlike_rejected (fun haccepts => ?_) hsimulator) fun a b h => ?_
    · obtain ⟨a, b, _, _, hargs, _⟩ := (firmwareAccepts_host_iff hnul).mp haccepts
      rw [argumentsBy_of_none (fun _ => isSpace_of_isBlank) (by decide) hnone] at hargs
      cases hargs
    · rw [hnone] at h
      cases h
  · rcases stoul_cases newPort with ⟨n, tail, hreads, hn, hstoul⟩ | ⟨exception, hstoul, hnot⟩
    · rw [hostCommand_eq hn hstoul] at hsimulator
      have hagrees : HostAgrees rest ↔
          if n ≠ 0 ∧ n ≤ 0xFFFF then
            Fits monitorHostMaxLen newHost ∧ (trim newPort).length ≤ monitorPortMaxLen
          else ¬(Blank newHost ∧ NamesServer newPort) := by
        constructor
        · intro h
          obtain ⟨m, t, hm, hagrees⟩ := h newHost newPort hsome
          rwa [reads_value hreads hm]
        · intro h host port hargs
          rw [hsome] at hargs
          cases hargs
          exact ⟨n, tail, hreads, h⟩
      rw [hagrees]
      by_cases hrange : n ≠ 0 ∧ n ≤ 0xFFFF
      · rw [if_pos hrange] at hsimulator ⊢
        exact host_behavesAlike_accepted hplain hsome hreads hrange.1 hrange.2 hsimulator
      · rw [if_neg hrange] at hsimulator ⊢
        rw [← namesServer_iff hsome hreads hrange, ← firmwareAccepts_host_iff hnul]
        constructor
        · intro halike haccepts
          obtain ⟨s, s', printed, hhandle, hchanged⟩ := halike.accepts.mpr haccepts
          rw [Simulator.handleServerCommand, hsimulator] at hhandle
          cases hhandle
          exact hchanged rfl
        · exact fun hrejected => behavesAlike_rejected hrejected hsimulator
    · refine iff_of_false (fun halike => ?_) fun hagrees => ?_
      · refine halike.not_raised exception ?_
        rw [hsimulator, hostCommand, hstoul]
        rfl
      · obtain ⟨n, tail, hreads, _⟩ := hagrees newHost newPort hsome
        exact hnot n tail hreads

end Host

/-- The `WIFI` and `HOST` lines on which the simulator behaves like the firmware. -/
theorem simulator_agrees_iff {rest : Bytes}
    (hplain : ∀ c ∈ rest, Firmware.isStringByte c = true) :
    (BehavesAlike (ascii "WIFI " ++ rest) SameWifi ↔ WifiAgrees rest) ∧
      (BehavesAlike (ascii "HOST " ++ rest) SameHost ↔ HostAgrees rest) :=
  ⟨wifi_behavesAlike_iff hplain, host_behavesAlike_iff hplain⟩

theorem simulator_agrees_credentials : BehavesAlike (ascii "WIFI net pass") SameWifi := by
  refine (@simulator_agrees_iff (ascii "net pass") (List.all_eq_true.mp (by decide))).1.mpr ?_
  intro newSsid newPass hargs
  have hread : argumentsBy isBlank (ascii "net pass") = some (ascii "net", ascii "pass") := rfl
  rw [hread] at hargs
  cases hargs
  exact ⟨fits_iff.mpr (by decide), fits_iff.mpr (by decide)⟩

/-- The exception of `stoul` escapes where the firmware prints an error. -/
theorem portName_not_alike :
    (∀ c ∈ ascii "HOST server port", Firmware.isStringByte c = true) ∧
      ¬BehavesAlike (ascii "HOST server port") SameHost :=
  ⟨List.all_eq_true.mp (by decide), fun halike => halike.not_raised .invalidArgument rfl⟩

end InverterMonitor.MonitorSimulator
