import InverterMonitor.Firmware.Telemetry
import InverterMonitor.Cxx.Scans

/-!
# The command lines of the inverter firmware

`handleCommand` of `inverter.ino`: a line is read as a command or answered with
an error text, and a command acts.  What acts on other parts than the relays is
kept as a command.  Proved here:

* `relaySet_eq_some_iff`: the lines that set a relay, as texts;
* `handleCommand_states`: no other line changes a relay;
* `processTcpCommands_line`: a line that fits reaches `handleCommand` unchanged.
-/

namespace InverterMonitor.Firmware
open Text Cxx

/-! ## Strings of the Arduino library

A `String` may hold NUL bytes.  `trim` and `substring` go by its length; the search for a byte
and the comparisons are those of the C library, which end at a NUL. -/

/-- The text that `c_str()` points to. -/
def cString (s : Bytes) : Bytes := s.takeWhile (· ≠ 0)

/-- `startsWith(start)` and the substring after it. -/
def afterStart (start s : Bytes) : Option Bytes :=
  if start.isPrefixOf s then some (s.drop start.length) else none

/-- `indexOf(c)` and the substrings before and after it. -/
def splitAtIndex (c : Byte) (s : Bytes) : Option (Bytes × Bytes) :=
  if c ∈ cString s then cutAt c s else none

/-- `s == text`, for a literal. -/
def equalsLiteral (s : Bytes) (text : String) : Bool := cString s == ascii text

/-- The lengths agree, and the bytes up to the first NUL of `s`. -/
def equalsIgnoreCase (s t : Bytes) : Bool :=
  s.length == t.length && (lower (cString s)).isPrefixOf (lower t)

/-- `strtoul(s, &endPtr, 10)`, where `unsigned long` has 32 bits; `none` when `endPtr == s`. -/
def strtoul32 (s : Bytes) : Option Nat := (strtoul 32 s).map (·.value)

/-! ## Commands -/

inductive Command
  | empty
  | wifi (newSsid newPass : Bytes)
  | host (newHost newPort : Bytes) (rawPort : UInt16)
  | sim (enabled : Bool)
  | ctrlScanMs (rawValue : UInt32)
  | monScanMs (rawValue : UInt32)
  | regSpacingMs (rawValue : UInt32)
  | relay (relayIndex : Fin 4) (active : Bool)
  | clearIp (relayIndex : Fin 4)
  | setIp (relayIndex : Fin 4) (ip : IpAddress)
  | read (reg : RegItem)
  | otaUrl (url : Bytes)
  | relayValue (address value : UInt16)
  | write (reg : RegItem) (value : UInt16)

def wifiSsidMaxLen : Nat := 32
def wifiPasswordMaxLen : Nat := 64
def monitorHostMaxLen : Nat := 64
def monitorPortMaxLen : Nat := 6
def relayPinCount : Nat := 4

/-- The text of an error that `handleCommand` prints. -/
def tcpCmd (text : String) : Bytes := ascii "TCP CMD: " ++ ascii text

/-- The two arguments of `WIFI` and `HOST`. -/
def twoArguments (text : String) (remainder : Bytes) : Except Bytes (Bytes × Bytes) :=
  match splitAtIndex ' ' (trim remainder) with
  | none => .error (tcpCmd text)
  | some (first, second) =>
    if trim first = [] ∨ trim second = [] then .error (tcpCmd text)
    else .ok (trim first, trim second)

def parseWifi (remainder : Bytes) : Except Bytes Command := do
  let (newSsid, newPass) ← twoArguments "invalid WIFI format, expected 'WIFI [ssid] [password]'"
    remainder
  if wifiSsidMaxLen < newSsid.length ∨ wifiPasswordMaxLen < newPass.length then
    .error (tcpCmd "WIFI SSID or password too long")
  else .ok (.wifi newSsid newPass)

def parseHost (remainder : Bytes) : Except Bytes Command := do
  let (newHost, newPort) ← twoArguments "invalid HOST format, expected 'HOST [address] [port]'"
    remainder
  if monitorHostMaxLen < newHost.length ∨ monitorPortMaxLen < newPort.length then
    .error (tcpCmd "monitor host or port too long")
  else
    match strtoul32 newPort with
    | none => .error (tcpCmd "invalid HOST port")
    | some rawPort =>
      if rawPort = 0 ∨ 0xFFFF < rawPort then .error (tcpCmd "invalid HOST port")
      else .ok (.host newHost newPort rawPort.toUInt16)

/-- `ON`, `OFF` in any case, `1` or `0`. -/
def readState (stateText : Bytes) : Option Bool :=
  if equalsIgnoreCase stateText (ascii "ON") ∨ equalsLiteral stateText "1" then some true
  else if equalsIgnoreCase stateText (ascii "OFF") ∨ equalsLiteral stateText "0" then some false
  else none

def parseSim (remainder : Bytes) : Except Bytes Command :=
  let valueText := trim remainder
  if valueText = [] then .error (tcpCmd "invalid SIM format, expected 'SIM [ON|OFF|1|0]'")
  else
    match readState valueText with
    | some enabled => .ok (.sim enabled)
    | none => .error (tcpCmd "invalid SIM value, expected ON/OFF/1/0")

/-- The three timing commands; the remainder starts right after the name. -/
def parseInterval (name : String) (set : UInt32 → Command) (remainder : Bytes) :
    Except Bytes Command :=
  let valueText := trim remainder
  if valueText = [] then
    .error (tcpCmd ("invalid " ++ name ++ " format, expected '" ++ name ++ " [value]' "))
  else
    match strtoul32 valueText with
    | none => .error (tcpCmd ("invalid " ++ name ++ " value"))
    | some rawValue =>
      if rawValue = 0 then .error (tcpCmd ("invalid " ++ name ++ " value"))
      else .ok (set rawValue.toUInt32)

def parseCtrlScanMs : Bytes → Except Bytes Command := parseInterval "CTRL_SCAN_MS" .ctrlScanMs
def parseMonScanMs : Bytes → Except Bytes Command := parseInterval "MON_SCAN_MS" .monScanMs
def parseRegSpacingMs : Bytes → Except Bytes Command := parseInterval "REG_SPACING_MS" .regSpacingMs

def parseRelayNumber (relayText : Bytes) : Except Bytes (Fin 4) :=
  match strtoul32 relayText with
  | none => .error (tcpCmd "invalid relay number, expected 1-4")
  | some relayNumber =>
    if h : 1 ≤ relayNumber ∧ relayNumber ≤ relayPinCount then
      .ok ⟨relayNumber - 1, by unfold relayPinCount at h; omega⟩
    else .error (tcpCmd "invalid relay number, expected 1-4")

def parseRelay (remainder : Bytes) : Except Bytes Command := do
  let (relayText, stateText) ←
    twoArguments "invalid RELAY format, expected 'RELAY [number] [state]' " remainder
  let relayIndex ← parseRelayNumber relayText
  match readState stateText with
  | some active => .ok (.relay relayIndex active)
  | none => .error (tcpCmd "invalid relay state, expected ON/OFF or 1/0")

def parseSetIp (remainder : Bytes) : Except Bytes Command :=
  let remainder := trim remainder
  let (relayText, ipText) := (splitAtIndex ' ' remainder).getD (remainder, [])
  if remainder = [] ∨ trim relayText = [] then
    .error (tcpCmd
      "invalid SETIP format, expected 'SETIP [relayNumber]' or 'SETIP [relayNumber] [ip]' ")
  else do
    let relayIndex ← parseRelayNumber (trim relayText)
    if trim ipText = [] then .ok (.clearIp relayIndex)
    else
      match h : parseIpAddress (trim ipText) with
      | some text => .ok (.setIp relayIndex ⟨text, trim ipText, h⟩)
      | none => .error (tcpCmd "invalid IP address format, expected IPv4 like 192.168.1.100")

/-- A register address, as `READ` and the numeric form read it. -/
def parseAddress (addrText : Bytes) : Except Bytes UInt16 :=
  match strtoul32 addrText with
  | none => .error (tcpCmd "invalid register address")
  | some rawAddr =>
    if 0xFFFF < rawAddr then .error (tcpCmd "invalid register address")
    else .ok rawAddr.toUInt16

def unknownRegister (address : UInt16) : Bytes :=
  tcpCmd "unknown register " ++ decimal address.toNat

def parseRead (remainder : Bytes) : Except Bytes Command :=
  let addrText := trim remainder
  if addrText = [] then .error (tcpCmd "invalid READ format, expected 'READ [address]'")
  else do
    let address ← parseAddress addrText
    match findRegister address with
    | some reg => .ok (.read reg)
    | none => .error (unknownRegister address)

def parseOtaUrl (remainder : Bytes) : Except Bytes Command :=
  if trim remainder = [] then
    .error (tcpCmd "invalid OTA_URL format, expected 'OTA_URL [url]'")
  else .ok (.otaUrl (trim remainder))

/-- The form without a name: an address and a value. -/
def parseWrite (line : Bytes) : Except Bytes Command := do
  let (addrText, valueText) ← twoArguments "invalid format, expected '[regAddr] [uintValue]'" line
  let address ← parseAddress addrText
  match strtoul32 valueText with
  | none => .error (tcpCmd "invalid register value")
  | some rawValue =>
    if 0xFFFF < rawValue then .error (tcpCmd "invalid register value")
    else if address.toNat ≤ relayPinCount then .ok (.relayValue address rawValue.toUInt16)
    else
      match findRegister address with
      | none => .error (unknownRegister address)
      | some reg =>
        if reg.access ≠ .readWrite then
          .error (tcpCmd "register " ++ decimal address.toNat ++ ascii " is read-only")
        else .ok (.write reg rawValue.toUInt16)

/-- The named forms in the order in which `handleCommand` tries them. -/
def namedForms : List (Bytes × (Bytes → Except Bytes Command)) :=
  [(ascii "WIFI ", parseWifi), (ascii "HOST ", parseHost), (ascii "SIM ", parseSim),
    (ascii "CTRL_SCAN_MS", parseCtrlScanMs), (ascii "MON_SCAN_MS", parseMonScanMs),
    (ascii "REG_SPACING_MS", parseRegSpacingMs), (ascii "RELAY ", parseRelay),
    (ascii "SETIP ", parseSetIp), (ascii "READ ", parseRead), (ascii "OTA_URL ", parseOtaUrl)]

/-- The first form whose name begins the line. -/
def parseNamed (line : Bytes) :
    List (Bytes × (Bytes → Except Bytes Command)) → Except Bytes Command
  | [] => parseWrite line
  | (name, parse) :: forms =>
    match afterStart name line with
    | some remainder => parse remainder
    | none => parseNamed line forms

def parseCommandLine (rawLine : Bytes) : Except Bytes Command :=
  let line := trim rawLine
  if line = [] then .ok .empty else parseNamed line namedForms

/-! ## Relays -/

structure Relays where
  states : Fin 4 → Bool := fun _ => false
  ips : Fin 4 → Option IpAddress := fun _ => none

/-- The relay that a call sets; an index outside the array sets none. -/
def setRelayState (relayIndex : UInt8) (active : Bool) : Option (Fin 4 × Bool) :=
  if h : relayIndex.toNat < relayPinCount then some (⟨relayIndex.toNat, h⟩, active) else none

namespace Relays

/-- The states after a call of `setRelayState`. -/
def set (relays : Relays) : Option (Fin 4 × Bool) → Relays
  | some (i, active) => { relays with states := Function.update relays.states i active }
  | none => relays

def setIp (relays : Relays) (relayIndex : Fin 4) (ip : Option IpAddress) : Relays :=
  { relays with ips := Function.update relays.ips relayIndex ip }

end Relays

def Command.relaySet : Command → Option (Fin 4 × Bool)
  | .relay relayIndex active => setRelayState (UInt8.ofNat relayIndex) active
  | .relayValue address value => setRelayState (address - 1).toUInt8 (value ≠ 0)
  | _ => none

/-- What a command does to the relays. -/
def Command.act (command : Command) (relays : Relays) : Relays :=
  match command with
  | .clearIp relayIndex => relays.setIp relayIndex none
  | .setIp relayIndex ip => relays.setIp relayIndex (some ip)
  | command => relays.set command.relaySet

/-- The relay that the successful reading of a line sets. -/
def setBy (parsed : Except Bytes Command) : Option (Fin 4 × Bool) :=
  match parsed with
  | .ok command => command.relaySet
  | .error _ => none

/-- The relay that a line sets, and its new state. -/
def relaySet (rawLine : Bytes) : Option (Fin 4 × Bool) := setBy (parseCommandLine rawLine)

def handleCommand (rawLine : Bytes) (relays : Relays) : Relays :=
  match parseCommandLine rawLine with
  | .ok command => command.act relays
  | .error _ => relays

def maxCommandLineLength : Nat := 256

/-- `processTcpCommands` on the available bytes, from what is read of a line. -/
def processTcpCommands : Bytes → Bytes → Relays → Bytes × Relays
  | [], commandLine, relays => (commandLine, relays)
  | c :: input, commandLine, relays =>
    if c = '\r' then processTcpCommands input commandLine relays
    else if c = '\n' then processTcpCommands input [] (handleCommand commandLine relays)
    else if commandLine.length < maxCommandLineLength then
      processTcpCommands input (commandLine ++ [c]) relays
    else processTcpCommands input commandLine relays

/-- A line that fits is handled as it is. -/
theorem processTcpCommands_line {line : Bytes} (commandLine : Bytes) (relays : Relays)
    (hline : ∀ b ∈ line, b ≠ '\r' ∧ b ≠ '\n')
    (hlength : commandLine.length + line.length ≤ maxCommandLineLength) :
    processTcpCommands (line ++ ascii "\n") commandLine relays =
      ([], handleCommand (commandLine ++ line) relays) := by
  induction line generalizing commandLine with
  | nil =>
    rw [List.append_nil]
    rfl
  | cons b line ih =>
    obtain ⟨hreturn, hnewline⟩ := hline b (by simp)
    rw [List.length_cons] at hlength
    have hroom : commandLine.length < maxCommandLineLength := by omega
    rw [List.cons_append, processTcpCommands, if_neg hreturn, if_neg hnewline, if_pos hroom,
      ih (commandLine ++ [b]) (fun c hc => hline c (by simp [hc]))
        (by rw [List.length_append, List.length_singleton]; omega)]
    rw [List.append_assoc, List.singleton_append]

theorem Command.act_states (command : Command) (relays : Relays) :
    (command.act relays).states = (relays.set command.relaySet).states := by
  cases command with
  | clearIp relayIndex => rfl
  | setIp relayIndex ip => rfl
  | _ => rfl

/-- The relay that a line sets is the only one whose state changes. -/
theorem handleCommand_states (rawLine : Bytes) (relays : Relays) :
    (handleCommand rawLine relays).states = (relays.set (relaySet rawLine)).states := by
  unfold handleCommand relaySet
  cases parseCommandLine rawLine with
  | ok command => exact command.act_states relays
  | error message => rfl

/-! ## Texts that are cut -/

theorem cString_append {s : Bytes} (t : Bytes) (h : (0 : Byte) ∉ s) :
    cString (s ++ t) = s ++ cString t := by
  refine List.takeWhile_append_of_pos fun b hb => ?_
  rw [decide_eq_true_eq]
  rintro rfl
  exact h hb

/-- A terminator ends the text in front of it. -/
theorem cString_terminated {text : Bytes} (h : (0 : Byte) ∉ text) (rest : Bytes) :
    cString (text ++ (0 : Byte) :: rest) = text := by
  rw [cString_append _ h]
  exact List.append_nil text

/-- A text is split at its first `c`, which has no NUL before it. -/
theorem splitAtIndex_eq_some_iff {c : Byte} {s first second : Bytes} (hc : c ≠ 0) :
    splitAtIndex c s = some (first, second) ↔
      c ∉ first ∧ (0 : Byte) ∉ first ∧ s = first ++ c :: second := by
  unfold splitAtIndex
  constructor
  · intro h
    split at h
    · next hmem =>
      obtain ⟨hfirst, rfl⟩ := cutAt_eq_some_iff.mp h
      refine ⟨hfirst, fun hnul => ?_, rfl⟩
      -- the C string ends inside `first`
      obtain ⟨before, after, rfl, hbefore⟩ := List.eq_append_cons_of_mem hnul
      rw [List.append_assoc, List.cons_append, cString_terminated hbefore] at hmem
      exact hfirst (List.mem_append_left _ hmem)
    · cases h
  · rintro ⟨hfirst, hnul, rfl⟩
    have hmem : c ∈ cString (first ++ c :: second) := by
      rw [cString_append _ hnul]
      simp [cString, hc]
    rw [if_pos hmem]
    exact cutAt_eq_some_iff.mpr ⟨hfirst, rfl⟩

theorem afterStart_eq_some_iff {start s rest : Bytes} :
    afterStart start s = some rest ↔ s = start ++ rest := by
  unfold afterStart
  constructor
  · intro h
    split at h
    · next hstart =>
      cases h
      exact (List.prefix_iff_eq_append.mp (List.isPrefixOf_iff_prefix.mp hstart)).symm
    · cases h
  · rintro rfl
    simp

/-- `strtoul` and a bound below the largest number: the text begins with a numeral. -/
theorem strtoul32_eq_some_iff {s : Bytes} {n : Nat} (hn : n < 2 ^ 32 - 1) :
    strtoul32 s = some n ↔ ∃ rest, Reads 32 s n rest := by
  rw [← strtoul_eq_some_iff]
  unfold strtoul32
  constructor
  · intro h
    obtain ⟨⟨value, overflow⟩, hc, rfl⟩ := Option.map_eq_some_iff.mp h
    cases overflow with
    | false => exact hc
    | true =>
      exfalso
      simp only [strtoul] at hc
      split at hc
      · cases hc
      · split at hc
        · cases hc
          exact absurd hn (Nat.lt_irrefl _)
        · cases hc
  · intro h
    rw [h]
    rfl

theorem strtoul32_trim (s : Bytes) : strtoul32 (trim s) = strtoul32 s := by
  rw [strtoul32, strtoul_trim, ← strtoul32]

/-- A byte that belongs to no numeral. -/
theorem not_mem_numeral {c : Byte} {sign ds junk : Bytes} (hsign : IsSignText sign)
    (hds : Digits ds) (hc : isDigit c = false ∧ isSign c = false) (hjunk : c ∉ junk) :
    c ∉ sign ++ (ds ++ junk) := by
  simp only [List.mem_append, not_or]
  refine ⟨fun hmem => ?_, fun hmem => ?_, hjunk⟩
  · have hnosign : isSign c = true := by
      rcases hsign with rfl | rfl | rfl
      · cases hmem
      · rw [List.mem_singleton.mp hmem]
        rfl
      · rw [List.mem_singleton.mp hmem]
        rfl
    rw [hc.2] at hnosign
    cases hnosign
  · rw [hds c hmem] at hc
    cases hc.1

/-- A number, possibly more, a blank and a text; a NUL hides a blank behind it. -/
def NumberAndText (s : Bytes) (n : Nat) (text : Bytes) : Prop :=
  ∃ junk tail, Reads 32 s n (junk ++ (' ' : Byte) :: tail) ∧
    ((' ' : Byte) ∉ junk ∧ (0 : Byte) ∉ junk) ∧ trim tail = text ∧ text ≠ []

theorem twoArguments_eq_ok_iff {message : String} {remainder a b : Bytes} :
    twoArguments message remainder = .ok (a, b) ↔
      ∃ first second, splitAtIndex ' ' (trim remainder) = some (first, second) ∧
        trim first = a ∧ trim second = b ∧ a ≠ [] ∧ b ≠ [] := by
  unfold twoArguments
  constructor
  · intro h
    split at h
    · cases h
    · next first second hcut =>
      split at h
      · cases h
      · next hne =>
        cases h
        rw [not_or] at hne
        exact ⟨first, second, hcut, rfl, rfl, hne.1, hne.2⟩
  · rintro ⟨first, second, hcut, rfl, rfl, hfirst, hsecond⟩
    simp [hcut, hfirst, hsecond]

/-- The text before the first blank begins with a numeral. -/
theorem NumberAndText.of_cut {s first second junk : Bytes} {n : Nat}
    (hcut : splitAtIndex ' ' (trim s) = some (first, second)) (hfirst : Reads 32 first n junk)
    (htext : trim second ≠ []) : NumberAndText s n (trim second) := by
  obtain ⟨hblank, hnul, htrim⟩ := (splitAtIndex_eq_some_iff (by decide)).mp hcut
  obtain ⟨gap, sign, ds, hgap, hsign, hds, hne, hjunk, hvalue, hnumber, rfl⟩ := hfirst
  obtain ⟨before, after, hbefore, hafter, heq, _⟩ := exists_trim s
  refine ⟨junk, second ++ after, ⟨before ++ gap, sign, ds, by simp [hbefore, hgap], hsign, hds,
    hne, ?_, hvalue, hnumber, ?_⟩,
    ⟨fun hmem => hblank (by simp [hmem]), fun hmem => hnul (by simp [hmem])⟩, ?_, htext⟩
  · cases junk with
    | nil => exact (stops_cons _ _ _).mpr (by decide)
    | cons b junk => simpa using hjunk
  · rw [heq, htrim]
    simp
  · simpa using trim_blank second blank_nil hafter

/-- Where a number and a text are split. -/
theorem NumberAndText.cut {s text : Bytes} {n : Nat} (h : NumberAndText s n text) :
    ∃ first second junk, splitAtIndex ' ' (trim s) = some (first, second) ∧ Reads 32 first n junk ∧
      trim second = text ∧ text ≠ [] := by
  obtain ⟨junk, tail, ⟨gap, sign, ds, hgap, hsign, hds, hne, hrest, hvalue, hnumber, rfl⟩,
    ⟨hblank, hnul⟩, rfl, htext⟩ := h
  have htail : ¬Blank tail := fun hall => htext (trim_eq_nil hall)
  have hjunk : Stops isDigit junk := by
    cases junk with
    | nil => exact stops_nil _
    | cons b junk => simpa using hrest
  have hstart : Stops isSpace (sign ++ (ds ++ (junk ++ ascii " "))) :=
    stops_sign hsign hds hne _
  obtain ⟨t', htrim, ht'⟩ := trim_append hgap hstart (by simp [hne]) htail
  refine ⟨sign ++ (ds ++ junk), t', junk,
    (splitAtIndex_eq_some_iff (by decide)).mpr
      ⟨not_mem_numeral hsign hds (by decide) hblank, not_mem_numeral hsign hds (by decide) hnul, ?_⟩,
    ⟨[], sign, ds, blank_nil, hsign, hds, hne, hjunk, hvalue, hnumber, rfl⟩, ht', htext⟩
  · have hspace : ascii " " = [(' ' : Byte)] := rfl
    simpa [hspace] using htrim

/-- The first of two arguments is a number. -/
theorem twoArguments_number (message : String) {s text : Bytes} {n : Nat} (hn : n < 2 ^ 32 - 1) :
    (∃ a, twoArguments message s = .ok (a, text) ∧ strtoul32 a = some n) ↔
      NumberAndText s n text := by
  constructor
  · rintro ⟨a, hargs, ha⟩
    obtain ⟨first, second, hcut, rfl, rfl, _, htext⟩ := twoArguments_eq_ok_iff.mp hargs
    rw [strtoul32_trim, strtoul32_eq_some_iff hn] at ha
    obtain ⟨junk, hfirst⟩ := ha
    exact NumberAndText.of_cut hcut hfirst htext
  · intro h
    obtain ⟨first, second, junk, hcut, hfirst, hsecond, htext⟩ := h.cut
    have hnumber : strtoul32 (trim first) = some n := by
      rw [strtoul32_trim, strtoul32_eq_some_iff hn]
      exact ⟨junk, hfirst⟩
    refine ⟨_, twoArguments_eq_ok_iff.mpr ⟨_, _, hcut, rfl, hsecond, ?_, htext⟩, hnumber⟩
    intro hnil
    rw [hnil] at hnumber
    cases hnumber

/-! ## The lines that set a relay -/

theorem parseRelayNumber_eq_ok_iff {relayText : Bytes} {i : Fin 4} :
    parseRelayNumber relayText = .ok i ↔ strtoul32 relayText = some (i + 1 : Nat) := by
  unfold parseRelayNumber
  constructor
  · intro h
    split at h
    · cases h
    · next relayNumber hnumber =>
      split at h
      · next hrange =>
        cases h
        rw [hnumber]
        congr 1
        simp only
        omega
      · cases h
  · intro h
    have hrange : 1 ≤ (i : Nat) + 1 ∧ (i : Nat) + 1 ≤ relayPinCount := by
      unfold relayPinCount
      omega
    simp only [h, hrange, and_self, ↓reduceDIte]
    rfl

theorem setRelayState_ofNat (i : Fin 4) (active : Bool) :
    setRelayState (UInt8.ofNat i) active = some (i, active) := by
  have hindex : (UInt8.ofNat i).toNat = i := by
    rw [UInt8.toNat_ofNat']
    omega
  unfold setRelayState
  simp only [hindex, relayPinCount, i.isLt, ↓reduceDIte]

theorem setBy_eq_some_iff {parsed : Except Bytes Command} {set : Fin 4 × Bool} :
    setBy parsed = some set ↔ ∃ command, parsed = .ok command ∧ command.relaySet = some set := by
  cases parsed with
  | ok command => simp [setBy]
  | error message => simp [setBy]

theorem parseRelay_set {remainder : Bytes} {i : Fin 4} {active : Bool} :
    setBy (parseRelay remainder) = some (i, active) ↔
      ∃ stateText, NumberAndText remainder (i + 1) stateText ∧
        readState stateText = some active := by
  rw [setBy_eq_some_iff]
  constructor
  · rintro ⟨command, hparse, hset⟩
    unfold parseRelay at hparse
    obtain ⟨⟨relayText, stateText⟩, hargs, hparse⟩ := bind_eq_ok.mp hparse
    obtain ⟨relayIndex, hindex, hparse⟩ := bind_eq_ok.mp hparse
    split at hparse
    · next active' hstate =>
      cases hparse
      rw [Command.relaySet, setRelayState_ofNat] at hset
      cases hset
      exact ⟨stateText, (twoArguments_number _ (by omega)).mp
        ⟨relayText, hargs, parseRelayNumber_eq_ok_iff.mp hindex⟩, hstate⟩
    · cases hparse
  · rintro ⟨stateText, hnumber, hstate⟩
    obtain ⟨relayText, hargs, hindex⟩ := (twoArguments_number
      "invalid RELAY format, expected 'RELAY [number] [state]' " (by omega)).mpr hnumber
    have hrelay : parseRelayNumber relayText = .ok i := parseRelayNumber_eq_ok_iff.mpr hindex
    refine ⟨.relay i active, ?_, setRelayState_ofNat i active⟩
    simp only [parseRelay, hargs, ok_bind, hrelay, hstate]

theorem parseAddress_eq_ok_iff {addrText : Bytes} {address : UInt16} :
    parseAddress addrText = .ok address ↔ strtoul32 addrText = some address.toNat := by
  unfold parseAddress
  constructor
  · intro h
    split at h
    · cases h
    · next rawAddr hraw =>
      split at h
      · cases h
      · next hrange =>
        cases h
        rw [hraw, Nat.toUInt16_eq, UInt16.toNat_ofNat', Nat.mod_eq_of_lt (by omega)]
  · intro h
    have hrange : ¬0xFFFF < address.toNat := by
      have := address.toNat_lt
      omega
    simp only [h, hrange, ↓reduceIte]
    simp

/-- The index of a relay's address; the address 0 has an index outside the array. -/
theorem setRelayState_address {address : UInt16} (h : address.toNat ≤ relayPinCount) {i : Fin 4}
    {active state : Bool} :
    setRelayState (address - 1).toUInt8 active = some (i, state) ↔
      address.toNat = i + 1 ∧ active = state := by
  have hone : (1 : UInt16).toNat = 1 := rfl
  have hindex : (address - 1).toUInt8.toNat = (65535 + address.toNat) % 65536 % 256 := by
    rw [UInt16.toNat_toUInt8, UInt16.toNat_sub, hone]
  unfold setRelayState
  unfold relayPinCount at h ⊢
  split
  · next hlt =>
    rw [Option.some.injEq, Prod.mk.injEq, Fin.ext_iff]
    change (address - 1).toUInt8.toNat = i ∧ active = state ↔ _
    rw [hindex] at hlt ⊢
    constructor
    · rintro ⟨hi, hactive⟩
      exact ⟨by omega, hactive⟩
    · rintro ⟨hi, hactive⟩
      exact ⟨by omega, hactive⟩
  · next hlt =>
    rw [hindex] at hlt
    constructor
    · intro h
      cases h
    · rintro ⟨hi, _⟩
      omega

theorem toUInt16_ne_zero {n : Nat} (h : n ≤ 0xFFFF) :
    decide (n.toUInt16 ≠ 0) = decide (n ≠ 0) := by
  have hn : n.toUInt16.toNat = n := by
    rw [Nat.toUInt16_eq, UInt16.toNat_ofNat', Nat.mod_eq_of_lt (by omega)]
  rw [decide_eq_decide, ne_eq, ← UInt16.toNat_inj, hn]
  rfl

/-! ## What the parsers yield -/

/-- A result that is no error has the property. -/
def Yields {α : Type} (P : α → Prop) (x : Except Bytes α) : Prop := ∀ a, x = .ok a → P a

theorem yields_error {α : Type} {P : α → Prop} {message : Bytes} :
    Yields P (.error message : Except Bytes α) := nofun

theorem yields_ok {α : Type} {P : α → Prop} {a : α} (h : P a) :
    Yields P (.ok a : Except Bytes α) := by
  rintro b ⟨⟩
  exact h

namespace Yields

theorem bind {α β : Type} {P : β → Prop} {x : Except Bytes α} {f : α → Except Bytes β}
    (h : ∀ a, x = .ok a → Yields P (f a)) : Yields P (x >>= f) := by
  intro b hb
  obtain ⟨a, ha, hf⟩ := bind_eq_ok.mp hb
  exact h a ha b hf

theorem mono {α : Type} {P Q : α → Prop} {x : Except Bytes α} (h : Yields P x)
    (hPQ : ∀ a, P a → Q a) : Yields Q x := fun a ha => hPQ a (h a ha)

/-- A parser of commands that set no relay. -/
theorem setBy {P : Command → Prop} {x : Except Bytes Command} (h : Yields P x)
    (hP : ∀ command, P command → command.relaySet = none) : setBy x = none := by
  cases x with
  | ok command => exact hP command (h command rfl)
  | error message => rfl

end Yields

theorem strtoul32_lt {s : Bytes} {n : Nat} (h : strtoul32 s = some n) : n < 2 ^ 32 := by
  obtain ⟨converted, hconverted, rfl⟩ := Option.map_eq_some_iff.mp h
  simp only [strtoul] at hconverted
  split at hconverted
  · cases hconverted
  · split at hconverted
    · cases hconverted
      decide
    · next hlt =>
      cases hconverted
      show wrapSign 32 _ _ < 2 ^ 32
      unfold wrapSign
      split
      · exact Nat.mod_lt _ (by decide)
      · exact Nat.lt_of_not_le hlt

theorem parseWifi_yields (remainder : Bytes) :
    Yields (fun command => ∃ newSsid newPass, command = .wifi newSsid newPass ∧
      newSsid.length ≤ wifiSsidMaxLen ∧ newPass.length ≤ wifiPasswordMaxLen)
      (parseWifi remainder) := by
  apply Yields.bind
  rintro ⟨newSsid, newPass⟩ _
  simp only
  split
  · exact yields_error
  · next hlength => exact yields_ok ⟨newSsid, newPass, rfl, by omega, by omega⟩

theorem parseHost_yields (remainder : Bytes) :
    Yields (fun command => ∃ newHost newPort rawPort, command = .host newHost newPort
      (Nat.toUInt16 rawPort) ∧ newHost ≠ [] ∧ newHost.length ≤ monitorHostMaxLen ∧
        newPort.length ≤ monitorPortMaxLen ∧ strtoul32 newPort = some rawPort ∧ rawPort ≠ 0 ∧
        rawPort ≤ 0xFFFF) (parseHost remainder) := by
  apply Yields.bind
  rintro ⟨newHost, newPort⟩ hargs
  obtain ⟨_, _, _, _, _, hnonempty, _⟩ := twoArguments_eq_ok_iff.mp hargs
  simp only
  split
  · exact yields_error
  · next hlength =>
    split
    · exact yields_error
    · next rawPort hparse =>
      split
      · exact yields_error
      · next hrange =>
        exact yields_ok ⟨newHost, newPort, rawPort, rfl, hnonempty, by omega, by omega, hparse,
          by omega, by omega⟩

theorem parseSim_yields (remainder : Bytes) :
    Yields (fun command => ∃ enabled, command = .sim enabled) (parseSim remainder) := by
  unfold parseSim
  simp only
  split
  · exact yields_error
  · split
    · exact yields_ok ⟨_, rfl⟩
    · exact yields_error

theorem parseInterval_yields (name : String) (set : UInt32 → Command) (remainder : Bytes) :
    Yields (fun command => ∃ rawValue, rawValue ≠ 0 ∧ command = set rawValue)
      (parseInterval name set remainder) := by
  unfold parseInterval
  simp only
  split
  · exact yields_error
  · split
    · exact yields_error
    · next rawValue hparse =>
      split
      · exact yields_error
      · next hne =>
        refine yields_ok ⟨rawValue.toUInt32, fun hzero => hne ?_, rfl⟩
        have hvalue := congrArg UInt32.toNat hzero
        rwa [Nat.toUInt32, UInt32.toNat_ofNat', Nat.mod_eq_of_lt (strtoul32_lt hparse)] at hvalue

theorem parseRelay_yields (remainder : Bytes) :
    Yields (fun command => ∃ relayIndex active, command = .relay relayIndex active)
      (parseRelay remainder) := by
  apply Yields.bind
  rintro ⟨relayText, stateText⟩ _
  apply Yields.bind
  intro relayIndex _
  split
  · exact yields_ok ⟨_, _, rfl⟩
  · exact yields_error

theorem parseSetIp_yields (remainder : Bytes) :
    Yields (fun command => (∃ relayIndex, command = .clearIp relayIndex) ∨
      ∃ relayIndex ip, command = .setIp relayIndex ip) (parseSetIp remainder) := by
  unfold parseSetIp
  simp only
  split
  · exact yields_error
  · apply Yields.bind
    intro relayIndex _
    split
    · exact yields_ok (Or.inl ⟨_, rfl⟩)
    · split
      · exact yields_ok (Or.inr ⟨_, _, rfl⟩)
      · exact yields_error

theorem parseRead_yields (remainder : Bytes) :
    Yields (fun command => ∃ reg, command = .read reg) (parseRead remainder) := by
  unfold parseRead
  simp only
  split
  · exact yields_error
  · apply Yields.bind
    intro address _
    split
    · exact yields_ok ⟨_, rfl⟩
    · exact yields_error

theorem parseOtaUrl_yields (remainder : Bytes) :
    Yields (fun command => ∃ url, command = .otaUrl url) (parseOtaUrl remainder) := by
  unfold parseOtaUrl
  split
  · exact yields_error
  · exact yields_ok ⟨_, rfl⟩

theorem parseWrite_yields (line : Bytes) :
    Yields (fun command => (∃ address value, command = .relayValue address value) ∨
      ∃ reg value, command = .write reg value) (parseWrite line) := by
  apply Yields.bind
  rintro ⟨addrText, valueText⟩ _
  apply Yields.bind
  intro address _
  split
  · exact yields_error
  · split
    · exact yields_error
    · split
      · exact yields_ok (Or.inl ⟨_, _, rfl⟩)
      · split
        · exact yields_error
        · split
          · exact yields_error
          · exact yields_ok (Or.inr ⟨_, _, rfl⟩)

/-! ## The form without a name -/

/-- The texts that `parseWrite` reads as a relay and a value. -/
theorem parseWrite_relayValue {line : Bytes} {address value : UInt16} :
    parseWrite line = .ok (.relayValue address value) ↔
      address.toNat ≤ relayPinCount ∧ ∃ valueText rest,
        NumberAndText line address.toNat valueText ∧ Reads 32 valueText value.toNat rest := by
  have haddressRange := address.toNat_lt
  have hvalueRange := value.toNat_lt
  constructor
  · intro hparse
    unfold parseWrite at hparse
    obtain ⟨⟨addrText, valueText⟩, hargs, hparse⟩ := bind_eq_ok.mp hparse
    obtain ⟨address', haddress, hparse⟩ := bind_eq_ok.mp hparse
    split at hparse
    · cases hparse
    · next rawValue hvalue =>
      split at hparse
      · cases hparse
      · next hrange =>
        split at hparse
        · next hrelay =>
          cases hparse
          have hword : rawValue.toUInt16.toNat = rawValue := by
            rw [Nat.toUInt16_eq, UInt16.toNat_ofNat', Nat.mod_eq_of_lt (by omega)]
          obtain ⟨rest, hrest⟩ := (strtoul32_eq_some_iff (by omega)).mp hvalue
          rw [hword]
          exact ⟨hrelay, valueText, rest, (twoArguments_number _ (by omega)).mp
            ⟨addrText, hargs, parseAddress_eq_ok_iff.mp haddress⟩, hrest⟩
        · split at hparse
          · cases hparse
          · split at hparse <;> cases hparse
  · rintro ⟨hrelay, valueText, rest, hnumber, hvalue⟩
    obtain ⟨addrText, hargs, haddress⟩ := (twoArguments_number
      "invalid format, expected '[regAddr] [uintValue]'" (by omega)).mpr hnumber
    have hparsed : parseAddress addrText = .ok address := parseAddress_eq_ok_iff.mpr haddress
    have hraw : strtoul32 valueText = some value.toNat :=
      (strtoul32_eq_some_iff (by omega)).mpr ⟨rest, hvalue⟩
    have hrange : ¬0xFFFF < value.toNat := by omega
    have hword : value.toNat.toUInt16 = value := by simp
    simp only [parseWrite, hargs, ok_bind, hparsed, hraw, hrange, hrelay, hword, ↓reduceIte]

/-- Of the forms without a name only one sets a relay. -/
theorem setBy_parseWrite {line : Bytes} {set : Fin 4 × Bool} :
    setBy (parseWrite line) = some set ↔ ∃ address value,
      parseWrite line = .ok (.relayValue address value) ∧
        setRelayState (address - 1).toUInt8 (value ≠ 0) = some set := by
  rw [setBy_eq_some_iff]
  constructor
  · rintro ⟨command, hparse, hset⟩
    rcases parseWrite_yields line command hparse with ⟨address, value, rfl⟩ | ⟨reg, value, rfl⟩
    · exact ⟨address, value, hparse, hset⟩
    · cases hset
  · rintro ⟨address, value, hparse, hset⟩
    exact ⟨_, hparse, hset⟩

theorem parseWrite_set {line : Bytes} {i : Fin 4} {active : Bool} :
    setBy (parseWrite line) = some (i, active) ↔
      ∃ valueText value rest, NumberAndText line (i + 1) valueText ∧
        Reads 32 valueText value rest ∧ value ≤ 0xFFFF ∧ active = decide (value ≠ 0) := by
  rw [setBy_parseWrite]
  constructor
  · rintro ⟨address, value, hparse, hset⟩
    obtain ⟨hrelay, valueText, rest, hnumber, hvalue⟩ := parseWrite_relayValue.mp hparse
    obtain ⟨hi, rfl⟩ := (setRelayState_address hrelay).mp hset
    rw [hi] at hnumber
    have hrange := value.toNat_lt
    have hword : value.toNat.toUInt16 = value := by simp
    have hnonzero := @toUInt16_ne_zero value.toNat (by omega)
    rw [hword] at hnonzero
    exact ⟨valueText, value.toNat, rest, hnumber, hvalue, by omega, hnonzero⟩
  · rintro ⟨valueText, value, rest, hnumber, hvalue, hrange, rfl⟩
    have hi : ((i + 1 : Nat).toUInt16).toNat = i + 1 := by
      rw [Nat.toUInt16_eq, UInt16.toNat_ofNat', Nat.mod_eq_of_lt (by omega)]
    have hword : value.toUInt16.toNat = value := by
      rw [Nat.toUInt16_eq, UInt16.toNat_ofNat', Nat.mod_eq_of_lt (by omega)]
    have hrelay : (i + 1 : Nat).toUInt16.toNat ≤ relayPinCount := by
      rw [hi, relayPinCount]
      omega
    refine ⟨(i + 1 : Nat).toUInt16, value.toUInt16, parseWrite_relayValue.mpr
      ⟨hrelay, valueText, rest, by rwa [hi], by rwa [hword]⟩, ?_⟩
    exact (setRelayState_address hrelay).mpr ⟨hi, toUInt16_ne_zero hrange⟩

/-! ## The forms that set relays -/

/-- Of the named forms only `RELAY` sets a relay. -/
theorem namedForms_set {name : Bytes} {parse : Bytes → Except Bytes Command}
    (h : (name, parse) ∈ namedForms) :
    (name = ascii "RELAY " ∧ parse = parseRelay) ∨ ∀ remainder, setBy (parse remainder) = none := by
  have hinterval (name : String) (set : UInt32 → Command)
      (hset : ∀ rawValue, (set rawValue).relaySet = none) (remainder : Bytes) :
      setBy (parseInterval name set remainder) = none := by
    apply (parseInterval_yields name set remainder).setBy
    rintro _ ⟨rawValue, _, rfl⟩
    exact hset rawValue
  simp only [namedForms, List.mem_cons, Prod.mk.injEq, List.not_mem_nil, or_false] at h
  rcases h with ⟨rfl, rfl⟩ | ⟨rfl, rfl⟩ | ⟨rfl, rfl⟩ | ⟨rfl, rfl⟩ | ⟨rfl, rfl⟩ | ⟨rfl, rfl⟩ |
    ⟨rfl, rfl⟩ | ⟨rfl, rfl⟩ | ⟨rfl, rfl⟩ | ⟨rfl, rfl⟩
  · refine Or.inr fun remainder => (parseWifi_yields remainder).setBy ?_
    rintro _ ⟨_, _, rfl, _⟩
    rfl
  · refine Or.inr fun remainder => (parseHost_yields remainder).setBy ?_
    rintro _ ⟨_, _, _, rfl, _⟩
    rfl
  · refine Or.inr fun remainder => (parseSim_yields remainder).setBy ?_
    rintro _ ⟨_, rfl⟩
    rfl
  · exact Or.inr (hinterval _ _ fun _ => rfl)
  · exact Or.inr (hinterval _ _ fun _ => rfl)
  · exact Or.inr (hinterval _ _ fun _ => rfl)
  · exact Or.inl ⟨rfl, rfl⟩
  · refine Or.inr fun remainder => (parseSetIp_yields remainder).setBy ?_
    rintro _ (⟨_, rfl⟩ | ⟨_, _, rfl⟩) <;> rfl
  · refine Or.inr fun remainder => (parseRead_yields remainder).setBy ?_
    rintro _ ⟨_, rfl⟩
    rfl
  · refine Or.inr fun remainder => (parseOtaUrl_yields remainder).setBy ?_
    rintro _ ⟨_, rfl⟩
    rfl

theorem parseNamed_cases (line : Bytes) (forms : List (Bytes × (Bytes → Except Bytes Command))) :
    (∃ name parse remainder, (name, parse) ∈ forms ∧ line = name ++ remainder ∧
      parseNamed line forms = parse remainder) ∨ parseNamed line forms = parseWrite line := by
  induction forms with
  | nil => exact Or.inr rfl
  | cons form forms ih =>
    obtain ⟨name, parse⟩ := form
    unfold parseNamed
    cases hstart : afterStart name line with
    | some remainder =>
      exact Or.inl ⟨name, parse, remainder, by simp, afterStart_eq_some_iff.mp hstart, rfl⟩
    | none =>
      rcases ih with ⟨name', parse', remainder, hmem, hline, hparse⟩ | hwrite
      · exact Or.inl ⟨name', parse', remainder, by simp [hmem], hline, hparse⟩
      · exact Or.inr hwrite

theorem parseNamed_relay (remainder : Bytes) :
    parseNamed (ascii "RELAY " ++ remainder) namedForms = parseRelay remainder := by
  rfl

/-- No name begins with a digit or a sign. -/
theorem parseNamed_number {b : Byte} (s : Bytes)
    (hb : isDigit b = true ∨ isSign b = true) :
    parseNamed (b :: s) namedForms = parseWrite (b :: s) := by
  rcases parseNamed_cases (b :: s) namedForms with ⟨name, parse, remainder, hmem, hline, _⟩ | h
  · exfalso
    have hletter : ∀ name ∈ namedForms.map Prod.fst, ∃ c ∈ name.head?,
        isDigit c = false ∧ isSign c = false := by decide
    obtain ⟨c, hc, hdigit, hsign⟩ := hletter name (List.mem_map.mpr ⟨_, hmem, rfl⟩)
    have hbc : b = c := by
      have hhead := congrArg List.head? hline
      rw [List.head?_append, hc] at hhead
      exact Option.some.inj hhead
    rw [hbc, hdigit, hsign] at hb
    simp at hb
  · exact h

/-- A number and a text are found wherever white space is taken off. -/
theorem NumberAndText.of_trim {s t text : Bytes} {n : Nat} (hn : n < 2 ^ 32 - 1)
    (htrim : trim s = trim t) (h : NumberAndText s n text) : NumberAndText t n text := by
  obtain ⟨a, hargs, ha⟩ := (twoArguments_number "" hn).mpr h
  refine (twoArguments_number "" hn).mp ⟨a, ?_, ha⟩
  unfold twoArguments at hargs ⊢
  rwa [← htrim]

theorem NumberAndText.starts {s text : Bytes} {n : Nat} (h : NumberAndText s n text) :
    ∃ gap b rest, Blank gap ∧ (isDigit b = true ∨ isSign b = true) ∧ s = gap ++ b :: rest := by
  obtain ⟨junk, tail, ⟨gap, sign, ds, hgap, hsign, hds, hne, _, _, _, rfl⟩, _⟩ := h
  obtain ⟨d, ds, rfl⟩ := List.exists_cons_of_ne_nil hne
  rcases hsign with rfl | rfl | rfl
  · exact ⟨gap, d, _, hgap, Or.inl (hds d (by simp)), rfl⟩
  · exact ⟨gap, '-', _, hgap, Or.inr (by decide), rfl⟩
  · exact ⟨gap, '+', _, hgap, Or.inr (by decide), rfl⟩

/-- A line that starts with a number has no name. -/
theorem parseCommandLine_number {line text : Bytes} {n : Nat} (hn : n < 2 ^ 32 - 1)
    (h : NumberAndText line n text) :
    parseCommandLine line = parseWrite (trim line) ∧ NumberAndText (trim line) n text := by
  have hnumber : NumberAndText (trim line) n text := h.of_trim hn (trim_trim line).symm
  obtain ⟨gap, b, rest, hgap, hb, hline⟩ := hnumber.starts
  obtain ⟨_, _, _, _, _, hstops, _⟩ := exists_trim line
  -- a trimmed line has no white space before its number
  have hnil : gap = [] := by
    cases gap with
    | nil => rfl
    | cons c gap =>
      exfalso
      have hspace := hgap c (by simp)
      rw [hstops c (by simp [hline])] at hspace
      cases hspace
  rw [hnil, List.nil_append] at hline
  refine ⟨?_, hnumber⟩
  unfold parseCommandLine
  simp only [hline, reduceCtorEq, ↓reduceIte, parseNamed_number rest hb]

/-- `RELAY`, a blank, a relay number and a state. -/
def SetsByName (line : Bytes) (i : Fin 4) (active : Bool) : Prop :=
  ∃ args stateText, FirstWord line (ascii "RELAY") ((' ' : Byte) :: args) ∧
    NumberAndText args (i + 1) stateText ∧ readState stateText = some active

/-- A relay number, a blank and a 16-bit number. -/
def SetsByNumber (line : Bytes) (i : Fin 4) (active : Bool) : Prop :=
  ∃ valueText value rest, NumberAndText line (i + 1) valueText ∧
    Reads 32 valueText value rest ∧ value ≤ 0xFFFF ∧ active = decide (value ≠ 0)

/-- The commands that have a name. -/
def Command.Named (command : Command) : Prop :=
  (∀ address value, command ≠ .relayValue address value) ∧ ∀ reg value, command ≠ .write reg value

theorem namedForms_named {name : Bytes} {parse : Bytes → Except Bytes Command}
    (h : (name, parse) ∈ namedForms) (remainder : Bytes) :
    Yields Command.Named (parse remainder) := by
  simp only [namedForms, List.mem_cons, Prod.mk.injEq, List.not_mem_nil, or_false] at h
  rcases h with ⟨rfl, rfl⟩ | ⟨rfl, rfl⟩ | ⟨rfl, rfl⟩ | ⟨rfl, rfl⟩ | ⟨rfl, rfl⟩ | ⟨rfl, rfl⟩ |
    ⟨rfl, rfl⟩ | ⟨rfl, rfl⟩ | ⟨rfl, rfl⟩ | ⟨rfl, rfl⟩
  · refine (parseWifi_yields remainder).mono ?_
    rintro _ ⟨_, _, rfl, _⟩
    exact ⟨nofun, nofun⟩
  · refine (parseHost_yields remainder).mono ?_
    rintro _ ⟨_, _, _, rfl, _⟩
    exact ⟨nofun, nofun⟩
  · refine (parseSim_yields remainder).mono ?_
    rintro _ ⟨_, rfl⟩
    exact ⟨nofun, nofun⟩
  · refine (parseInterval_yields _ _ remainder).mono (Q := Command.Named) ?_
    rintro _ ⟨_, _, rfl⟩
    exact ⟨nofun, nofun⟩
  · refine (parseInterval_yields _ _ remainder).mono (Q := Command.Named) ?_
    rintro _ ⟨_, _, rfl⟩
    exact ⟨nofun, nofun⟩
  · refine (parseInterval_yields _ _ remainder).mono (Q := Command.Named) ?_
    rintro _ ⟨_, _, rfl⟩
    exact ⟨nofun, nofun⟩
  · refine (parseRelay_yields remainder).mono ?_
    rintro _ ⟨_, _, rfl⟩
    exact ⟨nofun, nofun⟩
  · refine (parseSetIp_yields remainder).mono ?_
    rintro _ (⟨_, rfl⟩ | ⟨_, _, rfl⟩) <;> exact ⟨nofun, nofun⟩
  · refine (parseRead_yields remainder).mono ?_
    rintro _ ⟨_, rfl⟩
    exact ⟨nofun, nofun⟩
  · refine (parseOtaUrl_yields remainder).mono ?_
    rintro _ ⟨_, rfl⟩
    exact ⟨nofun, nofun⟩

/-- The lines that are read as a relay and a value. -/
theorem parseCommandLine_relayValue {rawLine : Bytes} {address value : UInt16} :
    parseCommandLine rawLine = .ok (.relayValue address value) ↔
      address.toNat ≤ relayPinCount ∧ ∃ valueText rest,
        NumberAndText rawLine address.toNat valueText ∧ Reads 32 valueText value.toNat rest := by
  have haddress := address.toNat_lt
  constructor
  · intro h
    unfold parseCommandLine at h
    simp only at h
    split at h
    · cases h
    · rcases parseNamed_cases (trim rawLine) namedForms with
        ⟨name, parse, remainder, hmem, _, hparse⟩ | hwrite
      · rw [hparse] at h
        exact absurd rfl ((namedForms_named hmem remainder _ h).1 address value)
      · rw [hwrite] at h
        obtain ⟨hrelay, valueText, rest, hnumber, hvalue⟩ := parseWrite_relayValue.mp h
        exact ⟨hrelay, valueText, rest, hnumber.of_trim (by omega) (trim_trim rawLine), hvalue⟩
  · rintro ⟨hrelay, valueText, rest, hnumber, hvalue⟩
    obtain ⟨hline, hnumber'⟩ := parseCommandLine_number (by omega) hnumber
    rw [hline]
    exact parseWrite_relayValue.mpr ⟨hrelay, valueText, rest, hnumber', hvalue⟩

theorem isSpace_of_numeral {b : Byte} (h : isDigit b = true ∨ isSign b = true) :
    isSpace b = false := by
  rcases h with h | h
  · exact isSpace_of_isDigit h
  · simp only [isSign, Bool.or_eq_true, beq_iff_eq] at h
    rcases h with rfl | rfl <;> decide

/-- A line that sets a relay is one of the two kinds. -/
theorem relaySet_cases {rawLine : Bytes} {i : Fin 4} {active : Bool}
    (h : relaySet rawLine = some (i, active)) :
    SetsByName rawLine i active ∨ SetsByNumber rawLine i active := by
  have hi : (i + 1 : Nat) < 2 ^ 32 - 1 := by omega
  unfold relaySet parseCommandLine at h
  simp only at h
  split at h
  · cases h
  · rcases parseNamed_cases (trim rawLine) namedForms with
      ⟨name, parse, remainder, hmem, hline, hparse⟩ | hwrite
    · rw [hparse] at h
      rcases namedForms_set hmem with ⟨rfl, rfl⟩ | hnone
      · obtain ⟨stateText, hnumber, hstate⟩ := parseRelay_set.mp h
        obtain ⟨before, after, hbefore, hafter, heq, _⟩ := exists_trim rawLine
        refine Or.inl ⟨remainder ++ after, stateText, ⟨before, hbefore, ?_, ?_, ?_⟩,
          hnumber.of_trim hi (trim_blank remainder blank_nil hafter).symm, hstate⟩
        · decide
        · exact (stops_cons _ _ _).mpr (by decide)
        · rw [heq, hline, List.append_assoc]
          rfl
      · rw [hnone] at h
        cases h
    · rw [hwrite] at h
      obtain ⟨valueText, value, rest, hnumber, hvalue⟩ := parseWrite_set.mp h
      exact Or.inr ⟨valueText, value, rest, hnumber.of_trim hi (trim_trim rawLine), hvalue⟩

theorem SetsByName.relaySet {line : Bytes} {i : Fin 4} {active : Bool}
    (h : SetsByName line i active) : relaySet line = some (i, active) := by
  obtain ⟨args, stateText, ⟨gap, hgap, hword, _, rfl⟩, hnumber, hstate⟩ := h
  have hargs : ¬Blank args := by
    obtain ⟨gap', b, rest, _, hb, rfl⟩ := hnumber.starts
    intro hblank
    have hspace := hblank b (by simp)
    rw [isSpace_of_numeral hb] at hspace
    cases hspace
  have hstops : Stops isSpace (ascii "RELAY ") := (stops_cons _ _ _).mpr (by decide)
  obtain ⟨t', htrim, ht'⟩ := trim_append hgap hstops (by decide) hargs
  have hline : trim (gap ++ (ascii "RELAY" ++ (' ' : Byte) :: args)) = ascii "RELAY " ++ t' :=
    htrim
  have hne : ascii "RELAY " ++ t' ≠ [] := List.append_ne_nil_of_left_ne_nil (by decide) t'
  unfold Firmware.relaySet parseCommandLine
  simp only [hline, hne, ↓reduceIte, parseNamed_relay]
  exact parseRelay_set.mpr ⟨stateText, hnumber.of_trim (by omega) ht'.symm, hstate⟩

theorem SetsByNumber.relaySet {line : Bytes} {i : Fin 4} {active : Bool}
    (h : SetsByNumber line i active) : relaySet line = some (i, active) := by
  obtain ⟨valueText, value, rest, hnumber, hvalue⟩ := h
  obtain ⟨hline, hnumber'⟩ := parseCommandLine_number (by omega) hnumber
  unfold Firmware.relaySet
  rw [hline]
  exact parseWrite_set.mpr ⟨valueText, value, rest, hnumber', hvalue⟩

/-- The lines that set a relay. -/
theorem relaySet_eq_some_iff {rawLine : Bytes} {i : Fin 4} {active : Bool} :
    relaySet rawLine = some (i, active) ↔
      SetsByName rawLine i active ∨ SetsByNumber rawLine i active := by
  constructor
  · exact relaySet_cases
  · rintro (hname | hnumber)
    · exact hname.relaySet
    · exact hnumber.relaySet

/-- A state is compared up to its first NUL. -/
example : relaySet (ascii "RELAY 1 1" ++ 0 :: ascii "x") = some (0, true) := by decide

end InverterMonitor.Firmware
