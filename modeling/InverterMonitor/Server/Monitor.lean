import InverterMonitor.Server.Registers
import InverterMonitor.Text.Lines

/-!
# The line parsers of `server_monitor.hpp`

What a line from a device does to the server's tables, what `parseCommand` does
with a line for the devices, and how the plugs are switched.
-/

namespace InverterMonitor.Monitor
open Text Cxx Registers

/-- `lastValues` and `relayMetadata`.  The relay table has its four entries from
the start, and no line adds or removes one. -/
@[ext] structure Tables where
  lastValues : LastValues := ∅
  relays : RelayTable := relayMetadata
  complete : ∀ k : UInt8, k ∈ relays ↔ 1 ≤ k ∧ k ≤ 4 := by
    exact InverterMonitor.Registers.mem_relayMetadata

namespace Tables

/-- `lastValues[address] = value` unless it is so already. -/
def recordValue (t : Tables) (address : UInt16) (value : Int16) : Tables :=
  if t.lastValues[address]? = some value then t
  else { t with lastValues := t.lastValues.insert address value }

/-- The new IP text of a relay, where the table has the relay. -/
def recordIp (t : Tables) (relayIndex : UInt8) (ipAddress : Bytes) : Tables :=
  match h : t.relays[relayIndex]? with
  | none => t
  | some metadata =>
    if metadata.ipAddress = ipAddress then t
    else
      { t with
        relays := t.relays.insert relayIndex { metadata with ipAddress := ipAddress }
        complete := by
          intro k
          have hmem : relayIndex ∈ t.relays := by
            rw [Std.ExtTreeMap.mem_iff_isSome_getElem?, h]
            rfl
          rw [Std.ExtTreeMap.mem_insert, ← t.complete, or_iff_right_iff_imp]
          intro hk
          rw [← Std.LawfulEqCmp.eq_of_compare hk]
          exact hmem }

theorem recordValue_lastValues (t : Tables) (address k : UInt16) (value : Int16) :
    (t.recordValue address value).lastValues[k]? =
      if address = k then some value else t.lastValues[k]? := by
  unfold recordValue
  split
  · next h =>
    split
    · next heq => rw [← heq, h]
    · rfl
  · simp [Std.ExtTreeMap.getElem?_insert]

@[simp] theorem recordValue_relays (t : Tables) (address : UInt16) (value : Int16) :
    (t.recordValue address value).relays = t.relays := by
  unfold recordValue
  split <;> rfl

@[simp] theorem recordIp_lastValues (t : Tables) (relayIndex : UInt8) (ipAddress : Bytes) :
    (t.recordIp relayIndex ipAddress).lastValues = t.lastValues := by
  unfold recordIp
  split
  · rfl
  · split <;> rfl

theorem recordIp_relays (t : Tables) (relayIndex k : UInt8) (ipAddress : Bytes) :
    (t.recordIp relayIndex ipAddress).relays[k]? =
      (t.relays[k]?).map fun metadata =>
        if relayIndex = k then { metadata with ipAddress := ipAddress } else metadata := by
  unfold recordIp
  split
  · next h =>
    by_cases hk : relayIndex = k
    · rw [← hk, h]
      rfl
    · simp [hk]
  · next metadata h =>
    split
    · next hip =>
      by_cases hk : relayIndex = k
      · rw [← hk, h, ← hip]
        simp
      · simp [hk]
    · by_cases hk : relayIndex = k
      · simp [← hk, h]
      · simp [Std.ExtTreeMap.getElem?_insert, hk]

end Tables

/-! ## Lines from the devices -/

/-- `none` where the function returns `false`. -/
def updateRelayStateWithIp (line : Bytes) (t : Tables) : Option Tables :=
  match line with
  | [] => none
  | b :: s =>
    if b ≠ 'R' then none
    else do
      let (relayNumber, s) ← extractUnsigned 64 s
      let (stateValue, s) ← extractUnsigned 64 s
      let (ipAddress, _) ← nextWord s
      if relayNumber = 0 ∨ 4 < relayNumber ∨ 1 < stateValue then none
      else
        let relayIndex := relayNumber.toUInt8
        return (t.recordValue relayIndex.toUInt16 (Int16.ofNat stateValue)).recordIp
          relayIndex ipAddress

def updateAddressValue (line : Bytes) (t : Tables) : Option Tables := do
  let (rawAddr, s) ← extractUnsigned 64 line
  let (rawValue, _) ← extractUnsigned 64 s
  if 0xFFFF < rawAddr ∨ 0xFFFF < rawValue then none
  else return t.recordValue rawAddr.toUInt16 (Int16.ofNat rawValue)

/-- What `serverLoop` does with a line; the flag is `valuesChanged`. -/
def handleLine (line : Bytes) (t : Tables) : Bool × Tables :=
  match updateRelayStateWithIp line t with
  | some t => (true, t)
  | none =>
    match updateAddressValue line t with
    | some t => (true, t)
    | none => (false, t)

/-- The lines that are handed to the two parsers. -/
def handedLines (lines : List Bytes) : List Bytes :=
  (lines.map stripCarriageReturn).filter (· ≠ [])

@[simp] theorem handedLines_nil : handedLines [] = [] := rfl

theorem handedLines_append (lines lines' : List Bytes) :
    handedLines (lines ++ lines') = handedLines lines ++ handedLines lines' := by
  simp [handedLines]

def handleLines (lines : List Bytes) (t : Tables) : Tables :=
  lines.foldl (fun t line => (handleLine line t).2) t

theorem handleLines_append (lines lines' : List Bytes) (t : Tables) :
    handleLines (lines ++ lines') t = handleLines lines' (handleLines lines t) := List.foldl_append

/-! ## Lines for the devices -/

/-- A call of the plug helper. -/
structure RelaySwitch where
  relayIndex : UInt8
  value : Int16
  deriving DecidableEq, Repr

def offTexts : List Bytes := [ascii "OFF", ascii "0", ascii "FALSE", ascii "false"]

/-- The relay branch of `parseCommand`. -/
def relaySwitch (command : Bytes) : Option RelaySwitch := do
  let trimmed := if command.getLast? = some newline then command.dropLast else command
  let (token, s) ← nextWord trimmed
  if token ≠ ascii "RELAY" then none
  else
    let (relayIndex, s) ← extractUnsigned 32 s
    let (state, _) ← nextWord s
    return ⟨relayIndex.toUInt8, if state ∈ offTexts then 0 else 1⟩

/-- What is broadcast to the clients. -/
def outgoing (command : Bytes) : Bytes :=
  if command.getLast? = some newline then command else command ++ [newline]

/-- `parseCommand`: the plug to switch, if any, and the text for the clients. -/
def parseCommand (command : Bytes) : Option RelaySwitch × Bytes :=
  (relaySwitch command, outgoing command)

/-! ## Plugs -/

/-- The state that each plug was last switched to. -/
abbrev Plugs := UInt8 → Option Bool

def executeRelaySwitch (plugs : Plugs) (switch : RelaySwitch) : Plugs :=
  Function.update plugs switch.relayIndex (some (switch.value ≠ 0))

/-- The loop of the relay replay in `serverLoop`, over the given relays. -/
def replayRelays (lastValues : LastValues) (plugs : Plugs) (relays : List UInt8) : Plugs :=
  relays.foldl (fun plugs relayIndex =>
    match lastValues[relayIndex.toUInt16]? with
    | some value => executeRelaySwitch plugs ⟨relayIndex, value⟩
    | none => plugs) plugs

def relayIndices : List UInt8 := [1, 2, 3, 4]

/-- Every five minutes the plugs follow the last values. -/
def replay (lastValues : LastValues) (plugs : Plugs) : Plugs :=
  replayRelays lastValues plugs relayIndices

theorem replayRelays_apply (lastValues : LastValues) (plugs : Plugs) (relays : List UInt8)
    (k : UInt8) :
    replayRelays lastValues plugs relays k =
      if k ∈ relays then (lastValues[k.toUInt16]?.map (decide <| · ≠ 0)).or (plugs k)
      else plugs k := by
  induction relays generalizing plugs with
  | nil => rfl
  | cons relayIndex relays ih =>
    have hrest := ih (match lastValues[relayIndex.toUInt16]? with
      | some value => executeRelaySwitch plugs ⟨relayIndex, value⟩
      | none => plugs)
    rw [replayRelays, List.foldl_cons, ← replayRelays, hrest]
    by_cases hk : k = relayIndex
    · subst hk
      cases lastValues[k.toUInt16]? <;> simp [executeRelaySwitch]
    · cases lastValues[relayIndex.toUInt16]? <;> simp [executeRelaySwitch, hk]

end InverterMonitor.Monitor
