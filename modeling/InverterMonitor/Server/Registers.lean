import InverterMonitor.Cxx.Conversions
import Std.Data.ExtTreeMap

/-!
# Registers, relays and the JSON escaper of `registers.hpp`

Every `std::map` is an ordered map; the maps of the server are `LastValues`
and the relay table, whose keys never change after start-up.
-/

namespace InverterMonitor.Registers
open Text Cxx

abbrev LastValues := Std.ExtTreeMap UInt16 Int16

structure RegisterMetadata where
  name : Bytes
  multiplier : Float
  deriving DecidableEq

structure RelayMetadata where
  name : Bytes
  ipAddress : Bytes
  deriving DecidableEq, Repr

abbrev RelayTable := Std.ExtTreeMap UInt8 RelayMetadata

def relayEntries : List (UInt8 × RelayMetadata) :=
  [(1, ⟨ascii "Relay 1", []⟩), (2, ⟨ascii "Relay 2", []⟩), (3, ⟨ascii "Relay 3", []⟩),
    (4, ⟨ascii "Relay 4", []⟩)]

/-- The initial value of `relayMetadata`. -/
def relayMetadata : RelayTable := .ofList relayEntries

theorem mem_relayMetadata (k : UInt8) : k ∈ relayMetadata ↔ 1 ≤ k ∧ k ≤ 4 := by
  have hentries : k ∈ relayMetadata ↔ k ∈ relayEntries.map Prod.fst := by
    rw [relayMetadata, Std.ExtTreeMap.mem_ofList]
    simp
  rw [hentries]
  simp only [relayEntries, List.map_cons, List.map_nil, List.mem_cons, List.not_mem_nil, or_false]
  constructor
  · rintro (rfl | rfl | rfl | rfl) <;> decide
  · rintro ⟨hone, hfour⟩
    have hk : k.toNat = 1 ∨ k.toNat = 2 ∨ k.toNat = 3 ∨ k.toNat = 4 := by
      have hone : 1 ≤ k.toNat := UInt8.le_iff_toNat_le.mp hone
      have hfour : k.toNat ≤ 4 := UInt8.le_iff_toNat_le.mp hfour
      omega
    simp only [← UInt8.toNat_inj]
    exact hk

def registerEntries : List (UInt16 × RegisterMetadata) := [
    (20101, ⟨ascii "Inverter offgrid work enable", 1.0⟩),
    (20102, ⟨ascii "Inverter output voltage set", 0.1⟩),
    (20103, ⟨ascii "Inverter output frequency set", 0.01⟩),
    (20104, ⟨ascii "Inverter search mode enable", 1.0⟩),
    (20108, ⟨ascii "Inverter discharge to grid enable", 1.0⟩),
    (20109, ⟨ascii "Energy use mode", 1.0⟩),
    (20111, ⟨ascii "Grid protect standard", 1.0⟩),
    (20112, ⟨ascii "SolarUse Aim", 1.0⟩),
    (20113, ⟨ascii "Inverter max discharger current", 0.1⟩),
    (20118, ⟨ascii "Battery stop discharging voltage", 0.1⟩),
    (20119, ⟨ascii "Battery stop charging voltage", 0.1⟩),
    (10103, ⟨ascii "Float voltage", 0.1⟩),
    (10104, ⟨ascii "Absorption voltage", 0.1⟩),
    (10105, ⟨ascii "Battery low voltage (PV/PH)", 0.1⟩),
    (10107, ⟨ascii "Battery high voltage (PV/PH)", 0.1⟩),
    (20125, ⟨ascii "Grid max charger current set", 0.1⟩),
    (20127, ⟨ascii "Battery low voltage", 0.1⟩),
    (20128, ⟨ascii "Battery high voltage", 0.1⟩),
    (20132, ⟨ascii "Max Combine charger current", 0.1⟩),
    (20142, ⟨ascii "System setting", 1.0⟩),
    (20143, ⟨ascii "Charger source priority", 1.0⟩),
    (20144, ⟨ascii "Solar power balance", 1.0⟩),
    (15205, ⟨ascii "PV voltage", 0.1⟩),
    (15206, ⟨ascii "Battery voltage", 0.1⟩),
    (15207, ⟨ascii "PV charger current", 0.1⟩),
    (15208, ⟨ascii "PV charger power", 1.0⟩),
    (25212, ⟨ascii "Load current", 0.1⟩),
    (25274, ⟨ascii "Battery current (negative for charging)", 1.0⟩),
    (10000, ⟨ascii "Temperature 1", 1.0⟩),
    (10001, ⟨ascii "Temperature 2", 1.0⟩),
    (10002, ⟨ascii "Temperature 3", 1.0⟩),
    (10003, ⟨ascii "Temperature 4", 1.0⟩)]

def registerMetadata : Std.ExtTreeMap UInt16 RegisterMetadata := .ofList registerEntries

/-- `static_cast<double>` of a 16-bit value. -/
def doubleOfInt16 (value : Int16) : Float :=
  if value.toInt < 0 then -Float.ofNat value.toInt.natAbs else Float.ofNat value.toInt.natAbs

/-- The table is searched with the low byte of the address. -/
def getRelayMetadata (relays : RelayTable) (address : UInt16) : Option RelayMetadata :=
  relays[address.toUInt8]?

def getScaledRegisterValue (relays : RelayTable) (address : UInt16) (value : Int16) : Float :=
  if (getRelayMetadata relays address).isSome then doubleOfInt16 value
  else doubleOfInt16 value *
    (match registerMetadata[address]? with
      | some metadata => metadata.multiplier
      | none => 1.0)

/-! ## The escaper -/

def escapeByte (c : Byte) : Bytes :=
  if c = '"' then ascii "\\\""
  else if c = '\\' then ascii "\\\\"
  else if c = 8 then ascii "\\b"
  else if c = 12 then ascii "\\f"
  else if c = 10 then ascii "\\n"
  else if c = 13 then ascii "\\r"
  else if c = 9 then ascii "\\t"
  else [c]

def jsonEscape (input : Bytes) : Bytes := input.flatMap escapeByte

@[simp] theorem jsonEscape_nil : jsonEscape [] = [] := rfl
@[simp] theorem jsonEscape_cons (c : Byte) (s : Bytes) :
    jsonEscape (c :: s) = escapeByte c ++ jsonEscape s := rfl

end InverterMonitor.Registers
