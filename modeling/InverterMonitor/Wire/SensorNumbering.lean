import InverterMonitor.Cxx.Comparators
import InverterMonitor.Firmware.Device
import InverterMonitor.Wire.Temperature

/-!
# The registers of the temperature sensors

`detectTemperatureSensors` of `temperature.ino` numbers the sensors on the bus, and `loop`
sends their temperatures under these numbers.

* `collect_ofAddresses`: the loop keeps the first valid addresses;
* `detectTemperatureSensors_fst`: the table holds them in the order of the comparator;
* `detectTemperatureSensors_unordered`: so the order of the bus does not matter while the
  table has room for all its sensors.
-/

namespace InverterMonitor.Wire
open Text Cxx

/-! ## The sensors on the bus -/

structure DeviceAddress where
  bytes : Bytes
  length_eq : bytes.length = 8
deriving DecidableEq

/-- What the library reports of the bus. -/
structure DallasTemperature where
  getDeviceCount : UInt8
  getAddress : UInt8 → Option DeviceAddress
  validAddress : DeviceAddress → Bool

def compareSensorAddresses (a b : DeviceAddress) : Int := compareLists a.bytes b.bytes

def maxTemperatureSensors : Nat := 4

/-- The array has `MAX_TEMPERATURE_SENSORS` addresses, of which the first
`connectedSensorCount` are in use. -/
structure SensorTable where
  connectedSensorCount : Nat
  connectedSensorAddresses : List DeviceAddress
deriving DecidableEq

/-- What `memset` leaves. -/
def noAddress : DeviceAddress := ⟨List.replicate 8 0, List.length_replicate⟩

/-- The values of `index`. -/
def deviceIndices (totalDevices : UInt8) : List UInt8 :=
  (List.range totalDevices.toNat).map Nat.toUInt8

/-- The loop over the devices. -/
def collect (sensors : DallasTemperature) : List UInt8 → SensorTable → SensorTable
  | [], table => table
  | index :: indices, table =>
    if table.connectedSensorCount < maxTemperatureSensors then
      match sensors.getAddress index with
      | none => collect sensors indices table
      | some deviceAddress =>
        if sensors.validAddress deviceAddress then
          collect sensors indices
            { connectedSensorCount := table.connectedSensorCount + 1,
              connectedSensorAddresses :=
                table.connectedSensorAddresses.set table.connectedSensorCount deviceAddress }
        else collect sensors indices table
    else table

namespace SensorTable

def sorted (qsort : (DeviceAddress → DeviceAddress → Int) → List DeviceAddress → List DeviceAddress)
    (table : SensorTable) : SensorTable :=
  let count := table.connectedSensorCount
  if 1 < count then
    { table with
      connectedSensorAddresses :=
        qsort compareSensorAddresses (table.connectedSensorAddresses.take count) ++
          table.connectedSensorAddresses.drop count }
  else table

/-- The registers and their sensors, as the loops over the table pass them. -/
def registers (table : SensorTable) : List (UInt16 × DeviceAddress) :=
  (table.connectedSensorAddresses.take table.connectedSensorCount).zipIdx.map
    fun (deviceAddress, sensorIndex) => ((sensorRegisterBase + sensorIndex).toUInt16, deviceAddress)

end SensorTable

def printAddress (deviceAddress : DeviceAddress) : Bytes :=
  deviceAddress.bytes.flatMap fun b =>
    if b < 16 then ascii "0" ++ [Firmware.hexDigit b.toNat] else Firmware.hexByte b

/-- The messages of a detection. -/
def detectionReport (totalDevices : UInt8) (table : SensorTable) : List Bytes :=
  (ascii "OneWire bus reports " ++ decimal totalDevices.toNat ++ ascii " device(s).") ::
    if table.connectedSensorCount = 0 then [ascii "No DS18B20 sensors found on the OneWire bus."]
    else
      [ascii "Detected " ++ decimal table.connectedSensorCount ++ ascii " DS18B20 sensor(s):"] ++
      (table.registers.map fun (address, deviceAddress) =>
        ascii "  register " ++ decimal address.toNat ++ ascii " -> " ++
          printAddress deviceAddress) ++
      if maxTemperatureSensors < totalDevices.toNat then
        [ascii "Warning: only first " ++ decimal maxTemperatureSensors ++
          ascii " sensors are mapped."]
      else []

/-- The table after a detection, and its messages. -/
def detectTemperatureSensors
    (qsort : (DeviceAddress → DeviceAddress → Int) → List DeviceAddress → List DeviceAddress)
    (sensors : DallasTemperature) (table : SensorTable) : SensorTable × List Bytes :=
  let table := { table with connectedSensorCount := 0 }
  let table :=
    { table with connectedSensorAddresses := List.replicate maxTemperatureSensors noAddress }
  let totalDevices := sensors.getDeviceCount
  let table := (collect sensors (deviceIndices totalDevices) table).sorted qsort
  (table, detectionReport totalDevices table)

/-- The lines that `loop` sends in a scan. -/
def scanLines (getTempC : DeviceAddress → Float) (table : SensorTable) : List Bytes :=
  table.registers.map fun (address, deviceAddress) =>
    temperatureLine address (getTempC deviceAddress)

/-! ## The comparator -/

theorem compares_compareSensorAddresses :
    Compares compareSensorAddresses DeviceAddress.bytes :=
  compares_compareLists fun a b => a.length_eq.trans b.length_eq.symm

theorem eq_of_compareSensorAddresses {a b : DeviceAddress} (h : compareSensorAddresses a b = 0) :
    a = b := by
  have hbytes := compares_compareSensorAddresses.eq_of_eq_zero h
  cases a
  cases b
  cases hbytes
  rfl

/-! ## The table -/

/-- The table of the addresses `xs`. -/
def SensorTable.ofAddresses (xs : List DeviceAddress) : SensorTable :=
  ⟨xs.length, xs ++ List.replicate (maxTemperatureSensors - xs.length) noAddress⟩

/-- The valid address that is read for an index. -/
def DallasTemperature.reading (sensors : DallasTemperature) (index : UInt8) :
    Option DeviceAddress :=
  (sensors.getAddress index).filter sensors.validAddress

def DallasTemperature.readings (sensors : DallasTemperature) : List DeviceAddress :=
  (deviceIndices sensors.getDeviceCount).filterMap sensors.reading

theorem ofAddresses_append {xs : List DeviceAddress} (h : xs.length < maxTemperatureSensors)
    (a : DeviceAddress) :
    SensorTable.ofAddresses (xs ++ [a]) =
      ⟨xs.length + 1, (SensorTable.ofAddresses xs).connectedSensorAddresses.set xs.length a⟩ := by
  obtain ⟨room, hroom⟩ := Nat.exists_eq_add_of_lt h
  have hbefore : maxTemperatureSensors - xs.length = room + 1 := by omega
  have hafter : maxTemperatureSensors - (xs.length + 1) = room := by omega
  simp [SensorTable.ofAddresses, hbefore, hafter, List.replicate_succ]

/-- What is unreadable or invalid is passed, and the rest is kept while there is room. -/
theorem collect_ofAddresses (sensors : DallasTemperature) (indices : List UInt8)
    {xs : List DeviceAddress} (h : xs.length ≤ maxTemperatureSensors) :
    collect sensors indices (.ofAddresses xs) =
      .ofAddresses ((xs ++ indices.filterMap sensors.reading).take maxTemperatureSensors) := by
  induction indices generalizing xs with
  | nil => rw [collect, List.filterMap_nil, List.append_nil, List.take_of_length_le h]
  | cons index indices ih =>
    rw [collect]
    by_cases hroom : xs.length < maxTemperatureSensors
    · rw [if_pos (show (SensorTable.ofAddresses xs).connectedSensorCount < _ from hroom)]
      cases hread : sensors.getAddress index with
      | none =>
        have hreading : sensors.reading index = none := by simp [DallasTemperature.reading, hread]
        rw [List.filterMap_cons_none hreading]
        exact ih h
      | some a =>
        by_cases hvalid : sensors.validAddress a = true
        · have hreading : sensors.reading index = some a := by
            simp [DallasTemperature.reading, hread, hvalid]
          have hrest := @ih (xs ++ [a]) (by rw [List.length_append]; exact hroom)
          rw [List.filterMap_cons_some hreading, List.append_cons, ← hrest,
            ofAddresses_append hroom]
          simp only [if_pos hvalid]
          rfl
        · have hreading : sensors.reading index = none := by
            simp [DallasTemperature.reading, hread, hvalid]
          rw [List.filterMap_cons_none hreading]
          simp only [if_neg hvalid]
          exact ih h
    · have hfull : xs.length = maxTemperatureSensors := by omega
      rw [if_neg (show ¬ (SensorTable.ofAddresses xs).connectedSensorCount < _ from hroom),
        ← hfull, List.take_left]

section Detection
variable {qsort : (DeviceAddress → DeviceAddress → Int) → List DeviceAddress → List DeviceAddress}
  (hqsort : Sorts qsort)
include hqsort

theorem sorted_ofAddresses (xs : List DeviceAddress) :
    (SensorTable.ofAddresses xs).sorted qsort =
      .ofAddresses (qsort compareSensorAddresses xs) := by
  have hcmp := compares_compareSensorAddresses.isComparator
  by_cases hmany : 1 < xs.length
  · have hcount : 1 < (SensorTable.ofAddresses xs).connectedSensorCount := hmany
    have hlength := (hqsort _ hcmp xs).1.length_eq
    rw [SensorTable.sorted, if_pos hcount]
    simp [SensorTable.ofAddresses, hlength]
  · have hcount : ¬ 1 < (SensorTable.ofAddresses xs).connectedSensorCount := hmany
    rw [SensorTable.sorted, if_neg hcount, hqsort.eq_self hcmp (Nat.not_lt.mp hmany)]

theorem detectTemperatureSensors_fst (sensors : DallasTemperature) (table : SensorTable) :
    (detectTemperatureSensors qsort sensors table).1 =
      .ofAddresses
        (qsort compareSensorAddresses (sensors.readings.take maxTemperatureSensors)) := by
  have hcollect := @collect_ofAddresses sensors (deviceIndices sensors.getDeviceCount) []
    (Nat.zero_le _)
  rw [← sorted_ofAddresses hqsort]
  exact congrArg (SensorTable.sorted qsort) hcollect

end Detection

/-! ## Two detections -/

/-- The bus reports each of the devices once, and nothing else that is valid. -/
structure DallasTemperature.Enumerates (sensors : DallasTemperature)
    (devices : Finset DeviceAddress) : Prop where
  mem_iff : ∀ a, a ∈ devices ↔ ∃ index, index < sensors.getDeviceCount ∧
    sensors.getAddress index = some a ∧ sensors.validAddress a = true
  once : ∀ index index' a, index < sensors.getDeviceCount → index' < sensors.getDeviceCount →
    sensors.getAddress index = some a → sensors.getAddress index' = some a →
    sensors.validAddress a = true → index = index'

theorem mem_deviceIndices {totalDevices index : UInt8} :
    index ∈ deviceIndices totalDevices ↔ index < totalDevices := by
  rw [deviceIndices, List.mem_map, UInt8.lt_iff_toNat_lt]
  constructor
  · rintro ⟨i, hi, rfl⟩
    have hlt := List.mem_range.mp hi
    have htotal := totalDevices.toNat_lt
    rwa [UInt8.toNat_ofNat_of_lt' (hlt.trans htotal)]
  · intro h
    exact ⟨index.toNat, List.mem_range.mpr h, UInt8.ofNat_toNat⟩

theorem deviceIndices_nodup (totalDevices : UInt8) : (deviceIndices totalDevices).Nodup := by
  refine List.Nodup.map_on ?_ List.nodup_range
  intro i hi j hj h
  have htotal := totalDevices.toNat_lt
  have hi := (List.mem_range.mp hi).trans htotal
  have hj := (List.mem_range.mp hj).trans htotal
  have hnat := congrArg UInt8.toNat h
  rwa [UInt8.toNat_ofNat_of_lt' hi, UInt8.toNat_ofNat_of_lt' hj] at hnat

theorem DallasTemperature.reading_eq_some {sensors : DallasTemperature} {index : UInt8}
    {a : DeviceAddress} : sensors.reading index = some a ↔
      sensors.getAddress index = some a ∧ sensors.validAddress a = true :=
  Option.filter_eq_some_iff

namespace DallasTemperature.Enumerates

variable {sensors : DallasTemperature} {devices : Finset DeviceAddress}

theorem readings_perm (h : sensors.Enumerates devices) : sensors.readings.Perm devices.toList := by
  have hnodup : sensors.readings.Nodup := by
    refine List.pairwise_filterMap.mpr ((deviceIndices_nodup _).imp_of_mem ?_)
    rintro index index' hindex hindex' hne a ha _ ha' rfl
    obtain ⟨hread, hvalid⟩ := reading_eq_some.mp ha
    obtain ⟨hread', -⟩ := reading_eq_some.mp ha'
    exact hne (h.once _ _ a (mem_deviceIndices.mp hindex) (mem_deviceIndices.mp hindex') hread
      hread' hvalid)
  refine (List.perm_ext_iff_of_nodup hnodup devices.nodup_toList).mpr fun a => ?_
  rw [Finset.mem_toList, h.mem_iff, readings, List.mem_filterMap]
  simp only [mem_deviceIndices, reading_eq_some]

theorem take_readings (h : sensors.Enumerates devices)
    (hcard : devices.card ≤ maxTemperatureSensors) :
    sensors.readings.take maxTemperatureSensors = sensors.readings := by
  apply List.take_of_length_le
  rwa [h.readings_perm.length_eq, Finset.length_toList]

end DallasTemperature.Enumerates

theorem mem_registers {ys : List DeviceAddress} {register : UInt16} {a : DeviceAddress} :
    (register, a) ∈ (SensorTable.ofAddresses ys).registers ↔
      ∃ sensorIndex, ys[sensorIndex]? = some a ∧
        register = (sensorRegisterBase + sensorIndex).toUInt16 := by
  rw [SensorTable.registers, SensorTable.ofAddresses, List.take_left, List.mem_map]
  constructor
  · rintro ⟨⟨b, sensorIndex⟩, hmem, heq⟩
    cases heq
    exact ⟨sensorIndex, List.mk_mem_zipIdx_iff_getElem?.mp hmem, rfl⟩
  · rintro ⟨sensorIndex, hget, rfl⟩
    exact ⟨(a, sensorIndex), List.mk_mem_zipIdx_iff_getElem?.mpr hget, rfl⟩

/-- The register of a sensor is that of `sensorIndex`. -/
def SensorTable.Numbers (table : SensorTable) (a : DeviceAddress) (sensorIndex : Nat) : Prop :=
  ∀ register, (register, a) ∈ table.registers ↔
    register = (sensorRegisterBase + sensorIndex).toUInt16

/-- A scan sends the temperature of the sensor under its register. -/
theorem SensorTable.Numbers.mem_scanLines {table : SensorTable} {a : DeviceAddress}
    {sensorIndex : Nat} (h : table.Numbers a sensorIndex) (getTempC : DeviceAddress → Float) :
    temperatureLine (sensorRegisterBase + sensorIndex).toUInt16 (getTempC a) ∈
      scanLines getTempC table :=
  List.mem_map.mpr ⟨_, (h _).mpr rfl, rfl⟩

/-- A sensor that stands in the table once has one register. -/
theorem exists_numbers {ys : List DeviceAddress} (hys : ys.Nodup) {a : DeviceAddress}
    (ha : a ∈ ys) :
    ∃ sensorIndex, sensorIndex < ys.length ∧
      (SensorTable.ofAddresses ys).Numbers a sensorIndex := by
  obtain ⟨sensorIndex, hlt, rfl⟩ := List.getElem_of_mem ha
  refine ⟨sensorIndex, hlt, fun register => mem_registers.trans ⟨?_, ?_⟩⟩
  · rintro ⟨other, hget, rfl⟩
    obtain ⟨hother, hsame⟩ := List.getElem?_eq_some_iff.mp hget
    rw [hys.getElem_inj_iff.mp hsame]
  · rintro rfl
    exact ⟨sensorIndex, List.getElem?_eq_getElem hlt, rfl⟩

/-- The numbers of the sensors do not depend on the order in which the bus reports them, on the
entries that are skipped, or on the table before. A scan sends the temperatures under them. -/
theorem detectTemperatureSensors_unordered
    {qsort : (DeviceAddress → DeviceAddress → Int) → List DeviceAddress → List DeviceAddress}
    (hqsort : Sorts qsort) {devices : Finset DeviceAddress}
    (hcard : devices.card ≤ maxTemperatureSensors) {sensors sensors' : DallasTemperature}
    (h : sensors.Enumerates devices) (h' : sensors'.Enumerates devices)
    (table table' : SensorTable) :
    (detectTemperatureSensors qsort sensors table).1 =
      (detectTemperatureSensors qsort sensors' table').1 ∧
    (detectTemperatureSensors qsort sensors table).1.connectedSensorCount = devices.card ∧
    ∀ a ∈ devices, ∃ sensorIndex, sensorIndex < devices.card ∧
      (detectTemperatureSensors qsort sensors table).1.Numbers a sensorIndex ∧
      (detectTemperatureSensors qsort sensors' table').1.Numbers a sensorIndex ∧
      ∀ getTempC, temperatureLine (sensorRegisterBase + sensorIndex).toUInt16 (getTempC a) ∈
        scanLines getTempC (detectTemperatureSensors qsort sensors' table').1 := by
  have hcmp := compares_compareSensorAddresses.isComparator
  have hsorted : qsort compareSensorAddresses sensors.readings =
      qsort compareSensorAddresses sensors'.readings :=
    hqsort.eq_of_perm hcmp (fun _ _ => eq_of_compareSensorAddresses)
      (h.readings_perm.trans h'.readings_perm.symm)
  have hdetected : (detectTemperatureSensors qsort sensors table).1 =
      .ofAddresses (qsort compareSensorAddresses sensors.readings) := by
    rw [detectTemperatureSensors_fst hqsort, h.take_readings hcard]
  have hdetected' : (detectTemperatureSensors qsort sensors' table').1 =
      .ofAddresses (qsort compareSensorAddresses sensors.readings) := by
    rw [detectTemperatureSensors_fst hqsort, h'.take_readings hcard, hsorted]
  have hperm := (hqsort _ hcmp sensors.readings).1.trans h.readings_perm
  have hlength := hperm.length_eq.trans (Finset.length_toList devices)
  rw [hdetected, hdetected']
  refine ⟨rfl, hlength, fun a ha => ?_⟩
  obtain ⟨sensorIndex, hlt, hnumbers⟩ := exists_numbers (hperm.nodup_iff.mpr devices.nodup_toList)
    (hperm.mem_iff.mpr (Finset.mem_toList.mpr ha))
  exact ⟨sensorIndex, hlength ▸ hlt, hnumbers, hnumbers, hnumbers.mem_scanLines⟩

def firstSensor : DeviceAddress := ⟨[0x28, 0x1D, 0x39, 0x31, 0x02, 0x00, 0x00, 0xF0], rfl⟩
def secondSensor : DeviceAddress := ⟨[0x28, 0xFF, 0x64, 0x1E, 0x0F, 0x71, 0x16, 0x06], rfl⟩

/-- The address of the first sensor, damaged in transmission. -/
def damagedAddress : DeviceAddress := ⟨[0x28, 0x1D, 0x39, 0x31, 0x03, 0x00, 0x00, 0xF0], rfl⟩

/-- A bus that reports the entries in their order. -/
def smallBus (entries : List (Option DeviceAddress)) : DallasTemperature where
  getDeviceCount := entries.length.toUInt8
  getAddress index := entries[index.toNat]?.getD none
  validAddress a := a = firstSensor ∨ a = secondSensor

theorem smallBus_enumerates {entries : List (Option DeviceAddress)} (hshort : entries.length < 256)
    (hnodup : entries.Nodup) (hfirst : some firstSensor ∈ entries)
    (hsecond : some secondSensor ∈ entries) :
    (smallBus entries).Enumerates {firstSensor, secondSensor} := by
  have hcount : ∀ {index : UInt8}, index < (smallBus entries).getDeviceCount ↔
      index.toNat < entries.length := by
    intro index
    rw [UInt8.lt_iff_toNat_lt, smallBus, UInt8.toNat_ofNat_of_lt' hshort]
  have hfound : ∀ {a}, some a ∈ entries → ∃ index, index < (smallBus entries).getDeviceCount ∧
      (smallBus entries).getAddress index = some a := by
    intro a ha
    obtain ⟨i, hlt, hget⟩ := List.getElem_of_mem ha
    have hindex : i.toUInt8.toNat = i := UInt8.toNat_ofNat_of_lt' (hlt.trans hshort)
    refine ⟨i.toUInt8, hcount.mpr (hindex.symm ▸ hlt), ?_⟩
    simp only [smallBus, hindex, List.getElem?_eq_getElem hlt, hget, Option.getD_some]
  constructor
  · intro a
    rw [Finset.mem_insert, Finset.mem_singleton]
    constructor
    · intro ha
      obtain ⟨index, hlt, hget⟩ : ∃ index, index < (smallBus entries).getDeviceCount ∧
          (smallBus entries).getAddress index = some a := by
        rcases ha with rfl | rfl
        · exact hfound hfirst
        · exact hfound hsecond
      exact ⟨index, hlt, hget, decide_eq_true ha⟩
    · rintro ⟨index, -, -, hvalid⟩
      exact of_decide_eq_true hvalid
  · intro index index' a hindex hindex' hget hget' _
    have hget := hget.trans hget'.symm
    rw [hcount] at hindex hindex'
    simp only [smallBus, List.getElem?_eq_getElem hindex, List.getElem?_eq_getElem hindex',
      Option.getD_some] at hget
    exact UInt8.toNat_inj.mp (hnodup.getElem_inj_iff.mp hget)

def unreadableBus : DallasTemperature := smallBus [some secondSensor, none, some firstSensor]
def damagedBus : DallasTemperature :=
  smallBus [some firstSensor, some damagedAddress, some secondSensor]

theorem unreadableBus_enumerates : unreadableBus.Enumerates {firstSensor, secondSensor} :=
  smallBus_enumerates (by decide) (by decide) (by decide) (by decide)

theorem damagedBus_enumerates : damagedBus.Enumerates {firstSensor, secondSensor} :=
  smallBus_enumerates (by decide) (by decide) (by decide) (by decide)

/-- The second sensor answers first, and later behind a damaged address. -/
theorem two_sensors_numbered :
    (detectTemperatureSensors mergeSortBy unreadableBus ⟨0, []⟩).1 =
      (detectTemperatureSensors mergeSortBy damagedBus (.ofAddresses [secondSensor])).1 ∧
    (detectTemperatureSensors mergeSortBy unreadableBus ⟨0, []⟩).1.connectedSensorCount = 2 ∧
    ∃ sensorIndex, sensorIndex < 2 ∧
      (detectTemperatureSensors mergeSortBy unreadableBus ⟨0, []⟩).1.Numbers
        firstSensor sensorIndex ∧
      (detectTemperatureSensors mergeSortBy damagedBus (.ofAddresses [secondSensor])).1.Numbers
        firstSensor sensorIndex ∧
      ∀ getTempC, temperatureLine (sensorRegisterBase + sensorIndex).toUInt16
        (getTempC firstSensor) ∈ scanLines getTempC
          (detectTemperatureSensors mergeSortBy damagedBus (.ofAddresses [secondSensor])).1 := by
  obtain ⟨htable, hcount, hnumbers⟩ := detectTemperatureSensors_unordered sorts_mergeSortBy
    (by decide) unreadableBus_enumerates damagedBus_enumerates ⟨0, []⟩ (.ofAddresses [secondSensor])
  exact ⟨htable, hcount, hnumbers firstSensor (Finset.mem_insert_self _ _)⟩

end InverterMonitor.Wire
