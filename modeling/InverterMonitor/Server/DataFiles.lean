import InverterMonitor.Cxx.Decimals
import InverterMonitor.Server.ChartRanges
import InverterMonitor.Server.JsonLocality
import InverterMonitor.Server.RegisterFile

/-!
# The data files

`appendPowerValue` and the functions like it add a line with the time and the scaled value of
a register to a file.

* `isDecimal_scaled`: a scaled value is near the decimal that it stands for;
* `appendValues_apply`: what one round of appending adds to each file;
* `readPoint_line`: what the chart reader finds in a line;
* `pointText_point`: and what it prints for it.
-/

namespace InverterMonitor.Monitor
open Text Cxx Registers Timestamps Http Float.Model.UnpackedFloat

/-! ## Files -/

/-- The files by name. -/
abbrev Files := Bytes → Option Bytes

/-- Whether a file can be opened for writing, and how many bytes it then takes. -/
abbrev Room := Option Nat

/-- A file opened with `app`. -/
def appendFile (room : Room) (name text : Bytes) (files : Files) : Files :=
  match room with
  | none => files
  | some room => Function.update files name (some ((files name).getD [] ++ text.take room))

/-- A file opened with `trunc`. -/
def writeFile (room : Room) (name text : Bytes) (files : Files) : Files :=
  match room with
  | none => files
  | some room => Function.update files name (some (text.take room))

/-- No text is cut short. -/
def Room.Whole (room : Room) (text : Bytes) : Prop := ∀ n, room = some n → text.length ≤ n

/-! ## Appending a value -/

/-- The file of a register and the text of a value in it. -/
structure DataFile where
  name : Bytes
  address : UInt16
  valueText : RelayTable → Int16 → Bytes

/-- The time that is read for a line, and the room that its file has. -/
structure Appending where
  now : Timestamp
  room : Room

namespace DataFile

def line (file : DataFile) (relays : RelayTable) (now : Timestamp) (value : Int16) : Bytes :=
  storedText now ++ ascii " " ++ file.valueText relays value

def append (file : DataFile) (relays : RelayTable) (appending : Appending) (value : Int16)
    (files : Files) : Files :=
  appendFile appending.room file.name (file.line relays appending.now value ++ ascii "\n") files

end DataFile

def pvPowerAddress : UInt16 := 15208
def pvVoltageAddress : UInt16 := 15205
def batteryVoltageAddress : UInt16 := 15206
def batteryCurrentAddress : UInt16 := 25274
def loadCurrentAddress : UInt16 := 25212
def temperatureStartAddress : UInt16 := 10000

/-- A stream prints a double with six significant digits. -/
def scaledFile (name : String) (address : UInt16) : DataFile :=
  ⟨ascii name, address, fun relays value =>
    formatGeneral 6 (getScaledRegisterValue relays address value)⟩

def powerFile : DataFile := scaledFile "power.dat" pvPowerAddress
def batteryFile : DataFile := scaledFile "battery.dat" batteryVoltageAddress
def batteryCurrentFile : DataFile := scaledFile "batterycurr.dat" batteryCurrentAddress
def loadCurrentFile : DataFile := scaledFile "loadcurr.dat" loadCurrentAddress
def pvVoltageFile : DataFile := scaledFile "pvvoltage.dat" pvVoltageAddress

/-- The unscaled value with one digit after the point. -/
def temperatureFile (sensorIndex : UInt16) : DataFile :=
  ⟨ascii "temperature" ++ decimal sensorIndex.toNat ++ ascii ".dat",
    temperatureStartAddress + sensorIndex, fun _ value => formatFixed 1 (doubleOfInt16 value)⟩

def appendPowerValue := powerFile.append
def appendBatteryValue := batteryFile.append
def appendBatteryCurrentValue := batteryCurrentFile.append
def appendLoadCurrentValue := loadCurrentFile.append
def appendPVVoltageValue := pvVoltageFile.append
def appendTemperatureValue (sensorIndex : UInt16) := (temperatureFile sensorIndex).append

/-! ## A round of appending -/

/-- A value that was found goes to its file. -/
def appendFound (lastValues : LastValues) (address : UInt16)
    (append : Int16 → Files → Files) (files : Files) : Files :=
  match lastValues[address]? with
  | some value => append value files
  | none => files

/-- The appends of `serverLoop`; `appending` tells how each file takes its line. -/
def appendValues (t : Tables) (appending : Bytes → Appending) (files : Files) : Files :=
  let files := appendFound t.lastValues pvPowerAddress
    (appendPowerValue t.relays (appending powerFile.name)) files
  let files := appendFound t.lastValues pvVoltageAddress
    (appendPVVoltageValue t.relays (appending pvVoltageFile.name)) files
  let files := appendFound t.lastValues batteryVoltageAddress
    (appendBatteryValue t.relays (appending batteryFile.name)) files
  let files := appendFound t.lastValues batteryCurrentAddress
    (appendBatteryCurrentValue t.relays (appending batteryCurrentFile.name)) files
  let files := appendFound t.lastValues loadCurrentAddress
    (appendLoadCurrentValue t.relays (appending loadCurrentFile.name)) files
  [0, 1, 2, 3].foldl (fun files sensorIndex =>
    appendFound t.lastValues (temperatureStartAddress + sensorIndex)
      (appendTemperatureValue sensorIndex t.relays
        (appending (temperatureFile sensorIndex).name)) files) files

/-- The files in the order in which they are written. -/
def dataFiles : List DataFile :=
  [powerFile, pvVoltageFile, batteryFile, batteryCurrentFile, loadCurrentFile, temperatureFile 0,
    temperatureFile 1, temperatureFile 2, temperatureFile 3]

theorem appendValues_eq (t : Tables) (appending : Bytes → Appending) (files : Files) :
    appendValues t appending files =
      dataFiles.foldl (fun files file => appendFound t.lastValues file.address
        (file.append t.relays (appending file.name)) files) files := rfl

theorem dataFiles_names : (dataFiles.map DataFile.name).Nodup := by decide +kernel

/-! ## Samples -/

/-- A line of a data file. -/
structure Sample where
  now : Timestamp
  value : Int16

/-- The sample that a round of appending adds to a file, unless the file cannot be opened. -/
def sampleOf (t : Tables) (appending : Bytes → Appending) (file : DataFile) : List Sample :=
  match t.lastValues[file.address]?, (appending file.name).room with
  | some value, some _ => [⟨(appending file.name).now, value⟩]
  | _, _ => []

def DataFile.sampleLine (file : DataFile) (relays : RelayTable) (sample : Sample) : Bytes :=
  file.line relays sample.now sample.value ++ ascii "\n"

/-- No line of the round is cut short. -/
def WholeLines (t : Tables) (appending : Bytes → Appending) : Prop :=
  ∀ file ∈ dataFiles, ∀ value, t.lastValues[file.address]? = some value →
    (appending file.name).room.Whole
      (file.line t.relays (appending file.name).now value ++ ascii "\n")

/-- The lines of a round are short enough for a limit that all files have. -/
theorem wholeLines_of_all {t : Tables} {appending : Bytes → Appending} {limit : Nat}
    (hroom : ∀ name, (appending name).room = some limit)
    (h : (dataFiles.all fun file => t.lastValues[file.address]?.all fun value =>
      (file.line t.relays (appending file.name).now value ++ ascii "\n").length ≤ limit) = true) :
    WholeLines t appending := by
  intro file hfile value hvalue room hmem
  have hfits := List.all_eq_true.mp h file hfile
  simp only [hvalue, Option.all_some, decide_eq_true_eq] at hfits
  rw [hroom] at hmem
  cases hmem
  exact hfits

theorem appendFound_apply {t : Tables} {appending : Bytes → Appending} {file : DataFile}
    (hwhole : ∀ value, t.lastValues[file.address]? = some value →
      (appending file.name).room.Whole
        (file.line t.relays (appending file.name).now value ++ ascii "\n"))
    (files : Files) (name : Bytes) :
    (appendFound t.lastValues file.address (file.append t.relays (appending file.name)) files
        name).getD [] =
      (files name).getD [] ++ if name = file.name then
        (sampleOf t appending file).flatMap (file.sampleLine t.relays) else [] := by
  unfold appendFound sampleOf DataFile.append appendFile
  cases hvalue : t.lastValues[file.address]? with
  | none => simp
  | some value =>
    cases hroom : (appending file.name).room with
    | none => simp
    | some room =>
      have hfits := hwhole value hvalue room hroom
      by_cases hname : name = file.name
      · subst hname
        simp only [Function.update_self, List.take_of_length_le hfits]
        simp [DataFile.sampleLine]
      · simp [hname]

theorem foldl_appendFound_apply {t : Tables} {appending : Bytes → Appending}
    {list : List DataFile} (hnames : (list.map DataFile.name).Nodup)
    (hwhole : ∀ file ∈ list, ∀ value, t.lastValues[file.address]? = some value →
      (appending file.name).room.Whole
        (file.line t.relays (appending file.name).now value ++ ascii "\n"))
    (files : Files) (name : Bytes) :
    (list.foldl (fun files file => appendFound t.lastValues file.address
        (file.append t.relays (appending file.name)) files) files name).getD [] =
      (files name).getD [] ++ ((list.find? (·.name = name)).elim [] fun file =>
        (sampleOf t appending file).flatMap (file.sampleLine t.relays)) := by
  induction list generalizing files with
  | nil => simp
  | cons file list ih =>
    obtain ⟨hfirst, hrest⟩ := List.nodup_cons.mp hnames
    have hfile := appendFound_apply (hwhole file List.mem_cons_self) files name
    rw [List.foldl_cons, ih hrest (fun f hf => hwhole f (List.mem_cons_of_mem _ hf)), hfile,
      List.append_assoc]
    by_cases hname : file.name = name
    · have hnone : list.find? (·.name = name) = none := by
        rw [List.find?_eq_none]
        intro other hother hsame
        apply hfirst
        rw [hname, ← of_decide_eq_true hsame]
        exact List.mem_map_of_mem hother
      rw [if_pos hname.symm, hnone, List.find?_cons_of_pos (by simpa using hname)]
      simp
    · rw [if_neg (Ne.symm hname), List.find?_cons_of_neg (by simpa using hname), List.nil_append]

theorem find?_of_nodup {list : List DataFile} (hnames : (list.map DataFile.name).Nodup)
    {file : DataFile} (hfile : file ∈ list) : list.find? (·.name = file.name) = some file := by
  induction list with
  | nil => cases hfile
  | cons other list ih =>
    obtain ⟨hfirst, hrest⟩ := List.nodup_cons.mp hnames
    rcases List.mem_cons.mp hfile with rfl | hmem
    · exact List.find?_cons_of_pos (by simp)
    · have hname : other.name ≠ file.name := fun h =>
        hfirst (h ▸ List.mem_map_of_mem hmem)
      rw [List.find?_cons_of_neg (by simpa using hname), ih hrest hmem]

/-- What a round adds to a file. -/
theorem appendValues_apply {t : Tables} {appending : Bytes → Appending}
    (hwhole : WholeLines t appending) (files : Files) {file : DataFile} (hfile : file ∈ dataFiles) :
    (appendValues t appending files file.name).getD [] =
      (files file.name).getD [] ++
        (sampleOf t appending file).flatMap (file.sampleLine t.relays) := by
  rw [appendValues_eq, foldl_appendFound_apply dataFiles_names hwhole,
    find?_of_nodup dataFiles_names hfile]
  rfl

/-! ## Scaled values -/

theorem exists_signed {z : Int} (h : z ≠ 0) : ∃ s n, 0 < n ∧ z = signed s n := by
  rcases Int.lt_or_gt_of_ne h with hneg | hpos
  · exact ⟨.negative, z.natAbs, by omega, by change z = -(z.natAbs : Int); omega⟩
  · exact ⟨.positive, z.natAbs, by omega, by change z = (z.natAbs : Int); omega⟩

theorem near_doubleOfInt16 {value : Int16} {s : Sign} {n : Nat} (hn : 0 < n)
    (h : value.toInt = signed s n) : Near 4 207 s n (doubleOfInt16 value) := by
  have hrange := value.toInt_lt
  have hrange' := value.le_toInt
  have habs : value.toInt.natAbs = n := by rw [h, natAbs_signed]
  have hnear := near_ofNat hn (show n < 2 ^ 53 by omega)
  unfold doubleOfInt16
  rw [habs]
  cases s with
  | positive =>
    change value.toInt = (n : Int) at h
    rw [if_neg (by omega)]
    exact hnear
  | negative =>
    change value.toInt = -(n : Int) at h
    rw [if_pos (by omega)]
    exact hnear.neg (by decide)

theorem toInt_eq_zero {value : Int16} (h : value.toInt = 0) : value = 0 :=
  Int16.toInt_inj.mp h

theorem isDecimal_doubleOfInt16 (value : Int16) : IsDecimal 0 value.toInt (doubleOfInt16 value) := by
  by_cases hzero : value.toInt = 0
  · rw [hzero, toInt_eq_zero hzero]
    exact .zero rfl
  · obtain ⟨s, n, hn, hvalue⟩ := exists_signed hzero
    have hnear := near_doubleOfInt16 hn hvalue
    rw [hvalue]
    refine .near s hn ?_
    rw [pow_zero, div_one]
    exact hnear.mono (Nat.cast_nonneg n) (by decide) (by decide)

/-- A value times a negative power of ten, as the literal of the table denotes it. -/
theorem isDecimal_mul {j : Nat} {multiplier : Float} (value : Int16)
    (hmultiplier : Near 3 207 .positive (1 / 10 ^ j) multiplier)
    (hpositive : isPositiveZero (doubleOfInt16 0 * multiplier) = true) :
    IsDecimal j value.toInt (doubleOfInt16 value * multiplier) := by
  by_cases hzero : value.toInt = 0
  · rw [hzero, toInt_eq_zero hzero]
    exact .zero (unpack_of_isPositiveZero hpositive)
  · obtain ⟨s, n, hn, hvalue⟩ := exists_signed hzero
    have hproduct := (near_doubleOfInt16 hn hvalue).mul hmultiplier (Nat.cast_nonneg n)
      (by positivity) (by decide) (by decide) (by decide)
    have hsign : s * .positive = s := by cases s <;> rfl
    rw [hsign, mul_one_div] at hproduct
    rw [hvalue]
    exact .near s hn (hproduct.mono (by positivity) (by decide) (by decide))

theorem near_tenth : Near 3 207 .positive (1 / 10 ^ 1) (0.1 : Float) := by
  have hnear := near_ofScientific (n := 1) (e := 1) (by decide) (by decide) (by decide)
  rw [Nat.cast_one, Nat.cast_pow, Nat.cast_ofNat] at hnear
  exact hnear

theorem near_one : Near 3 207 .positive (1 / 10 ^ 0) (1.0 : Float) := by
  have hnear := near_ofScientific (n := 10) (e := 1) (by decide) (by decide) (by decide)
  rw [Nat.pow_one, div_self (by norm_num)] at hnear
  rw [pow_zero, div_one]
  exact hnear

/-- The relay table has the keys one to four at any time. -/
theorem getScaledRegisterValue_relays (t : Tables) (address : UInt16) (value : Int16) :
    getScaledRegisterValue t.relays address value =
      getScaledRegisterValue relayMetadata address value := by
  have hsome : ∀ relays : RelayTable, (∀ k : UInt8, k ∈ relays ↔ 1 ≤ k ∧ k ≤ 4) →
      ((getRelayMetadata relays address).isSome = true ↔
        1 ≤ address.toUInt8 ∧ address.toUInt8 ≤ 4) := by
    intro relays hrelays
    rw [getRelayMetadata, ← Std.ExtTreeMap.mem_iff_isSome_getElem?]
    exact hrelays _
  unfold getScaledRegisterValue
  rw [Bool.eq_iff_iff.mpr ((hsome t.relays t.complete).trans
    (hsome relayMetadata mem_relayMetadata).symm)]

/-! ## Charts -/

/-- A chart of the dashboard, with the digits that its values have after the point. -/
structure Chart where
  number : Nat
  file : DataFile
  decimals : Nat

def charts : List Chart :=
  [⟨1, powerFile, 0⟩, ⟨2, batteryFile, 1⟩, ⟨3, batteryCurrentFile, 0⟩, ⟨4, loadCurrentFile, 1⟩,
    ⟨5, pvVoltageFile, 1⟩, ⟨10, temperatureFile 0, 0⟩, ⟨11, temperatureFile 1, 0⟩,
    ⟨12, temperatureFile 2, 0⟩, ⟨13, temperatureFile 3, 0⟩]

/-- The value over a power of ten, with six digits after the point. -/
def shownText (decimals : Nat) (value : Int16) : Bytes :=
  fixedText 6 (decide (value.toInt < 0)) (value.toInt.natAbs * 10 ^ (6 - decimals))

/-- The text is read as a number that is printed as `value / 10 ^ decimals`. -/
def ReadsAs (decimals : Nat) (value : Int16) (text : Bytes) : Prop :=
  ∀ gap, Blank gap → ∃ y, extractDouble (gap ++ text) = some (y, []) ∧
    formatFixed 6 y = shownText decimals value

theorem readsAs_formatGeneral {value : Int16} {j : Nat} {x : Float}
    (h : IsDecimal j value.toInt x) (hj : j ≤ 1) : ReadsAs j value (formatGeneral 6 x) := by
  intro gap hgap
  have hrange := value.toInt_lt
  have hrange' := value.le_toInt
  obtain ⟨y, hread, hy⟩ := h.extractDouble_formatGeneral hgap (by omega) (p := 5) (by decide)
    (by omega)
  refine ⟨y, hread, hy.formatFixed_eq (by omega) ?_⟩
  have hpow : 10 ^ (6 - j) ≤ 10 ^ 6 := Nat.pow_le_pow_right (by decide) (by omega)
  calc value.toInt.natAbs * 10 ^ (6 - j) ≤ 2 ^ 15 * 10 ^ 6 := Nat.mul_le_mul (by omega) hpow
    _ < 2 ^ 47 := by decide

theorem readsAs_formatFixed (value : Int16) :
    ReadsAs 0 value (formatFixed 1 (doubleOfInt16 value)) := by
  intro gap hgap
  have hrange := value.toInt_lt
  have hrange' := value.le_toInt
  have hprinted := (isDecimal_doubleOfInt16 value).formatFixed_eq (p := 1) (by decide) (by omega)
  have hten : value.toInt.natAbs * 10 ^ (1 - 0) = (value.toInt * 10).natAbs := by omega
  have hsign : decide (value.toInt < 0) = decide (value.toInt * 10 < 0) := by
    rw [decide_eq_decide]
    omega
  rw [hten, hsign] at hprinted
  obtain ⟨y, hread, hy⟩ := IsDecimal.extractDouble_fixedText (z := value.toInt * 10) hgap
    (p := 1) (by decide) (by decide) (by omega)
  rw [hprinted]
  have hshown := hy.formatFixed_eq (p := 6) (by decide) (by omega)
  have hsame : (value.toInt * 10).natAbs * 10 ^ (6 - 1) = value.toInt.natAbs * 10 ^ (6 - 0) := by
    omega
  rw [hsame, ← hsign] at hshown
  exact ⟨y, hread, hshown⟩

theorem readsAs_scaled {address : UInt16} {multiplier : Float} {j : Nat} (hj : j ≤ 1)
    (hscaled : ∀ value, getScaledRegisterValue relayMetadata address value =
      doubleOfInt16 value * multiplier)
    (hmultiplier : Near 3 207 .positive (1 / 10 ^ j) multiplier)
    (hpositive : isPositiveZero (doubleOfInt16 0 * multiplier) = true) (value : Int16) :
    ReadsAs j value (formatGeneral 6 (getScaledRegisterValue relayMetadata address value)) := by
  rw [hscaled]
  exact readsAs_formatGeneral (isDecimal_mul value hmultiplier hpositive) hj

/-- What is printed into the file of a chart reads as the exact value. -/
theorem readsAs_valueText {chart : Chart} (hchart : chart ∈ charts) (value : Int16) :
    ReadsAs chart.decimals value (chart.file.valueText relayMetadata value) := by
  have hzero : isPositiveZero (doubleOfInt16 0 * 1.0) = true ∧
      isPositiveZero (doubleOfInt16 0 * 0.1) = true := by decide +kernel
  have hone : ∀ address ∈ [pvPowerAddress, batteryCurrentAddress], ∀ value,
      getScaledRegisterValue relayMetadata address value = doubleOfInt16 value * 1.0 := by
    intro address haddress value
    rcases List.mem_pair.mp haddress with rfl | rfl <;> rfl
  have htenth : ∀ address ∈ [batteryVoltageAddress, loadCurrentAddress, pvVoltageAddress],
      ∀ value, getScaledRegisterValue relayMetadata address value =
        doubleOfInt16 value * 0.1 := by
    intro address haddress value
    simp only [List.mem_cons, List.not_mem_nil, or_false] at haddress
    rcases haddress with rfl | rfl | rfl <;> rfl
  simp only [charts, List.mem_cons, List.not_mem_nil, or_false] at hchart
  rcases hchart with rfl | rfl | rfl | rfl | rfl | rfl | rfl | rfl | rfl
  · exact readsAs_scaled (by decide) (hone _ (by simp)) near_one hzero.1 value
  · exact readsAs_scaled (by decide) (htenth _ (by simp)) near_tenth hzero.2 value
  · exact readsAs_scaled (by decide) (hone _ (by simp)) near_one hzero.1 value
  · exact readsAs_scaled (by decide) (htenth _ (by simp)) near_tenth hzero.2 value
  · exact readsAs_scaled (by decide) (htenth _ (by simp)) near_tenth hzero.2 value
  · exact readsAs_formatFixed value
  · exact readsAs_formatFixed value
  · exact readsAs_formatFixed value
  · exact readsAs_formatFixed value

/-! ## Lines -/

/-- Without white space. -/
def Solid (s : Bytes) : Prop := ∀ b ∈ s, isSpace b = false

@[simp] theorem solid_append {s t : Bytes} : Solid (s ++ t) ↔ Solid s ∧ Solid t :=
  List.forall_mem_append

theorem solid_digits {ds : Bytes} (h : Digits ds) : Solid ds :=
  fun b hb => isSpace_of_isDigit (h b hb)

theorem digits_numeral (width n : Nat) : Digits (digits width n) := by
  induction width generalizing n with
  | zero => exact fun b hb => nomatch hb
  | succ width ih =>
    intro b hb
    rcases List.mem_append.mp hb with hb | hb
    · exact ih _ b hb
    · rw [List.mem_singleton.mp hb, isDigit, Bool.and_eq_true, decide_eq_true_eq, decide_eq_true_eq,
        UInt8.le_iff_toNat_le, UInt8.le_iff_toNat_le, toNat_digit]
      exact ⟨Nat.le_add_right 48 _, by change 48 + n % 10 ≤ 57; omega⟩

theorem solid_storedText (now : Timestamp) : Solid (storedText now) := by
  have hmarks : Solid (ascii "-") ∧ Solid (ascii "T") ∧ Solid (ascii ":") ∧ Solid (ascii "Z") := by
    unfold Solid
    decide
  obtain ⟨hdash, ht, hcolon, hz⟩ := hmarks
  have hdigits : ∀ width n, Solid (digits width n) := fun width n =>
    solid_digits (digits_numeral width n)
  simp only [storedText, Timestamp.text, solid_append, hdash, ht, hcolon, hz, hdigits, and_self]

theorem storedText_ne_nil (now : Timestamp) : storedText now ≠ [] := by
  have hz : ascii "Z" ≠ [] := by decide
  exact List.append_ne_nil_of_right_ne_nil _ hz

theorem isWord_storedText (now : Timestamp) : isWord (storedText now) :=
  ⟨storedText_ne_nil now, solid_storedText now⟩

theorem solid_sign (negative : Bool) : Solid (if negative then ascii "-" else []) := by
  cases negative <;> (unfold Solid; decide)

theorem isWord_fixedText (p : Nat) (negative : Bool) (v : Nat) : isWord (fixedText p negative v) := by
  obtain ⟨whole, fraction, hwhole, -, hfraction, -, -, htext⟩ := fixedText_eq p negative v
  have hpoint : Solid (('.' : Byte) :: fraction) := by
    intro b hb
    rcases List.mem_cons.mp hb with rfl | hb
    · decide
    · exact solid_digits hfraction b hb
  rw [htext]
  refine ⟨by simp, ?_⟩
  exact solid_append.mpr ⟨solid_sign negative, solid_append.mpr ⟨solid_digits hwhole, hpoint⟩⟩

theorem isWord_formatGeneral (p : Nat) {x : Float} (hx : isFinite x = true) :
    isWord (formatGeneral p x) := by
  obtain ⟨q, hwhole, htext⟩ := formatGeneral_eq p hx
  rw [htext]
  refine ⟨?_, fun b hb => ?_⟩
  · unfold NumeralParts.text NumeralParts.magnitude
    simp [hwhole]
  · have hnumeral := IsNumeral.bytes ⟨q, rfl⟩ b hb
    cases hspace : isSpace b with
    | false => rfl
    | true =>
      rw [Json.isNumeralByte_of_isSpace hspace] at hnumeral
      cases hnumeral

theorem isWord_valueText {file : DataFile} (hfile : file ∈ dataFiles) (relays : RelayTable)
    (value : Int16) : isWord (file.valueText relays value) := by
  have hscaled : ∀ address, isWord (formatGeneral 6 (getScaledRegisterValue relays address value)) :=
    fun address => isWord_formatGeneral 6 (isFinite_getScaledRegisterValue relays address value)
  have hfixed : isWord (formatFixed 1 (doubleOfInt16 value)) := by
    have hrange := value.toInt_lt
    have hrange' := value.le_toInt
    rw [(isDecimal_doubleOfInt16 value).formatFixed_eq (p := 1) (by decide) (by omega)]
    exact isWord_fixedText _ _ _
  simp only [dataFiles, List.mem_cons, List.not_mem_nil, or_false] at hfile
  rcases hfile with rfl | rfl | rfl | rfl | rfl | rfl | rfl | rfl | rfl
  · exact hscaled _
  · exact hscaled _
  · exact hscaled _
  · exact hscaled _
  · exact hscaled _
  · exact hfixed
  · exact hfixed
  · exact hfixed
  · exact hfixed

/-- The bytes that `trimString` removes are white space. -/
theorem trimString_solid {first last : Bytes} (gap : Bytes) (hfirst : isWord first)
    (hlast : isWord last) : trimString (first ++ (gap ++ last)) = first ++ (gap ++ last) := by
  have htrim : ∀ {b : Byte}, isSpace b = false →
      (b == ' ' || b == '\t' || b == '\r' || b == '\n') = false := by
    intro b hb
    simp only [Bool.or_eq_false_iff, beq_eq_false_iff_ne]
    refine ⟨⟨⟨?_, ?_⟩, ?_⟩, ?_⟩ <;> rintro rfl <;> revert hb <;> decide
  apply trimBy_of_trimmedBy
  obtain ⟨b, rest, rfl⟩ := List.exists_cons_of_ne_nil hfirst.1
  refine ⟨(stops_cons _ _ _).mpr (htrim (hfirst.2 b (by simp))), fun hne => ?_⟩
  have hnil : gap ++ last ≠ [] := List.append_ne_nil_of_right_ne_nil _ hlast.1
  rw [List.getLast_append_of_ne_nil _ hnil, List.getLast_append_of_ne_nil _ hlast.1]
  exact htrim (hlast.2 _ (List.getLast_mem hlast.1))

theorem blank_space : Blank (ascii " ") := by
  unfold Blank
  decide

/-- A line of a chart's file, read within bounds. -/
theorem readPoint_line {chart : Chart} (hchart : chart ∈ charts)
    (hfile : chart.file ∈ dataFiles) (now : Timestamp) (value : Int16) :
    ∃ y, formatFixed 6 y = shownText chart.decimals value ∧
      ∀ fromTimestamp toTimestamp,
        readPoint fromTimestamp toTimestamp (chart.file.line relayMetadata now value) =
          if storedText now < fromTimestamp ∨ toTimestamp < storedText now then none
          else some (storedText now, y) := by
  have hword := isWord_storedText now
  have hvalue := isWord_valueText hfile relayMetadata value
  obtain ⟨y, hread, hshown⟩ := readsAs_valueText hchart value (ascii " ") blank_space
  have hstops : Stops (fun b => !isSpace b)
      (ascii " " ++ chart.file.valueText relayMetadata value) :=
    (stops_cons _ _ _).mpr (by decide)
  refine ⟨y, hshown, fun fromTimestamp toTimestamp => ?_⟩
  rw [DataFile.line, List.append_assoc, readPoint, trimString_solid _ hword hvalue,
    nextWord_append hword hstops]
  simp only [Option.bind_eq_bind, Option.bind_some, hread]

/-! ## Files of samples -/

/-- A line of a chart's reply. -/
def sampleText (decimals : Nat) (sample : Sample) : Bytes :=
  storedText sample.now ++ ascii " " ++ shownText decimals sample.value ++ ascii "\n"

def InRange (fromTimestamp toTimestamp : Bytes) (sample : Sample) : Prop :=
  ¬(storedText sample.now < fromTimestamp ∨ toTimestamp < storedText sample.now)

instance (fromTimestamp toTimestamp : Bytes) (sample : Sample) :
    Decidable (InRange fromTimestamp toTimestamp sample) := inferInstanceAs (Decidable ¬_)

theorem valueText_relays (t : Tables) {file : DataFile} (hfile : file ∈ dataFiles) (value : Int16) :
    file.valueText t.relays value = file.valueText relayMetadata value := by
  have hscaled : ∀ address, formatGeneral 6 (getScaledRegisterValue t.relays address value) =
      formatGeneral 6 (getScaledRegisterValue relayMetadata address value) := fun address => by
    rw [getScaledRegisterValue_relays]
  simp only [dataFiles, List.mem_cons, List.not_mem_nil, or_false] at hfile
  rcases hfile with rfl | rfl | rfl | rfl | rfl | rfl | rfl | rfl | rfl
  · exact hscaled _
  · exact hscaled _
  · exact hscaled _
  · exact hscaled _
  · exact hscaled _
  · rfl
  · rfl
  · rfl
  · rfl

/-- The text that samples make in a file. -/
def DataFile.content (file : DataFile) (samples : List Sample) : Bytes :=
  samples.flatMap (file.sampleLine relayMetadata)

theorem newline_not_mem_line {file : DataFile} (hfile : file ∈ dataFiles) (now : Timestamp)
    (value : Int16) : newline ∉ file.line relayMetadata now value := by
  have hsolid : ∀ {s : Bytes}, Solid s → newline ∉ s := fun hs hmem => by
    have hspace := hs newline hmem
    revert hspace
    decide
  simp only [DataFile.line, List.mem_append, not_or]
  exact ⟨⟨hsolid (solid_storedText now), by decide⟩,
    hsolid (isWord_valueText hfile relayMetadata value).2⟩

theorem getLines_content {file : DataFile} (hfile : file ∈ dataFiles) (samples : List Sample) :
    getLines (file.content samples) =
      samples.map fun sample => file.line relayMetadata sample.now sample.value := by
  have hcontent : file.content samples =
      (samples.map fun sample => file.line relayMetadata sample.now sample.value).flatMap
        fun line => line ++ [newline] := by
    rw [DataFile.content, List.flatMap_map]
    rfl
  have hnewline : ∀ line ∈ samples.map fun sample =>
      file.line relayMetadata sample.now sample.value, newline ∉ line := by
    intro line hline
    obtain ⟨sample, -, rfl⟩ := List.mem_map.mp hline
    exact newline_not_mem_line hfile sample.now sample.value
  have hlines := splitLines_flatMap hnewline
  rw [hcontent, getLines, hlines, if_pos rfl]

/-- The chart reader finds the samples of the file that are in range, and each is printed with
its exact value. -/
theorem pointsInRange_content {chart : Chart} (hchart : chart ∈ charts)
    (hfile : chart.file ∈ dataFiles) (fromTimestamp toTimestamp : Bytes) (samples : List Sample) :
    (pointsInRange (some (chart.file.content samples)) fromTimestamp toTimestamp).map pointText =
      (samples.filter (InRange fromTimestamp toTimestamp)).map (sampleText chart.decimals) := by
  rw [pointsInRange, getLines_content hfile, List.filterMap_map]
  induction samples with
  | nil => rfl
  | cons sample samples ih =>
    obtain ⟨y, hshown, hpoint⟩ := readPoint_line hchart hfile sample.now sample.value
    have hread := hpoint fromTimestamp toTimestamp
    rw [List.filterMap_cons, Function.comp_apply, hread]
    by_cases hrange : InRange fromTimestamp toTimestamp sample
    · rw [if_neg hrange, List.filter_cons_of_pos (by simpa using hrange), List.map_cons,
        List.map_cons, ih]
      congr 1
      simp only [pointText, hshown, sampleText]
    · rw [if_pos (not_not.mp hrange), List.filter_cons_of_neg (by simpa using hrange), ih]

end InverterMonitor.Monitor
